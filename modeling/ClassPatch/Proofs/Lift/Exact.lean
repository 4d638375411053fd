import ClassPatch.Proofs.Lift.Tight
import ClassPatch.Proofs.Lower.Known

/-!
Code that is laid out with the very instructions that it was lifted from. If each of them was written
in its shortest form, the code is written as it was, byte for byte.
-/

namespace ClassPatch

/-- An instruction and the element that it is written as: the same instruction, or a branch to the
labels of its targets. -/
inductive LaidSame (labels : Std.HashMap Nat Label) : Decoded → LayoutElement → Prop where
  | instruction (x : StoredInstruction) : LaidSame labels (.instruction x) (.instruction x)
  | branch {jump : Branch Nat Nat} {b : Branch Label Label}
    (h : Branch.Rel (fun o k => labels[o]? = some k) (fun o k => labels[o]? = some k) jump b) :
    LaidSame labels (.branch jump) (.branch b)

namespace LaidSame

variable {labels : Std.HashMap Nat Label} {d : Decoded} {e : LayoutElement}

theorem laidAs (h : LaidSame labels d e) : LaidAs labels d e := by
  cases h with
  | instruction x => exact .instruction rfl
  | branch h => exact .branch h

theorem takesBytes (h : LaidSame labels d e) : e.takesBytes = true := h.laidAs.takesBytes

theorem encode_eq (h : LaidSame labels d e) {found : LabelOffsets} {o codeLength size : Nat}
    (hspans : d.Spans ⟨o, codeLength⟩ size)
    (hfound : ∀ (t : Nat) (k : Label), labels[t]? = some k → found[k]? = some t) :
    e.encode found o = .ok (d.encode o) := by
  cases h with
  | instruction x => rfl
  | @branch jump b hrel =>
    obtain ⟨-, haligned, hshort⟩ := hspans
    have hmap : (b.aligned o).mapM (LayoutElement.encode.near found o)
        (LayoutElement.encode.far found o) = .ok (jump.map (fun t : Nat => Int16.ofInt (t - o))
          fun t : Nat => Int32.ofInt (t - o)) := by
      rw [hrel.aligned haligned]
      refine Branch.mapM_eq_map hrel (fun t ht k hk => ?_) fun t k hk => ?_
      · exact LayoutElement.near_eq_ok (hfound t k hk) (hshort t ht)
      · exact LayoutElement.far_eq_ok (hfound t k hk)
    exact bind_of_eq_ok hmap _

end LaidSame

section Known

variable {s : Rereading} {r : Resolver} {labels : Std.HashMap Nat Label} {codeLength : Nat}

theorem forall₂_elementLowered_labelElement (s : Rereading) (labels : Std.HashMap Nat Label)
    (o : Nat) :
    List.Forall₂ (ElementLowered s) (labelElement labels o) (placedLabel labels o) := by
  unfold labelElement placedLabel
  cases labels[o]? with
  | none => exact .nil
  | some k => exact .cons (.label k) .nil

namespace Pool.Knows

variable (h : s.pool.Knows r r.bootstrapMethods.length) (hr : r.RefersBack) (hwf : ¬ s.wellFormed)

include h hr hwf

theorem exists_elementLowered {d : Decoded} {e : BodyElement} (he : ElementLifted r labels d e) :
    ∃ l, ElementLowered s e l ∧ LaidSame labels d l := by
  cases he with
  | instruction hx => exact ⟨_, .instruction (absurd · hwf) (h.instruction hr hx), .instruction _⟩
  | branch hjump => exact ⟨_, .branch _, .branch hjump⟩

theorem exists_elementsLowered {decoded : List (Nat × Decoded)} {body : List (List BodyElement)}
    (hbody : List.Forall₂ (fun x es => r.bodyElement labels x.1 x.2 = .ok es) decoded body) :
    ∃ elements,
      List.Forall₂ (ElementLowered s) (body.flatten ++ labelElement labels codeLength) elements
        ∧ BodyLaid (LaidSame labels) labels codeLength decoded elements := by
  induction hbody with
  | nil => exact ⟨_, forall₂_elementLowered_labelElement s labels codeLength, .stop⟩
  | @cons x es decoded body hhead _ ih =>
    obtain ⟨e, he, rfl⟩ := elementLifted_of_bodyElement hhead
    obtain ⟨l, hlowered, hl⟩ := h.exists_elementLowered hr hwf he
    obtain ⟨elements, helements, hlaid⟩ := ih
    refine ⟨placedLabel labels x.1 ++ l :: elements, ?_, .cons hl.takesBytes hl hlaid⟩
    simp only [List.flatten_cons, List.append_assoc, List.singleton_append]
    exact List.rel_append (forall₂_elementLowered_labelElement s labels x.1)
      (.cons hlowered helements)

end Pool.Knows

end Known

namespace BodyLaid

theorem mono {R S : Decoded → LayoutElement → Prop} (hRS : ∀ {d e}, R d e → S d e)
    {labels : Std.HashMap Nat Label} {codeLength : Nat} {decoded : List (Nat × Decoded)}
    {elements : List LayoutElement} (h : BodyLaid R labels codeLength decoded elements) :
    BodyLaid S labels codeLength decoded elements := by
  induction h with
  | stop => exact .stop
  | cons htakes he _ ih => exact .cons htakes (hRS he) ih

section Parts

variable {labels : Std.HashMap Nat Label} {found : LabelOffsets} {codeLength : Nat}
  {decoded : List (Nat × Decoded)} {elements : List LayoutElement}

/-- What elements are written as, one after the other. -/
def WrittenAs (found : LabelOffsets) (offset : Nat) (elements : List LayoutElement)
    (bytes : Bytes) : Prop :=
  ∃ parts, (placeFrom offset elements).mapM (fun x => x.2.encode found x.1) = .ok parts
    ∧ parts.flatten = bytes

theorem WrittenAs.nil (offset : Nat) : WrittenAs found offset [] [] := ⟨[], rfl, rfl⟩

theorem WrittenAs.cons {offset : Nat} {e : LayoutElement} {bytes rest : Bytes}
    (he : e.encode found offset = .ok bytes)
    (h : WrittenAs found (offset + e.width offset) elements rest) :
    WrittenAs found offset (e :: elements) (bytes ++ rest) := by
  obtain ⟨parts, hparts, rfl⟩ := h
  exact ⟨bytes :: parts, mapM_eq_ok.2 (.cons he (mapM_eq_ok.1 hparts)), rfl⟩

theorem WrittenAs.label {offset : Nat} {bytes : Bytes} (o : Nat)
    (h : WrittenAs found offset elements bytes) :
    WrittenAs found offset (placedLabel labels o ++ elements) bytes := by
  unfold placedLabel
  cases labels[o]? with
  | none => exact h
  | some k => exact WrittenAs.cons (e := .label k) rfl h

theorem writtenAs (h : BodyLaid (LaidSame labels) labels codeLength decoded elements)
    (hfound : ∀ (t : Nat) (k : Label), labels[t]? = some k → found[k]? = some t) {offset : Nat}
    (hcontiguous : Contiguous codeLength offset decoded)
    (hsame : placedBoundaries offset elements = boundaryOffsets decoded codeLength) :
    WrittenAs found offset elements (decoded.flatMap fun x => x.2.encode x.1) := by
  induction h generalizing offset with
  | stop =>
    rw [← List.append_nil (placedLabel _ _)]
    exact (WrittenAs.nil offset).label codeLength
  | @cons o d e decoded elements htakes he _ ih =>
    cases hcontiguous with
    | @cons _ size _ _ hspans hrest =>
      rw [placedBoundaries_label, placedBoundaries_of_takesBytes htakes] at hsame
      have htail : placedBoundaries (o + e.width o) elements
          = boundaryOffsets decoded codeLength := (List.cons.inj hsame).2
      -- the next instruction stands where the next element does
      have hnext := getElem?_zero_placedBoundaries (o + e.width o) elements
      rw [htail, hrest.getElem?_zero] at hnext
      rw [Option.some.inj hnext] at hrest
      exact ((ih hrest htail).cons (he.encode_eq hspans hfound)).label o

end Parts

section Assemble

variable {labels : Std.HashMap Nat Label} {codeLength : Nat} {decoded : List (Nat × Decoded)}
  {elements : List LayoutElement}

theorem eq_of_mem_zip (hsame : placedBoundaries 0 elements = boundaryOffsets decoded codeLength)
    {o n : Nat} (hmem : (o, n)
      ∈ (boundaryOffsets decoded codeLength).zip (placedBoundaries 0 elements)) : o = n := by
  rw [hsame] at hmem
  obtain ⟨i, hi⟩ := List.getElem?_of_mem hmem
  obtain ⟨ho, hn⟩ := List.getElem?_zip_eq_some.1 hi
  exact Option.some.inj (ho.symm.trans hn)

theorem assemble_of_overlong (h : BodyLaid (LaidAs labels) labels codeLength decoded elements)
    (hcontiguous : Contiguous codeLength 0 decoded) (hdecoded : DecodedFrom codeLength 0 decoded)
    (hlabels : AtBoundaries labels decoded codeLength)
    (hsame : placedBoundaries 0 elements = boundaryOffsets decoded codeLength)
    (hlong : maxCodeLength < codeLength) :
    assemble elements = .error (.codeOverflow codeLength) := by
  rw [assemble_of_widenAll (h.widenAll_eq_of_same hcontiguous hdecoded hlabels hsame),
    ← eq_of_mem_zip hsame (h.stop_mem 0), if_pos hlong]

theorem assemble_eq (h : BodyLaid (LaidSame labels) labels codeLength decoded elements)
    (hcontiguous : Contiguous codeLength 0 decoded) (hdecoded : DecodedFrom codeLength 0 decoded)
    (hlabels : AtBoundaries labels decoded codeLength) (htight : Tight codeLength decoded) :
    assemble elements = if maxCodeLength < codeLength then .error (.codeOverflow codeLength)
      else .ok ⟨decoded.flatMap fun x => x.2.encode x.1, labelOffsets (placeFrom 0 elements)⟩ := by
  have hlaid : BodyLaid (LaidAs labels) labels codeLength decoded elements :=
    h.mono LaidSame.laidAs
  have hsame : placedBoundaries 0 elements = boundaryOffsets decoded codeLength := by
    refine hlaid.placedBoundaries_eq hcontiguous htight fun i o n k k' ho hn => ?_
    cases (rel_of_getElem? (h.forall₂ 0) ho hn).1
    rfl
  have hfound (t : Nat) (k : Label) (hk : labels[t]? = some k) :
      (labelOffsets (placeFrom 0 elements))[k]? = some t := by
    obtain ⟨n, hn⟩ := h.exists_moved (hlabels.mem t k hk) 0
    obtain rfl := eq_of_mem_zip hsame hn
    exact (h.labelOffsets_iff hdecoded.increasing hlabels).2 ⟨t, hn, hk⟩
  obtain ⟨parts, hparts, hbytes⟩ := h.writtenAs hfound hcontiguous hsame
  split
  next hlong => exact hlaid.assemble_of_overlong hcontiguous hdecoded hlabels hsame hlong
  next hshort =>
    rw [assemble_of_widenAll (hlaid.widenAll_eq_of_same hcontiguous hdecoded hlabels hsame),
      ← eq_of_mem_zip hsame (h.stop_mem 0), if_neg hshort, bind_of_eq_ok hparts, hbytes]
    rfl

end Assemble

end BodyLaid

namespace CodeLifted

variable {r : Resolver} {context : MethodContext} {x : Stored.Code} {parts : CodeParts} {c : Code}
  {elements : List LayoutElement}

theorem exists_elementsLowered (h : CodeLifted r context x parts c) {s : Rereading}
    (hs : s.pool.Knows r r.bootstrapMethods.length) (hr : r.RefersBack) (hwf : ¬ s.wellFormed) :
    ∃ elements, List.Forall₂ (ElementLowered s) c.elements elements
      ∧ BodyLaid (LaidSame parts.labels) parts.labels parts.codeLength parts.decoded elements := by
  obtain ⟨body, hbody, heq⟩ := h.elements
  rw [heq]
  exact hs.exists_elementsLowered hr hwf (mapM_eq_ok.1 hbody)

/-- Canonical code is written again byte for byte, unless it is longer than code can be. -/
theorem assemble_of_canonical (h : CodeLifted r context x parts c) (hcode : Canonical x.code)
    (hlaid : BodyLaid (LaidSame parts.labels) parts.labels parts.codeLength parts.decoded
      elements) :
    assemble elements = if maxCodeLength < x.code.length then .error (.codeOverflow x.code.length)
      else .ok ⟨x.code, labelOffsets (placeFrom 0 elements)⟩ := by
  obtain ⟨decoded, hdecoded, hbytes⟩ := hcode
  obtain rfl := Except.ok.inj (hdecoded.symm.trans h.decoded)
  have htight := tight_of_canonical hdecoded hbytes
  rw [← h.codeLength] at htight ⊢
  rw [hlaid.assemble_eq h.contiguous h.decodedFrom h.atBoundaries htight, ← hbytes]

theorem bytes_eq_of_canonical (h : CodeLifted r context x parts c) {s : Rereading}
    (hs : s.pool.Knows r r.bootstrapMethods.length) (hr : r.RefersBack) (hwf : ¬ s.wellFormed)
    (hcode : Canonical x.code) {p q : Pool} (hp : p.Remembers s.pool)
    (hrun : (c.elements.mapM PoolM.layoutElement).run p = (.ok elements, q)) {a : AssembledCode}
    (hassemble : assemble elements = .ok a) :
    a.bytes = x.code ∧ x.code.length ≤ maxCodeLength := by
  obtain ⟨elements', hlowered, hlaid⟩ := h.exists_elementsLowered hs hr hwf
  have hrun' := PoolM.Repeats.mapM (hlowered.imp fun _ _ => ElementLowered.repeats) p hp
  rw [hrun] at hrun'
  cases hrun'
  rw [h.assemble_of_canonical hcode hlaid] at hassemble
  split at hassemble
  next => cases hassemble
  next hshort =>
    cases hassemble
    exact ⟨rfl, Nat.le_of_not_lt hshort⟩

end CodeLifted

end ClassPatch
