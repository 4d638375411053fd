import ClassPatch.Proofs.Lift.Lengthened
import ClassPatch.Proofs.Lift.Places

/-!
Code in which each instruction has its shortest form. Written again, each instruction stands where
it stood, unless the index of a constant that is loaded no longer takes as many bytes.
-/

namespace ClassPatch

/-- The element of an instruction, with the form of jumps that was chosen. -/
def LaidWide (labels : Std.HashMap Nat Label) (d : Decoded) (e : LayoutElement) : Prop :=
  ∃ l, LaidAs labels d l ∧ l.Widened e

/-- Loads of constants keep their width: their indices stay on the same side of what a byte can
hold. -/
def LoadsStay (decoded decoded' : List (Nat × Decoded)) : Prop :=
  ∀ (i o o' : Nat) (k k' : ConstantIndex), decoded[i]? = some (o, .instruction (.ldc k)) →
    decoded'[i]? = some (o', .instruction (.ldc k')) → (k ≤ 0xFF ↔ k' ≤ 0xFF)

theorem LayoutElement.Widened.takesBytes_eq {e f : LayoutElement} (h : e.Widened f) :
    f.takesBytes = e.takesBytes := by
  cases h <;> rfl

section Widened

variable {labels : Std.HashMap Nat Label} {o : Nat} {elements widened : List LayoutElement}

theorem exists_of_widened_placedLabel
    (h : List.Forall₂ LayoutElement.Widened (placedLabel labels o ++ elements) widened) :
    ∃ rest, widened = placedLabel labels o ++ rest
      ∧ List.Forall₂ LayoutElement.Widened elements rest := by
  unfold placedLabel at h ⊢
  cases hlabel : labels[o]? with
  | none =>
    rw [hlabel] at h
    exact ⟨widened, rfl, h⟩
  | some k =>
    rw [hlabel] at h
    obtain ⟨e, rest, he, hrest, rfl⟩ := List.forall₂_cons_left_iff.1 h
    cases he
    exact ⟨rest, rfl, hrest⟩

theorem forall₂_placedInstructions (h : List.Forall₂ LayoutElement.Widened elements widened)
    (offset offset' : Nat) : List.Forall₂ (fun x y => x.2.Widened y.2)
      (placedInstructions offset elements) (placedInstructions offset' widened) := by
  induction h generalizing offset offset' with
  | nil => exact .nil
  | @cons e f elements widened he _ ih =>
    have htakes := he.takesBytes_eq
    cases hf : e.takesBytes with
    | true =>
      rw [hf] at htakes
      rw [placedInstructions_cons hf, placedInstructions_cons htakes]
      exact .cons he (ih _ _)
    | false =>
      cases he with
      | label k => exact ih _ _
      | instruction | branch => cases hf

theorem forall₂_of_decodesTo {found : LabelOffsets} {decoded : List (Nat × Decoded)} {offset : Nat}
    (h : DecodesTo found (placeFrom offset elements) decoded) :
    List.Forall₂ (fun x y => x.1 = y.1 ∧ ∀ i, x.2 = .instruction i ↔ y.2 = .instruction i)
      (placedInstructions offset elements) decoded := by
  induction elements generalizing offset decoded with
  | nil =>
    cases h
    exact .nil
  | cons l elements ih =>
    unfold placeFrom at h
    cases h with
    | label k h => exact ih h
    | instruction i h =>
      refine .cons ⟨rfl, fun j => ⟨fun hj => ?_, fun hj => ?_⟩⟩ (ih h)
      · cases hj
        rfl
      · cases hj
        rfl
    | branch hjump h =>
      refine .cons ⟨rfl, fun j => ⟨fun hj => ?_, fun hj => ?_⟩⟩ (ih h)
      · cases hj
      · cases hj

end Widened

namespace BodyLaid

variable {labels : Std.HashMap Nat Label} {codeLength : Nat} {decoded : List (Nat × Decoded)}
  {elements widened : List LayoutElement}

theorem wide (h : BodyLaid (LaidAs labels) labels codeLength decoded elements)
    (hwidened : List.Forall₂ LayoutElement.Widened elements widened) :
    BodyLaid (LaidWide labels) labels codeLength decoded widened := by
  induction h generalizing widened with
  | stop =>
    rw [← List.append_nil (placedLabel _ _)] at hwidened
    obtain ⟨_, rfl, hnil⟩ := exists_of_widened_placedLabel hwidened
    cases hnil
    rw [List.append_nil]
    exact .stop
  | cons htakes he _ ih =>
    obtain ⟨_, rfl, hcons⟩ := exists_of_widened_placedLabel hwidened
    obtain ⟨e, rest, hwide, hrest, rfl⟩ := List.forall₂_cons_left_iff.1 hcons
    exact .cons (hwide.takesBytes_eq.trans htakes) ⟨_, he, hwide⟩ (ih hrest)

theorem fits (h : BodyLaid (LaidWide labels) labels codeLength decoded elements)
    (hdecoded : DecodedFrom codeLength 0 decoded) (hlabels : AtBoundaries labels decoded codeLength) :
    ∀ e ∈ elements, e.Fits (labelOffsets (placeFrom 0 elements)) (endOffset 0 elements) := by
  intro e he
  cases e with
  | label | instruction => exact trivial
  | branch b =>
    obtain ⟨n, hplaced⟩ := mem_placeFrom_iff.2 he
    obtain ⟨⟨o, d⟩, hd, ⟨l, hlaid, hwide⟩, -⟩ :=
      exists_of_mem_right (h.forall₂ 0) (mem_placedInstructions hplaced)
    cases hwide with
    | branch hwide =>
      cases hlaid with
      | branch hrel =>
        obtain ⟨htargets, hcases⟩ := hdecoded.fits _ hd
        refine ⟨fun k hk q hq => ?_, hwide.casesFit (hrel.casesFit hcases)⟩
        rw [hwide.targets_eq] at hk
        obtain ⟨t, ht, hlabel⟩ := exists_of_mem_right hrel.targets hk
        obtain ⟨t', hmem, hlabel'⟩ := (h.labelOffsets_iff hdecoded.increasing hlabels).1 hq
        obtain rfl := hlabels.injective _ _ _ hlabel hlabel'
        exact ((h.moves hdecoded.increasing).lt_iff hmem (h.stop_mem 0)).1 (htargets t ht)

theorem exists_decoded (h : BodyLaid (LaidAs labels) labels codeLength decoded elements)
    (hdecoded : DecodedFrom codeLength 0 decoded) (hlabels : AtBoundaries labels decoded codeLength)
    {a : AssembledCode} (hassemble : assemble elements = .ok a) :
    ∃ widened decoded', widenAll elements = .ok widened ∧ LaidOut widened a
      ∧ decodeCode a.bytes = .ok decoded'
      ∧ DecodesTo a.labels (placeFrom 0 widened) decoded' := by
  obtain ⟨widened, hall, hwidened, hfound, hlaid⟩ := laidOut_of_assemble hassemble
  have hlaidOut := hlaid (hfound ▸ (h.wide hwidened).fits hdecoded hlabels)
  obtain ⟨decoded', hdecoded', hto⟩ := hlaidOut.decodes
  exact ⟨widened, decoded', hall, hlaidOut, hdecoded', hto⟩

end BodyLaid

theorem StoredInstruction.le_iff_of_width_ldc {k k' : ConstantIndex}
    (h : width (.ldc k) = width (.ldc k')) : k ≤ 0xFF ↔ k' ≤ 0xFF := by
  simp only [width] at h
  grind

theorem Tight.getElem?_succ {codeLength : Nat} {decoded : List (Nat × Decoded)}
    (h : Tight codeLength decoded) {i o : Nat} {d : Decoded} (hd : decoded[i]? = some (o, d)) :
    (boundaryOffsets decoded codeLength)[i + 1]? = some (o + d.width) := by
  induction decoded generalizing i with
  | nil => cases hd
  | cons x decoded ih =>
    obtain ⟨hstart, htight⟩ := h
    cases i with
    | zero =>
      cases hd
      rw [← hstart]
      cases decoded <;> rfl
    | succ i => exact ih htight hd

theorem LaidAs.width_eq_of_spans {labels : Std.HashMap Nat Label} {d : Decoded} {e : LayoutElement}
    (h : LaidAs labels d e) {o codeLength size : Nat} (hspans : d.Spans ⟨o, codeLength⟩ size)
    (hloads : ∀ k k', d = .instruction (.ldc k) → e = .instruction (.ldc k') →
      (k ≤ 0xFF ↔ k' ≤ 0xFF)) : e.width o = d.width := by
  cases h with
  | @instruction x y hform =>
    refine StoredInstruction.width_eq_of_loaded hform fun k hk k' hk' => ?_
    cases x with
    | ldc =>
      cases y with
      | ldc =>
        cases hk
        cases hk'
        exact hloads _ _ rfl rfl
      | _ => cases hk'
    | _ => cases hk
  | @branch jump b hrel =>
    have haligned : b.aligned o = b := hrel.aligned hspans.2.1
    change (b.aligned o).width = jump.width
    rw [haligned]
    exact hrel.width_eq.symm

namespace BodyLaid

variable {labels : Std.HashMap Nat Label} {codeLength : Nat} {decoded : List (Nat × Decoded)}
  {elements : List LayoutElement}

theorem placedBoundaries_eq (h : BodyLaid (LaidAs labels) labels codeLength decoded elements)
    {offset : Nat} (hcontiguous : Contiguous codeLength offset decoded)
    (htight : Tight codeLength decoded)
    (hloads : ∀ (i o n : Nat) (k k' : ConstantIndex), decoded[i]? = some (o, .instruction (.ldc k)) →
      (placedInstructions offset elements)[i]? = some (n, .instruction (.ldc k')) →
      (k ≤ 0xFF ↔ k' ≤ 0xFF)) :
    placedBoundaries offset elements = boundaryOffsets decoded codeLength := by
  induction h generalizing offset with
  | stop =>
    cases hcontiguous
    rw [← List.append_nil (placedLabel _ _), placedBoundaries_label]
    rfl
  | @cons o d e decoded elements htakes he _ ih =>
    cases hcontiguous with
    | cons hspans hrest =>
      obtain ⟨hstart, htight⟩ := htight
      rw [placedInstructions_label, placedInstructions_cons htakes] at hloads
      have hwidth : e.width o = d.width := by
        refine he.width_eq_of_spans hspans fun k k' hd hk' => hloads 0 o o k k' ?_ ?_
        · rw [hd]
          rfl
        · rw [hk']
          rfl
      rw [hrest.startOffset_eq] at hstart
      rw [placedBoundaries_label, placedBoundaries_of_takesBytes htakes, hwidth]
      rw [hstart] at hrest
      rw [hwidth] at hloads
      rw [ih hrest htight fun i => hloads (i + 1)]
      rfl

theorem widenAll_eq_of_same (h : BodyLaid (LaidAs labels) labels codeLength decoded elements)
    (hcontiguous : Contiguous codeLength 0 decoded) (hdecoded : DecodedFrom codeLength 0 decoded)
    (hlabels : AtBoundaries labels decoded codeLength)
    (hsame : placedBoundaries 0 elements = boundaryOffsets decoded codeLength) :
    widenAll elements = .ok elements := by
  refine h.widenAll_eq hcontiguous hdecoded.increasing hlabels ?_
  rw [hsame]
  refine contracts_of_consecutive fun i o n o' n' hi hi' => ?_
  obtain ⟨ho, hn⟩ := List.getElem?_zip_eq_some.1 hi
  obtain ⟨ho', hn'⟩ := List.getElem?_zip_eq_some.1 hi'
  have hon : o = n := Option.some.inj (ho.symm.trans hn)
  have hon' : o' = n' := Option.some.inj (ho'.symm.trans hn')
  omega

/-- Tight code is decoded again with the same boundaries exactly if loads of constants keep their
width. -/
theorem exists_boundaries_eq_iff (h : BodyLaid (LaidAs labels) labels codeLength decoded elements)
    (hcontiguous : Contiguous codeLength 0 decoded) (hdecoded : DecodedFrom codeLength 0 decoded)
    (hlabels : AtBoundaries labels decoded codeLength) (htight : Tight codeLength decoded)
    {a : AssembledCode} (hassemble : assemble elements = .ok a) :
    ∃ decoded', decodeCode a.bytes = .ok decoded' ∧ (LoadsStay decoded decoded'
      ↔ boundaryOffsets decoded' a.bytes.length = boundaryOffsets decoded codeLength) := by
  obtain ⟨widened, decoded', hall, hlaidOut, hdecoded', hto⟩ :=
    h.exists_decoded hdecoded hlabels hassemble
  have hboundaries := boundaryOffsets_of_decodesTo hto
  rw [← hlaidOut.length] at hboundaries
  refine ⟨decoded', hdecoded', fun hloads => ?_, fun hsame => ?_⟩
  · have hsame : placedBoundaries 0 elements = boundaryOffsets decoded codeLength := by
      refine h.placedBoundaries_eq hcontiguous htight fun i o n k k' ho hn => ?_
      -- a load is decoded as it was placed, since only jumps are widened
      obtain ⟨⟨m, e⟩, hm, hwide⟩ :=
        exists_rel_of_getElem? (forall₂_placedInstructions (widened_of_widenAll hall) 0 0) hn
      cases hwide
      obtain ⟨⟨o', d⟩, ho', -, hd⟩ := exists_rel_of_getElem? (forall₂_of_decodesTo hto) hm
      obtain rfl := (hd _).1 rfl
      exact hloads i o o' k k' ho ho'
    have heq := h.widenAll_eq_of_same hcontiguous hdecoded hlabels hsame
    rw [heq] at hall
    cases hall
    rw [hboundaries, hsame]
  · intro i o o' k k' ho ho'
    -- both loads reach from the same boundary to the same next one
    obtain ⟨⟨n, e⟩, hn, rfl, he⟩ := exists_rel_of_getElem? (forall₂_of_decodesTo hto).flip ho'
    obtain rfl := (he _).2 rfl
    obtain ⟨hstart', hstop'⟩ := getElem?_placedInstructions hn
    obtain ⟨_, -, hstart, -⟩ := hcontiguous.exists_spans ho
    have hstop := htight.getElem?_succ ho
    rw [← hboundaries, hsame] at hstart' hstop'
    obtain rfl := Option.some.inj (hstart.symm.trans hstart')
    have hwidth := Option.some.inj (hstop.symm.trans hstop')
    exact StoredInstruction.le_iff_of_width_ldc (Nat.add_left_cancel hwidth)

end BodyLaid

end ClassPatch
