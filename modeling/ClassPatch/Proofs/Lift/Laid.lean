import ClassPatch.Proofs.Bytecode.Canonical
import ClassPatch.Proofs.Bytecode.Form
import ClassPatch.Proofs.Lift.Placed
import Mathlib.Data.List.Chain

/-!
Lifted bodies at the offsets where they are first laid out. Where no instruction takes more bytes
than in the code that it was read from, boundaries move closer together, so each short jump still
reaches its target and there is no jump to be widened.
-/

namespace ClassPatch

/-- An instruction and the element that it is written as: an instruction of the same form, or a
branch to the labels of its targets. -/
inductive LaidAs (labels : Std.HashMap Nat Label) : Decoded → LayoutElement → Prop where
  | instruction {x y : StoredInstruction} (h : y.form = x.form) :
    LaidAs labels (.instruction x) (.instruction y)
  | branch {jump : Branch Nat Nat} {b : Branch Label Label}
    (h : Branch.Rel (fun o k => labels[o]? = some k) (fun o k => labels[o]? = some k) jump b) :
    LaidAs labels (.branch jump) (.branch b)

theorem Branch.Rel.exists_shortTarget? {N F N' F' : Type} {near : N → N' → Prop} {far : F → F' → Prop}
    {b : Branch N F} {b' : Branch N' F'} (h : Rel near far b b') {u : N'}
    (hu : u ∈ b'.shortTarget?) : ∃ t ∈ b.shortTarget?, near t u := by
  cases h with
  | ifZero _ h | ifInts _ h | ifRefs _ h | ifNull _ h | goto h | jsr h =>
    cases hu
    exact ⟨_, rfl, h⟩
  | _ => cases hu

/-- The label at an offset, if there is one, as it is laid out. -/
def placedLabel (labels : Std.HashMap Nat Label) (offset : Nat) : List LayoutElement :=
  (labels[offset]?.map .label).toList

/-- Instructions and the elements that they become, each after the label at its offset. -/
inductive BodyLaid (R : Decoded → LayoutElement → Prop) (labels : Std.HashMap Nat Label)
    (codeLength : Nat) : List (Nat × Decoded) → List LayoutElement → Prop where
  | stop : BodyLaid R labels codeLength [] (placedLabel labels codeLength)
  | cons {offset : Nat} {d : Decoded} {e : LayoutElement} {decoded : List (Nat × Decoded)}
    {elements : List LayoutElement} (htakes : e.takesBytes = true) (he : R d e)
    (h : BodyLaid R labels codeLength decoded elements) :
    BodyLaid R labels codeLength ((offset, d) :: decoded)
      (placedLabel labels offset ++ e :: elements)

/-- Elements that take bytes, with their offsets. -/
def placedInstructions (offset : Nat) (elements : List LayoutElement) :
    List (Nat × LayoutElement) :=
  (placeFrom offset elements).filter (·.2.takesBytes)

theorem mem_placedInstructions {offset n : Nat} {elements : List LayoutElement}
    {b : Branch Label Label} (h : (n, .branch b) ∈ placeFrom offset elements) :
    (n, .branch b) ∈ placedInstructions offset elements :=
  List.mem_filter.2 ⟨h, rfl⟩

theorem LaidAs.takesBytes {labels : Std.HashMap Nat Label} {d : Decoded} {e : LayoutElement}
    (h : LaidAs labels d e) : e.takesBytes = true := by
  cases h <;> rfl

section Label

variable {labels : Std.HashMap Nat Label} {o : Nat}

theorem placedBoundaries_label (offset : Nat) (elements : List LayoutElement) :
    placedBoundaries offset (placedLabel labels o ++ elements)
      = placedBoundaries offset elements := by
  unfold placedLabel
  cases labels[o]? <;> rfl

theorem endOffset_label (offset : Nat) (elements : List LayoutElement) :
    endOffset offset (placedLabel labels o ++ elements) = endOffset offset elements := by
  unfold placedLabel
  cases labels[o]? <;> rfl

theorem placedInstructions_label (offset : Nat) (elements : List LayoutElement) :
    placedInstructions offset (placedLabel labels o ++ elements)
      = placedInstructions offset elements := by
  unfold placedLabel
  cases labels[o]? <;> rfl

theorem placedInstructions_cons {e : LayoutElement} (h : e.takesBytes = true) (offset : Nat)
    (elements : List LayoutElement) : placedInstructions offset (e :: elements)
      = (offset, e) :: placedInstructions (offset + e.width offset) elements :=
  List.filter_cons_of_pos h

theorem label_mem_placeFrom_label {offset n : Nat} {k : Label} {elements : List LayoutElement} :
    (n, .label k) ∈ placeFrom offset (placedLabel labels o ++ elements)
      ↔ labels[o]? = some k ∧ n = offset ∨ (n, .label k) ∈ placeFrom offset elements := by
  unfold placedLabel
  cases labels[o]? with
  | none => simp
  | some j =>
    change _ ∈ (offset, CodeElement.label j) :: placeFrom offset elements ↔ _
    simp only [List.mem_cons, Prod.mk.injEq, CodeElement.label.injEq, Option.some.injEq]
    grind

end Label

namespace BodyLaid

variable {R : Decoded → LayoutElement → Prop} {labels : Std.HashMap Nat Label}
  {codeLength offset : Nat} {decoded : List (Nat × Decoded)} {elements : List LayoutElement}

theorem length (h : BodyLaid R labels codeLength decoded elements) (offset : Nat) :
    (boundaryOffsets decoded codeLength).length = (placedBoundaries offset elements).length := by
  induction h generalizing offset with
  | stop =>
    rw [← List.append_nil (placedLabel _ _), placedBoundaries_label]
    rfl
  | cons htakes he _ ih =>
    rw [placedBoundaries_label, placedBoundaries_of_takesBytes htakes, List.length_cons,
      ← ih]
    rfl

theorem label_mem_iff (h : BodyLaid R labels codeLength decoded elements) {offset n : Nat}
    {k : Label} : (n, .label k) ∈ placeFrom offset elements
      ↔ ∃ o, (o, n) ∈ (boundaryOffsets decoded codeLength).zip (placedBoundaries offset elements)
        ∧ labels[o]? = some k := by
  induction h generalizing offset with
  | stop =>
    rw [← List.append_nil (placedLabel _ _), placedBoundaries_label, label_mem_placeFrom_label]
    constructor
    · rintro (⟨hk, rfl⟩ | hmem)
      · exact ⟨codeLength, List.mem_singleton_self _, hk⟩
      · cases hmem
    · rintro ⟨o, hmem, hk⟩
      cases List.mem_singleton.1 hmem
      exact .inl ⟨hk, rfl⟩
  | @cons o d e decoded elements htakes he _ ih =>
    have hne : (n, CodeElement.label k) ≠ (offset, e) := by
      intro heq
      cases heq
      cases htakes
    have hboundaries : boundaryOffsets ((o, d) :: decoded) codeLength
        = o :: boundaryOffsets decoded codeLength := rfl
    rw [label_mem_placeFrom_label, placedBoundaries_label,
      placedBoundaries_of_takesBytes htakes, hboundaries, List.zip_cons_cons]
    unfold placeFrom
    simp only [List.mem_cons, hne, false_or, ih, Prod.mk.injEq]
    constructor
    · rintro (⟨hk, rfl⟩ | ⟨o', hmem, hk⟩)
      · exact ⟨o, .inl ⟨rfl, rfl⟩, hk⟩
      · exact ⟨o', .inr hmem, hk⟩
    · rintro ⟨o', ⟨rfl, rfl⟩ | hmem, hk⟩
      · exact .inl ⟨hk, rfl⟩
      · exact .inr ⟨o', hmem, hk⟩

theorem forall₂ (h : BodyLaid R labels codeLength decoded elements) (offset : Nat) :
    List.Forall₂ (fun x y => R x.2 y.2 ∧ (x.1, y.1)
        ∈ (boundaryOffsets decoded codeLength).zip (placedBoundaries offset elements))
      decoded (placedInstructions offset elements) := by
  induction h generalizing offset with
  | stop =>
    rw [← List.append_nil (placedLabel _ _), placedInstructions_label]
    exact .nil
  | cons htakes he _ ih =>
    rw [placedInstructions_label, placedBoundaries_label,
      placedBoundaries_of_takesBytes htakes, placedInstructions_cons htakes]
    refine .cons ⟨he, List.mem_cons_self⟩ ((ih _).imp fun _ _ h => ⟨h.1, ?_⟩)
    exact List.mem_cons_of_mem _ h.2

theorem moves (h : BodyLaid R labels codeLength decoded elements)
    (hincreasing : (boundaryOffsets decoded codeLength).Pairwise (· < ·)) :
    Moves ((boundaryOffsets decoded codeLength).zip (placedBoundaries offset elements)) where
  left := by
    rw [List.map_fst_zip (Nat.le_of_eq (h.length offset))]
    exact hincreasing
  right := by
    rw [List.map_snd_zip (Nat.le_of_eq (h.length offset).symm)]
    exact increasing_placedBoundaries offset elements

theorem stop_mem (h : BodyLaid R labels codeLength decoded elements) (offset : Nat) :
    (codeLength, endOffset offset elements)
      ∈ (boundaryOffsets decoded codeLength).zip (placedBoundaries offset elements) := by
  induction h generalizing offset with
  | stop =>
    rw [← List.append_nil (placedLabel _ _), placedBoundaries_label, endOffset_label]
    exact List.mem_singleton_self _
  | cons htakes he _ ih =>
    rw [placedBoundaries_label, placedBoundaries_of_takesBytes htakes, endOffset_label]
    exact List.mem_cons_of_mem _ (ih _)

end BodyLaid

/-- Boundaries move closer together, or stay as far apart as they were. -/
def Contracts (pairs : List (Nat × Nat)) : Prop :=
  pairs.Pairwise fun x y => y.2 + x.1 ≤ y.1 + x.2

theorem contracts_of_consecutive {pairs : List (Nat × Nat)}
    (h : ∀ i o n o' n', pairs[i]? = some (o, n) → pairs[i + 1]? = some (o', n') →
      n' + o ≤ o' + n) : Contracts pairs := by
  let R : Nat × Nat → Nat × Nat → Prop := fun x y => y.2 + x.1 ≤ y.1 + x.2
  have : Trans R R R := ⟨fun {x y z} hxy hyz => by
    change z.2 + x.1 ≤ z.1 + x.2
    change y.2 + x.1 ≤ y.1 + x.2 at hxy
    change z.2 + y.1 ≤ z.1 + y.2 at hyz
    omega⟩
  refine List.isChain_iff_pairwise.1 (List.isChain_iff_getElem.2 fun i hi => ?_)
  exact h i _ _ _ _ (List.getElem?_eq_getElem (Nat.lt_of_succ_lt hi)) (List.getElem?_eq_getElem hi)

theorem Contracts.between {pairs : List (Nat × Nat)} (h : Contracts pairs) (hmoves : Moves pairs)
    {x y : Nat × Nat} (hx : x ∈ pairs) (hy : y ∈ pairs) :
    (x.2 ≤ y.2 ∧ y.2 + x.1 ≤ y.1 + x.2) ∨ y.2 ≤ x.2 ∧ x.2 + y.1 ≤ x.1 + y.2 := by
  let follows (x y : Nat × Nat) : Prop := x.2 ≤ y.2 ∧ y.2 + x.1 ≤ y.1 + x.2
  have : Std.Symm fun x y => follows x y ∨ follows y x := ⟨fun _ _ => Or.symm⟩
  have hfollows : pairs.Pairwise fun x y => follows x y ∨ follows y x :=
    (h.and (List.pairwise_map.1 hmoves.right)).imp fun hxy => .inl ⟨Nat.le_of_lt hxy.2, hxy.1⟩
  refine List.Pairwise.forall_of_forall (fun x _ => ?_) hfollows hx hy
  exact .inl ⟨Nat.le_refl _, Nat.le_of_eq (Nat.add_comm _ _)⟩

theorem Contracts.fitsShort {pairs : List (Nat × Nat)} (h : Contracts pairs) (hmoves : Moves pairs)
    {o n t m : Nat} (ho : (o, n) ∈ pairs) (ht : (t, m) ∈ pairs)
    (hfits : ClassPatch.fitsShort (t - o) = true) : ClassPatch.fitsShort (m - n) = true := by
  simp only [ClassPatch.fitsShort, Bool.and_eq_true, decide_eq_true_eq] at hfits ⊢
  rcases h.between hmoves ho ht with hbetween | hbetween
  · dsimp only at hbetween
    omega
  · dsimp only at hbetween
    omega

namespace BodyLaid

variable {R : Decoded → LayoutElement → Prop} {labels : Std.HashMap Nat Label} {codeLength : Nat}
  {decoded : List (Nat × Decoded)} {elements : List LayoutElement}

/-- What is known of the labels of code: they are at boundaries, each at one. -/
structure AtBoundaries (labels : Std.HashMap Nat Label) (decoded : List (Nat × Decoded))
    (codeLength : Nat) : Prop where
  mem : ∀ (o : Nat) (k : Label), labels[o]? = some k → o ∈ boundaryOffsets decoded codeLength
  injective : ∀ (o o' : Nat) (k : Label), labels[o]? = some k → labels[o']? = some k → o = o'

theorem exists_moved (h : BodyLaid R labels codeLength decoded elements) {o : Nat}
    (ho : o ∈ boundaryOffsets decoded codeLength) (offset : Nat) :
    ∃ n, (o, n) ∈ (boundaryOffsets decoded codeLength).zip (placedBoundaries offset elements) := by
  rw [← List.map_fst_zip (Nat.le_of_eq (h.length offset))] at ho
  obtain ⟨⟨_, n⟩, hmem, rfl⟩ := List.mem_map.1 ho
  exact ⟨n, hmem⟩

theorem labelOffsets_iff (h : BodyLaid R labels codeLength decoded elements)
    (hincreasing : (boundaryOffsets decoded codeLength).Pairwise (· < ·))
    (hlabels : AtBoundaries labels decoded codeLength) {k : Label} {n : Nat} :
    (labelOffsets (placeFrom 0 elements))[k]? = some n
      ↔ ∃ o, (o, n) ∈ (boundaryOffsets decoded codeLength).zip (placedBoundaries 0 elements)
        ∧ labels[o]? = some k := by
  rw [← h.label_mem_iff]
  refine ⟨mem_of_labelOffsets, fun hmem => labelOffsets_of_mem hmem fun n' hmem' => ?_⟩
  obtain ⟨o, ho, hk⟩ := h.label_mem_iff.1 hmem
  obtain ⟨o', ho', hk'⟩ := h.label_mem_iff.1 hmem'
  exact ((h.moves hincreasing).eq_iff ho' ho).1 (hlabels.injective o' o k hk' hk)

theorem exists_found (h : BodyLaid (LaidAs labels) labels codeLength decoded elements)
    (hincreasing : (boundaryOffsets decoded codeLength).Pairwise (· < ·))
    (hlabels : AtBoundaries labels decoded codeLength) {b : Branch Label Label}
    (hb : .branch b ∈ elements) {k : Label} (hk : k ∈ b.targets) :
    ∃ m, (labelOffsets (placeFrom 0 elements))[k]? = some m := by
  obtain ⟨n, hplaced⟩ := mem_placeFrom_iff.2 hb
  obtain ⟨⟨o, d⟩, -, hlaid, -⟩ := exists_of_mem_right (h.forall₂ 0) (mem_placedInstructions hplaced)
  cases hlaid with
  | branch hrel =>
    obtain ⟨t, -, ht⟩ := exists_of_mem_right hrel.targets hk
    obtain ⟨m, hm⟩ := h.exists_moved (hlabels.mem t k ht) 0
    exact ⟨m, (h.labelOffsets_iff hincreasing hlabels).2 ⟨t, hm, ht⟩⟩

theorem labelsPlaced (h : BodyLaid (LaidAs labels) labels codeLength decoded elements)
    (hincreasing : (boundaryOffsets decoded codeLength).Pairwise (· < ·))
    (hlabels : AtBoundaries labels decoded codeLength) : LabelsPlaced elements := by
  intro e he k hk
  cases e with
  | label | instruction => cases hk
  | branch b => exact exists_labelOffsets_iff.1 (h.exists_found hincreasing hlabels he hk)

section Contracted

variable (h : BodyLaid (LaidAs labels) labels codeLength decoded elements)
  (hcontiguous : Contiguous codeLength 0 decoded)
  (hincreasing : (boundaryOffsets decoded codeLength).Pairwise (· < ·))
  (hlabels : AtBoundaries labels decoded codeLength)
  (hcontracts : Contracts
    ((boundaryOffsets decoded codeLength).zip (placedBoundaries 0 elements)))

include h hcontiguous hincreasing hlabels hcontracts

theorem fitsShort {n : Nat} {b : Branch Label Label}
    (hb : (n, .branch b) ∈ placeFrom 0 elements) {k : Label} (hk : k ∈ b.shortTarget?) {m : Nat}
    (hm : (labelOffsets (placeFrom 0 elements))[k]? = some m) :
    ClassPatch.fitsShort (m - n) = true := by
  obtain ⟨⟨o, d⟩, hd, hlaid, hpair⟩ :=
    exists_of_mem_right (h.forall₂ 0) (mem_placedInstructions hb)
  obtain ⟨t', ht', hlabel'⟩ := (h.labelOffsets_iff hincreasing hlabels).1 hm
  cases hlaid with
  | @branch jump _ hrel =>
    obtain ⟨t, ht, hlabel⟩ := hrel.exists_shortTarget? hk
    obtain rfl := hlabels.injective _ _ _ hlabel hlabel'
    obtain ⟨i, hi⟩ := List.getElem?_of_mem hd
    obtain ⟨size, ⟨-, -, hspans⟩, -⟩ := hcontiguous.exists_spans hi
    exact hcontracts.fitsShort (h.moves hincreasing) hpair ht' (hspans t ht)

theorem widen_eq {n : Nat} {e : LayoutElement} (he : (n, e) ∈ placeFrom 0 elements) :
    e.widen (labelOffsets (placeFrom 0 elements)) n = .ok e := by
  have hjump {b : Branch Label Label} {k : Label} (hb : (n, .branch b) ∈ placeFrom 0 elements)
      (hk : k ∈ b.shortTarget?) : ∃ m : Nat,
        (labelOffsets (placeFrom 0 elements)).offset k = .ok m
          ∧ ClassPatch.fitsShort (m - n) = true := by
    obtain ⟨m, hm⟩ := h.exists_found hincreasing hlabels (mem_placeFrom_iff.1 ⟨n, hb⟩)
      (Branch.mem_targets_of_shortTarget? hk)
    exact ⟨m, LabelOffsets.offset_eq_ok.2 hm,
      h.fitsShort hcontiguous hincreasing hlabels hcontracts hb hk hm⟩
  unfold LayoutElement.widen
  split
  next k =>
    obtain ⟨m, hm, hfits⟩ := hjump he rfl
    rw [hm, ok_bind, if_pos hfits]
    rfl
  next k =>
    obtain ⟨m, hm, hfits⟩ := hjump he rfl
    rw [hm, ok_bind, if_pos hfits]
    rfl
  next => rfl

theorem widenAll_eq : widenAll elements = .ok elements :=
  widenAll_of_widenOnce (widenOnce_of_widen_self fun _ hx =>
    h.widen_eq hcontiguous hincreasing hlabels hcontracts hx)

omit hlabels in
theorem endOffset_le : endOffset 0 elements ≤ codeLength := by
  have hzero : (0, 0) ∈ (boundaryOffsets decoded codeLength).zip (placedBoundaries 0 elements) :=
    List.mem_of_getElem? (List.getElem?_zip_eq_some.2
      ⟨hcontiguous.getElem?_zero, getElem?_zero_placedBoundaries 0 elements⟩)
  have hbetween := hcontracts.between (h.moves hincreasing) hzero (h.stop_mem 0)
  dsimp only at hbetween
  omega

theorem conditionalsReach : ConditionalsReach (placeFrom 0 elements) := by
  intro n b hb hconditional k hk m hm
  refine h.fitsShort hcontiguous hincreasing hlabels hcontracts hb ?_ hm
  cases b with
  | ifZero | ifInts | ifRefs | ifNull =>
    rw [List.mem_singleton.1 hk]
    rfl
  | _ => cases hconditional

/-- Code whose boundaries move closer together can be written, with no jump widened. -/
theorem exists_assemble (hlength : codeLength ≤ maxCodeLength) :
    ∃ assembled, assemble elements = .ok assembled := by
  have hwidened := h.widenAll_eq hcontiguous hincreasing hlabels hcontracts
  have hend := h.endOffset_le hcontiguous hincreasing hcontracts
  have hreach := h.conditionalsReach hcontiguous hincreasing hlabels hcontracts
  rw [assemble_of_widenAll hwidened, if_neg (by omega)]
  obtain ⟨parts, hparts⟩ : ∃ parts, (placeFrom 0 elements).mapM (fun x =>
      x.2.encode (labelOffsets (placeFrom 0 elements)) x.1) = .ok parts :=
    exists_mapM fun x hx => exists_encode_of_mem_placeFrom hwidened
      (h.labelsPlaced hincreasing hlabels) hreach hx
  exact ⟨_, bind_of_eq_ok hparts _⟩

end Contracted

end BodyLaid

end ClassPatch
