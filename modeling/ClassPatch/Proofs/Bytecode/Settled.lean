import ClassPatch.Proofs.Bytecode.Assemble

/-!
Laying out again what was laid out. Elements with the form of jumps and the padding that were chosen
for them stay as they are, so they are written as the same bytes.
-/

namespace ClassPatch

namespace LayoutElement

/-- The element with the padding that it needs at an offset. -/
def aligned (offset : Nat) : LayoutElement → LayoutElement
  | .branch b => .branch (b.aligned offset)
  | e => e

variable {labels : LabelOffsets} {offset : Nat} {e : LayoutElement}

theorem width_aligned : (e.aligned offset).width offset = e.width offset := by
  cases e with
  | branch b => exact congrArg Branch.width (b.aligned_aligned offset)
  | _ => rfl

theorem encode_aligned : (e.aligned offset).encode labels offset = e.encode labels offset := by
  cases e with
  | branch b =>
    simp only [aligned, encode]
    rw [b.aligned_aligned offset]
  | _ => rfl

theorem record_aligned :
    labels.record (offset, e.aligned offset) = labels.record (offset, e) := by
  cases e <;> rfl

theorem widen_aligned (h : e.widen labels offset = .ok e) :
    (e.aligned offset).widen labels offset = .ok (e.aligned offset) := by
  cases e with
  | branch b =>
    cases b with
    | goto target => exact h
    | jsr target => exact h
    | _ => rfl
  | _ => rfl

end LayoutElement

/-- The elements with the padding that they need, from the given offset on. -/
def settleFrom (offset : Nat) (elements : List LayoutElement) : List LayoutElement :=
  (placeFrom offset elements).map fun x => x.2.aligned x.1

theorem settleFrom_cons (offset : Nat) (e : LayoutElement) (elements : List LayoutElement) :
    settleFrom offset (e :: elements)
      = e.aligned offset :: settleFrom (offset + e.width offset) elements := rfl

theorem placeFrom_settleFrom (offset : Nat) (elements : List LayoutElement) :
    placeFrom offset (settleFrom offset elements)
      = (placeFrom offset elements).map fun x => (x.1, x.2.aligned x.1) := by
  induction elements generalizing offset with
  | nil => rfl
  | cons e elements ih =>
    rw [settleFrom_cons]
    simp only [placeFrom, List.map_cons]
    rw [LayoutElement.width_aligned, ih]

theorem endOffset_settleFrom (offset : Nat) (elements : List LayoutElement) :
    endOffset offset (settleFrom offset elements) = endOffset offset elements := by
  induction elements generalizing offset with
  | nil => rfl
  | cons e elements ih =>
    rw [settleFrom_cons]
    simp only [endOffset]
    rw [LayoutElement.width_aligned, ih]

theorem labelOffsets_settleFrom (elements : List LayoutElement) :
    labelOffsets (placeFrom 0 (settleFrom 0 elements)) = labelOffsets (placeFrom 0 elements) := by
  simp only [labelOffsets_eq_foldl]
  rw [placeFrom_settleFrom, List.foldl_map]
  congr 1
  funext labels x
  exact LayoutElement.record_aligned

variable {elements widened : List LayoutElement}

theorem widenAll_settleFrom (h : widenAll elements = .ok widened) :
    widenAll (settleFrom 0 widened) = .ok (settleFrom 0 widened) := by
  have honce : widenOnce (settleFrom 0 widened) = .ok (settleFrom 0 widened) := by
    unfold widenOnce
    dsimp only
    rw [labelOffsets_settleFrom, placeFrom_settleFrom, mapM_eq_ok, List.forall₂_map_left_iff]
    unfold settleFrom
    rw [List.forall₂_map_right_iff]
    apply List.forall₂_same.2
    intro x hx
    exact LayoutElement.widen_aligned (widen_of_mem_placeFrom h hx)
  exact widenAll_of_widenOnce honce

/-- Elements with the forms that were chosen for them are laid out as before. -/
theorem assemble_settleFrom (h : widenAll elements = .ok widened) :
    assemble (settleFrom 0 widened) = assemble elements := by
  rw [assemble_of_widenAll h, assemble_of_widenAll (widenAll_settleFrom h), endOffset_settleFrom,
    labelOffsets_settleFrom, placeFrom_settleFrom, List.mapM_map]
  simp only [Function.comp_def, LayoutElement.encode_aligned]

end ClassPatch
