import ClassPatch.Proofs.Descriptor.RoundTrip

/-!
Names by their segments. A text is a name exactly if none of its segments is empty or holds a
separator, and a name is its segments.
-/

namespace ClassPatch.BinaryName

/-- The segment is neither empty nor does it hold a separator. -/
def IsSegment (segment : List Char) : Prop := segment ≠ [] ∧ segment.any isNameSeparator = false

instance : DecidablePred IsSegment := fun _ => inferInstanceAs (Decidable (_ ∧ _))

theorem slash_not_mem {segment : List Char} (h : segment.any isNameSeparator = false) :
    '/' ∉ segment := by
  intro hmem
  rw [List.any_eq_false] at h
  apply h '/' hmem
  decide

theorem fault?_eq_none_iff {text : String} :
    fault? text = none ↔ ∀ segment ∈ text.toList.splitOn '/', IsSegment segment := by
  refine ⟨fun h => ?_, fault?_eq_none rfl⟩
  let name : BinaryName := ⟨text, h⟩
  have hne : text.toList.isEmpty = false := List.isEmpty_eq_false_iff.2 name.text_ne_nil
  unfold fault? at h
  rw [hne, if_neg Bool.false_ne_true, List.findSome?_eq_none_iff] at h
  intro segment hsegment
  have hfault := h segment hsegment
  unfold UnqualifiedName.fault? at hfault
  rw [String.toList_ofList] at hfault
  split at hfault
  · cases hfault
  · next hany =>
    split at hfault
    · cases hfault
    · next hempty => exact ⟨by simpa using hempty, Bool.not_eq_true _ ▸ hany⟩

theorem fault?_of_empty_segment {text : String} (hne : text.toList ≠ [])
    (hseparators : ∀ segment ∈ text.toList.splitOn '/', segment.any isNameSeparator = false)
    (hempty : [] ∈ text.toList.splitOn '/') : fault? text = some .emptySegment := by
  have hfault : ∀ segment ∈ text.toList.splitOn '/',
      UnqualifiedName.fault? (String.ofList segment)
        = if segment.isEmpty then some .emptySegment else none := by
    intro segment hsegment
    unfold UnqualifiedName.fault?
    rw [String.toList_ofList, hseparators segment hsegment, if_neg Bool.false_ne_true]
  unfold fault?
  rw [List.isEmpty_eq_false_iff.2 hne, if_neg Bool.false_ne_true]
  cases hfound : (text.toList.splitOn '/').findSome? fun segment =>
      UnqualifiedName.fault? (String.ofList segment) with
  | none =>
    have hnone := List.findSome?_eq_none_iff.1 hfound [] hempty
    rw [hfault [] hempty] at hnone
    cases hnone
  | some fault =>
    obtain ⟨segment, hsegment, hsome⟩ := List.exists_of_findSome?_eq_some hfound
    rw [hfault segment hsegment] at hsome
    split at hsome <;> cases hsome
    rfl

theorem ofString_of_fault? {text : String} {fault : NameError} (h : fault? text = some fault) :
    ofString text = .error fault := by
  unfold ofString
  split
  · next fault' h' =>
    rw [h] at h'
    cases h'
    rfl
  · next h' =>
    rw [h] at h'
    cases h'

theorem isSegment_of_mem (name : BinaryName) {segment : List Char}
    (h : segment ∈ name.segments) : IsSegment segment :=
  fault?_eq_none_iff.1 name.valid segment h

theorem intercalate_segments (name : BinaryName) :
    ['/'].intercalate name.segments = name.text.toList := List.intercalate_splitOn '/'

theorem segments_ne_nil (name : BinaryName) : name.segments ≠ [] := List.splitOn_ne_nil _ _

theorem eq_of_segments_eq {n m : BinaryName} (h : n.segments = m.segments) : n = m := by
  have htext : n.text = m.text := by
    rw [← String.toList_inj, ← n.intercalate_segments, ← m.intercalate_segments, h]
  cases n
  cases m
  cases htext
  rfl

/-- The segments before the last one. -/
def packageSegments (name : BinaryName) : List (List Char) := name.segments.dropLast

/-- The last segment. -/
def simpleSegment (name : BinaryName) : List Char := name.segments.getLastD []

theorem segments_eq (name : BinaryName) :
    name.segments = name.packageSegments ++ [name.simpleSegment] := by
  unfold packageSegments simpleSegment
  rw [List.getLastD_eq_getLast?, List.getLast?_eq_some_getLast name.segments_ne_nil, Option.getD_some,
    List.dropLast_append_getLast]

theorem isSegment_of_mem_packageSegments (name : BinaryName) {segment : List Char}
    (h : segment ∈ name.packageSegments) : IsSegment segment :=
  name.isSegment_of_mem (List.dropLast_subset _ h)

theorem isSegment_simpleSegment (name : BinaryName) : IsSegment name.simpleSegment := by
  refine name.isSegment_of_mem ?_
  rw [segments_eq]
  exact List.mem_append_right _ List.mem_cons_self

end ClassPatch.BinaryName
