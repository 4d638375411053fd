import ClassPatch.Path
import Mathlib.Data.List.Basic
import Mathlib.Data.List.TakeDrop
import Mathlib.Data.List.TakeWhile

/-!
The steps of a path. Two paths are equal as paths if they make the same steps, also where their
texts differ. A path that goes on with the name of a file makes one more step.
-/

namespace ClassPatch

/-- A step of a path. -/
inductive PathComponent where
  | root
  | current
  | parent
  | normal (name : List Char)
  deriving DecidableEq

namespace Path

/-- The step that a segment makes, where an empty one and `.` make none. -/
def component? (segment : List Char) : Option PathComponent :=
  if segment = [] ∨ segment = ['.'] then none
  else if segment = ['.', '.'] then some .parent
  else some (.normal segment)

/-- The step that the first segment makes. It is where the path starts, unless the path is empty. -/
def leading (first : List Char) (rest : List (List Char)) : Option PathComponent :=
  if first = [] then (if rest = [] then none else some .root)
  else if first = ['.'] then some .current
  else component? first

def componentsOf : List (List Char) → List PathComponent
  | [] => []
  | first :: rest => (leading first rest).toList ++ rest.filterMap component?

/-- The steps of a path. -/
def components (path : String) : List PathComponent := componentsOf (path.toList.splitOn '/')

/-- The segment can be the name of a file: it leads neither nowhere nor outwards, nor to the root. -/
structure IsFileName (segment : List Char) : Prop where
  ne_nil : segment ≠ []
  ne_current : segment ≠ ['.']
  ne_parent : segment ≠ ['.', '.']
  slash_not_mem : '/' ∉ segment

variable {path next : String} {segment : List Char} {segments : List (List Char)}

theorem component?_of_isFileName (h : IsFileName segment) :
    component? segment = some (.normal segment) := by
  simp [component?, h.ne_nil, h.ne_current, h.ne_parent]

theorem componentsOf_concat (h : IsFileName segment) :
    componentsOf (segments ++ [segment]) = componentsOf (segments ++ [[]]) ++ [.normal segment] := by
  cases segments with
  | nil =>
    simp [componentsOf, leading, h.ne_nil, h.ne_current, component?_of_isFileName h]
  | cons first rest =>
    have hnone : component? [] = none := rfl
    simp [componentsOf, leading, hnone, component?_of_isFileName h]

theorem componentsOf_concat_nil (h : segments ≠ [[]]) :
    componentsOf (segments ++ [[]]) = componentsOf segments := by
  cases segments with
  | nil => rfl
  | cons first rest =>
    cases rest with
    | nil =>
      have hne : first ≠ [] := by simpa using h
      simp [componentsOf, leading, component?, hne]
    | cons second rest =>
      have hnone : component? [] = none := rfl
      simp [componentsOf, leading, List.filterMap_cons, hnone]

theorem exists_of_endsInSlash (h : endsInSlash path) : ∃ before, path.toList = before ++ ['/'] := by
  unfold endsInSlash at h
  rw [beq_iff_eq] at h
  exact List.getLast?_eq_some_iff.1 h

/-- The segments before one that a path goes on with. -/
def opening (path : String) : List (List Char) := ((asDirectory path).toList.splitOn '/').dropLast

theorem asDirectory_cases (path : String) :
    (path = "" ∧ asDirectory path = "")
      ∨ (∃ before, path.toList = before ++ ['/'] ∧ asDirectory path = path)
      ∨ (path ≠ "" ∧ (asDirectory path).toList = path.toList ++ ['/']) := by
  unfold asDirectory
  by_cases hempty : path = ""
  · simp [hempty]
  · cases hslash : endsInSlash path with
    | true => simp [exists_of_endsInSlash hslash]
    | false => simp [hempty]

theorem splitOn_asDirectory (path : String) :
    (asDirectory path).toList = [] ∧ opening path = [] ∨ ∃ before,
      (asDirectory path).toList = before ++ ['/'] ∧ opening path = before.splitOn '/' := by
  have hopening (before : List Char) (h : (asDirectory path).toList = before ++ ['/']) :
      opening path = before.splitOn '/' := by
    simp [opening, h, List.splitOn_append_cons_self]
  obtain ⟨rfl, -⟩ | ⟨before, htext, heq⟩ | ⟨-, htext⟩ := asDirectory_cases path
  · exact .inl ⟨rfl, rfl⟩
  · rw [← heq] at htext
    exact .inr ⟨before, htext, hopening before htext⟩
  · exact .inr ⟨path.toList, htext, hopening _ htext⟩

theorem splitOn_asDirectory_append (path : String) (h : '/' ∉ segment) :
    (asDirectory path ++ String.ofList segment).toList.splitOn '/' = opening path ++ [segment] := by
  rw [String.toList_append, String.toList_ofList]
  obtain ⟨htext, hopening⟩ | ⟨before, htext, hopening⟩ := splitOn_asDirectory path
  · rw [htext, hopening]
    exact List.splitOn_eq_singleton h
  · rw [htext, hopening, List.append_assoc, List.singleton_append, List.splitOn_append_cons_self,
      List.splitOn_eq_singleton h]

theorem components_eq (path : String) : components path = componentsOf (opening path ++ [[]]) := by
  obtain ⟨rfl, -⟩ | ⟨before, htext, heq⟩ | ⟨hne, htext⟩ := asDirectory_cases path
  · rfl
  · unfold components opening
    rw [heq, htext, List.splitOn_append_cons_self]
    simp
  · have hopening : opening path = path.toList.splitOn '/' := by
      unfold opening
      rw [htext, List.splitOn_append_cons_self]
      simp
    rw [hopening, componentsOf_concat_nil, components]
    intro hsplit
    have htext : ['/'].intercalate (path.toList.splitOn '/') = path.toList :=
      List.intercalate_splitOn '/'
    rw [hsplit] at htext
    apply hne
    simpa using htext.symm

theorem isAbsolute_ofList (h : '/' ∉ segment) : isAbsolute (String.ofList segment) = false := by
  unfold isAbsolute
  rw [String.toList_ofList, beq_eq_false_iff_ne]
  intro hhead
  exact h (List.mem_of_mem_head? hhead)

theorem joinPath_of_relative (h : isAbsolute next = false) :
    joinPath path next = asDirectory path ++ next := by
  simp [joinPath, h]

theorem components_joinPath (path : String) (h : IsFileName segment) :
    components (joinPath path (String.ofList segment)) = components path ++ [.normal segment] := by
  rw [joinPath_of_relative (isAbsolute_ofList h.slash_not_mem), components,
    splitOn_asDirectory_append path h.slash_not_mem, componentsOf_concat h, components_eq]

theorem components_foldl_joinPath (path : String) (h : ∀ segment ∈ segments, IsFileName segment) :
    components ((segments.map String.ofList).foldl joinPath path)
      = components path ++ segments.map .normal := by
  induction segments generalizing path with
  | nil => simp
  | cons segment segments ih =>
    rw [List.forall_mem_cons] at h
    rw [List.map_cons, List.foldl_cons, ih _ h.2, components_joinPath path h.1]
    simp

theorem asDirectory_append (h : IsFileName segment) :
    asDirectory (path ++ String.ofList segment) = path ++ String.ofList segment ++ "/" := by
  have hempty : (path ++ String.ofList segment).isEmpty = false := by
    simp [h.ne_nil]
  have hslash : endsInSlash (path ++ String.ofList segment) = false := by
    unfold endsInSlash
    rw [String.toList_append, String.toList_ofList, List.getLast?_append_of_ne_nil _ h.ne_nil,
      beq_eq_false_iff_ne]
    intro hlast
    exact h.slash_not_mem (List.mem_of_getLast? hlast)
  simp [asDirectory, hempty, hslash]

theorem foldl_joinPath (path : String) (h : ∀ segment ∈ segments, IsFileName segment)
    (hne : segments ≠ []) :
    (segments.map String.ofList).foldl joinPath path
      = asDirectory path ++ String.ofList (['/'].intercalate segments) := by
  induction segments generalizing path with
  | nil => contradiction
  | cons segment segments ih =>
    rw [List.forall_mem_cons] at h
    rw [List.map_cons, List.foldl_cons,
      joinPath_of_relative (isAbsolute_ofList h.1.slash_not_mem)]
    cases segments with
    | nil => simp
    | cons next segments =>
      rw [ih _ h.2 (List.cons_ne_nil _ _), asDirectory_append h.1, List.intercalate_cons_cons]
      simp [String.append_assoc]

section Extension

theorem stem_of_not_mem (h : '.' ∉ segment) : stem segment = segment := by
  have hdrop : segment.reverse.dropWhile (· ≠ '.') = [] := by
    rw [List.dropWhile_eq_nil_iff]
    intro c hc
    simp only [ne_eq, decide_not, Bool.not_eq_eq_eq_not, Bool.not_true, decide_eq_false_iff_not]
    rintro rfl
    exact h (List.mem_reverse.1 hc)
  unfold stem
  rw [List.span_eq_takeWhile_dropWhile, hdrop]

theorem withExtension_of_not_mem {extension : String}
    (hsplit : path.toList.splitOn '/' = segments ++ [segment]) (h : IsFileName segment)
    (hdot : '.' ∉ segment) (hextension : extension ≠ "") :
    withExtension path extension = path ++ "." ++ extension := by
  have hpath : String.ofList (['/'].intercalate (segments ++ [segment])) = path := by
    rw [← hsplit, List.intercalate_splitOn, String.ofList_toList]
  have hdrop : (segment :: segments.reverse).dropWhile (fun s => s == [] || s == ['.'])
      = segment :: segments.reverse := by
    simp [h.ne_nil, h.ne_current]
  unfold withExtension
  rw [hsplit, List.reverse_append, List.reverse_singleton, List.singleton_append, hdrop]
  simp [h.ne_parent, stem_of_not_mem hdot, hpath, hextension]

end Extension

end Path

end ClassPatch
