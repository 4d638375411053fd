import ClassPatch.Inject.Config
import ClassPatch.Proofs.Name.Segments

/-!
The class with the implementations of the methods of a class for the platform. Its name is put
together of segments without `$`. Nothing is left of a segment that holds nothing else, so a class
has implementations exactly if no segment of its package is such a one.
-/

namespace ClassPatch

theorem filter_intercalate {α : Type} {p : α → Bool} {separator : α} (h : p separator = true)
    (parts : List (List α)) :
    ([separator].intercalate parts).filter p = [separator].intercalate (parts.map (·.filter p)) := by
  induction parts with
  | nil => rfl
  | cons part parts ih =>
    cases parts with
    | nil => simp only [List.map_singleton, List.intercalate_singleton]
    | cons next parts =>
      simp only [List.map_cons] at ih
      simp only [List.map_cons, List.intercalate_cons_cons, List.filter_append, ih,
        List.filter_singleton, h, cond_true]

def flatSegment (segment : List Char) : List Char := segment.filter (· ≠ '$')

theorem flatSegment_eq_nil {segment : List Char} :
    flatSegment segment = [] ↔ ∀ c ∈ segment, c = '$' := by
  simp [flatSegment, List.filter_eq_nil_iff]

theorem any_flatSegment {segment : List Char} (h : segment.any isNameSeparator = false) :
    (flatSegment segment).any isNameSeparator = false := by
  rw [List.any_eq_false] at h ⊢
  intro c hc
  exact h c (List.mem_of_mem_filter hc)

namespace BinaryName

/-- No segment of the package consists of `$` alone. -/
def KeepsPackage (name : BinaryName) : Prop :=
  ∀ segment ∈ name.packageSegments, ∃ c ∈ segment, c ≠ '$'

instance : DecidablePred KeepsPackage := fun name =>
  decidable_of_iff (∀ segment ∈ name.packageSegments, segment.any (· ≠ '$') = true)
    (by simp [KeepsPackage])

/--
The package of a class, that of the platform, and the name of the class with `Impl` after it.
Nothing but the package of the platform has a `$`.
-/
def implementationSegments (owner platform : BinaryName) : List (List Char) :=
  owner.packageSegments.map flatSegment ++ platform.segments
    ++ [flatSegment owner.simpleSegment ++ "Impl".toList]

end BinaryName

namespace InjectionConfig

variable {c : InjectionConfig} {package : Option String} {owner platform : BinaryName}

/-- Name of the class with the implementations, before it is looked at whether it is one. -/
def implementationText (owner : BinaryName) (platform : String) : String :=
  let name := platform ++ "/" ++ flattened owner.simpleName ++ "Impl"
  match owner.package? with
  | some package => flattened package ++ "/" ++ name
  | none => name

theorem platformClass_eq {platform : String} (h : c.effectivePackage package = .ok platform) :
    c.platformClass package owner = configuredName (implementationText owner platform) := by
  unfold platformClass
  rw [h]
  rfl

theorem toList_flattened (text : String) : (flattened text).toList = flatSegment text.toList := by
  simp [flattened, flatSegment]

theorem package?_eq (name : BinaryName) : name.package? =
    if name.packageSegments = [] then none
    else some (String.ofList (['/'].intercalate name.packageSegments)) := by
  unfold BinaryName.package? BinaryName.packageSegments
  cases name.segments.dropLast <;> simp

theorem splitOn_withoutPackage (owner platform : BinaryName) :
    (platform.text ++ "/" ++ flattened owner.simpleName ++ "Impl").toList.splitOn '/'
      = platform.segments ++ [flatSegment owner.simpleSegment ++ "Impl".toList] := by
  have htext : (platform.text ++ "/" ++ flattened owner.simpleName ++ "Impl").toList
      = platform.text.toList ++ '/' :: (flatSegment owner.simpleSegment ++ "Impl".toList) := by
    simp [toList_flattened, BinaryName.simpleName, BinaryName.simpleSegment]
  have hlast : '/' ∉ flatSegment owner.simpleSegment ++ "Impl".toList := by
    apply BinaryName.slash_not_mem
    rw [List.any_append, any_flatSegment owner.isSegment_simpleSegment.2]
    decide
  rw [htext, List.splitOn_append_cons_self, List.splitOn_eq_singleton hlast]
  rfl

theorem splitOn_implementationText (owner platform : BinaryName) :
    (implementationText owner platform.text).toList.splitOn '/'
      = owner.implementationSegments platform := by
  unfold implementationText BinaryName.implementationSegments
  rw [package?_eq]
  by_cases hpackage : owner.packageSegments = []
  · rw [if_pos hpackage, hpackage]
    exact splitOn_withoutPackage owner platform
  · rw [if_neg hpackage]
    dsimp only
    have hsegments : ∀ segment ∈ owner.packageSegments.map flatSegment, '/' ∉ segment := by
      intro segment hsegment
      obtain ⟨part, hpart, rfl⟩ := List.mem_map.1 hsegment
      apply BinaryName.slash_not_mem
      apply any_flatSegment
      exact (owner.isSegment_of_mem_packageSegments hpart).2
    have hsplit : (['/'].intercalate (owner.packageSegments.map flatSegment)).splitOn '/'
        = owner.packageSegments.map flatSegment := by
      apply List.splitOn_intercalate '/' hsegments
      simpa using hpackage
    have htext (name : String) :
        (flattened (String.ofList (['/'].intercalate owner.packageSegments)) ++ "/" ++ name).toList
          = ['/'].intercalate (owner.packageSegments.map flatSegment) ++ '/' :: name.toList := by
      have hfilter : flatSegment (['/'].intercalate owner.packageSegments)
          = ['/'].intercalate (owner.packageSegments.map flatSegment) := by
        apply filter_intercalate
        decide
      simp [toList_flattened, hfilter]
    rw [htext, List.splitOn_append_cons_self, hsplit, splitOn_withoutPackage, List.append_assoc]

theorem toList_implementationText_ne_nil (owner : BinaryName) (platform : String) :
    (implementationText owner platform).toList ≠ [] := by
  unfold implementationText
  cases owner.package? <;> simp

theorem any_implementationSegments {owner platform : BinaryName} {segment : List Char}
    (h : segment ∈ owner.implementationSegments platform) :
    segment.any isNameSeparator = false := by
  unfold BinaryName.implementationSegments at h
  simp only [List.mem_append, List.mem_map, List.mem_singleton] at h
  rcases h with (⟨part, hpart, rfl⟩ | hplatform) | rfl
  · exact any_flatSegment (owner.isSegment_of_mem_packageSegments hpart).2
  · exact (platform.isSegment_of_mem hplatform).2
  · rw [List.any_append, any_flatSegment owner.isSegment_simpleSegment.2]
    decide

theorem nil_mem_implementationSegments_iff {owner platform : BinaryName} :
    [] ∈ owner.implementationSegments platform ↔ ¬ owner.KeepsPackage := by
  have hplatform : [] ∉ platform.segments := fun hmem => (platform.isSegment_of_mem hmem).1 rfl
  have hlast : [] ≠ flatSegment owner.simpleSegment ++ "Impl".toList := by simp
  unfold BinaryName.implementationSegments BinaryName.KeepsPackage
  simp only [List.mem_append, List.mem_map, List.mem_singleton, flatSegment_eq_nil, hplatform,
    hlast, or_false]
  push Not
  rfl

theorem platformClass_of_keepsPackage (h : c.effectivePackage package = .ok platform.text)
    (hkeeps : owner.KeepsPackage) :
    ∃ target, c.platformClass package owner = .ok target
      ∧ target.segments = owner.implementationSegments platform := by
  have hsplit := splitOn_implementationText owner platform
  have hvalid : BinaryName.fault? (implementationText owner platform.text) = none := by
    rw [BinaryName.fault?_eq_none_iff, hsplit]
    intro segment hsegment
    refine ⟨?_, any_implementationSegments hsegment⟩
    rintro rfl
    exact nil_mem_implementationSegments_iff.1 hsegment hkeeps
  refine ⟨⟨_, hvalid⟩, ?_, hsplit⟩
  rw [platformClass_eq h, configuredName, BinaryName.ofString_text ⟨_, hvalid⟩]
  rfl

theorem platformClass_of_not_keepsPackage (h : c.effectivePackage package = .ok platform.text)
    (hlost : ¬ owner.KeepsPackage) :
    c.platformClass package owner = .error (.malformedName .emptySegment) := by
  have hfault : BinaryName.fault? (implementationText owner platform.text)
      = some .emptySegment := by
    apply BinaryName.fault?_of_empty_segment (toList_implementationText_ne_nil _ _)
    · rw [splitOn_implementationText]
      exact fun _ => any_implementationSegments
    · rw [splitOn_implementationText]
      exact nil_mem_implementationSegments_iff.2 hlost
  rw [platformClass_eq h, configuredName, BinaryName.ofString_of_fault? hfault]
  rfl

/--
The class with the implementations can be named exactly if no segment of the package of the class
consists of `$` alone. It is then in the package of the platform below that of the class, without
`$`. Otherwise a segment of its name is empty.
-/
theorem exists_platformClass_iff (h : c.effectivePackage package = .ok platform.text)
    (owner : BinaryName) :
    ((∃ target, c.platformClass package owner = .ok target
        ∧ target.segments = owner.implementationSegments platform) ↔ owner.KeepsPackage)
      ∧ (¬ owner.KeepsPackage →
        c.platformClass package owner = .error (.malformedName .emptySegment)) := by
  refine ⟨⟨?_, platformClass_of_keepsPackage h⟩, platformClass_of_not_keepsPackage h⟩
  rintro ⟨target, hok, -⟩
  by_contra hlost
  rw [platformClass_of_not_keepsPackage h hlost] at hok
  cases hok

/-- A configuration for Quilt, which has the implementations for Fabric. -/
def quiltConfig : InjectionConfig := ⟨some "quilt", none, none, true⟩

def fabricPackage : BinaryName := ⟨"fabric", by decide +kernel⟩

/-- A nested class with `$` at both ends of segments. -/
def dollarName : BinaryName := ⟨"a$/$b/$C$$D$", by decide +kernel⟩

theorem exists_platformClass_dollarName :
    quiltConfig.effectivePackage none = .ok fabricPackage.text ∧ dollarName.KeepsPackage
      ∧ ∃ target, quiltConfig.platformClass none dollarName = .ok target
        ∧ target.segments = ["a", "b", "fabric", "CDImpl"].map String.toList := by
  have hpackage : quiltConfig.effectivePackage none = .ok fabricPackage.text := rfl
  have hkeeps : dollarName.KeepsPackage := by decide +kernel
  have hsegments : dollarName.implementationSegments fabricPackage
      = ["a", "b", "fabric", "CDImpl"].map String.toList := by
    decide +kernel
  refine ⟨hpackage, hkeeps, ?_⟩
  rw [← hsegments]
  exact (exists_platformClass_iff hpackage dollarName).1.2 hkeeps

def bareName : BinaryName := ⟨"$/A", by decide +kernel⟩

theorem platformClass_bareName :
    quiltConfig.effectivePackage none = .ok fabricPackage.text
      ∧ quiltConfig.platformClass none bareName = .error (.malformedName .emptySegment)
      ∧ ¬ ∃ target, quiltConfig.platformClass none bareName = .ok target := by
  have hpackage : quiltConfig.effectivePackage none = .ok fabricPackage.text := rfl
  have herror : quiltConfig.platformClass none bareName
      = .error (.malformedName .emptySegment) :=
    platformClass_of_not_keepsPackage hpackage (by decide +kernel)
  refine ⟨hpackage, herror, ?_⟩
  rintro ⟨target, hok⟩
  rw [herror] at hok
  cases hok

end InjectionConfig

end ClassPatch
