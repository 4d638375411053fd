import ClassPatch.Inject.ClassPath
import ClassPatch.Proofs.Inject.Forward
import ClassPatch.Proofs.Name.Segments
import ClassPatch.Proofs.Path.Components

/-!
Where class files are put below a directory. A name has no dots, so each of its segments is the name
of a file, and the extension comes after all of the last one. The paths of classes with different
names therefore differ, and none of them leads out of the directory.
-/

namespace ClassPatch

open ClassPatch.Path

namespace BinaryName

theorem dot_not_mem {segment : List Char} (h : IsSegment segment) : '.' ∉ segment := by
  intro hmem
  have hseparators := h.2
  rw [List.any_eq_false] at hseparators
  apply hseparators '.' hmem
  decide

theorem isFileName_of_isSegment {segment : List Char} (h : IsSegment segment) :
    IsFileName segment where
  ne_nil := h.1
  ne_current := by
    rintro rfl
    exact dot_not_mem h List.mem_cons_self
  ne_parent := by
    rintro rfl
    exact dot_not_mem h List.mem_cons_self
  slash_not_mem := slash_not_mem h.2

theorem isFileName_withExtension {segment : List Char} (h : IsSegment segment) :
    IsFileName (segment ++ ".class".toList) where
  ne_nil := by simp
  ne_current := by
    intro heq
    simpa using congrArg List.length heq
  ne_parent := by
    intro heq
    simpa using congrArg List.length heq
  slash_not_mem := by
    have hslash := slash_not_mem h.2
    simp [hslash]

/-- The segments of a name with `.class` after the last one. -/
def fileSegments (name : BinaryName) : List (List Char) :=
  name.packageSegments ++ [name.simpleSegment ++ ".class".toList]

theorem fileSegments_of_segments {name : BinaryName} {segments : List (List Char)}
    {segment : List Char} (h : name.segments = segments ++ [segment]) :
    name.fileSegments = segments ++ [segment ++ ".class".toList] := by
  simp [fileSegments, packageSegments, simpleSegment, h]

theorem isFileName_of_mem_fileSegments (name : BinaryName) {segment : List Char}
    (h : segment ∈ name.fileSegments) : IsFileName segment := by
  unfold fileSegments at h
  rw [List.mem_append, List.mem_singleton] at h
  rcases h with hpackage | rfl
  · exact isFileName_of_isSegment (name.isSegment_of_mem_packageSegments hpackage)
  · exact isFileName_withExtension name.isSegment_simpleSegment

theorem eq_of_fileSegments_eq {n m : BinaryName} (h : n.fileSegments = m.fileSegments) : n = m := by
  obtain ⟨hpackage, hlast⟩ := List.append_inj' h rfl
  have hsimple : n.simpleSegment = m.simpleSegment := by
    apply List.append_cancel_right (List.singleton_inj.1 hlast)
  apply eq_of_segments_eq
  rw [segments_eq, segments_eq, hpackage, hsimple]

theorem intercalate_fileSegments (name : BinaryName) :
    ['/'].intercalate name.fileSegments = name.text.toList ++ ".class".toList := by
  rw [← name.intercalate_segments, segments_eq, fileSegments]
  generalize name.packageSegments = segments
  induction segments with
  | nil => simp
  | cons segment segments ih =>
    cases segments with
    | nil => simp
    | cons next segments =>
      simp only [List.cons_append, List.intercalate_cons_cons, List.append_assoc] at ih ⊢
      rw [ih]

end BinaryName

theorem classPath_eq_foldl (root : String) (name : BinaryName) :
    classPath root name = (name.fileSegments.map String.ofList).foldl joinPath root := by
  have hsimple := name.isSegment_simpleSegment
  have hfile := BinaryName.isFileName_withExtension hsimple
  unfold classPath
  rw [name.segments_eq, BinaryName.fileSegments, List.map_append, List.map_append, List.foldl_append,
    List.foldl_append]
  generalize (name.packageSegments.map String.ofList).foldl joinPath root = directory
  have hslash := BinaryName.slash_not_mem hsimple.2
  have hsplit := splitOn_asDirectory_append directory hslash
  simp only [List.map_singleton, List.foldl_cons, List.foldl_nil]
  rw [joinPath_of_relative (isAbsolute_ofList hslash),
    joinPath_of_relative (isAbsolute_ofList hfile.slash_not_mem),
    withExtension_of_not_mem hsplit (BinaryName.isFileName_of_isSegment hsimple)
      (BinaryName.dot_not_mem hsimple) (by decide)]
  simp [← String.toList_inj]

theorem classPath_eq_append (root : String) (name : BinaryName) :
    classPath root name = asDirectory root ++ name.text ++ ".class" := by
  rw [classPath_eq_foldl, foldl_joinPath root (fun _ => name.isFileName_of_mem_fileSegments),
    name.intercalate_fileSegments]
  · simp [String.append_assoc]
  · simp [BinaryName.fileSegments]

theorem components_classPath (root : String) (name : BinaryName) :
    components (classPath root name) = components root ++ name.fileSegments.map .normal := by
  rw [classPath_eq_foldl]
  exact components_foldl_joinPath root fun _ => name.isFileName_of_mem_fileSegments

theorem components_classPath_inj {root : String} {n m : BinaryName} :
    components (classPath root n) = components (classPath root m) ↔ n = m := by
  refine ⟨fun h => ?_, fun h => h ▸ rfl⟩
  rw [components_classPath, components_classPath] at h
  have hmap := List.append_cancel_left h
  have hinjective : Function.Injective PathComponent.normal := fun _ _ => PathComponent.normal.inj
  apply BinaryName.eq_of_fileSegments_eq
  exact List.map_injective_iff.2 hinjective hmap

namespace InjectionConfig

variable {c : InjectionConfig} {identifier : Option String} {name : BinaryName}

theorem segments_of_platformMethodsClass (h : c.platformMethodsClass identifier = .ok name) :
    ∃ text, (identifier <|> c.uniqueIdentifier) = some text
      ∧ name.segments = text.toList.splitOn '/' ++ [platformMethodsName.toList] := by
  unfold platformMethodsClass at h
  cases hconfigured : identifier <|> c.uniqueIdentifier with
  | none =>
    rw [hconfigured] at h
    cases h
  | some text =>
    rw [hconfigured] at h
    refine ⟨text, rfl, ?_⟩
    have htext : name.text.toList = text.toList ++ '/' :: platformMethodsName.toList := by
      simp [text_of_configuredName h]
    have hlast : '/' ∉ platformMethodsName.toList := by decide
    rw [BinaryName.segments, htext, List.splitOn_append_cons_self, List.splitOn_eq_singleton hlast]

end InjectionConfig

/--
The path of a class file is that of the directory, followed by the name of the class and `.class`.
As steps, it is the directory and one file name for each segment, so it does not leave the
directory, and classes with different names have different paths. The segments of the class that is
added are those of the identifier that is configured, whatever that is, and then its own.
-/
theorem classPath_staysBelow (root : String) (n m : BinaryName) :
    classPath root n = asDirectory root ++ n.text ++ ".class"
      ∧ components (classPath root n) = components root ++ n.fileSegments.map .normal
      ∧ (∀ segment ∈ n.fileSegments, IsFileName segment)
      ∧ (components (classPath root n) = components (classPath root m) ↔ n = m)
      ∧ ∀ (c : InjectionConfig) identifier, c.platformMethodsClass identifier = .ok n →
        ∃ text, (identifier <|> c.uniqueIdentifier) = some text ∧ n.fileSegments
          = text.toList.splitOn '/' ++ [platformMethodsName.toList ++ ".class".toList] := by
  refine ⟨classPath_eq_append root n, components_classPath root n,
    fun _ => n.isFileName_of_mem_fileSegments, components_classPath_inj, ?_⟩
  intro c identifier h
  obtain ⟨text, hconfigured, hsegments⟩ := InjectionConfig.segments_of_platformMethodsClass h
  exact ⟨text, hconfigured, BinaryName.fileSegments_of_segments hsegments⟩

/-- A configuration with an identifier of two segments. -/
def identifierConfig : InjectionConfig := ⟨none, none, some "gen/my$mod", true⟩

/-- The class that is added for the identifier. -/
def addedName : BinaryName := ⟨"gen/my$mod/PlatformMethods", by decide +kernel⟩

theorem classPath_staysBelow_addedName :
    identifierConfig.platformMethodsClass none = .ok addedName
      ∧ classPath "../out" addedName = "../out/gen/my$mod/PlatformMethods.class"
      ∧ components (classPath "../out" addedName) = [.parent, .normal "out".toList,
        .normal "gen".toList, .normal "my$mod".toList, .normal "PlatformMethods.class".toList]
      ∧ components (classPath "../out" addedName) ≠ components (classPath "../out" .object) := by
  have hadded : identifierConfig.platformMethodsClass none = .ok addedName := by decide +kernel
  obtain ⟨htext, hsteps, -, hinjective, hconfigured⟩ :=
    classPath_staysBelow "../out" addedName .object
  obtain ⟨text, hidentifier, hsegments⟩ := hconfigured identifierConfig none hadded
  obtain rfl : text = "gen/my$mod" := (Option.some.inj hidentifier).symm
  refine ⟨hadded, ?_, ?_, ?_⟩
  · rw [htext]
    decide +kernel
  · rw [hsteps, hsegments]
    decide +kernel
  · rw [ne_eq, hinjective]
    decide +kernel

end ClassPatch
