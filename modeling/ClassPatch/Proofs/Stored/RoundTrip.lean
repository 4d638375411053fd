import ClassPatch.Proofs.Stored.ClassFile

/-!
Class files whose parts fit their length fields are read back from what they are written as.
-/

namespace ClassPatch

namespace SlotTable

variable {α : Type} [HasWidth α]

/-- The table is what adding its elements one after the other makes of the empty one. -/
def Pushed (t : SlotTable α) : Prop := t = (empty t.start).append t.elements

theorem pushed_ofList (start : Nat) (as : List α) : (ofList start as).Pushed := by
  change (empty start).append as
    = (empty ((empty start).append as).start).append ((empty start).append as).elements
  rw [start_append, elements_append]
  rfl

end SlotTable

theorem ConstantTable.dense_of_pushed {t : ConstantTable} (h : t.Pushed) (hstart : t.start = 1) :
    t.Dense := by
  unfold SlotTable.Pushed at h
  rwa [hstart] at h

namespace Stored.ClassFile

/-- The bits of floating-point constants are kept, so this holds for NaN constants as well. -/
theorem parse_write_of_fits {file : ClassFile} (hpushed : file.constants.Pushed)
    (hstart : file.constants.start = 1) (hnext : file.constants.next ≤ 0xFFFF)
    (htexts : ∀ c ∈ file.constants.elements, c.Fits) (hfits : file.Fits)
    (hsuper : file.superClass ≠ some 0) : parse file.write = .ok file :=
  have hdense := ConstantTable.dense_of_pushed hpushed hstart
  parse_write hfits ⟨hdense, hnext, htexts⟩ hsuper

/-- A class file with a NaN constant, eight-byte constants, a character of six bytes and members. -/
def variedFile : ClassFile where
  version := .java8
  constants := .ofList 1 [.utf8 "A", .classRef 1, .utf8 "\x00😀", .float ⟨0x7FC00001⟩, .long (-1),
    .double ⟨0xFFF8000000000001⟩, .utf8 "()V", .nameAndType 3 9, .methodRef 2 10 true,
    .methodHandle .invokeInterface 11, .methodType 9, .invokeDynamic 0 10, .integer (-7)]
  accessFlags := .truncate _ 0x20
  thisClass := 2
  superClass := none
  interfaces := [2, 2]
  fields := [⟨.truncate _ 0x8, 3, 1, []⟩]
  methods := [⟨.truncate _ 0x400, 3, 9, [⟨1, []⟩, ⟨3, [1, 2, 3]⟩]⟩]
  attributes := [⟨1, [0xFF]⟩]

theorem parse_write_variedFile : parse variedFile.write = .ok variedFile := by
  have hmembers : ∀ {kind : FlagKind} (m : Member kind),
      (m.attributes.length ≤ 0xFFFF ∧ ∀ a ∈ m.attributes, a.info.length < 2 ^ 32) → m.Fits :=
    fun m h => ⟨h.1, h.2⟩
  refine parse_write_of_fits (SlotTable.pushed_ofList ..) rfl (by decide +kernel)
    (by decide +kernel) ⟨by decide, by decide, ?_, by decide, ?_, by decide, by decide⟩ (by decide)
  · intro m hm
    exact hmembers m (List.mem_singleton.1 hm ▸ by decide)
  · intro m hm
    exact hmembers m (List.mem_singleton.1 hm ▸ by decide)

end Stored.ClassFile

end ClassPatch
