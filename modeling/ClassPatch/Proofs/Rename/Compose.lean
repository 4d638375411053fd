import ClassPatch.Proofs.Rename.Constant
import ClassPatch.Proofs.Rename.Kept

/-!
Renaming twice is renaming once, with the second renaming applied to the new names. So renaming one
class in a body can be undone if the body does not mention the new name.
-/

namespace ClassPatch

namespace Renaming

/-- One renaming, and another one after it. -/
def andThen (r s : Renaming) : Renaming := fun name =>
  match r name with
  | some renamed => some (s.apply renamed)
  | none => s name

variable {r s : Renaming}

theorem apply_andThen (name : BinaryName) :
    (r.andThen s).apply name = s.apply (r.apply name) := by
  unfold apply
  unfold andThen
  cases r name.text <;> rfl

theorem applyText_andThen (name : String) :
    (r.andThen s).applyText name = s.applyText (r.applyText name) := by
  unfold applyText
  unfold andThen
  cases r name with
  | none => rfl
  | some renamed => exact s.text_apply renamed

theorem keeps_andThen_of_not_mem {source target : BinaryName} {names : List String}
    (h : target.text ∉ names) :
    ((single source.text target).andThen (single target.text source)).Keeps names := by
  intro name hname
  have hne : name ≠ target.text := fun heq => h (heq ▸ hname)
  rw [applyText_andThen]
  unfold applyText single
  by_cases heq : name = source.text
  · simp [heq]
  · simp [heq, hne]

end Renaming

open Renaming

variable {r s : Renaming}

theorem RefType.rename_rename (t : RefType) : (t.rename r).rename s = t.rename (r.andThen s) := by
  cases t with
  | object name => exact congrArg RefType.object (apply_andThen name).symm
  | objectArray array => simp only [rename, map, ArrayType.map, apply_andThen]
  | primitiveArray array => rfl

theorem FieldType.rename_rename (t : FieldType) :
    (t.rename r).rename s = t.rename (r.andThen s) := by
  cases t with
  | base t => rfl
  | ref t => exact congrArg FieldType.ref t.rename_rename

theorem MethodDescriptor.rename_rename (d : MethodDescriptor) :
    (d.rename r).rename s = d.rename (r.andThen s) := by
  have htype : FieldType.map s.apply ∘ FieldType.map r.apply
      = FieldType.map (r.andThen s).apply := funext FieldType.rename_rename
  simp only [rename, map, List.map_map, Option.map_map, htype]

theorem FieldRef.rename_rename (f : FieldRef) :
    (f.rename r).rename s = f.rename (r.andThen s) := by
  simp only [rename, apply_andThen, FieldType.rename_rename]

theorem MethodRef.rename_rename (m : MethodRef) :
    (m.rename r).rename s = m.rename (r.andThen s) := by
  simp only [rename, RefType.rename_rename, MethodDescriptor.rename_rename]

theorem MethodHandle.rename_rename (h : MethodHandle) :
    (h.rename r).rename s = h.rename (r.andThen s) := by
  obtain ⟨kind, member⟩ := h
  cases member with
  | field f => simp only [rename, HandleMember.rename, f.rename_rename]
  | method m => simp only [rename, HandleMember.rename, m.rename_rename]

theorem StaticConstant.rename_rename (c : StaticConstant) :
    (c.rename r).rename s = c.rename (r.andThen s) := by
  cases c with
  | classRef t => simp only [rename, t.rename_rename]
  | methodType descriptor => simp only [rename, descriptor.rename_rename]
  | methodHandle h => simp only [rename, h.rename_rename]
  | string | integer | float | long | double => rfl

mutual

theorem LoadableConstant.rename_rename : ∀ c : LoadableConstant,
    (c.rename r).rename s = c.rename (r.andThen s)
  | .static c => by simp only [LoadableConstant.rename, c.rename_rename]
  | .dynamic handle arguments _ descriptor => by
    simp only [LoadableConstant.rename, handle.rename_rename, descriptor.rename_rename,
      renameConstants_renameConstants arguments]

theorem renameConstants_renameConstants : ∀ cs : List LoadableConstant,
    renameConstants s (renameConstants r cs) = renameConstants (r.andThen s) cs
  | [] => by simp only [renameConstants]
  | c :: cs => by
    simp only [renameConstants, c.rename_rename, renameConstants_renameConstants cs]

end

theorem CallSite.rename_rename (c : CallSite) :
    (c.rename r).rename s = c.rename (r.andThen s) := by
  simp only [rename, BootstrapMethod.rename, MethodHandle.rename_rename,
    renameConstants_renameConstants, MethodDescriptor.rename_rename]

theorem SymbolicInstruction.rename_rename (i : SymbolicInstruction) :
    rename s (rename r i) = rename (r.andThen s) i := by
  cases i with
  | ldc c => simp only [rename, c.rename_rename]
  | ldc2 c => simp only [rename, c.rename_rename]
  | onField access f => simp only [rename, f.rename_rename]
  | invoke kind m => simp only [rename, m.rename_rename]
  | invokeDynamic site => simp only [rename, site.rename_rename]
  | onClass op t => simp only [rename, t.rename_rename]
  | multiNewArray t dimensions => simp only [rename, t.rename_rename]
  | plain | bipush | sipush | load | store | iinc | newPrimitiveArray => rfl

namespace BodyElement

theorem rename_rename (e : BodyElement) : rename s (rename r e) = rename (r.andThen s) e := by
  cases e with
  | instruction i => exact congrArg CodeElement.instruction (SymbolicInstruction.rename_rename i)
  | label | branch => rfl

variable {source target : BinaryName} {es es' : List BodyElement}

theorem map_rename_back (h : target.text ∉ es.flatMap names) :
    (es.map (rename (.single source.text target))).map (rename (.single target.text source))
      = es := by
  have hcompose : rename (.single target.text source) ∘ rename (.single source.text target)
      = rename ((single source.text target).andThen (single target.text source)) :=
    funext rename_rename
  rw [List.map_map, hcompose]
  exact map_of_keeps rename_of_keeps (keeps_andThen_of_not_mem h)

theorem map_rename_inj (h : target.text ∉ es.flatMap names) (h' : target.text ∉ es'.flatMap names) :
    es.map (rename (.single source.text target)) = es'.map (rename (.single source.text target))
      ↔ es = es' := by
  constructor
  · intro heq
    have hback : (es.map (rename (.single source.text target))).map
        (rename (.single target.text source)) = es := map_rename_back h
    rw [← hback, heq, map_rename_back h']
  · exact congrArg _

end BodyElement

end ClassPatch
