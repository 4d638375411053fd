import ClassPatch.Proofs.Rename.Constant
import ClassPatch.Rename.Class

/-!
What renaming leaves alone: attributes that are carried along, and with them the pool.
-/

namespace ClassPatch.Class

variable (r : Renaming) (c : Class)

theorem hasVerbatimAttributes_rename :
    (c.rename r).hasVerbatimAttributes = c.hasVerbatimAttributes := by
  have hfields : (c.fields.map (·.rename r)).any (!·.attributes.isEmpty)
      = c.fields.any (!·.attributes.isEmpty) := by
    rw [List.any_map]
    rfl
  have hmethods : (c.methods.map (·.rename r)).any
        (fun m => !m.attributes.isEmpty || m.code.any (!·.attributes.isEmpty))
      = c.methods.any fun m => !m.attributes.isEmpty || m.code.any (!·.attributes.isEmpty) := by
    rw [List.any_map]
    refine congrArg c.methods.any (funext fun m => ?_)
    cases hcode : m.code <;> simp [Method.rename, Code.rename, hcode]
  have hrecord : (c.recordComponents.map (·.map (·.rename r))).any (·.any (!·.attributes.isEmpty))
      = c.recordComponents.any (·.any (!·.attributes.isEmpty)) := by
    cases c.recordComponents with
    | none => rfl
    | some cs =>
      simp only [Option.map_some, Option.any_some, List.any_map]
      rfl
  unfold hasVerbatimAttributes rename
  rw [hfields, hmethods, hrecord]

variable {c}

theorem mentions_eq_false {name : String} : c.mentions name = false ↔ name ∉ c.names := by
  unfold mentions
  rw [List.contains_eq_mem, decide_eq_false_iff_not]

theorem rename_of_hasVerbatimAttributes (h : c.hasVerbatimAttributes = true) :
    (c.rename r).constantPool = c.constantPool
      ∧ (c.rename r).bootstrapMethods = c.bootstrapMethods.map (·.rename r) := by
  simp only [rename, h, ↓reduceIte, and_self]

theorem rename_of_not_hasVerbatimAttributes (h : c.hasVerbatimAttributes = false) :
    (c.rename r).constantPool = none ∧ (c.rename r).bootstrapMethods = [] := by
  simp only [rename, h, Bool.false_eq_true, ↓reduceIte, and_self]

end ClassPatch.Class
