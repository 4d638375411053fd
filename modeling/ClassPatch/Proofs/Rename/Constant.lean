import ClassPatch.Proofs.Lower.Constant
import ClassPatch.Rename.Constant

/-!
Renamed constants can be lowered and resolved again if the constants could be.
-/

namespace ClassPatch

variable {admits : BootstrapMethod → Prop} {r : Renaming}

theorem MethodHandle.WellFormed.rename {h : MethodHandle} (hh : h.WellFormed) :
    (h.rename r).WellFormed := by
  obtain ⟨kind, member⟩ := h
  cases member with
  | field f => exact hh
  | method m => exact hh

theorem StaticConstant.WellFormed.rename {c : StaticConstant} (hc : c.WellFormed) :
    (c.rename r).WellFormed := by
  cases c with
  | methodHandle h => exact MethodHandle.WellFormed.rename hc
  | _ => trivial

theorem renameConstants_eq_map (r : Renaming) (cs : List LoadableConstant) :
    renameConstants r cs = cs.map (·.rename r) := by
  induction cs with
  | nil => rw [renameConstants, List.map_nil]
  | cons c cs ih => rw [renameConstants, List.map_cons, ih]

theorem LoadableConstant.WellFormed.rename {levels : Nat} {c : LoadableConstant}
    (hc : c.WellFormed (fun b => admits (b.rename r)) levels) :
    (c.rename r).WellFormed admits levels := by
  induction levels generalizing c with
  | zero => cases hc
  | succ levels ih =>
    cases c with
    | static c =>
      rw [LoadableConstant.rename]
      exact StaticConstant.WellFormed.rename hc
    | dynamic handle arguments name descriptor =>
      obtain ⟨hadmitted, hhandle, hlength, harguments⟩ := hc
      unfold BootstrapMethod.rename at hadmitted
      rw [renameConstants_eq_map] at hadmitted
      rw [LoadableConstant.rename, renameConstants_eq_map]
      refine ⟨hadmitted, hhandle.rename, ?_, ?_⟩
      · rw [List.length_map]
        exact hlength
      · rw [List.forall_mem_map]
        exact fun c hc => ih (harguments c hc)

theorem BootstrapMethod.WellFormed.rename {b : BootstrapMethod}
    (hb : b.WellFormed fun b => admits (b.rename r)) : (b.rename r).WellFormed admits where
  admitted := hb.admitted
  handle := hb.handle.rename
  arguments_length := by
    change (renameConstants r b.arguments).length ≤ 0xFFFF
    rw [renameConstants_eq_map, List.length_map]
    exact hb.arguments_length
  arguments := by
    change ∀ c ∈ renameConstants r b.arguments, c.WellFormed admits maxDynamicNesting
    rw [renameConstants_eq_map, List.forall_mem_map]
    exact fun c hc => (hb.arguments c hc).rename

end ClassPatch
