import ClassPatch.Bytecode.Layout
import ClassPatch.Proofs.Run
import ClassPatch.Rename.Code

/-!
The form of an instruction is what is left of it without the constants that it refers to. Apart from
loads of constants, instructions of one form take equally many bytes.
-/

namespace ClassPatch

namespace Instruction

variable {C K F M S C' K' F' M' S' : Type}

/-- The instruction without the constants that it refers to. -/
def form (i : Instruction C K F M S) : Instruction Unit Unit Unit Unit Unit :=
  Id.run (i.mapM (fun _ => pure ()) (fun _ => pure ()) (fun _ => pure ()) (fun _ => pure ())
    fun _ => pure ())

theorem form_of_mapM {cls : C → Except ClassError C'} {const : K → Except ClassError K'}
    {field : F → Except ClassError F'} {method : M → Except ClassError M'}
    {site : S → Except ClassError S'} {i : Instruction C K F M S}
    {j : Instruction C' K' F' M' S'} (h : i.mapM cls const field method site = .ok j) :
    j.form = i.form := by
  cases i with
  | ldc | ldc2 | onField | invoke | invokeDynamic | onClass | multiNewArray =>
    obtain ⟨c, -, h⟩ := bind_eq_ok.1 h
    obtain rfl := pure_eq_ok.1 h
    rfl
  | _ =>
    obtain rfl := pure_eq_ok.1 h
    rfl

theorem form_of_run_mapM {σ : Type} {cls : C → ExceptT ClassError (StateM σ) C'}
    {const : K → ExceptT ClassError (StateM σ) K'} {field : F → ExceptT ClassError (StateM σ) F'}
    {method : M → ExceptT ClassError (StateM σ) M'} {site : S → ExceptT ClassError (StateM σ) S'}
    {i : Instruction C K F M S} {j : Instruction C' K' F' M' S'} {s t : σ}
    (h : (i.mapM cls const field method site).run s = (.ok j, t)) : j.form = i.form := by
  cases i with
  | ldc | ldc2 | onField | invoke | invokeDynamic | onClass | multiNewArray =>
    obtain ⟨c, _, -, h⟩ := run_bind_eq_ok.1 h
    obtain ⟨rfl, -⟩ := run_pure_eq_ok.1 h
    rfl
  | _ =>
    obtain ⟨rfl, -⟩ := run_pure_eq_ok.1 h
    rfl

end Instruction

theorem SymbolicInstruction.form_rename (r : Renaming) (i : SymbolicInstruction) :
    (rename r i).form = i.form := by
  cases i <;> rfl

/-- The index of the constant that the instruction loads, where its width may depend on it. -/
def StoredInstruction.loaded? : StoredInstruction → Option ConstantIndex
  | .ldc c => some c
  | _ => none

namespace StoredInstruction

variable {x y : StoredInstruction}

theorem width_eq_of_form (h : y.form = x.form) (hx : x.loaded? = none) : y.width = x.width := by
  cases x with
  | ldc c => cases hx
  | invoke kind m =>
    cases y with
    | invoke =>
      cases h
      cases kind <;> rfl
    | _ => cases h
  | _ =>
    cases y <;> cases h
    rfl

theorem width_eq_of_loaded (h : y.form = x.form)
    (hloaded : ∀ c ∈ x.loaded?, ∀ c' ∈ y.loaded?, c ≤ 0xFF ↔ c' ≤ 0xFF) : y.width = x.width := by
  cases hx : x.loaded? with
  | none => exact width_eq_of_form h hx
  | some c =>
    cases x with
    | ldc c =>
      cases y with
      | ldc c' =>
        have hiff := hloaded c rfl c' rfl
        simp only [width, hiff]
      | _ => cases h
    | _ => cases hx

end StoredInstruction

end ClassPatch
