import ClassPatch.Lower.Annotation

/-!
Lowering is made of adding single constants and entries to a pool, one after the other. What holds of
those, and of each sequence whose parts it holds of, holds of lowering every symbolic value.
-/

namespace ClassPatch.PoolM

/-- The property holds of adding a constant, and of a sequence if it holds of the parts. -/
structure Compositional (C : {α : Type} → PoolM α → Prop) : Prop where
  pure {α : Type} (a : α) : C (Pure.pure a)
  bind {α β : Type} {x : PoolM α} {f : α → PoolM β} (hx : C x) (hf : ∀ a, C (f a)) : C (x >>= f)
  constant (c : Constant) : C (constant c)

namespace Compositional

variable {C : {α : Type} → PoolM α → Prop} (h : Compositional C) {α β : Type}

include h

theorem map {x : PoolM α} (hx : C x) (f : α → β) : C (do return f (← x)) :=
  h.bind hx fun a => h.pure (f a)

theorem mapM {f : α → PoolM β} {as : List α} (hf : ∀ a ∈ as, C (f a)) : C (as.mapM f) := by
  induction as with
  | nil => exact h.pure []
  | cons a as ih =>
    rw [List.forall_mem_cons] at hf
    rw [List.mapM_cons]
    exact h.bind hf.1 fun b => h.map (ih hf.2) (b :: ·)

theorem optionMapM {f : α → PoolM β} {a : Option α} (hf : ∀ a' ∈ a, C (f a')) : C (a.mapM f) := by
  cases a with
  | none => exact h.pure none
  | some a =>
    rw [Option.mapM_some, map_eq_pure_bind]
    exact h.map (hf a rfl) some

theorem className (name : BinaryName) : C (className name) :=
  h.bind (h.constant _) fun _ => h.constant _

theorem refType (t : RefType) : C (refType t) :=
  h.bind (h.constant _) fun _ => h.constant _

theorem nameAndType (name descriptor : String) : C (nameAndType name descriptor) :=
  h.bind (h.constant _) fun _ => h.bind (h.constant _) fun _ => h.constant _

theorem fieldRef (f : FieldRef) : C (fieldRef f) :=
  h.bind (h.className _) fun _ => h.bind (h.nameAndType _ _) fun _ => h.constant _

theorem methodRef (m : MethodRef) : C (methodRef m) :=
  h.bind (h.refType _) fun _ => h.bind (h.nameAndType _ _) fun _ => h.constant _

theorem handleMember (m : HandleMember) : C (handleMember m) := by
  cases m with
  | field f => exact h.fieldRef f
  | method m => exact h.methodRef m

theorem methodHandle (m : MethodHandle) : C (methodHandle m) :=
  h.bind (h.handleMember _) fun _ => h.constant _

theorem staticConstant (c : StaticConstant) : C (staticConstant c) := by
  cases c with
  | string text => exact h.bind (h.constant _) fun _ => h.constant _
  | integer value => exact h.constant _
  | float value => exact h.constant _
  | long value => exact h.constant _
  | double value => exact h.constant _
  | classRef t => exact h.refType t
  | methodType descriptor => exact h.bind (h.constant _) fun _ => h.constant _
  | methodHandle m => exact h.methodHandle m

mutual

theorem loadable (hentry : ∀ e, C (bootstrapEntry e)) : (c : LoadableConstant) → C (loadable c)
  | .static c => by
    unfold PoolM.loadable
    exact h.staticConstant c
  | .dynamic handle arguments name descriptor => by
    unfold PoolM.loadable
    refine h.bind (h.methodHandle handle) fun _ => h.bind (loadables hentry arguments) fun _ => ?_
    exact h.bind (hentry _) fun _ => h.bind (h.nameAndType _ _) fun _ => h.constant _

theorem loadables (hentry : ∀ e, C (bootstrapEntry e)) :
    (cs : List LoadableConstant) → C (loadables cs)
  | [] => by
    unfold PoolM.loadables
    exact h.pure []
  | c :: cs => by
    unfold PoolM.loadables
    exact h.bind (loadable hentry c) fun _ => h.map (loadables hentry cs) _

end

section Bootstrap

variable (hentry : ∀ e, C (bootstrapEntry e))

include hentry

theorem bootstrapParts (b : BootstrapMethod) : C (bootstrapParts b) :=
  h.bind (h.methodHandle _) fun _ => h.map (h.loadables hentry _) _

theorem bootstrapMethod (b : BootstrapMethod) : C (bootstrapMethod b) :=
  h.bind (h.bootstrapParts hentry b) fun _ => hentry _

theorem callSite (s : CallSite) : C (callSite s) :=
  h.bind (h.bootstrapMethod hentry _) fun _ => h.bind (h.nameAndType _ _) fun _ => h.constant _

end Bootstrap

theorem leafValue (v : LeafValue) : C (leafValue v) := by
  cases v with
  | enum type name => exact h.bind (h.constant _) fun _ => h.map (h.constant _) _
  | _ => exact h.map (h.constant _) _

mutual

theorem elementValue : (v : ElementValue) → C (elementValue v)
  | .leaf v => by
    unfold PoolM.elementValue
    exact h.map (h.leafValue v) _
  | .nested type elements => by
    unfold PoolM.elementValue
    exact h.bind (h.constant _) fun _ => h.map (namedElements elements) _
  | .array values => by
    unfold PoolM.elementValue
    exact h.map (elementValues values) _

theorem elementValues : (vs : List ElementValue) → C (elementValues vs)
  | [] => by
    unfold PoolM.elementValues
    exact h.pure []
  | v :: vs => by
    unfold PoolM.elementValues
    exact h.bind (elementValue v) fun _ => h.map (elementValues vs) _

theorem namedElements : (elements : List (String × ElementValue)) → C (namedElements elements)
  | [] => by
    unfold PoolM.namedElements
    exact h.pure []
  | (name, v) :: elements => by
    unfold PoolM.namedElements
    refine h.bind (h.constant _) fun _ => h.bind (elementValue v) fun _ => ?_
    exact h.map (namedElements elements) _

end

theorem annotations (as : List Annotation) : C (annotations as) :=
  h.mapM fun _ _ => h.bind (h.constant _) fun _ => h.map (h.namedElements _) _

end Compositional

end ClassPatch.PoolM
