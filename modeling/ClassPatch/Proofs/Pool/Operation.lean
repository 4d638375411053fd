import ClassPatch.Proofs.Lower.Compositional
import ClassPatch.Proofs.Lower.Found
import ClassPatch.Proofs.Pool.Indexed
import ClassPatch.Proofs.Pool.Run

/-!
Operations on a pool: requests for single entries, and adding symbolic values with everything that
they refer to. The index that was answered for a value resolves to the value in the last pool,
whatever was added, reserved and filled before and after it.
-/

namespace ClassPatch

/-- Symbolic values that stand in a pool or in its table of bootstrap methods. -/
inductive PoolValue where
  | className (name : BinaryName)
  | refType (type : RefType)
  | fieldRef (field : FieldRef)
  | methodRef (method : MethodRef)
  | methodHandle (handle : MethodHandle)
  | loadable (constant : LoadableConstant)
  | bootstrapMethod (bootstrap : BootstrapMethod)
  | callSite (site : CallSite)

/-- Add the value, after what it refers to. -/
def PoolValue.add : PoolValue → PoolM UInt16
  | .className name => PoolM.className name
  | .refType t => PoolM.refType t
  | .fieldRef f => PoolM.fieldRef f
  | .methodRef m => PoolM.methodRef m
  | .methodHandle h => PoolM.methodHandle h
  | .loadable c => PoolM.loadable c
  | .bootstrapMethod b => PoolM.bootstrapMethod b
  | .callSite s => PoolM.callSite s

/-- Handles match their members, and arguments of bootstrap methods nest as deep as they may. -/
def PoolValue.Resolvable : PoolValue → Prop
  | .methodHandle h => h.WellFormed
  | .loadable c => c.HandlesMatch ∧ c.nesting ≤ maxDynamicNesting
  | .bootstrapMethod b => b.Resolvable
  | .callSite s => s.bootstrap.Resolvable
  | _ => True

/-- The index resolves to the value. -/
def Resolver.Gives (r : Resolver) (index : UInt16) : PoolValue → Prop
  | .className name => r.className index = .ok name
  | .refType t => r.refType index = .ok t
  | .fieldRef f => r.fieldRef index = .ok f
  | .methodRef m => r.methodRef index = .ok m
  | .methodHandle h => r.methodHandle index = .ok h
  | .loadable c => r.loadable index = .ok c
  | .bootstrapMethod b => r.bootstrap index = .ok b
  | .callSite s => r.callSite index = .ok s

namespace PoolM

variable {α β : Type}

/-- The pool only grows, also where the computation fails. -/
def OnlyAdds (x : PoolM α) : Prop :=
  ∀ p : Pool, p.Grows Pool.anyEntry (x.run p).2

namespace OnlyAdds

theorem pure (a : α) : OnlyAdds (Pure.pure a) := fun _ => .refl

theorem bind {x : PoolM α} {f : α → PoolM β} (hx : OnlyAdds x) (hf : ∀ a, OnlyAdds (f a)) :
    OnlyAdds (x >>= f) := by
  intro p
  have hgrows := hx p
  cases hrun : x.run p with
  | mk result q =>
    rw [hrun] at hgrows
    cases result with
    | ok a =>
      rw [run_bind_ok hrun]
      exact hgrows.trans (hf a q)
    | error e =>
      rw [run_bind_error hrun]
      exact hgrows

theorem constant (c : Constant) : OnlyAdds (constant c) := fun p => p.grows_insert_any c

theorem bootstrapEntry (e : BootstrapEntry) : OnlyAdds (bootstrapEntry e) := fun p =>
  (p.grows_insertBootstrap_any e).1

theorem compositional : Compositional OnlyAdds := ⟨pure, bind, constant⟩

theorem add (v : PoolValue) : OnlyAdds v.add := by
  cases v with
  | className name => exact compositional.className name
  | refType t => exact compositional.refType t
  | fieldRef f => exact compositional.fieldRef f
  | methodRef m => exact compositional.methodRef m
  | methodHandle h => exact compositional.methodHandle h
  | loadable c => exact compositional.loadable bootstrapEntry c
  | bootstrapMethod b => exact compositional.bootstrapMethod bootstrapEntry b
  | callSite s => exact compositional.callSite bootstrapEntry s

end OnlyAdds

theorem yields_add (s : Rereading) {v : PoolValue} (hv : v.Resolvable) (hs : ¬ s.wellFormed) :
    Yields s v.add fun i => s.resolver.Gives i v := by
  cases v with
  | className name => exact yields_className name
  | refType t => exact yields_refType t
  | fieldRef f => exact yields_fieldRef f
  | methodRef m => exact yields_methodRef m
  | methodHandle h => exact (yields_methodHandle fun _ => hv).mono fun i hi => hi trivial
  | loadable c =>
    have hc : c.HandlesMatch ∧ c.nesting < maxDynamicNesting + 1 := ⟨hv.1, Nat.lt_succ_of_le hv.2⟩
    exact (yields_loadable_of c (Nat.le_refl _) (fun _ => hc) (absurd · hs)).mono
      fun i hi => hi trivial
  | bootstrapMethod b =>
    exact (yields_bootstrapMethod_of (fun _ => hv) (absurd · hs)).mono fun i hi => hi trivial
  | callSite c =>
    exact (yields_callSite_of (fun _ => hv) (absurd · hs)).mono fun i hi => hi trivial

end PoolM

namespace Pool

/-- What can be done with a pool. -/
inductive Operation where
  | request (request : Request)
  | add (value : PoolValue)

/-- What an operation is answered, and the pool after it. -/
def perform (p : Pool) : Operation → Answer × Pool
  | .request request => p.answer request
  | .add value => value.add.run p

/-- The pool after operations in turn. -/
def after (p : Pool) (operations : List Operation) : Pool :=
  operations.foldl (fun p operation => (p.perform operation).2) p

/-- Entries that are reserved and not filled, after the next operation. -/
def stillUnfilled (p : Pool) (free : List Nat) : Operation → List Nat
  | .request request => p.unfilled free request
  | .add _ => free

/-- Only entries are filled that were reserved and not filled before. -/
def OnlyFillsReserved : Pool → List Nat → List Operation → Prop
  | _, _, [] => True
  | p, free, operation :: operations =>
    (∀ (index : UInt16) (e : BootstrapEntry), operation = .request (.fill index e) →
      index.toNat ∈ free)
      ∧ OnlyFillsReserved (p.perform operation).2 (p.stillUnfilled free operation) operations

variable {p : Pool} {free : List Nat} {operation : Operation} {operations : List Operation}

theorem after_append (p : Pool) (before others : List Operation) :
    p.after (before ++ others) = (p.after before).after others := List.foldl_append

theorem extends_perform (p : Pool) (operation : Operation) :
    p.Extends (p.perform operation).2 := by
  cases operation with
  | request request => exact p.extends_answer request
  | add value => exact .of_grows (PoolM.OnlyAdds.add value p)

/-- An operation keeps the pool valid, if it fills nothing but a reserved entry. -/
theorem ValidWith.perform (h : p.ValidWith free)
    (hfills : ∀ (index : UInt16) (e : BootstrapEntry), operation = .request (.fill index e) →
      index.toNat ∈ free) : (p.perform operation).2.ValidWith (p.stillUnfilled free operation) := by
  cases operation with
  | request request => exact h.answer fun index e heq => hfills index e (congrArg _ heq)
  | add value => exact h.grows (PoolM.OnlyAdds.add value p)

theorem extends_after (p : Pool) (operations : List Operation) :
    p.Extends (p.after operations) := by
  induction operations generalizing p with
  | nil => exact .refl p
  | cons operation operations ih => exact (p.extends_perform operation).trans (ih _)

theorem ValidWith.after (h : p.ValidWith free) (hfills : p.OnlyFillsReserved free operations) :
    (p.after operations).Valid := by
  induction operations generalizing p free with
  | nil => exact h.valid
  | cons operation operations ih => exact ih (h.perform hfills.1) hfills.2

theorem Valid.gives {q last : Pool} {v : PoolValue} {i : UInt16} (hlast : last.Valid)
    (hsize : last.bootstrapMethods.size ≤ 0xFFFF) (hv : v.Resolvable)
    (hrun : v.add.run p = (.ok i, q)) (hextends : q.Extends last) : last.resolver.Gives i v := by
  obtain ⟨-, -, hgives⟩ := PoolM.yields_add ⟨last, hlast.get?_zero, False, fun _ => False⟩ hv id
    p i q hrun
  exact hgives ((hlast.retains hsize).mono ⟨hextends.indices, hextends.bootstrapIndices⟩)

/--
The index of a value that was added to a pool resolves to the value in the last pool, whatever
operations come before and after, as long as the table of bootstrap methods can be indexed.
-/
theorem gives_added {cs : List Constant} {before others : List Operation} {v : PoolValue}
    {i : UInt16} (hnext : (SlotTable.ofList 1 cs).next ≤ 0xFFFF)
    (hfills : (ofTable (.ofList 1 cs)).OnlyFillsReserved [] (before ++ .add v :: others))
    (hsize : ((ofTable (.ofList 1 cs)).after (before ++ .add v :: others)).bootstrapMethods.size
      ≤ 0xFFFF)
    (hv : v.Resolvable)
    (hadded : (((ofTable (.ofList 1 cs)).after before).perform (.add v)).1 = .ok i) :
    ((ofTable (.ofList 1 cs)).after (before ++ .add v :: others)).resolver.Gives i v := by
  have hordered : (SlotTable.ofList 1 cs).Ordered :=
    (SlotTable.ordered_empty 1).append fun c _ => c.width_pos
  have hstart := validWith_ofTable hordered (SlotTable.start_append _ cs) hnext
  refine (hstart.after hfills).gives hsize hv (Prod.ext hadded rfl) ?_
  rw [after_append]
  exact extends_after _ others

section Awaited

/-- Constants of which the last one refers to a bootstrap method that has no entry yet. -/
def awaitingConstants : List Constant :=
  [.utf8 "B", .classRef 1, .utf8 "await", .utf8 "()V", .nameAndType 3 4, .methodRef 2 5 false,
    .methodHandle .invokeStatic 6, .utf8 "I", .nameAndType 3 8, .integer 7, .dynamic 0 9]

/-- A handle of the method `await` of `B`. -/
def awaitedHandle : MethodHandle where
  kind := .invokeStatic
  member := .method
    ⟨.object ⟨"B", isName_B⟩, ⟨"await", by decide +kernel⟩, ⟨[], none⟩, false⟩

/-- What the last constant stands for once its bootstrap method has an entry. -/
def awaitedConstant : LoadableConstant :=
  .dynamic awaitedHandle [.static (.integer 7)] ⟨"await", by decide +kernel⟩ (.base .int)

/-- Entries are reserved, and the first is filled. -/
def awaitingOperations : List Operation :=
  [.request (.reserve 2), .request (.fill 0 ⟨7, [10]⟩)]

theorem run_awaitedConstant :
    (PoolM.loadable awaitedConstant).run
        ((ofTable (.ofList 1 awaitingConstants)).after awaitingOperations)
      = (.ok 11, (ofTable (.ofList 1 awaitingConstants)).after awaitingOperations) := by
  let start : Pool := ofTable (.ofList 1 awaitingConstants)
  have hordered : (SlotTable.ofList 1 awaitingConstants).Ordered :=
    (SlotTable.ordered_empty 1).append fun c _ => c.width_pos
  have hvalid : start.Valid :=
    valid_ofTable hordered (SlotTable.start_append _ _) (by decide +kernel)
  have hfinds : (start.after awaitingOperations).FindsAll (.ofList 1 awaitingConstants) :=
    hvalid.findsAll
  have howner : PoolM.Finds (.ofList 1 awaitingConstants)
      (PoolM.refType (.object ⟨"B", isName_B⟩)) 2 :=
    .className (i := 1) (by decide +kernel) (by decide +kernel)
  have hmember : PoolM.Finds (.ofList 1 awaitingConstants) (PoolM.nameAndType "await" "()V") 5 :=
    .nameAndType (i := 3) (j := 4) (by decide +kernel) (by decide +kernel) (by decide +kernel)
  have hmethod : PoolM.Finds (.ofList 1 awaitingConstants)
      (PoolM.handleMember awaitedHandle.member) 6 :=
    howner.bind (hmember.bind (.constant (by decide +kernel)))
  have hhandle : PoolM.Finds (.ofList 1 awaitingConstants) (PoolM.methodHandle awaitedHandle) 7 :=
    hmethod.bind (.constant (by decide +kernel))
  have hinteger : PoolM.Finds (.ofList 1 awaitingConstants)
      (PoolM.loadable (.static (.integer 7))) 10 := by
    rw [PoolM.loadable]
    exact .constant (by decide +kernel)
  have harguments : PoolM.Finds (.ofList 1 awaitingConstants)
      (PoolM.loadables [.static (.integer 7)]) [10] := by
    rw [PoolM.loadables]
    exact hinteger.bind (.pure _)
  have hparts : PoolM.Finds (.ofList 1 awaitingConstants)
      (PoolM.bootstrapParts ⟨awaitedHandle, [.static (.integer 7)]⟩) ⟨7, [10]⟩ :=
    hhandle.bind (harguments.bind (.pure _))
  have hconstant : PoolM.Finds (.ofList 1 awaitingConstants)
      (PoolM.nameAndType "await" "I" >>= fun member => PoolM.constant (.dynamic 0 member)) 11 :=
    .bind (.nameAndType (i := 3) (j := 8) (k := 9) (by decide +kernel) (by decide +kernel)
      (by decide +kernel)) (.constant (by decide +kernel))
  have hindexes : (start.reserveBootstraps 2).2.Indexes [] := fun _ => Std.HashMap.getElem?_empty
  have hentry : (start.after awaitingOperations).bootstrapIndices[
      (⟨7, [10]⟩ : BootstrapEntry)]? = some 0 :=
    hindexes.fillBootstrap ⟨7, [10]⟩ ⟨7, [10]⟩
  have hbootstrap : (PoolM.bootstrapMethod ⟨awaitedHandle, [.static (.integer 7)]⟩).run
      (start.after awaitingOperations) = (.ok 0, start.after awaitingOperations) :=
    (run_bind_ok (hparts _ hfinds) _).trans (PoolM.run_bootstrapEntry_of_some hentry)
  rw [awaitedConstant, PoolM.loadable_dynamic]
  exact (run_bind_ok hbootstrap _).trans (hconstant _ hfinds)

theorem gives_awaitedConstant :
    let start : Pool := ofTable (.ofList 1 awaitingConstants)
    let operations : List Operation := awaitingOperations ++ .add (.loadable awaitedConstant)
      :: [.request (.fill 1 ⟨7, [11]⟩)]
    (SlotTable.ofList 1 awaitingConstants).next ≤ 0xFFFF
      ∧ start.OnlyFillsReserved [] operations
      ∧ (start.after operations).bootstrapMethods.size ≤ 0xFFFF
      ∧ (PoolValue.loadable awaitedConstant).Resolvable
      ∧ ((start.after awaitingOperations).perform (.add (.loadable awaitedConstant))).1 = .ok 11
      ∧ (start.after operations).resolver.Gives 11 (.loadable awaitedConstant) := by
  intro start operations
  have hnext : (SlotTable.ofList 1 awaitingConstants).next ≤ 0xFFFF := by decide +kernel
  have hperform : (start.after awaitingOperations).perform (.add (.loadable awaitedConstant))
      = (.ok 11, start.after awaitingOperations) := run_awaitedConstant
  have hlast : start.after operations
      = (start.after awaitingOperations).fillBootstrap 1 ⟨7, [11]⟩ := by
    rw [after_append]
    change ((start.after awaitingOperations).perform _).2.fillBootstrap 1 ⟨7, [11]⟩ = _
    rw [hperform]
  have hsize : (start.after operations).bootstrapMethods.size ≤ 0xFFFF := by
    rw [hlast, size_fillBootstrap]
    change ((start.reserveBootstraps 2).2.fillBootstrap 0 ⟨7, [10]⟩).bootstrapMethods.size ≤ _
    rw [size_fillBootstrap]
    decide
  have hfills : start.OnlyFillsReserved [] operations := by
    simp [operations, start, awaitingOperations, OnlyFillsReserved, stillUnfilled, unfilled,
      ofTable, List.range']
  have hv : (PoolValue.loadable awaitedConstant).Resolvable := by
    refine ⟨⟨rfl, trivial, trivial⟩, ?_⟩
    decide
  have hadded := congrArg Prod.fst hperform
  exact ⟨hnext, hfills, hsize, hv, hadded, gives_added hnext hfills hsize hv hadded⟩

end Awaited

end Pool

end ClassPatch
