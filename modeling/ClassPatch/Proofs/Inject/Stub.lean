import ClassPatch.Inject.ExpectPlatform
import ClassPatch.Proofs.Bytecode.Assemble
import ClassPatch.Proofs.Lower.Code
import ClassPatch.Proofs.Lower.Found
import ClassPatch.Proofs.StackDepth.Typed

/-!
The bodies of forwarded methods are well typed: each parameter is loaded from where it is, the
parameters are on the stack when the other method is called, and so is its result in the end. The
limits that lowering computes for them are those of the descriptor.
-/

namespace ClassPatch

section Loads

open FieldType

variable {slot : UInt16} {t : FieldType} {ts : List FieldType}

/-- Kinds and slots of the loads of parameters. -/
def parameterReads : UInt16 → List FieldType → List (ValueKind × UInt16)
  | _, [] => []
  | slot, t :: ts => (t.category, slot) :: parameterReads (slot + UInt16.ofNat t.width) ts

theorem loadParameters_eq_map (slot : UInt16) (ts : List FieldType) :
    loadParameters slot ts
      = (parameterReads slot ts).map fun r => .instruction (.load r.1 r.2) := by
  induction ts generalizing slot with
  | nil => rfl
  | cons t ts ih => rw [loadParameters, parameterReads, List.map_cons, ih, kind_eq_category]

theorem toNat_slot_add (h : slot.toNat + totalWidth (t :: ts) ≤ 0xFFFF) :
    (slot + UInt16.ofNat t.width).toNat = slot.toNat + t.width := by
  rw [totalWidth_cons] at h
  have hwidth : t.width < UInt16.size := Nat.lt_of_le_of_lt (by omega) (by decide : 0xFFFF < _)
  rw [UInt16.toNat_add, UInt16.toNat_ofNat_of_lt' hwidth, Nat.mod_eq_of_lt (by omega)]

theorem totalWidth_tail_le (h : slot.toNat + totalWidth (t :: ts) ≤ 0xFFFF) :
    (slot + UInt16.ofNat t.width).toNat + totalWidth ts ≤ 0xFFFF := by
  rw [toNat_slot_add h]
  rw [totalWidth_cons] at h
  omega

theorem length_parameterReads (slot : UInt16) (ts : List FieldType) :
    (parameterReads slot ts).length = ts.length := by
  induction ts generalizing slot with
  | nil => rfl
  | cons t ts ih => rw [parameterReads, List.length_cons, List.length_cons, ih]

theorem getElem?_parameterReads (h : slot.toNat + totalWidth ts ≤ 0xFFFF) {i : Nat}
    (hi : ts[i]? = some t) :
    ∃ start, (parameterReads slot ts)[i]? = some (t.category, start)
      ∧ start.toNat = slot.toNat + totalWidth (ts.take i) := by
  induction ts generalizing slot i with
  | nil => cases hi
  | cons t' ts ih =>
    cases i with
    | zero =>
      cases hi
      exact ⟨slot, rfl, rfl⟩
    | succ i =>
      obtain ⟨start, hstart, htoNat⟩ := ih (totalWidth_tail_le h) (i := i) hi
      refine ⟨start, hstart, ?_⟩
      rw [htoNat, toNat_slot_add h, List.take_succ_cons, totalWidth_cons, Nat.add_assoc]

theorem slots_parameterReads (h : slot.toNat + totalWidth ts ≤ 0xFFFF) :
    (parameterReads slot ts).flatMap (fun r => List.range' r.2.toNat r.1.width)
      = List.range' slot.toNat (totalWidth ts) := by
  induction ts generalizing slot with
  | nil => rfl
  | cons t ts ih =>
    rw [parameterReads, List.flatMap_cons, ih (totalWidth_tail_le h), toNat_slot_add h,
      width_category, totalWidth_cons]
    exact List.range'_append_1

theorem le_of_mem_parameterReads (h : slot.toNat + totalWidth ts ≤ 0xFFFF) :
    ∀ r ∈ parameterReads slot ts, r.2.toNat + r.1.width ≤ slot.toNat + totalWidth ts := by
  induction ts generalizing slot with
  | nil => exact fun _ hr => absurd hr List.not_mem_nil
  | cons t ts ih =>
    have htail := ih (totalWidth_tail_le h)
    rw [toNat_slot_add h] at htail
    rw [parameterReads, List.forall_mem_cons, totalWidth_cons, width_category]
    refine ⟨Nat.add_le_add_left (Nat.le_add_right _ _) _, fun r hr => ?_⟩
    exact Nat.le_trans (htail r hr) (Nat.le_of_eq (Nat.add_assoc _ _ _))

theorem stacksAlong_loadParameters {locals : List LocalSlot} (stack : KindStack)
    {rest : List BodyElement} {shapes : List KindStack}
    (h : slot.toNat + totalWidth ts ≤ 0xFFFF)
    (hlocals : locals.drop slot.toNat = (ts.map category).flatMap ValueKind.slots)
    (hrest : stacksAlong locals (stack ++ ts.map category) rest
      = some ((stack ++ ts.map category) :: shapes)) :
    stacksAlong locals stack (loadParameters slot ts ++ rest)
      = some ((ts.map category).inits.map (stack ++ ·) ++ shapes) := by
  induction ts generalizing slot stack with
  | nil =>
    rw [List.map_nil, List.append_nil] at hrest
    rw [List.map_nil, List.inits, List.map_singleton, List.append_nil]
    exact hrest
  | cons t ts ih =>
    rw [List.map_cons, List.flatMap_cons] at hlocals
    have hexecute : BodyElement.execute locals stack (.instruction (.load t.category slot))
        = some (stack ++ [t.category]) := if_pos (hlocals ▸ List.prefix_append _ _)
    have hnext : locals.drop (slot + UInt16.ofNat t.width).toNat
        = (ts.map category).flatMap ValueKind.slots := by
      rw [toNat_slot_add h, ← List.drop_drop, hlocals]
      refine List.drop_left' ?_
      rw [ValueKind.length_slots, width_category]
    rw [List.map_cons, List.append_cons] at hrest
    have htail := ih _ (totalWidth_tail_le h) hnext hrest
    rw [loadParameters, kind_eq_category]
    refine stacksAlong_cons_eq_some.2 ⟨_, _, hexecute, htail, ?_⟩
    rw [List.map_cons, List.inits_cons, List.map_cons, List.append_nil, List.cons_append,
      List.map_map]
    refine congrArg (fun ss => stack :: (ss ++ shapes)) (List.map_congr_left fun ks _ => ?_)
    exact List.append_cons stack t.category ks

end Loads

section Bodies

variable {target : BinaryName} {m : Method}

theorem slots_fit (h : m.descriptor.parameterLength false ≤ 0xFFFF) :
    (0 : UInt16).toNat + FieldType.totalWidth m.descriptor.parameters ≤ 0xFFFF := by
  rw [← MethodDescriptor.parameterLength_eq_totalWidth]
  exact Nat.le_trans (Nat.le_of_eq (Nat.zero_add _)) h

/-- The stacks while a method is forwarded: one parameter more after each load, up to the call. -/
theorem stacksAlong_forwardingBody (target : BinaryName)
    (h : m.descriptor.parameterLength false ≤ 0xFFFF) :
    stacksAlong m.descriptor.parameterSlots [] (forwardingBody target m)
      = some (m.descriptor.parameterKinds.inits ++ [m.descriptor.resultKinds, []]) := by
  have hcall : BodyElement.execute m.descriptor.parameterSlots m.descriptor.parameterKinds
      (.instruction (.invoke .static (forwardTarget target m))) = some m.descriptor.resultKinds :=
    congrArg (Option.map _) (KindStack.pop_append [] m.descriptor.parameterKinds)
  have hreturn : BodyElement.execute m.descriptor.parameterSlots m.descriptor.resultKinds
      (.branch (returnOf m.descriptor.returnType)) = some [] := by
    unfold MethodDescriptor.resultKinds
    cases m.descriptor.returnType with
    | none => rfl
    | some t =>
      rw [returnOf, t.kind_eq_category]
      exact KindStack.pop_append [] [t.category]
  have hrest : stacksAlong m.descriptor.parameterSlots m.descriptor.parameterKinds
      [.instruction (.invoke .static (forwardTarget target m)),
        .branch (returnOf m.descriptor.returnType)]
      = some (m.descriptor.parameterKinds :: [m.descriptor.resultKinds, []]) :=
    stacksAlong_cons_eq_some.2 ⟨_, _, hcall,
      stacksAlong_cons_eq_some.2 ⟨_, _, hreturn, rfl, rfl⟩, rfl⟩
  have hloads := stacksAlong_loadParameters [] (slots_fit h) List.drop_zero hrest
  rwa [List.map_congr_left fun ks _ => List.nil_append ks, List.map_id'] at hloads

theorem fallsThrough_of_mem_dropLast :
    ∀ e ∈ (forwardingBody target m).dropLast, BodyElement.fallsThrough e := by
  have hdropLast : (forwardingBody target m).dropLast
      = loadParameters 0 m.descriptor.parameters
        ++ [.instruction (.invoke .static (forwardTarget target m))] := by
    rw [forwardingBody, List.append_cons]
    exact List.dropLast_concat
  rw [hdropLast, loadParameters_eq_map, List.forall_mem_append, List.forall_mem_map]
  exact ⟨fun _ _ => rfl, List.forall_mem_singleton.2 rfl⟩

theorem stackLimit_forwardingBody (h : m.descriptor.parameterLength false ≤ 0xFFFF) :
    Code.stackLimit (forwardingBody target m) []
      = .ok (toLimit (max (m.descriptor.parameterLength false) m.descriptor.returnWidth)) := by
  have hparameters := m.descriptor.width_parameterKinds
  have hresult := m.descriptor.width_resultKinds
  have hle : ∀ stack ∈ m.descriptor.parameterKinds.inits ++ [m.descriptor.resultKinds, []],
      KindStack.width stack
        ≤ max (m.descriptor.parameterLength false) m.descriptor.returnWidth := by
    intro stack hstack
    rcases List.mem_append.1 hstack with hstack | hstack
    · obtain ⟨rest, hrest⟩ := (List.mem_inits _ _).1 hstack
      rw [← hparameters, ← hrest, KindStack.width_append]
      omega
    rcases List.mem_cons.1 hstack with rfl | hstack
    · exact hresult ▸ Nat.le_max_right _ _
    · rw [List.mem_singleton.1 hstack]
      exact Nat.zero_le _
  have hstacks := stacksAlong_forwardingBody target h
  rcases Nat.le_total m.descriptor.returnWidth (m.descriptor.parameterLength false) with hmax | hmax
  · rw [Nat.max_eq_left hmax, ← hparameters] at hle ⊢
    exact stackLimit_of_stacksAlong hstacks fallsThrough_of_mem_dropLast
      (List.mem_append_left _ ((List.mem_inits _ _).2 List.prefix_rfl)) hle
  · rw [Nat.max_eq_right hmax, ← hresult] at hle ⊢
    exact stackLimit_of_stacksAlong hstacks fallsThrough_of_mem_dropLast
      (List.mem_append_right _ List.mem_cons_self) hle

theorem foldl_max_eq_of_le {ns : List Nat} {n : Nat} (h : ∀ k ∈ ns, k ≤ n) :
    ns.foldl max n = n := by
  induction ns with
  | nil => rfl
  | cons k ns ih =>
    rw [List.forall_mem_cons] at h
    rw [List.foldl_cons, Nat.max_eq_left h.1]
    exact ih h.2

theorem localLimit_forwardingBody (h : m.descriptor.parameterLength false ≤ 0xFFFF) :
    Code.localLimit (forwardingBody target m) m.descriptor true
      = toLimit (m.descriptor.parameterLength false) := by
  refine congrArg toLimit (foldl_max_eq_of_le ?_)
  change ∀ k ∈ _, k ≤ m.descriptor.parameterLength false
  rw [forwardingBody, loadParameters_eq_map, List.forall_mem_map, List.forall_mem_append,
    List.forall_mem_map, m.descriptor.parameterLength_eq_totalWidth]
  constructor
  · intro r hr
    exact Nat.le_trans (le_of_mem_parameterReads (slots_fit h) r hr)
      (Nat.le_of_eq (Nat.zero_add _))
  · have hreturn : Code.elementExtent (.branch (returnOf m.descriptor.returnType)) = 0 := by
      cases m.descriptor.returnType <;> rfl
    refine List.forall_mem_cons.2 ⟨Nat.zero_le _, List.forall_mem_singleton.2 ?_⟩
    exact hreturn ▸ Nat.zero_le _

theorem limits_of_forwarding (hstatic : m.isStatic = true)
    (hlength : m.descriptor.parameterLength false ≤ 0xFFFF) {owner : BinaryName} {c : Code}
    {p q : Pool} {x : Stored.Code} (hc : c.elements = forwardingBody target m)
    (hrun : (PoolM.code (m.context owner) c).run p = (.ok x, q)) :
    (c.maxStack = none → x.maxStack
        = toLimit (max (m.descriptor.parameterLength false) m.descriptor.returnWidth))
      ∧ (c.maxLocals = none → x.maxLocals = toLimit (m.descriptor.parameterLength false)) := by
  obtain ⟨hmaxStack, hmaxLocals⟩ := PoolM.limits_of_run hrun
  rw [hc] at hmaxStack hmaxLocals
  constructor
  · intro hnone
    rw [hnone, Option.none_or] at hmaxStack
    have hlimit := eq_ok_of_toOption hmaxStack
    have hhandlers :=
      handlers_eq_nil_of_stacksAlong (stacksAlong_forwardingBody target hlength) hlimit
    rw [hhandlers, stackLimit_forwardingBody hlength] at hlimit
    exact (Except.ok.inj hlimit).symm
  · intro hnone
    rw [hnone, Option.getD_none] at hmaxLocals
    have hcontext : (m.context owner).isStatic = true := hstatic
    rw [hmaxLocals, hcontext]
    exact localLimit_forwardingBody hlength

end Bodies

/--
A static method is forwarded in a well-typed way. Each parameter is read from the slot where it
starts, as a value of its kind, and no slot is read twice or left out. Executed with the local
variables of the descriptor, the body has exactly the parameters on the stack before the call and
exactly the result before the return, which takes it. Limits that the code does not have are
computed from the widths of the parameters and the result.
-/
theorem forwardingBody_wellTyped (target : BinaryName) (m : Method) (hstatic : m.isStatic = true)
    (hlength : m.descriptor.parameterLength false ≤ 0xFFFF) :
    (∃ reads : List (ValueKind × UInt16),
      forwardingBody target m = (reads.map fun r => .instruction (.load r.1 r.2))
          ++ [.instruction (.invoke .static (forwardTarget target m)),
            .branch (returnOf m.descriptor.returnType)]
        ∧ reads.length = m.descriptor.parameters.length
        ∧ (∀ i t, m.descriptor.parameters[i]? = some t → ∃ start,
          reads[i]? = some (t.category, start)
            ∧ start.toNat = FieldType.totalWidth (m.descriptor.parameters.take i))
        ∧ (reads.flatMap fun r => List.range' r.2.toNat r.1.width)
          = List.range (m.descriptor.parameterLength false))
      ∧ stacksAlong m.descriptor.parameterSlots [] (forwardingBody target m)
        = some (m.descriptor.parameterKinds.inits ++ [m.descriptor.resultKinds, []])
      ∧ (∃ limit, Code.stackLimit (forwardingBody target m) [] = .ok limit ∧ limit.toNat
        = min 0xFFFF (max (m.descriptor.parameterLength false) m.descriptor.returnWidth))
      ∧ (Code.localLimit (forwardingBody target m) m.descriptor m.isStatic).toNat
        = min 0xFFFF (m.descriptor.parameterLength false)
      ∧ ∀ (owner : BinaryName) (c : Code) (p q : Pool) (x : Stored.Code),
        c.elements = forwardingBody target m →
        (PoolM.code (m.context owner) c).run p = (.ok x, q) →
        (c.maxStack = none → x.maxStack.toNat
            = min 0xFFFF (max (m.descriptor.parameterLength false) m.descriptor.returnWidth))
          ∧ (c.maxLocals = none → x.maxLocals.toNat
            = min 0xFFFF (m.descriptor.parameterLength false)) := by
  have hfit := slots_fit hlength
  refine ⟨⟨parameterReads 0 m.descriptor.parameters, ?_, length_parameterReads _ _, ?_, ?_⟩,
    stacksAlong_forwardingBody target hlength,
    ⟨_, stackLimit_forwardingBody hlength, toNat_toLimit _⟩, ?_, ?_⟩
  · rw [forwardingBody, loadParameters_eq_map]
  · intro i t hi
    obtain ⟨start, hstart, htoNat⟩ := getElem?_parameterReads hfit hi
    exact ⟨start, hstart, htoNat.trans (Nat.zero_add _)⟩
  · rw [slots_parameterReads hfit, m.descriptor.parameterLength_eq_totalWidth,
      List.range_eq_range']
    rfl
  · rw [hstatic, localLimit_forwardingBody hlength, toNat_toLimit]
  · intro owner c p q x hc hrun
    obtain ⟨hmaxStack, hmaxLocals⟩ := limits_of_forwarding hstatic hlength hc hrun
    refine ⟨fun hnone => ?_, fun hnone => ?_⟩
    · rw [hmaxStack hnone, toNat_toLimit]
    · rw [hmaxLocals hnone, toNat_toLimit]

section Mixed

open PoolM

/-- A method with parameters of one slot and of two, in turn. -/
def mixedMethod : Method where
  accessFlags := .truncate _ AccessFlags.staticBit
  name := ⟨"mix", by decide +kernel⟩
  descriptor := ⟨[.base .long, .base .byte, .base .double, .base .float], some (.base .double)⟩

def mixedTarget : BinaryName := ⟨"fabric/BarImpl", by decide +kernel⟩

def mixedCode : Code where
  elements := forwardingBody mixedTarget mixedMethod

def mixedConstants : ConstantTable :=
  .ofList 1 [.utf8 "fabric/BarImpl", .classRef 1, .utf8 "mix", .utf8 "(JBDF)D", .nameAndType 3 4,
    .methodRef 2 5 false]

def mixedLayout : List LayoutElement :=
  [.instruction (.load .long 0), .instruction (.load .int 2), .instruction (.load .double 3),
    .instruction (.load .float 5), .instruction (.invoke .static 6), .branch (.valueReturn .double)]

theorem exists_assemble_mixedLayout : ∃ assembled, assemble mixedLayout = .ok assembled := by
  have hnear : widenOnce mixedLayout = .ok mixedLayout := rfl
  exact ⟨_, assemble_of_widenOnce hnear (by decide) (.cons rfl (.cons rfl (.cons rfl
    (.cons rfl (.cons rfl (.cons rfl .nil))))))⟩

theorem finds_mixedCode (limit : UInt16)
    (hlimit : Code.stackLimit mixedCode.elements [] = .ok limit) :
    ∃ x, Finds mixedConstants (code (mixedMethod.context mixedTarget) mixedCode) x := by
  obtain ⟨assembled, hassemble⟩ := exists_assemble_mixedLayout
  have howner : Finds mixedConstants (refType (.object mixedTarget)) 2 :=
    .className (i := 1) (by decide +kernel) (by decide +kernel)
  have hmember : Finds mixedConstants (nameAndType "mix" "(JBDF)D") 5 :=
    .nameAndType (i := 3) (j := 4) (by decide +kernel) (by decide +kernel) (by decide +kernel)
  have hmethod : Finds mixedConstants (methodRef (forwardTarget mixedTarget mixedMethod)) 6 :=
    howner.bind (hmember.bind (.constant (by decide +kernel)))
  have hinvoke : Finds mixedConstants
      (instruction (.invoke .static (forwardTarget mixedTarget mixedMethod)))
      (.invoke .static 6) := hmethod.bind (.pure _)
  have hlayout : Finds mixedConstants (layout mixedCode.elements) assembled := by
    refine (Finds.mapM ?_).bind (.lift hassemble)
    exact .cons (.pure _) (.cons (.pure _) (.cons (.pure _) (.cons (.pure _)
      (.cons (hinvoke.bind (.pure _)) (.cons (.pure _) .nil)))))
  rw [code_eq]
  exact ⟨_, hlayout.bind ((Finds.mapM .nil).bind ((Finds.unlessEmpty_nil _).bind
    ((Finds.unlessEmpty_nil _).bind ((Finds.unlessEmpty_nil _).bind ((Finds.unlessEmpty_nil _).bind
      ((Finds.mapM .nil).bind ((Finds.lift hlimit).bind (.pure _))))))))⟩

theorem valid_mixedConstants : (Pool.ofTable mixedConstants).Valid :=
  Pool.valid_ofTable (ConstantTable.dense_append _).ordered rfl (by decide)

/-- The third parameter is read from slot 3, and the limits are the 6 slots of the parameters. -/
theorem forwardingBody_wellTyped_mixed :
    mixedMethod.isStatic = true
      ∧ mixedMethod.descriptor.parameterLength false ≤ 0xFFFF
      ∧ stacksAlong
          [.value .long, .upperHalf, .value .int, .value .double, .upperHalf, .value .float] []
          (forwardingBody mixedTarget mixedMethod)
        = some [[], [.long], [.long, .int], [.long, .int, .double],
          [.long, .int, .double, .float], [.double], []]
      ∧ ∃ x, (code (mixedMethod.context mixedTarget) mixedCode).run (.ofTable mixedConstants)
          = (.ok x, .ofTable mixedConstants)
        ∧ x.maxStack.toNat = 6 ∧ x.maxLocals.toNat = 6 := by
  have hstatic : mixedMethod.isStatic = true := by decide
  have hlength : mixedMethod.descriptor.parameterLength false ≤ 0xFFFF := by decide
  obtain ⟨-, hstacks, ⟨limit, hlimit, -⟩, -, hlowered⟩ :=
    forwardingBody_wellTyped mixedTarget mixedMethod hstatic hlength
  obtain ⟨x, hx⟩ := finds_mixedCode limit hlimit
  have hrun := hx _ valid_mixedConstants.findsAll
  obtain ⟨hmaxStack, hmaxLocals⟩ := hlowered mixedTarget mixedCode _ _ x rfl hrun
  exact ⟨hstatic, hlength, hstacks, x, hrun, hmaxStack rfl, hmaxLocals rfl⟩

end Mixed

end ClassPatch
