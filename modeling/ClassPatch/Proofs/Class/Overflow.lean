import ClassPatch.Proofs.Class.Jumps
import ClassPatch.Proofs.Lift.MethodCode
import ClassPatch.Proofs.Lower.Limits
import ClassPatch.Proofs.Lower.Extending

/-!
A class that was read can be written again but for want of room for code, and then some instruction
has become longer: a load of a constant whose index no longer fits a byte, or a switch with more
padding.
-/

namespace ClassPatch

namespace PoolM

/-- The elements of the body of a method, whose constants come after its name and descriptor. -/
def methodElements (m : Method) : PoolM (List LayoutElement) := do
  let _ ← utf8 m.name.text
  let _ ← utf8 m.descriptor.render
  (m.code.elim [] (·.elements)).mapM layoutElement

/-- The elements of the body of a method, as lowering of the class comes to them. -/
def bodyElements (c : Class) (i : Nat) : PoolM (List LayoutElement) := do
  restoreBootstraps c.bootstrapMethods
  let _ ← className c.name
  let _ ← c.superName.mapM className
  let _ ← c.interfaces.mapM className
  let _ ← c.fields.mapM field
  let _ ← (c.methods.take i).mapM (method c.name)
  match c.methods[i]? with
  | some m => methodElements m
  | none => return []

variable {c : Class} {p q : Pool} {e : ClassError}

theorem exists_elements_of_code {context : MethodContext} {code : Code}
    (hlimit : code.maxStack.isSome) (h : (PoolM.code context code).run p = (.error e, q))
    (he : e.isOverflow = true) :
    ∃ elements p', (code.elements.mapM layoutElement).run p = (.ok elements, p')
      ∧ assemble elements = .error e := by
  rw [code_eq] at h
  rcases run_bind_eq_error.1 h with h | ⟨assembled, p', -, h⟩
  · have helements : Extending False (code.elements.mapM layoutElement) :=
      .mapM fun _ _ => .layoutElement _
    obtain ⟨elements, p', hrun, h⟩ := helements.exists_of_run_bind h he
    change (assemble elements, p') = _ at h
    exact ⟨elements, p', hrun, congrArg Prod.fst h⟩
  · have hnone : code.maxStack = none → False := by
      intro hnone
      rw [hnone] at hlimit
      cases hlimit
    rw [(Extending.codeAround hnone assembled).isOverflow_of_run h] at he
    cases he

theorem exists_elements_of_method {owner : BinaryName} {m : Method}
    (hlimit : ∀ code ∈ m.code, code.maxStack.isSome)
    (h : (method owner m).run p = (.error e, q)) (he : e.isOverflow = true) :
    ∃ code elements p', m.code = some code ∧ (methodElements m).run p = (.ok elements, p')
      ∧ List.Forall₂ ElementShaped code.elements elements ∧ assemble elements = .error e := by
  unfold method at h
  obtain ⟨name, p₁, hname, h⟩ := (Extending.utf8 _).exists_of_run_bind h he
  obtain ⟨descriptor, p₂, hdescriptor, h⟩ := (Extending.utf8 _).exists_of_run_bind h he
  rcases run_bind_eq_error.1 h with h | ⟨code, p₃, -, h⟩
  · unfold ifSome at h
    cases hcode : m.code with
    | none =>
      rw [hcode] at h
      cases h
    | some code =>
      rw [hcode, Option.mapM_some, map_eq_pure_bind, bind_assoc] at h
      rcases run_bind_eq_error.1 h with h | ⟨x, p₃, -, h⟩
      · rcases run_bind_eq_error.1 h with h | ⟨x, p₃, -, h⟩
        · obtain ⟨elements, p', hrun, hassemble⟩ :=
            exists_elements_of_code (hlimit code hcode) h he
          refine ⟨code, elements, p', rfl, ?_, ElementShaped.forall₂_of_run hrun, hassemble⟩
          unfold methodElements
          rw [run_bind_ok hname, run_bind_ok hdescriptor, hcode]
          exact hrun
        · rw [Extending.storeTotal.isOverflow_of_run h] at he
          cases he
      · cases h
  · rw [(Extending.methodAround m).isOverflow_of_run h] at he
    cases he

theorem exists_elements_of_classFile (hempty : p.bootstrapMethods = #[])
    (hlimit : ∀ m ∈ c.methods, ∀ code ∈ m.code, code.maxStack.isSome)
    (h : (classFile c).run p = (.error e, q)) (he : e.isOverflow = true) :
    ∃ i m code elements p', c.methods[i]? = some m ∧ m.code = some code
      ∧ (bodyElements c i).run p = (.ok elements, p')
      ∧ List.Forall₂ ElementShaped code.elements elements ∧ assemble elements = .error e := by
  have hrestore : Extending False (restoreFrom 0 c.bootstrapMethods) := .restoreFrom _ _
  unfold classFile at h
  rcases run_bind_eq_error.1 h with h | ⟨u, p₀, hrestored, h⟩
  · rw [run_restoreBootstraps_eq hempty] at h
    rw [hrestore.isOverflow_of_run h] at he
    cases he
  obtain ⟨thisClass, p₁, hthis, h⟩ := (Extending.className _).exists_of_run_bind h he
  have hsuper : Extending False (c.superName.mapM className) := .optionMapM fun _ _ => .className _
  obtain ⟨superClass, p₂, hsuper, h⟩ := hsuper.exists_of_run_bind h he
  have hinterfaces : Extending False (c.interfaces.mapM className) := .mapM fun _ _ => .className _
  obtain ⟨interfaces, p₃, hinterfaces, h⟩ := hinterfaces.exists_of_run_bind h he
  have hfields : Extending False (c.fields.mapM field) := .mapM fun _ _ => .field _
  obtain ⟨fields, p₄, hfields, h⟩ := hfields.exists_of_run_bind h he
  rcases run_bind_eq_error.1 h with h | ⟨methods, p₅, -, h⟩
  · obtain ⟨i, m, before, p₅, hm, hbefore, h⟩ := exists_of_run_mapM_eq_error h
    obtain ⟨code, elements, p', hcode, hrun, hshaped, hassemble⟩ :=
      exists_elements_of_method (hlimit m (List.mem_of_getElem? hm)) h he
    refine ⟨i, m, code, elements, p', hm, hcode, ?_, hshaped, hassemble⟩
    unfold bodyElements
    rw [run_bind_ok hrestored, run_bind_ok hthis, run_bind_ok hsuper, run_bind_ok hinterfaces,
      run_bind_ok hfields, run_bind_ok hbefore, hm]
    exact hrun
  · obtain ⟨attributes, p₆, -, h⟩ := (Extending.classAttributes c).exists_of_run_bind h he
    obtain ⟨table, p₇, -, h⟩ := Extending.bootstrapTable.exists_of_run_bind h he
    cases h

end PoolM

namespace Class

/-- The elements of the body of a method, as lowering of the class comes to them. -/
def bodyElements (c : Class) (i : Nat) : Except ClassError (List LayoutElement) :=
  ((PoolM.bodyElements c i).run c.initialPool).1

variable {bytes : Bytes} {file : Stored.ClassFile} {c : Class} {e : ClassError}

/--
If a class that was parsed cannot be written because code is too long or a conditional branch does
not reach, then some load of a constant or some switch of a method has become longer. This holds if
all code of the class file has at most the length that code can have.
-/
theorem exists_lengthens_of_overflow (hfile : Stored.ClassFile.parse bytes = .ok file)
    (hparse : parse bytes = .ok c)
    (hlength : ∀ m ∈ file.methods, ∀ x, file.code? m = .ok (some x) →
      x.code.length ≤ maxCodeLength)
    (h : c.toBytes = .error e) (he : e.isOverflow = true) :
    ∃ i m x decoded elements, file.methods[i]? = some m ∧ file.code? m = .ok (some x)
      ∧ decodeCode x.code = .ok decoded ∧ c.bodyElements i = .ok elements
      ∧ Lengthens x.code.length decoded elements := by
  rw [parse, hfile, ok_bind] at hparse
  obtain ⟨r, hlifted⟩ := lifted_of_ofClassFile hparse
  have hlimit : ∀ m ∈ c.methods, ∀ code ∈ m.code, code.maxStack.isSome := by
    intro m hm code hmem
    obtain ⟨i, hi⟩ := List.getElem?_of_mem hm
    obtain ⟨_, _, _, -, -, hp⟩ := hlifted.exists_codeLifted hi hmem
    rw [hp.maxStack]
    rfl
  obtain ⟨q, hrun⟩ : ∃ q, (PoolM.classFile c).run c.initialPool = (.error e, q) := by
    unfold toBytes at h
    rcases bind_eq_error.1 h with h | ⟨_, -, h⟩
    · exact ⟨_, Prod.ext h rfl⟩
    · cases h
  obtain ⟨i, m, code, elements, p', hm, hsome, helements, hshaped, hassemble⟩ :=
    PoolM.exists_elements_of_classFile c.bootstrapMethods_initialPool hlimit hrun he
  obtain ⟨m', x, p, hm', hx, hp⟩ := hlifted.exists_codeLifted hm hsome
  refine ⟨i, m', x, p.decoded, elements, hm', hx, hp.decoded, congrArg Prod.fst helements, ?_⟩
  by_contra hnot
  obtain ⟨assembled, hassembled⟩ :=
    hp.exists_assemble hshaped (hlength m' (List.mem_of_getElem? hm') x hx) hnot
  rw [hassemble] at hassembled
  cases hassembled

section FarTarget

/-- Jumps of which the conditional one reaches as far as it can, before a switch with this many
cases. In shortest form the first one takes two bytes less than in the code array below. -/
def farJumps (n : Nat) : List (Nat × Branch Nat Nat) :=
  [(0, .ret 0), (4, .ifZero .eq 32770), (7, .tableSwitch 0 32770 0 (List.replicate n 32770)),
    (32768, .voidReturn), (32769, .voidReturn), (32770, .voidReturn)]

def farSwitch (n : Nat) : StoredBranch :=
  .tableSwitch 0 32763 0 (List.replicate n 32763)

def farCode (n : Nat) : Bytes :=
  (Writer.u8 wideCode ++ (Writer.u8 0xA9 ++ Writer.u16 0))
    ++ (StoredBranch.encode (.ifZero .eq 32766) ++ ((farSwitch n).encode
    ++ (StoredBranch.encode .voidReturn
    ++ (StoredBranch.encode .voidReturn ++ (StoredBranch.encode .voidReturn ++ [])))))

variable {n : Nat}

theorem length_farSwitch (h : n = 8187) : (farSwitch n).encode.length = 32761 := by
  unfold farSwitch
  rw [StoredBranch.length_encode]
  change 1 + 0 + 4 * (3 + (List.replicate n _).length) = _
  rw [List.length_replicate, h]

theorem length_farCode (h : n = 8187) : (farCode n).length = 32771 := by
  unfold farCode
  simp only [List.length_append, length_farSwitch h]
  rfl

theorem decodeCode_farCode {n : Nat} (h : n = 8187) :
    decodeCode (farCode n) = .ok (decodedJumps (farJumps n)) := by
  have hret (p : CodePosition) : Decoded.ReadsAs p
      (Writer.u8 wideCode ++ (Writer.u8 0xA9 ++ Writer.u16 0)) (.branch (.ret 0)) :=
    .of_wide ((CodeReader.reads_u8 0xA9).bind ((CodeReader.reads_u16 0).bind_pure _))
  have hreturn (p : CodePosition) : Decoded.ReadsAs p (StoredBranch.encode .voidReturn)
      (.branch .voidReturn) := StoredBranch.reads_encode .voidReturn rfl trivial
  have hif : Decoded.ReadsAs ⟨4, 32771⟩ (StoredBranch.encode (.ifZero .eq 32766))
      (.branch (.ifZero .eq 32770)) :=
    StoredBranch.reads_encode (.ifZero .eq rfl) rfl trivial
  have hswitch : Decoded.ReadsAs ⟨7, 32771⟩ (farSwitch n).encode
      (.branch (.tableSwitch 0 32770 0 (List.replicate n 32770))) := by
    have htargets : List.Forall₂ (fun t (d : Int32) => CodePosition.target ⟨7, 32771⟩ d.toInt = .ok t)
        (List.replicate n 32770) (List.replicate n 32763) :=
      forall₂_replicate (R := fun (t : Nat) (d : Int32) =>
        CodePosition.target ⟨7, 32771⟩ d.toInt = .ok t) rfl n
    refine StoredBranch.reads_encode (.tableSwitch 0 0 rfl htargets) rfl ⟨?_, ?_⟩
    · rw [List.length_replicate, h]
      decide
    · rw [List.length_replicate, h]
      decide
  unfold decodeCode
  rw [length_farCode h]
  refine decodeFrom_append (hret _) (by decide) ?_
  refine decodeFrom_append hif (by decide) ?_
  refine decodeFrom_append hswitch (by rw [length_farSwitch h]; decide) ?_
  rw [length_farSwitch h]
  refine decodeFrom_append (hreturn _) (by decide) ?_
  refine decodeFrom_append (hreturn _) (by decide) ?_
  refine decodeFrom_append (hreturn _) (by decide) ?_
  rfl

theorem targets_farJumps (o : Nat) :
    ((farJumps n).flatMap (·.2.targets)).contains o = decide (o = 32770) := by
  have hmem : o ∈ (farJumps n).flatMap (·.2.targets) ↔ o = 32770 := by
    simp only [farJumps, List.mem_flatMap, List.mem_cons, List.not_mem_nil, or_false,
      exists_eq_or_imp, exists_eq_left, Branch.targets, List.mem_replicate, false_or]
    grind
  rw [Bool.eq_iff_iff, List.contains_iff_mem, hmem, decide_eq_true_iff]

theorem jumpsOf_farCode (h : n = 8187) : JumpsOf (farCode n) (farJumps n) := by
  refine ⟨decodeCode_farCode h, fun x hx t ht => ?_⟩
  have hcontains := targets_farJumps (n := n) t
  rw [List.contains_iff_mem.2 (List.mem_flatMap.2 ⟨x, hx, ht⟩)] at hcontains
  rw [of_decide_eq_true hcontains.symm]
  exact List.mem_cons_of_mem _ (List.mem_cons_of_mem _ (List.mem_cons_of_mem _
    (List.mem_cons_of_mem _ (List.mem_cons_of_mem _ List.mem_cons_self))))

/-- What the jumps are lowered to, with the targets of the switch. -/
def farElements (fallback : Label) (targets : List Label) : List LayoutElement :=
  [.branch (.ret 0), .branch (.ifZero .eq 0), .branch (.tableSwitch 0 fallback 0 targets),
    .branch .voidReturn, .branch .voidReturn, .label 0, .branch .voidReturn]

theorem eq_farElements (hn : n = 8187) {labels : Std.HashMap Nat Label}
    {elements : List LayoutElement} (hlabels : ∀ (o : Nat) (k : Label), labels[o]? = some k
      ↔ ((boundaryOffsets (decodedJumps (farJumps n)) (farCode n).length).filter
        ((farJumps n).flatMap (·.2.targets)).contains)[k]? = some o)
    (h : BodyLaid (LaidAs labels) labels (farCode n).length (decodedJumps (farJumps n)) elements) :
    ∃ fallback targets, targets.length = n ∧ elements = farElements fallback targets := by
  -- there is a label at the common target, and nowhere else
  have hfilter : (boundaryOffsets (decodedJumps (farJumps n)) (farCode n).length).filter
      ((farJumps n).flatMap (·.2.targets)).contains = [32770] := by
    rw [show ((farJumps n).flatMap (·.2.targets)).contains = _ from funext targets_farJumps,
      length_farCode hn]
    rfl
  rw [hfilter] at hlabels
  have hlabel : labels[32770]? = some 0 := (hlabels _ _).2 rfl
  have hat : placedLabel labels 32770 = [.label 0] := by
    unfold placedLabel
    rw [hlabel]
    rfl
  have hnone {o : Nat} (ho : o ≠ 32770) : placedLabel labels o = [] := by
    unfold placedLabel
    cases hk : labels[o]? with
    | none => rfl
    | some k => exact absurd (List.mem_singleton.1 (List.mem_of_getElem? ((hlabels o k).1 hk))) ho
  rw [length_farCode hn] at h
  cases h with | cons _ h₀ h =>
  cases h with | cons _ h₁ h =>
  cases h with | cons _ h₂ h =>
  cases h with | cons _ h₃ h =>
  cases h with | cons _ h₄ h =>
  cases h with | cons _ h₅ h =>
  cases h
  cases h₀ with | branch h₀ =>
  cases h₁ with | branch h₁ =>
  cases h₂ with | branch h₂ =>
  cases h₃ with | branch h₃ =>
  cases h₄ with | branch h₄ =>
  cases h₅ with | branch h₅ =>
  cases h₀
  cases h₁ with | ifZero _ hk =>
  cases h₂ with | tableSwitch _ _ _ htargets =>
  cases h₃
  cases h₄
  cases h₅
  rw [hlabel] at hk
  cases hk
  dsimp only
  rw [hat, hnone (by decide), hnone (by decide), hnone (by decide), hnone (by decide),
    hnone (by decide), hnone (by decide)]
  exact ⟨_, _, htargets.length_eq.symm.trans List.length_replicate, rfl⟩

theorem assemble_farElements {fallback : Label} {targets : List Label}
    (h : targets.length = 8187) :
    assemble (farElements fallback targets) = .error (.branchOverflow 2 32768) := by
  have hwidth : LayoutElement.width 5 (.branch (.tableSwitch 0 fallback 0 targets)) = 32763 := by
    change 1 + 2 + 4 * (3 + targets.length) = _
    rw [h]
  -- from offset 2 the label at 32770 is one byte too far
  have hplaced : placeFrom 0 (farElements fallback targets) = [(0, .branch (.ret 0)),
      (2, .branch (.ifZero .eq 0)), (5, .branch (.tableSwitch 0 fallback 0 targets)),
      (32768, .branch .voidReturn), (32769, .branch .voidReturn), (32770, .label 0),
      (32770, .branch .voidReturn)] := by
    change (0, _) :: (2, _) :: (5, _) :: placeFrom (5 + LayoutElement.width 5 _) _ = _
    rw [hwidth]
    rfl
  have hend : endOffset 0 (farElements fallback targets) = 32771 := by
    change endOffset (5 + LayoutElement.width 5 _) _ = _
    rw [hwidth]
    rfl
  have hlabel : (labelOffsets (placeFrom 0 (farElements fallback targets)))[(0 : Label)]?
      = some 32770 := by
    rw [hplaced]
    exact Std.HashMap.getElem?_insert_self
  have hwiden : widenAll (farElements fallback targets) = .ok (farElements fallback targets) := by
    refine widenAll_of_widenOnce (widenOnce_of_widen_self fun x hx => ?_)
    refine LayoutElement.widen_of_not_isShortJump ?_
    rw [hplaced] at hx
    simp only [List.mem_cons, List.not_mem_nil, or_false] at hx
    rcases hx with rfl | rfl | rfl | rfl | rfl | rfl | rfl <;> rfl
  have hjump : LayoutElement.encode (labelOffsets (placeFrom 0 (farElements fallback targets))) 2
      (.branch (.ifZero .eq 0)) = .error (.branchOverflow 2 32768) := by
    have hnear : LayoutElement.encode.near
        (labelOffsets (placeFrom 0 (farElements fallback targets))) 2 0
          = .error (.branchOverflow 2 32768) := by
      refine (bind_of_eq_ok (LabelOffsets.offset_eq_ok.2 hlabel) _).trans ?_
      exact if_neg (by decide)
    simp only [LayoutElement.encode, Branch.aligned, Branch.mapM, hnear]
    rfl
  rw [assemble_of_widenAll hwiden, hend, if_neg (by decide)]
  rw [hplaced] at hjump ⊢
  rw [List.mapM_cons, List.mapM_cons, hjump]
  rfl

/-- A class file whose code is far from too long, with a conditional jump to its end. -/
def farFile : Stored.ClassFile := (jumpFile (farCode 8187)).stored

theorem codeLength_farFile : ∀ m ∈ farFile.methods, ∀ x, farFile.code? m = .ok (some x) →
    x.code.length ≤ maxCodeLength := by
  intro m hm x hx
  have hlength := length_farCode (n := 8187) rfl
  have hcode : farFile.code? (storedMethod (farCode 8187)) = .ok (some (bareCode (farCode 8187))) :=
    code?_jumpFile (by omega)
  rw [List.mem_singleton.1 hm, hcode] at hx
  cases hx
  change (farCode 8187).length ≤ 0xFFFF
  omega

theorem exists_parsed_farFile :
    ∃ c, parse farFile.write = .ok c ∧ c.toBytes = .error (.branchOverflow 2 32768) := by
  have hlength := length_farCode (n := 8187) rfl
  refine exists_parsed_of_jumps (jumpsOf_farCode rfl) (by omega) fun labels elements hlabels h => ?_
  obtain ⟨fallback, targets, htargets, rfl⟩ := eq_farElements rfl hlabels h
  exact assemble_farElements htargets

theorem storedParse_farFile : Stored.ClassFile.parse farFile.write = .ok farFile := by
  have hlength := length_farCode (n := 8187) rfl
  exact storedParse_jumpFile (by omega)

/-- A class that was parsed, none of whose code is too long, is not written, since a conditional
jump that reached its target does not reach it any more. -/
theorem toBytes_farFile : Stored.ClassFile.parse farFile.write = .ok farFile
    ∧ (∀ m ∈ farFile.methods, ∀ x, farFile.code? m = .ok (some x) →
      x.code.length ≤ maxCodeLength)
    ∧ ∃ c, parse farFile.write = .ok c ∧ c.toBytes = .error (.branchOverflow 2 32768) :=
  ⟨storedParse_farFile, codeLength_farFile, exists_parsed_farFile⟩

/-- The instruction that gets longer is the switch, which has more padding where it moves to. -/
theorem exists_lengthens_farFile : ∃ c, parse farFile.write = .ok c
    ∧ ∃ i m x decoded elements, farFile.methods[i]? = some m ∧ farFile.code? m = .ok (some x)
      ∧ decodeCode x.code = .ok decoded ∧ c.bodyElements i = .ok elements
      ∧ Lengthens x.code.length decoded elements := by
  obtain ⟨c, hparse, herror⟩ := exists_parsed_farFile
  exact ⟨c, hparse, exists_lengthens_of_overflow storedParse_farFile hparse codeLength_farFile
    herror rfl⟩

end FarTarget

end Class

end ClassPatch
