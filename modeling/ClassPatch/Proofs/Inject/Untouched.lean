import ClassPatch.Inject.Injector
import ClassPatch.Proofs.Run

/-!
Classes that nothing is to be done to. Their bytes stay as they are, unless they hold a constant
that is not a number: such a class is not the same as itself, so it is written anew.
-/

namespace ClassPatch

namespace Constant

/-- Whether the constant is floating point, but not a number. -/
def isNaN : Constant → Bool
  | .float x => x.isNaN
  | .double x => x.isNaN
  | _ => false

theorem sameValue_self (c : Constant) : c.sameValue c = !c.isNaN := by
  cases c <;> simp [sameValue, isNaN, Float32Bits.sameNumber, Float64Bits.sameNumber]

end Constant

namespace Class

theorem zip_self_all {α : Type} (p : α × α → Bool) (as : List α) :
    (as.zip as).all p = as.all fun a => p (a, a) := by
  induction as with
  | nil => rfl
  | cons a as ih => rw [List.zip_cons_cons, List.all_cons, List.all_cons, ih]

theorem sameConstants_self (table : ConstantTable) :
    sameConstants (some table) (some table) = table.elements.all fun c => !c.isNaN := by
  simp only [sameConstants, SlotTable.elements, zip_self_all, List.all_map]
  simp [Constant.sameValue_self, Function.comp_def]

theorem sameAs_self (c : Class) (table : ConstantTable) (h : c.constantPool = some table) :
    c.sameAs c = table.elements.all fun k => !k.isNaN := by
  unfold sameAs
  rw [h, sameConstants_self]
  simp

theorem constantPool_of_parse {bytes : Bytes} {c : Class} (h : parse bytes = .ok c) :
    ∃ table, c.constantPool = some table := by
  unfold parse at h
  cases hfile : Stored.ClassFile.parse bytes with
  | error e =>
    rw [hfile] at h
    cases h
  | ok file =>
    rw [hfile] at h
    change ofClassFile file = .ok c at h
    unfold ofClassFile at h
    simp only [bind, Except.bind, pure, Except.pure] at h
    repeat' split at h
    all_goals cases h
    exact ⟨_, rfl⟩

end Class

namespace Method

variable {m : Method} {target : BinaryName} {found : Except InjectionError BinaryName}

/-- The method does nothing but call the target, and is marked for it. -/
structure Forwarded (target : BinaryName) (m : Method) : Prop where
  code : ∃ c ∈ m.code, c.elements = forwardingBody target m
  marked : m.annotations.contains transformedMarker.type = true

/-- Nothing is left to be done to the method: it is forwarded if it is annotated and static. -/
def Finished (found : Except InjectionError BinaryName) (m : Method) : Prop :=
  m.isExpectPlatform = true → m.isStatic = true →
    ∃ target, found = .ok target ∧ m.Forwarded target

theorem finished_of_ordinary (h : m.isStatic = true → m.isExpectPlatform = false) :
    m.Finished found := by
  intro hannotated hstatic
  rw [h hstatic] at hannotated
  cases hannotated

theorem Forwarded.forward_eq (h : m.Forwarded target) : m.forward target = m := by
  obtain ⟨c, hc, hbody⟩ := h.code
  have hcode : some (m.forwardedCode target) = m.code := by
    unfold forwardedCode
    rw [Option.mem_def.1 hc]
    dsimp only
    rw [if_pos hbody]
  have hannotations : m.markedAnnotations = m.annotations := if_pos h.marked
  unfold forward
  rw [hcode, hannotations]

theorem Finished.run_expectPlatform (h : m.Finished found) (owner : BinaryName)
    (ds : List Diagnostic) : ∃ ds', (m.expectPlatform owner found).run ds = (.ok m, ds') := by
  unfold expectPlatform
  cases he : m.isExpectPlatform with
  | false => exact ⟨ds, rfl⟩
  | true =>
    cases hs : m.isStatic with
    | false => exact ⟨ds ++ [.nonStatic owner m.name m.descriptor], rfl⟩
    | true =>
      obtain ⟨target, rfl, hforwarded⟩ := h he hs
      refine ⟨ds, ?_⟩
      change (Except.ok (m.forward target), ds) = _
      rw [hforwarded.forward_eq]

theorem run_mapM_expectPlatform_of_finished {ms : List Method} (h : ∀ m ∈ ms, m.Finished found)
    (owner : BinaryName) (ds : List Diagnostic) :
    ∃ ds', (ms.mapM (·.expectPlatform owner found) : InjectM (List Method)).run ds
      = (.ok ms, ds') := by
  induction ms generalizing ds with
  | nil => exact ⟨ds, rfl⟩
  | cons m ms ih =>
    rw [List.forall_mem_cons] at h
    obtain ⟨ds₁, h₁⟩ := h.1.run_expectPlatform owner ds
    obtain ⟨ds₂, h₂⟩ := ih h.2 ds₁
    refine ⟨ds₂, ?_⟩
    rw [List.mapM_cons]
    rw [run_bind_ok h₁]
    rw [run_bind_ok h₂]
    rfl

end Method

namespace Injector

variable {i : Injector} {c : Class}

/-- A class stays as it is if its methods are finished and it does not mention the placeholder. -/
theorem transform_of_finished
    (hmethods : ∀ m ∈ c.methods,
      m.Finished (i.config.platformClass i.overrides.platformPackage c.name))
    (hmentions : c.mentions placeholderClass = false) (ds : List Diagnostic) :
    ∃ ds', (i.transform c).run ds = (.ok c, ds') := by
  have hremap : i.remapPlaceholder c = .ok c := by
    unfold remapPlaceholder Class.remapPlaceholder
    rw [hmentions, Bool.and_false]
    rfl
  cases henabled : i.config.enabled with
  | false =>
    refine ⟨ds, ?_⟩
    have : (i.expectPlatform c).run ds = (.ok c, ds) := by
      unfold expectPlatform Class.expectPlatform
      rw [henabled]
      rfl
    unfold transform
    rw [run_bind_ok this, hremap]
    rfl
  | true =>
    obtain ⟨ds', hds⟩ := Method.run_mapM_expectPlatform_of_finished hmethods c.name ds
    refine ⟨ds', ?_⟩
    have : (i.expectPlatform c).run ds = (.ok c, ds') := by
      unfold expectPlatform Class.expectPlatform
      rw [henabled]
      exact (run_bind_ok hds _).trans rfl
    unfold transform
    rw [run_bind_ok this, hremap]
    rfl

theorem run_transformBytes_of_ordinary {bytes : Bytes} (henabled : i.config.enabled = true)
    (hparse : Class.parse bytes = .ok c)
    (hstatic : ∀ m ∈ c.methods, m.isStatic = true → m.isExpectPlatform = false)
    (hmentions : c.mentions placeholderClass = false) (ds : List Diagnostic) :
    ((i.transformBytes bytes).run ds).1
      = if c.sameAs c then .ok none else (c.toBytes.mapError .classFile).map some := by
  obtain ⟨ds', hds⟩ := transform_of_finished (i := i)
    (fun m hm => Method.finished_of_ordinary (hstatic m hm)) hmentions ds
  have hlift : (liftM (Except.mapError InjectionError.classFile (.ok c)) : InjectM Class).run ds
      = (.ok c, ds) := rfl
  unfold transformBytes
  rw [henabled, hparse]
  refine (congrArg Prod.fst ((run_bind_ok hlift _).trans (run_bind_ok hds _))).trans ?_
  cases c.sameAs c with
  | true => rfl
  | false => cases c.toBytes <;> rfl

theorem transformBytes_ne_none_of_not_same {bytes : Bytes} (henabled : i.config.enabled = true)
    (hparse : Class.parse bytes = .ok c)
    (hstatic : ∀ m ∈ c.methods, m.isStatic = true → m.isExpectPlatform = false)
    (hmentions : c.mentions placeholderClass = false) (hsame : c.sameAs c = false)
    (ds : List Diagnostic) : ((i.transformBytes bytes).run ds).1 ≠ .ok none := by
  rw [run_transformBytes_of_ordinary henabled hparse hstatic hmentions ds, hsame]
  cases c.toBytes with
  | ok _ => exact nofun
  | error _ => exact nofun

/--
Nothing is done to a class without annotated static methods that does not mention the placeholder,
exactly if all its floating-point constants are numbers.
-/
theorem transformBytes_eq_none_iff {bytes : Bytes} (henabled : i.config.enabled = true)
    (hparse : Class.parse bytes = .ok c)
    (hstatic : ∀ m ∈ c.methods, m.isStatic = true → m.isExpectPlatform = false)
    (hmentions : c.mentions placeholderClass = false) (ds : List Diagnostic) :
    ((i.transformBytes bytes).run ds).1 = .ok none
      ↔ ∀ table, c.constantPool = some table → ∀ k ∈ table.elements, k.isNaN = false := by
  obtain ⟨table, htable⟩ := Class.constantPool_of_parse hparse
  have hsame := c.sameAs_self table htable
  simp only [htable, Option.some.injEq, forall_eq']
  constructor
  · intro hnone
    cases hall : table.elements.all fun k => !k.isNaN with
    | true => simpa using hall
    | false =>
      rw [hall] at hsame
      exact absurd hnone
        (transformBytes_ne_none_of_not_same henabled hparse hstatic hmentions hsame ds)
  · intro hnumbers
    have hall : (table.elements.all fun k => !k.isNaN) = true := by simpa using hnumbers
    rw [run_transformBytes_of_ordinary henabled hparse hstatic hmentions ds, hsame, hall]
    rfl

/--
A class file without members for a class named `A`, whose pool ends with a single precision number
of the given bits.
-/
def floatClassFile (b₃ b₂ b₁ b₀ : UInt8) : Bytes :=
  [0xCA, 0xFE, 0xBA, 0xBE, 0, 0, 0, 52, 0, 6, 1, 0, 1, 65, 7, 0, 1, 1, 0, 1, 66, 7, 0, 3,
    4, b₃, b₂, b₁, b₀, 0, 0x20, 0, 2, 0, 4, 0, 0, 0, 0, 0, 0, 0, 0]

/-- An enabled injector, which is not configured any further. -/
def enabledInjector : Injector := ⟨⟨none, none, none, true⟩, {}⟩

/-- What the parsed class has to be like for nothing to be done to it, as a check. -/
def isOrdinary (c : Class) : Bool :=
  c.methods.isEmpty && !c.mentions placeholderClass

theorem ordinary_of_check {c : Class} (h : isOrdinary c = true) :
    (∀ m ∈ c.methods, m.isStatic = true → m.isExpectPlatform = false)
      ∧ c.mentions placeholderClass = false := by
  unfold isOrdinary at h
  rw [Bool.and_eq_true, List.isEmpty_iff, Bool.not_eq_true'] at h
  obtain ⟨hmethods, hmentions⟩ := h
  refine ⟨?_, hmentions⟩
  rw [hmethods]
  intro m hm
  cases hm

theorem parse_of_check {bytes : Bytes} {p : Class → Bool}
    (h : (Class.parse bytes).toOption.any p = true) :
    ∃ c, Class.parse bytes = .ok c ∧ p c = true := by
  cases hc : Class.parse bytes with
  | error e =>
    rw [hc] at h
    cases h
  | ok c =>
    rw [hc] at h
    exact ⟨c, rfl, h⟩

theorem transformBytes_number :
    ∃ c, Class.parse (floatClassFile 0x3F 0x80 0 0) = .ok c
      ∧ (∀ m ∈ c.methods, m.isStatic = true → m.isExpectPlatform = false)
      ∧ c.mentions placeholderClass = false
      ∧ (∀ table, c.constantPool = some table → ∀ k ∈ table.elements, k.isNaN = false)
      ∧ ((enabledInjector.transformBytes (floatClassFile 0x3F 0x80 0 0)).run []).1 = .ok none := by
  have hcheck : (Class.parse (floatClassFile 0x3F 0x80 0 0)).toOption.any (fun c =>
      isOrdinary c && c.constantPool.all fun t => t.elements.all fun k => !k.isNaN) = true := by
    decide +kernel
  obtain ⟨c, hparse, hc⟩ := parse_of_check hcheck
  rw [Bool.and_eq_true] at hc
  obtain ⟨hstatic, hmentions⟩ := ordinary_of_check hc.1
  have hnumbers : ∀ table, c.constantPool = some table → ∀ k ∈ table.elements, k.isNaN = false := by
    intro table htable
    have hall := hc.2
    rw [htable] at hall
    simpa using hall
  exact ⟨c, hparse, hstatic, hmentions, hnumbers,
    (transformBytes_eq_none_iff rfl hparse hstatic hmentions []).2 hnumbers⟩

/-- A class with a constant that is not a number is written anew, though nothing is done to it. -/
theorem transformBytes_nan :
    ∃ c, Class.parse (floatClassFile 0x7F 0xC0 0 0) = .ok c
      ∧ (∀ m ∈ c.methods, m.isStatic = true → m.isExpectPlatform = false)
      ∧ c.mentions placeholderClass = false
      ∧ ((enabledInjector.transformBytes (floatClassFile 0x7F 0xC0 0 0)).run []).1 ≠ .ok none := by
  have hcheck : (Class.parse (floatClassFile 0x7F 0xC0 0 0)).toOption.any (fun c =>
      isOrdinary c && !c.sameAs c) = true := by
    decide +kernel
  obtain ⟨c, hparse, hc⟩ := parse_of_check hcheck
  rw [Bool.and_eq_true, Bool.not_eq_true'] at hc
  obtain ⟨hstatic, hmentions⟩ := ordinary_of_check hc.1
  exact ⟨c, hparse, hstatic, hmentions,
    transformBytes_ne_none_of_not_same rfl hparse hstatic hmentions hc.2 []⟩

end Injector

end ClassPatch
