import ClassPatch.Inject.ExpectPlatform
import ClassPatch.Proofs.Run

/-!
What forwarding the methods of a class changes, and what it leaves as it is. Static methods that
carry the annotation get a new body and a marker, those that are not static are reported, and
nothing else happens to the class. It fails only if there is something to forward, but no class to
forward it to.
-/

namespace ClassPatch

namespace Method

variable {m m' : Method} {found : Except InjectionError BinaryName} {target owner : BinaryName}
  {ms : List Method} {ds : List Diagnostic}

/-- The method carries the annotation in one of its spellings, in either of its lists. -/
def Annotated (m : Method) : Prop :=
  ∃ spelling : ExpectPlatform, ∃ a ∈ m.annotations.visible ++ m.annotations.invisible,
    a.type = spelling.descriptor

/-- The method carries the marker of methods that were transformed, in either of its lists. -/
def Marked (m : Method) : Prop :=
  ∃ a ∈ m.annotations.visible ++ m.annotations.invisible, a.type = transformedMarker.type

theorem ofDescriptor?_isSome {text : String} :
    (ExpectPlatform.ofDescriptor? text).isSome = true
      ↔ ∃ spelling : ExpectPlatform, text = spelling.descriptor := by
  unfold ExpectPlatform.ofDescriptor?
  rw [List.find?_isSome]
  constructor
  · rintro ⟨spelling, -, h⟩
    exact ⟨spelling, (beq_iff_eq.1 h).symm⟩
  · rintro ⟨spelling, rfl⟩
    refine ⟨spelling, ?_, beq_self_eq_true _⟩
    cases spelling <;> decide

theorem isExpectPlatform_iff : m.isExpectPlatform = true ↔ m.Annotated := by
  unfold isExpectPlatform Annotated Annotations.all
  rw [List.any_eq_true]
  constructor
  · rintro ⟨a, ha, htype⟩
    obtain ⟨spelling, htype⟩ := ofDescriptor?_isSome.1 htype
    exact ⟨spelling, a, ha, htype⟩
  · rintro ⟨spelling, a, ha, htype⟩
    exact ⟨a, ha, ofDescriptor?_isSome.2 ⟨spelling, htype⟩⟩

theorem contains_marker_iff : m.annotations.contains transformedMarker.type = true ↔ m.Marked := by
  unfold Annotations.contains Annotations.all Marked
  simp only [List.any_eq_true, beq_iff_eq]

instance : DecidablePred Annotated := fun _ => decidable_of_iff _ isExpectPlatform_iff

instance : DecidablePred Marked := fun _ => decidable_of_iff _ contains_marker_iff

/-- The annotation calls for a new body. -/
def IsForwarded (m : Method) : Prop := m.Annotated ∧ m.isStatic = true

/-- The annotation is on a method with a receiver, where it does not belong. -/
def IsMisplaced (m : Method) : Prop := m.Annotated ∧ m.isStatic = false

instance : DecidablePred IsForwarded := fun _ => inferInstanceAs (Decidable (_ ∧ _))

instance : DecidablePred IsMisplaced := fun _ => inferInstanceAs (Decidable (_ ∧ _))

/-- What is reported for the methods of a class. -/
def reports (owner : BinaryName) (ms : List Method) : List Diagnostic :=
  (ms.filter (·.IsMisplaced)).map fun m => .nonStatic owner m.name m.descriptor

/-- What a method is after it was forwarded to the target. -/
structure ForwardsTo (target : BinaryName) (m m' : Method) : Prop where
  /-- Flags, name, types, exceptions, other annotations and other attributes are those it had. -/
  rest : m' = { m with code := m'.code, annotations := m'.annotations }
  /--
  The instructions are those of the body, and a limit for local variables is kept. Nothing else is
  left of the code, unless it had these instructions before.
  -/
  code : ∃ c, m'.code = some c ∧ c.elements = forwardingBody target m
    ∧ (∀ d, m.code = some d → c.maxLocals = d.maxLocals)
    ∧ (m.code = some c ∨ c = { elements := c.elements, maxLocals := c.maxLocals })
  visible : m'.annotations.visible = m.annotations.visible
  /-- The marker is added at the end, unless one of the lists holds it. -/
  invisible : m'.annotations.invisible
    = m.annotations.invisible ++ if m.Marked then [] else [transformedMarker]

theorem forwardsTo_forward (target : BinaryName) (m : Method) :
    m.ForwardsTo target (m.forward target) where
  rest := rfl
  code := by
    refine ⟨m.forwardedCode target, rfl, ?_⟩
    unfold forwardedCode
    cases m.code with
    | none => exact ⟨rfl, nofun, .inr rfl⟩
    | some c =>
      dsimp only
      split
      next hbody => exact ⟨hbody, fun d hd => by rw [Option.some.inj hd], .inl rfl⟩
      next => exact ⟨rfl, fun d hd => by rw [Option.some.inj hd], .inr rfl⟩
  visible := by
    change m.markedAnnotations.visible = _
    unfold markedAnnotations
    split <;> rfl
  invisible := by
    change m.markedAnnotations.invisible = _
    unfold markedAnnotations
    simp only [contains_marker_iff]
    split
    next => exact (List.append_nil _).symm
    next => rfl

/-- What becomes of a method of a class. -/
inductive Patched (found : Except InjectionError BinaryName) (m : Method) : Method → Prop where
  /-- A method stays as it is, unless the annotation calls for a new body. -/
  | kept (h : ¬ m.IsForwarded) : Patched found m m
  | forwarded {target : BinaryName} {m' : Method} (h : m.IsForwarded) (htarget : found = .ok target)
    (hto : m.ForwardsTo target m') : Patched found m m'

section Run

theorem run_expectPlatform_of_isForwarded (h : m.IsForwarded) :
    (m.expectPlatform owner found).run ds = (found.map m.forward, ds) := by
  unfold expectPlatform
  rw [isExpectPlatform_iff.2 h.1, h.2]
  cases found <;> rfl

theorem run_expectPlatform_of_not_isForwarded (h : ¬ m.IsForwarded) :
    (m.expectPlatform owner found).run ds = (.ok m, ds ++ reports owner [m]) := by
  unfold expectPlatform reports
  by_cases hannotated : m.Annotated
  · have hstatic : m.isStatic = false := Bool.eq_false_iff.2 fun hs => h ⟨hannotated, hs⟩
    rw [isExpectPlatform_iff.2 hannotated, hstatic, List.filter_singleton,
      decide_eq_true ⟨hannotated, hstatic⟩]
    rfl
  · have hexpect : m.isExpectPlatform = false :=
      Bool.eq_false_iff.2 fun he => hannotated (isExpectPlatform_iff.1 he)
    rw [hexpect, List.filter_singleton, decide_eq_false fun hm => hannotated hm.1]
    exact congrArg _ (List.append_nil ds).symm

theorem reports_cons (owner : BinaryName) (m : Method) (ms : List Method) :
    reports owner (m :: ms) = reports owner [m] ++ reports owner ms := by
  unfold reports
  rw [← List.singleton_append, List.filter_append, List.map_append]

theorem exists_run_expectPlatform_ok (owner : BinaryName) (ds : List Diagnostic)
    (h : m.IsForwarded → ∃ target, found = .ok target) :
    ∃ m', (m.expectPlatform owner found).run ds = (.ok m', ds ++ reports owner [m])
      ∧ m.Patched found m' := by
  by_cases hforwarded : m.IsForwarded
  · obtain ⟨target, rfl⟩ := h hforwarded
    have hplaced : ¬ m.IsMisplaced := by
      rintro ⟨-, hstatic⟩
      rw [hforwarded.2] at hstatic
      cases hstatic
    have hreports : reports owner [m] = [] := by
      unfold reports
      rw [List.filter_singleton, decide_eq_false hplaced]
      rfl
    refine ⟨m.forward target, ?_, .forwarded hforwarded rfl (forwardsTo_forward target m)⟩
    rw [run_expectPlatform_of_isForwarded hforwarded, hreports, List.append_nil]
    rfl
  · exact ⟨m, run_expectPlatform_of_not_isForwarded hforwarded, .kept hforwarded⟩

theorem exists_run_mapM_expectPlatform_ok (owner : BinaryName) (ds : List Diagnostic)
    (h : ∀ m ∈ ms, m.IsForwarded → ∃ target, found = .ok target) :
    ∃ ms', (ms.mapM (·.expectPlatform owner found) : InjectM (List Method)).run ds
        = (.ok ms', ds ++ reports owner ms)
      ∧ List.Forall₂ (Patched found) ms ms' := by
  induction ms generalizing ds with
  | nil => exact ⟨[], congrArg _ (List.append_nil ds).symm, .nil⟩
  | cons m ms ih =>
    rw [List.forall_mem_cons] at h
    obtain ⟨m', hm', hpatched⟩ := exists_run_expectPlatform_ok owner ds h.1
    obtain ⟨ms', hms', hpatcheds⟩ := ih (ds ++ reports owner [m]) h.2
    refine ⟨m' :: ms', ?_, .cons hpatched hpatcheds⟩
    rw [List.mapM_cons, run_bind_ok hm', run_bind_ok hms', reports_cons owner m ms,
      List.append_assoc]
    rfl

theorem exists_run_mapM_expectPlatform_error {e : InjectionError} (hfound : found = .error e)
    (owner : BinaryName) (ds : List Diagnostic) (h : ∃ m ∈ ms, m.IsForwarded) :
    ∃ ds', (ms.mapM (·.expectPlatform owner found) : InjectM (List Method)).run ds
      = (.error e, ds') := by
  induction ms generalizing ds with
  | nil =>
    obtain ⟨m, hm, -⟩ := h
    cases hm
  | cons m ms ih =>
    rw [List.mapM_cons]
    by_cases hforwarded : m.IsForwarded
    · have hrun : (m.expectPlatform owner found).run ds = (.error e, ds) := by
        rw [run_expectPlatform_of_isForwarded hforwarded, hfound]
        rfl
      exact ⟨ds, run_bind_error hrun _⟩
    · have htail : ∃ m ∈ ms, m.IsForwarded := by
        obtain ⟨m', hm', hforwarded'⟩ := h
        rcases List.mem_cons.1 hm' with rfl | hm'
        · exact absurd hforwarded' hforwarded
        · exact ⟨m', hm', hforwarded'⟩
      obtain ⟨ds', hds'⟩ := ih _ htail
      rw [run_bind_ok (run_expectPlatform_of_not_isForwarded hforwarded)]
      exact ⟨ds', run_bind_error hds' _⟩

end Run

end Method

namespace Class

variable {c f : Class} {config : InjectionConfig} {package : Option String}
  {ds ds' : List Diagnostic}

/-- Some method is to be forwarded, but there is no class to forward it to. -/
def LacksTarget (c : Class) (found : Except InjectionError BinaryName) : Prop :=
  (∃ m ∈ c.methods, m.IsForwarded) ∧ ∃ e, found = .error e

theorem not_lacksTarget {found : Except InjectionError BinaryName}
    (h : found.toOption.isSome = true) : ¬ c.LacksTarget found := by
  rintro ⟨-, e, rfl⟩
  cases h

/-- What becomes of a class: nothing but its methods changes, each in its place. -/
structure Patched (found : Except InjectionError BinaryName) (c f : Class) : Prop where
  rest : f = { c with methods := f.methods }
  methods : List.Forall₂ (Method.Patched found) c.methods f.methods

theorem run_expectPlatform_of_lacksTarget (henabled : config.enabled = true) (ds : List Diagnostic)
    (h : c.LacksTarget (config.platformClass package c.name)) :
    ∃ e ds', (c.expectPlatform config package).run ds = (.error e, ds') := by
  obtain ⟨hforwarded, e, hfound⟩ := h
  obtain ⟨ds', hds'⟩ := Method.exists_run_mapM_expectPlatform_error hfound c.name ds hforwarded
  unfold expectPlatform
  rw [henabled]
  exact ⟨e, ds', run_bind_error hds' _⟩

theorem run_expectPlatform_of_not_lacksTarget (henabled : config.enabled = true)
    (ds : List Diagnostic) (h : ¬ c.LacksTarget (config.platformClass package c.name)) :
    ∃ f, (c.expectPlatform config package).run ds = (.ok f, ds ++ Method.reports c.name c.methods)
      ∧ c.Patched (config.platformClass package c.name) f := by
  have hfound : ∀ m ∈ c.methods, m.IsForwarded →
      ∃ target, config.platformClass package c.name = .ok target := by
    intro m hm hforwarded
    cases hfound : config.platformClass package c.name with
    | ok target => exact ⟨target, rfl⟩
    | error e => exact absurd ⟨⟨m, hm, hforwarded⟩, e, hfound⟩ h
  obtain ⟨ms, hms, hpatched⟩ := Method.exists_run_mapM_expectPlatform_ok c.name ds hfound
  refine ⟨{ c with methods := ms }, ?_, rfl, hpatched⟩
  unfold expectPlatform
  rw [henabled]
  exact run_bind_ok hms _

/--
Forwarding fails exactly if some static method carries the annotation and the class to forward to
cannot be named. Otherwise it gives the class with nothing but its methods changed, each of which
stays as it is unless it is static and carries the annotation. The methods that carry the annotation
but are not static are reported, in order.
-/
theorem patched_expectPlatform (henabled : config.enabled = true) (package : Option String)
    (c : Class) (ds : List Diagnostic) :
    ((∃ e ds', (c.expectPlatform config package).run ds = (.error e, ds'))
        ↔ c.LacksTarget (config.platformClass package c.name))
      ∧ (¬ c.LacksTarget (config.platformClass package c.name) → ∃ f,
        (c.expectPlatform config package).run ds = (.ok f, ds ++ Method.reports c.name c.methods)
          ∧ c.Patched (config.platformClass package c.name) f) := by
  refine ⟨⟨?_, run_expectPlatform_of_lacksTarget henabled ds⟩,
    run_expectPlatform_of_not_lacksTarget henabled ds⟩
  rintro ⟨e, ds', herror⟩
  by_contra hlacks
  obtain ⟨f, hok, -⟩ := run_expectPlatform_of_not_lacksTarget henabled ds hlacks
  cases herror.symm.trans hok

def fabricConfig : InjectionConfig := ⟨some "fabric", none, none, true⟩

/-- A method of a long and an array, with an annotation that the program sees. -/
def spelledMethod (flags : UInt16) (spelling : ExpectPlatform) : Method where
  accessFlags := .truncate _ flags
  name := ⟨"spelled", by decide +kernel⟩
  descriptor := ⟨[.base .long, .ref (.primitiveArray ⟨1, .int⟩)], some (.base .float)⟩
  annotations := { visible := [.marker spelling.descriptor] }
  code := some { maxLocals := some 9, elements := [.branch .voidReturn] }

/-- A nested class with static methods around one that is not, two of which are annotated. -/
def spelledClass : Class where
  version := .java8
  accessFlags := .truncate _ 0x20
  name := ⟨"com/foo/Bar$Inner", by decide +kernel⟩
  superName := some .object
  methods := [spelledMethod 0x9 .legacy, spelledMethod 0x1 .current,
    { spelledMethod 0x9 .legacyAnnotations with annotations := {} }]

theorem patched_expectPlatform_spelledClass :
    fabricConfig.enabled = true
      ∧ ¬ spelledClass.LacksTarget (fabricConfig.platformClass none spelledClass.name)
      ∧ ∃ f, (spelledClass.expectPlatform fabricConfig none).run []
          = (.ok f, [.nonStatic spelledClass.name (spelledMethod 0x1 .current).name
            (spelledMethod 0x1 .current).descriptor])
        ∧ spelledClass.Patched (fabricConfig.platformClass none spelledClass.name) f := by
  have hlacks : ¬ spelledClass.LacksTarget (fabricConfig.platformClass none spelledClass.name) :=
    not_lacksTarget (by decide +kernel)
  have hreports : Method.reports spelledClass.name spelledClass.methods
      = [.nonStatic spelledClass.name (spelledMethod 0x1 .current).name
        (spelledMethod 0x1 .current).descriptor] := by
    decide +kernel
  obtain ⟨f, hrun, hpatched⟩ := (patched_expectPlatform rfl none spelledClass []).2 hlacks
  rw [hreports] at hrun
  exact ⟨rfl, hlacks, f, hrun, hpatched⟩

end Class

end ClassPatch
