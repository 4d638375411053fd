import ClassPatch.Inject.Injector
import ClassPatch.Proofs.Class.Small
import ClassPatch.Proofs.Lift.Verbatim
import ClassPatch.Proofs.Rename.Class

/-!
Indices within attributes that are carried along. A transformed class that still carries one holds
each constant at the index where the class held it, and each bootstrap method, renamed, as well.
-/

namespace ClassPatch

namespace Class

/-- The constant at a slot of the pool that the class was read with. -/
def constant? (c : Class) (slot : Nat) : Option Constant := c.constantPool.bind (·.get? slot)

variable {c d : Class} {bytes : Bytes} {admits : BootstrapMethod → Prop}

theorem constant?_of_reparsed (hpool : c.PoolFits) {wellFormed : Prop}
    {file : Stored.ClassFile} {p : Pool} {zero : p.constants.get? 0 = none}
    (h : ClassLowering wellFormed admits c file p zero) (hd : ClassLifted file p.resolver d)
    {slot : Nat} {k : Constant} (hk : c.constant? slot = some k) : d.constant? slot = some k := by
  obtain ⟨t, ht, hk⟩ := Option.bind_eq_some_iff.1 hk
  obtain ⟨cs, hcs⟩ := h.restored.constants
  have hinitial : c.initialPool.constants = t := by
    unfold initialPool
    rw [ht]
    rfl
  unfold constant?
  rw [hd.constantPool, h.constants, hcs, hinitial]
  exact (hpool t ht).1.get?_append hk cs

theorem lowering_of_toBytes (hpool : c.PoolFits)
    (hbootstraps : ∀ b ∈ c.bootstrapMethods, b.WellFormed admits)
    (hlength : c.bootstrapMethods.length ≤ 0xFFFF)
    (hnames : ∀ v ∈ c.attributes, v.name ∉ Resolver.classAttributes) (hlimits : c.WithinLimits)
    (hbytes : c.toBytes = .ok bytes) (hparse : parse bytes = .ok d) :
    ∃ file p zero, ClassLowering False admits c file p zero ∧ ClassLifted file p.resolver d
      ∧ FileFits file p := by
  obtain ⟨file, p, hrun, rfl⟩ := toBytes_eq_ok hbytes
  have hfits := hlimits.lowered file p hrun
  obtain ⟨zero, hlowering⟩ := @classLowering_of_run False _ _ _ _ hpool hbootstraps hlength
    (fun h => h.elim) (fun h => h.elim) hrun hfits.bootstraps
  exact ⟨file, p, zero, hlowering, hlowering.lifted_of_parse hpool hfits hnames hparse, hfits⟩

end Class

namespace Injector

variable {i : Injector} {c d f : Class} {ds ds' : List Diagnostic}

theorem expectPlatform_keeps (h : (i.expectPlatform c).run ds = (.ok f, ds')) :
    f.attributes = c.attributes ∧ f.constantPool = c.constantPool
      ∧ f.bootstrapMethods = c.bootstrapMethods := by
  unfold expectPlatform Class.expectPlatform at h
  split at h
  · obtain ⟨rfl, -⟩ := run_pure_eq_ok.1 h
    exact ⟨rfl, rfl, rfl⟩
  · obtain ⟨ms, ds₁, -, h⟩ := run_bind_eq_ok.1 h
    obtain ⟨rfl, -⟩ := run_pure_eq_ok.1 h
    exact ⟨rfl, rfl, rfl⟩

/-- What becomes of a bootstrap method of a class whose methods are forwarded. -/
def remappedBootstrap (i : Injector) (f : Class) (b : BootstrapMethod) :
    Except InjectionError BootstrapMethod := do
  if f.mentions placeholderClass then
    return b.rename
      (.single placeholderClass (← i.config.platformMethodsClass i.overrides.uniqueIdentifier))
  else
    return b

/-- A class, and the class with the placeholder renamed if the class mentions it. -/
inductive Remapped (i : Injector) (f : Class) : Class → Prop where
  | same (h : f.mentions placeholderClass = false) : Remapped i f f
  | renamed {target : BinaryName} (h : f.mentions placeholderClass = true)
    (htarget : i.config.platformMethodsClass i.overrides.uniqueIdentifier = .ok target) :
    Remapped i f (f.rename (.single placeholderClass target))

theorem remapped_of_remapPlaceholder (henabled : i.config.enabled = true)
    (h : i.remapPlaceholder f = .ok d) : i.Remapped f d := by
  unfold remapPlaceholder Class.remapPlaceholder at h
  rw [henabled, Bool.true_and] at h
  split at h
  next hmentions =>
    obtain ⟨target, htarget, h⟩ := bind_eq_ok.1 h
    obtain rfl := pure_eq_ok.1 h
    exact .renamed hmentions htarget
  next hmentions =>
    obtain rfl := pure_eq_ok.1 h
    exact .same (Bool.eq_false_iff.2 hmentions)

theorem remapped_of_transform (henabled : i.config.enabled = true)
    (h : (i.transform c).run ds = (.ok d, ds')) :
    ∃ f, (i.expectPlatform c).run ds = (.ok f, ds') ∧ i.Remapped f d := by
  unfold transform at h
  obtain ⟨f, ds₁, hforward, h⟩ := run_bind_eq_ok.1 h
  obtain ⟨hremap, rfl⟩ := run_lift_eq_ok.1 h
  exact ⟨f, hforward, remapped_of_remapPlaceholder henabled hremap⟩

theorem run_transform_of_remap (hforward : (i.expectPlatform c).run ds = (.ok f, ds'))
    (hremap : i.remapPlaceholder f = .ok d) : (i.transform c).run ds = (.ok d, ds') := by
  unfold transform
  refine (run_bind_ok hforward _).trans ?_
  rw [hremap]
  rfl

theorem run_transformBytes_of_transform {bytes written : Bytes} (henabled : i.config.enabled = true)
    (hparse : Class.parse bytes = .ok c) (htransform : (i.transform c).run ds = (.ok d, ds'))
    (hne : { d with constantPool := none } ≠ { c with constantPool := none })
    (hbytes : d.toBytes = .ok written) :
    (i.transformBytes bytes).run ds = (.ok (some written), ds') := by
  have hsame : d.sameAs c = false := Bool.and_eq_false_iff.2 (.inl (decide_eq_false hne))
  have hlift : (liftM (Except.mapError InjectionError.classFile (Class.parse bytes))
      : InjectM Class).run ds = (.ok c, ds) := by
    rw [hparse]
    rfl
  unfold transformBytes
  rw [henabled]
  refine (run_bind_ok hlift _).trans ((run_bind_ok htransform _).trans ?_)
  rw [hsame, hbytes]
  rfl

theorem transform_of_transformBytes {bytes result : Bytes} (hparse : Class.parse bytes = .ok c)
    (h : (i.transformBytes bytes).run ds = (.ok (some result), ds')) :
    ∃ d, (i.transform c).run ds = (.ok d, ds') ∧ d.toBytes = .ok result := by
  unfold transformBytes at h
  rw [hparse] at h
  split at h
  · obtain ⟨hnone, -⟩ := run_pure_eq_ok.1 h
    cases hnone
  · obtain ⟨c', ds₁, hlift, h⟩ := run_bind_eq_ok.1 h
    cases hlift
    obtain ⟨d, ds₂, htransform, h⟩ := run_bind_eq_ok.1 h
    split at h
    · obtain ⟨hnone, -⟩ := run_pure_eq_ok.1 h
      cases hnone
    · obtain ⟨written, ds₃, hwrite, h⟩ := run_bind_eq_ok.1 h
      obtain ⟨hsome, rfl⟩ := run_pure_eq_ok.1 h
      cases hsome
      obtain ⟨hbytes, rfl⟩ := run_lift_eq_ok.1 hwrite
      refine ⟨d, htransform, ?_⟩
      cases hd : d.toBytes with
      | ok written' =>
        rw [hd] at hbytes
        cases hbytes
        rfl
      | error e =>
        rw [hd] at hbytes
        cases hbytes

/--
What the placeholder is renamed in keeps its pool and its bootstrap methods, the latter renamed, or
it has no attribute that is carried along.
-/
theorem Remapped.keeps (h : i.Remapped f d) :
    d.attributes = f.attributes ∧ d.constantPool = f.constantPool
        ∧ d.bootstrapMethods.length = f.bootstrapMethods.length
        ∧ (∀ (j : Nat) (b : BootstrapMethod), f.bootstrapMethods[j]? = some b →
          ∃ b', i.remappedBootstrap f b = .ok b' ∧ d.bootstrapMethods[j]? = some b')
        ∧ (∀ r : Resolver, (∀ b ∈ f.bootstrapMethods, b.WellFormed r.Admits) →
          ∀ b ∈ d.bootstrapMethods, b.WellFormed r.Admits)
      ∨ d.attributes = f.attributes ∧ d.constantPool = none ∧ d.bootstrapMethods = []
        ∧ d.hasVerbatimAttributes = false := by
  cases h with
  | same hmentions =>
    refine .inl ⟨rfl, rfl, rfl, ?_, fun _ h => h⟩
    intro j b hb
    refine ⟨b, ?_, hb⟩
    unfold remappedBootstrap
    rw [hmentions]
    rfl
  | @renamed target hmentions htarget =>
    cases hverbatim : f.hasVerbatimAttributes with
    | true =>
      obtain ⟨hpool, hbootstraps⟩ :=
        Class.rename_of_hasVerbatimAttributes (.single placeholderClass target) hverbatim
      refine .inl ⟨rfl, hpool, ?_, ?_, ?_⟩
      · rw [hbootstraps, List.length_map]
      · intro j b hb
        refine ⟨b.rename (.single placeholderClass target), ?_, ?_⟩
        · unfold remappedBootstrap
          rw [hmentions, htarget]
          rfl
        · rw [hbootstraps, List.getElem?_map, hb]
          rfl
      · intro resolver hf
        rw [hbootstraps, List.forall_mem_map]
        exact fun b hb => (hf b hb).rename
    | false =>
      obtain ⟨hpool, hbootstraps⟩ :=
        Class.rename_of_not_hasVerbatimAttributes (.single placeholderClass target) hverbatim
      exact .inr ⟨rfl, hpool, hbootstraps,
        (Class.hasVerbatimAttributes_rename _ f).trans hverbatim⟩

/--
If the new bytes of a class file are parsed as a class that still carries an attribute along, this
class holds every constant where the parsed one held it, and every bootstrap method too, with the
placeholder renamed if the class mentions it.
-/
theorem indices_of_transformBytes {bytes result : Bytes} {c₁ : Class}
    (henabled : i.config.enabled = true) (hparse : Class.parse bytes = .ok c)
    (hpool : ∀ t ∈ c.constantPool, t.next ≤ 0xFFFF)
    (hrun : (i.transformBytes bytes).run ds = (.ok (some result), ds'))
    (hlimits : ∀ d ds', (i.transform c).run ds = (.ok d, ds') → d.WithinLimits)
    (hresult : Class.parse result = .ok c₁) (hverbatim : c₁.hasVerbatimAttributes = true) :
    (∀ slot k, c.constant? slot = some k → c₁.constant? slot = some k)
      ∧ ∃ f, (i.expectPlatform c).run ds = (.ok f, ds')
        ∧ ∀ (j : Nat) (b : BootstrapMethod), c.bootstrapMethods[j]? = some b →
          ∃ b', i.remappedBootstrap f b = .ok b' ∧ c₁.bootstrapMethods[j]? = some b' := by
  obtain ⟨file, r, -, hdense, hlifted⟩ := Class.lifted_of_parse hparse
  obtain ⟨d, htransform, hbytes⟩ := transform_of_transformBytes hparse hrun
  have hwithin := hlimits d ds' htransform
  obtain ⟨f, hforward, hremapped⟩ := remapped_of_transform henabled htransform
  obtain ⟨hfattributes, hfpool, hfbootstraps⟩ := expectPlatform_keeps hforward
  have hnames := Class.attributes_names_of_lifted hlifted
  have hlength := hlifted.length_bootstrapMethods_le
  have hwellFormed := hlifted.bootstrapMethods_wellFormed
  have hpoolFits : c.PoolFits := by
    intro t ht
    refine ⟨?_, hpool t ht⟩
    rw [hlifted.constantPool] at ht
    rw [← Option.mem_some.1 ht]
    exact hdense
  rw [← hfattributes] at hnames
  -- where the pool is dropped, nothing is carried along in the class that is parsed again
  rcases hremapped.keeps with ⟨hattributes, hconstants, hsame, hentries, hrenamed⟩
    | ⟨hattributes, hnone, hnil, hno⟩
  · have hdpool : d.PoolFits := by
      unfold Class.PoolFits
      rw [hconstants, hfpool]
      exact hpoolFits
    rw [← hattributes] at hnames
    rw [← hfbootstraps] at hwellFormed hlength
    rw [← hsame] at hlength
    obtain ⟨file', p, zero, hlowering, hlifted', -⟩ := Class.lowering_of_toBytes hdpool
      (hrenamed _ hwellFormed) hlength hnames hwithin hbytes hresult
    refine ⟨?_, f, hforward, ?_⟩
    · intro slot k hk
      refine Class.constant?_of_reparsed hdpool hlowering hlifted' ?_
      unfold Class.constant?
      rw [hconstants, hfpool]
      exact hk
    · intro j b hb
      rw [← hfbootstraps] at hb
      obtain ⟨b', hb', hget⟩ := hentries j b hb
      exact ⟨b', hb', hlowering.bootstrapMethods_of_lifted hlifted' hlength hget⟩
  · have hdpool : d.PoolFits := by
      intro t ht
      rw [hnone] at ht
      cases ht
    rw [← hattributes] at hnames
    have hdwell : ∀ b ∈ d.bootstrapMethods, b.WellFormed r.Admits := by
      intro b hb
      rw [hnil] at hb
      cases hb
    have hdlength : d.bootstrapMethods.length ≤ 0xFFFF := by
      rw [hnil]
      exact Nat.zero_le _
    obtain ⟨file', p, zero, hlowering, hlifted', hfits⟩ :=
      Class.lowering_of_toBytes hdpool hdwell hdlength hnames hwithin hbytes hresult
    have hno' := Class.noVerbatim_of_lowered hlowering hlifted' hwithin.parts hfits hno
    rw [hverbatim] at hno'
    cases hno'

section Carrying

open PoolM (Finds)

/-- The placeholder as the name of a class. -/
def placeholder : BinaryName := ⟨placeholderClass, by decide +kernel⟩

/-- The class that stands for the placeholder where the identifier is `T`. -/
def replacement : BinaryName := ⟨"T/PlatformMethods", by decide +kernel⟩

/-- Constants of a class `A` for several parents, with a bootstrap method of two of them, and with a
method `f`, as it is and as it is forwarded. -/
def carryingConstants : ConstantTable := .ofList 1
  [.utf8 "A", .classRef 1, .utf8 "java/lang/Object", .classRef 3, .utf8 placeholderClass,
    .classRef 5, .utf8 "T/PlatformMethods", .classRef 7, .utf8 "f", .utf8 "()V",
    .nameAndType 9 10, .methodRef 6 11 false, .methodHandle .invokeStatic 12,
    .methodRef 8 11 false, .methodHandle .invokeStatic 14, .invokeDynamic 0 11,
    .utf8 "fabric/AImpl", .classRef 17, .methodRef 18 11 false, .utf8 "Code",
    .utf8 "RuntimeInvisibleAnnotations", .utf8 ExpectPlatform.current.descriptor,
    .utf8 transformedMarker.type, .utf8 "BootstrapMethods", .utf8 "X", .integer 7]

theorem fits_carryingConstants : carryingConstants.Fits where
  dense := ConstantTable.dense_append _
  next_le := by decide
  constants := by decide +kernel

/-- A bootstrap method of a class. -/
def carryingBootstrap (linker : BinaryName) : BootstrapMethod where
  handle := ⟨.invokeStatic, .method ⟨.object linker, ⟨"f", isName_f⟩, ⟨[], none⟩, false⟩⟩
  arguments := []

def carryingClass (parent linker : BinaryName) (attributes : List VerbatimAttribute)
    (methods : List Method) : Class :=
  smallClass .java8 carryingConstants parent methods attributes [carryingBootstrap linker]

/-- The class file, with the indices of the parent and of the handle of the bootstrap method. -/
def carryingFile (parent handle : ConstantIndex) (carried : List Stored.Attribute)
    (methods : List (Stored.Member .method)) : SmallFile where
  constants := carryingConstants
  superClass := parent
  methods
  carried
  table := 24
  entries := [⟨handle, []⟩]

variable {parent linker : BinaryName} {superClass handle : ConstantIndex}
  {attributes : List VerbatimAttribute} {carried : List Stored.Attribute} {methods : List Method}
  {stored : List (Stored.Member .method)}

theorem finds_carryingName : Finds carryingConstants (PoolM.className smallName) 2 :=
  .className (i := 1) (by decide) (by decide)

theorem finds_carryingParents : Finds carryingConstants (PoolM.className .object) 4
    ∧ Finds carryingConstants (PoolM.className replacement) 8 :=
  ⟨.className (i := 3) (by decide) (by decide), .className (i := 7) (by decide) (by decide)⟩

theorem finds_carryingMember : Finds carryingConstants (PoolM.nameAndType "f" "()V") 11 :=
  .nameAndType (i := 9) (j := 10) (by decide) (by decide) (by decide)

theorem finds_carryingBootstraps :
    Finds carryingConstants (PoolM.bootstrapParts (carryingBootstrap placeholder)) ⟨13, []⟩
      ∧ Finds carryingConstants (PoolM.bootstrapParts (carryingBootstrap replacement)) ⟨15, []⟩ := by
  have hbootstrap {linker : BinaryName} {i j k handle : ConstantIndex}
      (htext : carryingConstants.indexOf? (.utf8 linker.text) = some i)
      (hclass : carryingConstants.indexOf? (.classRef i) = some j)
      (hmethod : carryingConstants.indexOf? (.methodRef j 11 false) = some k)
      (hhandle : carryingConstants.indexOf? (.methodHandle .invokeStatic k) = some handle) :
      Finds carryingConstants (PoolM.bootstrapParts (carryingBootstrap linker)) ⟨handle, []⟩ := by
    have howner : Finds carryingConstants (PoolM.refType (.object linker)) j :=
      .className htext hclass
    have hfound : Finds carryingConstants (PoolM.methodHandle (carryingBootstrap linker).handle)
        handle :=
      (howner.bind (finds_carryingMember.bind (.constant hmethod))).bind (.constant hhandle)
    exact hfound.bind (.pure _)
  exact ⟨hbootstrap (i := 5) (j := 6) (k := 12) (by decide) (by decide) (by decide) (by decide),
    hbootstrap (i := 7) (j := 8) (k := 14) (by decide) (by decide) (by decide) (by decide)⟩

/-- The pool that holds the constants and the bootstrap method. -/
def carryingPool (handle : ConstantIndex) : Pool :=
  PoolM.restoredPool (.ofTable carryingConstants) ⟨handle, []⟩

theorem run_carryingClass (hparent : Finds carryingConstants (PoolM.className parent) superClass)
    (hlinker : Finds carryingConstants (PoolM.bootstrapParts (carryingBootstrap linker))
      ⟨handle, []⟩)
    (hmethods : List.Forall₂ (fun m x => Finds carryingConstants (PoolM.method smallName m) x)
      methods stored)
    (hattributes : List.Forall₂ (fun v x => Finds carryingConstants (PoolM.verbatim v) x) attributes
      carried) :
    (PoolM.classFile (carryingClass parent linker attributes methods)).run
        (carryingClass parent linker attributes methods).initialPool
      = (.ok (carryingFile superClass handle carried stored).stored, carryingPool handle) := by
  have hp := Pool.findsAll_ofTable carryingConstants
  have hrestore := PoolM.run_restoreBootstraps_singleton hp rfl hlinker
  have htable : carryingConstants.indexOf? (.utf8 "BootstrapMethods") = some 24 := by decide
  exact SmallFile.run_smallClass (f := carryingFile superClass handle carried stored)
    finds_carryingName hparent hmethods hattributes hrestore hp rfl rfl fun _ => htable

theorem fits_carryingFile (hmethods : ∀ m ∈ stored, m.Fits) (hlength : stored.length ≤ 0xFFFF)
    (hcarried : carried.length < 0xFFFF) (hinfos : ∀ a ∈ carried, a.info.length < 2 ^ 32) :
    (carryingFile superClass handle carried stored).stored.Fits := by
  refine SmallFile.fits_stored hlength hmethods hcarried hinfos fun a ha => ?_
  rw [List.mem_singleton.1 ha]
  change 6 < 2 ^ 32
  decide

theorem withinLimits_carryingClass
    (hhandlers : ∀ m ∈ methods, ∀ c ∈ m.code, c.exceptionHandlers.length ≤ 0xFFFF)
    (hcounts : ∀ m ∈ methods, ∀ c ∈ m.code, c.attributeCount ≤ 0xFFFF)
    (hfile : (carryingFile superClass handle carried stored).stored.Fits)
    (hrun : (PoolM.classFile (carryingClass parent linker attributes methods)).run
        (carryingClass parent linker attributes methods).initialPool
      = (.ok (carryingFile superClass handle carried stored).stored, carryingPool handle)) :
    (carryingClass parent linker attributes methods).WithinLimits := by
  have harguments : ∀ e ∈ [(⟨handle, []⟩ : BootstrapEntry)], e.arguments.length ≤ 0xFFFF :=
    List.forall_mem_singleton.2 (Nat.zero_le _)
  exact SmallFile.withinLimits_smallClass hhandlers hcounts hfile fits_carryingConstants.constants
    (Nat.le_add_left _ _) harguments hrun

/-- The constants without a bootstrap method, which most of them do not need. -/
def carryingResolver : Resolver := ⟨carryingConstants, []⟩

theorem className_smallName : carryingResolver.className 2 = .ok smallName :=
  eq_ok_of_toOption (by decide +kernel)

theorem className_carryingResolver : carryingResolver.className 4 = .ok .object
    ∧ carryingResolver.className 6 = .ok placeholder
    ∧ carryingResolver.className 8 = .ok replacement :=
  ⟨eq_ok_of_toOption (by decide +kernel), eq_ok_of_toOption (by decide +kernel),
    eq_ok_of_toOption (by decide +kernel)⟩

theorem names_carryingResolver : carryingResolver.unqualifiedName 9 = .ok ⟨"f", isName_f⟩
    ∧ carryingResolver.methodDescriptor 10 = .ok ⟨[], none⟩
    ∧ carryingResolver.utf8 20 = .ok "Code" :=
  ⟨eq_ok_of_toOption (by decide +kernel), eq_ok_of_toOption (by decide +kernel),
    eq_ok_of_toOption (by decide +kernel)⟩

theorem carries_carryingResolver : carryingResolver.Carries ⟨"X", []⟩ ⟨25, []⟩ :=
  ⟨eq_ok_of_toOption (by decide +kernel), rfl⟩

theorem bootstraps_carryingConstants :
    (⟨carryingConstants, [⟨13, []⟩]⟩ : Resolver).bootstraps = .ok [carryingBootstrap placeholder]
      ∧ (⟨carryingConstants, [⟨15, []⟩]⟩ : Resolver).bootstraps
        = .ok [carryingBootstrap replacement] :=
  ⟨eq_ok_of_toOption (by decide +kernel), eq_ok_of_toOption (by decide +kernel)⟩

theorem parse_carryingFile (hparent : carryingResolver.className superClass = .ok parent)
    (hlinker : (⟨carryingConstants, [⟨handle, []⟩]⟩ : Resolver).bootstraps
      = .ok [carryingBootstrap linker])
    (hmethods : List.Forall₂ (fun x m =>
      (⟨carryingConstants, [⟨handle, []⟩]⟩ : Resolver).method smallName x = .ok m) stored methods)
    (hattributes : List.Forall₂ carryingResolver.Carries attributes carried)
    (hnames : ∀ v ∈ attributes, v.name ∉ Resolver.classAttributes)
    (hfile : (carryingFile superClass handle carried stored).stored.Fits) :
    Class.parse (carryingFile superClass handle carried stored).stored.write
      = .ok (carryingClass parent linker attributes methods) := by
  have htable : carryingResolver.utf8 24 = .ok "BootstrapMethods" :=
    eq_ok_of_toOption (by decide +kernel)
  have hcarried : List.Forall₂ (⟨carryingConstants, [⟨handle, []⟩]⟩ : Resolver).Carries attributes
      carried := hattributes.imp fun _ _ h => ⟨h.name, h.info⟩
  have hparts : (carryingFile superClass handle carried stored).Lifted parent methods attributes
      [carryingBootstrap linker] :=
    ⟨className_smallName, hparent, hmethods, hnames, hcarried, fun _ => htable, Nat.le_add_left _ _,
      List.forall_mem_singleton.2 (Nat.zero_le _), hlinker⟩
  exact hparts.parse fits_carryingConstants hfile

/-- An enabled injector with the identifier `T`. -/
def carryingInjector : Injector := ⟨⟨none, none, some "T", true⟩, {}⟩

/-- A class with an attribute that is carried along, and a bootstrap method of its parent. -/
def carryingParent (parent : BinaryName) : Class := carryingClass parent parent [⟨"X", []⟩] []

def parentFile (parent handle : ConstantIndex) : SmallFile :=
  carryingFile parent handle [⟨25, []⟩] []

theorem fits_parentFile (parent handle : ConstantIndex) : (parentFile parent handle).stored.Fits :=
  fits_carryingFile nofun (Nat.zero_le _) (Nat.le_add_left _ _)
    (List.forall_mem_singleton.2 (Nat.two_pow_pos 32))

theorem parse_parentFile :
    Class.parse (parentFile 6 13).stored.write = .ok (carryingParent placeholder)
      ∧ Class.parse (parentFile 8 15).stored.write = .ok (carryingParent replacement) := by
  obtain ⟨-, hplaceholder, hreplacement⟩ := className_carryingResolver
  have hcarried := carries_carryingResolver
  have hnames : ∀ v ∈ [(⟨"X", []⟩ : VerbatimAttribute)], v.name ∉ Resolver.classAttributes := by
    decide
  exact ⟨parse_carryingFile hplaceholder bootstraps_carryingConstants.1 .nil (.cons hcarried .nil)
      hnames (fits_parentFile 6 13),
    parse_carryingFile hreplacement bootstraps_carryingConstants.2 .nil (.cons hcarried .nil)
      hnames (fits_parentFile 8 15)⟩

theorem run_carryingParent :
    (PoolM.classFile (carryingParent replacement)).run (carryingParent replacement).initialPool
      = (.ok (parentFile 8 15).stored, carryingPool 15) :=
  run_carryingClass finds_carryingParents.2 finds_carryingBootstraps.2 .nil
    (.cons (.verbatim (by decide)) .nil)

theorem run_transform_carryingParent :
    (carryingInjector.transform (carryingParent placeholder)).run []
      = (.ok (carryingParent replacement), []) :=
  run_transform_of_remap rfl (eq_ok_of_toOption (by decide))

theorem placeholder_ne_replacement : some replacement ≠ some placeholder := by decide

theorem run_transformBytes_parentFile :
    (carryingInjector.transformBytes (parentFile 6 13).stored.write).run []
      = (.ok (some (parentFile 8 15).stored.write), []) :=
  run_transformBytes_of_transform rfl parse_parentFile.1 run_transform_carryingParent
    (fun heq => placeholder_ne_replacement (congrArg Class.superName heq))
    (Class.toBytes_of_run run_carryingParent)

theorem indices_of_carryingFile :
    Class.parse (parentFile 8 15).stored.write = .ok (carryingParent replacement)
      ∧ (∀ slot k, (carryingParent placeholder).constant? slot = some k →
        (carryingParent replacement).constant? slot = some k)
      ∧ ∃ f, (carryingInjector.expectPlatform (carryingParent placeholder)).run [] = (.ok f, [])
        ∧ ∀ (j : Nat) (b : BootstrapMethod),
          (carryingParent placeholder).bootstrapMethods[j]? = some b →
          ∃ b', carryingInjector.remappedBootstrap f b = .ok b'
            ∧ (carryingParent replacement).bootstrapMethods[j]? = some b' := by
  refine ⟨parse_parentFile.2, indices_of_transformBytes rfl parse_parentFile.1 ?_
    run_transformBytes_parentFile ?_ parse_parentFile.2 (by decide)⟩
  · intro t ht
    rw [← Option.mem_some.1 ht]
    decide
  · intro d ds' hrun
    rw [run_transform_carryingParent] at hrun
    cases hrun
    have hnone : ∀ m, m ∉ ([] : List Method) := fun _ => List.not_mem_nil
    exact withinLimits_carryingClass (fun m hm => absurd hm (hnone m))
      (fun m hm => absurd hm (hnone m)) (fits_parentFile 8 15) run_carryingParent

end Carrying

end Injector

end ClassPatch
