import ClassPatch.Proofs.Inject.Forward

/-!
The order of the two transformations makes no difference, but for the pool that a class is left
with. The placeholder can be renamed before the methods are forwarded: what is then reported for
methods that cannot be forwarded is the same, with the placeholder renamed in their descriptors.
-/

namespace ClassPatch

/-- The class with other methods. -/
def Class.withMethods (c : Class) (methods : List Method) : Class := { c with methods }

namespace Injector

variable {i : Injector} {c d f g : Class} {ds ds' : List Diagnostic}

/-- The class with the implementations of the methods of a class. -/
abbrev forwardedTo (i : Injector) (owner : BinaryName) : Except InjectionError BinaryName :=
  i.config.platformClass i.overrides.platformPackage owner

/-- Both transformations in the other order. -/
def transformRenamedFirst (i : Injector) (c : Class) : InjectM Class := do
  i.expectPlatform (← i.remapPlaceholder c)

/-- What is configured for the placeholder. Without a name for it nothing is renamed. -/
def placeholderRenaming (i : Injector) : Renaming :=
  match i.config.platformMethodsClass i.overrides.uniqueIdentifier with
  | .ok added => .single placeholderClass added
  | .error _ => .identity

theorem placeholderRenaming_of_ok {added : BinaryName}
    (h : i.config.platformMethodsClass i.overrides.uniqueIdentifier = .ok added) :
    i.placeholderRenaming = .single placeholderClass added := by
  rw [placeholderRenaming, h]

theorem placeholderRenaming_of_error {e : InjectionError}
    (h : i.config.platformMethodsClass i.overrides.uniqueIdentifier = .error e) :
    i.placeholderRenaming = .identity := by
  rw [placeholderRenaming, h]

theorem Remapped.withoutPool_eq (h : i.Remapped f d) :
    d.withoutPool = (f.rename i.placeholderRenaming).withoutPool := by
  cases h with
  | renamed hmentions htarget => rw [placeholderRenaming_of_ok htarget]
  | same hmentions =>
    refine (Class.rename_of_keeps ?_).symm
    cases hadded : i.config.platformMethodsClass i.overrides.uniqueIdentifier with
    | error e =>
      rw [placeholderRenaming_of_error hadded]
      exact Renaming.keeps_identity _
    | ok added =>
      rw [placeholderRenaming_of_ok hadded]
      exact Renaming.keeps_single_of_not_mem (Class.mentions_eq_false.1 hmentions)

theorem run_expectPlatform_eq_ok (henabled : i.config.enabled = true) :
    (i.expectPlatform c).run ds = (.ok f, ds') ↔
      ∃ ms, (c.methods.mapM (·.expectPlatform c.name (i.forwardedTo c.name))
          : InjectM (List Method)).run ds = (.ok ms, ds') ∧ c.withMethods ms = f := by
  unfold expectPlatform Class.expectPlatform
  rw [henabled]
  constructor
  · intro h
    obtain ⟨ms, ds₁, hms, h⟩ := run_bind_eq_ok.1 h
    obtain ⟨rfl, rfl⟩ := run_pure_eq_ok.1 h
    exact ⟨ms, hms, rfl⟩
  · rintro ⟨ms, hms, rfl⟩
    exact run_bind_ok hms _

theorem run_expectPlatform_congr (henabled : i.config.enabled = true)
    (hsame : g.withoutPool = c.withoutPool) (h : (i.expectPlatform c).run ds = (.ok f, ds')) :
    ∃ f', (i.expectPlatform g).run ds = (.ok f', ds') ∧ f'.withoutPool = f.withoutPool := by
  have hname : g.name = c.name :=
    (congrArg Class.name hsame : g.withoutPool.name = c.withoutPool.name)
  have hmethods : g.methods = c.methods :=
    (congrArg Class.methods hsame : g.withoutPool.methods = c.withoutPool.methods)
  obtain ⟨ms, hms, rfl⟩ := (run_expectPlatform_eq_ok henabled).1 h
  rw [← hname, ← hmethods] at hms
  refine ⟨g.withMethods ms, (run_expectPlatform_eq_ok henabled).2 ⟨ms, hms, rfl⟩, ?_⟩
  exact congrArg (Class.withMethods · ms) hsame

theorem forwardsAlike (hname : c.name.text ≠ placeholderClass)
    (hadded : ∀ added, i.config.platformMethodsClass i.overrides.uniqueIdentifier = .ok added →
      c.mentions added.text = false) :
    i.placeholderRenaming.apply c.name = c.name
      ∧ ∀ m ∈ c.methods, m.ForwardsAlike i.placeholderRenaming (i.forwardedTo c.name) := by
  cases hconfigured : i.config.platformMethodsClass i.overrides.uniqueIdentifier with
  | error e =>
    rw [placeholderRenaming_of_error hconfigured]
    refine ⟨rfl, fun m _ => Method.forwardsAlike_of_keeps fun m => ?_⟩
    exact m.rename_of_keeps (Renaming.keeps_identity _)
  | ok added =>
    rw [placeholderRenaming_of_ok hconfigured]
    constructor
    · exact Renaming.apply_single_of_ne hname
    · intro m hm
      refine Method.forwardsAlike_single
        (InjectionConfig.getLast?_platformMethodsClass hconfigured)
        (fun _ => InjectionConfig.getLast?_platformClass) ?_
      have hmentions := Class.mentions_eq_false.1 (hadded added hconfigured)
      intro hmem
      have hmethods := List.mem_flatMap.2 ⟨m, hm, hmem⟩
      exact hmentions (by simp only [Class.names, List.mem_append, hmethods, true_or, or_true])

/-- Forwarding the methods of the renamed class gives the renamed class with forwarded methods. -/
theorem run_expectPlatform_rename (henabled : i.config.enabled = true)
    (hname : c.name.text ≠ placeholderClass)
    (hadded : ∀ added, i.config.platformMethodsClass i.overrides.uniqueIdentifier = .ok added →
      c.mentions added.text = false)
    (h : (i.expectPlatform c).run ds = (.ok f, ds')) :
    ∃ reported, ds' = ds ++ reported ∧ ∀ es, ∃ g,
      (i.expectPlatform (c.rename i.placeholderRenaming)).run es
        = (.ok g, es ++ reported.map (Diagnostic.rename i.placeholderRenaming))
      ∧ g.withoutPool = (f.rename i.placeholderRenaming).withoutPool := by
  obtain ⟨happly, hmethods⟩ := forwardsAlike hname hadded
  obtain ⟨ms, hms, rfl⟩ := (run_expectPlatform_eq_ok henabled).1 h
  obtain ⟨reported, rfl, hreported⟩ := Method.run_mapM_expectPlatform_rename hmethods hms
  refine ⟨reported, rfl, fun es => ?_⟩
  refine ⟨(c.rename i.placeholderRenaming).withMethods
    (ms.map (·.rename i.placeholderRenaming)), ?_, rfl⟩
  refine (run_expectPlatform_eq_ok henabled).2 ⟨_, ?_, rfl⟩
  -- The class keeps its name, so its methods are forwarded to the same class.
  have hsame : (c.rename i.placeholderRenaming).name = c.name := happly
  rw [hsame]
  exact hreported es

/--
Both orders give the same class, but for the pool and the bootstrap methods that it is lowered with,
and report the same, but for the placeholder in descriptors.
-/
theorem transform_eq_transformRenamedFirst {a b : Class} {da db : List Diagnostic}
    (henabled : i.config.enabled = true) (hname : c.name.text ≠ placeholderClass)
    (hadded : ∀ added, i.config.platformMethodsClass i.overrides.uniqueIdentifier = .ok added →
      c.mentions added.text = false)
    (ha : (i.transform c).run ds = (.ok a, da))
    (hb : (i.transformRenamedFirst c).run ds = (.ok b, db)) :
    a.withoutPool = b.withoutPool ∧ ∃ reported, da = ds ++ reported
      ∧ db = ds ++ reported.map (Diagnostic.rename i.placeholderRenaming) := by
  obtain ⟨f, hforward, hremapped⟩ := remapped_of_transform henabled ha
  obtain ⟨g, ds₁, hremap, hlast⟩ := run_bind_eq_ok.1 hb
  obtain ⟨hrenamed, rfl⟩ := run_lift_eq_ok.1 hremap
  have hg := (remapped_of_remapPlaceholder henabled hrenamed).withoutPool_eq
  obtain ⟨reported, rfl, hruns⟩ := run_expectPlatform_rename henabled hname hadded hforward
  obtain ⟨g', hg', hsame⟩ := hruns ds
  obtain ⟨b', hb', hsame'⟩ := run_expectPlatform_congr henabled hg hg'
  rw [hlast] at hb'
  cases hb'
  exact ⟨hremapped.withoutPool_eq.trans (hsame.symm.trans hsame'.symm), reported, rfl, rfl⟩

/-- An injector for Fabric whose added class is in the package `T`. -/
def fabricInjector : Injector := ⟨⟨some "fabric", none, some "T", true⟩, {}⟩

/-- An annotated method with the placeholder for its parameter. -/
def annotatedMethod (flags : UInt16) : Method where
  accessFlags := .truncate _ flags
  name := ⟨"annotated", by decide +kernel⟩
  descriptor := ⟨[.ref (.object placeholder)], none⟩
  annotations := { invisible := [.marker ExpectPlatform.current.descriptor] }

/-- A class with an annotated method that is static, and one that is not. -/
def annotatedClass : Class where
  version := .java8
  accessFlags := .truncate _ 0x20
  name := ⟨"Annotated", by decide +kernel⟩
  superName := some .object
  methods := [annotatedMethod 0x9, annotatedMethod 0x1]

theorem exists_run_eq_ok {α : Type} {x : InjectM α} (h : (x.run ds).1.toOption.isSome = true) :
    ∃ a ds', x.run ds = (.ok a, ds') := by
  cases hx : x.run ds with
  | mk result ds' =>
    cases result with
    | ok a => exact ⟨a, ds', rfl⟩
    | error e =>
      rw [hx] at h
      cases h

theorem transform_annotatedClass : ∃ a b da db,
    (fabricInjector.transform annotatedClass).run [] = (.ok a, da)
      ∧ (fabricInjector.transformRenamedFirst annotatedClass).run [] = (.ok b, db)
      ∧ a.withoutPool = b.withoutPool
      ∧ ∃ reported, da = [] ++ reported
        ∧ db = [] ++ reported.map (Diagnostic.rename fabricInjector.placeholderRenaming) := by
  obtain ⟨a, da, ha⟩ : ∃ a da, (fabricInjector.transform annotatedClass).run [] = (.ok a, da) :=
    exists_run_eq_ok (by decide +kernel)
  obtain ⟨b, db, hb⟩ : ∃ b db,
      (fabricInjector.transformRenamedFirst annotatedClass).run [] = (.ok b, db) :=
    exists_run_eq_ok (by decide +kernel)
  refine ⟨a, b, da, db, ha, hb, transform_eq_transformRenamedFirst rfl (by decide +kernel) ?_ ha hb⟩
  intro added hadded
  have hreplacement : fabricInjector.config.platformMethodsClass
      fabricInjector.overrides.uniqueIdentifier = .ok replacement :=
    eq_ok_of_toOption (by decide +kernel)
  cases hreplacement.symm.trans hadded
  decide +kernel

end Injector

end ClassPatch
