import ClassPatch.Proofs.Inject.Patched

/-!
Which methods have a body. Native and abstract methods have none, and all others have one. A class
that keeps to this is forwarded to one that does as well exactly if none of the methods that get a
body is native or abstract: the body is added, but the flags stay as they are.
-/

namespace ClassPatch

namespace AccessFlags

/-- Bit of methods that are implemented elsewhere. -/
def nativeBit : UInt16 := 0x0100

/-- Bit of methods that subclasses implement. -/
def abstractBit : UInt16 := 0x0400

end AccessFlags

namespace Method

variable {m m' : Method} {found : Except InjectionError BinaryName} {target : BinaryName}

/-- The flags say that the method has no body. -/
def isBodiless (m : Method) : Bool :=
  m.accessFlags.contains AccessFlags.nativeBit || m.accessFlags.contains AccessFlags.abstractBit

/-- The method has a body exactly if it is neither native nor abstract. -/
def BodyFits (m : Method) : Prop := m.code.isSome = true ↔ m.isBodiless = false

instance : DecidablePred BodyFits := fun _ => inferInstanceAs (Decidable (_ ↔ _))

theorem ForwardsTo.bodyFits_iff (h : m.ForwardsTo target m') :
    m'.BodyFits ↔ m.isBodiless = false := by
  obtain ⟨c, hcode, -⟩ := h.code
  have hflags : m'.isBodiless = m.isBodiless := by
    rw [h.rest]
    rfl
  unfold BodyFits
  rw [hcode, hflags]
  exact ⟨fun hfits => hfits.1 rfl, fun h => ⟨fun _ => h, fun _ => rfl⟩⟩

theorem Patched.bodyFits_iff (h : m.Patched found m') (hm : m.BodyFits) :
    m'.BodyFits ↔ (m.IsForwarded → m.isBodiless = false) := by
  cases h with
  | kept hkept => exact ⟨fun _ hforwarded => absurd hforwarded hkept, fun _ => hm⟩
  | forwarded hforwarded _ hto =>
    rw [hto.bodyFits_iff]
    exact ⟨fun h _ => h, fun h => h hforwarded⟩

end Method

namespace Class

variable {c f : Class} {config : InjectionConfig} {package : Option String}
  {found : Except InjectionError BinaryName} {ds ds' : List Diagnostic}

/-- Each method has a body exactly if it is neither native nor abstract. -/
def BodiesFit (c : Class) : Prop := ∀ m ∈ c.methods, m.BodyFits

instance : DecidablePred BodiesFit := fun c => inferInstanceAs (Decidable (∀ m ∈ c.methods, _))

theorem Patched.bodiesFit_iff (h : c.Patched found f) (hc : c.BodiesFit) :
    f.BodiesFit ↔ ∀ m ∈ c.methods, m.IsForwarded → m.isBodiless = false := by
  constructor
  · intro hf m hm
    obtain ⟨m', hm', hpatched⟩ := exists_of_mem_left h.methods hm
    exact (hpatched.bodyFits_iff (hc m hm)).1 (hf m' hm')
  · intro hforwarded m' hm'
    obtain ⟨m, hm, hpatched⟩ := exists_of_mem_right h.methods hm'
    exact (hpatched.bodyFits_iff (hc m hm)).2 (hforwarded m hm)

/--
In the class that forwarding gives, each method has a body exactly if it is neither native nor
abstract, provided that this held before and that no method which gets a body is native or abstract.
-/
theorem bodiesFit_expectPlatform_iff (hc : c.BodiesFit)
    (hrun : (c.expectPlatform config package).run ds = (.ok f, ds')) :
    f.BodiesFit ↔
      (config.enabled = true → ∀ m ∈ c.methods, m.IsForwarded → m.isBodiless = false) := by
  cases henabled : config.enabled with
  | false =>
    have hsame : (c.expectPlatform config package).run ds = (.ok c, ds) := by
      unfold expectPlatform
      rw [henabled]
      rfl
    cases hsame.symm.trans hrun
    exact ⟨fun _ => nofun, fun _ => hc⟩
  | true =>
    have hlacks : ¬ c.LacksTarget (config.platformClass package c.name) := by
      intro hlacks
      obtain ⟨e, ds₁, herror⟩ := run_expectPlatform_of_lacksTarget henabled ds hlacks
      cases herror.symm.trans hrun
    obtain ⟨f', hok, hpatched⟩ := run_expectPlatform_of_not_lacksTarget henabled ds hlacks
    cases hok.symm.trans hrun
    rw [hpatched.bodiesFit_iff hc]
    exact ⟨fun h _ => h, fun h => h rfl⟩

/-- A method with the annotation, with flags and code as given. -/
def flaggedMethod (flags : UInt16) (code : Option Code) : Method where
  accessFlags := .truncate _ flags
  name := ⟨"flagged", by decide +kernel⟩
  descriptor := ⟨[], none⟩
  annotations := { invisible := [.marker ExpectPlatform.current.descriptor] }
  code := code

/-- A class with the methods. -/
def flaggedClass (methods : List Method) : Class where
  version := .java8
  accessFlags := .truncate _ 0x20
  name := ⟨"Flagged", by decide +kernel⟩
  superName := some .object
  methods := methods

/-- A body that returns. -/
def returningCode : Code := { elements := [.branch .voidReturn] }

/-- A static method with a body, and one that is native and not static. -/
def fittingClass : Class := flaggedClass [flaggedMethod 0x8 returningCode, flaggedMethod 0x100 none]

theorem bodiesFit_expectPlatform_fittingClass : fittingClass.BodiesFit
    ∧ ∃ f ds, (fittingClass.expectPlatform fabricConfig none).run [] = (.ok f, ds)
      ∧ f.BodiesFit := by
  have hfits : fittingClass.BodiesFit := by decide +kernel
  have htarget : ¬ fittingClass.LacksTarget (fabricConfig.platformClass none fittingClass.name) :=
    not_lacksTarget (by decide +kernel)
  obtain ⟨f, hrun, -⟩ := run_expectPlatform_of_not_lacksTarget rfl [] htarget
  exact ⟨hfits, f, _, hrun, (bodiesFit_expectPlatform_iff hfits hrun).2 (by decide +kernel)⟩

/-- A static method that is native and has the annotation. -/
def nativeClass : Class := flaggedClass [flaggedMethod 0x108 none]

/-- The method gets a body, but is still native. -/
theorem not_bodiesFit_nativeClass : nativeClass.BodiesFit
    ∧ ∃ f ds, (nativeClass.expectPlatform fabricConfig none).run [] = (.ok f, ds)
      ∧ ¬ f.BodiesFit := by
  have hfits : nativeClass.BodiesFit := by decide +kernel
  have htarget : ¬ nativeClass.LacksTarget (fabricConfig.platformClass none nativeClass.name) :=
    not_lacksTarget (by decide +kernel)
  obtain ⟨f, hrun, hpatched⟩ := run_expectPlatform_of_not_lacksTarget rfl [] htarget
  refine ⟨hfits, f, _, hrun, ?_⟩
  rw [hpatched.bodiesFit_iff hfits]
  decide +kernel

end Class

end ClassPatch
