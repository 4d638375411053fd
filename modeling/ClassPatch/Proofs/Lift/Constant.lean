import ClassPatch.Proofs.Lower.Constant

/-!
Constants that were resolved are well-formed: they can be lowered and resolved again.
-/

namespace ClassPatch.Resolver

variable {r : Resolver} {index : ConstantIndex}

/-- The entries of the table of bootstrap methods are as a class file can hold them. -/
def ArgumentsFit (r : Resolver) : Prop := ∀ e ∈ r.bootstrapMethods, e.arguments.length ≤ 0xFFFF

/-- The resolver has a table of bootstrap methods. -/
def HasBootstraps (r : Resolver) : Prop := r.bootstrapMethods ≠ []

/-- Bootstrap methods are resolved only if there is a table of them. -/
def Admits (r : Resolver) (_ : BootstrapMethod) : Prop := r.HasBootstraps

theorem wellFormed_of_methodHandle {h : MethodHandle} (hok : r.methodHandle index = .ok h) :
    h.WellFormed :=
  (exists_of_methodHandle hok).1

theorem wellFormed_of_staticAt {c : StaticConstant} (h : r.StaticAt index c) : c.WellFormed := by
  cases h with
  | methodHandle _ hhandle => exact wellFormed_of_methodHandle hhandle
  | _ => trivial

theorem EntryUnfoldsBy.fits {R : ConstantIndex → LoadableConstant → Prop} {e : BootstrapEntry}
    {b : BootstrapMethod} (h : r.EntryUnfoldsBy R e b) (hr : r.ArgumentsFit)
    (he : e ∈ r.bootstrapMethods) :
    r.Admits b ∧ b.handle.WellFormed ∧ b.arguments.length ≤ 0xFFFF :=
  ⟨List.ne_nil_of_mem he, wellFormed_of_methodHandle h.handle, h.arguments.length_eq ▸ hr e he⟩

theorem wellFormed_of_loadableWithin {levels : Nat} {c : LoadableConstant} (hr : r.ArgumentsFit)
    (hok : r.loadableWithin levels index = .ok c) : c.WellFormed r.Admits levels := by
  induction levels generalizing index c with
  | zero => cases hok
  | succ levels ih =>
    cases loadableWithin_succ_eq_ok.1 hok with
    | static h => exact wellFormed_of_staticAt h
    | @dynamic _ e handle cs _ _ h hhandle hcs =>
      have hentry : r.EntryUnfoldsBy _ e ⟨handle, cs⟩ := ⟨hhandle, hcs⟩
      obtain ⟨-, he, -, -, -⟩ := h
      obtain ⟨hadmitted, hwf, hlength⟩ := hentry.fits hr (List.mem_of_getElem? he)
      refine ⟨hadmitted, hwf, hlength, ?_⟩
      intro argument hargument
      obtain ⟨i, -, hi⟩ := exists_of_mem_right hcs hargument
      exact ih hi

theorem EntryUnfoldsBy.wellFormed {e : BootstrapEntry} {b : BootstrapMethod}
    (h : r.EntryUnfoldsBy (fun i c => r.loadableWithin maxDynamicNesting i = .ok c) e b)
    (hr : r.ArgumentsFit) (he : e ∈ r.bootstrapMethods) : b.WellFormed r.Admits := by
  obtain ⟨hadmitted, hwf, hlength⟩ := h.fits hr he
  refine ⟨hadmitted, hwf, hlength, ?_⟩
  intro argument hargument
  obtain ⟨i, -, hi⟩ := exists_of_mem_right h.arguments hargument
  exact wellFormed_of_loadableWithin hr hi

theorem wellFormed_of_bootstrap {b : BootstrapMethod} (hr : r.ArgumentsFit) {slot : UInt16}
    (hok : r.bootstrap slot = .ok b) : b.WellFormed r.Admits := by
  obtain ⟨e, he, hentry⟩ := bootstrapMethod_eq_ok.1 hok
  exact hentry.wellFormed hr (List.mem_of_getElem? he)

theorem wellFormed_of_callSite {c : CallSite} (hr : r.ArgumentsFit)
    (hok : r.callSite index = .ok c) : c.bootstrap.WellFormed r.Admits := by
  obtain ⟨e, ⟨-, he, -, -, -⟩, hentry⟩ := callSite_eq_ok.1 hok
  exact hentry.wellFormed hr (List.mem_of_getElem? he)

end ClassPatch.Resolver
