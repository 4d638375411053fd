import ClassPatch.Proofs.Class.RoundTrip
import ClassPatch.Proofs.Lift.Placed

/-!
Classes that are read back from what they are lowered to, whether they were parsed or not: nothing
but code is changed, where labels are numbered by their places, and what was added to the pool and
to the table of bootstrap methods is there as well.
-/

namespace ClassPatch

/-- Methods of which the second is what the first is read back as. -/
structure Method.Reread (owner : BinaryName) (m n : Method) : Prop where
  code : Option.Rel (fun c d => (c.canonical (m.context owner)).Rewritten d) m.code n.code
  others : n = { m with code := n.code }

/-- The method can be read back from what it is lowered to. -/
structure Method.Rereadable (owner : BinaryName) (admits : BootstrapMethod → Prop) (m : Method) :
    Prop where
  storable : m.Storable
  constants : m.ConstantsWellFormed admits
  code : ∀ c ∈ m.code, c.Rereadable (m.context owner)

namespace Class

/-- Classes of which the second is what the first is read back as. -/
structure Reread (c d : Class) : Prop where
  methods : List.Forall₂ (Method.Reread c.name) c.methods d.methods
  others : d = { c with
    methods := d.methods
    bootstrapMethods := d.bootstrapMethods
    constantPool := d.constantPool }

/-- The class can be read back from what it is lowered to, whatever pool it is lowered with. -/
structure Rereadable (admits : BootstrapMethod → Prop) (c : Class) : Prop where
  storable : c.Storable
  innerClasses : c.innerClasses.length ≤ 0xFFFF
  fields : ∀ f ∈ c.fields, f.Storable admits
  methods : ∀ m ∈ c.methods, m.Rereadable c.name admits
  bootstrapMethods : ∀ b ∈ c.bootstrapMethods, b.WellFormed admits
  bootstrapCount : c.bootstrapMethods.length ≤ 0xFFFF

variable {admits : BootstrapMethod → Prop} {c d : Class} {file : Stored.ClassFile} {p : Pool}
  {bytes : Bytes}

theorem exists_reread_methods {zero : p.constants.get? 0 = none}
    (h : ClassLowering True admits c file p zero) (hc : c.Rereadable admits)
    (hparts : c.PartsFit) (hfit : FileFits file p) :
    ∃ methods, file.methods.mapM (p.resolver.method c.name) = .ok methods
      ∧ List.Forall₂ (Method.Reread c.name) c.methods methods := by
  have hmethods : List.Forall₂ (fun m x => ∃ n,
      Method.Reread c.name m n ∧ p.resolver.method c.name x = .ok n) c.methods file.methods := by
    refine forall₂_imp_of_mem h.lowered.methods fun m hm x hx hmx => ?_
    have hm' := hc.methods m hm
    obtain ⟨n, hn, hcode, hothers⟩ := hmx.exists_method_of_code
      (R := fun c' d' => (c'.canonical (m.context c.name)).Rewritten d') hm'.storable
      (fun c' hc' => ⟨hm'.constants c' hc', hparts.handlers m hm c' hc',
        hparts.codeAttributes m hm c' hc'⟩)
      (fun c' hc' y hy => exists_rewritten_of_lowered trivial (hm'.code c' hc') hy)
      (hfit.counts.methods x hx).2
    exact ⟨n, ⟨hcode, hothers⟩, hn⟩
  obtain ⟨methods, hreread, hlifted⟩ := exists_between hmethods
  exact ⟨methods, mapM_eq_ok.2 hlifted.flip, hreread⟩

/-- A class is read back from its bytes, with its bootstrap methods before those that were added. -/
theorem exists_reread (hc : c.Rereadable admits) (hpool : c.PoolFits) (hlimits : c.WithinLimits)
    (hbytes : c.toBytes = .ok bytes) : ∃ d, parse bytes = .ok d ∧ c.Reread d
      ∧ c.bootstrapMethods <+: d.bootstrapMethods ∧ ∀ b ∈ d.bootstrapMethods, admits b := by
  obtain ⟨file, p, hrun, rfl⟩ := toBytes_eq_ok hbytes
  have hfit := hlimits.lowered file p hrun
  obtain ⟨zero, h⟩ := @classLowering_of_run True admits _ _ _ hpool hc.bootstrapMethods
    hc.bootstrapCount (fun _ f hf => (hc.fields f hf).constants)
    (fun _ m hm => (hc.methods m hm).constants) hrun hfit.bootstraps
  obtain ⟨methods, hmethods, hreread⟩ := exists_reread_methods h hc hlimits.parts hfit
  obtain ⟨bs, hlifted⟩ := h.exists_lifted_of_methods hc.storable hc.fields hc.innerClasses hfit
    hmethods
  refine ⟨_, (bind_of_eq_ok (h.parse_write hpool hfit) _).trans (ofClassFile_of_lifted hlifted),
    ⟨hreread, rfl⟩, ?_, h.admits_of_lifted hlifted⟩
  refine List.prefix_iff_getElem?.2 fun j hj => ?_
  exact h.bootstrapMethods_of_lifted hlifted hc.bootstrapCount (List.getElem?_eq_getElem hj)

theorem reread_of_parse (hc : c.Rereadable admits) (hpool : c.PoolFits)
    (hlimits : c.WithinLimits) (hbytes : c.toBytes = .ok bytes) (hparse : parse bytes = .ok d) :
    c.Reread d ∧ ∀ b ∈ d.bootstrapMethods, admits b := by
  obtain ⟨d', hd', hreread, -, hadmits⟩ := exists_reread hc hpool hlimits hbytes
  obtain rfl : d' = d := Except.ok.inj (hd'.symm.trans hparse)
  exact ⟨hreread, hadmits⟩

end Class

namespace ClassLifted

variable {file : Stored.ClassFile} {r : Resolver} {c : Class} {m : Method} {code : Code}

theorem code_rereadable (h : ClassLifted file r c) (hfile : file.Fits)
    (hm : m ∈ c.methods) (hcode : code ∈ m.code) (hfit : code.TablesFit) :
    code.Rereadable (m.context c.name) := by
  obtain ⟨-, -, hlifted⟩ := h.methods_storable hfile m hm
  obtain ⟨y, -, hy⟩ := hlifted code hcode
  obtain ⟨p, hp⟩ := codeLifted_of_code hy
  exact hp.rereadable hfit

theorem method_rereadable (h : ClassLifted file r c) (hfile : file.Fits)
    (hm : m ∈ c.methods) (hfit : m.TablesFit) : m.Rereadable c.name r.Admits where
  storable := (h.methods_storable hfile m hm).1
  constants := (Class.constantsWellFormed_of_lifted h hfile).2 m hm
  code := fun code hcode => h.code_rereadable hfile hm hcode (hfit code hcode)

end ClassLifted

end ClassPatch
