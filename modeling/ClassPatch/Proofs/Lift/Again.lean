import ClassPatch.Proofs.Lift.Member
import ClassPatch.Proofs.Lower.Limits

/-!
A class that was parsed, lowered and written is parsed again from its bytes, if nothing that
lowering can make larger exceeds the field that holds its length.
-/

namespace ClassPatch

open Resolver

theorem ClassAttributesLowered.foldlM_eq {r : Resolver} {c : Class} {xs : List Stored.Attribute}
    (h : ClassAttributesLowered r c xs) (hc : c.Storable)
    (hinner : c.innerClasses.length ≤ 0xFFFF) (hinfos : ∀ a ∈ xs, a.info.length < 2 ^ 32)
    (methods : List Method) :
    xs.foldlM r.addToClass
      (.bare c.version c.accessFlags c.name c.superName c.interfaces c.fields methods)
        = .ok { c with methods, bootstrapMethods := [], constantPool := none } := by
  obtain ⟨hsourceFile, hsignature, hinnerClasses, henclosing, hnestHost, hnestMembers, hpermitted,
    hrecord, hannotations, hattributes⟩ := h
  simp only [List.append_assoc, Class.bare]
  -- one group of attributes after the other, in the order in which they were written
  refine (hsourceFile.foldlM_append (fun c v => { c with sourceFile := v }) rfl ?_).trans ?_
  · intro text _ x _ hx
    exact addToClass_of_classStep _ (.sourceFile hx.name (hx.content trivial))
  dsimp only
  refine (hsignature.foldlM_append (fun c v => { c with signature := v }) rfl ?_).trans ?_
  · intro text _ x _ hx
    exact addToClass_of_classStep _ (.signature hx.name (hx.content trivial))
  dsimp only
  refine (hinnerClasses.foldlM_append (fun c v => { c with innerClasses := v }) rfl ?_).trans ?_
  · intro x hx
    obtain ⟨cs, hcs, hlifted⟩ := bind_eq_ok.1 (hx.content hinner)
    exact addToClass_of_classStep _ (.innerClasses hx.name hcs hlifted)
  dsimp only
  refine (henclosing.foldlM_append (fun c v => { c with enclosingMethod := v }) rfl ?_).trans ?_
  · intro e _ x _ hx
    obtain ⟨y, hy, hlifted⟩ := bind_eq_ok.1 (hx.content trivial)
    exact addToClass_of_classStep _ (.enclosingMethod hx.name hy hlifted)
  dsimp only
  refine (hnestHost.foldlM_append (fun c v => { c with nestHost := v }) rfl ?_).trans ?_
  · intro host _ x _ hx
    obtain ⟨i, hi, hlifted⟩ := bind_eq_ok.1 (hx.content trivial)
    exact addToClass_of_classStep _ (.nestHost hx.name hi hlifted)
  dsimp only
  refine (hnestMembers.foldlM_append (fun c v => { c with nestMembers := v }) rfl ?_).trans ?_
  · intro x hx
    exact addToClass_of_classStep _ (.nestMembers hx.name (hx.content hc.nestMembers))
  dsimp only
  refine (hpermitted.foldlM_append (fun c v => { c with permittedSubclasses := v }) rfl
    ?_).trans ?_
  · intro x hx
    exact addToClass_of_classStep _
      (.permittedSubclasses hx.name (hx.content hc.permittedSubclasses))
  dsimp only
  refine (hrecord.foldlM_append (fun c v => { c with recordComponents := v }) rfl ?_).trans ?_
  · intro cs hcs x hmem hx
    have hinfo : x.info.length < 2 ^ 32 :=
      hinfos x (by simp only [List.mem_append, hmem, true_or, or_true])
    obtain ⟨ys, hys, hlowered⟩ := parse_record_of_stores hx (hc.components_length cs hcs)
      (fun k hk => (hc.components cs hcs k hk).2) hinfo
    have hlifted : ys.mapM r.recordComponent = .ok cs := mapM_eq_ok.2
      (forall₂_imp_of_mem hlowered fun k hk y _ hy =>
        hy.recordComponent_eq (hc.components cs hcs k hk).1).flip
    exact addToClass_of_classStep _ (.record hx.name hys hlifted)
  dsimp only
  refine (hannotations.foldlM_append hc.annotations (fun c v => { c with annotations := v })
    rfl ?_ ?_).trans ?_
  · exact fun x hname hinfo => addToClass_of_classStep _ (.visible hname hinfo)
  · exact fun x hname hinfo => addToClass_of_classStep _ (.invisible hname hinfo)
  · exact foldlM_carried hattributes hc.names (fun vs =>
      { c with methods, attributes := vs, bootstrapMethods := [], constantPool := none })
      fun vs x text hname htext => addToClass_of_classStep _ (.verbatim hname htext)

namespace Class

/-- Texts, attributes and the table of bootstrap methods fit the fields that hold their lengths. -/
structure ContentFits (file : Stored.ClassFile) (p : Pool) : Prop where
  texts : ∀ k ∈ file.constants.elements, k.Fits
  bootstraps : p.bootstrapMethods.size ≤ 0xFFFF
  fieldInfos : ∀ f ∈ file.fields, ∀ a ∈ f.attributes, a.info.length < 2 ^ 32
  methodInfos : ∀ m ∈ file.methods, ∀ a ∈ m.attributes, a.info.length < 2 ^ 32
  infos : ∀ a ∈ file.attributes, a.info.length < 2 ^ 32

/--
Nothing of a class that was parsed has become too large to be stored. What is not named here never
becomes larger than it was in the class file.
-/
structure LengthsFit (c : Class) : Prop where
  methods : ∀ m ∈ c.methods, m.TablesFit
  innerClasses : c.innerClasses.length ≤ 0xFFFF
  pool : ∀ t ∈ c.constantPool, t.next ≤ 0xFFFF
  lowered : ∀ file p, (PoolM.classFile c).run c.initialPool = (.ok file, p) → ContentFits file p

/--
Classes that differ in the form of branches at most, and in what the second holds behind the
constants and the bootstrap methods of the first.
-/
structure Rewritten (c d : Class) : Prop where
  methods : List.Forall₂ Method.Rewritten c.methods d.methods
  bootstrapMethods : c.bootstrapMethods <+: d.bootstrapMethods
  constantPool : Option.Rel (fun t t' => ∃ cs, t' = t.append cs) c.constantPool d.constantPool
  others : d = { c with
    methods := d.methods
    bootstrapMethods := d.bootstrapMethods
    constantPool := d.constantPool }

end Class

namespace ClassLowering

variable {admits : BootstrapMethod → Prop} {c d : Class} {file : Stored.ClassFile} {p : Pool}
  {zero : p.constants.get? 0 = none}

theorem resolves (h : ClassLowering True admits c file p zero) {j : Nat} {e : BootstrapEntry}
    (he : p.bootstrapMethods[j]? = some e) :
    e.arguments.length ≤ 0xFFFF
      ∧ ∃ b, admits b ∧ ∀ i : UInt16, i.toNat = j → p.resolver.bootstrap i = .ok b := by
  obtain ⟨b, hadmitted, hlength, hhandle, harguments⟩ :=
    h.restored.allowed j e he (by omega) trivial h.retains
  refine ⟨harguments.length_eq ▸ hlength, b, hadmitted, ?_⟩
  intro i hi
  have hentry : p.resolver.bootstrapMethods[i.toNat]? = some ⟨e.handle, e.arguments⟩ := by
    rw [hi]
    change p.bootstrapMethods.toList[j]? = some e
    rw [Array.getElem?_toList]
    exact he
  exact Resolver.bootstrapMethod_of_getElem? hentry hhandle harguments

theorem admits_of_lifted (h : ClassLowering True admits c file p zero)
    (hd : ClassLifted file p.resolver d) : ∀ b ∈ d.bootstrapMethods, admits b := by
  intro b hb
  obtain ⟨j, hj, hbootstrap⟩ := exists_of_mem_mapM hd.bootstrapMethods hb
  have hlt : j < p.bootstrapMethods.toList.length := List.mem_range.1 hj
  have hsize : p.bootstrapMethods.toList.length ≤ 0xFFFF :=
    (Stored.ClassFile.bootstrapMethods_fit hd.table).1
  rw [Array.length_toList] at hlt hsize
  obtain ⟨-, b', hadmitted, hb'⟩ := h.resolves (Array.getElem?_eq_getElem hlt)
  have hsame := hb' (UInt16.ofNat j) (by rw [UInt16.toNat_ofNat', Nat.mod_eq_of_lt (by omega)])
  cases hbootstrap.symm.trans hsame
  exact hadmitted

theorem length_attributes_le {r : Resolver} {file₀ : Stored.ClassFile}
    (h : ClassLowering True r.Admits c file p zero) (h₀ : ClassLifted file₀ r c) :
    file.attributes.length ≤ file₀.attributes.length := by
  obtain ⟨attributes, table, hattributes, hclass, htable⟩ := h.lowered.attributes
  rw [hattributes, List.length_append, hclass.length_eq, htable.length_eq]
  cases hentries : p.bootstrapMethods.toList with
  | nil => exact h₀.attributeCount_le
  | cons e es =>
    have he : p.bootstrapMethods[0]? = some e := by
      rw [← Array.getElem?_toList, hentries]
      rfl
    obtain ⟨-, b, hboot, -⟩ := h.resolves he
    exact h₀.attributeCount_lt hboot

variable {r : Resolver} {file₀ : Stored.ClassFile}

theorem fileFits (h : ClassLowering True r.Admits c file p zero)
    (h₀ : ClassLifted file₀ r c) (hfile₀ : file₀.Fits) (hfit : Class.ContentFits file p) :
    Class.FileFits file p := by
  have hlowered := h.lowered
  constructor
  case texts => exact hfit.texts
  case bootstraps => exact hfit.bootstraps
  case arguments =>
    intro e he
    obtain ⟨j, hj⟩ := List.mem_iff_getElem?.1 he
    rw [Array.getElem?_toList] at hj
    exact (h.resolves hj).1
  case counts =>
    constructor
    case interfaces =>
      rw [← hlowered.interfaces.length_eq, length_of_mapM h₀.interfaces]
      exact hfile₀.interfaces
    case fields_length =>
      rw [← hlowered.fields.length_eq, length_of_mapM h₀.fields]
      exact hfile₀.fields_length
    case fields =>
      intro x hx
      obtain ⟨f, hf, hfx⟩ := exists_of_mem_right hlowered.fields hx
      refine ⟨?_, hfit.fieldInfos x hx⟩
      rw [hfx.attributes.length_eq]
      exact (h₀.fields_storable hfile₀ f hf).2
    case methods_length =>
      rw [← hlowered.methods.length_eq, length_of_mapM h₀.methods]
      exact hfile₀.methods_length
    case methods =>
      intro x hx
      obtain ⟨m, hm, hmx⟩ := exists_of_mem_right hlowered.methods hx
      refine ⟨?_, hfit.methodInfos x hx⟩
      rw [hmx.attributes.length_eq]
      exact (h₀.methods_storable hfile₀ m hm).2.1
    case attributes => exact Nat.le_trans (h.length_attributes_le h₀) hfile₀.attributes
    case infos => exact hfit.infos

theorem exists_bootstraps (h : ClassLowering True admits c file p zero)
    (hsize : p.bootstrapMethods.size ≤ 0xFFFF) : ∃ bs, p.resolver.bootstraps = .ok bs := by
  refine exists_mapM fun j hj => ?_
  have hlt : j < p.bootstrapMethods.size := List.mem_range.1 hj
  obtain ⟨-, b, -, hb⟩ := h.resolves (Array.getElem?_eq_getElem hlt)
  exact ⟨b, hb _ (by rw [UInt16.toNat_ofNat', Nat.mod_eq_of_lt (by omega)])⟩

theorem exists_methods (h : ClassLowering True r.Admits c file p zero)
    (h₀ : ClassLifted file₀ r c) (hfile₀ : file₀.Fits) (hlengths : c.LengthsFit)
    (hfit : Class.ContentFits file p) :
    ∃ methods, file.methods.mapM (p.resolver.method c.name) = .ok methods
      ∧ List.Forall₂ (fun m n =>
        m.Rewritten n ∧ Method.Settled ⟨p, zero, True, r.Admits⟩ m n) c.methods methods := by
  have hmethods : List.Forall₂ (fun m x => ∃ n,
      (Method.Rewritten m n ∧ Method.Settled ⟨p, zero, True, r.Admits⟩ m n)
        ∧ p.resolver.method c.name x = .ok n) c.methods file.methods := by
    refine forall₂_imp_of_mem h.lowered.methods fun m hm x hx hmx => ?_
    obtain ⟨hm', -, hcode⟩ := h₀.methods_storable hfile₀ m hm
    obtain ⟨n, hn, hrewritten, hsettled⟩ := hmx.exists_method trivial h₀.argumentsFit hm'
      (hlengths.methods m hm) hcode (hfit.methodInfos x hx)
    exact ⟨n, ⟨hrewritten, hsettled⟩, hn⟩
  obtain ⟨methods, hrewritten, hlifted⟩ := exists_between hmethods
  exact ⟨methods, mapM_eq_ok.2 hlifted.flip, hrewritten⟩

theorem exists_lifted_of_methods (h : ClassLowering True admits c file p zero) (hc : c.Storable)
    (hfields : ∀ f ∈ c.fields, f.Storable admits) (hinner : c.innerClasses.length ≤ 0xFFFF)
    (hfit : Class.FileFits file p) {methods : List Method}
    (hmethods : file.methods.mapM (p.resolver.method c.name) = .ok methods) :
    ∃ bs, ClassLifted file p.resolver { c with
      methods, bootstrapMethods := bs, constantPool := some file.constants } := by
  have hlowered := h.lowered
  obtain ⟨attributes, table, hattributes, hclass, htable⟩ := hlowered.attributes
  have hinfos : ∀ a ∈ attributes, a.info.length < 2 ^ 32 := by
    intro a ha
    refine hfit.counts.infos a ?_
    rw [hattributes]
    exact List.mem_append_left _ ha
  obtain ⟨bs, hbs⟩ := h.exists_bootstraps hfit.bootstraps
  refine ⟨bs, ?_⟩
  constructor
  case constants => exact h.constants.symm
  case table => exact h.bootstrapMethods_eq hfit hc.names
  case version => exact hlowered.version.symm
  case accessFlags => exact hlowered.accessFlags.symm
  case name => exact hlowered.thisClass
  case superName => exact optionMapM_of_rel hlowered.superClass fun _ _ h => h
  case interfaces => exact mapM_eq_ok.2 hlowered.interfaces.flip
  case fields =>
    refine mapM_eq_ok.2 (forall₂_imp_of_mem hlowered.fields fun f hf x _ hfx => ?_).flip
    exact hfx.field_eq trivial (hfields f hf)
  case methods => exact hmethods
  case bootstrapMethods => exact hbs
  case constantPool => rfl
  case attributes =>
    -- the table of bootstrap methods comes last and adds nothing to the class
    rw [hattributes]
    refine foldlM_append_eq_ok.2 ⟨_, hclass.foldlM_eq hc hinner hinfos methods, ?_⟩
    refine foldlM_eq_of_forall fun a ha => ?_
    have hname := htable.forall_mem (fun x hx => hx.name) a ha
    exact addToClass_of_classStep _ (.bootstrapMethods hname)

/-- The parts of a class that was parsed are lifted again from the class file it was lowered to. -/
theorem exists_lifted (h : ClassLowering True r.Admits c file p zero)
    (h₀ : ClassLifted file₀ r c) (hfile₀ : file₀.Fits) (hlengths : c.LengthsFit)
    (hfit : Class.ContentFits file p) :
    ∃ d, ClassLifted file p.resolver d ∧ c.Rewritten d
      ∧ List.Forall₂ (Method.Settled ⟨p, zero, True, r.Admits⟩) c.methods d.methods := by
  obtain ⟨methods, hmethods, hrewritten⟩ := h.exists_methods h₀ hfile₀ hlengths hfit
  obtain ⟨bs, hlifted⟩ := h.exists_lifted_of_methods h₀.storable
    (fun f hf => (h₀.fields_storable hfile₀ f hf).1) hlengths.innerClasses
    (h.fileFits h₀ hfile₀ hfit) hmethods
  refine ⟨_, hlifted, ⟨hrewritten.imp fun _ _ h => h.1, ?_, ?_, rfl⟩,
    hrewritten.imp fun _ _ h => h.2⟩
  · refine List.prefix_iff_getElem?.2 fun j hj => ?_
    exact h.bootstrapMethods_of_lifted hlifted h₀.length_bootstrapMethods_le
      (List.getElem?_eq_getElem hj)
  · obtain ⟨cs, hcs⟩ := h.restored.constants
    have hinitial : c.initialPool.constants = file₀.constants := by
      unfold Class.initialPool
      rw [h₀.constantPool]
      rfl
    rw [h₀.constantPool]
    refine .some ⟨cs, ?_⟩
    rw [h.constants, hcs, hinitial]

end ClassLowering

end ClassPatch
