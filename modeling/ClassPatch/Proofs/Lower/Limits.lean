import ClassPatch.Proofs.Lift.Class
import ClassPatch.Proofs.Lower.Fits

/-!
The limits of class files, and what is parsed from the bytes of a class that keeps them: the class
file that the class was lowered to.
-/

namespace ClassPatch

namespace Class

/-- Code and components of records can be counted where attributes hold them. -/
structure PartsFit (c : Class) : Prop where
  handlers : ∀ m ∈ c.methods, ∀ code ∈ m.code, code.exceptionHandlers.length ≤ 0xFFFF
  codeAttributes : ∀ m ∈ c.methods, ∀ code ∈ m.code, code.attributeCount ≤ 0xFFFF
  components : ∀ cs ∈ c.recordComponents, cs.length ≤ 0xFFFF
  componentAttributes : ∀ cs ∈ c.recordComponents, ∀ k ∈ cs, k.attributeCount ≤ 0xFFFF

/-- A class file, with the pool that it was lowered with, has no part that cannot be counted. -/
structure FileFits (file : Stored.ClassFile) (p : Pool) : Prop where
  counts : file.Fits
  texts : ∀ k ∈ file.constants.elements, k.Fits
  bootstraps : p.bootstrapMethods.size ≤ 0xFFFF
  arguments : ∀ e ∈ p.bootstrapMethods.toList, e.arguments.length ≤ 0xFFFF

/-- No length field of the format is exceeded when the class is lowered. -/
structure WithinLimits (c : Class) : Prop where
  parts : c.PartsFit
  lowered : ∀ file p, (PoolM.classFile c).run c.initialPool = (.ok file, p) → FileFits file p

theorem toBytes_eq_ok {c : Class} {bytes : Bytes} (h : c.toBytes = .ok bytes) :
    ∃ file p, (PoolM.classFile c).run c.initialPool = (.ok file, p) ∧ bytes = file.write := by
  unfold toBytes at h
  obtain ⟨file, hfile, h⟩ := bind_eq_ok.1 h
  obtain rfl := pure_eq_ok.1 h
  exact ⟨file, _, Prod.ext hfile rfl, rfl⟩

theorem toBytes_of_run {c : Class} {file : Stored.ClassFile} {p : Pool}
    (h : (PoolM.classFile c).run c.initialPool = (.ok file, p)) : c.toBytes = .ok file.write := by
  unfold toBytes toClassFile
  rw [h]
  rfl

/-- The constants that a class was read with are those of a class file, with room for more. -/
def PoolFits (c : Class) : Prop := ∀ t ∈ c.constantPool, t.Dense ∧ t.next ≤ 0xFFFF

theorem dense_initialPool {c : Class} (h : c.PoolFits) : c.initialPool.constants.Dense := by
  unfold initialPool
  split
  next t ht => exact (h t ht).1
  next => exact ConstantTable.dense_append []

theorem valid_initialPool {c : Class} (h : c.PoolFits) : c.initialPool.Valid := by
  unfold initialPool
  split
  next t ht =>
    obtain ⟨hdense, hnext⟩ := h t ht
    exact Pool.valid_ofTable hdense.ordered hdense.start_eq hnext
  next => exact Pool.valid_empty

theorem bootstrapMethods_initialPool (c : Class) : c.initialPool.bootstrapMethods = #[] := by
  unfold initialPool
  split <;> rfl

theorem bootstrapIndices_initialPool (c : Class) (e : BootstrapEntry) :
    c.initialPool.bootstrapIndices[e]? = none := by
  unfold initialPool
  split <;> exact Std.HashMap.getElem?_empty

end Class

/-- What a run of lowering gives, once all that it added is known. -/
structure ClassLowering (wellFormed : Prop) (admits : BootstrapMethod → Prop) (c : Class)
    (file : Stored.ClassFile) (p : Pool) (zero : p.constants.get? 0 = none) : Prop where
  restored : p.Restored ⟨p, zero, True, admits⟩ ⟨p, zero, wellFormed, admits⟩
    c.initialPool.constants c.bootstrapMethods c.bootstrapMethods.length
  constants : file.constants = p.constants
  retains : p.Retains p
  lowered : ClassLowered ⟨p, zero, wellFormed, admits⟩ c p.bootstrapMethods.toList file

variable {wellFormed : Prop} {admits : BootstrapMethod → Prop} {c : Class}
  {file : Stored.ClassFile} {p : Pool}

/-- Lowering gives what is resolved by the constants that it ends with. -/
theorem classLowering_of_run (hpool : c.PoolFits)
    (hbootstraps : ∀ b ∈ c.bootstrapMethods, b.WellFormed admits)
    (hlength : c.bootstrapMethods.length ≤ 0xFFFF)
    (hfields : wellFormed → ∀ f ∈ c.fields, f.ConstantsWellFormed admits)
    (hmethods : wellFormed → ∀ m ∈ c.methods, m.ConstantsWellFormed admits)
    (hrun : (PoolM.classFile c).run c.initialPool = (.ok file, p))
    (hsize : p.bootstrapMethods.size ≤ 0xFFFF) :
    ∃ zero, ClassLowering wellFormed admits c file p zero := by
  have hvalid := Class.valid_initialPool hpool
  have hempty := c.bootstrapMethods_initialPool
  have hnone := c.bootstrapIndices_initialPool
  -- Index 0 is free whatever the resolver is, so a first look may use any.
  have hblank := PoolM.run_classFile .blank (s := .blank) (fun _ _ h => h)
    (fun h => h.elim) hlength (fun h => h.elim) (fun h => h.elim) hvalid hempty hnone hrun
  have hp := hblank.1.valid
  have hretains := hp.retains hsize
  refine ⟨hp.get?_zero, ?_⟩
  let s : Rereading := ⟨p, hp.get?_zero, wellFormed, admits⟩
  obtain ⟨hrestored, hconstants, hlowered⟩ := PoolM.run_classFile
    ⟨p, hp.get?_zero, True, admits⟩ (s := s) (fun _ _ h _ => h trivial)
    (fun _ => hbootstraps) hlength hfields hmethods hvalid hempty hnone hrun
  exact ⟨hrestored, hconstants, hretains, hlowered hretains⟩

theorem ClassLifted.getElem?_bootstrapMethods {s : Rereading} {d : Class}
    (hd : ClassLifted file s.resolver d) {j : Nat} (hj : j ≤ 0xFFFF) {e : BootstrapEntry}
    {b : BootstrapMethod} (he : s.pool.bootstrapMethods[j]? = some e)
    (hresolves : s.Resolves e b) : d.bootstrapMethods[j]? = some b := by
  obtain ⟨hhandle, harguments⟩ := hresolves
  have hnat : (UInt16.ofNat j).toNat = j := by
    rw [UInt16.toNat_ofNat', Nat.mod_eq_of_lt (by omega)]
  have hentry : s.resolver.bootstrapMethods[j]? = some ⟨e.handle, e.arguments⟩ := by
    change s.pool.bootstrapMethods.toList[j]? = some e
    rw [Array.getElem?_toList]
    exact he
  have hlt : j < s.resolver.bootstrapMethods.length := (List.getElem?_eq_some_iff.1 hentry).1
  rw [← hnat] at hentry
  have hresolved : s.resolver.bootstrap (UInt16.ofNat j) = .ok b :=
    Resolver.bootstrapMethod_of_getElem? hentry hhandle harguments
  have hforall := mapM_eq_ok.1 hd.bootstrapMethods
  have hlt' : j < d.bootstrapMethods.length := by
    rw [hd.length_bootstrapMethods]
    exact hlt
  have hget := hforall.get (i := j) (by rw [List.length_range]; exact hlt) hlt'
  rw [List.get_eq_getElem, List.get_eq_getElem, List.getElem_range, hresolved] at hget
  injection hget with hget
  rw [hget]
  exact List.getElem?_eq_getElem hlt'

namespace ClassLowering

variable {zero : p.constants.get? 0 = none}

theorem dense (h : ClassLowering wellFormed admits c file p zero) (hpool : c.PoolFits) :
    file.constants.Dense := by
  obtain ⟨cs, hcs⟩ := h.restored.constants
  rw [h.constants, hcs]
  exact (Class.dense_initialPool hpool).append cs

theorem superClass_ne (h : ClassLowering wellFormed admits c file p zero) :
    file.superClass ≠ some 0 :=
  Resolver.ne_some_zero h.lowered.superClass fun _ _ => Resolver.className_ne_zero zero

theorem parse_write (h : ClassLowering wellFormed admits c file p zero) (hpool : c.PoolFits)
    (hfits : Class.FileFits file p) : Stored.ClassFile.parse file.write = .ok file := by
  have hconstants : file.constants.Fits := {
    dense := h.dense hpool
    next_le := by
      rw [h.constants]
      exact h.restored.valid.next_le
    constants := hfits.texts }
  exact Stored.ClassFile.parse_write hfits.counts hconstants h.superClass_ne

theorem bootstrapMethods_eq (h : ClassLowering wellFormed admits c file p zero)
    (hfits : Class.FileFits file p)
    (hnames : ∀ v ∈ c.attributes, v.name ∉ Resolver.classAttributes) :
    file.bootstrapMethods = .ok p.bootstrapMethods.toList := by
  obtain ⟨attributes, table, heq, hattributes, htable⟩ := h.lowered.attributes
  have hutf8 : file.constants.utf8 = p.resolver.utf8 := by
    rw [h.constants]
    rfl
  -- no other attribute is taken for the table of bootstrap methods
  have hother : ∀ x ∈ attributes, ∃ name, p.resolver.utf8 x.nameIndex = .ok name
      ∧ name ≠ "BootstrapMethods" := by
    intro x hx
    rcases hattributes.named x hx with ⟨name, hmem, hname⟩ | ⟨cs, -, hstores⟩ | ⟨v, hv, hcarries⟩
    · refine ⟨name, hname, ?_⟩
      intro heq
      rw [heq] at hmem
      exact absurd hmem (by decide)
    · exact ⟨"Record", hstores.name, by decide⟩
    · refine ⟨v.name, hcarries.name, ?_⟩
      intro heq
      exact hnames v hv (by rw [heq]; decide)
  unfold Stored.ClassFile.bootstrapMethods
  rw [heq, hutf8]
  refine foldlM_append_eq_ok.2 ⟨[], foldlM_eq_of_forall ?_, ?_⟩
  · intro x hx
    obtain ⟨name, hname, hne⟩ := hother x hx
    rw [hname, ok_bind, if_neg hne]
    rfl
  · have hsize : p.bootstrapMethods.toList.length ≤ 0xFFFF := hfits.bootstraps
    have harguments := hfits.arguments
    generalize p.bootstrapMethods.toList = bootstraps at htable hsize harguments
    cases htable with
    | nil => rfl
    | cons hstores =>
      obtain ⟨entries, hwrite, rfl⟩ := hstores.content
      have hread := AttributeFormat.readsBack_bootstrapMethods hsize harguments _ hwrite
      have hname : AttributeFormat.bootstrapMethods.name = "BootstrapMethods" := rfl
      rw [List.foldlM_cons, hstores.name, ok_bind, if_pos hname, hread]
      rfl

theorem lifted_of_parse (h : ClassLowering wellFormed admits c file p zero) (hpool : c.PoolFits)
    (hfits : Class.FileFits file p)
    (hnames : ∀ v ∈ c.attributes, v.name ∉ Resolver.classAttributes) {d : Class}
    (hd : Class.parse file.write = .ok d) : ClassLifted file p.resolver d := by
  rw [Class.parse, h.parse_write hpool hfits, ok_bind] at hd
  obtain ⟨r, hlifted⟩ := Class.lifted_of_ofClassFile hd
  have hr : r = p.resolver := by
    obtain ⟨constants, bootstraps⟩ := r
    have hconstants := hlifted.constants.trans h.constants
    have htable := hlifted.table
    rw [h.bootstrapMethods_eq hfits hnames] at htable
    cases hconstants
    cases htable
    rfl
  rw [← hr]
  exact hlifted

theorem bootstrapMethods_of_lifted (h : ClassLowering wellFormed admits c file p zero)
    {d : Class} (hd : ClassLifted file p.resolver d) (hlength : c.bootstrapMethods.length ≤ 0xFFFF)
    {j : Nat} {b : BootstrapMethod} (hb : c.bootstrapMethods[j]? = some b) :
    d.bootstrapMethods[j]? = some b := by
  have hlt := (List.getElem?_eq_some_iff.1 hb).1
  obtain ⟨e, b', he, hb', hresolves⟩ := h.restored.resolves trivial h.retains j hlt
  rw [hb] at hb'
  cases hb'
  exact hd.getElem?_bootstrapMethods (by omega) he hresolves

end ClassLowering

end ClassPatch
