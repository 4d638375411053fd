import ClassPatch.Proofs.Lower.Limits

/-!
Attributes that are carried along as they are. A class without any is lowered to a class file that
is lifted to one without any, since the names of all attributes in it are understood.
-/

namespace ClassPatch

open Resolver

namespace Resolver

variable {r : Resolver} {a : Stored.Attribute}

theorem FieldStep.attributes_eq {f g : Field} (h : FieldStep r f a g)
    (hname : r.Named fieldAttributes a) : g.attributes = f.attributes := by
  cases h with
  | verbatim name hverbatim => exact absurd (hname.mem name) hverbatim
  | _ => rfl

theorem ComponentStep.attributes_eq {c d : RecordComponent} (h : ComponentStep r c a d)
    (hname : r.Named componentAttributes a) : d.attributes = c.attributes := by
  cases h with
  | verbatim name hverbatim => exact absurd (hname.mem name) hverbatim
  | _ => rfl

theorem CodeStep.attributes_eq {t u : Stored.CodeTables} (h : CodeStep r t a u)
    (hname : r.Named codeAttributes a) : u.attributes = t.attributes := by
  cases h with
  | verbatim name hverbatim => exact absurd (hname.mem name) hverbatim
  | _ => rfl

end Resolver

variable {s : Rereading}

theorem FieldLowered.attributes_eq_nil {f g : Field} {x : Stored.Member .field}
    (h : FieldLowered s f x) (hf : f.attributes = []) (hg : s.resolver.field x = .ok g) :
    g.attributes = [] := by
  unfold Resolver.field at hg
  obtain ⟨name, -, hg⟩ := bind_eq_ok.1 hg
  obtain ⟨descriptor, -, hg⟩ := bind_eq_ok.1 hg
  refine foldlM_induction (I := fun g : Field => g.attributes = []) ?_ rfl hg
  intro g a ha g' hnil hstep
  rcases h.attributes.named a ha with hname | ⟨v, hv, -⟩
  · exact ((fieldStep_of_addToField _ hstep).attributes_eq hname).trans hnil
  · rw [hf] at hv
    cases hv

theorem ComponentLowered.attributes_eq_nil {r : Resolver} {c d : RecordComponent}
    {x : Stored.RecordComponent} (h : ComponentLowered r c x) (hc : c.attributes = [])
    (hd : r.recordComponent x = .ok d) : d.attributes = [] := by
  unfold Resolver.recordComponent at hd
  obtain ⟨name, -, hd⟩ := bind_eq_ok.1 hd
  obtain ⟨descriptor, -, hd⟩ := bind_eq_ok.1 hd
  refine foldlM_induction (I := fun d : RecordComponent => d.attributes = []) ?_ rfl hd
  intro d a ha d' hnil hstep
  rcases h.attributes.named a ha with hname | ⟨v, hv, -⟩
  · exact ((componentStep_of_addToComponent _ hstep).attributes_eq hname).trans hnil
  · rw [hc] at hv
    cases hv

theorem Resolver.attributes_of_code {r : Resolver} {context : MethodContext} {x : Stored.Code}
    {c : Code} (h : r.code context x = .ok c) :
    ∃ tables : Stored.CodeTables, x.attributes.foldlM (Stored.CodeTables.add r) {} = .ok tables
      ∧ c.attributes = tables.attributes := by
  unfold Resolver.code at h
  obtain ⟨decoded, -, h⟩ := bind_eq_ok.1 h
  obtain ⟨tables, htables, h⟩ := bind_eq_ok.1 h
  obtain ⟨targets, -, h⟩ := bind_eq_ok.1 h
  obtain ⟨handlerOffsets, -, h⟩ := bind_eq_ok.1 h
  obtain ⟨placed, -, h⟩ := bind_eq_ok.1 h
  obtain ⟨frameOffsets, -, h⟩ := bind_eq_ok.1 h
  obtain ⟨elements, -, h⟩ := bind_eq_ok.1 h
  obtain ⟨handlers, -, h⟩ := bind_eq_ok.1 h
  obtain ⟨lineNumbers, -, h⟩ := bind_eq_ok.1 h
  obtain ⟨localVariables, -, h⟩ := bind_eq_ok.1 h
  obtain ⟨localVariableTypes, -, h⟩ := bind_eq_ok.1 h
  obtain ⟨frames, -, h⟩ := bind_eq_ok.1 h
  obtain rfl := pure_eq_ok.1 h
  exact ⟨tables, htables, rfl⟩

theorem CodeLowered.attributes_eq_nil {context : MethodContext} {c d : Code} {x : Stored.Code}
    (h : CodeLowered s context c x) (hc : c.attributes = []) {context' : MethodContext}
    (hd : s.resolver.code context' x = .ok d) : d.attributes = [] := by
  obtain ⟨elements, assembled, -, -, haround⟩ := h
  obtain ⟨tables, htables, hd⟩ := attributes_of_code hd
  rw [hd]
  refine foldlM_induction (I := fun t : Stored.CodeTables => t.attributes = []) ?_ rfl htables
  intro t a ha t' hnil hstep
  rcases haround.attributes.named a ha with hname | ⟨v, hv, -⟩
  · exact ((codeStep_of_add _ hstep).attributes_eq hname).trans hnil
  · rw [hc] at hv
    cases hv

/-- The method and its code carry no attributes along. -/
def Method.NoVerbatim (m : Method) : Prop := m.attributes = [] ∧ ∀ c ∈ m.code, c.attributes = []

theorem MethodLowered.noVerbatim {owner owner' : BinaryName} {m n : Method}
    {x : Stored.Member .method} (h : MethodLowered s owner m x) (hm : m.NoVerbatim)
    (hhandlers : ∀ c ∈ m.code, c.exceptionHandlers.length ≤ 0xFFFF)
    (hcounts : ∀ c ∈ m.code, c.attributeCount ≤ 0xFFFF)
    (hinfos : ∀ a ∈ x.attributes, a.info.length < 2 ^ 32)
    (hn : s.resolver.method owner' x = .ok n) : n.NoVerbatim := by
  unfold Resolver.method at hn
  obtain ⟨name, -, hn⟩ := bind_eq_ok.1 hn
  obtain ⟨descriptor, -, hn⟩ := bind_eq_ok.1 hn
  obtain ⟨⟨n', code⟩, hfold, hn⟩ := bind_eq_ok.1 hn
  -- Code stays as it is stored until all attributes are taken.
  have hinvariant : n'.attributes = [] ∧ n'.code = none
      ∧ ∀ y ∈ code, ∃ c ∈ m.code, CodeLowered s (m.context owner) c y := by
    refine foldlM_induction (I := fun n : PartialMethod => n.1.attributes = []
      ∧ n.1.code = none ∧ ∀ y ∈ n.2, ∃ c ∈ m.code, CodeLowered s (m.context owner) c y) ?_
      ⟨rfl, rfl, fun _ h => absurd h (Option.not_mem_none _)⟩ hfold
    rintro ⟨n, code⟩ a ha ⟨n', code'⟩ ⟨hnil, hnone, hcode⟩ hstep
    have hnamed := h.attributes.named a ha
    cases methodStep_of_addToMethod _ hstep with
    | verbatim name hverbatim =>
      rcases hnamed with hnamed | ⟨c, -, hstores⟩ | ⟨v, hv, -⟩
      · exact absurd (List.mem_of_mem_erase (hnamed.mem name)) hverbatim
      · rw [hstores.name] at name
        cases name
        exact absurd (by decide) hverbatim
      · rw [hm.1] at hv
        cases hv
    | code name hparse =>
      refine ⟨hnil, hnone, ?_⟩
      rcases hnamed with hnamed | ⟨c, hc, hstores⟩ | ⟨v, hv, -⟩
      · exact absurd (hnamed.mem name) (by decide)
      · obtain ⟨y, hy, hlowered⟩ :=
          parse_code_of_stores hstores (hhandlers c hc) (hcounts c hc) (hinfos a ha)
        rw [hparse] at hy
        cases hy
        intro y' hy'
        rw [← Option.mem_some.1 hy']
        exact ⟨c, hc, hlowered⟩
      · rw [hm.1] at hv
        cases hv
    | _ => exact ⟨hnil, hnone, hcode⟩
  obtain ⟨hnil, hnone, hcode⟩ := hinvariant
  cases code with
  | none =>
    obtain rfl := pure_eq_ok.1 hn
    refine ⟨hnil, ?_⟩
    rw [hnone]
    exact nofun
  | some y =>
    obtain ⟨d, hd, hn⟩ := bind_eq_ok.1 hn
    obtain rfl := pure_eq_ok.1 hn
    obtain ⟨c, hc, hlowered⟩ := hcode y rfl
    refine ⟨hnil, ?_⟩
    intro d' hd'
    cases hd'
    exact hlowered.attributes_eq_nil (hm.2 c hc) hd

namespace Class

theorem hasVerbatimAttributes_eq_false {c : Class} :
    c.hasVerbatimAttributes = false ↔ c.attributes = [] ∧ (∀ f ∈ c.fields, f.attributes = [])
      ∧ (∀ m ∈ c.methods, m.NoVerbatim)
      ∧ ∀ cs ∈ c.recordComponents, ∀ k ∈ cs, k.attributes = [] := by
  unfold hasVerbatimAttributes Method.NoVerbatim
  simp only [Bool.or_eq_false_iff, Bool.not_eq_false', List.isEmpty_iff, List.any_eq_false,
    Option.any_eq_false, Bool.not_eq_true, and_assoc, Option.mem_def]

theorem attributes_names_of_lifted {file : Stored.ClassFile} {r : Resolver} {c : Class}
    (h : ClassLifted file r c) : ∀ v ∈ c.attributes, v.name ∉ Resolver.classAttributes := by
  have hfold := foldlM_induction (I := fun d : Class => ∀ v ∈ d.attributes,
    v.name ∉ Resolver.classAttributes) ?_ (fun _ h => absurd h List.not_mem_nil) h.attributes
  · exact hfold
  intro d a _ d' hI hstep
  cases Resolver.classStep_of_addToClass _ hstep with
  | verbatim name hverbatim =>
    change ∀ v ∈ d.attributes ++ [_], _
    rw [List.forall_mem_append, List.forall_mem_singleton]
    exact ⟨hI, hverbatim⟩
  | _ => exact hI

theorem noVerbatim_of_lowered {wellFormed : Prop} {admits : BootstrapMethod → Prop}
    {c d : Class} {file : Stored.ClassFile} {p : Pool} {zero : p.constants.get? 0 = none}
    (h : ClassLowering wellFormed admits c file p zero) (hd : ClassLifted file p.resolver d)
    (hparts : c.PartsFit) (hfits : FileFits file p) (hc : c.hasVerbatimAttributes = false) :
    d.hasVerbatimAttributes = false := by
  rw [hasVerbatimAttributes_eq_false] at hc ⊢
  obtain ⟨hnil, hfields, hmethods, hcomponents⟩ := hc
  have hlowered := h.lowered
  obtain ⟨attributes, table, heq, hattributes, htable⟩ := hlowered.attributes
  have hmembers : d.attributes = []
      ∧ ∀ cs ∈ d.recordComponents, ∀ k ∈ cs, k.attributes = [] := by
    have hfold := foldlM_induction (I := fun d : Class => d.attributes = []
      ∧ ∀ cs ∈ d.recordComponents, ∀ k ∈ cs, k.attributes = []) ?_
      ⟨rfl, fun _ h => absurd h (Option.not_mem_none _)⟩ hd.attributes
    · exact hfold
    intro d a ha d' hI hstep
    -- a lowered attribute has a name that is lifted, since none is carried verbatim
    have hnamed : p.resolver.Named (Resolver.classAttributes.erase "Record") a
        ∨ ∃ cs ∈ c.recordComponents,
          StoresTable p.resolver .record (List.Forall₂ (ComponentLowered p.resolver)) cs a := by
      rw [heq] at ha
      rcases List.mem_append.1 ha with ha | ha
      · rcases hattributes.named a ha with ⟨name, hmem, hname⟩ | hrecord | ⟨v, hv, -⟩
        · exact .inl ⟨name, List.mem_of_mem_erase hmem, hname⟩
        · exact .inr hrecord
        · rw [hnil] at hv
          cases hv
      · exact .inl (htable.forall_mem (fun x hx => .of_utf8 (by decide) hx.name) a ha)
    cases Resolver.classStep_of_addToClass _ hstep with
    | verbatim name hverbatim =>
      rcases hnamed with hnamed | ⟨cs, -, hstores⟩
      · exact absurd (List.mem_of_mem_erase (hnamed.mem name)) hverbatim
      · rw [hstores.name] at name
        cases name
        exact absurd (by decide) hverbatim
    | record name hparse hds =>
      rcases hnamed with hnamed | ⟨cs, hcs, hstores⟩
      · exact absurd (hnamed.mem name) (by decide)
      · obtain ⟨xs, hxs, hcomponent⟩ := parse_record_of_stores hstores (hparts.components cs hcs)
          (hparts.componentAttributes cs hcs) (hfits.counts.infos a ha)
        rw [hparse] at hxs
        cases hxs
        refine ⟨hI.1, ?_⟩
        intro ds hds' k hk
        rw [← Option.mem_some.1 hds'] at hk
        obtain ⟨x, hx, hlift⟩ := exists_of_mem_mapM hds hk
        obtain ⟨k', hk', hlower⟩ := exists_of_mem_right hcomponent hx
        exact hlower.attributes_eq_nil (hcomponents cs hcs k' hk') hlift
    | _ => exact hI
  refine ⟨hmembers.1, ?_, ?_, hmembers.2⟩
  · intro g hg
    obtain ⟨x, hx, hlift⟩ := exists_of_mem_mapM hd.fields hg
    obtain ⟨f, hf, hlower⟩ := exists_of_mem_right hlowered.fields hx
    exact hlower.attributes_eq_nil (hfields f hf) hlift
  · intro n hn
    obtain ⟨x, hx, hlift⟩ := exists_of_mem_mapM hd.methods hn
    obtain ⟨m, hm, hlower⟩ := exists_of_mem_right hlowered.methods hx
    exact hlower.noVerbatim (hmethods m hm) (hparts.handlers m hm) (hparts.codeAttributes m hm)
      (hfits.counts.methods x hx).infos hlift

end Class

end ClassPatch
