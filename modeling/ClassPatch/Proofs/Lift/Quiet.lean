import ClassPatch.Proofs.Lift.Attribute
import ClassPatch.Proofs.Lower.Quiet

/-!
Members and attributes of a class, read from the constants that a pool knows. Whatever an attribute
sets is lowered without a new constant, since the attribute had the name and the indices that are
needed for it.
-/

namespace ClassPatch

open PoolM (Quiet)

/-- Lowering the annotations adds nothing. -/
structure Annotations.Quiet (p : Pool) (P : Prop) (as : Annotations) : Prop where
  visible : PoolM.Quiet p P (PoolM.unlessEmpty
    (fun as => do AttributeFormat.visibleAnnotations.store (← PoolM.annotations as)) as.visible)
  invisible : PoolM.Quiet p P (PoolM.unlessEmpty
    (fun as => do AttributeFormat.invisibleAnnotations.store (← PoolM.annotations as)) as.invisible)

/-- Lowering the annotations of parameters adds nothing. -/
structure ParameterAnnotations.Quiet (p : Pool) (P : Prop) (as : ParameterAnnotations) : Prop where
  visible : PoolM.Quiet p P (PoolM.ifSome
    (fun as => do AttributeFormat.visibleParameterAnnotations.store (← as.mapM PoolM.annotations))
    as.visible)
  invisible : PoolM.Quiet p P (PoolM.ifSome
    (fun as => do AttributeFormat.invisibleParameterAnnotations.store (← as.mapM PoolM.annotations))
    as.invisible)

/-- Lowering the attributes of the field adds nothing. -/
structure Field.Quiet (p : Pool) (P : Prop) (f : Field) : Prop where
  constantValue : PoolM.Quiet p P (PoolM.ifSome PoolM.constantValueAttribute f.constantValue)
  signature : PoolM.Quiet p P (PoolM.ifSome (PoolM.textAttribute .signature) f.signature)
  annotations : f.annotations.Quiet p P
  attributes : ∀ v ∈ f.attributes, PoolM.Quiet p P (PoolM.verbatim v)

/-- Lowering the attributes of the component adds nothing. -/
structure RecordComponent.Quiet (p : Pool) (P : Prop) (c : RecordComponent) : Prop where
  signature : PoolM.Quiet p P (PoolM.ifSome (PoolM.textAttribute .signature) c.signature)
  annotations : c.annotations.Quiet p P
  attributes : ∀ v ∈ c.attributes, PoolM.Quiet p P (PoolM.verbatim v)

/-- Lowering the attributes of the method adds nothing, but for its code. -/
structure Method.Quiet (p : Pool) (P : Prop) (m : Method) : Prop where
  exceptions : PoolM.Quiet p P (PoolM.unlessEmpty (PoolM.classesAttribute .exceptions) m.exceptions)
  signature : PoolM.Quiet p P (PoolM.ifSome (PoolM.textAttribute .signature) m.signature)
  annotations : m.annotations.Quiet p P
  parameterAnnotations : m.parameterAnnotations.Quiet p P
  annotationDefault : PoolM.Quiet p P (PoolM.ifSome PoolM.defaultAttribute m.annotationDefault)
  attributes : ∀ v ∈ m.attributes, PoolM.Quiet p P (PoolM.verbatim v)

/-- Lowering the attributes of the class adds nothing. -/
structure Class.Quiet (p : Pool) (P : Prop) (r : Resolver) (c : Class) : Prop where
  sourceFile : PoolM.Quiet p P (PoolM.ifSome (PoolM.textAttribute .sourceFile) c.sourceFile)
  signature : PoolM.Quiet p P (PoolM.ifSome (PoolM.textAttribute .signature) c.signature)
  innerClasses : ∀ k ∈ c.innerClasses,
    (∃ i, r.utf8 i = .ok "InnerClasses") ∧ PoolM.Quiet p P (PoolM.innerClass k)
  enclosingMethod : PoolM.Quiet p P (PoolM.ifSome
    (fun e => do AttributeFormat.enclosingMethod.store (← PoolM.enclosingMethod e))
    c.enclosingMethod)
  nestHost : PoolM.Quiet p P (PoolM.ifSome (PoolM.classAttribute .nestHost) c.nestHost)
  nestMembers :
    PoolM.Quiet p P (PoolM.unlessEmpty (PoolM.classesAttribute .nestMembers) c.nestMembers)
  permittedSubclasses : PoolM.Quiet p P
    (PoolM.unlessEmpty (PoolM.classesAttribute .permittedSubclasses) c.permittedSubclasses)
  recordComponents : PoolM.Quiet p P (PoolM.ifSome
    (fun cs => do AttributeFormat.record.store (← cs.mapM PoolM.recordComponent))
    c.recordComponents)
  annotations : c.annotations.Quiet p P
  attributes : ∀ v ∈ c.attributes, PoolM.Quiet p P (PoolM.verbatim v)

section Lowered

variable {p : Pool} {P : Prop}

theorem Annotations.quiet_empty : Quiet p P {} :=
  ⟨.unlessEmpty_nil _, .unlessEmpty_nil _⟩

theorem ParameterAnnotations.quiet_empty : Quiet p P {} :=
  ⟨.ifSome_none _, .ifSome_none _⟩

theorem Annotations.Quiet.attributes {as : Annotations} (h : as.Quiet p P) :
    PoolM.Quiet p P (PoolM.annotationAttributes as) :=
  h.visible.bind fun _ _ => h.invisible.map

theorem ParameterAnnotations.Quiet.attributes {as : ParameterAnnotations} (h : as.Quiet p P) :
    PoolM.Quiet p P (PoolM.parameterAnnotationAttributes as) :=
  h.visible.bind fun _ _ => h.invisible.map

theorem Method.Quiet.around {α : Type} {m : Method} (h : m.Quiet p P)
    {f : List Stored.Attribute → List Stored.Attribute → List Stored.Attribute →
      List Stored.Attribute → List Stored.Attribute → List Stored.Attribute → α} :
    PoolM.Quiet p P (do
      let exceptions ← PoolM.unlessEmpty (PoolM.classesAttribute .exceptions) m.exceptions
      let signature ← PoolM.ifSome (PoolM.textAttribute .signature) m.signature
      let annotations ← PoolM.annotationAttributes m.annotations
      let parameterAnnotations ← PoolM.parameterAnnotationAttributes m.parameterAnnotations
      let annotationDefault ← PoolM.ifSome PoolM.defaultAttribute m.annotationDefault
      let attributes ← m.attributes.mapM PoolM.verbatim
      return f exceptions signature annotations parameterAnnotations annotationDefault attributes) :=
  h.exceptions.bind fun _ _ => h.signature.bind fun _ _ => h.annotations.attributes.bind fun _ _ =>
    h.parameterAnnotations.attributes.bind fun _ _ => h.annotationDefault.bind fun _ _ =>
      (Quiet.mapM h.attributes).map

end Lowered

namespace Pool.Knows

variable {p : Pool} {r : Resolver} {P : Prop} {a : Stored.Attribute}

section Steps

variable (h : p.Knows r r.bootstrapMethods.length)

include h

theorem enclosingMethod {x : Stored.EnclosingMethod} {e : EnclosingMethod}
    (hx : r.enclosingMethod x = .ok e) : PoolM.Repeats p (PoolM.enclosingMethod e) x := by
  obtain ⟨method, hmethod, hx⟩ := bind_eq_ok.1 hx
  obtain ⟨cls, hcls, hx⟩ := bind_eq_ok.1 hx
  obtain rfl := pure_eq_ok.1 hx
  refine (h.className hcls).bind (.bind (.optionMapM hmethod fun {i member} hmember => ?_)
    (.pure p _))
  obtain ⟨⟨name, descriptor⟩, hpair, hmember⟩ := bind_eq_ok.1 hmember
  obtain ⟨name', hname, hmember⟩ := bind_eq_ok.1 hmember
  obtain ⟨descriptor', hdescriptor, hmember⟩ := bind_eq_ok.1 hmember
  obtain rfl := pure_eq_ok.1 hmember
  rw [← text_of_parseUnqualifiedName hname, ← render_of_parseMethodDescriptor hdescriptor] at hpair
  exact h.nameAndType hpair

theorem innerClass {x : Stored.InnerClass} {c : InnerClass} (hx : r.innerClass x = .ok c) :
    PoolM.Repeats p (PoolM.innerClass c) x := by
  obtain ⟨inner, hinner, hx⟩ := bind_eq_ok.1 hx
  obtain ⟨outer, houter, hx⟩ := bind_eq_ok.1 hx
  obtain ⟨name, hname, hx⟩ := bind_eq_ok.1 hx
  obtain rfl := pure_eq_ok.1 hx
  exact (h.className hinner).bind (.bind (.optionMapM houter h.className)
    (.bind (.optionMapM hname h.utf8) (.pure p _)))

theorem quiet_verbatims {vs : List VerbatimAttribute} {text : String} {info : Bytes}
    (hvs : ∀ v ∈ vs, Quiet p P (PoolM.verbatim v)) (hname : r.utf8 a.nameIndex = .ok text) :
    ∀ v ∈ vs ++ [⟨text, info⟩], Quiet p P (PoolM.verbatim v) :=
  List.forall_mem_append.2 ⟨hvs, List.forall_mem_singleton.2 (.of_repeats (h.verbatim hname))⟩

theorem fieldStep (hr : r.RefersBack) {f g : Field} (hf : f.Quiet p P) (hstep : r.FieldStep f a g) :
    g.Quiet p P := by
  cases hstep with
  | visible name has =>
    exact { hf with annotations :=
      { hf.annotations with visible := .unlessEmpty fun _ _ => h.annotationAttribute name has } }
  | invisible name has =>
    exact { hf with annotations :=
      { hf.annotations with invisible := .unlessEmpty fun _ _ => h.annotationAttribute name has } }
  | constantValue name _ hvalue =>
    exact { hf with constantValue := .ifSome_some (.of_repeats
      ((h.loadable_of_all hr hvalue).bind (h.storeTotal name))) }
  | signature name htext =>
    exact { hf with signature := .ifSome_some (h.textAttribute name htext) }
  | verbatim name _ => exact { hf with attributes := h.quiet_verbatims hf.attributes name }

theorem field (hr : r.RefersBack) {x : Stored.Member .field} {f : Field} (hx : r.field x = .ok f) :
    Quiet p P (PoolM.field f) := by
  obtain ⟨name, hname, hx⟩ := bind_eq_ok.1 hx
  obtain ⟨descriptor, hdescriptor, hx⟩ := bind_eq_ok.1 hx
  have hinvariant : f.Quiet p P ∧ f.name = name ∧ f.descriptor = descriptor := by
    refine foldlM_induction (I := fun f : Field =>
      f.Quiet p P ∧ f.name = name ∧ f.descriptor = descriptor) ?_ ?_ hx
    · rintro f a - g ⟨hf, hnames⟩ hstep
      have hstep' := Resolver.fieldStep_of_addToField r hstep
      refine ⟨h.fieldStep hr hf hstep', ?_⟩
      cases hstep' <;> exact hnames
    · exact ⟨⟨.ifSome_none _, .ifSome_none _, Annotations.quiet_empty,
        fun _ hv => absurd hv List.not_mem_nil⟩, rfl, rfl⟩
  obtain ⟨hf, rfl, rfl⟩ := hinvariant
  refine (Quiet.of_repeats (h.unqualifiedName hname)).bind fun _ _ => ?_
  refine (Quiet.of_repeats (h.fieldType hdescriptor)).bind fun _ _ => ?_
  exact hf.constantValue.bind fun _ _ => hf.signature.bind fun _ _ =>
    hf.annotations.attributes.bind fun _ _ => (Quiet.mapM hf.attributes).map

theorem componentStep {c d : RecordComponent} (hc : c.Quiet p P) (hstep : r.ComponentStep c a d) :
    d.Quiet p P := by
  cases hstep with
  | visible name has =>
    exact { hc with annotations :=
      { hc.annotations with visible := .unlessEmpty fun _ _ => h.annotationAttribute name has } }
  | invisible name has =>
    exact { hc with annotations :=
      { hc.annotations with invisible := .unlessEmpty fun _ _ => h.annotationAttribute name has } }
  | signature name htext =>
    exact { hc with signature := .ifSome_some (h.textAttribute name htext) }
  | verbatim name _ => exact { hc with attributes := h.quiet_verbatims hc.attributes name }

theorem recordComponent {x : Stored.RecordComponent} {c : RecordComponent}
    (hx : r.recordComponent x = .ok c) : Quiet p P (PoolM.recordComponent c) := by
  obtain ⟨name, hname, hx⟩ := bind_eq_ok.1 hx
  obtain ⟨descriptor, hdescriptor, hx⟩ := bind_eq_ok.1 hx
  have hinvariant : c.Quiet p P ∧ c.name = name ∧ c.descriptor = descriptor := by
    refine foldlM_induction (I := fun c : RecordComponent =>
      c.Quiet p P ∧ c.name = name ∧ c.descriptor = descriptor) ?_ ?_ hx
    · rintro c a - d ⟨hc, hnames⟩ hstep
      have hstep' := Resolver.componentStep_of_addToComponent r hstep
      refine ⟨h.componentStep hc hstep', ?_⟩
      cases hstep' <;> exact hnames
    · exact ⟨⟨.ifSome_none _, Annotations.quiet_empty, fun _ hv => absurd hv List.not_mem_nil⟩,
        rfl, rfl⟩
  obtain ⟨hc, rfl, rfl⟩ := hinvariant
  refine (Quiet.of_repeats (h.unqualifiedName hname)).bind fun _ _ => ?_
  refine (Quiet.of_repeats (h.fieldType hdescriptor)).bind fun _ _ => ?_
  exact hc.signature.bind fun _ _ => hc.annotations.attributes.bind fun _ _ =>
    (Quiet.mapM hc.attributes).map

theorem methodStep {m n : Method} {code code' : Option Stored.Code} (hm : m.Quiet p P)
    (hstep : r.MethodStep m code a (n, code')) : n.Quiet p P := by
  cases hstep with
  | visible name has =>
    exact { hm with annotations :=
      { hm.annotations with visible := .unlessEmpty fun _ _ => h.annotationAttribute name has } }
  | invisible name has =>
    exact { hm with annotations :=
      { hm.annotations with invisible := .unlessEmpty fun _ _ => h.annotationAttribute name has } }
  | visibleParameters name hass =>
    exact { hm with parameterAnnotations := { hm.parameterAnnotations with
      visible := .ifSome_some (h.parameterAnnotationAttribute name hass) } }
  | invisibleParameters name hass =>
    exact { hm with parameterAnnotations := { hm.parameterAnnotations with
      invisible := .ifSome_some (h.parameterAnnotationAttribute name hass) } }
  | code name _ => exact hm
  | exceptions name hnames =>
    exact { hm with exceptions := .unlessEmpty fun _ _ => h.classesAttribute name hnames }
  | signature name htext =>
    exact { hm with signature := .ifSome_some (h.textAttribute name htext) }
  | annotationDefault name _ hvalue =>
    exact { hm with annotationDefault := .ifSome_some (.of_repeats
      ((elementValue h _ hvalue).bind (h.storeTotal name))) }
  | verbatim name _ => exact { hm with attributes := h.quiet_verbatims hm.attributes name }

theorem method {owner : BinaryName} {x : Stored.Member .method} {m : Method}
    (hx : r.method owner x = .ok m)
    (hcode : Quiet p P (PoolM.ifSome (PoolM.codeAttribute (m.context owner)) m.code)) :
    Quiet p P (PoolM.method owner m) := by
  obtain ⟨name, hname, hx⟩ := bind_eq_ok.1 hx
  obtain ⟨descriptor, hdescriptor, hx⟩ := bind_eq_ok.1 hx
  obtain ⟨⟨n, code⟩, hfold, hx⟩ := bind_eq_ok.1 hx
  have hinvariant : n.Quiet p P ∧ n.name = name ∧ n.descriptor = descriptor := by
    refine foldlM_induction (I := fun n : Resolver.PartialMethod =>
      n.1.Quiet p P ∧ n.1.name = name ∧ n.1.descriptor = descriptor) ?_ ?_ hfold
    · rintro ⟨m, code⟩ a - ⟨n, code'⟩ ⟨hm, hnames⟩ hstep
      have hstep' := Resolver.methodStep_of_addToMethod r hstep
      refine ⟨h.methodStep hm hstep', ?_⟩
      cases hstep' <;> exact hnames
    · exact ⟨⟨.unlessEmpty_nil _, .ifSome_none _, Annotations.quiet_empty,
        ParameterAnnotations.quiet_empty, .ifSome_none _, fun _ hv => absurd hv List.not_mem_nil⟩,
        rfl, rfl⟩
  obtain ⟨hn, rfl, rfl⟩ := hinvariant
  have hm : m.Quiet p P ∧ m.name = n.name ∧ m.descriptor = n.descriptor := by
    cases code with
    | none =>
      obtain rfl := pure_eq_ok.1 hx
      exact ⟨hn, rfl, rfl⟩
    | some y =>
      obtain ⟨c, -, hx⟩ := bind_eq_ok.1 hx
      obtain rfl := pure_eq_ok.1 hx
      exact ⟨{ hn with }, rfl, rfl⟩
  obtain ⟨hm, hsame, hsame'⟩ := hm
  rw [← hsame] at hname
  rw [← hsame'] at hdescriptor
  refine (Quiet.of_repeats (h.unqualifiedName hname)).bind fun _ _ => ?_
  refine (Quiet.of_repeats (h.methodDescriptor hdescriptor)).bind fun _ _ => ?_
  exact hcode.bind fun _ _ => hm.around

theorem classStep {c d : Class} (hc : c.Quiet p P r) (hstep : r.ClassStep c a d) :
    d.Quiet p P r := by
  cases hstep with
  | visible name has =>
    exact { hc with annotations :=
      { hc.annotations with visible := .unlessEmpty fun _ _ => h.annotationAttribute name has } }
  | invisible name has =>
    exact { hc with annotations :=
      { hc.annotations with invisible := .unlessEmpty fun _ _ => h.annotationAttribute name has } }
  | bootstrapMethods name => exact hc
  | sourceFile name htext =>
    exact { hc with sourceFile := .ifSome_some (h.textAttribute name htext) }
  | signature name htext =>
    exact { hc with signature := .ifSome_some (h.textAttribute name htext) }
  | innerClasses name _ hcs =>
    refine { hc with innerClasses := List.forall_mem_append.2 ⟨hc.innerClasses, fun k hk => ?_⟩ }
    obtain ⟨x, -, hx⟩ := exists_of_mem_mapM hcs hk
    exact ⟨⟨_, name⟩, .of_repeats (h.innerClass hx)⟩
  | enclosingMethod name _ he =>
    exact { hc with enclosingMethod := .ifSome_some (.of_repeats
      ((h.enclosingMethod he).bind (h.storeTotal name))) }
  | nestHost name _ hhost => exact { hc with nestHost := .ifSome_some (h.classAttribute name hhost) }
  | nestMembers name hnames =>
    exact { hc with nestMembers := .unlessEmpty fun _ _ => h.classesAttribute name hnames }
  | permittedSubclasses name hnames =>
    exact { hc with permittedSubclasses := .unlessEmpty fun _ _ => h.classesAttribute name hnames }
  | record name _ hcs =>
    refine { hc with recordComponents := .ifSome_some (Quiet.bind (.mapM fun k hk => ?_)
      fun _ _ => .of_repeats (h.storeTotal name)) }
    obtain ⟨x, -, hx⟩ := exists_of_mem_mapM hcs hk
    exact h.recordComponent hx
  | verbatim name _ => exact { hc with attributes := h.quiet_verbatims hc.attributes name }

theorem classAttributes {c : Class} (hc : c.Quiet p P r) : Quiet p P (PoolM.classAttributes c) := by
  have hinner : Quiet p P (PoolM.unlessEmpty
      (fun cs => do AttributeFormat.innerClasses.store (← cs.mapM PoolM.innerClass))
      c.innerClasses) := by
    refine .unlessEmpty fun k hk => ?_
    obtain ⟨⟨i, hi⟩, -⟩ := hc.innerClasses k hk
    exact Quiet.bind (.mapM fun k hk => (hc.innerClasses k hk).2)
      fun _ _ => .of_repeats (h.storeTotal hi)
  exact hc.sourceFile.bind fun _ _ => hc.signature.bind fun _ _ => hinner.bind fun _ _ =>
    hc.enclosingMethod.bind fun _ _ => hc.nestHost.bind fun _ _ => hc.nestMembers.bind fun _ _ =>
      hc.permittedSubclasses.bind fun _ _ => hc.recordComponents.bind fun _ _ =>
        hc.annotations.attributes.bind fun _ _ => (Quiet.mapM hc.attributes).map

end Steps

end Pool.Knows

end ClassPatch
