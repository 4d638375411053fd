import ClassPatch.Proofs.Lift.Class
import ClassPatch.Proofs.Lift.Code
import ClassPatch.Proofs.Lower.Fits

/-!
Parts of a class that were lifted can be stored again: their lists fit the fields that count them,
and no attribute that is carried along has a name whose content is understood.
-/

namespace ClassPatch

structure Annotations.Fit (as : Annotations) : Prop where
  visible : AnnotationTree.ListFits as.visible
  invisible : AnnotationTree.ListFits as.invisible

/-- The lists of annotations, one for each parameter, can be counted. -/
def AnnotationTree.ListsFit {Leaf Text : Type} (ass : List (List (AnnotationTree Leaf Text))) :
    Prop :=
  ass.length ≤ 0xFF ∧ ∀ as ∈ ass, ListFits as

structure ParameterAnnotations.Fit (as : ParameterAnnotations) : Prop where
  visible : ∀ ass ∈ as.visible, AnnotationTree.ListsFit ass
  invisible : ∀ ass ∈ as.invisible, AnnotationTree.ListsFit ass

theorem Annotations.fit_empty : Fit {} :=
  ⟨⟨Nat.zero_le _, fun _ h => absurd h List.not_mem_nil⟩,
    ⟨Nat.zero_le _, fun _ h => absurd h List.not_mem_nil⟩⟩

theorem ParameterAnnotations.fit_empty : Fit {} :=
  ⟨fun _ h => absurd h (Option.not_mem_none _), fun _ h => absurd h (Option.not_mem_none _)⟩

namespace Resolver

variable {r : Resolver} {name : String} {info : Bytes}

theorem listFits_of_annotations {xs : List Stored.Annotation} {as : List Annotation}
    (h : r.annotations xs = .ok as) (hxs : xs.length ≤ 0xFFFF ∧ ∀ x ∈ xs, x.Fits) :
    AnnotationTree.ListFits as := by
  obtain ⟨hlength, hiff⟩ := fits_iff_of_annotations h
  exact ⟨hlength ▸ hxs.1, hiff.2 hxs.2⟩

theorem listFits_of_annotationAttribute {as : List Annotation}
    (h : r.annotationAttribute (.annotations name) info = .ok as) :
    AnnotationTree.ListFits as := by
  unfold annotationAttribute at h
  obtain ⟨xs, hxs, h⟩ := bind_eq_ok.1 h
  exact listFits_of_annotations h (AttributeFormat.fit_of_parse_annotations hxs)

theorem listsFit_of_parameterAnnotationAttribute {ass : List (List Annotation)}
    (h : r.parameterAnnotationAttribute (.parameterAnnotations name) info = .ok ass) :
    AnnotationTree.ListsFit ass := by
  unfold parameterAnnotationAttribute at h
  obtain ⟨xss, hxss, h⟩ := bind_eq_ok.1 h
  obtain ⟨hlength, hfit⟩ := AttributeFormat.fit_of_parse_parameterAnnotations hxss
  refine ⟨length_of_mapM h ▸ hlength, ?_⟩
  intro as has
  obtain ⟨xs, hxs, hlifted⟩ := exists_of_mem_mapM h has
  exact listFits_of_annotations hlifted (hfit xs hxs)

theorem length_of_classNames {names : List BinaryName}
    (h : r.classNames (.indices name) info = .ok names) : names.length ≤ 0xFFFF := by
  unfold classNames at h
  obtain ⟨is, his, h⟩ := bind_eq_ok.1 h
  rw [length_of_mapM h]
  exact AttributeFormat.length_of_parse_indices his

end Resolver

theorem forall_names_append {names : List String} {vs : List VerbatimAttribute} {text : String}
    {info : Bytes} (h : ∀ v ∈ vs, v.name ∉ names) (htext : text ∉ names) :
    ∀ v ∈ vs ++ [⟨text, info⟩], v.name ∉ names := by
  rw [List.forall_mem_append, List.forall_mem_singleton]
  exact ⟨h, htext⟩

/-- The field can be stored, and its constants can be read from a class file. -/
structure Field.Storable (admits : BootstrapMethod → Prop) (f : Field) : Prop where
  constants : f.ConstantsWellFormed admits
  annotations : f.annotations.Fit
  names : ∀ v ∈ f.attributes, v.name ∉ Resolver.fieldAttributes

section Field

variable {r : Resolver} {f g : Field} {a : Stored.Attribute}

theorem Resolver.FieldStep.attributeCount_le (h : r.FieldStep f a g) :
    g.attributeCount ≤ f.attributeCount + 1 := by
  have hle (b : Bool) : b.toNat ≤ 1 := b.toNat_le
  unfold Field.attributeCount Annotations.attributeCount
  cases h with
  | @visible as =>
    have := hle (!as.isEmpty)
    dsimp only
    omega
  | @invisible as =>
    have := hle (!as.isEmpty)
    dsimp only
    omega
  | constantValue =>
    dsimp only [Option.isSome_some, Bool.toNat_true]
    omega
  | signature =>
    dsimp only [Option.isSome_some, Bool.toNat_true]
    omega
  | verbatim =>
    rw [List.length_append]
    exact Nat.le_refl _

theorem Resolver.FieldStep.storable (hr : r.ArgumentsFit) (hf : f.Storable r.Admits)
    (h : r.FieldStep f a g) : g.Storable r.Admits := by
  cases h with
  | visible name h =>
    exact { hf with annotations := ⟨listFits_of_annotationAttribute h, hf.annotations.invisible⟩ }
  | invisible name h =>
    exact { hf with annotations := ⟨hf.annotations.visible, listFits_of_annotationAttribute h⟩ }
  | constantValue name h hvalue =>
    refine ⟨?_, hf.annotations, hf.names⟩
    intro c hc
    rw [← Option.mem_some.1 hc]
    exact wellFormed_of_loadableWithin hr hvalue
  | signature name h => exact ⟨hf.constants, hf.annotations, hf.names⟩
  | verbatim name h => exact ⟨hf.constants, hf.annotations, forall_names_append hf.names h⟩

theorem Field.storable_of_field {x : Stored.Member .field} (hr : r.ArgumentsFit) (hx : x.Fits)
    (h : r.field x = .ok f) : f.Storable r.Admits ∧ f.attributeCount ≤ 0xFFFF := by
  unfold Resolver.field at h
  obtain ⟨name, -, h⟩ := bind_eq_ok.1 h
  obtain ⟨descriptor, -, h⟩ := bind_eq_ok.1 h
  constructor
  · refine foldlM_induction (I := Field.Storable r.Admits) ?_ ?_ h
    · exact fun f a _ g hf hstep => (Resolver.fieldStep_of_addToField r hstep).storable hr hf
    · exact ⟨fun _ h => absurd h (Option.not_mem_none _), Annotations.fit_empty,
        fun _ h => absurd h List.not_mem_nil⟩
  · have hcount := foldlM_size_le (fun f a g hstep =>
      (Resolver.fieldStep_of_addToField r hstep).attributeCount_le) h
    have hlength := hx.attributes
    change f.attributeCount ≤ 0 + x.attributes.length at hcount
    omega

end Field

/-- The component can be stored. -/
structure RecordComponent.Storable (c : RecordComponent) : Prop where
  annotations : c.annotations.Fit
  names : ∀ v ∈ c.attributes, v.name ∉ Resolver.componentAttributes

section Component

variable {r : Resolver} {c d : RecordComponent} {a : Stored.Attribute}

theorem Resolver.ComponentStep.attributeCount_le (h : r.ComponentStep c a d) :
    d.attributeCount ≤ c.attributeCount + 1 := by
  have hle (b : Bool) : b.toNat ≤ 1 := b.toNat_le
  unfold RecordComponent.attributeCount Annotations.attributeCount
  cases h with
  | @visible as =>
    have := hle (!as.isEmpty)
    dsimp only
    omega
  | @invisible as =>
    have := hle (!as.isEmpty)
    dsimp only
    omega
  | signature =>
    dsimp only [Option.isSome_some, Bool.toNat_true]
    omega
  | verbatim =>
    rw [List.length_append]
    exact Nat.le_refl _

theorem Resolver.ComponentStep.storable (hc : c.Storable) (h : r.ComponentStep c a d) :
    d.Storable := by
  cases h with
  | visible name h =>
    exact { hc with annotations := ⟨listFits_of_annotationAttribute h, hc.annotations.invisible⟩ }
  | invisible name h =>
    exact { hc with annotations := ⟨hc.annotations.visible, listFits_of_annotationAttribute h⟩ }
  | signature name h => exact ⟨hc.annotations, hc.names⟩
  | verbatim name h => exact ⟨hc.annotations, forall_names_append hc.names h⟩

theorem RecordComponent.storable_of_recordComponent {x : Stored.RecordComponent} (hx : x.Fits)
    (h : r.recordComponent x = .ok c) : c.Storable ∧ c.attributeCount ≤ 0xFFFF := by
  unfold Resolver.recordComponent at h
  obtain ⟨name, -, h⟩ := bind_eq_ok.1 h
  obtain ⟨descriptor, -, h⟩ := bind_eq_ok.1 h
  constructor
  · refine foldlM_induction (I := RecordComponent.Storable) ?_ ?_ h
    · exact fun c a _ d hc hstep =>
        (Resolver.componentStep_of_addToComponent r hstep).storable hc
    · exact ⟨Annotations.fit_empty, fun _ h => absurd h List.not_mem_nil⟩
  · have hcount := foldlM_size_le (fun c a d hstep =>
      (Resolver.componentStep_of_addToComponent r hstep).attributeCount_le) h
    have hlength := hx.attributes
    change c.attributeCount ≤ 0 + x.attributes.length at hcount
    omega

end Component

section Code

/-- Attributes that the tables are lowered to. -/
def Stored.CodeTables.attributeCount (t : Stored.CodeTables) : Nat :=
  (!t.lineNumbers.isEmpty).toNat + (!t.localVariables.isEmpty).toNat
    + (!t.localVariableTypes.isEmpty).toNat + (!t.frames.isEmpty).toNat + t.attributes.length

variable {r : Resolver} {context : MethodContext} {x : Stored.Code} {c : Code}

theorem Resolver.CodeStep.attributeCount_le {t u : Stored.CodeTables} {a : Stored.Attribute}
    (h : r.CodeStep t a u) : u.attributeCount ≤ t.attributeCount + 1 := by
  have hle (b : Bool) : b.toNat ≤ 1 := b.toNat_le
  unfold Stored.CodeTables.attributeCount
  cases h with
  | @lineNumbers ls =>
    have := hle (!(t.lineNumbers ++ ls).isEmpty)
    dsimp only
    omega
  | @localVariables vs =>
    have := hle (!(t.localVariables ++ vs).isEmpty)
    dsimp only
    omega
  | @localVariableTypes vs =>
    have := hle (!(t.localVariableTypes ++ vs).isEmpty)
    dsimp only
    omega
  | @frames fs =>
    have := hle (!fs.isEmpty)
    dsimp only
    omega
  | verbatim =>
    rw [List.length_append]
    exact Nat.le_refl _

theorem Resolver.wellFormed_of_instruction {i : SymbolicInstruction} {y : StoredInstruction}
    (hr : r.ArgumentsFit) (h : r.instruction y = .ok i) :
    SymbolicInstruction.WellFormed r.Admits i := by
  unfold instruction at h
  cases y with
  | ldc index =>
    obtain ⟨constant, hconstant, h⟩ := bind_eq_ok.1 h
    rw [← pure_eq_ok.1 h]
    exact wellFormed_of_loadableWithin hr hconstant
  | ldc2 index =>
    obtain ⟨constant, hconstant, h⟩ := bind_eq_ok.1 h
    rw [← pure_eq_ok.1 h]
    exact wellFormed_of_loadableWithin hr hconstant
  | invokeDynamic index =>
    obtain ⟨site, hsite, h⟩ := bind_eq_ok.1 h
    rw [← pure_eq_ok.1 h]
    exact wellFormed_of_callSite hr hsite
  | onField access index =>
    obtain ⟨f, -, h⟩ := bind_eq_ok.1 h
    rw [← pure_eq_ok.1 h]
    trivial
  | invoke kind index =>
    obtain ⟨m, -, h⟩ := bind_eq_ok.1 h
    rw [← pure_eq_ok.1 h]
    trivial
  | onClass op index =>
    obtain ⟨t, -, h⟩ := bind_eq_ok.1 h
    rw [← pure_eq_ok.1 h]
    trivial
  | multiNewArray index n =>
    obtain ⟨t, -, h⟩ := bind_eq_ok.1 h
    rw [← pure_eq_ok.1 h]
    trivial
  | _ =>
    rw [← pure_eq_ok.1 h]
    trivial

namespace CodeLifted

variable {p : CodeParts}

theorem wellFormed (h : CodeLifted r context x p c) (hr : r.ArgumentsFit) :
    ∀ e ∈ c.elements, BodyElement.WellFormed r.Admits e := by
  obtain ⟨body, hbody, helements⟩ := h.elements
  intro e he
  rw [helements] at he
  have hlabel {offset : Nat} (he : e ∈ labelElement p.labels offset) :
      BodyElement.WellFormed r.Admits e := by
    obtain ⟨k, rfl⟩ := eq_label_of_mem he
    trivial
  rcases List.mem_append.1 he with he | he
  · obtain ⟨es, hes, he⟩ := List.mem_flatten.1 he
    obtain ⟨⟨offset, d⟩, -, hlifted⟩ := exists_of_mem_mapM hbody hes
    obtain ⟨e', he', rfl⟩ := elementLifted_of_bodyElement hlifted
    rcases List.mem_append.1 he with he | he
    · exact hlabel he
    · rw [List.mem_singleton.1 he]
      cases he' with
      | instruction hi => exact Resolver.wellFormed_of_instruction hr hi
      | branch => trivial
  · exact hlabel he

theorem length_exceptionHandlers (h : CodeLifted r context x p c) :
    c.exceptionHandlers.length = x.exceptionTable.length :=
  length_of_mapM h.exceptionHandlers

theorem toNat_isEmpty_le {α β : Type} {as : List α} {bs : List β} (h : as.length ≤ bs.length) :
    (!as.isEmpty).toNat ≤ (!bs.isEmpty).toNat := by
  cases as with
  | nil => exact Nat.zero_le _
  | cons a as =>
    cases bs with
    | nil => cases h
    | cons b bs => exact Nat.le_refl _

theorem attributeCount_le (h : CodeLifted r context x p c) :
    c.attributeCount ≤ x.attributes.length := by
  have hcount := foldlM_size_le (fun t a u hstep =>
    (Resolver.codeStep_of_add r hstep).attributeCount_le) h.tables
  have hlines : c.lineNumbers.length ≤ p.tables.lineNumbers.length := by
    rw [length_of_mapM h.lineNumbers]
    exact List.length_filter_le _ _
  have hlocals : c.localVariables.length ≤ p.tables.localVariables.length := by
    rw [length_of_mapM h.localVariables]
    exact List.length_filter_le _ _
  have htypes : c.localVariableTypes.length ≤ p.tables.localVariableTypes.length := by
    rw [length_of_mapM h.localVariableTypes]
    exact List.length_filter_le _ _
  have hframes : c.frames.length ≤ p.tables.frames.length := by
    rw [length_of_mapM h.bodyFrames, h.framesLifted.length_eq]
  have hattributes : c.attributes = p.tables.attributes := h.attributes
  have := toNat_isEmpty_le hlines
  have := toNat_isEmpty_le hlocals
  have := toNat_isEmpty_le htypes
  have := toNat_isEmpty_le hframes
  change p.tables.attributeCount ≤ 0 + x.attributes.length at hcount
  unfold Code.attributeCount
  unfold Stored.CodeTables.attributeCount at hcount
  rw [hattributes]
  omega

end CodeLifted

/-- Code that was lifted can be stored, and its constants can be read from a class file. -/
structure Code.Storable (admits : BootstrapMethod → Prop) (c : Code) : Prop where
  constants : ∀ e ∈ c.elements, BodyElement.WellFormed admits e
  handlers : c.exceptionHandlers.length ≤ 0xFFFF
  attributeCount : c.attributeCount ≤ 0xFFFF

theorem Code.storable_of_code (hr : r.ArgumentsFit) (hx : x.Fits)
    (h : r.code context x = .ok c) : c.Storable r.Admits := by
  obtain ⟨p, hlifted⟩ := codeLifted_of_code h
  have hhandlers := hlifted.length_exceptionHandlers
  exact ⟨hlifted.wellFormed hr, hhandlers ▸ hx.exceptionTable,
    Nat.le_trans hlifted.attributeCount_le hx.attributes⟩

end Code

/-- The method can be stored, as far as it is not code. -/
structure Method.Storable (m : Method) : Prop where
  exceptions : m.exceptions.length ≤ 0xFFFF
  annotations : m.annotations.Fit
  parameterAnnotations : m.parameterAnnotations.Fit
  annotationDefault : ∀ value ∈ m.annotationDefault, value.Fits
  names : ∀ v ∈ m.attributes, v.name ∉ Resolver.methodAttributes

section Method

variable {r : Resolver} {m n : Method} {code code' : Option Stored.Code} {a : Stored.Attribute}

theorem Resolver.MethodStep.attributeCount_le (h : r.MethodStep m code a (n, code')) :
    n.attributeCount + code'.isSome.toNat ≤ m.attributeCount + code.isSome.toNat + 1 := by
  have hle (b : Bool) : b.toNat ≤ 1 := b.toNat_le
  unfold Method.attributeCount Annotations.attributeCount ParameterAnnotations.attributeCount
  cases h with
  | @visible as =>
    have := hle (!as.isEmpty)
    dsimp only
    omega
  | @invisible as =>
    have := hle (!as.isEmpty)
    dsimp only
    omega
  | visibleParameters =>
    dsimp only [Option.isSome_some, Bool.toNat_true]
    omega
  | invisibleParameters =>
    dsimp only [Option.isSome_some, Bool.toNat_true]
    omega
  | code =>
    dsimp only [Option.isSome_some, Bool.toNat_true]
    omega
  | @exceptions names =>
    have := hle (!names.isEmpty)
    dsimp only
    omega
  | signature =>
    dsimp only [Option.isSome_some, Bool.toNat_true]
    omega
  | annotationDefault =>
    dsimp only [Option.isSome_some, Bool.toNat_true]
    omega
  | verbatim =>
    rw [List.length_append, List.length_singleton]
    dsimp only
    omega

theorem Resolver.MethodStep.storable (hm : m.Storable) (h : r.MethodStep m code a (n, code')) :
    n.Storable := by
  cases h with
  | visible name h =>
    exact { hm with annotations := ⟨listFits_of_annotationAttribute h, hm.annotations.invisible⟩ }
  | invisible name h =>
    exact { hm with annotations := ⟨hm.annotations.visible, listFits_of_annotationAttribute h⟩ }
  | visibleParameters name h =>
    refine { hm with parameterAnnotations := ⟨?_, hm.parameterAnnotations.invisible⟩ }
    intro ass hass
    rw [← Option.mem_some.1 hass]
    exact listsFit_of_parameterAnnotationAttribute h
  | invisibleParameters name h =>
    refine { hm with parameterAnnotations := ⟨hm.parameterAnnotations.visible, ?_⟩ }
    intro ass hass
    rw [← Option.mem_some.1 hass]
    exact listsFit_of_parameterAnnotationAttribute h
  | code name h => exact hm
  | exceptions name h => exact { hm with exceptions := length_of_classNames h }
  | signature name h => exact { hm with }
  | annotationDefault name h hvalue =>
    refine { hm with annotationDefault := ?_ }
    intro value hmem
    rw [← Option.mem_some.1 hmem]
    exact (fits_iff_of_elementValue _ hvalue).2
      (AttributeFormat.fits_of_parse_annotationDefault h)
  | verbatim name h => exact { hm with names := forall_names_append hm.names h }

theorem Resolver.MethodStep.code_eq (h : r.MethodStep m code a (n, code')) : n.code = m.code := by
  cases h <;> rfl

theorem Resolver.MethodStep.fits (hcode : ∀ x ∈ code, x.Fits)
    (h : r.MethodStep m code a (n, code')) : ∀ x ∈ code', x.Fits := by
  cases h with
  | code name h =>
    intro x hx
    rw [← Option.mem_some.1 hx]
    exact AttributeFormat.fits_of_parse_code h
  | _ => exact hcode

theorem Method.storable_of_method {x : Stored.Member .method} {owner : BinaryName} (hx : x.Fits)
    (h : r.method owner x = .ok m) : m.Storable ∧ m.attributeCount ≤ 0xFFFF
      ∧ ∀ c ∈ m.code, ∃ y : Stored.Code, y.Fits ∧ r.code (m.context owner) y = .ok c := by
  unfold Resolver.method at h
  obtain ⟨name, -, h⟩ := bind_eq_ok.1 h
  obtain ⟨descriptor, -, h⟩ := bind_eq_ok.1 h
  obtain ⟨⟨n, code⟩, hfold, h⟩ := bind_eq_ok.1 h
  have hinvariant : n.Storable ∧ n.code = none ∧ ∀ y ∈ code, y.Fits := by
    refine foldlM_induction (I := fun n : Resolver.PartialMethod =>
      n.1.Storable ∧ n.1.code = none ∧ ∀ y ∈ n.2, y.Fits) ?_ ?_ hfold
    · rintro ⟨n, code⟩ a - ⟨n', code'⟩ ⟨hn, hnone, hcode⟩ hstep
      have hstep' := Resolver.methodStep_of_addToMethod r hstep
      exact ⟨hstep'.storable hn, hstep'.code_eq.trans hnone, hstep'.fits hcode⟩
    · exact ⟨⟨Nat.zero_le _, Annotations.fit_empty, ParameterAnnotations.fit_empty,
        fun _ h => absurd h (Option.not_mem_none _), fun _ h => absurd h List.not_mem_nil⟩, rfl,
        fun _ h => absurd h (Option.not_mem_none _)⟩
  obtain ⟨hn, hnone, hfits⟩ := hinvariant
  -- every step adds at most one attribute, where the code counts as one
  have hgrows (n : Resolver.PartialMethod) (a : Stored.Attribute) (n' : Resolver.PartialMethod)
      (hstep : r.addToMethod n a = .ok n') : n'.1.attributeCount + n'.2.isSome.toNat
        ≤ n.1.attributeCount + n.2.isSome.toNat + 1 :=
    (Resolver.methodStep_of_addToMethod r hstep).attributeCount_le
  have hnil : Method.attributeCount { accessFlags := x.accessFlags, name, descriptor } = 0 := rfl
  have hcount := foldlM_size_le hgrows hfold
  dsimp only at hcount
  rw [hnil, Option.isSome_none, Bool.toNat_false] at hcount
  have hlength := hx.attributes
  cases code with
  | none =>
    obtain rfl := pure_eq_ok.1 h
    refine ⟨hn, by omega, ?_⟩
    rw [hnone]
    exact fun _ h => absurd h (Option.not_mem_none _)
  | some y =>
    obtain ⟨c, hc, h⟩ := bind_eq_ok.1 h
    obtain rfl := pure_eq_ok.1 h
    refine ⟨{ hn with }, ?_, ?_⟩
    · unfold Method.attributeCount at hcount ⊢
      rw [hnone] at hcount
      dsimp only [Option.isSome_some, Option.isSome_none, Bool.toNat_true, Bool.toNat_false]
        at hcount ⊢
      omega
    · intro c' hc'
      rw [← Option.mem_some.1 hc']
      exact ⟨y, hfits y rfl, hc⟩

end Method

namespace Class

/-- The class can be stored, as far as it is not members. -/
structure Storable (c : Class) : Prop where
  nestMembers : c.nestMembers.length ≤ 0xFFFF
  permittedSubclasses : c.permittedSubclasses.length ≤ 0xFFFF
  components_length : ∀ cs ∈ c.recordComponents, cs.length ≤ 0xFFFF
  components : ∀ cs ∈ c.recordComponents, ∀ k ∈ cs, k.Storable ∧ k.attributeCount ≤ 0xFFFF
  annotations : c.annotations.Fit
  names : ∀ v ∈ c.attributes, v.name ∉ Resolver.classAttributes

end Class

section Class

variable {r : Resolver} {c d : Class} {a : Stored.Attribute}

theorem Resolver.ClassStep.attributeCount_le (h : r.ClassStep c a d) :
    d.attributeCount ≤ c.attributeCount + 1 := by
  have hle (b : Bool) : b.toNat ≤ 1 := b.toNat_le
  unfold Class.attributeCount Annotations.attributeCount
  cases h with
  | @visible as =>
    have := hle (!as.isEmpty)
    dsimp only
    omega
  | @invisible as =>
    have := hle (!as.isEmpty)
    dsimp only
    omega
  | bootstrapMethods => omega
  | @innerClasses xs cs =>
    have := hle (!(c.innerClasses ++ cs).isEmpty)
    dsimp only
    omega
  | @nestMembers names =>
    have := hle (!names.isEmpty)
    dsimp only
    omega
  | @permittedSubclasses names =>
    have := hle (!names.isEmpty)
    dsimp only
    omega
  | verbatim =>
    rw [List.length_append, List.length_singleton]
    dsimp only
    omega
  | _ =>
    dsimp only [Option.isSome_some, Bool.toNat_true]
    omega

theorem Resolver.ClassStep.storable (hc : c.Storable) (h : r.ClassStep c a d) : d.Storable := by
  cases h with
  | visible name h =>
    exact { hc with annotations := ⟨listFits_of_annotationAttribute h, hc.annotations.invisible⟩ }
  | invisible name h =>
    exact { hc with annotations := ⟨hc.annotations.visible, listFits_of_annotationAttribute h⟩ }
  | nestMembers name h => exact { hc with nestMembers := length_of_classNames h }
  | permittedSubclasses name h => exact { hc with permittedSubclasses := length_of_classNames h }
  | @record xs cs name h hcs =>
    obtain ⟨hlength, hfits⟩ := AttributeFormat.fit_of_parse_record h
    refine { hc with components_length := ?_, components := ?_ }
    · intro cs' hcs'
      rw [← Option.mem_some.1 hcs', length_of_mapM hcs]
      exact hlength
    · intro cs' hcs' k hk
      rw [← Option.mem_some.1 hcs'] at hk
      obtain ⟨x, hx, hlifted⟩ := exists_of_mem_mapM hcs hk
      exact RecordComponent.storable_of_recordComponent (hfits x hx) hlifted
  | verbatim name h => exact { hc with names := forall_names_append hc.names h }
  | _ => exact { hc with }

namespace ClassLifted

variable {file : Stored.ClassFile}

theorem storable (h : ClassLifted file r c) : c.Storable := by
  have hfold := foldlM_induction (I := Class.Storable) ?_ ?_ h.attributes
  · exact { hfold with }
  · exact fun c a _ d hc hstep => (Resolver.classStep_of_addToClass r hstep).storable hc
  · exact ⟨Nat.zero_le _, Nat.zero_le _, fun _ h => absurd h (Option.not_mem_none _),
      fun _ h => absurd h (Option.not_mem_none _), Annotations.fit_empty,
      fun _ h => absurd h List.not_mem_nil⟩

theorem fields_storable (h : ClassLifted file r c) (hfile : file.Fits) :
    ∀ f ∈ c.fields, f.Storable r.Admits ∧ f.attributeCount ≤ 0xFFFF := by
  intro f hf
  obtain ⟨x, hx, hlifted⟩ := exists_of_mem_mapM h.fields hf
  exact Field.storable_of_field h.argumentsFit (hfile.fields x hx) hlifted

theorem methods_storable (h : ClassLifted file r c) (hfile : file.Fits) :
    ∀ m ∈ c.methods, m.Storable ∧ m.attributeCount ≤ 0xFFFF
      ∧ ∀ code ∈ m.code, ∃ y : Stored.Code, y.Fits ∧ r.code (m.context c.name) y = .ok code := by
  intro m hm
  obtain ⟨x, hx, hlifted⟩ := exists_of_mem_mapM h.methods hm
  exact Method.storable_of_method (hfile.methods x hx) hlifted

theorem attributeCount_le (h : ClassLifted file r c) :
    c.attributeCount ≤ file.attributes.length := by
  have hcount := foldlM_size_le (fun c a d hstep =>
    (Resolver.classStep_of_addToClass r hstep).attributeCount_le) h.attributes
  change c.attributeCount ≤ 0 + file.attributes.length at hcount
  omega

theorem exists_bootstrapMethods (h : ClassLifted file r c) (hboot : r.HasBootstraps) :
    ∃ a ∈ file.attributes, r.utf8 a.nameIndex = .ok "BootstrapMethods" := by
  by_contra hnone
  refine hboot (foldlM_induction (I := fun table : List BootstrapEntry => table = []) ?_ rfl
    h.table)
  intro table a ha table' hnil hstep
  obtain ⟨name, hname, hstep⟩ := bind_eq_ok.1 hstep
  split at hstep
  next heq =>
    rw [heq, ← h.constants] at hname
    exact absurd ⟨a, ha, hname⟩ hnone
  next =>
    obtain rfl := pure_eq_ok.1 hstep
    exact hnil

theorem attributeCount_lt (h : ClassLifted file r c) (hboot : r.HasBootstraps) :
    c.attributeCount < file.attributes.length := by
  obtain ⟨a, ha, hname⟩ := h.exists_bootstrapMethods hboot
  obtain ⟨front, back, hsplit⟩ := List.append_of_mem ha
  have hfold := h.attributes
  rw [hsplit] at hfold ⊢
  obtain ⟨d, hfront, hback⟩ := foldlM_append_eq_ok.1 hfold
  rw [List.foldlM_cons] at hback
  obtain ⟨d', hstep, hback⟩ := bind_eq_ok.1 hback
  rw [Resolver.addToClass_of_classStep r (.bootstrapMethods hname)] at hstep
  injection hstep with hsame
  rw [← hsame] at hback
  have hgrows (c : Class) (a : Stored.Attribute) (d : Class) (hstep : r.addToClass c a = .ok d) :
      d.attributeCount ≤ c.attributeCount + 1 :=
    (Resolver.classStep_of_addToClass r hstep).attributeCount_le
  have hcount := foldlM_size_le hgrows hfront
  have hcount' := foldlM_size_le hgrows hback
  change d.attributeCount ≤ 0 + front.length at hcount
  change c.attributeCount ≤ d.attributeCount + back.length at hcount'
  rw [List.length_append, List.length_cons]
  omega

end ClassLifted

end Class

end ClassPatch
