import ClassPatch.Proofs.Lift.Storable

/-!
Fields, methods and components of records that were lifted and lowered are lifted to the same again:
the attributes they were lowered to are taken one after the other, each for the part it stands for.
-/

namespace ClassPatch

section Segments

variable {α β : Type} {f : β → Stored.Attribute → Except ClassError β} {b : β}
  {xs ys : List Stored.Attribute}

theorem IfSome.foldlM_append {P : α → Stored.Attribute → Prop} {a : Option α} (h : IfSome P a xs)
    (set : β → Option α → β) (hnone : set b .none = b)
    (hsome : ∀ v ∈ a, ∀ x ∈ xs, P v x → f b x = .ok (set b (.some v))) :
    (xs ++ ys).foldlM f b = ys.foldlM f (set b a) := by
  cases h with
  | none =>
    rw [hnone]
    rfl
  | some hx =>
    rw [List.cons_append, List.foldlM_cons, hsome _ rfl _ (List.mem_singleton_self _) hx]
    rfl

theorem UnlessEmpty.foldlM_append {P : List α → Stored.Attribute → Prop} {as : List α}
    (h : UnlessEmpty P as xs) (set : β → List α → β) (hnil : set b [] = b)
    (hcons : ∀ x, P as x → f b x = .ok (set b as)) :
    (xs ++ ys).foldlM f b = ys.foldlM f (set b as) := by
  cases h with
  | nil =>
    rw [hnil]
    rfl
  | cons hx =>
    rw [List.cons_append, List.foldlM_cons, hcons _ hx]
    rfl

variable {r : Resolver}

theorem AnnotationsStored.foldlM_append {as : Annotations} (h : AnnotationsStored r as xs)
    (hfit : as.Fit) (set : β → Annotations → β) (hempty : set b {} = b)
    (hvisible : ∀ x, r.utf8 x.nameIndex = .ok "RuntimeVisibleAnnotations" →
      r.annotationAttribute .visibleAnnotations x.info = .ok as.visible →
        f b x = .ok (set b { visible := as.visible }))
    (hinvisible : ∀ x, r.utf8 x.nameIndex = .ok "RuntimeInvisibleAnnotations" →
      r.annotationAttribute .invisibleAnnotations x.info = .ok as.invisible →
        f (set b { visible := as.visible }) x = .ok (set b as)) :
    (xs ++ ys).foldlM f b = ys.foldlM f (set b as) := by
  obtain ⟨h₁, h₂⟩ := h
  rw [List.append_assoc, h₁.foldlM_append (fun b visible => set b { visible }) hempty
    fun x hx => hvisible x hx.name (hx.content hfit.visible)]
  exact h₂.foldlM_append (fun _ invisible => set b { visible := as.visible, invisible }) rfl
    fun x hx => hinvisible x hx.name (hx.content hfit.invisible)

theorem foldlM_carried {names : List String} {vs us : List VerbatimAttribute}
    (h : List.Forall₂ r.Carries vs xs) (hnames : ∀ v ∈ vs, v.name ∉ names)
    (set : List VerbatimAttribute → β)
    (hstep : ∀ us x text, r.utf8 x.nameIndex = .ok text → text ∉ names →
      f (set us) x = .ok (set (us ++ [⟨text, x.info⟩]))) :
    xs.foldlM f (set us) = .ok (set (us ++ vs)) := by
  induction h generalizing us with
  | nil =>
    rw [List.append_nil]
    rfl
  | @cons v x vs xs hhead htail ih =>
    rw [List.forall_mem_cons] at hnames
    rw [List.foldlM_cons, hstep us x v.name hhead.name hnames.1, ok_bind, ih hnames.2,
      hhead.info, List.append_assoc]
    rfl

end Segments

variable {s : Rereading} {admits : BootstrapMethod → Prop} {xs : List Stored.Attribute}

open Resolver

theorem FieldAttributesLowered.foldlM_eq {f : Field} (h : FieldAttributesLowered s f xs)
    (hwf : s.wellFormed) (hf : f.Storable admits) :
    xs.foldlM s.resolver.addToField
      { accessFlags := f.accessFlags, name := f.name, descriptor := f.descriptor } = .ok f := by
  obtain ⟨hvalue, hsignature, hannotations, hattributes⟩ := h
  simp only [List.append_assoc]
  refine (hvalue.foldlM_append (fun f v => { f with constantValue := v }) rfl ?_).trans ?_
  · intro value _ x _ hx
    obtain ⟨i, hi, hvalue⟩ := bind_eq_ok.1 (hx.content hwf)
    exact addToField_of_fieldStep _ (.constantValue hx.name hi hvalue)
  refine (hsignature.foldlM_append (fun f v => { f with signature := v }) rfl ?_).trans ?_
  · intro text _ x _ hx
    exact addToField_of_fieldStep _ (.signature hx.name (hx.content trivial))
  refine (hannotations.foldlM_append hf.annotations (fun f v => { f with annotations := v })
    rfl ?_ ?_).trans ?_
  · exact fun x hname hinfo => addToField_of_fieldStep _ (.visible hname hinfo)
  · exact fun x hname hinfo => addToField_of_fieldStep _ (.invisible hname hinfo)
  · exact foldlM_carried hattributes hf.names (fun vs => { f with attributes := vs })
      fun vs x text hname htext => addToField_of_fieldStep _ (.verbatim hname htext)

theorem FieldLowered.field_eq {f : Field} {x : Stored.Member .field} (h : FieldLowered s f x)
    (hwf : s.wellFormed) (hf : f.Storable admits) : s.resolver.field x = .ok f := by
  unfold Resolver.field Resolver.unqualifiedName Resolver.fieldType
  simp only [h.name, h.descriptor, ok_bind, parseUnqualifiedName_text, parseFieldType_render]
  rw [h.accessFlags]
  exact h.attributes.foldlM_eq hwf hf

theorem ComponentAttributesLowered.foldlM_eq {r : Resolver} {c : RecordComponent}
    (h : ComponentAttributesLowered r c xs) (hc : c.Storable) :
    xs.foldlM r.addToComponent { name := c.name, descriptor := c.descriptor } = .ok c := by
  obtain ⟨hsignature, hannotations, hattributes⟩ := h
  simp only [List.append_assoc]
  refine (hsignature.foldlM_append (fun c v => { c with signature := v }) rfl ?_).trans ?_
  · intro text _ x _ hx
    exact addToComponent_of_componentStep _ (.signature hx.name (hx.content trivial))
  refine (hannotations.foldlM_append hc.annotations (fun c v => { c with annotations := v })
    rfl ?_ ?_).trans ?_
  · exact fun x hname hinfo => addToComponent_of_componentStep _ (.visible hname hinfo)
  · exact fun x hname hinfo => addToComponent_of_componentStep _ (.invisible hname hinfo)
  · exact foldlM_carried hattributes hc.names (fun vs => { c with attributes := vs })
      fun vs x text hname htext => addToComponent_of_componentStep _ (.verbatim hname htext)

theorem ComponentLowered.recordComponent_eq {r : Resolver} {c : RecordComponent}
    {x : Stored.RecordComponent} (h : ComponentLowered r c x) (hc : c.Storable) :
    r.recordComponent x = .ok c := by
  unfold Resolver.recordComponent Resolver.unqualifiedName Resolver.fieldType
  simp only [h.name, h.descriptor, ok_bind, parseUnqualifiedName_text, parseFieldType_render]
  exact h.attributes.foldlM_eq hc

/-- Methods that differ in the form of the branches of their code at most. -/
structure Method.Rewritten (m n : Method) : Prop where
  code : Option.Rel Code.Rewritten m.code n.code
  others : n = { m with code := n.code }

/-- Methods that are lowered to the same. -/
def Method.Settled (s : Rereading) (m n : Method) : Prop :=
  Option.Rel (Code.Settled s) m.code n.code

/-- Line numbers and local variables of the method can be counted. -/
def Method.TablesFit (m : Method) : Prop := ∀ c ∈ m.code, c.TablesFit

theorem ParameterAnnotationsStored.foldlM_append {β : Type}
    {f : β → Stored.Attribute → Except ClassError β} {b : β} {ys : List Stored.Attribute}
    {r : Resolver} {as : ParameterAnnotations} (h : ParameterAnnotationsStored r as xs)
    (hfit : as.Fit) (set : β → ParameterAnnotations → β) (hempty : set b {} = b)
    (hvisible : ∀ x ass, r.utf8 x.nameIndex = .ok "RuntimeVisibleParameterAnnotations" →
      r.parameterAnnotationAttribute .visibleParameterAnnotations x.info = .ok ass →
        f b x = .ok (set b { visible := some ass }))
    (hinvisible : ∀ x ass, r.utf8 x.nameIndex = .ok "RuntimeInvisibleParameterAnnotations" →
      r.parameterAnnotationAttribute .invisibleParameterAnnotations x.info = .ok ass →
        f (set b { visible := as.visible }) x
          = .ok (set b { visible := as.visible, invisible := some ass })) :
    (xs ++ ys).foldlM f b = ys.foldlM f (set b as) := by
  obtain ⟨h₁, h₂⟩ := h
  rw [List.append_assoc, h₁.foldlM_append (fun b visible => set b { visible }) hempty
    fun ass hass x _ hx => hvisible x ass hx.name (hx.content (hfit.visible ass hass))]
  exact h₂.foldlM_append (fun _ invisible => set b { visible := as.visible, invisible }) rfl
    fun ass hass x _ hx => hinvisible x ass hx.name (hx.content (hfit.invisible ass hass))

theorem exists_code_of_ifSome {context : MethodContext} {c : Option Code}
    (h : IfSome (StoresTable s.resolver .code (CodeLowered s context)) c xs)
    (hcode : ∀ c' ∈ c, c'.Storable admits) (hinfos : ∀ a ∈ xs, a.info.length < 2 ^ 32)
    (m : Method) : ∃ code, Option.Rel (CodeLowered s context) c code
      ∧ ∀ ys, (xs ++ ys).foldlM s.resolver.addToMethod (m, none)
        = ys.foldlM s.resolver.addToMethod (m, code) := by
  cases h with
  | none => exact ⟨none, .none, fun _ => rfl⟩
  | @some c a h =>
    have hc := hcode c rfl
    obtain ⟨x, hparse, hlowered⟩ := parse_code_of_stores h hc.handlers hc.attributeCount
      (hinfos a (List.mem_singleton_self a))
    refine ⟨some x, .some hlowered, fun ys => ?_⟩
    rw [List.cons_append, List.foldlM_cons, addToMethod_of_methodStep _ (.code h.name hparse)]
    rfl

theorem MethodAttributesLowered.foldlM_eq {owner : BinaryName} {m : Method}
    (h : MethodAttributesLowered s owner m xs) (hm : m.Storable)
    (hcode : ∀ c ∈ m.code, c.Storable admits) (hinfos : ∀ a ∈ xs, a.info.length < 2 ^ 32) :
    ∃ code, Option.Rel (CodeLowered s (m.context owner)) m.code code
      ∧ xs.foldlM s.resolver.addToMethod
        ({ accessFlags := m.accessFlags, name := m.name, descriptor := m.descriptor }, none)
          = .ok ({ m with code := none }, code) := by
  obtain ⟨hcodes, hexceptions, hsignature, hannotations, hparameters, hdefault, hattributes⟩ := h
  simp only [List.append_assoc] at hinfos ⊢
  rw [List.forall_mem_append] at hinfos
  obtain ⟨code, hrel, hfold⟩ := exists_code_of_ifSome hcodes hcode hinfos.1
    { accessFlags := m.accessFlags, name := m.name, descriptor := m.descriptor }
  refine ⟨code, hrel, (hfold _).trans ?_⟩
  -- one group of attributes after the other, in the order in which they were written
  refine (hexceptions.foldlM_append (fun n v => ({ n.1 with exceptions := v }, n.2)) rfl
    ?_).trans ?_
  · intro x hx
    exact addToMethod_of_methodStep _ (.exceptions hx.name (hx.content hm.exceptions))
  refine (hsignature.foldlM_append (fun n v => ({ n.1 with signature := v }, n.2)) rfl
    ?_).trans ?_
  · intro text _ x _ hx
    exact addToMethod_of_methodStep _ (.signature hx.name (hx.content trivial))
  refine (hannotations.foldlM_append hm.annotations
    (fun n v => ({ n.1 with annotations := v }, n.2)) rfl ?_ ?_).trans ?_
  · exact fun x hname hinfo => addToMethod_of_methodStep _ (.visible hname hinfo)
  · exact fun x hname hinfo => addToMethod_of_methodStep _ (.invisible hname hinfo)
  refine (hparameters.foldlM_append hm.parameterAnnotations
    (fun n v => ({ n.1 with parameterAnnotations := v }, n.2)) rfl ?_ ?_).trans ?_
  · exact fun x ass hname hinfo => addToMethod_of_methodStep _ (.visibleParameters hname hinfo)
  · exact fun x ass hname hinfo => addToMethod_of_methodStep _ (.invisibleParameters hname hinfo)
  refine (hdefault.foldlM_append (fun n v => ({ n.1 with annotationDefault := v }, n.2)) rfl
    ?_).trans ?_
  · intro value hvalue x _ hx
    obtain ⟨v, hv, hlifted⟩ := bind_eq_ok.1 (hx.content (hm.annotationDefault value hvalue))
    exact addToMethod_of_methodStep _ (.annotationDefault hx.name hv hlifted)
  · exact foldlM_carried hattributes hm.names
      (fun vs => ({ m with code := none, attributes := vs }, code))
      fun vs x text hname htext => addToMethod_of_methodStep _ (.verbatim hname htext)

theorem MethodLowered.exists_method_of_code {owner : BinaryName} {m : Method}
    {x : Stored.Member .method} {R : Code → Code → Prop} (h : MethodLowered s owner m x)
    (hm : m.Storable) (hcode : ∀ c ∈ m.code, c.Storable admits)
    (hlifted : ∀ c ∈ m.code, ∀ y, CodeLowered s (m.context owner) c y →
      ∃ d, s.resolver.code (m.context owner) y = .ok d ∧ R c d)
    (hinfos : ∀ a ∈ x.attributes, a.info.length < 2 ^ 32) :
    ∃ n, s.resolver.method owner x = .ok n ∧ Option.Rel R m.code n.code
      ∧ n = { m with code := n.code } := by
  obtain ⟨code, hrel, hfold⟩ := h.attributes.foldlM_eq hm hcode hinfos
  unfold Resolver.method Resolver.unqualifiedName Resolver.methodDescriptor
  simp only [h.name, h.descriptor, ok_bind, parseUnqualifiedName_text,
    parseMethodDescriptor_render]
  rw [h.accessFlags, hfold, ok_bind]
  cases hm' : m.code with
  | none =>
    rw [hm'] at hrel
    cases hrel
    exact ⟨_, rfl, .none, rfl⟩
  | some c =>
    rw [hm'] at hrel
    cases hrel with
    | some hlowered =>
      obtain ⟨d, hd, hcd⟩ := hlifted c hm' _ hlowered
      exact ⟨{ m with code := some d }, bind_of_eq_ok hd _, .some hcd, rfl⟩

theorem MethodLowered.exists_method {owner : BinaryName} {r : Resolver} {m : Method}
    {x : Stored.Member .method} (h : MethodLowered s owner m x) (hwf : s.wellFormed)
    (hr : r.ArgumentsFit) (hm : m.Storable) (hfit : m.TablesFit)
    (hlifted : ∀ c ∈ m.code, ∃ y : Stored.Code, y.Fits ∧ r.code (m.context owner) y = .ok c)
    (hinfos : ∀ a ∈ x.attributes, a.info.length < 2 ^ 32) :
    ∃ n, s.resolver.method owner x = .ok n ∧ m.Rewritten n ∧ Method.Settled s m n := by
  have hcode : ∀ c ∈ m.code, c.Storable r.Admits := by
    intro c hc
    obtain ⟨y, hy, hyc⟩ := hlifted c hc
    exact Code.storable_of_code hr hy hyc
  obtain ⟨n, hn, hrel, hothers⟩ := h.exists_method_of_code
    (R := fun c d => c.Rewritten d ∧ Code.Settled s c d) hm hcode (fun c hc y hlowered => by
      obtain ⟨z, -, hzc⟩ := hlifted c hc
      exact code_of_lowered hzc hlowered hwf (hfit c hc)) hinfos
  exact ⟨n, hn, ⟨optionRel_imp_of_mem hrel hrel fun _ _ _ h _ => h.1, hothers⟩,
    optionRel_imp_of_mem hrel hrel fun _ _ _ h _ => h.2⟩

end ClassPatch
