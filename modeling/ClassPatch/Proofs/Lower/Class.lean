import ClassPatch.Proofs.Lower.Bootstrap
import ClassPatch.Proofs.Lower.Code

/-!
Classes that were lowered, and their members: the parts of the class file resolve to the parts of
the class, and the attributes stand in a fixed order.
-/

namespace ClassPatch

/-- Fields that can be read from a class file, as far as their constants are concerned. -/
def Field.ConstantsWellFormed (admits : BootstrapMethod → Prop) (f : Field) : Prop :=
  ∀ c ∈ f.constantValue, c.WellFormed admits (maxDynamicNesting + 1)

/-- Methods that can be read from a class file, as far as their constants are concerned. -/
def Method.ConstantsWellFormed (admits : BootstrapMethod → Prop) (m : Method) : Prop :=
  ∀ c ∈ m.code, ∀ e ∈ c.elements, BodyElement.WellFormed admits e

namespace Resolver

variable (s : Rereading) (r : Resolver)

def StoresConstant (value : LoadableConstant) : Stored.Attribute → Prop :=
  r.Stores s.wellFormed "ConstantValue"
    (fun info => do r.loadable (← AttributeFormat.constantValue.parse info)) value

def StoresDefault (value : ElementValue) : Stored.Attribute → Prop :=
  r.Stores value.Fits "AnnotationDefault"
    (fun info => do r.elementValue (← AttributeFormat.annotationDefault.parse info)) value

def StoresInnerClasses (cs : List InnerClass) : Stored.Attribute → Prop :=
  r.Stores (cs.length ≤ 0xFFFF) "InnerClasses"
    (fun info => do (← AttributeFormat.innerClasses.parse info).mapM r.innerClass) cs

def StoresEnclosingMethod (e : EnclosingMethod) : Stored.Attribute → Prop :=
  r.Stores True "EnclosingMethod"
    (fun info => do r.enclosingMethod (← AttributeFormat.enclosingMethod.parse info)) e

end Resolver

/-- The attributes of a field. -/
inductive FieldAttributesLowered (s : Rereading) (f : Field) : List Stored.Attribute → Prop where
  | mk {value signature annotations attributes : List Stored.Attribute}
    (hvalue : IfSome (s.resolver.StoresConstant s) f.constantValue value)
    (hsignature : IfSome (s.resolver.StoresText "Signature") f.signature signature)
    (hannotations : AnnotationsStored s.resolver f.annotations annotations)
    (hattributes : List.Forall₂ s.resolver.Carries f.attributes attributes) :
    FieldAttributesLowered s f (value ++ signature ++ annotations ++ attributes)

/-- A field and what it was lowered to. -/
structure FieldLowered (s : Rereading) (f : Field) (x : Stored.Member .field) : Prop where
  accessFlags : x.accessFlags = f.accessFlags
  name : s.resolver.utf8 x.nameIndex = .ok f.name.text
  descriptor : s.resolver.utf8 x.descriptorIndex = .ok f.descriptor.render
  attributes : FieldAttributesLowered s f x.attributes

/-- The attributes of a method. -/
inductive MethodAttributesLowered (s : Rereading) (owner : BinaryName) (m : Method) :
    List Stored.Attribute → Prop where
  | mk {code exceptions signature annotations parameters default attributes : List Stored.Attribute}
    (hcode : IfSome (StoresTable s.resolver .code (CodeLowered s (m.context owner))) m.code code)
    (hexceptions : UnlessEmpty (s.resolver.StoresClasses "Exceptions") m.exceptions exceptions)
    (hsignature : IfSome (s.resolver.StoresText "Signature") m.signature signature)
    (hannotations : AnnotationsStored s.resolver m.annotations annotations)
    (hparameters : ParameterAnnotationsStored s.resolver m.parameterAnnotations parameters)
    (hdefault : IfSome s.resolver.StoresDefault m.annotationDefault default)
    (hattributes : List.Forall₂ s.resolver.Carries m.attributes attributes) :
    MethodAttributesLowered s owner m
      (code ++ exceptions ++ signature ++ annotations ++ parameters ++ default ++ attributes)

/-- A method and what it was lowered to. -/
structure MethodLowered (s : Rereading) (owner : BinaryName) (m : Method)
    (x : Stored.Member .method) : Prop where
  accessFlags : x.accessFlags = m.accessFlags
  name : s.resolver.utf8 x.nameIndex = .ok m.name.text
  descriptor : s.resolver.utf8 x.descriptorIndex = .ok m.descriptor.render
  attributes : MethodAttributesLowered s owner m x.attributes

/-- The attributes of a component of a record. -/
inductive ComponentAttributesLowered (r : Resolver) (c : RecordComponent) :
    List Stored.Attribute → Prop where
  | mk {signature annotations attributes : List Stored.Attribute}
    (hsignature : IfSome (r.StoresText "Signature") c.signature signature)
    (hannotations : AnnotationsStored r c.annotations annotations)
    (hattributes : List.Forall₂ r.Carries c.attributes attributes) :
    ComponentAttributesLowered r c (signature ++ annotations ++ attributes)

/-- A component of a record and what it was lowered to. -/
structure ComponentLowered (r : Resolver) (c : RecordComponent) (x : Stored.RecordComponent) :
    Prop where
  name : r.utf8 x.name = .ok c.name.text
  descriptor : r.utf8 x.descriptor = .ok c.descriptor.render
  attributes : ComponentAttributesLowered r c x.attributes

/-- The attributes of a class, other than the table of bootstrap methods. -/
inductive ClassAttributesLowered (r : Resolver) (c : Class) : List Stored.Attribute → Prop where
  | mk {sourceFile signature innerClasses enclosing nestHost nestMembers permitted record
      annotations attributes : List Stored.Attribute}
    (hsourceFile : IfSome (r.StoresText "SourceFile") c.sourceFile sourceFile)
    (hsignature : IfSome (r.StoresText "Signature") c.signature signature)
    (hinnerClasses : UnlessEmpty r.StoresInnerClasses c.innerClasses innerClasses)
    (henclosing : IfSome r.StoresEnclosingMethod c.enclosingMethod enclosing)
    (hnestHost : IfSome (r.StoresClass "NestHost") c.nestHost nestHost)
    (hnestMembers : UnlessEmpty (r.StoresClasses "NestMembers") c.nestMembers nestMembers)
    (hpermitted :
      UnlessEmpty (r.StoresClasses "PermittedSubclasses") c.permittedSubclasses permitted)
    (hrecord : IfSome (StoresTable r .record (List.Forall₂ (ComponentLowered r)))
      c.recordComponents record)
    (hannotations : AnnotationsStored r c.annotations annotations)
    (hattributes : List.Forall₂ r.Carries c.attributes attributes) :
    ClassAttributesLowered r c (sourceFile ++ signature ++ innerClasses ++ enclosing ++ nestHost
      ++ nestMembers ++ permitted ++ record ++ annotations ++ attributes)

/-- A class and the class file that it was lowered to, with its table of bootstrap methods. -/
structure ClassLowered (s : Rereading) (c : Class) (bootstraps : List BootstrapEntry)
    (file : Stored.ClassFile) : Prop where
  version : file.version = c.version
  accessFlags : file.accessFlags = c.accessFlags
  thisClass : s.resolver.className file.thisClass = .ok c.name
  superClass :
    Option.Rel (fun name i => s.resolver.className i = .ok name) c.superName file.superClass
  interfaces :
    List.Forall₂ (fun name i => s.resolver.className i = .ok name) c.interfaces file.interfaces
  fields : List.Forall₂ (FieldLowered s) c.fields file.fields
  methods : List.Forall₂ (MethodLowered s c.name) c.methods file.methods
  attributes : ∃ attributes table, file.attributes = attributes ++ table
    ∧ ClassAttributesLowered s.resolver c attributes
    ∧ UnlessEmpty (StoresTable s.resolver .bootstrapMethods Eq) bootstraps table

namespace Resolver

variable {r : Resolver}

theorem constants_className_ne_zero {i : ConstantIndex} {name : String}
    (hzero : r.constants.get? 0 = none) (h : r.constants.className i = .ok name) : i ≠ 0 := by
  intro hi
  rw [hi] at h
  unfold ConstantTable.className ConstantTable.constant at h
  simp only [UInt16.toNat_zero, hzero] at h
  cases h

theorem className_ne_zero {i : ConstantIndex} {name : BinaryName}
    (hzero : r.constants.get? 0 = none) (h : r.className i = .ok name) : i ≠ 0 := by
  unfold className at h
  obtain ⟨text, htext, -⟩ := bind_eq_ok.1 h
  exact constants_className_ne_zero hzero htext

theorem utf8_ne_zero {i : ConstantIndex} {text : String} (hzero : r.constants.get? 0 = none)
    (h : r.utf8 i = .ok text) : i ≠ 0 := by
  intro hi
  rw [hi] at h
  unfold utf8 ConstantTable.utf8 ConstantTable.constant at h
  simp only [UInt16.toNat_zero, hzero] at h
  cases h

theorem nameAndType_ne_zero {i : ConstantIndex} {texts : String × String}
    (hzero : r.constants.get? 0 = none) (h : r.constants.nameAndType i = .ok texts) : i ≠ 0 := by
  intro hi
  rw [hi] at h
  unfold ConstantTable.nameAndType ConstantTable.constant at h
  simp only [UInt16.toNat_zero, hzero] at h
  cases h

theorem ne_some_zero {α : Type} {P : α → ConstantIndex → Prop} {a : Option α}
    {i : Option ConstantIndex} (h : Option.Rel P a i) (hP : ∀ a i, P a i → i ≠ 0) :
    i ≠ some 0 := by
  cases h with
  | none => exact nofun
  | some h =>
    intro hi
    injection hi with hi
    exact hP _ _ h hi

end Resolver

namespace PoolM

variable {s : Rereading}

theorem yields_constantValueAttribute {value : LoadableConstant}
    (h : s.wellFormed → value.WellFormed s.admits (maxDynamicNesting + 1)) :
    Yields s (constantValueAttribute value) (s.resolver.StoresConstant s value) := by
  unfold constantValueAttribute
  refine (yields_loadable value (Nat.le_refl _) h).bind fun i => (yields_store _ _).mono ?_
  intro x hx hi
  refine ⟨hx.1, fun hwf => ?_⟩
  simp only [AttributeFormat.constantValue] at hx
  have hread := AttributeFormat.readsBack_index "ConstantValue" i _ hx.2
  simp only [AttributeFormat.constantValue, hread, ok_bind]
  exact hi hwf

theorem yields_defaultAttribute (value : ElementValue) :
    Yields s (defaultAttribute value) (s.resolver.StoresDefault value) := by
  unfold defaultAttribute
  refine (yields_elementValue value).bind fun v => (yields_store _ _).mono ?_
  intro x hx hv
  refine ⟨hx.1, fun hfits => ?_⟩
  have hfits' := (Resolver.fits_iff_of_elementValue v hv).1 hfits
  simp only [AttributeFormat.readsBack_annotationDefault hfits' _ hx.2, ok_bind]
  exact hv

theorem yields_field {f : Field} (hf : s.wellFormed → f.ConstantsWellFormed s.admits) :
    Yields s (field f) (FieldLowered s f) := by
  unfold field
  refine (yields_utf8 _).bind fun name => ?_
  refine (yields_utf8 _).bind fun descriptor => ?_
  refine (yields_ifSome fun c hc =>
    yields_constantValueAttribute fun hwf => hf hwf c hc).bind fun value => ?_
  refine (yields_ifSome fun text _ => yields_textAttribute "Signature" text).bind
    fun signature => ?_
  refine (yields_annotationAttributes _).bind fun annotations => ?_
  refine (Yields.mapM fun v _ => yields_verbatim v).map ?_
  intro attributes hattributes hannotations hsignature hvalue hdescriptor hname
  exact ⟨rfl, hname, hdescriptor, .mk hvalue hsignature hannotations hattributes⟩

theorem yields_codeAttribute (context : MethodContext) {c : Code}
    (hc : s.wellFormed → ∀ e ∈ c.elements, BodyElement.WellFormed s.admits e) :
    Yields s (codeAttribute context c)
      (StoresTable s.resolver .code (CodeLowered s context) c) := by
  unfold codeAttribute
  refine (yields_code context hc).bind fun x => (yields_store _ _).mono ?_
  intro a ha hx
  exact ⟨ha.1, x, ha.2, hx⟩

theorem yields_method (owner : BinaryName) {m : Method}
    (hm : s.wellFormed → m.ConstantsWellFormed s.admits) :
    Yields s (method owner m) (MethodLowered s owner m) := by
  unfold method
  refine (yields_utf8 _).bind fun name => ?_
  refine (yields_utf8 _).bind fun descriptor => ?_
  refine (yields_ifSome fun c hc =>
    yields_codeAttribute (m.context owner) fun hwf => hm hwf c hc).bind fun code => ?_
  refine (yields_unlessEmpty (yields_classesAttribute "Exceptions" m.exceptions)).bind
    fun exceptions => ?_
  refine (yields_ifSome fun text _ => yields_textAttribute "Signature" text).bind
    fun signature => ?_
  refine (yields_annotationAttributes _).bind fun annotations => ?_
  refine (yields_parameterAnnotationAttributes _).bind fun parameters => ?_
  refine (yields_ifSome fun value _ => yields_defaultAttribute value).bind fun default => ?_
  refine (Yields.mapM fun v _ => yields_verbatim v).map ?_
  intro attributes hattributes hdefault hparameters hannotations hsignature hexceptions hcode
    hdescriptor hname
  exact ⟨rfl, hname, hdescriptor, .mk hcode hexceptions hsignature hannotations hparameters
    hdefault hattributes⟩

theorem yields_innerClass (c : InnerClass) :
    Yields s (innerClass c) fun x => s.resolver.innerClass x = .ok c
      ∧ x.outerClass ≠ some 0 ∧ x.innerName ≠ some 0 := by
  unfold innerClass
  refine (yields_className _).bind fun inner => ?_
  refine (Yields.optionMapM fun name _ => yields_className name).bind fun outer => ?_
  refine (Yields.optionMapM fun text _ => yields_utf8 text).map ?_
  intro name hname houter hinner
  refine ⟨?_, ?_, ?_⟩
  · have houter' := optionMapM_of_rel houter fun _ _ h => h
    have hname' := optionMapM_of_rel hname fun _ _ h => h
    simp only [Resolver.innerClass, hinner, houter', hname', ok_bind]
    rfl
  · exact Resolver.ne_some_zero houter fun _ _ =>
      Resolver.className_ne_zero s.noConstantAtZero
  · exact Resolver.ne_some_zero hname fun _ _ => Resolver.utf8_ne_zero s.noConstantAtZero

theorem yields_innerClassesAttribute (cs : List InnerClass) :
    Yields s (do AttributeFormat.innerClasses.store (← cs.mapM innerClass))
      (s.resolver.StoresInnerClasses cs) := by
  refine (Yields.mapM fun c _ => yields_innerClass c).bind fun xs => (yields_store _ _).mono ?_
  intro x hx hxs
  refine ⟨hx.1, fun hlength => ?_⟩
  rw [hxs.length_eq] at hlength
  have hread := AttributeFormat.readsBack_innerClasses hlength fun y hy => by
    obtain ⟨c, -, hc⟩ := exists_of_mem_right hxs hy
    exact hc.2
  simp only [hread _ hx.2, ok_bind]
  exact mapM_eq_ok.2 (hxs.imp fun _ _ h => h.1).flip

theorem yields_enclosingMethod (e : EnclosingMethod) :
    Yields s (enclosingMethod e) fun x => s.resolver.enclosingMethod x = .ok e
      ∧ x.method ≠ some 0 := by
  unfold enclosingMethod
  refine (yields_className _).bind fun cls => ?_
  refine (Yields.optionMapM fun m _ => yields_nameAndType m.1.text m.2.render).map ?_
  intro method hmethod hcls
  refine ⟨?_, ?_⟩
  · have hmethod' : method.mapM s.resolver.methodNameAndType = .ok e.method := by
      refine optionMapM_of_rel hmethod ?_
      intro m i hm
      simp only [Resolver.methodNameAndType, hm, ok_bind, parseUnqualifiedName_text,
        parseMethodDescriptor_render]
      rfl
    simp only [Resolver.enclosingMethod, hmethod', hcls, ok_bind]
    rfl
  · exact Resolver.ne_some_zero hmethod fun _ _ =>
      Resolver.nameAndType_ne_zero s.noConstantAtZero

theorem yields_enclosingMethodAttribute (e : EnclosingMethod) :
    Yields s (do AttributeFormat.enclosingMethod.store (← enclosingMethod e))
      (s.resolver.StoresEnclosingMethod e) := by
  refine (yields_enclosingMethod e).bind fun y => (yields_store _ _).mono ?_
  intro x hx hy
  refine ⟨hx.1, fun _ => ?_⟩
  simp only [AttributeFormat.readsBack_enclosingMethod hy.2 _ hx.2, ok_bind]
  exact hy.1

theorem yields_recordComponent (c : RecordComponent) :
    Yields s (recordComponent c) (ComponentLowered s.resolver c) := by
  unfold recordComponent
  refine (yields_utf8 _).bind fun name => ?_
  refine (yields_utf8 _).bind fun descriptor => ?_
  refine (yields_ifSome fun text _ => yields_textAttribute "Signature" text).bind
    fun signature => ?_
  refine (yields_annotationAttributes _).bind fun annotations => ?_
  refine (Yields.mapM fun v _ => yields_verbatim v).map ?_
  intro attributes hattributes hannotations hsignature hdescriptor hname
  exact ⟨hname, hdescriptor, .mk hsignature hannotations hattributes⟩

theorem yields_classAttributes (c : Class) :
    Yields s (classAttributes c) (ClassAttributesLowered s.resolver c) := by
  unfold classAttributes
  refine (yields_ifSome fun text _ => yields_textAttribute "SourceFile" text).bind
    fun sourceFile => ?_
  refine (yields_ifSome fun text _ => yields_textAttribute "Signature" text).bind
    fun signature => ?_
  refine (yields_unlessEmpty (yields_innerClassesAttribute _)).bind fun innerClasses => ?_
  refine (yields_ifSome fun e _ => yields_enclosingMethodAttribute e).bind fun enclosing => ?_
  refine (yields_ifSome fun n _ => yields_classAttribute "NestHost" n).bind fun nestHost => ?_
  refine (yields_unlessEmpty (yields_classesAttribute "NestMembers" _)).bind
    fun nestMembers => ?_
  refine (yields_unlessEmpty (yields_classesAttribute "PermittedSubclasses" _)).bind
    fun permitted => ?_
  refine (yields_ifSome fun cs _ =>
    yields_table .record (fun c => yields_recordComponent c) cs).bind fun record => ?_
  refine (yields_annotationAttributes _).bind fun annotations => ?_
  refine (Yields.mapM fun v _ => yields_verbatim v).map ?_
  intro attributes hattributes hannotations hrecord hpermitted hnestMembers hnestHost henclosing
    hinnerClasses hsignature hsourceFile
  exact .mk hsourceFile hsignature hinnerClasses henclosing hnestHost hnestMembers hpermitted
    hrecord hannotations hattributes

theorem run_bootstrapTable_eq (p : Pool) : bootstrapTable.run p
    = (unlessEmpty AttributeFormat.bootstrapMethods.store p.bootstrapMethods.toList).run p := rfl

theorem yields_bootstrapTable (es : List BootstrapEntry) :
    Yields s (unlessEmpty AttributeFormat.bootstrapMethods.store es)
      (UnlessEmpty (StoresTable s.resolver .bootstrapMethods Eq) es) :=
  yields_unlessEmpty ((yields_store _ _).mono fun _ hx => ⟨hx.1, es, hx.2, rfl⟩)

theorem bootstrapMethods_of_run {p q : Pool} {table : List Stored.Attribute}
    (h : bootstrapTable.run p = (.ok table, q)) : q.bootstrapMethods = p.bootstrapMethods := by
  rw [run_bootstrapTable_eq] at h
  unfold unlessEmpty at h
  split at h
  · obtain ⟨-, rfl⟩ := run_pure_eq_ok.1 h
    rfl
  · obtain ⟨x, q', hstore, h⟩ := run_bind_eq_ok.1 h
    obtain ⟨-, rfl⟩ := run_pure_eq_ok.1 h
    unfold AttributeFormat.store at hstore
    obtain ⟨name, p', hname, hstore⟩ := run_bind_eq_ok.1 hstore
    obtain ⟨info, p'', hinfo, hstore⟩ := run_bind_eq_ok.1 hstore
    obtain ⟨-, rfl⟩ := run_lift_eq_ok.1 hinfo
    obtain ⟨-, rfl⟩ := run_pure_eq_ok.1 hstore
    exact (Pool.sameTable_insert hname).bootstrapMethods

/-- The class file of a class without its constants and the table of bootstrap methods. -/
def classHead (c : Class) : PoolM Stored.ClassFile := do
  let thisClass ← className c.name
  let superClass ← c.superName.mapM className
  let interfaces ← c.interfaces.mapM className
  let fields ← c.fields.mapM field
  let methods ← c.methods.mapM (method c.name)
  let attributes ← classAttributes c
  return {
    version := c.version
    constants := .empty
    accessFlags := c.accessFlags
    thisClass
    superClass
    interfaces
    fields
    methods
    attributes }

theorem classFile_eq (c : Class) : classFile c = (do
    restoreBootstraps c.bootstrapMethods
    let head ← classHead c
    let table ← bootstrapTable
    return { head with
      constants := (← get).constants
      attributes := head.attributes ++ table }) := by
  unfold classFile classHead
  simp only [bind_assoc, pure_bind]

theorem yields_classHead {c : Class}
    (hfields : s.wellFormed → ∀ f ∈ c.fields, f.ConstantsWellFormed s.admits)
    (hmethods : s.wellFormed → ∀ m ∈ c.methods, m.ConstantsWellFormed s.admits) :
    Yields s (classHead c) fun head => ∀ constants bootstraps table,
      UnlessEmpty (StoresTable s.resolver .bootstrapMethods Eq) bootstraps table →
        ClassLowered s c bootstraps
          { head with constants, attributes := head.attributes ++ table } := by
  unfold classHead
  refine (yields_className _).bind fun thisClass => ?_
  refine (Yields.optionMapM fun n _ => yields_className n).bind fun superClass => ?_
  refine (Yields.mapM fun n _ => yields_className n).bind fun interfaces => ?_
  refine (Yields.mapM fun f hf => yields_field fun hwf => hfields hwf f hf).bind fun fields => ?_
  refine (Yields.mapM fun m hm =>
    yields_method c.name fun hwf => hmethods hwf m hm).bind fun methods => ?_
  refine (yields_classAttributes c).map ?_
  intro attributes hattributes hmethods hfields hinterfaces hsuper hname constants bootstraps table
    htable
  exact ⟨rfl, rfl, hname, hsuper, hinterfaces, hfields, hmethods,
    attributes, table, rfl, hattributes, htable⟩

theorem exists_head_of_run {c : Class} {p q : Pool} {file : Stored.ClassFile}
    (hrun : (classFile c).run p = (.ok file, q)) :
    ∃ p₀ p₁ head table, (restoreBootstraps c.bootstrapMethods).run p = (.ok (), p₀)
      ∧ (classHead c).run p₀ = (.ok head, p₁) ∧ bootstrapTable.run p₁ = (.ok table, q)
      ∧ file = { head with
        constants := q.constants
        attributes := head.attributes ++ table } := by
  rw [classFile_eq] at hrun
  obtain ⟨u, p₀, hrestore, hrun⟩ := run_bind_eq_ok.1 hrun
  obtain ⟨head, p₁, hhead, hrun⟩ := run_bind_eq_ok.1 hrun
  obtain ⟨table, p₂, htable, hrun⟩ := run_bind_eq_ok.1 hrun
  obtain ⟨last, p₃, hget, hrun⟩ := run_bind_eq_ok.1 hrun
  cases hget
  obtain ⟨rfl, rfl⟩ := run_pure_eq_ok.1 hrun
  exact ⟨p₀, p₁, head, table, hrestore, hhead, htable, rfl⟩

theorem exists_grows_of_run {c : Class} {p q : Pool} {file : Stored.ClassFile}
    (hfields : s.wellFormed → ∀ f ∈ c.fields, f.ConstantsWellFormed s.admits)
    (hmethods : s.wellFormed → ∀ m ∈ c.methods, m.ConstantsWellFormed s.admits)
    (hrun : (classFile c).run p = (.ok file, q)) :
    ∃ p₀, (restoreBootstraps c.bootstrapMethods).run p = (.ok (), p₀) ∧ p₀.Grows s.Added q := by
  obtain ⟨p₀, p₁, head, table, hrestore, hhead, htable, -⟩ := exists_head_of_run hrun
  obtain ⟨hgrows, -⟩ := yields_classHead hfields hmethods p₀ head p₁ hhead
  obtain ⟨hgrows', -⟩ := yields_bootstrapTable _ p₁ table q htable
  exact ⟨p₀, hrestore, hgrows.trans hgrows'⟩

/-- What a run of lowering gives, in terms of the constants that it ends with. -/
theorem run_classFile (s₀ : Rereading) {c : Class} {p q : Pool} {file : Stored.ClassFile}
    (hallowed : ∀ p e, s₀.Allowed p e → s.Allowed p e)
    (hbootstraps : s₀.wellFormed → ∀ b ∈ c.bootstrapMethods, b.WellFormed s₀.admits)
    (hlength : c.bootstrapMethods.length ≤ 0xFFFF)
    (hfields : s.wellFormed → ∀ f ∈ c.fields, f.ConstantsWellFormed s.admits)
    (hmethods : s.wellFormed → ∀ m ∈ c.methods, m.ConstantsWellFormed s.admits)
    (hvalid : p.Valid) (hempty : p.bootstrapMethods = #[])
    (hnone : ∀ e : BootstrapEntry, p.bootstrapIndices[e]? = none)
    (hrun : (classFile c).run p = (.ok file, q)) :
    q.Restored s₀ s p.constants c.bootstrapMethods c.bootstrapMethods.length
      ∧ file.constants = q.constants
      ∧ (s.pool.Retains q → ClassLowered s c q.bootstrapMethods.toList file) := by
  obtain ⟨p₀, p₁, head, table, hrestore, hhead, htable, rfl⟩ := exists_head_of_run hrun
  have hrestored := (run_restoreBootstraps hbootstraps hlength hvalid hempty hnone hrestore).mono
    hallowed
  obtain ⟨hgrows, -, hlowered⟩ := yields_classHead hfields hmethods p₀ head p₁ hhead
  have hsame := bootstrapMethods_of_run htable
  obtain ⟨hgrows', -, hstored⟩ := yields_bootstrapTable (s := s) _ p₁ table q htable
  refine ⟨hrestored.grows (Nat.le_refl _) (hgrows.trans hgrows'), rfl, ?_⟩
  intro hretains
  have htable' := hstored hretains
  rw [← hsame] at htable'
  exact hlowered (hretains.mono hgrows'.remembers) _ _ _ htable'

end PoolM

end ClassPatch
