import ClassPatch.Lift.Class
import ClassPatch.Proofs.Run

/-!
What one attribute does to the class or member that it is taken for: it sets what its name says, or
it is carried along as it is.
-/

namespace ClassPatch.Resolver

/-- Attributes of fields whose content is understood. -/
def fieldAttributes : List String :=
  ["RuntimeVisibleAnnotations", "RuntimeInvisibleAnnotations", "ConstantValue", "Signature"]

/-- Attributes of methods whose content is understood. -/
def methodAttributes : List String :=
  ["RuntimeVisibleAnnotations", "RuntimeInvisibleAnnotations",
    "RuntimeVisibleParameterAnnotations", "RuntimeInvisibleParameterAnnotations", "Code",
    "Exceptions", "Signature", "AnnotationDefault"]

/-- Attributes of components of records whose content is understood. -/
def componentAttributes : List String :=
  ["RuntimeVisibleAnnotations", "RuntimeInvisibleAnnotations", "Signature"]

/-- Attributes of classes whose content is understood. -/
def classAttributes : List String :=
  ["RuntimeVisibleAnnotations", "RuntimeInvisibleAnnotations", "BootstrapMethods", "SourceFile",
    "Signature", "InnerClasses", "EnclosingMethod", "NestHost", "NestMembers",
    "PermittedSubclasses", "Record"]

/-- Attributes of code whose content is understood. -/
def codeAttributes : List String :=
  ["LineNumberTable", "LocalVariableTable", "LocalVariableTypeTable", "StackMapTable"]

variable (r : Resolver)

/-- What an attribute does to a field. -/
inductive FieldStep (f : Field) (a : Stored.Attribute) : Field → Prop where
  | visible {as : List Annotation} (name : r.utf8 a.nameIndex = .ok "RuntimeVisibleAnnotations")
    (h : r.annotationAttribute .visibleAnnotations a.info = .ok as) :
    FieldStep f a { f with annotations := { f.annotations with visible := as } }
  | invisible {as : List Annotation}
    (name : r.utf8 a.nameIndex = .ok "RuntimeInvisibleAnnotations")
    (h : r.annotationAttribute .invisibleAnnotations a.info = .ok as) :
    FieldStep f a { f with annotations := { f.annotations with invisible := as } }
  | constantValue {i : ConstantIndex} {value : LoadableConstant}
    (name : r.utf8 a.nameIndex = .ok "ConstantValue")
    (h : AttributeFormat.constantValue.parse a.info = .ok i) (hvalue : r.loadable i = .ok value) :
    FieldStep f a { f with constantValue := some value }
  | signature {text : String} (name : r.utf8 a.nameIndex = .ok "Signature")
    (h : r.textAttribute .signature a.info = .ok text) :
    FieldStep f a { f with signature := some text }
  | verbatim {text : String} (name : r.utf8 a.nameIndex = .ok text)
    (h : text ∉ fieldAttributes) :
    FieldStep f a { f with attributes := f.attributes ++ [⟨text, a.info⟩] }

theorem fieldStep_of_addToField {f g : Field} {a : Stored.Attribute}
    (h : r.addToField f a = .ok g) : FieldStep r f a g := by
  unfold addToField at h
  obtain ⟨name, hname, h⟩ := bind_eq_ok.1 h
  split at h
  · obtain ⟨as, has, h⟩ := bind_eq_ok.1 h
    obtain rfl := pure_eq_ok.1 h
    exact .visible hname has
  · obtain ⟨as, has, h⟩ := bind_eq_ok.1 h
    obtain rfl := pure_eq_ok.1 h
    exact .invisible hname has
  · obtain ⟨i, hi, h⟩ := bind_eq_ok.1 h
    obtain ⟨value, hvalue, h⟩ := bind_eq_ok.1 h
    obtain rfl := pure_eq_ok.1 h
    exact .constantValue hname hi hvalue
  · obtain ⟨text, htext, h⟩ := bind_eq_ok.1 h
    obtain rfl := pure_eq_ok.1 h
    exact .signature hname htext
  · obtain rfl := pure_eq_ok.1 h
    refine .verbatim hname ?_
    simp only [fieldAttributes, List.mem_cons, List.not_mem_nil]
    grind

theorem addToField_of_fieldStep {f g : Field} {a : Stored.Attribute} (h : FieldStep r f a g) :
    r.addToField f a = .ok g := by
  unfold addToField
  cases h with
  | visible name h => simp only [name, h, ok_bind, pure, Except.pure]
  | invisible name h => simp only [name, h, ok_bind, pure, Except.pure]
  | constantValue name h hvalue => simp only [name, h, hvalue, ok_bind, pure, Except.pure]
  | signature name h => simp only [name, h, ok_bind, pure, Except.pure]
  | verbatim name h =>
    rw [name, ok_bind]
    split
    all_goals first | exact absurd (by decide) h | rfl

/-- What an attribute does to a component of a record. -/
inductive ComponentStep (c : RecordComponent) (a : Stored.Attribute) : RecordComponent → Prop where
  | visible {as : List Annotation} (name : r.utf8 a.nameIndex = .ok "RuntimeVisibleAnnotations")
    (h : r.annotationAttribute .visibleAnnotations a.info = .ok as) :
    ComponentStep c a { c with annotations := { c.annotations with visible := as } }
  | invisible {as : List Annotation}
    (name : r.utf8 a.nameIndex = .ok "RuntimeInvisibleAnnotations")
    (h : r.annotationAttribute .invisibleAnnotations a.info = .ok as) :
    ComponentStep c a { c with annotations := { c.annotations with invisible := as } }
  | signature {text : String} (name : r.utf8 a.nameIndex = .ok "Signature")
    (h : r.textAttribute .signature a.info = .ok text) :
    ComponentStep c a { c with signature := some text }
  | verbatim {text : String} (name : r.utf8 a.nameIndex = .ok text)
    (h : text ∉ componentAttributes) :
    ComponentStep c a { c with attributes := c.attributes ++ [⟨text, a.info⟩] }

theorem componentStep_of_addToComponent {c d : RecordComponent} {a : Stored.Attribute}
    (h : r.addToComponent c a = .ok d) : ComponentStep r c a d := by
  unfold addToComponent at h
  obtain ⟨name, hname, h⟩ := bind_eq_ok.1 h
  split at h
  · obtain ⟨as, has, h⟩ := bind_eq_ok.1 h
    obtain rfl := pure_eq_ok.1 h
    exact .visible hname has
  · obtain ⟨as, has, h⟩ := bind_eq_ok.1 h
    obtain rfl := pure_eq_ok.1 h
    exact .invisible hname has
  · obtain ⟨text, htext, h⟩ := bind_eq_ok.1 h
    obtain rfl := pure_eq_ok.1 h
    exact .signature hname htext
  · obtain rfl := pure_eq_ok.1 h
    refine .verbatim hname ?_
    simp only [componentAttributes, List.mem_cons, List.not_mem_nil]
    grind

theorem addToComponent_of_componentStep {c d : RecordComponent} {a : Stored.Attribute}
    (h : ComponentStep r c a d) : r.addToComponent c a = .ok d := by
  unfold addToComponent
  cases h with
  | visible name h => simp only [name, h, ok_bind, pure, Except.pure]
  | invisible name h => simp only [name, h, ok_bind, pure, Except.pure]
  | signature name h => simp only [name, h, ok_bind, pure, Except.pure]
  | verbatim name h =>
    rw [name, ok_bind]
    split
    all_goals first | exact absurd (by decide) h | rfl

/-- What an attribute does to a method. -/
inductive MethodStep (m : Method) (code : Option Stored.Code) (a : Stored.Attribute) :
    PartialMethod → Prop where
  | visible {as : List Annotation} (name : r.utf8 a.nameIndex = .ok "RuntimeVisibleAnnotations")
    (h : r.annotationAttribute .visibleAnnotations a.info = .ok as) :
    MethodStep m code a ({ m with annotations := { m.annotations with visible := as } }, code)
  | invisible {as : List Annotation}
    (name : r.utf8 a.nameIndex = .ok "RuntimeInvisibleAnnotations")
    (h : r.annotationAttribute .invisibleAnnotations a.info = .ok as) :
    MethodStep m code a ({ m with annotations := { m.annotations with invisible := as } }, code)
  | visibleParameters {ass : List (List Annotation)}
    (name : r.utf8 a.nameIndex = .ok "RuntimeVisibleParameterAnnotations")
    (h : r.parameterAnnotationAttribute .visibleParameterAnnotations a.info = .ok ass) :
    MethodStep m code a
      ({ m with parameterAnnotations := { m.parameterAnnotations with visible := some ass } },
        code)
  | invisibleParameters {ass : List (List Annotation)}
    (name : r.utf8 a.nameIndex = .ok "RuntimeInvisibleParameterAnnotations")
    (h : r.parameterAnnotationAttribute .invisibleParameterAnnotations a.info = .ok ass) :
    MethodStep m code a
      ({ m with parameterAnnotations := { m.parameterAnnotations with invisible := some ass } },
        code)
  | code {c : Stored.Code} (name : r.utf8 a.nameIndex = .ok "Code")
    (h : AttributeFormat.code.parse a.info = .ok c) : MethodStep m code a (m, some c)
  | exceptions {names : List BinaryName} (name : r.utf8 a.nameIndex = .ok "Exceptions")
    (h : r.classNames .exceptions a.info = .ok names) :
    MethodStep m code a ({ m with exceptions := names }, code)
  | signature {text : String} (name : r.utf8 a.nameIndex = .ok "Signature")
    (h : r.textAttribute .signature a.info = .ok text) :
    MethodStep m code a ({ m with signature := some text }, code)
  | annotationDefault {x : Stored.ElementValue} {value : ElementValue}
    (name : r.utf8 a.nameIndex = .ok "AnnotationDefault")
    (h : AttributeFormat.annotationDefault.parse a.info = .ok x)
    (hvalue : r.elementValue x = .ok value) :
    MethodStep m code a ({ m with annotationDefault := some value }, code)
  | verbatim {text : String} (name : r.utf8 a.nameIndex = .ok text)
    (h : text ∉ methodAttributes) :
    MethodStep m code a ({ m with attributes := m.attributes ++ [⟨text, a.info⟩] }, code)

theorem methodStep_of_addToMethod {m : Method} {code : Option Stored.Code} {n : PartialMethod}
    {a : Stored.Attribute} (h : r.addToMethod (m, code) a = .ok n) : MethodStep r m code a n := by
  unfold addToMethod at h
  obtain ⟨name, hname, h⟩ := bind_eq_ok.1 h
  split at h
  · obtain ⟨as, has, h⟩ := bind_eq_ok.1 h
    obtain rfl := pure_eq_ok.1 h
    exact .visible hname has
  · obtain ⟨as, has, h⟩ := bind_eq_ok.1 h
    obtain rfl := pure_eq_ok.1 h
    exact .invisible hname has
  · obtain ⟨ass, hass, h⟩ := bind_eq_ok.1 h
    obtain rfl := pure_eq_ok.1 h
    exact .visibleParameters hname hass
  · obtain ⟨ass, hass, h⟩ := bind_eq_ok.1 h
    obtain rfl := pure_eq_ok.1 h
    exact .invisibleParameters hname hass
  · obtain ⟨c, hc, h⟩ := bind_eq_ok.1 h
    obtain rfl := pure_eq_ok.1 h
    exact .code hname hc
  · obtain ⟨names, hnames, h⟩ := bind_eq_ok.1 h
    obtain rfl := pure_eq_ok.1 h
    exact .exceptions hname hnames
  · obtain ⟨text, htext, h⟩ := bind_eq_ok.1 h
    obtain rfl := pure_eq_ok.1 h
    exact .signature hname htext
  · obtain ⟨x, hx, h⟩ := bind_eq_ok.1 h
    obtain ⟨value, hvalue, h⟩ := bind_eq_ok.1 h
    obtain rfl := pure_eq_ok.1 h
    exact .annotationDefault hname hx hvalue
  · obtain rfl := pure_eq_ok.1 h
    refine .verbatim hname ?_
    simp only [methodAttributes, List.mem_cons, List.not_mem_nil]
    grind

theorem addToMethod_of_methodStep {m : Method} {code : Option Stored.Code} {n : PartialMethod}
    {a : Stored.Attribute} (h : MethodStep r m code a n) : r.addToMethod (m, code) a = .ok n := by
  unfold addToMethod
  cases h with
  | visible name h => simp only [name, h, ok_bind, pure, Except.pure]
  | invisible name h => simp only [name, h, ok_bind, pure, Except.pure]
  | visibleParameters name h => simp only [name, h, ok_bind, pure, Except.pure]
  | invisibleParameters name h => simp only [name, h, ok_bind, pure, Except.pure]
  | code name h => simp only [name, h, ok_bind, pure, Except.pure]
  | exceptions name h => simp only [name, h, ok_bind, pure, Except.pure]
  | signature name h => simp only [name, h, ok_bind, pure, Except.pure]
  | annotationDefault name h hvalue => simp only [name, h, hvalue, ok_bind, pure, Except.pure]
  | verbatim name h =>
    simp only [name, ok_bind]
    split
    all_goals first | exact absurd (by decide) h | rfl

/-- What an attribute does to a class. -/
inductive ClassStep (c : Class) (a : Stored.Attribute) : Class → Prop where
  | visible {as : List Annotation} (name : r.utf8 a.nameIndex = .ok "RuntimeVisibleAnnotations")
    (h : r.annotationAttribute .visibleAnnotations a.info = .ok as) :
    ClassStep c a { c with annotations := { c.annotations with visible := as } }
  | invisible {as : List Annotation}
    (name : r.utf8 a.nameIndex = .ok "RuntimeInvisibleAnnotations")
    (h : r.annotationAttribute .invisibleAnnotations a.info = .ok as) :
    ClassStep c a { c with annotations := { c.annotations with invisible := as } }
  | bootstrapMethods (name : r.utf8 a.nameIndex = .ok "BootstrapMethods") : ClassStep c a c
  | sourceFile {text : String} (name : r.utf8 a.nameIndex = .ok "SourceFile")
    (h : r.textAttribute .sourceFile a.info = .ok text) :
    ClassStep c a { c with sourceFile := some text }
  | signature {text : String} (name : r.utf8 a.nameIndex = .ok "Signature")
    (h : r.textAttribute .signature a.info = .ok text) :
    ClassStep c a { c with signature := some text }
  | innerClasses {xs : List Stored.InnerClass} {cs : List InnerClass}
    (name : r.utf8 a.nameIndex = .ok "InnerClasses")
    (h : AttributeFormat.innerClasses.parse a.info = .ok xs) (hcs : xs.mapM r.innerClass = .ok cs) :
    ClassStep c a { c with innerClasses := c.innerClasses ++ cs }
  | enclosingMethod {x : Stored.EnclosingMethod} {e : EnclosingMethod}
    (name : r.utf8 a.nameIndex = .ok "EnclosingMethod")
    (h : AttributeFormat.enclosingMethod.parse a.info = .ok x) (he : r.enclosingMethod x = .ok e) :
    ClassStep c a { c with enclosingMethod := some e }
  | nestHost {i : ConstantIndex} {host : BinaryName} (name : r.utf8 a.nameIndex = .ok "NestHost")
    (h : AttributeFormat.nestHost.parse a.info = .ok i) (hhost : r.className i = .ok host) :
    ClassStep c a { c with nestHost := some host }
  | nestMembers {names : List BinaryName} (name : r.utf8 a.nameIndex = .ok "NestMembers")
    (h : r.classNames .nestMembers a.info = .ok names) :
    ClassStep c a { c with nestMembers := names }
  | permittedSubclasses {names : List BinaryName}
    (name : r.utf8 a.nameIndex = .ok "PermittedSubclasses")
    (h : r.classNames .permittedSubclasses a.info = .ok names) :
    ClassStep c a { c with permittedSubclasses := names }
  | record {xs : List Stored.RecordComponent} {cs : List RecordComponent}
    (name : r.utf8 a.nameIndex = .ok "Record")
    (h : AttributeFormat.record.parse a.info = .ok xs) (hcs : xs.mapM r.recordComponent = .ok cs) :
    ClassStep c a { c with recordComponents := some cs }
  | verbatim {text : String} (name : r.utf8 a.nameIndex = .ok text)
    (h : text ∉ classAttributes) :
    ClassStep c a { c with attributes := c.attributes ++ [⟨text, a.info⟩] }

theorem classStep_of_addToClass {c d : Class} {a : Stored.Attribute}
    (h : r.addToClass c a = .ok d) : ClassStep r c a d := by
  unfold addToClass at h
  obtain ⟨name, hname, h⟩ := bind_eq_ok.1 h
  split at h
  · obtain ⟨as, has, h⟩ := bind_eq_ok.1 h
    obtain rfl := pure_eq_ok.1 h
    exact .visible hname has
  · obtain ⟨as, has, h⟩ := bind_eq_ok.1 h
    obtain rfl := pure_eq_ok.1 h
    exact .invisible hname has
  · obtain rfl := pure_eq_ok.1 h
    exact .bootstrapMethods hname
  · obtain ⟨text, htext, h⟩ := bind_eq_ok.1 h
    obtain rfl := pure_eq_ok.1 h
    exact .sourceFile hname htext
  · obtain ⟨text, htext, h⟩ := bind_eq_ok.1 h
    obtain rfl := pure_eq_ok.1 h
    exact .signature hname htext
  · obtain ⟨xs, hxs, h⟩ := bind_eq_ok.1 h
    obtain ⟨cs, hcs, h⟩ := bind_eq_ok.1 h
    obtain rfl := pure_eq_ok.1 h
    exact .innerClasses hname hxs hcs
  · obtain ⟨x, hx, h⟩ := bind_eq_ok.1 h
    obtain ⟨e, he, h⟩ := bind_eq_ok.1 h
    obtain rfl := pure_eq_ok.1 h
    exact .enclosingMethod hname hx he
  · obtain ⟨i, hi, h⟩ := bind_eq_ok.1 h
    obtain ⟨host, hhost, h⟩ := bind_eq_ok.1 h
    obtain rfl := pure_eq_ok.1 h
    exact .nestHost hname hi hhost
  · obtain ⟨names, hnames, h⟩ := bind_eq_ok.1 h
    obtain rfl := pure_eq_ok.1 h
    exact .nestMembers hname hnames
  · obtain ⟨names, hnames, h⟩ := bind_eq_ok.1 h
    obtain rfl := pure_eq_ok.1 h
    exact .permittedSubclasses hname hnames
  · obtain ⟨xs, hxs, h⟩ := bind_eq_ok.1 h
    obtain ⟨cs, hcs, h⟩ := bind_eq_ok.1 h
    obtain rfl := pure_eq_ok.1 h
    exact .record hname hxs hcs
  · obtain rfl := pure_eq_ok.1 h
    refine .verbatim hname ?_
    simp only [classAttributes, List.mem_cons, List.not_mem_nil]
    grind

theorem addToClass_of_classStep {c d : Class} {a : Stored.Attribute} (h : ClassStep r c a d) :
    r.addToClass c a = .ok d := by
  unfold addToClass
  cases h with
  | visible name h => simp only [name, h, ok_bind, pure, Except.pure]
  | invisible name h => simp only [name, h, ok_bind, pure, Except.pure]
  | bootstrapMethods name => simp only [name, ok_bind, pure, Except.pure]
  | sourceFile name h => simp only [name, h, ok_bind, pure, Except.pure]
  | signature name h => simp only [name, h, ok_bind, pure, Except.pure]
  | innerClasses name h hcs => simp only [name, h, hcs, ok_bind, pure, Except.pure]
  | enclosingMethod name h he => simp only [name, h, he, ok_bind, pure, Except.pure]
  | nestHost name h hhost => simp only [name, h, hhost, ok_bind, pure, Except.pure]
  | nestMembers name h => simp only [name, h, ok_bind, pure, Except.pure]
  | permittedSubclasses name h => simp only [name, h, ok_bind, pure, Except.pure]
  | record name h hcs => simp only [name, h, hcs, ok_bind, pure, Except.pure]
  | verbatim name h =>
    rw [name, ok_bind]
    split
    all_goals first | exact absurd (by decide) h | rfl

/-- What an attribute does to the tables of code. -/
inductive CodeStep (t : Stored.CodeTables) (a : Stored.Attribute) : Stored.CodeTables → Prop where
  | lineNumbers {ls : List Stored.LineNumber}
    (name : r.utf8 a.nameIndex = .ok "LineNumberTable")
    (h : AttributeFormat.lineNumberTable.parse a.info = .ok ls) :
    CodeStep t a { t with lineNumbers := t.lineNumbers ++ ls }
  | localVariables {vs : List Stored.LocalVariable}
    (name : r.utf8 a.nameIndex = .ok "LocalVariableTable")
    (h : AttributeFormat.localVariableTable.parse a.info = .ok vs) :
    CodeStep t a { t with localVariables := t.localVariables ++ vs }
  | localVariableTypes {vs : List Stored.LocalVariable}
    (name : r.utf8 a.nameIndex = .ok "LocalVariableTypeTable")
    (h : AttributeFormat.localVariableTypeTable.parse a.info = .ok vs) :
    CodeStep t a { t with localVariableTypes := t.localVariableTypes ++ vs }
  | frames {fs : List Stored.FrameEntry} (name : r.utf8 a.nameIndex = .ok "StackMapTable")
    (h : AttributeFormat.stackMapTable.parse a.info = .ok fs) :
    CodeStep t a { t with frames := fs }
  | verbatim {text : String} (name : r.utf8 a.nameIndex = .ok text) (h : text ∉ codeAttributes) :
    CodeStep t a { t with attributes := t.attributes ++ [⟨text, a.info⟩] }

theorem codeStep_of_add {t u : Stored.CodeTables} {a : Stored.Attribute}
    (h : t.add r a = .ok u) : CodeStep r t a u := by
  unfold Stored.CodeTables.add at h
  obtain ⟨name, hname, h⟩ := bind_eq_ok.1 h
  split at h
  · obtain ⟨ls, hls, h⟩ := bind_eq_ok.1 h
    obtain rfl := pure_eq_ok.1 h
    exact .lineNumbers hname hls
  · obtain ⟨vs, hvs, h⟩ := bind_eq_ok.1 h
    obtain rfl := pure_eq_ok.1 h
    exact .localVariables hname hvs
  · obtain ⟨vs, hvs, h⟩ := bind_eq_ok.1 h
    obtain rfl := pure_eq_ok.1 h
    exact .localVariableTypes hname hvs
  · obtain ⟨fs, hfs, h⟩ := bind_eq_ok.1 h
    obtain rfl := pure_eq_ok.1 h
    exact .frames hname hfs
  · obtain rfl := pure_eq_ok.1 h
    refine .verbatim hname ?_
    simp only [codeAttributes, List.mem_cons, List.not_mem_nil]
    grind

end ClassPatch.Resolver
