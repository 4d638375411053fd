import ClassPatch.Class.Basic
import ClassPatch.Lift.Annotation
import ClassPatch.Lift.Code
import ClassPatch.Stored.ClassFile

/-!
Lifting a class file to a class. Attributes are taken in their order; where one can only hold for a
class or member once, the last counts.
-/

namespace ClassPatch

namespace Resolver

variable (r : Resolver)

/-- The text that a signature or the name of a source file is. -/
def textAttribute (format : AttributeFormat ConstantIndex) (info : Bytes) :
    Except ClassError String := do
  r.utf8 (← format.parse info)

/-- The classes that an attribute lists. -/
def classNames (format : AttributeFormat (List ConstantIndex)) (info : Bytes) :
    Except ClassError (List BinaryName) := do
  (← format.parse info).mapM r.className

def annotationAttribute (format : AttributeFormat (List Stored.Annotation)) (info : Bytes) :
    Except ClassError (List Annotation) := do
  r.annotations (← format.parse info)

def parameterAnnotationAttribute (format : AttributeFormat (List (List Stored.Annotation)))
    (info : Bytes) : Except ClassError (List (List Annotation)) := do
  (← format.parse info).mapM r.annotations

/-- Add an attribute to a field. -/
def addToField (field : Field) (a : Stored.Attribute) : Except ClassError Field := do
  match ← r.utf8 a.nameIndex with
  | "RuntimeVisibleAnnotations" =>
    let as ← r.annotationAttribute .visibleAnnotations a.info
    return { field with annotations := { field.annotations with visible := as } }
  | "RuntimeInvisibleAnnotations" =>
    let as ← r.annotationAttribute .invisibleAnnotations a.info
    return { field with annotations := { field.annotations with invisible := as } }
  | "ConstantValue" =>
    let value ← r.loadable (← AttributeFormat.constantValue.parse a.info)
    return { field with constantValue := some value }
  | "Signature" => return { field with signature := some (← r.textAttribute .signature a.info) }
  | name => return { field with attributes := field.attributes ++ [⟨name, a.info⟩] }

def field (f : Stored.Member .field) : Except ClassError Field := do
  let name ← r.unqualifiedName f.nameIndex
  let descriptor ← r.fieldType f.descriptorIndex
  f.attributes.foldlM r.addToField { accessFlags := f.accessFlags, name, descriptor }

/-- A method whose code is not lifted yet. -/
abbrev PartialMethod := Method × Option Stored.Code

/-- Add an attribute to a method. -/
def addToMethod (method : PartialMethod) (a : Stored.Attribute) :
    Except ClassError PartialMethod := do
  let (m, code) := method
  match ← r.utf8 a.nameIndex with
  | "RuntimeVisibleAnnotations" =>
    let as ← r.annotationAttribute .visibleAnnotations a.info
    return ({ m with annotations := { m.annotations with visible := as } }, code)
  | "RuntimeInvisibleAnnotations" =>
    let as ← r.annotationAttribute .invisibleAnnotations a.info
    return ({ m with annotations := { m.annotations with invisible := as } }, code)
  | "RuntimeVisibleParameterAnnotations" =>
    let as ← r.parameterAnnotationAttribute .visibleParameterAnnotations a.info
    let parameterAnnotations := { m.parameterAnnotations with visible := some as }
    return ({ m with parameterAnnotations }, code)
  | "RuntimeInvisibleParameterAnnotations" =>
    let as ← r.parameterAnnotationAttribute .invisibleParameterAnnotations a.info
    let parameterAnnotations := { m.parameterAnnotations with invisible := some as }
    return ({ m with parameterAnnotations }, code)
  | "Code" => return (m, some (← AttributeFormat.code.parse a.info))
  | "Exceptions" => return ({ m with exceptions := ← r.classNames .exceptions a.info }, code)
  | "Signature" =>
    return ({ m with signature := some (← r.textAttribute .signature a.info) }, code)
  | "AnnotationDefault" =>
    let value ← r.elementValue (← AttributeFormat.annotationDefault.parse a.info)
    return ({ m with annotationDefault := some value }, code)
  | name => return ({ m with attributes := m.attributes ++ [⟨name, a.info⟩] }, code)

/-- A method of the class. Its code is lifted last, since the first frame depends on the method. -/
def method (className : BinaryName) (m : Stored.Member .method) : Except ClassError Method := do
  let name ← r.unqualifiedName m.nameIndex
  let descriptor ← r.methodDescriptor m.descriptorIndex
  let (method, code) ←
    m.attributes.foldlM r.addToMethod ({ accessFlags := m.accessFlags, name, descriptor }, none)
  match code with
  | none => return method
  | some c => return { method with code := some (← r.code (method.context className) c) }

def innerClass (c : Stored.InnerClass) : Except ClassError InnerClass := do
  return {
    innerClass := ← r.className c.innerClass
    outerClass := ← c.outerClass.mapM r.className
    innerName := ← c.innerName.mapM r.utf8
    accessFlags := c.accessFlags }

/-- Name and descriptor of a method. -/
def methodNameAndType (index : ConstantIndex) :
    Except ClassError (UnqualifiedName × MethodDescriptor) := do
  let (name, descriptor) ← r.constants.nameAndType index
  return (← parseUnqualifiedName name, ← parseMethodDescriptor descriptor)

def enclosingMethod (e : Stored.EnclosingMethod) : Except ClassError EnclosingMethod := do
  let method ← e.method.mapM r.methodNameAndType
  return { enclosingClass := ← r.className e.enclosingClass, method }

/-- Add an attribute to a component of a record. -/
def addToComponent (c : RecordComponent) (a : Stored.Attribute) :
    Except ClassError RecordComponent := do
  match ← r.utf8 a.nameIndex with
  | "RuntimeVisibleAnnotations" =>
    let as ← r.annotationAttribute .visibleAnnotations a.info
    return { c with annotations := { c.annotations with visible := as } }
  | "RuntimeInvisibleAnnotations" =>
    let as ← r.annotationAttribute .invisibleAnnotations a.info
    return { c with annotations := { c.annotations with invisible := as } }
  | "Signature" => return { c with signature := some (← r.textAttribute .signature a.info) }
  | name => return { c with attributes := c.attributes ++ [⟨name, a.info⟩] }

def recordComponent (c : Stored.RecordComponent) : Except ClassError RecordComponent := do
  let name ← r.unqualifiedName c.name
  let descriptor ← r.fieldType c.descriptor
  c.attributes.foldlM r.addToComponent { name, descriptor }

/-- Add an attribute to a class. The table of bootstrap methods is part of the resolver. -/
def addToClass (c : Class) (a : Stored.Attribute) : Except ClassError Class := do
  match ← r.utf8 a.nameIndex with
  | "RuntimeVisibleAnnotations" =>
    let as ← r.annotationAttribute .visibleAnnotations a.info
    return { c with annotations := { c.annotations with visible := as } }
  | "RuntimeInvisibleAnnotations" =>
    let as ← r.annotationAttribute .invisibleAnnotations a.info
    return { c with annotations := { c.annotations with invisible := as } }
  | "BootstrapMethods" => return c
  | "SourceFile" => return { c with sourceFile := some (← r.textAttribute .sourceFile a.info) }
  | "Signature" => return { c with signature := some (← r.textAttribute .signature a.info) }
  | "InnerClasses" =>
    let innerClasses ← (← AttributeFormat.innerClasses.parse a.info).mapM r.innerClass
    return { c with innerClasses := c.innerClasses ++ innerClasses }
  | "EnclosingMethod" =>
    let enclosing ← r.enclosingMethod (← AttributeFormat.enclosingMethod.parse a.info)
    return { c with enclosingMethod := some enclosing }
  | "NestHost" =>
    return { c with nestHost := some (← r.className (← AttributeFormat.nestHost.parse a.info)) }
  | "NestMembers" => return { c with nestMembers := ← r.classNames .nestMembers a.info }
  | "PermittedSubclasses" =>
    return { c with permittedSubclasses := ← r.classNames .permittedSubclasses a.info }
  | "Record" =>
    let components ← (← AttributeFormat.record.parse a.info).mapM r.recordComponent
    return { c with recordComponents := some components }
  | name => return { c with attributes := c.attributes ++ [⟨name, a.info⟩] }

end Resolver

namespace Stored.ClassFile

/-- The table of bootstrap methods. -/
def bootstrapMethods (file : ClassFile) : Except ClassError (List BootstrapEntry) :=
  file.attributes.foldlM (fun table a => do
    if (← file.constants.utf8 a.nameIndex) = "BootstrapMethods" then
      AttributeFormat.bootstrapMethods.parse a.info
    else
      return table) []

end Stored.ClassFile

namespace Class

/-- The class that a class file describes. -/
def ofClassFile (file : Stored.ClassFile) : Except ClassError Class := do
  let bootstrapMethods ← file.bootstrapMethods
  let r : Resolver := ⟨file.constants, bootstrapMethods⟩
  let name ← r.className file.thisClass
  let superName ← file.superClass.mapM r.className
  let interfaces ← file.interfaces.mapM r.className
  let fields ← file.fields.mapM r.field
  let methods ← file.methods.mapM (r.method name)
  let c ← file.attributes.foldlM r.addToClass
    { version := file.version
      accessFlags := file.accessFlags
      name
      superName
      interfaces
      fields
      methods }
  return { c with
    bootstrapMethods := ← r.bootstraps
    constantPool := some file.constants }

/-- The class that the bytes of a class file describe. -/
def parse (bytes : Bytes) : Except ClassError Class := do
  ofClassFile (← Stored.ClassFile.parse bytes)

end Class

end ClassPatch
