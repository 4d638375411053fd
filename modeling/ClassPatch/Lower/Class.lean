import ClassPatch.Class.Basic
import ClassPatch.Lower.Annotation
import ClassPatch.Lower.Code
import ClassPatch.Stored.ClassFile

/-!
Lowering a class to a class file. Attributes stand in a fixed order, so equal classes give equal
bytes.

Constants are added to those of the class file that the class was read from, and its bootstrap
methods are put back where they were, so indices within attributes that were carried along stay
right.
-/

namespace ClassPatch

namespace PoolM

/-- The attribute for a value, if there is one. -/
def ifSome {α : Type} (store : α → PoolM Stored.Attribute) (a : Option α) :
    PoolM (List Stored.Attribute) := do
  return (← a.mapM store).toList

/-- The attribute for a text. -/
def textAttribute (format : AttributeFormat ConstantIndex) (text : String) :
    PoolM Stored.Attribute := do
  format.store (← utf8 text)

/-- The attribute for a class. -/
def classAttribute (format : AttributeFormat ConstantIndex) (name : BinaryName) :
    PoolM Stored.Attribute := do
  format.store (← className name)

/-- The attribute for a list of classes. -/
def classesAttribute (format : AttributeFormat (List ConstantIndex)) (names : List BinaryName) :
    PoolM Stored.Attribute := do
  format.store (← names.mapM className)

/-- The attributes for annotations, the visible ones first. -/
def annotationAttributes (as : Annotations) : PoolM (List Stored.Attribute) := do
  let visible ← unlessEmpty
    (fun as => do AttributeFormat.visibleAnnotations.store (← annotations as)) as.visible
  let invisible ← unlessEmpty
    (fun as => do AttributeFormat.invisibleAnnotations.store (← annotations as)) as.invisible
  return visible ++ invisible

/-- The attributes for the annotations of parameters. -/
def parameterAnnotationAttributes (as : ParameterAnnotations) : PoolM (List Stored.Attribute) := do
  let visible ← ifSome
    (fun as => do AttributeFormat.visibleParameterAnnotations.store (← as.mapM annotations))
    as.visible
  let invisible ← ifSome
    (fun as => do AttributeFormat.invisibleParameterAnnotations.store (← as.mapM annotations))
    as.invisible
  return visible ++ invisible

def constantValueAttribute (value : LoadableConstant) : PoolM Stored.Attribute := do
  AttributeFormat.constantValue.store (← loadable value)

def field (f : Field) : PoolM (Stored.Member .field) := do
  let nameIndex ← utf8 f.name.text
  let descriptorIndex ← utf8 f.descriptor.render
  let constantValue ← ifSome constantValueAttribute f.constantValue
  let signature ← ifSome (textAttribute .signature) f.signature
  let annotations ← annotationAttributes f.annotations
  let attributes ← f.attributes.mapM verbatim
  return {
    accessFlags := f.accessFlags
    nameIndex
    descriptorIndex
    attributes := constantValue ++ signature ++ annotations ++ attributes }

def codeAttribute (context : MethodContext) (c : Code) : PoolM Stored.Attribute := do
  AttributeFormat.code.store (← code context c)

def defaultAttribute (value : ElementValue) : PoolM Stored.Attribute := do
  AttributeFormat.annotationDefault.store (← elementValue value)

/-- A method of the class. -/
def method (owner : BinaryName) (m : Method) : PoolM (Stored.Member .method) := do
  let nameIndex ← utf8 m.name.text
  let descriptorIndex ← utf8 m.descriptor.render
  let code ← ifSome (codeAttribute (m.context owner)) m.code
  let exceptions ← unlessEmpty (classesAttribute .exceptions) m.exceptions
  let signature ← ifSome (textAttribute .signature) m.signature
  let annotations ← annotationAttributes m.annotations
  let parameterAnnotations ← parameterAnnotationAttributes m.parameterAnnotations
  let annotationDefault ← ifSome defaultAttribute m.annotationDefault
  let attributes ← m.attributes.mapM verbatim
  return {
    accessFlags := m.accessFlags
    nameIndex
    descriptorIndex
    attributes := code ++ exceptions ++ signature ++ annotations ++ parameterAnnotations
      ++ annotationDefault ++ attributes }

def innerClass (c : InnerClass) : PoolM Stored.InnerClass := do
  return {
    innerClass := ← className c.innerClass
    outerClass := ← c.outerClass.mapM className
    innerName := ← c.innerName.mapM utf8
    accessFlags := c.accessFlags }

def enclosingMethod (e : EnclosingMethod) : PoolM Stored.EnclosingMethod := do
  return {
    enclosingClass := ← className e.enclosingClass
    method := ← e.method.mapM fun (name, descriptor) => nameAndType name.text descriptor.render }

def recordComponent (c : RecordComponent) : PoolM Stored.RecordComponent := do
  let name ← utf8 c.name.text
  let descriptor ← utf8 c.descriptor.render
  let signature ← ifSome (textAttribute .signature) c.signature
  let annotations ← annotationAttributes c.annotations
  let attributes ← c.attributes.mapM verbatim
  return { name, descriptor, attributes := signature ++ annotations ++ attributes }

/-- Put the bootstrap methods that a class was read with back where they were. -/
def restoreBootstraps (bootstraps : List BootstrapMethod) : PoolM Unit := do
  let first ← reserveBootstraps bootstraps.length
  for (b, i) in bootstraps.zipIdx do
    fillBootstrap (first + UInt16.ofNat i) (← bootstrapParts b)

/-- The attributes of a class, other than the table of bootstrap methods. -/
def classAttributes (c : Class) : PoolM (List Stored.Attribute) := do
  let sourceFile ← ifSome (textAttribute .sourceFile) c.sourceFile
  let signature ← ifSome (textAttribute .signature) c.signature
  let innerClasses ← unlessEmpty
    (fun cs => do AttributeFormat.innerClasses.store (← cs.mapM innerClass)) c.innerClasses
  let enclosing ← ifSome
    (fun e => do AttributeFormat.enclosingMethod.store (← enclosingMethod e)) c.enclosingMethod
  let nestHost ← ifSome (classAttribute .nestHost) c.nestHost
  let nestMembers ← unlessEmpty (classesAttribute .nestMembers) c.nestMembers
  let permitted ← unlessEmpty (classesAttribute .permittedSubclasses) c.permittedSubclasses
  let record ← ifSome
    (fun cs => do AttributeFormat.record.store (← cs.mapM recordComponent)) c.recordComponents
  let annotations ← annotationAttributes c.annotations
  let attributes ← c.attributes.mapM verbatim
  return sourceFile ++ signature ++ innerClasses ++ enclosing ++ nestHost ++ nestMembers
    ++ permitted ++ record ++ annotations ++ attributes

/-- The attribute for the table of bootstrap methods, unless the table is empty. -/
def bootstrapTable : PoolM (List Stored.Attribute) := do
  unlessEmpty AttributeFormat.bootstrapMethods.store (← get).bootstrapMethods.toList

/-- The class file of a class, whose constants are added to the pool. -/
def classFile (c : Class) : PoolM Stored.ClassFile := do
  restoreBootstraps c.bootstrapMethods
  let thisClass ← className c.name
  let superClass ← c.superName.mapM className
  let interfaces ← c.interfaces.mapM className
  let fields ← c.fields.mapM field
  let methods ← c.methods.mapM (method c.name)
  let attributes ← classAttributes c
  let table ← bootstrapTable
  return {
    version := c.version
    constants := (← get).constants
    accessFlags := c.accessFlags
    thisClass
    superClass
    interfaces
    fields
    methods
    attributes := attributes ++ table }

end PoolM

namespace Class

/-- The pool that lowering starts from. -/
def initialPool (c : Class) : Pool :=
  match c.constantPool with
  | some constants => .ofTable constants
  | none => .empty

/-- The class file of a class. -/
def toClassFile (c : Class) : Except ClassError Stored.ClassFile :=
  ((PoolM.classFile c).run c.initialPool).1

/-- The bytes of the class file of a class. -/
def toBytes (c : Class) : Except ClassError Bytes := do
  return (← c.toClassFile).write

end Class

end ClassPatch
