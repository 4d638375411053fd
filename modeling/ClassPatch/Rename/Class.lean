import ClassPatch.Class.Basic
import ClassPatch.Rename.Annotation
import ClassPatch.Rename.Code

/-!
Renaming classes wherever a class refers to them. Attributes that are carried along as they are stay
the same, and so do the constants that they may refer to.
-/

namespace ClassPatch

namespace Field

def rename (r : Renaming) (f : Field) : Field :=
  { f with
    descriptor := f.descriptor.rename r
    signature := f.signature.map (SignatureText.rename r)
    constantValue := f.constantValue.map (·.rename r)
    annotations := f.annotations.rename r }

def names (f : Field) : List String :=
  f.descriptor.names
    ++ f.signature.elim [] SignatureText.names
    ++ f.constantValue.elim [] LoadableConstant.names
    ++ f.annotations.names

end Field

namespace Method

def rename (r : Renaming) (m : Method) : Method :=
  { m with
    descriptor := m.descriptor.rename r
    signature := m.signature.map (SignatureText.rename r)
    exceptions := m.exceptions.map r.apply
    annotations := m.annotations.rename r
    parameterAnnotations := m.parameterAnnotations.rename r
    annotationDefault := m.annotationDefault.map (ElementValue.rename r)
    code := m.code.map (·.rename r) }

def names (m : Method) : List String :=
  m.descriptor.names
    ++ m.signature.elim [] SignatureText.names
    ++ m.exceptions.map BinaryName.text
    ++ m.annotations.names
    ++ m.parameterAnnotations.names
    ++ m.annotationDefault.elim [] ElementValue.names
    ++ m.code.elim [] Code.names

end Method

namespace InnerClass

def rename (r : Renaming) (c : InnerClass) : InnerClass :=
  { c with
    innerClass := r.apply c.innerClass
    outerClass := c.outerClass.map r.apply }

def names (c : InnerClass) : List String :=
  c.innerClass.text :: (c.outerClass.map BinaryName.text).toList

end InnerClass

namespace EnclosingMethod

def rename (r : Renaming) (e : EnclosingMethod) : EnclosingMethod where
  enclosingClass := r.apply e.enclosingClass
  method := e.method.map fun (name, descriptor) => (name, descriptor.rename r)

def names (e : EnclosingMethod) : List String :=
  e.enclosingClass.text :: e.method.elim [] (·.2.names)

end EnclosingMethod

namespace RecordComponent

def rename (r : Renaming) (c : RecordComponent) : RecordComponent :=
  { c with
    descriptor := c.descriptor.rename r
    signature := c.signature.map (SignatureText.rename r)
    annotations := c.annotations.rename r }

def names (c : RecordComponent) : List String :=
  c.descriptor.names
    ++ c.signature.elim [] SignatureText.names
    ++ c.annotations.names

end RecordComponent

namespace Class

/--
Rename classes. The constants that the class was read with, and its bootstrap methods, are kept only
if an attribute may refer to them; otherwise the class is lowered with new ones.
-/
def rename (r : Renaming) (c : Class) : Class :=
  { c with
    name := r.apply c.name
    superName := c.superName.map r.apply
    interfaces := c.interfaces.map r.apply
    fields := c.fields.map (·.rename r)
    methods := c.methods.map (·.rename r)
    signature := c.signature.map (SignatureText.rename r)
    innerClasses := c.innerClasses.map (·.rename r)
    enclosingMethod := c.enclosingMethod.map (·.rename r)
    nestHost := c.nestHost.map r.apply
    nestMembers := c.nestMembers.map r.apply
    permittedSubclasses := c.permittedSubclasses.map r.apply
    recordComponents := c.recordComponents.map (·.map (·.rename r))
    annotations := c.annotations.rename r
    constantPool := if c.hasVerbatimAttributes then c.constantPool else none
    bootstrapMethods :=
      if c.hasVerbatimAttributes then c.bootstrapMethods.map (·.rename r) else [] }

/-- Names of classes that are looked up when classes are renamed. -/
def names (c : Class) : List String :=
  c.name.text :: (c.superName.map BinaryName.text).toList
    ++ c.interfaces.map BinaryName.text
    ++ c.fields.flatMap Field.names
    ++ c.methods.flatMap Method.names
    ++ c.signature.elim [] SignatureText.names
    ++ c.innerClasses.flatMap InnerClass.names
    ++ c.enclosingMethod.elim [] EnclosingMethod.names
    ++ (c.nestHost.map BinaryName.text).toList
    ++ c.nestMembers.map BinaryName.text
    ++ c.permittedSubclasses.map BinaryName.text
    ++ (c.recordComponents.getD []).flatMap RecordComponent.names
    ++ c.annotations.names
    ++ if c.hasVerbatimAttributes then c.bootstrapMethods.flatMap BootstrapMethod.names else []

/-- Whether a renaming of the name would change the class. -/
def mentions (c : Class) (name : String) : Bool := c.names.contains name

end Class

end ClassPatch
