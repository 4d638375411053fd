import ClassPatch.AccessFlags
import ClassPatch.Class.Annotation
import ClassPatch.Class.Code
import ClassPatch.Pool.Format
import ClassPatch.Version

/-!
Classes as they are edited. References are resolved, except within attributes that are carried along
as they are. Those may hold indices of constants, so a class that was read keeps the constants of
its class file, and lowering adds to them.
-/

namespace ClassPatch

/-- A field of a class. -/
structure Field where
  accessFlags : FieldFlags
  name : UnqualifiedName
  descriptor : FieldType
  signature : Option String := none
  constantValue : Option LoadableConstant := none
  annotations : Annotations := {}
  attributes : List VerbatimAttribute := []
  deriving DecidableEq

/-- A method of a class. -/
structure Method where
  accessFlags : MethodFlags
  name : UnqualifiedName
  descriptor : MethodDescriptor
  signature : Option String := none
  exceptions : List BinaryName := []
  annotations : Annotations := {}
  parameterAnnotations : ParameterAnnotations := {}
  annotationDefault : Option ElementValue := none
  code : Option Code := none
  attributes : List VerbatimAttribute := []
  deriving DecidableEq

namespace Method

def isStatic (m : Method) : Bool := m.accessFlags.contains AccessFlags.staticBit

def context (m : Method) (className : BinaryName) : MethodContext where
  className
  methodName := m.name
  descriptor := m.descriptor
  isStatic := m.isStatic

end Method

/-- A class that is a member of another or local to a method. -/
structure InnerClass where
  innerClass : BinaryName
  outerClass : Option BinaryName
  innerName : Option String
  accessFlags : InnerClassFlags
  deriving DecidableEq

/-- The class, and the method if there is one, that a class is local to. -/
structure EnclosingMethod where
  enclosingClass : BinaryName
  method : Option (UnqualifiedName × MethodDescriptor)
  deriving DecidableEq

/-- A component of a record. -/
structure RecordComponent where
  name : UnqualifiedName
  descriptor : FieldType
  signature : Option String := none
  annotations : Annotations := {}
  attributes : List VerbatimAttribute := []
  deriving DecidableEq

/-- A class or interface. -/
structure Class where
  version : Version
  accessFlags : ClassFlags
  name : BinaryName
  superName : Option BinaryName
  interfaces : List BinaryName := []
  fields : List Field := []
  methods : List Method := []
  sourceFile : Option String := none
  signature : Option String := none
  innerClasses : List InnerClass := []
  enclosingMethod : Option EnclosingMethod := none
  nestHost : Option BinaryName := none
  nestMembers : List BinaryName := []
  permittedSubclasses : List BinaryName := []
  /-- Components of a record; other classes have none. -/
  recordComponents : Option (List RecordComponent) := none
  annotations : Annotations := {}
  attributes : List VerbatimAttribute := []
  /-- Constants of the class file that the class was read from. -/
  constantPool : Option ConstantTable := none
  /-- Bootstrap methods of that class file, which its constants refer to by index. -/
  bootstrapMethods : List BootstrapMethod := []
  deriving DecidableEq

namespace Class

def isInterface (c : Class) : Bool := c.accessFlags.contains AccessFlags.interfaceBit

/-- Whether the class or a part of it carries an attribute that may hold indices of constants. -/
def hasVerbatimAttributes (c : Class) : Bool :=
  !c.attributes.isEmpty
    || c.fields.any (!·.attributes.isEmpty)
    || c.methods.any (fun m => !m.attributes.isEmpty || m.code.any (!·.attributes.isEmpty))
    || c.recordComponents.any (·.any (!·.attributes.isEmpty))

end Class

end ClassPatch
