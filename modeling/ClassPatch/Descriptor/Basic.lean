import ClassPatch.Name

/-!
Types of fields and methods, and their descriptors. `chars` writes a type in the one form in which
it stands in a class file.
-/

namespace ClassPatch

/-- Primitive types. -/
inductive BaseType where
  | byte | char | double | float | int | long | short | boolean
  deriving DecidableEq, Repr

namespace BaseType

/-- Slots that a value takes in a frame. -/
def width : BaseType → Nat
  | .double | .long => 2
  | _ => 1

def letter : BaseType → Char
  | .byte => 'B'
  | .char => 'C'
  | .double => 'D'
  | .float => 'F'
  | .int => 'I'
  | .long => 'J'
  | .short => 'S'
  | .boolean => 'Z'

def ofLetter? : Char → Option BaseType
  | 'B' => some .byte
  | 'C' => some .char
  | 'D' => some .double
  | 'F' => some .float
  | 'I' => some .int
  | 'J' => some .long
  | 'S' => some .short
  | 'Z' => some .boolean
  | _ => none

theorem ofLetter?_letter (t : BaseType) : ofLetter? t.letter = some t := by
  cases t <;> rfl

/-- Operand of `newarray` for an array of this type. -/
def arrayCode : BaseType → UInt8
  | .boolean => 4
  | .char => 5
  | .float => 6
  | .double => 7
  | .byte => 8
  | .short => 9
  | .int => 10
  | .long => 11

def ofArrayCode? : UInt8 → Option BaseType
  | 4 => some .boolean
  | 5 => some .char
  | 6 => some .float
  | 7 => some .double
  | 8 => some .byte
  | 9 => some .short
  | 10 => some .int
  | 11 => some .long
  | _ => none

theorem ofArrayCode?_arrayCode (t : BaseType) : ofArrayCode? t.arrayCode = some t := by
  cases t <;> rfl

def chars (t : BaseType) : List Char := [t.letter]

def render (t : BaseType) : String := String.ofList t.chars

end BaseType

/-- Descriptor of the class itself. -/
def BinaryName.descriptorChars (name : BinaryName) : List Char :=
  'L' :: name.text.toList ++ [';']

/-- An array of at least one dimension over an element type that is no array. -/
structure ArrayType (ε : Type) where
  /-- Dimensions after the first. -/
  additionalDimensions : Nat
  elementType : ε
  deriving DecidableEq

namespace ArrayType

variable {ε δ : Type}

def map (f : ε → δ) (a : ArrayType ε) : ArrayType δ where
  additionalDimensions := a.additionalDimensions
  elementType := f a.elementType

/-- The array of such arrays. -/
def nested (a : ArrayType ε) : ArrayType ε where
  additionalDimensions := a.additionalDimensions + 1
  elementType := a.elementType

def chars (element : ε → List Char) (a : ArrayType ε) : List Char :=
  List.replicate (a.additionalDimensions + 1) '[' ++ element a.elementType

end ArrayType

/-- Types of references. -/
inductive RefType where
  | object (name : BinaryName)
  | objectArray (array : ArrayType BinaryName)
  | primitiveArray (array : ArrayType BaseType)
  deriving DecidableEq

namespace RefType

/-- Replace the class that the type mentions, if it mentions one. -/
def map (f : BinaryName → BinaryName) : RefType → RefType
  | .object name => .object (f name)
  | .objectArray array => .objectArray (array.map f)
  | .primitiveArray array => .primitiveArray array

/-- The class that the type mentions. -/
def className? : RefType → Option BinaryName
  | .object name => some name
  | .objectArray array => some array.elementType
  | .primitiveArray _ => none

def chars : RefType → List Char
  | .object name => name.descriptorChars
  | .objectArray array => array.chars BinaryName.descriptorChars
  | .primitiveArray array => array.chars BaseType.chars

def render (t : RefType) : String := String.ofList t.chars

/--
The name under which a class constant holds the type: a class stands there without `L` and `;`.
-/
def constantName : RefType → String
  | .object name => name.text
  | t => t.render

end RefType

/-- Types of fields, parameters and local variables. -/
inductive FieldType where
  | base (type : BaseType)
  | ref (type : RefType)
  deriving DecidableEq

namespace FieldType

def width : FieldType → Nat
  | .base t => t.width
  | .ref _ => 1

def map (f : BinaryName → BinaryName) : FieldType → FieldType
  | .base t => .base t
  | .ref t => .ref (t.map f)

def className? : FieldType → Option BinaryName
  | .base _ => none
  | .ref t => t.className?

/-- The array whose elements have this type. -/
def array : FieldType → RefType
  | .base t => .primitiveArray ⟨0, t⟩
  | .ref (.object name) => .objectArray ⟨0, name⟩
  | .ref (.objectArray a) => .objectArray a.nested
  | .ref (.primitiveArray a) => .primitiveArray a.nested

def chars : FieldType → List Char
  | .base t => t.chars
  | .ref t => t.chars

def render (t : FieldType) : String := String.ofList t.chars

end FieldType

/-- Parameters and result of a method; a method without result returns nothing. -/
structure MethodDescriptor where
  parameters : List FieldType
  returnType : Option FieldType
  deriving DecidableEq

namespace MethodDescriptor

def map (f : BinaryName → BinaryName) (d : MethodDescriptor) : MethodDescriptor where
  parameters := d.parameters.map (FieldType.map f)
  returnType := d.returnType.map (FieldType.map f)

/-- The classes that the descriptor mentions, in the order of its text. -/
def classNames (d : MethodDescriptor) : List BinaryName :=
  d.parameters.filterMap FieldType.className? ++ (d.returnType.bind FieldType.className?).toList

def returnWidth (d : MethodDescriptor) : Nat :=
  (d.returnType.map FieldType.width).getD 0

/-- Slots of the parameters, with the receiver's if there is one. -/
def parameterLength (d : MethodDescriptor) (hasReceiver : Bool) : Nat :=
  hasReceiver.toNat + d.parameters.foldr (FieldType.width · + ·) 0

def returnChars : Option FieldType → List Char
  | none => ['V']
  | some t => t.chars

def chars (d : MethodDescriptor) : List Char :=
  '(' :: d.parameters.flatMap FieldType.chars ++ ')' :: returnChars d.returnType

def render (d : MethodDescriptor) : String := String.ofList d.chars

end MethodDescriptor

end ClassPatch
