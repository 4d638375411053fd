import ClassPatch.Descriptor.Basic

/-!
Reading descriptors. Each `read` takes a type from the front of a text and leaves the rest, and each
`parse` takes the whole text.
-/

namespace ClassPatch

/-- Why a text is not a descriptor. -/
inductive DescriptorError where
  | leftover (c : Char)
  | badBaseType (c : Char)
  | missingBaseType
  | notAnArray
  | notAClass
  | unterminatedClass (seen : String)
  | badClassName (fault : NameError)
  | badReferenceType (c : Char)
  | missingType
  | missingParameters
  deriving DecidableEq, Repr

namespace DescriptorError

def message : DescriptorError → String
  | .leftover c => s!"Unexpected leftover input '{c}'"
  | .badBaseType c => s!"Invalid base type character '{c}'"
  | .missingBaseType => "Missing base type character"
  | .notAnArray => "Expected at least on `[` for array type"
  | .notAClass => "Expected object type to start with `L`"
  | .unterminatedClass seen => s!"Missing terminator for 'L{seen}'"
  | .badClassName fault => fault.message
  | .badReferenceType c => s!"Invalid reference type character '{c}'"
  | .missingType => "Missing field type"
  | .missingParameters => "Expected '(' for method"

/-- Whether the text could be completed to a descriptor. -/
def isEndOfInput : DescriptorError → Bool
  | .missingBaseType | .unterminatedClass _ | .missingType => true
  | _ => false

end DescriptorError

/-- Takes a value from the front of a text. -/
abbrev DescriptorReader (α : Type) := List Char → Except DescriptorError (α × List Char)

namespace DescriptorReader

/-- The value that the whole text stands for. -/
def parse {α : Type} (read : DescriptorReader α) (text : String) : Except DescriptorError α := do
  match ← read text.toList with
  | (value, []) => return value
  | (_, c :: _) => throw (.leftover c)

end DescriptorReader

namespace BaseType

def read : DescriptorReader BaseType
  | [] => .error .missingBaseType
  | c :: rest =>
    match ofLetter? c with
    | some t => .ok (t, rest)
    | none => .error (.badBaseType c)

def parse : String → Except DescriptorError BaseType := DescriptorReader.parse read

end BaseType

namespace BinaryName

/-- The text before the first semicolon, and what follows that semicolon. -/
def untilSemicolon? : List Char → Option (List Char × List Char)
  | [] => none
  | ';' :: rest => some ([], rest)
  | c :: rest => (untilSemicolon? rest).map fun (name, rest) => (c :: name, rest)

/-- Read the descriptor of a class. -/
def readDescriptor : DescriptorReader BinaryName
  | 'L' :: rest =>
    match untilSemicolon? rest with
    | none => .error (.unterminatedClass (String.ofList rest))
    | some (name, rest) =>
      match BinaryName.ofString (String.ofList name) with
      | .error fault => .error (.badClassName fault)
      | .ok name => .ok (name, rest)
  | _ => .error .notAClass

def parseDescriptor : String → Except DescriptorError BinaryName :=
  DescriptorReader.parse readDescriptor

end BinaryName

namespace ArrayType

/-- Number of opening brackets at the front, and the rest. -/
def dimensions : List Char → Nat × List Char
  | '[' :: rest =>
    let (n, rest) := dimensions rest
    (n + 1, rest)
  | rest => (0, rest)

/-- Read an array type over the given kind of elements. -/
def read {ε : Type} (element : DescriptorReader ε) : DescriptorReader (ArrayType ε) := fun text =>
  match dimensions text with
  | (0, _) => .error .notAnArray
  | (n + 1, rest) => do
    let (elementType, rest) ← element rest
    return (⟨n, elementType⟩, rest)

end ArrayType

namespace RefType

def read : DescriptorReader RefType
  | [] => .error .missingType
  | 'L' :: rest => do
    let (name, rest) ← BinaryName.readDescriptor ('L' :: rest)
    return (.object name, rest)
  | '[' :: rest => do
    let (n, rest) := ArrayType.dimensions rest
    if rest.head? = some 'L' then
      let (name, rest) ← BinaryName.readDescriptor rest
      return (.objectArray ⟨n, name⟩, rest)
    else
      let (t, rest) ← BaseType.read rest
      return (.primitiveArray ⟨n, t⟩, rest)
  | c :: _ => .error (.badReferenceType c)

def parse : String → Except DescriptorError RefType := DescriptorReader.parse read

end RefType

namespace FieldType

def read : DescriptorReader FieldType
  | [] => .error .missingType
  | c :: rest =>
    match BaseType.ofLetter? c with
    | some t => .ok (.base t, rest)
    | none => do
      let (t, rest) ← RefType.read (c :: rest)
      return (.ref t, rest)

def parse : String → Except DescriptorError FieldType := DescriptorReader.parse read

end FieldType

namespace MethodDescriptor

/--
Read field types up to the closing parenthesis. Each takes a character, so their number is bounded.
-/
def readParameters : Nat → DescriptorReader (List FieldType)
  | 0, _ => .error .missingType
  | _ + 1, ')' :: rest => .ok ([], rest)
  | bound + 1, text => do
    let (t, rest) ← FieldType.read text
    let (ts, rest) ← readParameters bound rest
    return (t :: ts, rest)

/-- Read the type of the result. -/
def readReturn : DescriptorReader (Option FieldType)
  | 'V' :: rest => .ok (none, rest)
  | text => do
    let (t, rest) ← FieldType.read text
    return (some t, rest)

def read : DescriptorReader MethodDescriptor
  | '(' :: text => do
    let (parameters, rest) ← readParameters (text.length + 1) text
    let (returnType, rest) ← readReturn rest
    return (⟨parameters, returnType⟩, rest)
  | _ => .error .missingParameters

def parse : String → Except DescriptorError MethodDescriptor := DescriptorReader.parse read

end MethodDescriptor

end ClassPatch
