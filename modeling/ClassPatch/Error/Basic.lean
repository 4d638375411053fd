import ClassPatch.Name
import ClassPatch.Pool.Constant
import ClassPatch.Text.Quoted

/-!
What can be wrong with a class file, or keep a class from being written as one.
-/

namespace ClassPatch

/-- What is wrong with the content of an attribute. -/
inductive AttributeFault where
  | endOfInput
  | trailingBytes (count : Nat)
  | reservedFrameType (tag : UInt8)
  | unknownVerificationType (tag : UInt8)
  | unknownElementTag (tag : UInt8)
  | unknownHandleKind (code : UInt8)
  | emptySwitchRange (low high : Int32)
  | negativePairCount (count : Int32)
  | unknownArrayType (code : UInt8)
  | tooFewLocals (chopped locals : Nat)
  | missingBootstrapMethod (index : UInt16)
  | dynamicTooDeep (index : ConstantIndex)
  deriving DecidableEq, Repr

/-- Text for input that ends too early. -/
def endOfInputMessage : String := "failed to fill whole buffer"

def AttributeFault.message : AttributeFault → String
  | .endOfInput => endOfInputMessage
  | .trailingBytes count => s!"{count} trailing bytes"
  | .reservedFrameType tag => s!"Reserved frame type {tag}"
  | .unknownVerificationType tag => s!"Unknown verification type tag {tag}"
  | .unknownElementTag tag => "Unknown element value tag " ++ Quoted.char (Char.ofNat tag.toNat)
  | .unknownHandleKind code => s!"Unknown reference kind {code}"
  | .emptySwitchRange low high => s!"tableswitch with low {low} above high {high}"
  | .negativePairCount count => s!"lookupswitch with {count} pairs"
  | .unknownArrayType code => s!"Unknown newarray type {code}"
  | .tooFewLocals chopped locals => s!"Cannot chop {chopped} locals from a frame with {locals}"
  | .missingBootstrapMethod index => s!"Missing bootstrap method {index}"
  | .dynamicTooDeep index => s!"Dynamic constant ConstantIndex({index}) nests too deeply"

/-- What a reference into the pool should lead to. -/
inductive ConstantShape where
  | utf8 | classRef | nameAndType | integer | float | long | double
  | fieldRef | methodRef | methodHandle | invokeDynamic | loadable
  deriving DecidableEq, Repr

def ConstantShape.description : ConstantShape → String
  | .utf8 => "Utf8"
  | .classRef => "Class"
  | .nameAndType => "NameAndType"
  | .integer => "Integer"
  | .float => "Float"
  | .long => "Long"
  | .double => "Double"
  | .fieldRef => "Fieldref"
  | .methodRef => "Methodref"
  | .methodHandle => "MethodHandle"
  | .invokeDynamic => "InvokeDynamic"
  | .loadable => "loadable constant"

/-- Position in the code of a method that is not yet laid out. -/
abbrev Label := Nat

/-- Why a class cannot be read or written. -/
inductive ClassError where
  /-- The input ends within a value. -/
  | endOfInput
  /-- A frame drops none or more than three locals. -/
  | chopCount
  /-- A frame adds none or more than three locals. -/
  | appendCount
  /-- The pool has no room for the constant. -/
  | poolOverflow (constant : Constant) (offset : UInt16)
  | badMagic (magic : UInt32)
  | unknownConstantTag (tag : UInt8)
  | missingConstant (index : ConstantIndex)
  | unexpectedConstant (index : ConstantIndex) (expected : ConstantShape)
  | badDescriptor (text : String)
  | badName (fault : NameError)
  | malformedAttribute (name : String) (fault : AttributeFault)
  | unknownOpcode (opcode : UInt8) (offset : Nat)
  /-- A code offset that does not stand at the start of an instruction. -/
  | invalidCodeOffset (source : Nat) (target : Int)
  | truncatedInstruction (offset : Nat)
  | undefinedLabel (label : Label)
  | codeOverflow (length : Nat)
  /-- A conditional jump to a target farther than 16 bits reach. -/
  | branchOverflow (source : Nat) (distance : Int)
  /-- Two frames at one offset. -/
  | conflictingFrames (offset : Nat)
  deriving DecidableEq, Repr

end ClassPatch
