import ClassPatch.Bytecode.Frame
import ClassPatch.Bytecode.Instruction
import ClassPatch.Class.Constant
import ClassPatch.Text.ModifiedUtf8

/-!
Bodies of methods. Every place in the code that something refers to is a label.
-/

namespace ClassPatch

/-- An attribute that is carried along as it is. Its content may hold indices of constants. -/
structure VerbatimAttribute where
  name : String
  info : Bytes
  deriving DecidableEq, Repr

abbrev SymbolicInstruction := Instruction RefType LoadableConstant FieldRef MethodRef CallSite
abbrev SymbolicBranch := Branch Label Label

/-- Elements of a body. -/
abbrev BodyElement := CodeElement SymbolicInstruction SymbolicBranch

/-- Frames of a body. An object without constructor call names the label of its instruction. -/
abbrev BodyFrame := Frame RefType Label

/-- Code range with a handler for what is thrown in it. -/
structure ExceptionHandler where
  start : Label
  /-- Label after the range. -/
  stop : Label
  handler : Label
  /-- What is caught; without it, everything. -/
  catchType : Option BinaryName
  deriving DecidableEq

/-- Source line of the code from a label on. -/
structure LineNumber where
  start : Label
  lineNumber : UInt16
  deriving DecidableEq, Repr

/-- Name and type of a local variable within a range of code. -/
structure LocalVariable where
  start : Label
  stop : Label
  name : String
  /-- A descriptor in one table, a signature in the other. -/
  descriptor : String
  index : UInt16
  deriving DecidableEq, Repr

/-- Body of a method. Limits that are not given are computed when the body is lowered. -/
structure Code where
  maxStack : Option UInt16 := none
  maxLocals : Option UInt16 := none
  elements : List BodyElement
  exceptionHandlers : List ExceptionHandler := []
  lineNumbers : List LineNumber := []
  localVariables : List LocalVariable := []
  /-- Local variables with their signatures. -/
  localVariableTypes : List LocalVariable := []
  frames : List (Label × BodyFrame) := []
  attributes : List VerbatimAttribute := []
  deriving DecidableEq

/-- What the first frame of a body depends on. -/
structure MethodContext where
  className : BinaryName
  methodName : UnqualifiedName
  descriptor : MethodDescriptor
  isStatic : Bool
  deriving DecidableEq

namespace MethodContext

variable {S : Type}

/-- Type of the receiver on entry. -/
def receiver (c : MethodContext) : VerificationType RefType S :=
  if c.methodName = .constructor ∧ c.className ≠ .object then .uninitializedThis
  else .object (.object c.className)

/-- The frame on entry to the method. -/
def initialFrame (c : MethodContext) : Frame RefType S where
  locals := (if c.isStatic then [] else [c.receiver])
    ++ c.descriptor.parameters.map .ofFieldType
  stack := []

end MethodContext

end ClassPatch
