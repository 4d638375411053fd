import ClassPatch.Bytecode.Decode
import ClassPatch.Class.Code
import ClassPatch.Lift.Resolver
import ClassPatch.Stored.Attribute
import Std.Data.HashSet

/-!
Lifting the code of a class file: every offset that something refers to becomes a label. Labels are
numbered in the order of their offsets.

Debug information whose offsets are not at the start of an instruction is dropped; elsewhere such an
offset is an error.
-/

namespace ClassPatch

/-- Where instructions start, and where the code ends. -/
structure Boundaries where
  /-- In increasing order. -/
  offsets : List Nat
  known : Std.HashSet Nat

namespace Boundaries

def ofDecoded (decoded : List (Nat × Decoded)) (codeLength : Nat) : Boundaries :=
  let offsets := decoded.map (·.1) ++ [codeLength]
  ⟨offsets, Std.HashSet.ofList offsets⟩

def contains (b : Boundaries) (offset : Nat) : Bool := b.known.contains offset

/-- An offset that has to be a boundary, and the offset that refers to it. -/
def check (b : Boundaries) (source target : Nat) : Except ClassError Nat :=
  if b.contains target then .ok target else .error (.invalidCodeOffset source target)

/-- Labels for the given boundaries, numbered in increasing order. -/
def labels (b : Boundaries) (marked : List Nat) : Std.HashMap Nat Label :=
  let marked := Std.HashSet.ofList marked
  Std.HashMap.ofList (b.offsets.filter marked.contains).zipIdx

end Boundaries

/-- The label at an offset. -/
def labelAt (labels : Std.HashMap Nat Label) (offset : Nat) : Except ClassError Label :=
  match labels[offset]? with
  | some label => .ok label
  | none => .error (.invalidCodeOffset offset offset)

namespace Stored

/-- First offset after the range of a local variable. -/
def LocalVariable.endPc (v : LocalVariable) : Nat := v.startPc.toNat + v.length.toNat

/-- The attributes of code, sorted by what they are. -/
structure CodeTables where
  lineNumbers : List LineNumber := []
  localVariables : List LocalVariable := []
  localVariableTypes : List LocalVariable := []
  frames : List FrameEntry := []
  attributes : List VerbatimAttribute := []

namespace CodeTables

/--
Add an attribute. Tables of debug information are joined; of several tables of frames the last
counts.
-/
def add (r : Resolver) (tables : CodeTables) (a : Attribute) : Except ClassError CodeTables := do
  match ← r.utf8 a.nameIndex with
  | "LineNumberTable" =>
    let entries ← AttributeFormat.lineNumberTable.parse a.info
    return { tables with lineNumbers := tables.lineNumbers ++ entries }
  | "LocalVariableTable" =>
    let entries ← AttributeFormat.localVariableTable.parse a.info
    return { tables with localVariables := tables.localVariables ++ entries }
  | "LocalVariableTypeTable" =>
    let entries ← AttributeFormat.localVariableTypeTable.parse a.info
    return { tables with localVariableTypes := tables.localVariableTypes ++ entries }
  | "StackMapTable" =>
    return { tables with frames := ← AttributeFormat.stackMapTable.parse a.info }
  | name => return { tables with attributes := tables.attributes ++ [⟨name, a.info⟩] }

/-- Drop the debug information that is not at boundaries. -/
def dropMisplaced (b : Boundaries) (tables : CodeTables) : CodeTables :=
  let placed (v : LocalVariable) := b.contains v.startPc.toNat && b.contains v.endPc
  { tables with
    lineNumbers := tables.lineNumbers.filter (b.contains ·.startPc.toNat)
    localVariables := tables.localVariables.filter placed
    localVariableTypes := tables.localVariableTypes.filter placed }

/-- Offsets that debug information refers to. -/
def offsets (tables : CodeTables) : List Nat :=
  tables.lineNumbers.map (·.startPc.toNat)
    ++ (tables.localVariables ++ tables.localVariableTypes).flatMap fun v =>
      [v.startPc.toNat, v.endPc]

end CodeTables

/-- Offsets that a handler refers to. -/
def ExceptionHandler.offsets (b : Boundaries) (h : ExceptionHandler) :
    Except ClassError (List Nat) := do
  let start := h.startPc.toNat
  return [← b.check start start, ← b.check start h.endPc.toNat, ← b.check start h.handlerPc.toNat]

end Stored

/-- Offsets that an instruction jumps to. -/
def Decoded.checkedTargets (b : Boundaries) (offset : Nat) :
    Decoded → Except ClassError (List Nat)
  | .instruction _ => return []
  | .branch jump => jump.targets.mapM (b.check offset)

/-- A frame at an offset, with offsets for objects without constructor call. -/
abbrev PlacedFrame := Nat × Frame RefType UInt16

namespace PlacedFrame

/-- The offset of a frame and those that it refers to. -/
def offsets (b : Boundaries) (f : PlacedFrame) : Except ClassError (List Nat) := do
  let sites := (f.2.locals ++ f.2.stack).filterMap fun
    | .uninitialized site => some site.toNat
    | _ => none
  return f.1 :: (← sites.mapM (b.check f.1))

/--
The frames of a table, each from the one before it. The first stands at its offset, each other one
after the one before it by its offset and one.
-/
def ofEntries (r : Resolver) (b : Boundaries) (codeLength : Nat) :
    Option Nat → Frame RefType UInt16 → List Stored.FrameEntry →
      Except ClassError (List PlacedFrame)
  | _, _, [] => return []
  | previous, frame, entry :: entries => do
    let offset :=
      match previous with
      | none => entry.offsetDelta.toNat
      | some previous => previous + entry.offsetDelta.toNat + 1
    if codeLength ≤ offset ∨ b.contains offset = false then
      throw (.invalidCodeOffset (previous.getD 0) offset)
    let change ← entry.change.mapM r.refType pure
    let frame ← frame.apply change
    let _ ← offsets b (offset, frame)
    return (offset, frame) :: (← ofEntries r b codeLength (some offset) frame entries)

end PlacedFrame

namespace Resolver

variable (r : Resolver)

/-- An instruction with what its operands stand for. -/
def instruction (i : StoredInstruction) : Except ClassError SymbolicInstruction :=
  i.mapM r.refType r.loadable r.fieldRef r.methodRef r.callSite

/-- An element of the body, after the label at its offset if there is one. -/
def bodyElement (labels : Std.HashMap Nat Label) (offset : Nat) (decoded : Decoded) :
    Except ClassError (List BodyElement) := do
  let element : BodyElement ←
    match decoded with
    | .instruction i => pure (.instruction (← r.instruction i))
    | .branch jump => pure (.branch (← jump.mapM (labelAt labels) (labelAt labels)))
  return (labels[offset]?.map .label).toList ++ [element]

def exceptionHandler (labels : Std.HashMap Nat Label) (h : Stored.ExceptionHandler) :
    Except ClassError ExceptionHandler := do
  return {
    start := ← labelAt labels h.startPc.toNat
    stop := ← labelAt labels h.endPc.toNat
    handler := ← labelAt labels h.handlerPc.toNat
    catchType := ← h.catchType.mapM r.className }

def lineNumber (labels : Std.HashMap Nat Label) (l : Stored.LineNumber) :
    Except ClassError LineNumber := do
  return { start := ← labelAt labels l.startPc.toNat, lineNumber := l.lineNumber }

def localVariable (labels : Std.HashMap Nat Label) (v : Stored.LocalVariable) :
    Except ClassError LocalVariable := do
  return {
    start := ← labelAt labels v.startPc.toNat
    stop := ← labelAt labels v.endPc
    name := ← r.utf8 v.name
    descriptor := ← r.utf8 v.descriptor
    index := v.index }

/-- The body that the code of a method stands for. -/
def code (context : MethodContext) (c : Stored.Code) : Except ClassError Code := do
  let codeLength := c.code.length
  let decoded ← decodeCode c.code
  let boundaries := Boundaries.ofDecoded decoded codeLength
  let tables ← c.attributes.foldlM (Stored.CodeTables.add r) {}
  let targets ← decoded.mapM fun (offset, d) => d.checkedTargets boundaries offset
  let handlerOffsets ← c.exceptionTable.mapM (·.offsets boundaries)
  let tables := tables.dropMisplaced boundaries
  let frames ←
    PlacedFrame.ofEntries r boundaries codeLength none context.initialFrame tables.frames
  let frameOffsets ← frames.mapM (PlacedFrame.offsets boundaries)
  let labels := boundaries.labels
    (targets.flatten ++ handlerOffsets.flatten ++ tables.offsets ++ frameOffsets.flatten)
  let elements ← decoded.mapM fun (offset, d) => r.bodyElement labels offset d
  let exceptionHandlers ← c.exceptionTable.mapM (r.exceptionHandler labels)
  let lineNumbers ← tables.lineNumbers.mapM (lineNumber labels)
  let localVariables ← tables.localVariables.mapM (r.localVariable labels)
  let localVariableTypes ← tables.localVariableTypes.mapM (r.localVariable labels)
  let frames ← frames.mapM fun (offset, frame) => do
    let frame ← frame.mapM pure fun site => labelAt labels site.toNat
    return (← labelAt labels offset, frame)
  return {
    maxStack := some c.maxStack
    maxLocals := some c.maxLocals
    elements := elements.flatten ++ (labels[codeLength]?.map .label).toList
    exceptionHandlers
    lineNumbers
    localVariables
    localVariableTypes
    frames
    attributes := tables.attributes }

end Resolver

end ClassPatch
