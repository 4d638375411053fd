import ClassPatch.Bytecode.Layout
import ClassPatch.Class.StackDepth
import ClassPatch.Lower.Constant
import ClassPatch.Stored.Attribute

/-!
Lowering bodies of methods: labels become offsets, and constants are added to the pool.
-/

namespace ClassPatch.PoolM

/-- Offset of a label, as a class file holds it. -/
def offsetOf (labels : LabelOffsets) (label : Label) : PoolM UInt16 := do
  return UInt16.ofNat (← (labels.offset label : Except ClassError Nat))

/-- An instruction with indices as operands. -/
def instruction (i : SymbolicInstruction) : PoolM StoredInstruction :=
  i.mapM refType loadable fieldRef methodRef callSite

def layoutElement : BodyElement → PoolM LayoutElement
  | .label label => return .label label
  | .instruction i => return .instruction (← instruction i)
  | .branch b => return .branch b

def exceptionHandler (labels : LabelOffsets) (h : ExceptionHandler) :
    PoolM Stored.ExceptionHandler := do
  return {
    startPc := ← offsetOf labels h.start
    endPc := ← offsetOf labels h.stop
    handlerPc := ← offsetOf labels h.handler
    catchType := ← h.catchType.mapM className }

def lineNumber (labels : LabelOffsets) (l : LineNumber) : PoolM Stored.LineNumber := do
  return { startPc := ← offsetOf labels l.start, lineNumber := l.lineNumber }

/-- The range of a local variable must not end before it starts. -/
def localVariable (labels : LabelOffsets) (v : LocalVariable) : PoolM Stored.LocalVariable := do
  let start ← offsetOf labels v.start
  let stop ← offsetOf labels v.stop
  if stop < start then
    throw (.invalidCodeOffset start.toNat stop.toNat)
  return {
    startPc := start
    length := stop - start
    name := ← utf8 v.name
    descriptor := ← utf8 v.descriptor
    index := v.index }

/-- Frames in the order of their offsets. -/
def placeFrames (labels : LabelOffsets) (frames : List (Label × BodyFrame)) :
    PoolM (List (UInt16 × BodyFrame)) := do
  let placed ← frames.mapM fun (label, frame) => return (← offsetOf labels label, frame)
  return placed.mergeSort fun f g => f.1 ≤ g.1

/-- First offset that stands next to itself. -/
def repeated? : List UInt16 → Option UInt16
  | a :: b :: rest => if a = b then some a else repeated? (b :: rest)
  | _ => none

/-- Entries of frames in the order of their offsets, each for its change to the frame before it. -/
def frameEntries (labels : LabelOffsets) :
    Option UInt16 → BodyFrame → List (UInt16 × BodyFrame) → PoolM (List Stored.FrameEntry)
  | _, _, [] => return []
  | previous, before, (offset, frame) :: frames => do
    let offsetDelta :=
      match previous with
      | none => offset
      | some previous => offset - previous - 1
    let change ← (frame.compress before).mapM refType (offsetOf labels)
    return ⟨offsetDelta, change⟩ :: (← frameEntries labels (some offset) frame frames)

/-- The table of frames, as an attribute. -/
def frameTable (labels : LabelOffsets) (context : MethodContext)
    (frames : List (Label × BodyFrame)) : PoolM Stored.Attribute := do
  let placed ← placeFrames labels frames
  if let some offset := repeated? (placed.map (·.1)) then
    throw (.conflictingFrames offset.toNat)
  AttributeFormat.stackMapTable.store (← frameEntries labels none context.initialFrame placed)

/-- The attribute for a list, unless the list is empty. -/
def unlessEmpty {α : Type} (store : List α → PoolM Stored.Attribute) (as : List α) :
    PoolM (List Stored.Attribute) := do
  if as.isEmpty then return [] else return [← store as]

/-- An attribute that is carried along as it is. -/
def verbatim (a : VerbatimAttribute) : PoolM Stored.Attribute := do
  return { nameIndex := ← utf8 a.name, info := a.info }

/-- The code of a method. -/
def code (context : MethodContext) (c : Code) : PoolM Stored.Code := do
  let elements ← c.elements.mapM layoutElement
  let assembled ← (assemble elements : Except ClassError AssembledCode)
  let labels := assembled.labels
  let exceptionTable ← c.exceptionHandlers.mapM (exceptionHandler labels)
  let lineNumbers ← unlessEmpty
    (fun ls => do AttributeFormat.lineNumberTable.store (← ls.mapM (lineNumber labels)))
    c.lineNumbers
  let localVariables ← unlessEmpty
    (fun vs => do AttributeFormat.localVariableTable.store (← vs.mapM (localVariable labels)))
    c.localVariables
  let localVariableTypes ← unlessEmpty
    (fun vs => do AttributeFormat.localVariableTypeTable.store (← vs.mapM (localVariable labels)))
    c.localVariableTypes
  let frames ← unlessEmpty (frameTable labels context) c.frames
  let attributes ← c.attributes.mapM verbatim
  let maxStack ←
    match c.maxStack with
    | some limit => pure limit
    | none => (Code.stackLimit c.elements c.exceptionHandlers : Except ClassError UInt16)
  return {
    maxStack
    maxLocals := c.maxLocals.getD (Code.localLimit c.elements context.descriptor context.isStatic)
    code := assembled.bytes
    exceptionTable
    attributes := lineNumbers ++ localVariables ++ localVariableTypes ++ frames ++ attributes }

end ClassPatch.PoolM
