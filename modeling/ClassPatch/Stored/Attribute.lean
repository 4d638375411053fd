import ClassPatch.AccessFlags
import ClassPatch.Annotation.Format
import ClassPatch.Bytecode.Frame
import ClassPatch.Pool.Builder

/-!
Attributes as they stand in a class file, and the binary forms of those whose content is understood.
An `AttributeFormat` says how the content of an attribute of one name is read and written.
-/

namespace ClassPatch

open Writer

namespace Stored

/-- An attribute whose content is not looked at. -/
structure Attribute where
  nameIndex : ConstantIndex
  info : Bytes
  deriving DecidableEq, Repr

namespace Attribute

def read : Reader Attribute := do
  return { nameIndex := ← Reader.u16, info := ← Reader.bytes32 }

def write (a : Attribute) : Bytes := u16 a.nameIndex ++ bytes32 a.info

end Attribute

/-- Code range that a handler protects. -/
structure ExceptionHandler where
  startPc : UInt16
  /-- First offset after the range. -/
  endPc : UInt16
  handlerPc : UInt16
  /-- What is caught; without it, everything. -/
  catchType : Option ConstantIndex
  deriving DecidableEq, Repr

namespace ExceptionHandler

def read : Reader ExceptionHandler := do
  return {
    startPc := ← Reader.u16
    endPc := ← Reader.u16
    handlerPc := ← Reader.u16
    catchType := ← Reader.optionalIndex }

def write (h : ExceptionHandler) : Bytes :=
  u16 h.startPc ++ u16 h.endPc ++ u16 h.handlerPc ++ optionalIndex h.catchType

end ExceptionHandler

/-- Code of a method. -/
structure Code where
  maxStack : UInt16
  maxLocals : UInt16
  code : Bytes
  exceptionTable : List ExceptionHandler
  attributes : List Attribute
  deriving DecidableEq, Repr

namespace Code

def read : Reader Code := do
  return {
    maxStack := ← Reader.u16
    maxLocals := ← Reader.u16
    code := ← Reader.bytes32
    exceptionTable := ← Reader.list16 ExceptionHandler.read
    attributes := ← Reader.list16 Attribute.read }

def write (c : Code) : Bytes :=
  u16 c.maxStack ++ u16 c.maxLocals ++ bytes32 c.code
    ++ list16 ExceptionHandler.write c.exceptionTable ++ list16 Attribute.write c.attributes

end Code

abbrev VerificationType := ClassPatch.VerificationType ConstantIndex UInt16

namespace VerificationType

def read : Reader VerificationType := do
  match ← Reader.u8 with
  | 0 => return .top
  | 1 => return .int
  | 2 => return .float
  | 3 => return .double
  | 4 => return .long
  | 5 => return .null
  | 6 => return .uninitializedThis
  | 7 => return .object (← Reader.u16)
  | 8 => return .uninitialized (← Reader.u16)
  | tag => throw (.malformedAttribute "StackMapTable" (.unknownVerificationType tag))

def write : VerificationType → Bytes
  | .top => u8 0
  | .int => u8 1
  | .float => u8 2
  | .double => u8 3
  | .long => u8 4
  | .null => u8 5
  | .uninitializedThis => u8 6
  | .object c => u8 7 ++ u16 c
  | .uninitialized site => u8 8 ++ u16 site

end VerificationType

abbrev FrameEntry := ClassPatch.FrameEntry ConstantIndex UInt16

namespace FrameEntry

/-- Read what follows the tag of an entry. -/
def readBody (tag : UInt8) : Reader FrameEntry := do
  if tag < 64 then
    return ⟨tag.toUInt16, .same⟩
  else if tag < 128 then
    return ⟨(tag - 64).toUInt16, .sameWithStack (← VerificationType.read)⟩
  else if tag < 247 then
    throw (.malformedAttribute "StackMapTable" (.reservedFrameType tag))
  else if tag = 247 then
    return ⟨← Reader.u16, .sameWithStack (← VerificationType.read)⟩
  else if tag < 251 then
    return ⟨← Reader.u16, .chop (251 - tag)⟩
  else if tag = 251 then
    return ⟨← Reader.u16, .same⟩
  else if tag < 255 then
    return ⟨← Reader.u16, .append (← Reader.many VerificationType.read (tag - 251).toNat)⟩
  else
    return ⟨← Reader.u16,
      .full (← Reader.list16 VerificationType.read) (← Reader.list16 VerificationType.read)⟩

def read : Reader FrameEntry := do
  readBody (← Reader.u8)

/-- Entries drop or add one to three locals. Small offsets are part of the tag where they can be. -/
def write (e : FrameEntry) : Except ClassError Bytes :=
  match e.change with
  | .same =>
    .ok (if e.offsetDelta < 64 then u8 e.offsetDelta.toUInt8 else u8 251 ++ u16 e.offsetDelta)
  | .sameWithStack t =>
    .ok ((if e.offsetDelta < 64 then u8 (64 + e.offsetDelta.toUInt8)
      else u8 247 ++ u16 e.offsetDelta) ++ VerificationType.write t)
  | .chop count =>
    if 1 ≤ count ∧ count ≤ 3 then .ok (u8 (251 - count) ++ u16 e.offsetDelta)
    else .error .chopCount
  | .append locals =>
    if 1 ≤ locals.length ∧ locals.length ≤ 3 then
      .ok (u8 (251 + UInt8.ofNat locals.length) ++ u16 e.offsetDelta
        ++ locals.flatMap VerificationType.write)
    else
      .error .appendCount
  | .full locals stack =>
    .ok (u8 255 ++ u16 e.offsetDelta ++ list16 VerificationType.write locals
      ++ list16 VerificationType.write stack)

/-- Written form of a table of entries. -/
def writeTable (entries : List FrameEntry) : Except ClassError Bytes := do
  let parts ← entries.mapM write
  return u16 (UInt16.ofNat entries.length) ++ parts.flatten

end FrameEntry

end Stored

namespace BootstrapEntry

def read : Reader BootstrapEntry := do
  return { handle := ← Reader.u16, arguments := ← Reader.list16 Reader.u16 }

def write (e : BootstrapEntry) : Bytes := u16 e.handle ++ list16 u16 e.arguments

end BootstrapEntry

namespace Stored

/-- A class that is a member of another or local to a method. -/
structure InnerClass where
  innerClass : ConstantIndex
  outerClass : Option ConstantIndex
  innerName : Option ConstantIndex
  accessFlags : InnerClassFlags
  deriving DecidableEq

namespace InnerClass

def read : Reader InnerClass := do
  return {
    innerClass := ← Reader.u16
    outerClass := ← Reader.optionalIndex
    innerName := ← Reader.optionalIndex
    accessFlags := AccessFlags.truncate _ (← Reader.u16) }

def write (c : InnerClass) : Bytes :=
  u16 c.innerClass ++ optionalIndex c.outerClass ++ optionalIndex c.innerName
    ++ u16 c.accessFlags.bits

end InnerClass

/-- The class, and the method if there is one, that a class is local to. -/
structure EnclosingMethod where
  enclosingClass : ConstantIndex
  method : Option ConstantIndex
  deriving DecidableEq, Repr

namespace EnclosingMethod

def read : Reader EnclosingMethod := do
  return { enclosingClass := ← Reader.u16, method := ← Reader.optionalIndex }

def write (e : EnclosingMethod) : Bytes := u16 e.enclosingClass ++ optionalIndex e.method

end EnclosingMethod

/-- Source line of the code from an offset on. -/
structure LineNumber where
  startPc : UInt16
  lineNumber : UInt16
  deriving DecidableEq, Repr

namespace LineNumber

def read : Reader LineNumber := do
  return { startPc := ← Reader.u16, lineNumber := ← Reader.u16 }

def write (l : LineNumber) : Bytes := u16 l.startPc ++ u16 l.lineNumber

end LineNumber

/-- Name and type of a local variable within a range of code. -/
structure LocalVariable where
  startPc : UInt16
  length : UInt16
  name : ConstantIndex
  /-- A descriptor in one table, a signature in the other. -/
  descriptor : ConstantIndex
  index : UInt16
  deriving DecidableEq, Repr

namespace LocalVariable

def read : Reader LocalVariable := do
  return {
    startPc := ← Reader.u16
    length := ← Reader.u16
    name := ← Reader.u16
    descriptor := ← Reader.u16
    index := ← Reader.u16 }

def write (v : LocalVariable) : Bytes :=
  u16 v.startPc ++ u16 v.length ++ u16 v.name ++ u16 v.descriptor ++ u16 v.index

end LocalVariable

/-- A component of a record. -/
structure RecordComponent where
  name : ConstantIndex
  descriptor : ConstantIndex
  attributes : List Attribute
  deriving DecidableEq, Repr

namespace RecordComponent

def read : Reader RecordComponent := do
  return {
    name := ← Reader.u16
    descriptor := ← Reader.u16
    attributes := ← Reader.list16 Attribute.read }

def write (c : RecordComponent) : Bytes :=
  u16 c.name ++ u16 c.descriptor ++ list16 Attribute.write c.attributes

end RecordComponent

end Stored

/-- How the content of the attributes of one name is read and written. -/
structure AttributeFormat (α : Type) where
  name : String
  read : Reader α
  write : α → Except ClassError Bytes

namespace AttributeFormat

variable {α : Type}

/-- The content of an attribute, which has to be read to its end. -/
def parse (format : AttributeFormat α) (info : Bytes) : Except ClassError α :=
  match format.read.run info with
  | .error .endOfInput => .error (.malformedAttribute format.name .endOfInput)
  | .error e => .error e
  | .ok (a, []) => .ok a
  | .ok (_, rest) => .error (.malformedAttribute format.name (.trailingBytes rest.length))

/-- The attribute that holds the content, whose name is added to the pool. -/
def store (format : AttributeFormat α) (a : α) : PoolM Stored.Attribute := do
  let nameIndex ← PoolM.utf8 format.name
  let info ← (format.write a : Except ClassError Bytes)
  return { nameIndex, info }

/-- The format of content whose values can all be written. -/
def total (name : String) (read : Reader α) (write : α → Bytes) : AttributeFormat α :=
  ⟨name, read, fun a => .ok (write a)⟩

/-- The format of content that is one index. -/
def index (name : String) : AttributeFormat ConstantIndex := total name Reader.u16 u16

/-- The format of content that is a list of indices. -/
def indices (name : String) : AttributeFormat (List ConstantIndex) :=
  total name (Reader.list16 Reader.u16) (list16 u16)

def constantValue : AttributeFormat ConstantIndex := index "ConstantValue"

def code : AttributeFormat Stored.Code := total "Code" Stored.Code.read Stored.Code.write

def stackMapTable : AttributeFormat (List Stored.FrameEntry) :=
  ⟨"StackMapTable", Reader.list16 Stored.FrameEntry.read, Stored.FrameEntry.writeTable⟩

def bootstrapMethods : AttributeFormat (List BootstrapEntry) :=
  total "BootstrapMethods" (Reader.list16 BootstrapEntry.read) (list16 BootstrapEntry.write)

def nestHost : AttributeFormat ConstantIndex := index "NestHost"

def nestMembers : AttributeFormat (List ConstantIndex) := indices "NestMembers"

def permittedSubclasses : AttributeFormat (List ConstantIndex) := indices "PermittedSubclasses"

def exceptions : AttributeFormat (List ConstantIndex) := indices "Exceptions"

def sourceFile : AttributeFormat ConstantIndex := index "SourceFile"

def innerClasses : AttributeFormat (List Stored.InnerClass) :=
  total "InnerClasses" (Reader.list16 Stored.InnerClass.read) (list16 Stored.InnerClass.write)

def enclosingMethod : AttributeFormat Stored.EnclosingMethod :=
  total "EnclosingMethod" Stored.EnclosingMethod.read Stored.EnclosingMethod.write

def signature : AttributeFormat ConstantIndex := index "Signature"

def lineNumberTable : AttributeFormat (List Stored.LineNumber) :=
  total "LineNumberTable" (Reader.list16 Stored.LineNumber.read) (list16 Stored.LineNumber.write)

/-- The format of both tables of local variables. -/
def localVariables (name : String) : AttributeFormat (List Stored.LocalVariable) :=
  total name (Reader.list16 Stored.LocalVariable.read) (list16 Stored.LocalVariable.write)

def localVariableTable : AttributeFormat (List Stored.LocalVariable) :=
  localVariables "LocalVariableTable"

def localVariableTypeTable : AttributeFormat (List Stored.LocalVariable) :=
  localVariables "LocalVariableTypeTable"

def record : AttributeFormat (List Stored.RecordComponent) :=
  total "Record" (Reader.list16 Stored.RecordComponent.read) (list16 Stored.RecordComponent.write)

/-- Read with a bound for the nesting of values, which the length of the input gives. -/
def bounded (read : Nat → Reader α) : Reader α := fun input => read input.length input

/-- The format of a list of annotations. -/
def annotations (name : String) : AttributeFormat (List Stored.Annotation) :=
  total name (bounded fun bound => Reader.list16 (Stored.Annotation.read bound))
    (list16 Stored.Annotation.write)

def visibleAnnotations : AttributeFormat (List Stored.Annotation) :=
  annotations "RuntimeVisibleAnnotations"

def invisibleAnnotations : AttributeFormat (List Stored.Annotation) :=
  annotations "RuntimeInvisibleAnnotations"

/-- The format of one list of annotations for each parameter. -/
def parameterAnnotations (name : String) : AttributeFormat (List (List Stored.Annotation)) :=
  total name
    (bounded fun bound => Reader.list8 (Reader.list16 (Stored.Annotation.read bound)))
    (list8 (list16 Stored.Annotation.write))

def visibleParameterAnnotations : AttributeFormat (List (List Stored.Annotation)) :=
  parameterAnnotations "RuntimeVisibleParameterAnnotations"

def invisibleParameterAnnotations : AttributeFormat (List (List Stored.Annotation)) :=
  parameterAnnotations "RuntimeInvisibleParameterAnnotations"

def annotationDefault : AttributeFormat Stored.ElementValue :=
  total "AnnotationDefault" (bounded Stored.ElementValue.read) Stored.ElementValue.write

end AttributeFormat

end ClassPatch
