import ClassPatch.Binary.Reader
import ClassPatch.Bytecode.Instruction

/-!
Reading the instructions of a code array, in one sweep from its start. Targets become offsets into
the array; whether an instruction starts there is not looked at here.
-/

namespace ClassPatch

/-- An instruction read from a code array. The targets of a branch are offsets. -/
inductive Decoded where
  | instruction (instruction : StoredInstruction)
  | branch (branch : Branch Nat Nat)
  deriving DecidableEq

namespace Decoded

def width : Decoded → Nat
  | .instruction i => i.width
  | .branch b => b.width

end Decoded

/-- Where an instruction stands: its offset, and the length of the code array. -/
structure CodePosition where
  offset : Nat
  codeLength : Nat
  deriving DecidableEq, Repr

namespace CodePosition

/-- Bytes between the opcode of a switch and its operands, which are aligned to four bytes. -/
def padding (p : CodePosition) : Nat := (4 - (p.offset + 1) % 4) % 4

/-- The offset at a distance, which has to be within the code. -/
def target (p : CodePosition) (distance : Int) : Except ClassError Nat :=
  let target := p.offset + distance
  if 0 ≤ target ∧ target < p.codeLength then .ok target.toNat
  else .error (.invalidCodeOffset p.offset target)

end CodePosition

/-- Readers that count the bytes they take. -/
abbrev CodeReader := StateT Nat Reader

namespace CodeReader

variable {α : Type}

/-- Take a value that is the given number of bytes long. -/
def counted (size : Nat) (read : Reader α) : CodeReader α := do
  modify (· + size)
  read

def u8 : CodeReader UInt8 := counted 1 Reader.u8
def u16 : CodeReader UInt16 := counted 2 Reader.u16
def i8 : CodeReader Int8 := counted 1 Reader.i8
def i16 : CodeReader Int16 := counted 2 Reader.i16
def i32 : CodeReader Int32 := counted 4 Reader.i32

/-- Pass over the given number of bytes. -/
def skip (size : Nat) : CodeReader Unit := do
  let _ ← counted size (Reader.bytes size)

/-- The target of a short jump. -/
def nearTarget (p : CodePosition) : CodeReader Nat := do
  p.target (← i16).toInt

/-- The target of a wide jump or a switch. -/
def farTarget (p : CodePosition) : CodeReader Nat := do
  p.target (← i32).toInt

end CodeReader

open CodeReader

namespace Decoded

/-- Read what follows the opcode of a jump table. -/
def readTableSwitch (p : CodePosition) : CodeReader Decoded := do
  skip p.padding
  let fallback ← farTarget p
  let low ← i32
  let high ← i32
  if high < low then
    throw (.malformedAttribute "Code" (.emptySwitchRange low high))
  let targets ← Reader.many (farTarget p) (high.toInt - low.toInt + 1).toNat
  return .branch (.tableSwitch (UInt8.ofNat p.padding) fallback low targets)

/-- Read what follows the opcode of a switch by keys. -/
def readLookupSwitch (p : CodePosition) : CodeReader Decoded := do
  skip p.padding
  let fallback ← farTarget p
  let count ← i32
  if count < 0 then
    throw (.malformedAttribute "Code" (.negativePairCount count))
  let pairs ← Reader.many (do return (← i32, ← farTarget p)) count.toInt.toNat
  return .branch (.lookupSwitch (UInt8.ofNat p.padding) fallback pairs)

/-- Read what follows the prefix `wide`. -/
def readWide (p : CodePosition) : CodeReader Decoded := do
  let code ← u8
  if code = 0x84 then
    return .instruction (.iinc (← u16) (← i16))
  else if code = 0xA9 then
    return .branch (.ret (← u16))
  else if let some kind := ValueKind.ofCode? (code - 0x15) then
    return .instruction (.load kind (← u16))
  else if let some kind := ValueKind.ofCode? (code - 0x36) then
    return .instruction (.store kind (← u16))
  else
    throw (.unknownOpcode code p.offset)

/-- Read what follows an opcode of one of the ranges of loads, stores, comparisons and returns. -/
def readInRange (p : CodePosition) (code : UInt8) : CodeReader Decoded := do
  if let some kind := ValueKind.ofCode? (code - 0x15) then
    return .instruction (.load kind (← u8).toUInt16)
  else if let some kind := ValueKind.ofCode? ((code - 0x1A) / 4) then
    return .instruction (.load kind ((code - 0x1A) % 4).toUInt16)
  else if let some kind := ValueKind.ofCode? (code - 0x36) then
    return .instruction (.store kind (← u8).toUInt16)
  else if let some kind := ValueKind.ofCode? ((code - 0x3B) / 4) then
    return .instruction (.store kind ((code - 0x3B) % 4).toUInt16)
  else if let some c := Comparison.ofCode? (code - 0x99) then
    return .branch (.ifZero c (← nearTarget p))
  else if let some c := Comparison.ofCode? (code - 0x9F) then
    return .branch (.ifInts c (← nearTarget p))
  else if let some kind := ValueKind.ofCode? (code - 0xAC) then
    return .branch (.valueReturn kind)
  else
    throw (.unknownOpcode code p.offset)

/-- Read what follows an opcode. -/
def readOperands (p : CodePosition) (code : UInt8) : CodeReader Decoded := do
  if let some op := PlainOp.ofOpcode? code then
    return .instruction (.plain op)
  match code with
  | 0x10 => return .instruction (.bipush (← i8))
  | 0x11 => return .instruction (.sipush (← i16))
  | 0x12 => return .instruction (.ldc (← u8).toUInt16)
  | 0x13 => return .instruction (.ldc (← u16))
  | 0x14 => return .instruction (.ldc2 (← u16))
  | 0x84 => return .instruction (.iinc (← u8).toUInt16 (← i8).toInt16)
  | 0xA5 => return .branch (.ifRefs .eq (← nearTarget p))
  | 0xA6 => return .branch (.ifRefs .ne (← nearTarget p))
  | 0xA7 => return .branch (.goto (← nearTarget p))
  | 0xA8 => return .branch (.jsr (← nearTarget p))
  | 0xA9 => return .branch (.ret (← u8).toUInt16)
  | 0xAA => readTableSwitch p
  | 0xAB => readLookupSwitch p
  | 0xB1 => return .branch .voidReturn
  | 0xB2 => return .instruction (.onField .getStatic (← u16))
  | 0xB3 => return .instruction (.onField .putStatic (← u16))
  | 0xB4 => return .instruction (.onField .getField (← u16))
  | 0xB5 => return .instruction (.onField .putField (← u16))
  | 0xB6 => return .instruction (.invoke .virtual (← u16))
  | 0xB7 => return .instruction (.invoke .special (← u16))
  | 0xB8 => return .instruction (.invoke .static (← u16))
  | 0xB9 =>
    let method ← u16
    let count ← u8
    skip 1
    return .instruction (.invoke (.interface count) method)
  | 0xBA =>
    let site ← u16
    skip 2
    return .instruction (.invokeDynamic site)
  | 0xBB => return .instruction (.onClass .new (← u16))
  | 0xBC =>
    let type ← u8
    match BaseType.ofArrayCode? type with
    | some t => return .instruction (.newPrimitiveArray t)
    | none => throw (.malformedAttribute "Code" (.unknownArrayType type))
  | 0xBD => return .instruction (.onClass .newArray (← u16))
  | 0xBF => return .branch .athrow
  | 0xC0 => return .instruction (.onClass .checkCast (← u16))
  | 0xC1 => return .instruction (.onClass .instanceOf (← u16))
  | 0xC4 => readWide p
  | 0xC5 => return .instruction (.multiNewArray (← u16) (← u8))
  | 0xC6 => return .branch (.ifNull .eq (← nearTarget p))
  | 0xC7 => return .branch (.ifNull .ne (← nearTarget p))
  | 0xC8 => return .branch (.gotoWide (← farTarget p))
  | 0xC9 => return .branch (.jsrWide (← farTarget p))
  | code => readInRange p code

/-- Read the instruction at a position, which must not end before its operands do. -/
def read (p : CodePosition) : CodeReader Decoded := fun count input =>
  match (do readOperands p (← u8)).run count input with
  | .error .endOfInput => .error (.truncatedInstruction p.offset)
  | result => result

end Decoded

/-- Instructions with their offsets, from the given offset on. Each takes a byte at least. -/
def decodeFrom (codeLength : Nat) : Nat → Nat → Bytes → Except ClassError (List (Nat × Decoded))
  | 0, _, _ => .ok []
  | _ + 1, _, [] => .ok []
  | bound + 1, offset, input => do
    let ((decoded, size), rest) ← (Decoded.read ⟨offset, codeLength⟩).run 0 input
    let tail ← decodeFrom codeLength bound (offset + size) rest
    return (offset, decoded) :: tail

/-- The instructions of a code array, with their offsets. -/
def decodeCode (code : Bytes) : Except ClassError (List (Nat × Decoded)) :=
  decodeFrom code.length code.length 0 code

end ClassPatch
