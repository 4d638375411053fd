import ClassPatch.Error.Basic
import ClassPatch.Text.ModifiedUtf8

/-!
Readers of binary data. A reader takes a value from the front of a byte sequence and leaves the
rest; it fails with `ClassError.endOfInput` where the bytes end within the value. Numbers are
big-endian.
-/

namespace ClassPatch

/-- Takes a value from the front of a byte sequence. -/
abbrev Reader := StateT Bytes (Except ClassError)

namespace Reader

variable {α : Type} {m : Type → Type} [Monad m]

def u8 : Reader UInt8
  | [] => .error .endOfInput
  | b :: rest => .ok (b, rest)

/-- A number of the given count of bytes, continuing from the bytes already read. -/
def bigEndian : Nat → Nat → Reader Nat
  | 0, n => return n
  | count + 1, n => do
    let b ← u8
    bigEndian count (n * 256 + b.toNat)

def u16 : Reader UInt16 := UInt16.ofNat <$> bigEndian 2 0
def u32 : Reader UInt32 := UInt32.ofNat <$> bigEndian 4 0
def u64 : Reader UInt64 := UInt64.ofNat <$> bigEndian 8 0

def i8 : Reader Int8 := UInt8.toInt8 <$> u8
def i16 : Reader Int16 := UInt16.toInt16 <$> u16
def i32 : Reader Int32 := UInt32.toInt32 <$> u32
def i64 : Reader Int64 := UInt64.toInt64 <$> u64

/-- The given number of bytes. -/
def bytes (count : Nat) : Reader Bytes := fun input =>
  let (front, rest) := input.splitAt count
  if front.length = count then .ok (front, rest) else .error .endOfInput

/-- The given number of values. -/
def many (read : m α) : Nat → m (List α)
  | 0 => return []
  | count + 1 => do
    let a ← read
    let as ← many read count
    return a :: as

/-- A list after its length in two bytes. -/
def list16 (read : Reader α) : Reader (List α) := do
  many read (← u16).toNat

/-- A list after its length in one byte. -/
def list8 (read : Reader α) : Reader (List α) := do
  many read (← u8).toNat

/-- A byte sequence after its length in four bytes. -/
def bytes32 : Reader Bytes := do
  bytes (← u32).toNat

/-- An index of which 0 says that there is none. -/
def optionalIndex : Reader (Option ConstantIndex) := do
  let index ← u16
  return if index = 0 then none else some index

end Reader

end ClassPatch
