import ClassPatch.Pool.Constant
import ClassPatch.Text.ModifiedUtf8

/-!
Written forms of the values that `Reader` reads. A length that its field cannot hold is written
modulo the size of the field.
-/

namespace ClassPatch.Writer

variable {α : Type}

/-- The low bytes of a number, most significant byte first. -/
def bigEndian : Nat → Nat → Bytes
  | 0, _ => []
  | count + 1, n => UInt8.ofNat (n / 256 ^ count) :: bigEndian count n

def u8 (x : UInt8) : Bytes := [x]
def u16 (x : UInt16) : Bytes := bigEndian 2 x.toNat
def u32 (x : UInt32) : Bytes := bigEndian 4 x.toNat
def u64 (x : UInt64) : Bytes := bigEndian 8 x.toNat

def i8 (x : Int8) : Bytes := u8 x.toUInt8
def i16 (x : Int16) : Bytes := u16 x.toUInt16
def i32 (x : Int32) : Bytes := u32 x.toUInt32
def i64 (x : Int64) : Bytes := u64 x.toUInt64

/-- A list after its length in two bytes. -/
def list16 (write : α → Bytes) (as : List α) : Bytes :=
  u16 (UInt16.ofNat as.length) ++ as.flatMap write

/-- A list after its length in one byte. -/
def list8 (write : α → Bytes) (as : List α) : Bytes :=
  u8 (UInt8.ofNat as.length) ++ as.flatMap write

/-- A byte sequence after its length in four bytes. -/
def bytes32 (bytes : Bytes) : Bytes :=
  u32 (UInt32.ofNat bytes.length) ++ bytes

/-- An index of which 0 says that there is none. -/
def optionalIndex (index : Option ConstantIndex) : Bytes :=
  u16 (index.getD 0)

end ClassPatch.Writer
