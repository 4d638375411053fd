import ClassPatch.Binary.Reader
import ClassPatch.Binary.Writer

/-!
Binary form of constants and of the constant pool.
-/

namespace ClassPatch

namespace HandleKind

def read : Reader HandleKind := do
  let code ← Reader.u8
  match ofCode? code with
  | some kind => return kind
  | none => throw (.malformedAttribute "MethodHandle" (.unknownHandleKind code))

end HandleKind

namespace Constant

/-- Read what follows the tag of a constant. -/
def readBody (tag : UInt8) : Reader Constant :=
  match tag with
  | 1 => do return .utf8 (ModifiedUtf8.decode (← Reader.bytes (← Reader.u16).toNat))
  | 3 => do return .integer (← Reader.i32)
  | 4 => do return .float ⟨← Reader.u32⟩
  | 5 => do return .long (← Reader.i64)
  | 6 => do return .double ⟨← Reader.u64⟩
  | 7 => do return .classRef (← Reader.u16)
  | 8 => do return .string (← Reader.u16)
  | 9 => do return .fieldRef (← Reader.u16) (← Reader.u16)
  | 10 => do return .methodRef (← Reader.u16) (← Reader.u16) false
  | 11 => do return .methodRef (← Reader.u16) (← Reader.u16) true
  | 12 => do return .nameAndType (← Reader.u16) (← Reader.u16)
  | 15 => do return .methodHandle (← HandleKind.read) (← Reader.u16)
  | 16 => do return .methodType (← Reader.u16)
  | 17 => do return .dynamic (← Reader.u16) (← Reader.u16)
  | 18 => do return .invokeDynamic (← Reader.u16) (← Reader.u16)
  | 19 => do return .moduleRef (← Reader.u16)
  | 20 => do return .packageRef (← Reader.u16)
  | tag => throw (.unknownConstantTag tag)

def read : Reader Constant := do
  readBody (← Reader.u8)

open Writer in
def write : Constant → Bytes
  | .utf8 text =>
    let bytes := ModifiedUtf8.encode text
    u8 1 ++ u16 (UInt16.ofNat bytes.length) ++ bytes
  | .integer value => u8 3 ++ i32 value
  | .float value => u8 4 ++ u32 value.bits
  | .long value => u8 5 ++ i64 value
  | .double value => u8 6 ++ u64 value.bits
  | .classRef name => u8 7 ++ u16 name
  | .string text => u8 8 ++ u16 text
  | .fieldRef owner pair => u8 9 ++ u16 owner ++ u16 pair
  | .methodRef owner pair isInterface =>
    u8 (if isInterface then 11 else 10) ++ u16 owner ++ u16 pair
  | .nameAndType name descriptor => u8 12 ++ u16 name ++ u16 descriptor
  | .methodHandle kind member => u8 15 ++ u8 kind.code ++ u16 member
  | .methodType descriptor => u8 16 ++ u16 descriptor
  | .dynamic bootstrap pair => u8 17 ++ u16 bootstrap ++ u16 pair
  | .invokeDynamic bootstrap pair => u8 18 ++ u16 bootstrap ++ u16 pair
  | .moduleRef name => u8 19 ++ u16 name
  | .packageRef name => u8 20 ++ u16 name

theorem width_pos (c : Constant) : 0 < width c := by
  cases c <;> simp [width]

end Constant

/-- The constants of a class file, at their indices. -/
abbrev ConstantTable := SlotTable Constant

namespace ConstantTable

/-- The table without constants. Indices start at 1. -/
def empty : ConstantTable := SlotTable.empty 1

/-- Read constants until the next one would start at or after the given slot. -/
def readFrom (table : ConstantTable) (limit : Nat) : Reader ConstantTable :=
  if table.next < limit then do
    let c ← Constant.read
    readFrom (table.push c) limit
  else
    return table
termination_by limit - table.next
decreasing_by
  have := c.width_pos
  simp only [SlotTable.push]
  omega

/-- Read the table after the slot where it ends. -/
def read : Reader ConstantTable := do
  readFrom empty (← Reader.u16).toNat

def write (table : ConstantTable) : Bytes :=
  Writer.u16 (UInt16.ofNat table.next) ++ table.elements.flatMap Constant.write

end ConstantTable

end ClassPatch
