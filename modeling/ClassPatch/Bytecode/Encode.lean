import ClassPatch.Binary.Writer
import ClassPatch.Bytecode.Instruction

/-!
Binary form of instructions, always in the shortest form that holds the operands.
-/

namespace ClassPatch

open Writer

/-- Says that the next instruction has wide operands. -/
def wideCode : UInt8 := 0xC4

/-- A load or store of the kind, whose opcodes for the short and the normal form start as given. -/
def encodeSlotAccess (short normal : UInt8) (kind : ValueKind) (slot : UInt16) : Bytes :=
  if slot ≤ 3 then u8 (short + 4 * kind.code + slot.toUInt8)
  else if slot ≤ 0xFF then u8 (normal + kind.code) ++ u8 slot.toUInt8
  else u8 wideCode ++ u8 (normal + kind.code) ++ u16 slot

namespace InvokeKind

/-- The instruction that calls the method in this way. -/
def encode (method : ConstantIndex) : InvokeKind → Bytes
  | .virtual => u8 0xB6 ++ u16 method
  | .special => u8 0xB7 ++ u16 method
  | .static => u8 0xB8 ++ u16 method
  | .interface count => u8 0xB9 ++ u16 method ++ u8 count ++ u8 0

end InvokeKind

namespace StoredInstruction

def encode : StoredInstruction → Bytes
  | .plain op => u8 op.opcode
  | .bipush value => u8 0x10 ++ i8 value
  | .sipush value => u8 0x11 ++ i16 value
  | .ldc c => if c ≤ 0xFF then u8 0x12 ++ u8 c.toUInt8 else u8 0x13 ++ u16 c
  | .ldc2 c => u8 0x14 ++ u16 c
  | .load kind slot => encodeSlotAccess 0x1A 0x15 kind slot
  | .store kind slot => encodeSlotAccess 0x3B 0x36 kind slot
  | .iinc slot amount =>
    if slot ≤ 0xFF && fitsByte amount then u8 0x84 ++ u8 slot.toUInt8 ++ i8 amount.toInt8
    else u8 wideCode ++ u8 0x84 ++ u16 slot ++ i16 amount
  | .onField access f => u8 access.opcode ++ u16 f
  | .invoke kind f => kind.encode f
  | .invokeDynamic s => u8 0xBA ++ u16 s ++ u16 0
  | .onClass op c => u8 op.opcode ++ u16 c
  | .newPrimitiveArray t => u8 0xBC ++ u8 t.arrayCode
  | .multiNewArray c n => u8 0xC5 ++ u16 c ++ u8 n

end StoredInstruction

/-- Branches with their distances as targets. -/
abbrev StoredBranch := Branch Int16 Int32

/-- Opcode of the instruction that returns a value of the kind. -/
def ValueKind.returnCode (kind : ValueKind) : UInt8 := 0xAC + kind.code

namespace StoredBranch

/-- The padding is written with zeros. -/
def encode : StoredBranch → Bytes
  | .ifZero c t => u8 (0x99 + c.code) ++ i16 t
  | .ifInts c t => u8 (0x9F + c.code) ++ i16 t
  | .ifRefs c t => u8 (0xA5 + c.code) ++ i16 t
  | .ifNull c t => u8 (0xC6 + c.code) ++ i16 t
  | .goto t => u8 0xA7 ++ i16 t
  | .gotoWide t => u8 0xC8 ++ i32 t
  | .jsr t => u8 0xA8 ++ i16 t
  | .jsrWide t => u8 0xC9 ++ i32 t
  | .ret slot =>
    if slot ≤ 0xFF then u8 0xA9 ++ u8 slot.toUInt8 else u8 wideCode ++ u8 0xA9 ++ u16 slot
  | .tableSwitch padding fallback low targets =>
    u8 0xAA ++ List.replicate padding.toNat 0 ++ i32 fallback ++ i32 low
      ++ i32 (low + Int32.ofNat targets.length - 1) ++ targets.flatMap i32
  | .lookupSwitch padding fallback pairs =>
    u8 0xAB ++ List.replicate padding.toNat 0 ++ i32 fallback ++ i32 (Int32.ofNat pairs.length)
      ++ pairs.flatMap fun (key, t) => i32 key ++ i32 t
  | .valueReturn kind => u8 kind.returnCode
  | .voidReturn => u8 0xB1
  | .athrow => u8 0xBF

end StoredBranch

end ClassPatch
