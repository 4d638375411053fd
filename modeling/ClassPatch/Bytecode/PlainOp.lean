/-!
Instructions without operands that do not branch, with their opcodes and mnemonics.
-/

namespace ClassPatch

/-- An instruction that is its opcode. -/
inductive PlainOp where
  | nop | aconstNull | iconstM1 | iconst0 | iconst1 | iconst2 | iconst3 | iconst4 | iconst5
  | lconst0 | lconst1 | fconst0 | fconst1 | fconst2 | dconst0 | dconst1 | iaLoad | laLoad
  | faLoad | daLoad | aaLoad | baLoad | caLoad | saLoad | iaStore | laStore | faStore | daStore
  | aaStore | baStore | caStore | saStore | pop | pop2 | dup | dupX1 | dupX2 | dup2 | dup2X1
  | dup2X2 | swap | iadd | ladd | fadd | dadd | isub | lsub | fsub | dsub | imul | lmul | fmul
  | dmul | idiv | ldiv | fdiv | ddiv | irem | lrem | frem | drem | ineg | lneg | fneg | dneg
  | ishl | lshl | ishr | lshr | iushr | lushr | iand | land | ior | lor | ixor | lxor | i2l
  | i2f | i2d | l2i | l2f | l2d | f2i | f2l | f2d | d2i | d2l | d2f | i2b | i2c | i2s | lcmp
  | fcmpl | fcmpg | dcmpl | dcmpg | arrayLength | monitorEnter | monitorExit
  deriving DecidableEq, Repr

namespace PlainOp

def opcode : PlainOp → UInt8
  | .nop => 0x00
  | .aconstNull => 0x01
  | .iconstM1 => 0x02
  | .iconst0 => 0x03
  | .iconst1 => 0x04
  | .iconst2 => 0x05
  | .iconst3 => 0x06
  | .iconst4 => 0x07
  | .iconst5 => 0x08
  | .lconst0 => 0x09
  | .lconst1 => 0x0A
  | .fconst0 => 0x0B
  | .fconst1 => 0x0C
  | .fconst2 => 0x0D
  | .dconst0 => 0x0E
  | .dconst1 => 0x0F
  | .iaLoad => 0x2E
  | .laLoad => 0x2F
  | .faLoad => 0x30
  | .daLoad => 0x31
  | .aaLoad => 0x32
  | .baLoad => 0x33
  | .caLoad => 0x34
  | .saLoad => 0x35
  | .iaStore => 0x4F
  | .laStore => 0x50
  | .faStore => 0x51
  | .daStore => 0x52
  | .aaStore => 0x53
  | .baStore => 0x54
  | .caStore => 0x55
  | .saStore => 0x56
  | .pop => 0x57
  | .pop2 => 0x58
  | .dup => 0x59
  | .dupX1 => 0x5A
  | .dupX2 => 0x5B
  | .dup2 => 0x5C
  | .dup2X1 => 0x5D
  | .dup2X2 => 0x5E
  | .swap => 0x5F
  | .iadd => 0x60
  | .ladd => 0x61
  | .fadd => 0x62
  | .dadd => 0x63
  | .isub => 0x64
  | .lsub => 0x65
  | .fsub => 0x66
  | .dsub => 0x67
  | .imul => 0x68
  | .lmul => 0x69
  | .fmul => 0x6A
  | .dmul => 0x6B
  | .idiv => 0x6C
  | .ldiv => 0x6D
  | .fdiv => 0x6E
  | .ddiv => 0x6F
  | .irem => 0x70
  | .lrem => 0x71
  | .frem => 0x72
  | .drem => 0x73
  | .ineg => 0x74
  | .lneg => 0x75
  | .fneg => 0x76
  | .dneg => 0x77
  | .ishl => 0x78
  | .lshl => 0x79
  | .ishr => 0x7A
  | .lshr => 0x7B
  | .iushr => 0x7C
  | .lushr => 0x7D
  | .iand => 0x7E
  | .land => 0x7F
  | .ior => 0x80
  | .lor => 0x81
  | .ixor => 0x82
  | .lxor => 0x83
  | .i2l => 0x85
  | .i2f => 0x86
  | .i2d => 0x87
  | .l2i => 0x88
  | .l2f => 0x89
  | .l2d => 0x8A
  | .f2i => 0x8B
  | .f2l => 0x8C
  | .f2d => 0x8D
  | .d2i => 0x8E
  | .d2l => 0x8F
  | .d2f => 0x90
  | .i2b => 0x91
  | .i2c => 0x92
  | .i2s => 0x93
  | .lcmp => 0x94
  | .fcmpl => 0x95
  | .fcmpg => 0x96
  | .dcmpl => 0x97
  | .dcmpg => 0x98
  | .arrayLength => 0xBE
  | .monitorEnter => 0xC2
  | .monitorExit => 0xC3

def mnemonic : PlainOp → String
  | .nop => "nop"
  | .aconstNull => "aconst_null"
  | .iconstM1 => "iconst_m1"
  | .iconst0 => "iconst_0"
  | .iconst1 => "iconst_1"
  | .iconst2 => "iconst_2"
  | .iconst3 => "iconst_3"
  | .iconst4 => "iconst_4"
  | .iconst5 => "iconst_5"
  | .lconst0 => "lconst_0"
  | .lconst1 => "lconst_1"
  | .fconst0 => "fconst_0"
  | .fconst1 => "fconst_1"
  | .fconst2 => "fconst_2"
  | .dconst0 => "dconst_0"
  | .dconst1 => "dconst_1"
  | .iaLoad => "iaload"
  | .laLoad => "laload"
  | .faLoad => "faload"
  | .daLoad => "daload"
  | .aaLoad => "aaload"
  | .baLoad => "baload"
  | .caLoad => "caload"
  | .saLoad => "saload"
  | .iaStore => "iastore"
  | .laStore => "lastore"
  | .faStore => "fastore"
  | .daStore => "dastore"
  | .aaStore => "aastore"
  | .baStore => "bastore"
  | .caStore => "castore"
  | .saStore => "sastore"
  | .pop => "pop"
  | .pop2 => "pop2"
  | .dup => "dup"
  | .dupX1 => "dup_x1"
  | .dupX2 => "dup_x2"
  | .dup2 => "dup2"
  | .dup2X1 => "dup2_x1"
  | .dup2X2 => "dup2_x2"
  | .swap => "swap"
  | .iadd => "iadd"
  | .ladd => "ladd"
  | .fadd => "fadd"
  | .dadd => "dadd"
  | .isub => "isub"
  | .lsub => "lsub"
  | .fsub => "fsub"
  | .dsub => "dsub"
  | .imul => "imul"
  | .lmul => "lmul"
  | .fmul => "fmul"
  | .dmul => "dmul"
  | .idiv => "idiv"
  | .ldiv => "ldiv"
  | .fdiv => "fdiv"
  | .ddiv => "ddiv"
  | .irem => "irem"
  | .lrem => "lrem"
  | .frem => "frem"
  | .drem => "drem"
  | .ineg => "ineg"
  | .lneg => "lneg"
  | .fneg => "fneg"
  | .dneg => "dneg"
  | .ishl => "ishl"
  | .lshl => "lshl"
  | .ishr => "ishr"
  | .lshr => "lshr"
  | .iushr => "iushr"
  | .lushr => "lushr"
  | .iand => "iand"
  | .land => "land"
  | .ior => "ior"
  | .lor => "lor"
  | .ixor => "ixor"
  | .lxor => "lxor"
  | .i2l => "i2l"
  | .i2f => "i2f"
  | .i2d => "i2d"
  | .l2i => "l2i"
  | .l2f => "l2f"
  | .l2d => "l2d"
  | .f2i => "f2i"
  | .f2l => "f2l"
  | .f2d => "f2d"
  | .d2i => "d2i"
  | .d2l => "d2l"
  | .d2f => "d2f"
  | .i2b => "i2b"
  | .i2c => "i2c"
  | .i2s => "i2s"
  | .lcmp => "lcmp"
  | .fcmpl => "fcmpl"
  | .fcmpg => "fcmpg"
  | .dcmpl => "dcmpl"
  | .dcmpg => "dcmpg"
  | .arrayLength => "arraylength"
  | .monitorEnter => "monitorenter"
  | .monitorExit => "monitorexit"

/-- Every one of them, by opcode. -/
def all : List PlainOp :=
  [.nop, .aconstNull, .iconstM1, .iconst0, .iconst1, .iconst2, .iconst3, .iconst4, .iconst5,
   .lconst0, .lconst1, .fconst0, .fconst1, .fconst2, .dconst0, .dconst1, .iaLoad, .laLoad,
   .faLoad, .daLoad, .aaLoad, .baLoad, .caLoad, .saLoad, .iaStore, .laStore, .faStore,
   .daStore, .aaStore, .baStore, .caStore, .saStore, .pop, .pop2, .dup, .dupX1, .dupX2, .dup2,
   .dup2X1, .dup2X2, .swap, .iadd, .ladd, .fadd, .dadd, .isub, .lsub, .fsub, .dsub, .imul,
   .lmul, .fmul, .dmul, .idiv, .ldiv, .fdiv, .ddiv, .irem, .lrem, .frem, .drem, .ineg, .lneg,
   .fneg, .dneg, .ishl, .lshl, .ishr, .lshr, .iushr, .lushr, .iand, .land, .ior, .lor, .ixor,
   .lxor, .i2l, .i2f, .i2d, .l2i, .l2f, .l2d, .f2i, .f2l, .f2d, .d2i, .d2l, .d2f, .i2b, .i2c,
   .i2s, .lcmp, .fcmpl, .fcmpg, .dcmpl, .dcmpg, .arrayLength, .monitorEnter, .monitorExit]

theorem mem_all (op : PlainOp) : op ∈ all := by
  cases op <;> decide

/-- The instruction that an opcode stands for. -/
def ofOpcode? (code : UInt8) : Option PlainOp :=
  all.find? (·.opcode == code)

theorem ofOpcode?_opcode (op : PlainOp) : ofOpcode? op.opcode = some op := by
  cases op <;> rfl

theorem opcode_of_ofOpcode? {code : UInt8} {op : PlainOp} (h : ofOpcode? code = some op) :
    op.opcode = code := by
  simpa using List.find?_some h

/-- The instruction that a mnemonic stands for. -/
def ofMnemonic? (text : String) : Option PlainOp :=
  all.find? (·.mnemonic == text)

end PlainOp

end ClassPatch
