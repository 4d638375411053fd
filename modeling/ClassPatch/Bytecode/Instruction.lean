import ClassPatch.Bytecode.PlainOp
import ClassPatch.Descriptor.Basic
import ClassPatch.Error.Basic

/-!
Instructions that do not branch. The operands that refer to constants are parameters: they are
indices in a class file, and the things referred to in a class as it is edited.

The prefix `wide` is no instruction of its own: an instruction whose operands need it is written
with it, and read back as the same instruction.
-/

namespace ClassPatch

/-- Kinds of values that local variables and the operand stack hold. -/
inductive ValueKind where
  | int | long | float | double | reference
  deriving DecidableEq, Repr

namespace ValueKind

def all : List ValueKind := [int, long, float, double, reference]

/-- Position of the kind in the opcode ranges. -/
def code : ValueKind → UInt8
  | .int => 0
  | .long => 1
  | .float => 2
  | .double => 3
  | .reference => 4

def ofCode? : UInt8 → Option ValueKind
  | 0 => some .int
  | 1 => some .long
  | 2 => some .float
  | 3 => some .double
  | 4 => some .reference
  | _ => none

/-- Letter of the kind in mnemonics. -/
def letter : ValueKind → String
  | .int => "i"
  | .long => "l"
  | .float => "f"
  | .double => "d"
  | .reference => "a"

/-- Slots that a value of the kind takes. -/
def width : ValueKind → Nat
  | .long | .double => 2
  | _ => 1

end ValueKind

/-- Kind of the values of a type. -/
def BaseType.kind : BaseType → ValueKind
  | .long => .long
  | .float => .float
  | .double => .double
  | _ => .int

/-- Kind of the values of a type. -/
def FieldType.kind : FieldType → ValueKind
  | .base t => t.kind
  | .ref _ => .reference

/-- What an instruction does with a field. -/
inductive FieldAccess where
  | getStatic | putStatic | getField | putField
  deriving DecidableEq, Repr

namespace FieldAccess

def all : List FieldAccess := [getStatic, putStatic, getField, putField]

def opcode : FieldAccess → UInt8
  | .getStatic => 0xB2
  | .putStatic => 0xB3
  | .getField => 0xB4
  | .putField => 0xB5

def mnemonic : FieldAccess → String
  | .getStatic => "getstatic"
  | .putStatic => "putstatic"
  | .getField => "getfield"
  | .putField => "putfield"

end FieldAccess

/-- How an instruction finds the method that it calls. -/
inductive InvokeKind where
  | virtual | special | static
  /-- Call through an interface, with the number of slots that the arguments take. -/
  | interface (count : UInt8)
  deriving DecidableEq, Repr

def InvokeKind.mnemonic : InvokeKind → String
  | .virtual => "invokevirtual"
  | .special => "invokespecial"
  | .static => "invokestatic"
  | .interface _ => "invokeinterface"

/-- What an instruction does with a class. -/
inductive ClassOp where
  | new | newArray | checkCast | instanceOf
  deriving DecidableEq, Repr

namespace ClassOp

def all : List ClassOp := [new, newArray, checkCast, instanceOf]

def opcode : ClassOp → UInt8
  | .new => 0xBB
  | .newArray => 0xBD
  | .checkCast => 0xC0
  | .instanceOf => 0xC1

def mnemonic : ClassOp → String
  | .new => "new"
  | .newArray => "anewarray"
  | .checkCast => "checkcast"
  | .instanceOf => "instanceof"

end ClassOp

/-- Instructions that do not branch. -/
inductive Instruction (Cls Const Fld Meth Site : Type) where
  | plain (op : PlainOp)
  | bipush (value : Int8)
  | sipush (value : Int16)
  | ldc (constant : Const)
  /-- Load a constant of two slots. -/
  | ldc2 (constant : Const)
  | load (kind : ValueKind) (slot : UInt16)
  | store (kind : ValueKind) (slot : UInt16)
  | iinc (slot : UInt16) (amount : Int16)
  | onField (access : FieldAccess) (field : Fld)
  | invoke (kind : InvokeKind) (method : Meth)
  | invokeDynamic (site : Site)
  | onClass (op : ClassOp) (cls : Cls)
  | newPrimitiveArray (type : BaseType)
  | multiNewArray (cls : Cls) (dimensions : UInt8)
  deriving DecidableEq

/-- Instructions of a class file. -/
abbrev StoredInstruction :=
  Instruction ConstantIndex ConstantIndex ConstantIndex ConstantIndex ConstantIndex

namespace Instruction

variable {m : Type → Type} [Monad m] {C K F M S C' K' F' M' S' : Type}

/-- Convert the operands that refer to constants. -/
def mapM (cls : C → m C') (const : K → m K') (field : F → m F') (method : M → m M')
    (site : S → m S') : Instruction C K F M S → m (Instruction C' K' F' M' S')
  | .plain op => return .plain op
  | .bipush value => return .bipush value
  | .sipush value => return .sipush value
  | .ldc c => return .ldc (← const c)
  | .ldc2 c => return .ldc2 (← const c)
  | .load kind slot => return .load kind slot
  | .store kind slot => return .store kind slot
  | .iinc slot amount => return .iinc slot amount
  | .onField access f => return .onField access (← field f)
  | .invoke kind f => return .invoke kind (← method f)
  | .invokeDynamic s => return .invokeDynamic (← site s)
  | .onClass op c => return .onClass op (← cls c)
  | .newPrimitiveArray t => return .newPrimitiveArray t
  | .multiNewArray c n => return .multiNewArray (← cls c) n

end Instruction

/-- Whether a signed byte can hold the number. -/
def fitsByte (n : Int16) : Bool := n.toInt8.toInt16 == n

namespace StoredInstruction

/-- Bytes of a load or store, which come in a short, a normal and a wide form. -/
def slotAccessWidth (slot : UInt16) : Nat :=
  if slot ≤ 3 then 1 else if slot ≤ 0xFF then 2 else 4

/-- Bytes that the instruction takes. -/
def width : StoredInstruction → Nat
  | .plain _ => 1
  | .bipush _ | .newPrimitiveArray _ => 2
  | .ldc c => if c ≤ 0xFF then 2 else 3
  | .load _ slot | .store _ slot => slotAccessWidth slot
  | .iinc slot amount => if slot ≤ 0xFF && fitsByte amount then 3 else 6
  | .invoke (.interface _) _ | .invokeDynamic _ => 5
  | .sipush _ | .ldc2 _ | .onField .. | .invoke .. | .onClass .. => 3
  | .multiNewArray .. => 4

end StoredInstruction

/-- Order comparisons of numbers. -/
inductive Comparison where
  | eq | ne | lt | ge | gt | le
  deriving DecidableEq, Repr

namespace Comparison

/-- Position of the comparison in the opcode ranges. -/
def code : Comparison → UInt8
  | .eq => 0
  | .ne => 1
  | .lt => 2
  | .ge => 3
  | .gt => 4
  | .le => 5

def ofCode? : UInt8 → Option Comparison
  | 0 => some .eq
  | 1 => some .ne
  | 2 => some .lt
  | 3 => some .ge
  | 4 => some .gt
  | 5 => some .le
  | _ => none

def mnemonic : Comparison → String
  | .eq => "eq"
  | .ne => "ne"
  | .lt => "lt"
  | .ge => "ge"
  | .gt => "gt"
  | .le => "le"

def all : List Comparison := [eq, ne, lt, ge, gt, le]

def ofMnemonic? (text : String) : Option Comparison := all.find? (·.mnemonic == text)

/-- The comparison that holds where this one does not. -/
def negate : Comparison → Comparison
  | .eq => .ne
  | .ne => .eq
  | .lt => .ge
  | .ge => .lt
  | .gt => .le
  | .le => .gt

end Comparison

/-- Comparisons of references. -/
inductive Equality where
  | eq | ne
  deriving DecidableEq, Repr

namespace Equality

def all : List Equality := [eq, ne]

def mnemonic : Equality → String
  | .eq => "eq"
  | .ne => "ne"

def code : Equality → UInt8
  | .eq => 0
  | .ne => 1

def negate : Equality → Equality
  | .eq => .ne
  | .ne => .eq

end Equality

/--
Instructions that can continue elsewhere than at the next one. Targets of the conditional jumps and
of the short jumps are of type `Near`, those of the wide jumps and of the switches of type `Far`.
-/
inductive Branch (Near Far : Type) where
  /-- Compare an integer with zero. -/
  | ifZero (comparison : Comparison) (target : Near)
  | ifInts (comparison : Comparison) (target : Near)
  | ifRefs (comparison : Equality) (target : Near)
  /-- Compare a reference with null. -/
  | ifNull (comparison : Equality) (target : Near)
  | goto (target : Near)
  | gotoWide (target : Far)
  /-- Call a subroutine. -/
  | jsr (target : Near)
  | jsrWide (target : Far)
  /-- Return from a subroutine. -/
  | ret (slot : UInt16)
  /-- Jump by index from `low` on. The padding aligns the operands. -/
  | tableSwitch (padding : UInt8) (fallback : Far) (low : Int32) (targets : List Far)
  | lookupSwitch (padding : UInt8) (fallback : Far) (pairs : List (Int32 × Far))
  | valueReturn (kind : ValueKind)
  | voidReturn
  | athrow
  deriving DecidableEq

namespace Branch

variable {m : Type → Type} [Monad m] {N F N' F' : Type}

/-- Whether execution can continue with the next instruction. Subroutines return to it. -/
def fallsThrough : Branch N F → Bool
  | .ifZero .. | .ifInts .. | .ifRefs .. | .ifNull .. | .jsr _ | .jsrWide _ => true
  | _ => false

/-- Convert the targets. -/
def mapM (near : N → m N') (far : F → m F') : Branch N F → m (Branch N' F')
  | .ifZero c t => return .ifZero c (← near t)
  | .ifInts c t => return .ifInts c (← near t)
  | .ifRefs c t => return .ifRefs c (← near t)
  | .ifNull c t => return .ifNull c (← near t)
  | .goto t => return .goto (← near t)
  | .gotoWide t => return .gotoWide (← far t)
  | .jsr t => return .jsr (← near t)
  | .jsrWide t => return .jsrWide (← far t)
  | .ret slot => return .ret slot
  | .tableSwitch padding fallback low targets => do
    let fallback ← far fallback
    return .tableSwitch padding fallback low (← targets.mapM far)
  | .lookupSwitch padding fallback pairs => do
    let fallback ← far fallback
    return .lookupSwitch padding fallback (← pairs.mapM fun (key, t) => return (key, ← far t))
  | .valueReturn kind => return .valueReturn kind
  | .voidReturn => return .voidReturn
  | .athrow => return .athrow

/-- Jump targets, those of a switch with the fallback first. -/
def targets {L : Type} : Branch L L → List L
  | .ifZero _ t | .ifInts _ t | .ifRefs _ t | .ifNull _ t | .goto t | .gotoWide t | .jsr t
  | .jsrWide t => [t]
  | .tableSwitch _ fallback _ targets => fallback :: targets
  | .lookupSwitch _ fallback pairs => fallback :: pairs.map (·.2)
  | .ret _ | .valueReturn _ | .voidReturn | .athrow => []

/-- Bytes that the instruction takes. -/
def width : Branch N F → Nat
  | .ifZero .. | .ifInts .. | .ifRefs .. | .ifNull .. | .goto _ | .jsr _ => 3
  | .gotoWide _ | .jsrWide _ => 5
  | .ret slot => if slot ≤ 0xFF then 2 else 4
  | .tableSwitch padding _ _ targets => 1 + padding.toNat + 4 * (3 + targets.length)
  | .lookupSwitch padding _ pairs => 1 + padding.toNat + 8 * (1 + pairs.length)
  | .valueReturn _ | .voidReturn | .athrow => 1

end Branch

/-- Elements of a method body: positions are marked by labels. -/
inductive CodeElement (I B : Type) where
  | label (label : Label)
  | instruction (instruction : I)
  | branch (branch : B)
  deriving DecidableEq

end ClassPatch
