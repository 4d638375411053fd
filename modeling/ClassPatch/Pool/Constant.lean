import ClassPatch.Binary.Float
import ClassPatch.SlotTable

/-!
Constants of the constant pool. They refer to each other by index.
-/

namespace ClassPatch

/-- Slot of a constant in the pool; 0 is never the slot of one. -/
abbrev ConstantIndex := UInt16

/-- What a method handle does with its member. -/
inductive HandleKind where
  | getField | getStatic | putField | putStatic
  | invokeVirtual | invokeStatic | invokeSpecial | newInvokeSpecial | invokeInterface
  deriving DecidableEq, Hashable, Repr

namespace HandleKind

def code : HandleKind → UInt8
  | .getField => 1
  | .getStatic => 2
  | .putField => 3
  | .putStatic => 4
  | .invokeVirtual => 5
  | .invokeStatic => 6
  | .invokeSpecial => 7
  | .newInvokeSpecial => 8
  | .invokeInterface => 9

def ofCode? : UInt8 → Option HandleKind
  | 1 => some .getField
  | 2 => some .getStatic
  | 3 => some .putField
  | 4 => some .putStatic
  | 5 => some .invokeVirtual
  | 6 => some .invokeStatic
  | 7 => some .invokeSpecial
  | 8 => some .newInvokeSpecial
  | 9 => some .invokeInterface
  | _ => none

theorem ofCode?_code (k : HandleKind) : ofCode? k.code = some k := by
  cases k <;> rfl

def name : HandleKind → String
  | .getField => "GetField"
  | .getStatic => "GetStatic"
  | .putField => "PutField"
  | .putStatic => "PutStatic"
  | .invokeVirtual => "InvokeVirtual"
  | .invokeStatic => "InvokeStatic"
  | .invokeSpecial => "InvokeSpecial"
  | .newInvokeSpecial => "NewInvokeSpecial"
  | .invokeInterface => "InvokeInterface"

def ofName? (name : String) : Option HandleKind :=
  [getField, getStatic, putField, putStatic, invokeVirtual, invokeStatic, invokeSpecial,
    newInvokeSpecial, invokeInterface].find? (·.name == name)

/-- Whether the member is a field rather than a method. -/
def isField : HandleKind → Bool
  | .getField | .getStatic | .putField | .putStatic => true
  | _ => false

end HandleKind

/-- Entries of the constant pool. -/
inductive Constant where
  | utf8 (text : String)
  | integer (value : Int32)
  | float (value : Float32Bits)
  | long (value : Int64)
  | double (value : Float64Bits)
  | classRef (name : ConstantIndex)
  | string (text : ConstantIndex)
  | fieldRef (owner nameAndType : ConstantIndex)
  | methodRef (owner nameAndType : ConstantIndex) (isInterface : Bool)
  | nameAndType (name descriptor : ConstantIndex)
  | methodHandle (kind : HandleKind) (member : ConstantIndex)
  | methodType (descriptor : ConstantIndex)
  | dynamic (bootstrap : UInt16) (nameAndType : ConstantIndex)
  | invokeDynamic (bootstrap : UInt16) (nameAndType : ConstantIndex)
  | moduleRef (name : ConstantIndex)
  | packageRef (name : ConstantIndex)
  deriving DecidableEq, Hashable, Repr

namespace Constant

/-- Eight-byte constants take two slots. -/
instance : HasWidth Constant where
  width
    | .long _ | .double _ => 2
    | _ => 1

/-- Equality, with floating-point constants compared as numbers. -/
def sameValue : Constant → Constant → Bool
  | .float x, .float y => x.sameNumber y
  | .double x, .double y => x.sameNumber y
  | c, d => c == d

end Constant

end ClassPatch
