import ClassPatch.Descriptor.Basic
import ClassPatch.Pool.Constant

/-!
Constants with everything that they refer to, instead of indices.
-/

namespace ClassPatch

/-- Reference to a field. -/
structure FieldRef where
  owner : BinaryName
  name : UnqualifiedName
  descriptor : FieldType
  deriving DecidableEq

/-- Reference to a method. Arrays have methods too. -/
structure MethodRef where
  owner : RefType
  name : UnqualifiedName
  descriptor : MethodDescriptor
  isInterface : Bool
  deriving DecidableEq

/-- What a method handle leads to. -/
inductive HandleMember where
  | field (field : FieldRef)
  | method (method : MethodRef)
  deriving DecidableEq

/-- Reference to a member together with what is done with it. -/
structure MethodHandle where
  kind : HandleKind
  member : HandleMember
  deriving DecidableEq

/-- Constants that can be loaded and are known before the program runs. -/
inductive StaticConstant where
  | string (text : String)
  | integer (value : Int32)
  | float (value : Float32Bits)
  | long (value : Int64)
  | double (value : Float64Bits)
  | classRef (type : RefType)
  | methodType (descriptor : MethodDescriptor)
  | methodHandle (handle : MethodHandle)
  deriving DecidableEq

/-- Constants that can be loaded. A dynamic one is computed by a bootstrap method. -/
inductive LoadableConstant where
  | static (constant : StaticConstant)
  | dynamic (handle : MethodHandle) (arguments : List LoadableConstant) (name : UnqualifiedName)
      (descriptor : FieldType)

namespace LoadableConstant

mutual

def decEq : (c d : LoadableConstant) → Decidable (c = d)
  | .static x, .static y => if h : x = y then isTrue (by rw [h]) else isFalse (by simp [h])
  | .dynamic handle arguments name descriptor, .dynamic handle' arguments' name' descriptor' =>
    if h : handle = handle' ∧ name = name' ∧ descriptor = descriptor' then
      match decEqList arguments arguments' with
      | isTrue h' => isTrue (by rw [h.1, h.2.1, h.2.2, h'])
      | isFalse h' => isFalse (by simp [h'])
    else
      isFalse (by rintro ⟨⟩; simp at h)
  | .static _, .dynamic .. | .dynamic .., .static _ => isFalse nofun

def decEqList : (cs ds : List LoadableConstant) → Decidable (cs = ds)
  | [], [] => isTrue rfl
  | c :: cs, d :: ds =>
    match decEq c d, decEqList cs ds with
    | isTrue h, isTrue h' => isTrue (by rw [h, h'])
    | isFalse h, _ => isFalse (by simp [h])
    | _, isFalse h => isFalse (by simp [h])
  | [], _ :: _ | _ :: _, [] => isFalse nofun

end

instance : DecidableEq LoadableConstant := decEq

/-- Whether the constant takes two slots of the operand stack. -/
def isWide : LoadableConstant → Bool
  | .static (.long _) | .static (.double _) => true
  | .static _ => false
  | .dynamic _ _ _ descriptor => descriptor.width == 2

end LoadableConstant

/-- A method that computes constants and call sites, with its arguments. -/
structure BootstrapMethod where
  handle : MethodHandle
  arguments : List LoadableConstant
  deriving DecidableEq

/-- A call whose target is computed by a bootstrap method. -/
structure CallSite where
  bootstrap : BootstrapMethod
  name : UnqualifiedName
  descriptor : MethodDescriptor
  deriving DecidableEq

end ClassPatch
