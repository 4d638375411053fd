/-!
Access flags of classes, methods, fields and inner classes. Each kind defines its own bits; other
bits are dropped where flags are made, so no value holds them.
-/

namespace ClassPatch

/-- What flags are set on. -/
inductive FlagKind where
  | classFlags | method | field | innerClass
  deriving DecidableEq, Repr

/-- The bits that a kind defines. -/
def FlagKind.mask : FlagKind → UInt16
  | .classFlags => 0xF631
  | .method => 0x1DFF
  | .field => 0x50DF
  | .innerClass => 0x761F

/-- A set of flags of one kind. -/
structure AccessFlags (kind : FlagKind) where
  bits : UInt16
  defined : bits &&& kind.mask = bits
  deriving DecidableEq

namespace AccessFlags

variable {kind : FlagKind}

/-- Keep the bits that the kind defines. -/
def truncate (kind : FlagKind) (bits : UInt16) : AccessFlags kind :=
  ⟨bits &&& kind.mask, by rw [UInt16.and_assoc, UInt16.and_self]⟩

theorem truncate_bits (flags : AccessFlags kind) : truncate kind flags.bits = flags := by
  cases flags with
  | mk bits defined => simp [truncate, defined]

/-- Whether all bits of a mask are set. -/
def contains (flags : AccessFlags kind) (mask : UInt16) : Bool :=
  flags.bits &&& mask == mask

/-- Bit of public classes and members. -/
def publicBit : UInt16 := 0x0001

/-- Bit of methods and fields without receiver. -/
def staticBit : UInt16 := 0x0008

/-- Bit of classes that cannot be extended. -/
def finalBit : UInt16 := 0x0010

/-- Bit of interfaces. -/
def interfaceBit : UInt16 := 0x0200

end AccessFlags

abbrev ClassFlags := AccessFlags .classFlags
abbrev MethodFlags := AccessFlags .method
abbrev FieldFlags := AccessFlags .field
abbrev InnerClassFlags := AccessFlags .innerClass

end ClassPatch
