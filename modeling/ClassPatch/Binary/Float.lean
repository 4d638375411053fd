/-!
Floating-point numbers as their bits in the IEEE 754 formats. Equality of numbers differs from
equality of bits in two ways: a NaN equals nothing, and the two zeros are equal.
-/

namespace ClassPatch

/-- Bits of a single precision number. -/
structure Float32Bits where
  bits : UInt32
  deriving DecidableEq, Hashable, Repr

/-- Bits of a double precision number. -/
structure Float64Bits where
  bits : UInt64
  deriving DecidableEq, Hashable, Repr

namespace Float32Bits

/-- The bits without the sign. -/
def magnitude (x : Float32Bits) : UInt32 := x.bits &&& 0x7FFFFFFF

def isNaN (x : Float32Bits) : Bool := 0x7F800000 < x.magnitude

/-- Equality of the numbers. -/
def sameNumber (x y : Float32Bits) : Bool :=
  !x.isNaN && !y.isNaN && (x.bits == y.bits || (x.magnitude == 0 && y.magnitude == 0))

end Float32Bits

namespace Float64Bits

/-- The bits without the sign. -/
def magnitude (x : Float64Bits) : UInt64 := x.bits &&& 0x7FFFFFFFFFFFFFFF

def isNaN (x : Float64Bits) : Bool := 0x7FF0000000000000 < x.magnitude

/-- Equality of the numbers. -/
def sameNumber (x y : Float64Bits) : Bool :=
  !x.isNaN && !y.isNaN && (x.bits == y.bits || (x.magnitude == 0 && y.magnitude == 0))

end Float64Bits

end ClassPatch
