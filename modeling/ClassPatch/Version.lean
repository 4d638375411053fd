/-!
Versions of the class file format, ordered by the major number first.
-/

namespace ClassPatch

/-- Version of a class file. -/
structure Version where
  major : UInt16
  minor : UInt16
  deriving DecidableEq, Repr

namespace Version

/-- The version that Java 8 introduced. -/
def java8 : Version := ⟨52, 0⟩

instance : Ord Version where
  compare v w := (compare v.major w.major).then (compare v.minor w.minor)

end Version

end ClassPatch
