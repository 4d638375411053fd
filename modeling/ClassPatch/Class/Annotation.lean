import ClassPatch.Annotation.Basic

/-!
Annotations with the values of their elements.
-/

namespace ClassPatch

/-- Types whose values are integer constants. -/
inductive IntegerType where
  | byte | char | short | boolean | int
  deriving DecidableEq, Repr

namespace IntegerType

def tag : IntegerType → ElementTag
  | .byte => .byte
  | .char => .char
  | .short => .short
  | .boolean => .boolean
  | .int => .int

end IntegerType

/-- A value of an element that is not made of others. -/
inductive LeafValue where
  | integer (type : IntegerType) (value : Int32)
  | long (value : Int64)
  | float (value : Float32Bits)
  | double (value : Float64Bits)
  | string (text : String)
  | enum (type name : String)
  /-- A class literal, as a descriptor that may be `V`. -/
  | classInfo (descriptor : String)
  deriving DecidableEq, Repr

abbrev ElementValue := ElementTree LeafValue String
abbrev Annotation := AnnotationTree LeafValue String

/-- An annotation without elements. -/
def Annotation.marker (type : String) : Annotation := ⟨type, []⟩

/--
Annotations of one thing: those that the running program sees, and those that it does not see.
-/
structure Annotations where
  visible : List Annotation := []
  invisible : List Annotation := []
  deriving DecidableEq

namespace Annotations

/-- All annotations, visible ones first. -/
def all (as : Annotations) : List Annotation := as.visible ++ as.invisible

/-- Whether there is an annotation of the type. -/
def contains (as : Annotations) (type : String) : Bool := as.all.any (·.type == type)

end Annotations

/-- One list of annotations for each parameter that the class file counts. -/
structure ParameterAnnotations where
  visible : Option (List (List Annotation)) := none
  invisible : Option (List (List Annotation)) := none
  deriving DecidableEq

end ClassPatch
