import ClassPatch.Pool.Constant

/-!
Annotations and the values of their elements. What a value is made of is a parameter: indices of
constants in a class file, and the constants themselves in a class as it is edited.
-/

namespace ClassPatch

/-- Value of an element: single, or made of others. Names and descriptors are of type `Text`. -/
inductive ElementTree (Leaf Text : Type) where
  | leaf (value : Leaf)
  | nested (type : Text) (elements : List (Text × ElementTree Leaf Text))
  | array (values : List (ElementTree Leaf Text))

/-- An annotation, with its type and named elements. -/
structure AnnotationTree (Leaf Text : Type) where
  type : Text
  elements : List (Text × ElementTree Leaf Text)

namespace ElementTree

variable {Leaf Text : Type} [DecidableEq Leaf] [DecidableEq Text]

mutual

def decEq : (v w : ElementTree Leaf Text) → Decidable (v = w)
  | .leaf x, .leaf y => if h : x = y then isTrue (by rw [h]) else isFalse (by simp [h])
  | .nested s es, .nested t fs =>
    if h : s = t then
      match decEqElements es fs with
      | isTrue h' => isTrue (by rw [h, h'])
      | isFalse h' => isFalse (by simp [h'])
    else
      isFalse (by simp [h])
  | .array vs, .array ws =>
    match decEqValues vs ws with
    | isTrue h => isTrue (by rw [h])
    | isFalse h => isFalse (by simp [h])
  | .leaf _, .nested .. | .leaf _, .array _ | .nested .., .leaf _
  | .nested .., .array _ | .array _, .leaf _ | .array _, .nested .. => isFalse nofun

def decEqValues : (vs ws : List (ElementTree Leaf Text)) → Decidable (vs = ws)
  | [], [] => isTrue rfl
  | v :: vs, w :: ws =>
    match decEq v w, decEqValues vs ws with
    | isTrue h, isTrue h' => isTrue (by rw [h, h'])
    | isFalse h, _ => isFalse (by simp [h])
    | _, isFalse h => isFalse (by simp [h])
  | [], _ :: _ | _ :: _, [] => isFalse nofun

def decEqElements : (es fs : List (Text × ElementTree Leaf Text)) → Decidable (es = fs)
  | [], [] => isTrue rfl
  | (m, v) :: es, (n, w) :: fs =>
    if h : m = n then
      match decEq v w, decEqElements es fs with
      | isTrue h', isTrue h'' => isTrue (by rw [h, h', h''])
      | isFalse h', _ => isFalse (by simp [h'])
      | _, isFalse h' => isFalse (by simp [h'])
    else
      isFalse (by simp [h])
  | [], _ :: _ | _ :: _, [] => isFalse nofun

end

instance : DecidableEq (ElementTree Leaf Text) := decEq

end ElementTree

instance {Leaf Text : Type} [DecidableEq Leaf] [DecidableEq Text] :
    DecidableEq (AnnotationTree Leaf Text) := fun a b =>
  if h : a.type = b.type ∧ a.elements = b.elements then
    isTrue (by cases a; cases b; simp_all)
  else
    isFalse (by rintro rfl; simp at h)

/-- Types of the constants that are values of elements. -/
inductive ElementTag where
  | byte | char | double | float | int | long | short | boolean | string
  deriving DecidableEq, Repr

namespace ElementTag

def letter : ElementTag → Char
  | .byte => 'B'
  | .char => 'C'
  | .double => 'D'
  | .float => 'F'
  | .int => 'I'
  | .long => 'J'
  | .short => 'S'
  | .boolean => 'Z'
  | .string => 's'

def ofLetter? (c : Char) : Option ElementTag :=
  [byte, char, double, float, int, long, short, boolean, string].find? (·.letter == c)

theorem ofLetter?_letter (t : ElementTag) : ofLetter? t.letter = some t := by
  cases t <;> rfl

end ElementTag

namespace Stored

/-- A value in a class file that is not made of others. -/
inductive LeafValue where
  | const (tag : ElementTag) (value : ConstantIndex)
  | enum (type name : ConstantIndex)
  | classInfo (descriptor : ConstantIndex)
  deriving DecidableEq, Repr

abbrev ElementValue := ElementTree LeafValue ConstantIndex
abbrev Annotation := AnnotationTree LeafValue ConstantIndex

end Stored

end ClassPatch
