import ClassPatch.Class.Annotation
import ClassPatch.Lift.Resolver

/-!
Resolving annotations of a class file.
-/

namespace ClassPatch.Resolver

variable (r : Resolver)

/-- The value of a constant with its type. -/
def leafValue : Stored.LeafValue → Except ClassError LeafValue
  | .const .byte value => return .integer .byte (← r.constants.integer value)
  | .const .char value => return .integer .char (← r.constants.integer value)
  | .const .short value => return .integer .short (← r.constants.integer value)
  | .const .boolean value => return .integer .boolean (← r.constants.integer value)
  | .const .int value => return .integer .int (← r.constants.integer value)
  | .const .long value => return .long (← r.constants.long value)
  | .const .float value => return .float (← r.constants.float value)
  | .const .double value => return .double (← r.constants.double value)
  | .const .string value => return .string (← r.utf8 value)
  | .enum type name => return .enum (← r.utf8 type) (← r.utf8 name)
  | .classInfo descriptor => return .classInfo (← r.utf8 descriptor)

mutual

def elementValue : Stored.ElementValue → Except ClassError ElementValue
  | .leaf v => return .leaf (← r.leafValue v)
  | .nested type elements => do
    let elements ← namedElements elements
    return .nested (← r.utf8 type) elements
  | .array values => return .array (← elementValues values)

def elementValues : List Stored.ElementValue → Except ClassError (List ElementValue)
  | [] => return []
  | v :: vs => do
    let v ← elementValue v
    return v :: (← elementValues vs)

/-- Names and values, in turn. -/
def namedElements :
    List (ConstantIndex × Stored.ElementValue) → Except ClassError (List (String × ElementValue))
  | [] => return []
  | (name, v) :: elements => do
    let name ← r.utf8 name
    let v ← elementValue v
    return (name, v) :: (← namedElements elements)

end

/-- Annotations; the elements of each are resolved before its type. -/
def annotations (as : List Stored.Annotation) : Except ClassError (List Annotation) :=
  as.mapM fun a => do
    let elements ← r.namedElements a.elements
    return { type := ← r.utf8 a.type, elements }

end ClassPatch.Resolver
