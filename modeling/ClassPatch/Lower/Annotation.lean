import ClassPatch.Class.Annotation
import ClassPatch.Lower.Constant

/-!
Adding the constants of annotations to a pool.
-/

namespace ClassPatch.PoolM

def leafValue : LeafValue → PoolM Stored.LeafValue
  | .integer type value => return .const type.tag (← constant (.integer value))
  | .long value => return .const .long (← constant (.long value))
  | .float value => return .const .float (← constant (.float value))
  | .double value => return .const .double (← constant (.double value))
  | .string text => return .const .string (← utf8 text)
  | .enum type name => return .enum (← utf8 type) (← utf8 name)
  | .classInfo descriptor => return .classInfo (← utf8 descriptor)

mutual

def elementValue : ElementValue → PoolM Stored.ElementValue
  | .leaf v => return .leaf (← leafValue v)
  | .nested type elements => do
    let type ← utf8 type
    return .nested type (← namedElements elements)
  | .array values => return .array (← elementValues values)

def elementValues : List ElementValue → PoolM (List Stored.ElementValue)
  | [] => return []
  | v :: vs => do
    let v ← elementValue v
    return v :: (← elementValues vs)

/-- Names and values, in turn. -/
def namedElements :
    List (String × ElementValue) → PoolM (List (ConstantIndex × Stored.ElementValue))
  | [] => return []
  | (name, v) :: elements => do
    let name ← utf8 name
    let v ← elementValue v
    return (name, v) :: (← namedElements elements)

end

/-- Annotations; the type of each is added before its elements. -/
def annotations (as : List Annotation) : PoolM (List Stored.Annotation) :=
  as.mapM fun a => do
    let type ← utf8 a.type
    return { type, elements := ← namedElements a.elements }

end ClassPatch.PoolM
