import ClassPatch.Pool.Format

/-!
Looking up constants by index and by the shape that they should have.
-/

namespace ClassPatch.ConstantTable

/-- The constant at an index. -/
def constant (table : ConstantTable) (index : ConstantIndex) : Except ClassError Constant :=
  match table.get? index.toNat with
  | some c => .ok c
  | none => .error (.missingConstant index)

def utf8 (table : ConstantTable) (index : ConstantIndex) : Except ClassError String := do
  match ← table.constant index with
  | .utf8 text => return text
  | _ => throw (.unexpectedConstant index .utf8)

/-- The name that a class constant refers to. For an array it is a descriptor. -/
def className (table : ConstantTable) (index : ConstantIndex) : Except ClassError String := do
  match ← table.constant index with
  | .classRef name => table.utf8 name
  | _ => throw (.unexpectedConstant index .classRef)

def nameAndType (table : ConstantTable) (index : ConstantIndex) :
    Except ClassError (String × String) := do
  match ← table.constant index with
  | .nameAndType name descriptor => return (← table.utf8 name, ← table.utf8 descriptor)
  | _ => throw (.unexpectedConstant index .nameAndType)

def integer (table : ConstantTable) (index : ConstantIndex) : Except ClassError Int32 := do
  match ← table.constant index with
  | .integer value => return value
  | _ => throw (.unexpectedConstant index .integer)

def float (table : ConstantTable) (index : ConstantIndex) : Except ClassError Float32Bits := do
  match ← table.constant index with
  | .float value => return value
  | _ => throw (.unexpectedConstant index .float)

def long (table : ConstantTable) (index : ConstantIndex) : Except ClassError Int64 := do
  match ← table.constant index with
  | .long value => return value
  | _ => throw (.unexpectedConstant index .long)

def double (table : ConstantTable) (index : ConstantIndex) : Except ClassError Float64Bits := do
  match ← table.constant index with
  | .double value => return value
  | _ => throw (.unexpectedConstant index .double)

end ClassPatch.ConstantTable
