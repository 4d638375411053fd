import ClassPatch.Descriptor.Parser

/-!
Renamings of classes, and the positions that hold nothing but types. For each position there are two
functions: `rename` gives it with the new names, and `names` lists the names that are looked up for
it.
-/

namespace ClassPatch

/-- The new names of classes. A class without new name keeps its name. -/
abbrev Renaming := String → Option BinaryName

namespace Renaming

/-- The renaming that keeps all names. -/
def identity : Renaming := fun _ => none

/-- The renaming of a table, where later entries win. -/
def ofTable (table : List (String × BinaryName)) : Renaming :=
  fun name => table.reverse.lookup name

/-- The renaming of one class. -/
def single (source : String) (target : BinaryName) : Renaming :=
  fun name => if name = source then some target else none

/-- The name of a class after renaming. -/
def apply (r : Renaming) (name : BinaryName) : BinaryName := (r name.text).getD name

/-- The name of a class after renaming, as text. -/
def applyText (r : Renaming) (name : String) : String := ((r name).map BinaryName.text).getD name

theorem text_apply (r : Renaming) (name : BinaryName) :
    (r.apply name).text = r.applyText name.text := by
  unfold apply applyText
  cases r name.text <;> rfl

end Renaming

namespace RefType

def rename (r : Renaming) (t : RefType) : RefType := t.map r.apply

def names (t : RefType) : List String := (t.className?.map BinaryName.text).toList

end RefType

namespace FieldType

def rename (r : Renaming) (t : FieldType) : FieldType := t.map r.apply

def names (t : FieldType) : List String := (t.className?.map BinaryName.text).toList

end FieldType

namespace MethodDescriptor

def rename (r : Renaming) (d : MethodDescriptor) : MethodDescriptor := d.map r.apply

def names (d : MethodDescriptor) : List String := d.classNames.map BinaryName.text

end MethodDescriptor

/-- A descriptor of a type, or `V`, that is kept as text and may be malformed. -/
abbrev DescriptorText := String

namespace DescriptorText

/-- The type, unless the text is `V` or malformed. -/
def type? (text : DescriptorText) : Option FieldType :=
  match FieldType.parse text with
  | .ok t => some t
  | .error _ => none

/-- A malformed descriptor stays as it is. -/
def rename (r : Renaming) (text : DescriptorText) : DescriptorText :=
  match type? text with
  | some t => (t.rename r).render
  | none => text

/-- A malformed descriptor names nothing. -/
def names (text : DescriptorText) : List String :=
  match type? text with
  | some t => t.names
  | none => []

end DescriptorText

end ClassPatch
