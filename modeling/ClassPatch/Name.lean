/-!
Names in class files: unqualified names of members, and binary names of classes, whose segments are
separated by slashes. Both types hold only valid names.
-/

namespace ClassPatch

/-- Why a text is not a name. -/
inductive NameError where
  | illegalCharacter (segment : String)
  | emptySegment
  | emptyName
  deriving DecidableEq, Repr

def NameError.message : NameError → String
  | .illegalCharacter segment => s!"Unqualified name '{segment}' contains an illegal character"
  | .emptySegment => "Unqualified name '' is empty"
  | .emptyName => "Binary name '' is empty"

/-- Characters that no segment of a name contains. -/
def isNameSeparator (c : Char) : Bool :=
  c == '.' || c == ';' || c == '[' || c == '/'

/-- What keeps a text from being an unqualified name. -/
def UnqualifiedName.fault? (text : String) : Option NameError :=
  if text.toList.any isNameSeparator then some (.illegalCharacter text)
  else if text.toList.isEmpty then some .emptySegment
  else none

/-- Name of a field, a method, or a segment of a binary name. -/
structure UnqualifiedName where
  text : String
  valid : UnqualifiedName.fault? text = none
  deriving DecidableEq

namespace UnqualifiedName

def ofString (text : String) : Except NameError UnqualifiedName :=
  match h : fault? text with
  | some fault => .error fault
  | none => .ok ⟨text, h⟩

/-- Name of every constructor. -/
def constructor : UnqualifiedName := ⟨"<init>", by decide +kernel⟩

end UnqualifiedName

/-- What keeps a text from being a binary name: the fault of its first bad segment. -/
def BinaryName.fault? (text : String) : Option NameError :=
  if text.toList.isEmpty then some .emptyName
  else (text.toList.splitOn '/').findSome? fun segment =>
    UnqualifiedName.fault? (String.ofList segment)

/-- Name of a class or interface. -/
structure BinaryName where
  text : String
  valid : BinaryName.fault? text = none
  deriving DecidableEq

namespace BinaryName

def ofString (text : String) : Except NameError BinaryName :=
  match h : fault? text with
  | some fault => .error fault
  | none => .ok ⟨text, h⟩

/-- The parts between the slashes. -/
def segments (name : BinaryName) : List (List Char) :=
  name.text.toList.splitOn '/'

/-- Everything before the last slash, if there is one. -/
def package? (name : BinaryName) : Option String :=
  match name.segments.dropLast with
  | [] => none
  | segments => some (String.ofList (['/'].intercalate segments))

/-- Everything after the last slash. The name of a nested class keeps its `$` here. -/
def simpleName (name : BinaryName) : String :=
  String.ofList (name.segments.getLastD [])

/-- The class at the root of all classes. -/
def object : BinaryName := ⟨"java/lang/Object", by decide +kernel⟩

/-- The class of string constants. -/
def string : BinaryName := ⟨"java/lang/String", by decide +kernel⟩

end BinaryName

end ClassPatch
