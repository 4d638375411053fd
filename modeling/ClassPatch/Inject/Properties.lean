import ClassPatch.Text.Trim
import Std.Data.TreeMap

/-!
Properties: values under keys, sorted by key.
-/

namespace ClassPatch

abbrev Properties := Std.TreeMap String String

namespace Properties

/-- Set a property, which replaces an earlier value. -/
def set (p : Properties) (key value : String) : Properties := p.insert key value

/-- Properties where those of `other` replace those of `p`. -/
def extend (p other : Properties) : Properties :=
  other.toList.foldl (fun p (key, value) => p.set key value) p

/-- Key and value of a text `key=value`. Without `=`, the value is empty. -/
def parsePair (text : String) : String × String :=
  match Text.splitFirst (· == '=') text.toList with
  | some (key, value) => (String.ofList (Text.trim key), String.ofList value)
  | none => (String.ofList (Text.trim text.toList), "")

/-- Whether a line without white space around it holds no property. -/
def isBlankLine (line : List Char) : Bool :=
  match line with
  | [] => true
  | c :: _ => c == '#' || c == '!'

/--
Key and value of a line: separated by the first `=` or `:`, and without white space around them.
Without separator, the value is empty. Comments and empty lines hold none.
-/
def parseLine (line : List Char) : Option (String × String) :=
  let line := Text.trim line
  if isBlankLine line then
    none
  else
    match Text.splitFirst (fun c => c == '=' || c == ':') line with
    | some (key, value) =>
      some (String.ofList (Text.trimEnd key), String.ofList (Text.trimStart value))
    | none => some (String.ofList line, "")

/-- The properties that a text holds, a line for each. -/
def parse (text : String) : Properties :=
  ((text.toList.splitOn '\n').filterMap parseLine).foldl
    (fun p (key, value) => p.set key value) ∅

end Properties

end ClassPatch
