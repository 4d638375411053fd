import ClassPatch.Name
import ClassPatch.Path
import Std.Data.TreeMap

/-!
Where classes are put: below a directory, or in memory.
-/

namespace ClassPatch

/-- Path of the class file of a class below a directory. -/
def classPath (root : String) (name : BinaryName) : String :=
  Path.withExtension ((name.segments.map String.ofList).foldl joinPath root) "class"

/-- Class files by the name of their class. -/
abbrev ClassStore (Content : Type) := Std.TreeMap String Content

/-- Put a class file, which replaces an earlier one. -/
def ClassStore.put {Content : Type} (store : ClassStore Content) (name : BinaryName)
    (content : Content) : ClassStore Content :=
  store.insert name.text content

end ClassPatch
