/-!
Paths as the segments between their slashes. A path is made from another one by going on with a
further path, or by changing the extension of the file that it leads to.
-/

namespace ClassPatch

namespace Path

def isAbsolute (path : String) : Bool := path.toList.head? == some '/'

def endsInSlash (path : String) : Bool := path.toList.getLast? == some '/'

/-- The segments that are not empty. -/
def segments (path : String) : List String :=
  ((path.toList.splitOn '/').map String.ofList).filter (!·.isEmpty)

/-- The path without its last segment. A segment `.` stays where it is and does not count. -/
def parent (path : String) : String :=
  let parent := "/".intercalate ((segments path).filter (· ≠ ".")).dropLast
  if isAbsolute path then "/" ++ parent else parent

/-- The part of a file name before its last dot, which is all of it if nothing stands there. -/
def stem (name : List Char) : List Char :=
  match name.reverse.span (· ≠ '.') with
  | (_, _ :: c :: stem) => (c :: stem).reverse
  | _ => name

/--
The path with an extension in the place of that of its file name. What follows the file name is
dropped. A path whose last segment leads outwards has no file name, and neither has the root.
-/
def withExtension (path extension : String) : String :=
  match (path.toList.splitOn '/').reverse.dropWhile fun s => s == [] || s == ['.'] with
  | [] => path
  | name :: before =>
    if name == ['.', '.'] then path
    else
      let stem := String.ofList (['/'].intercalate (stem name :: before).reverse)
      if extension.isEmpty then stem else stem ++ "." ++ extension

/-- The path with a slash at its end. An empty path is where the program runs. -/
def asDirectory (path : String) : String :=
  if path.isEmpty || endsInSlash path then path else path ++ "/"

end Path

/-- A path that goes on with another one, which starts over if it is absolute. -/
def joinPath (path next : String) : String :=
  if Path.isAbsolute next then next else Path.asDirectory path ++ next

end ClassPatch
