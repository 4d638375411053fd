import ClassPatch.Cli.Build

/-!
Builds on files in memory.
-/

namespace ClassPatch

/--
Where a file or a directory is: the segments that lead there from the directory that a build runs
in. An empty segment at the start leads to the root, and segments `..` at the start lead outwards.
-/
abbrev Place := List String

namespace Place

/-- The root, the directory that a build runs in, and those that it is below. -/
def isBase (place : Place) : Bool := place == [""] || place.all (· == "..")

def above (place : Place) : Place :=
  if place == [""] then place
  else if place.isBase then place ++ [".."]
  else place.dropLast

/-- Where a segment leads from a directory. -/
def next (here : Place) (segment : String) : Place :=
  if segment = "." then here
  else if segment = ".." then here.above
  else here ++ [segment]

/-- Where a path starts. -/
def start (path : String) : Place := if Path.isAbsolute path then [""] else []

def text (place : Place) : String := "/".intercalate place

end Place

/-- Files and directories by the texts of their places. -/
structure FileTree where
  files : Std.TreeMap String Bytes
  /-- Directories that may be empty. -/
  directories : List String := []

namespace FileTree

/-- The longest segment of a path, in bytes. -/
def maxSegment : Nat := 255

/-- The longest path, in bytes. -/
def maxPath : Nat := 4095

def isFile (t : FileTree) (place : Place) : Bool := t.files.contains place.text

/-- Paths of the files below a directory, as segments from there. -/
def below (t : FileTree) (place : Place) : List (List String) :=
  t.files.keys.filterMap fun path =>
    place.isPrefixOf? ((path.toList.splitOn '/').map String.ofList)

def isDirectory (t : FileTree) (place : Place) : Bool :=
  place.isBase || t.directories.contains place.text
    || !t.isFile place && !(t.below place).isEmpty

/-- Follow the segments from the place `here`, where each step starts at a directory. -/
def resolve (t : FileTree) (here : Place) : List String → Except FileFault Place
  | [] => .ok here
  | segment :: segments =>
    if t.isFile here then .error .notDirectory
    else if !t.isDirectory here then .error .notFound
    else if segment.utf8ByteSize > maxSegment then .error .nameTooLong
    else t.resolve (here.next segment) segments

def addDirectory (t : FileTree) (place : Place) : FileTree :=
  if t.isDirectory place then t else { t with directories := place.text :: t.directories }

/-- Follow the segments from the place `here`, where the directories that are missing are made. -/
def extend (t : FileTree) (here : Place) : List String → Except FileFault FileTree
  | [] => if t.isFile here then .error .alreadyExists else .ok (t.addDirectory here)
  | segment :: segments =>
    if t.isFile here then .error .notDirectory
    else if segment.utf8ByteSize > maxSegment then .error .nameTooLong
    else (t.addDirectory here).extend (here.next segment) segments

/-- Whether a path may be used at all. -/
def check (path : String) : Except FileFault Unit :=
  if path.toList.contains '\x00' then .error .zeroInPath
  else if path.utf8ByteSize > maxPath then .error .nameTooLong
  else .ok ()

/-- The place that a path leads to. A slash at its end asks for a directory. -/
def locate (t : FileTree) (path : String) : Except FileFault Place := do
  check path
  let segments := Path.segments path
  t.resolve (.start path) (if Path.endsInSlash path then segments ++ ["."] else segments)

def read (t : FileTree) (path : String) : Except FileFault Bytes := do
  let place ← t.locate path
  match t.files.get? place.text with
  | some content => return content
  | none => throw (if t.isDirectory place then .isDirectory else .notFound)

def list (t : FileTree) (path : String) : Except FileFault (List (List String)) := do
  let place ← t.locate path
  if t.isFile place then return [[]]
  else if t.isDirectory place then return t.below place
  else throw .notFound

/-- Make a directory and those that it is below, if they are missing. -/
def makeDirectories (t : FileTree) (path : String) : Except FileFault FileTree := do
  check path
  t.extend (.start path) (Path.segments path)

/-- Write a file in a directory that there is. A slash at the end of the path leads to that one. -/
def write (t : FileTree) (path : String) (content : Bytes) : Except FileFault FileTree := do
  check path
  let segments := Path.segments path
  let place ← t.resolve (.start path)
    (if Path.endsInSlash path then segments.dropLast ++ ["."] else segments)
  if t.isDirectory place then throw .isDirectory
  else return { t with files := t.files.insert place.text content }

/-- Put a class file where its class belongs. -/
def addClass (t : FileTree) (name : BinaryName) (content : Bytes) : Except FileFault FileTree := do
  let path := classPath "" name
  (← t.makeDirectories (Path.parent path)).write path content

end FileTree

/-- Builds on files in memory. Problems are not reported. -/
abbrev FileTreeM := StateT FileTree (Except BuildError)

namespace FileTreeM

/-- A result of the tree, where a fault stops the build. -/
def orStop {α : Type} (e : FileFault → BuildError) : Except FileFault α → FileTreeM α
  | .ok a => return a
  | .error fault => throw (e fault)

instance : Host FileTreeM where
  readFile path := do orStop .file ((← get).read path)
  listFiles path := do orStop (.listing path) ((← get).list path)
  makeDirectories path := do set (← orStop .file ((← get).makeDirectories path))
  writeFile path content := do set (← orStop .file ((← get).write path content))
  report _ := return

end FileTreeM

/--
How an invocation ends: its exit status, the error that it reports, and the files that are left.
-/
structure Outcome where
  status : Nat
  error : Option BuildError := none
  tree : FileTree

/-- Carry out an invocation on files in memory. -/
def Invocation.outcome (tree : FileTree) : Invocation → Outcome
  | .help | .version => { status := 0, tree }
  | .badArguments => { status := 2, tree }
  | .build command =>
    match (command.run : FileTreeM Unit).run tree with
    | .ok (_, tree) => { status := 0, tree }
    | .error e => { status := 1, error := some e, tree }

end ClassPatch
