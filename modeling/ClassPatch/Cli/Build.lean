import ClassPatch.Cli.Host
import ClassPatch.Cli.Options
import ClassPatch.Inject.ClassPath
import ClassPatch.Inject.Injector
import ClassPatch.Path

/-!
A build: each file below the input directory is transformed if it is a class, or copied, to the same
place below the output directory, and the class that transformed classes need is added.
-/

namespace ClassPatch

/--
Whether a file with the name holds a class. A name that starts with its only dot is no such name.
-/
def isClassFile (name : String) : Bool :=
  match name.toList.reverse.span (· ≠ '.') with
  | (suffix, _ :: stem) => suffix.reverse == "class".toList && !stem.isEmpty
  | (_, []) => false

/--
Name of the file at a path below the directory, which is the file itself if the path is empty.
-/
def fileName (directory : String) (path : List String) : String :=
  path.getLast?.getD (String.ofList ((directory.toList.splitOn '/').getLastD []))

/-- Text that the bytes are in UTF-8. -/
def textOfBytes? (bytes : Bytes) : Option String := String.fromUTF8? ⟨bytes.toArray⟩

namespace BuildCommand

variable {m : Type → Type} [Monad m] [MonadExceptOf BuildError m] [Host m]

/-- The content that a file has after the build. -/
def transformed (i : Injector) (name : String) (content : Bytes) : m Bytes := do
  if isClassFile name then
    let (result, diagnostics) := (i.transformBytes content).run []
    diagnostics.forM Host.report
    match result with
    | .ok bytes => return bytes.getD content
    | .error e => throw (.injection e)
  else
    return content

/-- Path below the output directory. -/
def destination (command : BuildCommand) (path : List String) : String :=
  if path.isEmpty then joinPath command.output "" else path.foldl joinPath command.output

/-- Build one file of the input. The directory that it goes to is made first. -/
def buildFile (command : BuildCommand) (i : Injector) (path : List String) : m Unit := do
  let destination := command.destination path
  Host.makeDirectories (Path.parent destination)
  let content ← Host.readFile (path.foldl joinPath command.input)
  let content ← transformed i (fileName command.input path) content
  Host.writeFile destination content

/-- Text of the properties file, if there is one. -/
def propertiesText (command : BuildCommand) : m (Option String) := do
  match command.options.propertiesFile with
  | none => return none
  | some path =>
    match textOfBytes? (← Host.readFile path) with
    | some text => return some text
    | none => throw .notText

/-- Run the build. -/
def run (command : BuildCommand) : m Unit := do
  let text ← command.propertiesText
  let injector := Injector.ofProperties (command.options.toProperties text)
  let paths ← Host.listFiles command.input
  paths.forM (command.buildFile injector)
  match injector.addedClass with
  | .ok none => return
  | .ok (some (name, bytes)) =>
    let destination := classPath command.output name
    Host.makeDirectories (Path.parent destination)
    Host.writeFile destination bytes
  | .error e => throw (.injection e)

end BuildCommand

end ClassPatch
