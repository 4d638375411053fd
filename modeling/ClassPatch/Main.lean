import ClassPatch.Cli.Build

/-!
The command line.
-/

namespace ClassPatch

def helpText : String := "Rewrite compiled classes so @ExpectPlatform methods call platform implementations

Usage: classpatch [OPTIONS] <INPUT> <OUTPUT>

Arguments:
  <INPUT>   Directory of compiled classes
  <OUTPUT>  Directory to write the transformed classes into

Options:
      --properties <FILE>           Read properties from a properties file
  -D <KEY=VALUE>                    Set a property (overrides the properties file)
      --platform <NAME>             Platform being built (eg. fabric, forge)
      --platform-package <PACKAGE>  Package segment of platform implementations, if not the platform name
      --unique-id <NAMESPACE>       Namespace of injected classes (eg. gen/mymod)
      --no-inject                   Copy classes without transforming them
  -h, --help                        Print help
  -V, --version                     Print version"

def versionText : String := "Platform injector 0.1.0"

/-- Builds on the files of the system. -/
abbrev SystemM := ExceptT BuildError IO

namespace SystemM

def faultOf : IO.Error → FileFault
  | .noFileOrDirectory .. | .noSuchThing .. => .notFound
  | .alreadyExists .. => .alreadyExists
  | .inappropriateType _ code _ => if code = 21 then .isDirectory else .notDirectory
  | .invalidArgument _ code _ => if code = 36 then .nameTooLong else .zeroInPath
  | e => .other (toString e)

/-- Do something with files, where a fault stops the build. -/
def orStop {α : Type} (e : FileFault → BuildError) (action : IO α) : SystemM α := do
  match ← action.toBaseIO with
  | .ok a => return a
  | .error fault => throw (e (faultOf fault))

/-- Files below a directory. -/
partial def filesBelow (directory : String) : IO (List (List String)) := do
  let entries ← (System.mkFilePath [directory]).readDir
  let names := entries.toList.map (·.fileName) |>.mergeSort
  let parts ← names.mapM fun name => do
    let path := joinPath directory name
    if ← (System.mkFilePath [path]).isDir then
      return (← filesBelow path).map (name :: ·)
    else
      return [[name]]
  return parts.flatten

def listFiles (path : String) : IO (List (List String)) := do
  let root := System.mkFilePath [path]
  if (← root.pathExists) && !(← root.isDir) then
    return [[]]
  else
    filesBelow path

/-- Make a directory, which may be there already. -/
def makeDirectory (path : String) : IO Unit := do
  try
    IO.FS.createDir path
  catch e =>
    unless ← (System.mkFilePath [path]).isDir do
      throw e

/-- Make a directory and those that it is below. -/
partial def makeDirectories (path : String) : IO Unit := do
  unless path.isEmpty do
    try
      makeDirectory path
    catch
      | .noFileOrDirectory .. =>
        makeDirectories (Path.parent path)
        makeDirectory path
      | e => throw e

instance : Host SystemM where
  readFile path := orStop .file do return (← IO.FS.readBinFile path).toList
  listFiles path := orStop (.listing path) (listFiles path)
  makeDirectories path := orStop .file (makeDirectories path)
  writeFile path content := orStop .file (IO.FS.writeBinFile path ⟨content.toArray⟩)
  report d := IO.eprintln d.message

end SystemM

def runCommand (arguments : List String) : IO UInt32 := do
  match Invocation.ofArguments arguments with
  | .help =>
    IO.println helpText
    return 0
  | .version =>
    IO.println versionText
    return 0
  | .badArguments =>
    IO.eprintln "error: bad arguments

For more information, try '--help'."
    return 2
  | .build command =>
    match ← (command.run : SystemM Unit).run with
    | .ok () => return 0
    | .error e =>
      IO.eprintln e.line
      return 1

end ClassPatch

def main (arguments : List String) : IO UInt32 := ClassPatch.runCommand arguments
