import ClassPatch.Error.Description
import ClassPatch.Inject.ExpectPlatform
import ClassPatch.Binary.Reader

/-!
What a build needs from the system that it runs on: reading, listing and writing files.
-/

namespace ClassPatch

/-- Why the system refuses a file. -/
inductive FileFault where
  | notFound | isDirectory | notDirectory | alreadyExists | nameTooLong
  /-- The path has a character of code zero. -/
  | zeroInPath
  | other (message : String)
  deriving DecidableEq, Repr

namespace FileFault

/-- Number, kind and text of a fault that the system numbers. -/
def number? : FileFault → Option (Nat × String × String)
  | .notFound => some (2, "NotFound", "No such file or directory")
  | .isDirectory => some (21, "IsADirectory", "Is a directory")
  | .notDirectory => some (20, "NotADirectory", "Not a directory")
  | .alreadyExists => some (17, "AlreadyExists", "File exists")
  | .nameTooLong => some (36, "InvalidFilename", "File name too long")
  | .zeroInPath | .other _ => none

def kind (f : FileFault) : String :=
  match f.number? with
  | some (_, kind, _) => kind
  | none => if f = .zeroInPath then "InvalidInput" else "Other"

open Description in
def describe (f : FileFault) : String :=
  match f with
  | .other message => record "Custom" [("kind", f.kind), ("error", Quoted.string message)]
  | .zeroInPath =>
    record "Error"
      [("kind", f.kind),
        ("message", Quoted.string "file name contained an unexpected NUL byte")]
  | _ =>
    match f.number? with
    | some (code, kind, message) =>
      record "Os"
        [("code", toString code), ("kind", kind), ("message", Quoted.string message)]
    | none => f.kind

end FileFault

/-- Why a build stops. -/
inductive BuildError where
  | injection (error : InjectionError)
  | file (fault : FileFault)
  /-- The input directory cannot be listed. -/
  | listing (path : String) (fault : FileFault)
  /-- The properties are not text. -/
  | notText
  deriving DecidableEq, Repr

open Description in
def BuildError.describe : BuildError → String
  | .injection e => e.describe
  | .file fault => tuple "Io" [fault.describe]
  | .listing path fault =>
    let path := tuple "Some" [Quoted.string path]
    let inner := record "Io" [("path", path), ("err", fault.describe)]
    let error := record "Error" [("depth", "0"), ("inner", inner)]
    tuple "Io" [record "Custom" [("kind", fault.kind), ("error", error)]]
  | .notText =>
    tuple "Io"
      [record "Error"
        [("kind", "InvalidData"),
          ("message", Quoted.string "stream did not contain valid UTF-8")]]

/-- The line that reports why a build stops. -/
def BuildError.line (e : BuildError) : String := "Error: " ++ e.describe

/-- A system that a build runs on. -/
class Host (m : Type → Type) where
  readFile : String → m Bytes
  /-- The files below a directory, in order, as the segments of their paths from there. -/
  listFiles : String → m (List (List String))
  /-- Make a directory and those that it is below, if they are missing. -/
  makeDirectories : String → m Unit
  writeFile : String → Bytes → m Unit
  report : Diagnostic → m Unit

end ClassPatch
