import ClassPatch.Inject.Config

/-!
Arguments of the command line.
-/

namespace ClassPatch

/-- Options that take a value. -/
inductive ValueOption where
  /-- A file with properties. -/
  | properties
  /-- A property, which can be given often. -/
  | define
  | platform | platformPackage | uniqueIdentifier
  deriving DecidableEq, Repr

/-- What the arguments say so far. -/
structure Options where
  propertiesFile : Option String := none
  defines : List String := []
  platform : Option String := none
  platformPackage : Option String := none
  uniqueIdentifier : Option String := none
  noInject : Bool := false
  /-- Arguments that are not options: the input directory and the output directory. -/
  directories : List String := []
  deriving DecidableEq, Repr

/-- A complete command line: what to do, and with which directories. -/
structure BuildCommand where
  options : Options
  input : String
  output : String
  deriving DecidableEq, Repr

inductive Invocation where
  | build (command : BuildCommand)
  | help
  | version
  | badArguments
  deriving DecidableEq, Repr

/-- How an argument starts that is no option by itself. -/
inductive Argument where
  /-- An option with its value, which may be the next argument. -/
  | value (option : ValueOption) (attached : Option String)
  | noInject
  | help
  | version
  /-- Arguments after this one are not options. -/
  | endOfOptions
  | directory (path : String)
  | unknown
  deriving DecidableEq, Repr

namespace Argument

/-- An option by its long name. -/
def ofLongName (name : String) (attached : Option String) : Argument :=
  match name, attached with
  | "properties", _ => .value .properties attached
  | "platform", _ => .value .platform attached
  | "platform-package", _ => .value .platformPackage attached
  | "unique-id", _ => .value .uniqueIdentifier attached
  | "no-inject", none => .noInject
  | "help", none => .help
  | "version", none => .version
  | _, _ => .unknown

/-- The value right behind a short option, where `=` can stand between. -/
def attachedToShort : List Char → Option String
  | [] => none
  | '=' :: rest => some (String.ofList rest)
  | rest => some (String.ofList rest)

def ofChars : List Char → Argument
  | ['-', '-'] => .endOfOptions
  | '-' :: '-' :: rest =>
    match Text.splitFirst (· == '=') rest with
    | some (name, attached) => ofLongName (String.ofList name) (some (String.ofList attached))
    | none => ofLongName (String.ofList rest) none
  | '-' :: 'D' :: rest => .value .define (attachedToShort rest)
  | '-' :: 'h' :: _ => .help
  | '-' :: 'V' :: _ => .version
  | '-' :: _ :: _ => .unknown
  | text => .directory (String.ofList text)

def ofString (text : String) : Argument := ofChars text.toList

end Argument

namespace Options

/-- Add the value of an option. Paths are not empty, and only properties are set more than once. -/
def addValue (o : Options) (option : ValueOption) (value : String) : Option Options :=
  match option with
  | .properties =>
    if o.propertiesFile.isSome || value.isEmpty then none
    else some { o with propertiesFile := some value }
  | .define => some { o with defines := o.defines ++ [value] }
  | .platform => if o.platform.isSome then none else some { o with platform := some value }
  | .platformPackage =>
    if o.platformPackage.isSome then none else some { o with platformPackage := some value }
  | .uniqueIdentifier =>
    if o.uniqueIdentifier.isSome then none else some { o with uniqueIdentifier := some value }

/-- Add a directory; there are two. -/
def addDirectory (o : Options) (path : String) : Option Options :=
  if path.isEmpty || 2 ≤ o.directories.length then none
  else some { o with directories := o.directories ++ [path] }

/-- The command, once all arguments are read. -/
def complete (o : Options) : Invocation :=
  match o.directories with
  | [input, output] => .build ⟨o, input, output⟩
  | _ => .badArguments

/-- Read arguments that are not options. -/
def readDirectories (o : Options) : List String → Invocation
  | [] => o.complete
  | path :: arguments =>
    match o.addDirectory path with
    | some o => readDirectories o arguments
    | none => .badArguments

/-- Read arguments. The first that asks for help or is wrong decides. -/
def read (o : Options) : List String → Invocation
  | [] => o.complete
  | argument :: arguments =>
    match Argument.ofString argument with
    | .value option (some value) =>
      match o.addValue option value with
      | some o => read o arguments
      | none => .badArguments
    | .value option none =>
      match arguments with
      | [] => .badArguments
      | value :: arguments =>
        match Argument.ofString value with
        | .directory _ =>
          match o.addValue option value with
          | some o => read o arguments
          | none => .badArguments
        | _ => .badArguments
    | .noInject => if o.noInject then .badArguments else read { o with noInject := true } arguments
    | .help => .help
    | .version => .version
    | .endOfOptions => o.readDirectories arguments
    | .directory path =>
      match o.addDirectory path with
      | some o => read o arguments
      | none => .badArguments
    | .unknown => .badArguments

/--
The properties of a build, where later sources win: the text of the properties file, properties
given one by one, and the options for single settings.
-/
def toProperties (o : Options) (text : Option String) : Properties :=
  let p := text.elim ∅ Properties.parse
  let p := o.defines.foldl
    (fun p pair =>
      let (key, value) := Properties.parsePair pair
      p.set key value)
    p
  let p := setting p .platformName o.platform
  let p := setting p .platformPackage o.platformPackage
  let p := setting p .uniqueIdentifier o.uniqueIdentifier
  if o.noInject then p.set (Setting.key .injectInjectables) "false" else p
where
  setting (p : Properties) (s : Setting) : Option String → Properties
    | some value => p.set s.key value
    | none => p

end Options

/-- What the arguments ask for. -/
def Invocation.ofArguments (arguments : List String) : Invocation := Options.read {} arguments

end ClassPatch
