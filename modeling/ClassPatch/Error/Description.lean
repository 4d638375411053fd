import ClassPatch.Inject.Config

/-!
Errors as the program reports them when it stops.
-/

namespace ClassPatch

namespace Description

/-- A value that holds others, by position. -/
def tuple (name : String) (values : List String) : String :=
  name ++ "(" ++ ", ".intercalate values ++ ")"

/-- A value that holds others, by name. -/
def record (name : String) (fields : List (String × String)) : String :=
  name ++ " \x7b " ++ ", ".intercalate (fields.map fun (field, value) => field ++ ": " ++ value)
    ++ " \x7d"

def index (i : ConstantIndex) : String := tuple "ConstantIndex" [toString i]

/-- An index of a constant of the shape. -/
def indexOf (shape : String) (i : ConstantIndex) : String :=
  tuple (shape ++ "ConstantIndex") [index i]

def utf8Index (i : ConstantIndex) : String := indexOf "Utf8" i

def memberIndex (i : ConstantIndex) : String := indexOf "NameAndType" i

def constant : Constant → String
  | .utf8 text => tuple "Utf8" [Quoted.string text]
  | .integer value => tuple "Integer" [toString value]
  | .float value => tuple "Float" [toString value.bits]
  | .long value => tuple "Long" [toString value]
  | .double value => tuple "Double" [toString value.bits]
  | .classRef name => tuple "Class" [utf8Index name]
  | .string text => tuple "String" [utf8Index text]
  | .fieldRef owner member => tuple "FieldRef" [indexOf "Class" owner, memberIndex member]
  | .methodRef owner member isInterface =>
    record "MethodRef"
      [("class", indexOf "Class" owner), ("name_and_type", memberIndex member),
        ("is_interface", toString isInterface)]
  | .nameAndType name descriptor =>
    record "NameAndType" [("name", utf8Index name), ("descriptor", utf8Index descriptor)]
  | .methodHandle kind member =>
    record "MethodHandle" [("handle_kind", kind.name), ("member", index member)]
  | .methodType descriptor => record "MethodType" [("descriptor", utf8Index descriptor)]
  | .dynamic bootstrap member =>
    record "Dynamic"
      [("bootstrap_method", toString bootstrap), ("descriptor", memberIndex member)]
  | .invokeDynamic bootstrap member =>
    record "InvokeDynamic"
      [("bootstrap_method", toString bootstrap), ("method_descriptor", memberIndex member)]
  | .moduleRef name => tuple "Module" [utf8Index name]
  | .packageRef name => tuple "Package" [utf8Index name]

def offset (n : Nat) : String := tuple "Offset" [toString n]

end Description

/-- What is wrong with a frame that drops too few or too many locals. -/
def chopCountMessage : String := "ChopLocalsNoStack chops 1-3 locals"

/-- What is wrong with a frame that adds too few or too many locals. -/
def appendCountMessage : String := "AppendLocalsNoStack adds 1-3 locals"

/-- Name of the kind of an error. -/
def ClassError.kind : ClassError → String
  | .endOfInput | .chopCount | .appendCount => "IoError"
  | .poolOverflow .. => "ConstantPoolOverflow"
  | .badMagic _ => "BadMagic"
  | .unknownConstantTag _ => "UnknownConstantTag"
  | .missingConstant _ => "MissingConstant"
  | .unexpectedConstant .. => "UnexpectedConstant"
  | .badDescriptor _ => "BadDescriptor"
  | .badName _ => "BadName"
  | .malformedAttribute .. => "MalformedAttribute"
  | .unknownOpcode .. => "UnknownOpcode"
  | .invalidCodeOffset .. => "InvalidCodeOffset"
  | .truncatedInstruction _ => "TruncatedInstruction"
  | .undefinedLabel _ => "UndefinedLabel"
  | .codeOverflow _ => "MethodCodeOverflow"
  | .branchOverflow .. => "BranchOffsetOverflow"
  | .conflictingFrames _ => "ConflictingFrames"

/-- What the error is about, without its kind. -/
def ClassError.detail : ClassError → String
  | .endOfInput => endOfInputMessage
  | .chopCount => chopCountMessage
  | .appendCount => appendCountMessage
  | .poolOverflow _ offset => toString offset
  | .badMagic magic => toString magic
  | .unknownConstantTag tag => toString tag
  | .missingConstant i => toString i
  | .unexpectedConstant i expected => s!"{i} {expected.description}"
  | .badDescriptor text => text
  | .badName fault => fault.message
  | .malformedAttribute name fault => s!"{name}: {fault.message}"
  | .unknownOpcode opcode offset => s!"{opcode} {offset}"
  | .invalidCodeOffset source target => s!"{source} {target}"
  | .truncatedInstruction offset => toString offset
  | .undefinedLabel label => toString label
  | .codeOverflow length => toString length
  | .branchOverflow source distance => s!"{source} {distance}"
  | .conflictingFrames offset => toString offset

open Description in
/-- The error with the names of its parts. -/
def ClassError.describe (e : ClassError) : String :=
  match e with
  | .endOfInput =>
    tuple e.kind
      [record "Error" [("kind", "UnexpectedEof"), ("message", Quoted.string endOfInputMessage)]]
  | .chopCount | .appendCount =>
    tuple e.kind [record "Custom" [("kind", "InvalidInput"), ("error", Quoted.string e.detail)]]
  | .poolOverflow c offset =>
    tuple e.kind [record e.kind [("constant", constant c), ("offset", toString offset)]]
  | .badMagic _ | .unknownConstantTag _ | .codeOverflow _ => tuple e.kind [e.detail]
  | .missingConstant i => tuple e.kind [index i]
  | .unexpectedConstant i expected =>
    record e.kind [("index", index i), ("expected", Quoted.string expected.description)]
  | .badDescriptor _ | .badName _ => tuple e.kind [Quoted.string e.detail]
  | .malformedAttribute name fault =>
    record e.kind [("name", Quoted.string name), ("message", Quoted.string fault.message)]
  | .unknownOpcode opcode position =>
    record e.kind [("opcode", toString opcode), ("offset", offset position)]
  | .invalidCodeOffset source target =>
    record e.kind [("from", offset source), ("target", toString target)]
  | .truncatedInstruction position | .conflictingFrames position =>
    tuple e.kind [offset position]
  | .undefinedLabel label => tuple e.kind ["L" ++ toString label]
  | .branchOverflow source distance =>
    record e.kind [("from", offset source), ("distance", toString distance)]

/-- Name of the kind of an error. -/
def InjectionError.kind : InjectionError → String
  | .classFile e => "ClassFile." ++ e.kind
  | .missingSetting _ => "MissingProperty"
  | .malformedName _ => "MalformedName"

/-- What the error is about. -/
def InjectionError.detail : InjectionError → String
  | .classFile e => e.detail
  | .missingSetting s => s.key ++ " is not present!"
  | .malformedName fault => "malformed name: " ++ fault.message

open Description in
/-- The error with the names of its parts. -/
def InjectionError.describe : InjectionError → String
  | .classFile e => tuple "ClassFile" [e.describe]
  | .missingSetting s => tuple "MissingProperty" [Quoted.string s.key]
  | .malformedName fault => tuple "MalformedName" [Quoted.string fault.message]

end ClassPatch
