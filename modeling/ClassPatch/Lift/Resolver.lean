import ClassPatch.Class.Constant
import ClassPatch.Descriptor.Parser
import ClassPatch.Pool.Builder
import ClassPatch.Pool.Lookup

/-!
Resolving the indices of a class file to the constants that they stand for.
-/

namespace ClassPatch

/-- The constants of a class file and its table of bootstrap methods. -/
structure Resolver where
  constants : ConstantTable
  bootstrapMethods : List BootstrapEntry

/-- The name that a text is. -/
def parseBinaryName (text : String) : Except ClassError BinaryName :=
  (BinaryName.ofString text).mapError .badName

/-- The name that a text is. -/
def parseUnqualifiedName (text : String) : Except ClassError UnqualifiedName :=
  (UnqualifiedName.ofString text).mapError .badName

/-- The type that a text describes. -/
def parseFieldType (text : String) : Except ClassError FieldType :=
  (FieldType.parse text).mapError fun _ => .badDescriptor text

/-- The parameters and result that a text describes. -/
def parseMethodDescriptor (text : String) : Except ClassError MethodDescriptor :=
  (MethodDescriptor.parse text).mapError fun _ => .badDescriptor text

/-- The type that the name of a class constant stands for: an array if it starts with `[`. -/
def parseRefType (text : String) : Except ClassError RefType :=
  if text.toList.head? = some '[' then
    (RefType.parse text).mapError fun _ => .badDescriptor text
  else
    RefType.object <$> parseBinaryName text

/-- Levels of dynamic constants within the arguments of others. -/
def maxDynamicNesting : Nat := 64

namespace Resolver

variable (r : Resolver)

def utf8 (index : ConstantIndex) : Except ClassError String := r.constants.utf8 index

def unqualifiedName (index : ConstantIndex) : Except ClassError UnqualifiedName := do
  parseUnqualifiedName (← r.utf8 index)

def fieldType (index : ConstantIndex) : Except ClassError FieldType := do
  parseFieldType (← r.utf8 index)

def methodDescriptor (index : ConstantIndex) : Except ClassError MethodDescriptor := do
  parseMethodDescriptor (← r.utf8 index)

/-- The class that a class constant names, which is no array. -/
def className (index : ConstantIndex) : Except ClassError BinaryName := do
  parseBinaryName (← r.constants.className index)

/-- The class or array that a class constant names. -/
def refType (index : ConstantIndex) : Except ClassError RefType := do
  parseRefType (← r.constants.className index)

def fieldRef (index : ConstantIndex) : Except ClassError FieldRef := do
  match ← r.constants.constant index with
  | .fieldRef owner member =>
    let (name, descriptor) ← r.constants.nameAndType member
    return {
      owner := ← r.className owner
      name := ← parseUnqualifiedName name
      descriptor := ← parseFieldType descriptor }
  | _ => throw (.unexpectedConstant index .fieldRef)

def methodRef (index : ConstantIndex) : Except ClassError MethodRef := do
  match ← r.constants.constant index with
  | .methodRef owner member isInterface =>
    let (name, descriptor) ← r.constants.nameAndType member
    return {
      owner := ← r.refType owner
      name := ← parseUnqualifiedName name
      descriptor := ← parseMethodDescriptor descriptor
      isInterface }
  | _ => throw (.unexpectedConstant index .methodRef)

def methodHandle (index : ConstantIndex) : Except ClassError MethodHandle := do
  match ← r.constants.constant index with
  | .methodHandle kind member =>
    if kind.isField then
      return ⟨kind, .field (← r.fieldRef member)⟩
    else
      return ⟨kind, .method (← r.methodRef member)⟩
  | _ => throw (.unexpectedConstant index .methodHandle)

/-- A bootstrap method, given how its arguments are resolved. -/
def bootstrapMethod (argument : ConstantIndex → Except ClassError LoadableConstant)
    (index : UInt16) : Except ClassError BootstrapMethod := do
  match r.bootstrapMethods[index.toNat]? with
  | none => throw (.malformedAttribute "BootstrapMethods" (.missingBootstrapMethod index))
  | some entry =>
    let arguments ← entry.arguments.mapM argument
    return { handle := ← r.methodHandle entry.handle, arguments }

/-- A constant whose dynamic constants nest fewer levels than given. -/
def loadableWithin : Nat → ConstantIndex → Except ClassError LoadableConstant
  | 0, index => throw (.malformedAttribute "BootstrapMethods" (.dynamicTooDeep index))
  | levels + 1, index => do
    match ← r.constants.constant index with
    | .string text => return .static (.string (← r.utf8 text))
    | .integer value => return .static (.integer value)
    | .float value => return .static (.float value)
    | .long value => return .static (.long value)
    | .double value => return .static (.double value)
    | .classRef _ => return .static (.classRef (← r.refType index))
    | .methodType descriptor => return .static (.methodType (← r.methodDescriptor descriptor))
    | .methodHandle .. => return .static (.methodHandle (← r.methodHandle index))
    | .dynamic bootstrap member =>
      let (name, descriptor) ← r.constants.nameAndType member
      let bootstrap ← r.bootstrapMethod (loadableWithin levels) bootstrap
      let name ← parseUnqualifiedName name
      let descriptor ← parseFieldType descriptor
      return .dynamic bootstrap.handle bootstrap.arguments name descriptor
    | _ => throw (.unexpectedConstant index .loadable)

/-- A constant that can be loaded. -/
def loadable (index : ConstantIndex) : Except ClassError LoadableConstant :=
  r.loadableWithin (maxDynamicNesting + 1) index

/-- A bootstrap method of the table. -/
def bootstrap (index : UInt16) : Except ClassError BootstrapMethod :=
  r.bootstrapMethod (r.loadableWithin maxDynamicNesting) index

/-- The whole table of bootstrap methods. -/
def bootstraps : Except ClassError (List BootstrapMethod) :=
  (List.range r.bootstrapMethods.length).mapM fun index => r.bootstrap (UInt16.ofNat index)

def callSite (index : ConstantIndex) : Except ClassError CallSite := do
  match ← r.constants.constant index with
  | .invokeDynamic bootstrap member =>
    let (name, descriptor) ← r.constants.nameAndType member
    return {
      bootstrap := ← r.bootstrap bootstrap
      name := ← parseUnqualifiedName name
      descriptor := ← parseMethodDescriptor descriptor }
  | _ => throw (.unexpectedConstant index .invokeDynamic)

end Resolver

end ClassPatch
