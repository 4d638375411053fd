import ClassPatch.Class.Constant
import ClassPatch.Pool.Builder

/-!
Adding constants to a pool, after the constants that they refer to.
-/

namespace ClassPatch.PoolM

/-- Index of the class constant of a class. -/
def className (name : BinaryName) : PoolM ConstantIndex := do
  constant (.classRef (← utf8 name.text))

/-- Index of the class constant of a class or an array. -/
def refType (t : RefType) : PoolM ConstantIndex := do
  constant (.classRef (← utf8 t.constantName))

def nameAndType (name descriptor : String) : PoolM ConstantIndex := do
  let name ← utf8 name
  let descriptor ← utf8 descriptor
  constant (.nameAndType name descriptor)

def fieldRef (f : FieldRef) : PoolM ConstantIndex := do
  let owner ← className f.owner
  let member ← nameAndType f.name.text f.descriptor.render
  constant (.fieldRef owner member)

def methodRef (m : MethodRef) : PoolM ConstantIndex := do
  let owner ← refType m.owner
  let member ← nameAndType m.name.text m.descriptor.render
  constant (.methodRef owner member m.isInterface)

def handleMember : HandleMember → PoolM ConstantIndex
  | .field f => fieldRef f
  | .method m => methodRef m

def methodHandle (h : MethodHandle) : PoolM ConstantIndex := do
  constant (.methodHandle h.kind (← handleMember h.member))

def staticConstant : StaticConstant → PoolM ConstantIndex
  | .string text => do constant (.string (← utf8 text))
  | .integer value => constant (.integer value)
  | .float value => constant (.float value)
  | .long value => constant (.long value)
  | .double value => constant (.double value)
  | .classRef t => refType t
  | .methodType descriptor => do constant (.methodType (← utf8 descriptor.render))
  | .methodHandle h => methodHandle h

mutual

/-- Index of a constant that can be loaded. -/
def loadable : LoadableConstant → PoolM ConstantIndex
  | .static c => staticConstant c
  | .dynamic handle arguments name descriptor => do
    let handle ← methodHandle handle
    let arguments ← loadables arguments
    let bootstrap ← bootstrapEntry ⟨handle, arguments⟩
    let member ← nameAndType name.text descriptor.render
    constant (.dynamic bootstrap member)

def loadables : List LoadableConstant → PoolM (List ConstantIndex)
  | [] => return []
  | c :: cs => do
    let index ← loadable c
    return index :: (← loadables cs)

end

/-- The entry of a bootstrap method, whose constants are added to the pool. -/
def bootstrapParts (b : BootstrapMethod) : PoolM BootstrapEntry := do
  let handle ← methodHandle b.handle
  return { handle, arguments := ← loadables b.arguments }

/-- Index of a bootstrap method in its table. -/
def bootstrapMethod (b : BootstrapMethod) : PoolM UInt16 := do
  bootstrapEntry (← bootstrapParts b)

def callSite (s : CallSite) : PoolM ConstantIndex := do
  let bootstrap ← bootstrapMethod s.bootstrap
  let member ← nameAndType s.name.text s.descriptor.render
  constant (.invokeDynamic bootstrap member)

end ClassPatch.PoolM
