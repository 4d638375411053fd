import ClassPatch.Inject.Config
import ClassPatch.Inject.Marker

/-!
Forwarding annotated methods to their implementations for the platform. Where

```
package com.foo;

public class Bar {
    @ExpectPlatform
    public static int answer(long seed, String salt) {
        throw new AssertionError();
    }
}
```

is built for Fabric, the body of `answer` becomes `return com.foo.fabric.BarImpl.answer(seed,
salt);`.
-/

namespace ClassPatch

/-- A problem in a class that does not keep it from being transformed. -/
inductive Diagnostic where
  /-- An annotated method is not static, and is left as it is. -/
  | nonStatic (owner : BinaryName) (method : UnqualifiedName) (descriptor : MethodDescriptor)
  deriving DecidableEq

def Diagnostic.message : Diagnostic → String
  | .nonStatic owner method descriptor =>
    "@ExpectPlatform can only apply to static methods! ("
      ++ owner.text ++ "." ++ method.text ++ descriptor.render ++ ")"

/-- Transformations of classes. Problems that were reported before a failure stay reported. -/
abbrev InjectM := ExceptT InjectionError (StateM (List Diagnostic))

def InjectM.report (d : Diagnostic) : InjectM Unit := modify fun (ds : List Diagnostic) => ds ++ [d]

/-- Load each parameter, the first from the given slot. -/
def loadParameters : UInt16 → List FieldType → List BodyElement
  | _, [] => []
  | slot, t :: ts =>
    .instruction (.load t.kind slot) :: loadParameters (slot + UInt16.ofNat t.width) ts

/-- Return from a method with the result. -/
def returnOf : Option FieldType → SymbolicBranch
  | none => .voidReturn
  | some t => .valueReturn t.kind

/-- The method of the target with the name and descriptor. -/
def forwardTarget (target : BinaryName) (m : Method) : MethodRef where
  owner := .object target
  name := m.name
  descriptor := m.descriptor
  isInterface := false

/-- Call the method of the target with the same name and parameters, and return its result. -/
def forwardingBody (target : BinaryName) (m : Method) : List BodyElement :=
  loadParameters 0 m.descriptor.parameters
    ++ [.instruction (.invoke .static (forwardTarget target m)),
      .branch (returnOf m.descriptor.returnType)]

namespace Method

/-- The code of the method after forwarding. Code that forwards already is left as it is. -/
def forwardedCode (m : Method) (target : BinaryName) : Code :=
  let body := forwardingBody target m
  match m.code with
  | none => { elements := body }
  | some c => if c.elements = body then c else { elements := body, maxLocals := c.maxLocals }

/-- The annotations of the method after forwarding, marked once. -/
def markedAnnotations (m : Method) : Annotations :=
  if m.annotations.contains transformedMarker.type then m.annotations
  else { m.annotations with invisible := m.annotations.invisible ++ [transformedMarker] }

/-- Forward the method to the target. -/
def forward (m : Method) (target : BinaryName) : Method :=
  { m with
    code := some (m.forwardedCode target)
    annotations := m.markedAnnotations }

/-- Forward the method if it is annotated and static. The target is needed only then. -/
def expectPlatform (owner : BinaryName) (target : Except InjectionError BinaryName) (m : Method) :
    InjectM Method := do
  if !m.isExpectPlatform then
    return m
  else if !m.isStatic then
    InjectM.report (.nonStatic owner m.name m.descriptor)
    return m
  else
    return m.forward (← target)

end Method

/-- Forward the annotated methods of a class. -/
def Class.expectPlatform (config : InjectionConfig) (package : Option String) (c : Class) :
    InjectM Class := do
  if !config.enabled then
    return c
  let target := config.platformClass package c.name
  return { c with methods := ← c.methods.mapM (·.expectPlatform c.name target) }

end ClassPatch
