import ClassPatch.Inject.ExpectPlatform
import ClassPatch.Inject.PlatformMethods
import ClassPatch.Lift.Class
import ClassPatch.Lower.Class

/-!
Both transformations together: annotated methods are forwarded first, and then the placeholder is
renamed.
-/

namespace ClassPatch

namespace Class

/-- Whether two tables hold the same constants, as numbers where they are floating point. -/
def sameConstants : Option ConstantTable → Option ConstantTable → Bool
  | none, none => true
  | some s, some t =>
    s.start == t.start && s.next == t.next && s.entries.size == t.entries.size
      && (s.entries.toList.zip t.entries.toList).all fun ((i, c), (j, d)) => i == j && c.sameValue d
  | _, _ => false

/--
Whether two classes are the same. Constants that they were read with are compared as numbers where
they are floating point, so a class with a constant that is not a number is not even the same as
itself.
-/
def sameAs (c d : Class) : Bool :=
  { c with constantPool := none } = { d with constantPool := none }
    && sameConstants c.constantPool d.constantPool

end Class

/-- The transformations of a build. -/
structure Injector where
  config : InjectionConfig
  overrides : InjectionOverrides := {}
  deriving DecidableEq, Repr

namespace Injector

def ofProperties (p : Properties) : Injector where
  config := .ofProperties p

/-- Take overrides from properties. An identifier stays unless there is a new one. -/
def supply (i : Injector) (p : Properties) : Injector :=
  { i with overrides := {
      platformPackage := p.setting? .platformPackage
      uniqueIdentifier := p.setting? .uniqueIdentifier <|> i.overrides.uniqueIdentifier } }

/-- Forward the annotated methods of a class. -/
def expectPlatform (i : Injector) (c : Class) : InjectM Class :=
  c.expectPlatform i.config i.overrides.platformPackage

/-- Rename the placeholder in a class. -/
def remapPlaceholder (i : Injector) (c : Class) : Except InjectionError Class :=
  c.remapPlaceholder i.config i.overrides.uniqueIdentifier

def transform (i : Injector) (c : Class) : InjectM Class := do
  i.remapPlaceholder (← i.expectPlatform c)

/-- The new bytes of a class file, or nothing if the class stays as it is. -/
def transformBytes (i : Injector) (bytes : Bytes) : InjectM (Option Bytes) := do
  if !i.config.enabled then
    return none
  let c ← ((Class.parse bytes).mapError .classFile : Except InjectionError Class)
  let transformed ← i.transform c
  if transformed.sameAs c then
    return none
  return some (← (transformed.toBytes.mapError .classFile : Except InjectionError Bytes))

/-- The class that transformed classes need, unless nothing is transformed. -/
def addedClass (i : Injector) : Except InjectionError (Option (BinaryName × Bytes)) := do
  if !i.config.enabled then
    return none
  let name ← i.config.platformMethodsClass i.overrides.uniqueIdentifier
  let platform ← i.config.requirePlatformName
  let bytes ← (platformMethodsClass name platform).toBytes.mapError .classFile
  return some (name, bytes)

end Injector

end ClassPatch
