import ClassPatch.Error.Basic
import ClassPatch.Inject.Properties

/-!
What the injection is configured with, and the names of classes that follow from it.
-/

namespace ClassPatch

/-- Properties that the injection knows. -/
inductive Setting where
  /-- The platform that is built for. -/
  | platformName
  /--
  The package of the implementations for the platform, if its name is not that of the platform.
  -/
  | platformPackage
  /-- The package of the class that is added. -/
  | uniqueIdentifier
  /-- Anything but `true` turns the injection off. -/
  | injectInjectables
  deriving DecidableEq, Repr

def Setting.key : Setting → String
  | .platformName => "architectury.platform.name"
  | .platformPackage => "architectury.platform.package"
  | .uniqueIdentifier => "architectury.unique.identifier"
  | .injectInjectables => "architectury.inject.injectables"

/-- The value of a setting, if it is set. -/
def Properties.setting? (p : Properties) (s : Setting) : Option String := p.get? s.key

/-- Why classes cannot be transformed. -/
inductive InjectionError where
  | classFile (error : ClassError)
  | missingSetting (setting : Setting)
  | malformedName (fault : NameError)
  deriving DecidableEq, Repr

structure InjectionConfig where
  platformName : Option String
  platformPackage : Option String
  uniqueIdentifier : Option String
  /-- When `false`, nothing is transformed. -/
  enabled : Bool
  deriving DecidableEq, Repr

/-- Values that come before those of the configuration. -/
structure InjectionOverrides where
  platformPackage : Option String := none
  uniqueIdentifier : Option String := none
  deriving DecidableEq, Repr

/-- The class with the text as its name, which configuration provides. -/
def configuredName (text : String) : Except InjectionError BinaryName :=
  (BinaryName.ofString text).mapError .malformedName

/-- Simple name of the class that is added. -/
def platformMethodsName : String := "PlatformMethods"

namespace InjectionConfig

def ofProperties (p : Properties) : InjectionConfig where
  platformName := p.setting? .platformName
  platformPackage := p.setting? .platformPackage
  uniqueIdentifier := p.setting? .uniqueIdentifier
  enabled := (p.setting? .injectInjectables).all (· == "true")

/-- The name of the platform, which has to be configured. -/
def requirePlatformName (c : InjectionConfig) : Except InjectionError String :=
  match c.platformName with
  | some name => .ok name
  | none => .error (.missingSetting .platformName)

/-- The class that is added, which reports the platform. -/
def platformMethodsClass (c : InjectionConfig) (identifier : Option String) :
    Except InjectionError BinaryName :=
  match identifier <|> c.uniqueIdentifier with
  | some identifier => configuredName (identifier ++ "/" ++ platformMethodsName)
  | none => .error (.missingSetting .uniqueIdentifier)

/--
The package that the implementations for the platform are in, below that of the class that is
implemented. Quilt runs what is made for Fabric.
-/
def effectivePackage (c : InjectionConfig) (package : Option String) :
    Except InjectionError String :=
  match package <|> c.platformPackage with
  | some package => .ok package
  | none => do
    let name ← c.requirePlatformName
    return if name = "quilt" then "fabric" else name

/-- The text without `$`. -/
def flattened (text : String) : String := String.ofList (text.toList.filter (· ≠ '$'))

/--
The class with the implementations of the methods of a class for the platform. Nested classes are
implemented next to others: that of `com/foo/Bar$Inner` is `com/foo/fabric/BarInnerImpl` for Fabric.
-/
def platformClass (c : InjectionConfig) (package : Option String) (owner : BinaryName) :
    Except InjectionError BinaryName := do
  let platform ← c.effectivePackage package
  let name := platform ++ "/" ++ flattened owner.simpleName ++ "Impl"
  configuredName
    (match owner.package? with
    | some package => flattened package ++ "/" ++ name
    | none => name)

end InjectionConfig

end ClassPatch
