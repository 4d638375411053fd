import ClassPatch.Inject.Config
import ClassPatch.Inject.Marker
import ClassPatch.Rename.Class

/-!
The class that reports the platform, and the placeholder that stands for it in other classes.
-/

namespace ClassPatch

/-- Name of the method that reports the platform. -/
def currentTargetName : UnqualifiedName := ⟨"getCurrentTarget", by decide +kernel⟩

/-- The method `public static String getCurrentTarget() { return "<platform>"; }`. -/
def currentTargetMethod (platform : String) : Method where
  accessFlags := .truncate _ (AccessFlags.publicBit ||| AccessFlags.staticBit)
  name := currentTargetName
  descriptor := ⟨[], some (.ref (.object .string))⟩
  code := some {
    maxStack := some 1
    maxLocals := some 0
    elements := [
      .instruction (.ldc (.static (.string platform))),
      .branch (.valueReturn .reference)] }

/-- The class that reports the platform. -/
def platformMethodsClass (name : BinaryName) (platform : String) : Class where
  version := .java8
  accessFlags := .truncate _ (AccessFlags.publicBit ||| AccessFlags.finalBit)
  name
  superName := some .object
  methods := [currentTargetMethod platform]

/-- Rename the placeholder in a class. The name for it is needed only if the class mentions it. -/
def Class.remapPlaceholder (config : InjectionConfig) (identifier : Option String) (c : Class) :
    Except InjectionError Class := do
  if config.enabled && c.mentions placeholderClass then
    return c.rename (.single placeholderClass (← config.platformMethodsClass identifier))
  else
    return c

end ClassPatch
