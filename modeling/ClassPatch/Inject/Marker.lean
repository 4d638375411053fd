import ClassPatch.Class.Basic

/-!
Annotations and classes that mark what is transformed. They are those of the annotation library.
-/

namespace ClassPatch

/-- Spellings of the annotation of methods that each platform implements. -/
inductive ExpectPlatform where
  | current | legacy | legacyAnnotations
  deriving DecidableEq, Repr

namespace ExpectPlatform

def descriptor : ExpectPlatform → String
  | .current => "Ldev/architectury/injectables/annotations/ExpectPlatform;"
  | .legacy => "Lme/shedaniel/architectury/ExpectPlatform;"
  | .legacyAnnotations => "Lme/shedaniel/architectury/annotations/ExpectPlatform;"

def ofDescriptor? (descriptor : String) : Option ExpectPlatform :=
  [current, legacy, legacyAnnotations].find? (·.descriptor == descriptor)

end ExpectPlatform

/-- Whether the method carries the annotation, in any spelling. -/
def Method.isExpectPlatform (m : Method) : Bool :=
  m.annotations.all.any fun a => (ExpectPlatform.ofDescriptor? a.type).isSome

/-- The annotation of methods that were transformed. -/
def transformedMarker : Annotation :=
  .marker "Ldev/architectury/injectables/annotations/ExpectPlatform$Transformed;"

/-- The class that stands for the one that is added. -/
def placeholderClass : String := "dev/architectury/injectables/targets/ArchitecturyTarget"

end ClassPatch
