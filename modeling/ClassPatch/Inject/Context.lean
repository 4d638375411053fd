/-!
What a build lets transformations do. Nothing enforces it: transformations are expected to look.
-/

namespace ClassPatch

structure BuildContext where
  canModifyAssets : Bool
  canAppendArguments : Bool
  canAddClasses : Bool
  /-- Arguments for the command that runs what is built, as they were added. -/
  appended : List (List String) := []
  deriving DecidableEq, Repr

/-- Add arguments to the command that runs what is built. -/
def BuildContext.appendArguments (c : BuildContext) (arguments : List String) : BuildContext :=
  { c with appended := c.appended ++ [arguments] }

end ClassPatch
