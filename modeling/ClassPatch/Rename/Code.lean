import ClassPatch.Class.Code
import ClassPatch.Rename.Constant
import ClassPatch.Signature.Parser

/-!
Renaming classes in bodies of methods.
-/

namespace ClassPatch

namespace SymbolicInstruction

def rename (r : Renaming) : SymbolicInstruction → SymbolicInstruction
  | .ldc c => .ldc (c.rename r)
  | .ldc2 c => .ldc2 (c.rename r)
  | .onField access f => .onField access (f.rename r)
  | .invoke kind m => .invoke kind (m.rename r)
  | .invokeDynamic site => .invokeDynamic (site.rename r)
  | .onClass op t => .onClass op (t.rename r)
  | .multiNewArray t dimensions => .multiNewArray (t.rename r) dimensions
  | i => i

def names : SymbolicInstruction → List String
  | .ldc c | .ldc2 c => c.names
  | .onField _ f => f.names
  | .invoke _ m => m.names
  | .invokeDynamic site => site.names
  | .onClass _ t | .multiNewArray t _ => t.names
  | .plain _ | .bipush _ | .sipush _ | .load .. | .store .. | .iinc .. | .newPrimitiveArray _ => []

end SymbolicInstruction

namespace BodyElement

def rename (r : Renaming) : BodyElement → BodyElement
  | .instruction i => .instruction (SymbolicInstruction.rename r i)
  | element => element

def names : BodyElement → List String
  | .instruction i => SymbolicInstruction.names i
  | .label _ | .branch _ => []

end BodyElement

/-- Types of values in the frames of a body. -/
abbrev BodyVerificationType := VerificationType RefType Label

namespace BodyVerificationType

def rename (r : Renaming) : BodyVerificationType → BodyVerificationType
  | .object t => .object (t.rename r)
  | t => t

def names : BodyVerificationType → List String
  | .object t => t.names
  | _ => []

end BodyVerificationType

namespace BodyFrame

def rename (r : Renaming) (f : BodyFrame) : BodyFrame where
  locals := f.locals.map (BodyVerificationType.rename r)
  stack := f.stack.map (BodyVerificationType.rename r)

def names (f : BodyFrame) : List String :=
  (f.locals ++ f.stack).flatMap BodyVerificationType.names

end BodyFrame

namespace ExceptionHandler

def rename (r : Renaming) (h : ExceptionHandler) : ExceptionHandler :=
  { h with catchType := h.catchType.map r.apply }

def names (h : ExceptionHandler) : List String := (h.catchType.map BinaryName.text).toList

end ExceptionHandler

namespace LocalVariable

/-- Rename in the descriptor of a local variable. -/
def renameDescriptor (r : Renaming) (v : LocalVariable) : LocalVariable :=
  { v with descriptor := DescriptorText.rename r v.descriptor }

/-- Rename in the signature of a local variable. -/
def renameSignature (r : Renaming) (v : LocalVariable) : LocalVariable :=
  { v with descriptor := SignatureText.rename r v.descriptor }

end LocalVariable

namespace Code

def rename (r : Renaming) (c : Code) : Code :=
  { c with
    elements := c.elements.map (BodyElement.rename r)
    exceptionHandlers := c.exceptionHandlers.map (·.rename r)
    localVariables := c.localVariables.map (·.renameDescriptor r)
    localVariableTypes := c.localVariableTypes.map (·.renameSignature r)
    frames := c.frames.map fun (label, f) => (label, BodyFrame.rename r f) }

def names (c : Code) : List String :=
  c.elements.flatMap BodyElement.names
    ++ c.exceptionHandlers.flatMap ExceptionHandler.names
    ++ c.localVariables.flatMap (DescriptorText.names ·.descriptor)
    ++ c.localVariableTypes.flatMap (SignatureText.names ·.descriptor)
    ++ c.frames.flatMap (BodyFrame.names ·.2)

end Code

end ClassPatch
