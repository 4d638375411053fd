import ClassPatch.Class.Constant
import ClassPatch.Rename.Basic

/-!
Renaming classes in constants.
-/

namespace ClassPatch

namespace FieldRef

def rename (r : Renaming) (f : FieldRef) : FieldRef where
  owner := r.apply f.owner
  name := f.name
  descriptor := f.descriptor.rename r

def names (f : FieldRef) : List String := f.owner.text :: f.descriptor.names

end FieldRef

namespace MethodRef

def rename (r : Renaming) (m : MethodRef) : MethodRef where
  owner := m.owner.rename r
  name := m.name
  descriptor := m.descriptor.rename r
  isInterface := m.isInterface

def names (m : MethodRef) : List String := m.owner.names ++ m.descriptor.names

end MethodRef

namespace HandleMember

def rename (r : Renaming) : HandleMember → HandleMember
  | .field f => .field (f.rename r)
  | .method m => .method (m.rename r)

def names : HandleMember → List String
  | .field f => f.names
  | .method m => m.names

end HandleMember

namespace MethodHandle

def rename (r : Renaming) (h : MethodHandle) : MethodHandle where
  kind := h.kind
  member := h.member.rename r

def names (h : MethodHandle) : List String := h.member.names

end MethodHandle

namespace StaticConstant

def rename (r : Renaming) : StaticConstant → StaticConstant
  | .classRef t => .classRef (t.rename r)
  | .methodType descriptor => .methodType (descriptor.rename r)
  | .methodHandle h => .methodHandle (h.rename r)
  | c => c

def names : StaticConstant → List String
  | .classRef t => t.names
  | .methodType descriptor => descriptor.names
  | .methodHandle h => h.names
  | .string _ | .integer _ | .float _ | .long _ | .double _ => []

end StaticConstant

mutual

def LoadableConstant.rename (r : Renaming) : LoadableConstant → LoadableConstant
  | .static c => .static (c.rename r)
  | .dynamic handle arguments name descriptor =>
    .dynamic (handle.rename r) (renameConstants r arguments) name (descriptor.rename r)

def renameConstants (r : Renaming) : List LoadableConstant → List LoadableConstant
  | [] => []
  | c :: cs => c.rename r :: renameConstants r cs

end

mutual

def LoadableConstant.names : LoadableConstant → List String
  | .static c => c.names
  | .dynamic handle arguments _ descriptor =>
    handle.names ++ constantNames arguments ++ descriptor.names

def constantNames : List LoadableConstant → List String
  | [] => []
  | c :: cs => c.names ++ constantNames cs

end

namespace BootstrapMethod

def rename (r : Renaming) (b : BootstrapMethod) : BootstrapMethod where
  handle := b.handle.rename r
  arguments := renameConstants r b.arguments

def names (b : BootstrapMethod) : List String := b.handle.names ++ constantNames b.arguments

end BootstrapMethod

namespace CallSite

def rename (r : Renaming) (s : CallSite) : CallSite where
  bootstrap := s.bootstrap.rename r
  name := s.name
  descriptor := s.descriptor.rename r

def names (s : CallSite) : List String := s.bootstrap.names ++ s.descriptor.names

end CallSite

end ClassPatch
