import ClassPatch.Class.Annotation
import ClassPatch.Rename.Basic

/-!
Renaming classes in annotations, where types stand as descriptors.
-/

namespace ClassPatch

namespace LeafValue

def rename (r : Renaming) : LeafValue → LeafValue
  | .enum type name => .enum (DescriptorText.rename r type) name
  | .classInfo descriptor => .classInfo (DescriptorText.rename r descriptor)
  | v => v

def names : LeafValue → List String
  | .enum type _ => DescriptorText.names type
  | .classInfo descriptor => DescriptorText.names descriptor
  | .integer .. | .long _ | .float _ | .double _ | .string _ => []

end LeafValue

namespace ElementValue

mutual

def rename (r : Renaming) : ElementValue → ElementValue
  | .leaf v => .leaf (v.rename r)
  | .nested type elements =>
    .nested (DescriptorText.rename r type) (renameElements r elements)
  | .array values => .array (renameValues r values)

def renameValues (r : Renaming) : List ElementValue → List ElementValue
  | [] => []
  | v :: vs => rename r v :: renameValues r vs

def renameElements (r : Renaming) : List (String × ElementValue) → List (String × ElementValue)
  | [] => []
  | (name, v) :: elements => (name, rename r v) :: renameElements r elements

end

mutual

def names : ElementValue → List String
  | .leaf v => v.names
  | .nested type elements => DescriptorText.names type ++ elementNames elements
  | .array values => valueNames values

def valueNames : List ElementValue → List String
  | [] => []
  | v :: vs => names v ++ valueNames vs

def elementNames : List (String × ElementValue) → List String
  | [] => []
  | (_, v) :: elements => names v ++ elementNames elements

end

end ElementValue

namespace Annotation

def rename (r : Renaming) (a : Annotation) : Annotation where
  type := DescriptorText.rename r a.type
  elements := ElementValue.renameElements r a.elements

def names (a : Annotation) : List String :=
  DescriptorText.names a.type ++ ElementValue.elementNames a.elements

end Annotation

namespace Annotations

def rename (r : Renaming) (as : Annotations) : Annotations where
  visible := as.visible.map (·.rename r)
  invisible := as.invisible.map (·.rename r)

def names (as : Annotations) : List String := as.all.flatMap Annotation.names

end Annotations

namespace ParameterAnnotations

def rename (r : Renaming) (as : ParameterAnnotations) : ParameterAnnotations where
  visible := as.visible.map (·.map (·.map (·.rename r)))
  invisible := as.invisible.map (·.map (·.map (·.rename r)))

def names (as : ParameterAnnotations) : List String :=
  (as.visible.getD [] ++ as.invisible.getD []).flatten.flatMap Annotation.names

end ParameterAnnotations

end ClassPatch
