import ClassPatch.Class.Code
import ClassPatch.Proofs.Bytecode.Branch
import ClassPatch.Proofs.Bytecode.Frame

/-!
The labels that parts of a body refer to, and the parts with other labels in their place.
-/

namespace ClassPatch

namespace Branch

variable {L M : Type}

def relabel (f : L → M) : Branch L L → Branch M M
  | .ifZero c t => .ifZero c (f t)
  | .ifInts c t => .ifInts c (f t)
  | .ifRefs c t => .ifRefs c (f t)
  | .ifNull c t => .ifNull c (f t)
  | .goto t => .goto (f t)
  | .gotoWide t => .gotoWide (f t)
  | .jsr t => .jsr (f t)
  | .jsrWide t => .jsrWide (f t)
  | .ret slot => .ret slot
  | .tableSwitch padding fallback low targets =>
    .tableSwitch padding (f fallback) low (targets.map f)
  | .lookupSwitch padding fallback pairs =>
    .lookupSwitch padding (f fallback) (pairs.map fun p => (p.1, f p.2))
  | .valueReturn kind => .valueReturn kind
  | .voidReturn => .voidReturn
  | .athrow => .athrow

theorem Rel.relabel {N F : Type} {near : M → N → Prop} {far : M → F → Prop} {f : L → M}
    {b : Branch L L} {b' : Branch N F}
    (h : Rel (fun t u => near (f t) u) (fun t u => far (f t) u) b b') :
    Rel near far (b.relabel f) b' := by
  cases h with
  | ifZero c h => exact .ifZero c h
  | ifInts c h => exact .ifInts c h
  | ifRefs c h => exact .ifRefs c h
  | ifNull c h => exact .ifNull c h
  | goto h => exact .goto h
  | gotoWide h => exact .gotoWide h
  | jsr h => exact .jsr h
  | jsrWide h => exact .jsrWide h
  | ret slot => exact .ret slot
  | tableSwitch padding low hfallback h =>
    exact .tableSwitch padding low hfallback (List.forall₂_map_left_iff.2 h)
  | lookupSwitch padding hfallback h =>
    exact .lookupSwitch padding hfallback (List.forall₂_map_left_iff.2 h)
  | valueReturn kind => exact .valueReturn kind
  | voidReturn => exact .voidReturn
  | athrow => exact .athrow

theorem aligned_relabel (f : L → M) (offset : Nat) (b : Branch L L) :
    (b.aligned offset).relabel f = (b.relabel f).aligned offset := by
  cases b <;> rfl

end Branch

namespace BodyElement

/-- Labels that the element refers to. -/
def references : BodyElement → List Label
  | .branch b => b.targets
  | _ => []

def relabel (f : Label → Label) : BodyElement → BodyElement
  | .label k => .label (f k)
  | .instruction i => .instruction i
  | .branch b => .branch (b.relabel f)

end BodyElement

namespace ExceptionHandler

/-- Labels that the handler refers to. -/
def references (h : ExceptionHandler) : List Label := [h.start, h.stop, h.handler]

def relabel (f : Label → Label) (h : ExceptionHandler) : ExceptionHandler :=
  { h with start := f h.start, stop := f h.stop, handler := f h.handler }

end ExceptionHandler

def LineNumber.relabel (f : Label → Label) (l : LineNumber) : LineNumber :=
  { l with start := f l.start }

namespace LocalVariable

/-- Labels that the range of the variable refers to. -/
def references (v : LocalVariable) : List Label := [v.start, v.stop]

def relabel (f : Label → Label) (v : LocalVariable) : LocalVariable :=
  { v with start := f v.start, stop := f v.stop }

end LocalVariable

end ClassPatch
