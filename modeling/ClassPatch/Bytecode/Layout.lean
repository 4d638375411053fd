import ClassPatch.Bytecode.Decode
import ClassPatch.Bytecode.Encode
import Std.Data.HashMap

/-!
Laying out code whose jumps go to labels. A short `goto` or `jsr` that does not reach its target is
replaced by the wide form; as that form is longer, it may push the target of another jump out of
reach, so this is repeated until every short jump reaches its target. Conditional jumps have no wide
form.
-/

namespace ClassPatch

/-- Code that is ready to be laid out. -/
abbrev LayoutElement := CodeElement StoredInstruction (Branch Label Label)

/-- Most bytes that the code of a method can have. -/
def maxCodeLength : Nat := 0xFFFF

/-- Whether a short jump can go the distance. -/
def fitsShort (distance : Int) : Bool := -0x8000 ≤ distance && distance < 0x8000

/-- The branch with the padding that it needs at an offset. -/
def Branch.aligned {N F : Type} (offset : Nat) : Branch N F → Branch N F
  | .tableSwitch _ fallback low targets =>
    .tableSwitch (UInt8.ofNat (CodePosition.padding ⟨offset, 0⟩)) fallback low targets
  | .lookupSwitch _ fallback pairs =>
    .lookupSwitch (UInt8.ofNat (CodePosition.padding ⟨offset, 0⟩)) fallback pairs
  | b => b

/-- Offsets of labels in code. -/
abbrev LabelOffsets := Std.HashMap Label Nat

/-- The offset of a label, which has to be placed in the code. -/
def LabelOffsets.offset (labels : LabelOffsets) (label : Label) : Except ClassError Nat :=
  match labels[label]? with
  | some offset => .ok offset
  | none => .error (.undefinedLabel label)

namespace LayoutElement

/-- Bytes that an element takes at an offset. -/
def width (offset : Nat) : LayoutElement → Nat
  | .label _ => 0
  | .instruction i => i.width
  | .branch b => (b.aligned offset).width

/-- Whether the element is a jump that can be replaced by a wide one. -/
def isShortJump : LayoutElement → Bool
  | .branch (.goto _) | .branch (.jsr _) => true
  | _ => false

/-- Replace a short jump that does not reach its target. -/
def widen (labels : LabelOffsets) (offset : Nat) : LayoutElement → Except ClassError LayoutElement
  | .branch (.goto label) => do
    let target ← labels.offset label
    return .branch (if fitsShort (target - offset) then .goto label else .gotoWide label)
  | .branch (.jsr label) => do
    let target ← labels.offset label
    return .branch (if fitsShort (target - offset) then .jsr label else .jsrWide label)
  | element => return element

/-- Bytes of an element at an offset. -/
def encode (labels : LabelOffsets) (offset : Nat) : LayoutElement → Except ClassError Bytes
  | .label _ => return []
  | .instruction i => return i.encode
  | .branch b => do
    let b ← (b.aligned offset).mapM near far
    return StoredBranch.encode b
where
  near (label : Label) : Except ClassError Int16 := do
    let distance : Int := (← labels.offset label) - offset
    if fitsShort distance then return Int16.ofInt distance
    else throw (.branchOverflow offset distance)
  far (label : Label) : Except ClassError Int32 := do
    return Int32.ofInt ((← labels.offset label) - offset)

end LayoutElement

/-- Elements with their offsets, from the given offset on. -/
def placeFrom : Nat → List LayoutElement → List (Nat × LayoutElement)
  | _, [] => []
  | offset, element :: elements =>
    (offset, element) :: placeFrom (offset + element.width offset) elements

/-- Offset after the last element, from the given offset on. -/
def endOffset : Nat → List LayoutElement → Nat
  | offset, [] => offset
  | offset, element :: elements => endOffset (offset + element.width offset) elements

/-- Offsets of the labels among placed elements. A label that is placed again moves there. -/
def labelOffsets (placed : List (Nat × LayoutElement)) : LabelOffsets :=
  placed.foldl
    (fun labels (offset, element) =>
      match element with
      | .label label => labels.insert label offset
      | _ => labels)
    ∅

/-- Replace the short jumps that do not reach their targets as things stand. -/
def widenOnce (elements : List LayoutElement) : Except ClassError (List LayoutElement) :=
  let placed := placeFrom 0 elements
  let labels := labelOffsets placed
  placed.mapM fun (offset, element) => element.widen labels offset

/-- Number of jumps that can still be replaced. -/
def shortJumps (elements : List LayoutElement) : Nat :=
  elements.countP LayoutElement.isShortJump

/-- Replace short jumps until those left reach their targets. -/
def widenAll (elements : List LayoutElement) : Except ClassError (List LayoutElement) := do
  let widened ← widenOnce elements
  if shortJumps widened < shortJumps elements then
    widenAll widened
  else
    return elements
termination_by shortJumps elements

/-- Code in binary form, and where its labels went. -/
structure AssembledCode where
  bytes : Bytes
  labels : LabelOffsets

/-- Lay out code and write it. -/
def assemble (elements : List LayoutElement) : Except ClassError AssembledCode := do
  let elements ← widenAll elements
  let length := endOffset 0 elements
  if maxCodeLength < length then
    throw (.codeOverflow length)
  let placed := placeFrom 0 elements
  let labels := labelOffsets placed
  let parts ← placed.mapM fun (offset, element) => element.encode labels offset
  return ⟨parts.flatten, labels⟩

end ClassPatch
