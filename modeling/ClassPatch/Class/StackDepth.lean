import ClassPatch.Class.Code
import Std.Data.HashMap

/-!
Computing how many slots the operand stack and the local variables of a method body need.

Depths of the stack are followed along the control flow, from the first element with an empty stack
and from each exception handler with the exception on it. Verified code has one depth at each
element, so an element is visited once.
-/

namespace ClassPatch

/-- Slots that an instruction takes from the operand stack and then puts on it. -/
structure StackEffect where
  pops : Nat
  pushes : Nat
  deriving DecidableEq, Repr

namespace StackEffect

/-- Depth after the effect. An effect that takes more than there is empties the stack first. -/
def apply (e : StackEffect) (depth : Nat) : Nat := depth - e.pops + e.pushes

end StackEffect

def PlainOp.stackEffect : PlainOp → StackEffect
  | .nop => ⟨0, 0⟩
  | .aconstNull | .iconstM1 | .iconst0 | .iconst1 | .iconst2 | .iconst3 | .iconst4 | .iconst5
  | .fconst0 | .fconst1 | .fconst2 => ⟨0, 1⟩
  | .lconst0 | .lconst1 | .dconst0 | .dconst1 => ⟨0, 2⟩
  | .iaLoad | .faLoad | .aaLoad | .baLoad | .caLoad | .saLoad | .iadd | .fadd | .isub | .fsub
  | .imul | .fmul | .idiv | .fdiv | .irem | .frem | .ishl | .ishr | .iushr | .iand | .ior
  | .ixor | .l2i | .l2f | .d2i | .d2f | .fcmpl | .fcmpg => ⟨2, 1⟩
  | .laLoad | .daLoad | .swap | .lneg | .dneg | .l2d | .d2l => ⟨2, 2⟩
  | .iaStore | .faStore | .aaStore | .baStore | .caStore | .saStore => ⟨3, 0⟩
  | .laStore | .daStore => ⟨4, 0⟩
  | .pop | .monitorEnter | .monitorExit => ⟨1, 0⟩
  | .pop2 => ⟨2, 0⟩
  | .dup | .i2l | .i2d | .f2l | .f2d => ⟨1, 2⟩
  | .dupX1 => ⟨2, 3⟩
  | .dupX2 => ⟨3, 4⟩
  | .dup2 => ⟨2, 4⟩
  | .dup2X1 => ⟨3, 5⟩
  | .dup2X2 => ⟨4, 6⟩
  | .ladd | .dadd | .lsub | .dsub | .lmul | .dmul | .ldiv | .ddiv | .lrem | .drem | .land
  | .lor | .lxor => ⟨4, 2⟩
  | .ineg | .fneg | .i2f | .f2i | .i2b | .i2c | .i2s | .arrayLength => ⟨1, 1⟩
  | .lshl | .lshr | .lushr => ⟨3, 2⟩
  | .lcmp | .dcmpl | .dcmpg => ⟨4, 1⟩

namespace SymbolicInstruction

def stackEffect : SymbolicInstruction → StackEffect
  | .plain op => op.stackEffect
  | .bipush _ | .sipush _ | .ldc _ => ⟨0, 1⟩
  | .ldc2 _ => ⟨0, 2⟩
  | .load kind _ => ⟨0, kind.width⟩
  | .store kind _ => ⟨kind.width, 0⟩
  | .iinc .. => ⟨0, 0⟩
  | .onField .getStatic f => ⟨0, f.descriptor.width⟩
  | .onField .putStatic f => ⟨f.descriptor.width, 0⟩
  | .onField .getField f => ⟨1, f.descriptor.width⟩
  | .onField .putField f => ⟨1 + f.descriptor.width, 0⟩
  | .invoke kind m => ⟨m.descriptor.parameterLength (kind ≠ .static), m.descriptor.returnWidth⟩
  | .invokeDynamic site => ⟨site.descriptor.parameterLength false, site.descriptor.returnWidth⟩
  | .onClass .new _ => ⟨0, 1⟩
  | .onClass .newArray _ | .onClass .checkCast _ | .onClass .instanceOf _
  | .newPrimitiveArray _ => ⟨1, 1⟩
  | .multiNewArray _ dimensions => ⟨dimensions.toNat, 1⟩

/-- Slots of local variables up to the last that the instruction uses. -/
def localExtent : SymbolicInstruction → Nat
  | .load kind slot | .store kind slot => slot.toNat + kind.width
  | .iinc slot _ => slot.toNat + 1
  | _ => 0

end SymbolicInstruction

namespace SymbolicBranch

/-- Slots that a branch takes from the operand stack. -/
def pops : SymbolicBranch → Nat
  | .goto _ | .gotoWide _ | .jsr _ | .jsrWide _ | .ret _ | .voidReturn => 0
  | .ifZero .. | .ifNull .. | .tableSwitch .. | .lookupSwitch .. | .athrow => 1
  | .ifInts .. | .ifRefs .. => 2
  | .valueReturn kind => kind.width

/-- Whether the branch leaves an address on the stack of its target. -/
def pushesAddress : SymbolicBranch → Bool
  | .jsr _ | .jsrWide _ => true
  | _ => false

/-- Depth at the targets of a branch, where `depth` is the one before it. -/
def targetDepth (b : SymbolicBranch) (depth : Nat) : Nat := depth - b.pops + b.pushesAddress.toNat

/-- Slots of local variables up to the last that the branch uses. -/
def localExtent : SymbolicBranch → Nat
  | .ret slot => slot.toNat + 1
  | _ => 0

end SymbolicBranch

/-- Most that a limit of a method body can be. -/
def maxLimit : Nat := 0xFFFF

/-- The number as a limit of a method body, which a number that is too large is cut to. -/
def toLimit (n : Nat) : UInt16 := UInt16.ofNat (min n maxLimit)

/-- Where the labels stand among the elements of a body. -/
abbrev LabelPositions := Std.HashMap Label Nat

namespace LabelPositions

/-- A label that stands in several places counts for the last. -/
def ofElements (elements : List BodyElement) : LabelPositions :=
  elements.zipIdx.foldl
    (fun positions (element, i) =>
      match element with
      | .label label => positions.insert label i
      | _ => positions)
    ∅

/-- Position of a label that has to stand in the body. -/
def position (positions : LabelPositions) (label : Label) : Except ClassError Nat :=
  match positions[label]? with
  | some i => .ok i
  | none => .error (.undefinedLabel label)

end LabelPositions

/-- A place where execution can go on, with the depth of the stack there. -/
structure StackPoint where
  position : Nat
  depth : Nat
  deriving DecidableEq, Repr

namespace BodyElement

/-- Where execution goes on after an element, the next element first and then the last target. -/
def exits (positions : LabelPositions) (here : StackPoint) :
    BodyElement → Except ClassError (List StackPoint)
  | .label _ => return [⟨here.position + 1, here.depth⟩]
  | .instruction i =>
    return [⟨here.position + 1, (SymbolicInstruction.stackEffect i).apply here.depth⟩]
  | .branch b => do
    let depth := SymbolicBranch.targetDepth b here.depth
    let targets ← b.targets.mapM fun label => return ⟨← positions.position label, depth⟩
    let next :=
      if b.fallsThrough then [⟨here.position + 1, here.depth - SymbolicBranch.pops b⟩] else []
    return next ++ targets.reverse

end BodyElement

/-- A walk over the elements of a body. -/
structure StackWalk where
  elements : Array BodyElement
  positions : LabelPositions

namespace StackWalk

theorem countTrue_set_lt (visited : Array Bool) (i : Nat) (h : i < visited.size)
    (fresh : visited[i] = false) :
    (visited.set i true h).count false < visited.count false := by
  have pos : 0 < visited.count false :=
    Array.count_pos_iff.2 (fresh ▸ Array.getElem_mem h)
  rw [Array.count_set, fresh]
  exact Nat.sub_lt pos Nat.one_pos

/--
Highest depth from the points that are left, where `highest` is the highest so far. Each step visits
an element for the first time or drops a point.
-/
def go (w : StackWalk) (visited : Array Bool) (highest : Nat) :
    List StackPoint → Except ClassError Nat
  | [] => return highest
  | point :: points =>
    let highest := max highest point.depth
    if h : point.position < visited.size ∧ visited[point.position]! = false then do
      match w.elements[point.position]? with
      | none => go w visited highest points
      | some element =>
        let exits ← BodyElement.exits w.positions point element
        go w (visited.set point.position true h.1) highest (exits ++ points)
    else
      go w visited highest points
termination_by points => (visited.count false, points.length)
decreasing_by
  · simp_wf
    right
    omega
  · simp_wf
    left
    apply countTrue_set_lt
    have := h.2
    rwa [getElem!_pos visited point.position h.1] at this
  · simp_wf
    right
    omega

end StackWalk

namespace Code

/-- Slots that the operand stack needs. -/
def stackLimit (elements : List BodyElement) (handlers : List ExceptionHandler) :
    Except ClassError UInt16 := do
  let positions := LabelPositions.ofElements elements
  let entries ← handlers.mapM fun h => return ⟨← positions.position h.handler, 1⟩
  let walk : StackWalk := ⟨elements.toArray, positions⟩
  let visited := Array.replicate elements.length false
  return toLimit (← walk.go visited 0 (entries.reverse ++ [⟨0, 0⟩]))

/-- Slots of local variables up to the last that an element uses. -/
def elementExtent : BodyElement → Nat
  | .label _ => 0
  | .instruction i => SymbolicInstruction.localExtent i
  | .branch b => SymbolicBranch.localExtent b

/-- Slots that the parameters and the local variables of a method need. -/
def localLimit (elements : List BodyElement) (descriptor : MethodDescriptor) (isStatic : Bool) :
    UInt16 :=
  toLimit ((elements.map elementExtent).foldl max (descriptor.parameterLength !isStatic))

end Code

end ClassPatch
