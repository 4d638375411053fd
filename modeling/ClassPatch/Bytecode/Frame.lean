import ClassPatch.Descriptor.Basic
import ClassPatch.Error.Basic

/-!
Stack map frames: the types of the local variables and of the operand stack at a point of the code.
A class file holds a frame as an entry that says how it differs from the frame before it; `apply`
goes from the entry to the frame, and `compress` finds the most compact entry.
-/

namespace ClassPatch

/-- Types of values as the verifier sees them. -/
inductive VerificationType (Cls Site : Type) where
  /-- Cannot be used. -/
  | top
  | int | float | double | long
  | null
  /-- The receiver of a constructor before the constructor of its superclass was called. -/
  | uninitializedThis
  | object (cls : Cls)
  /-- An object made by the instruction at the site, before its constructor was called. -/
  | uninitialized (site : Site)
  deriving DecidableEq, Repr

namespace VerificationType

variable {m : Type → Type} [Monad m] {C S C' S' : Type}

def isReference : VerificationType C S → Bool
  | .null | .uninitializedThis | .object _ | .uninitialized _ => true
  | _ => false

/-- Slots that a value takes. -/
def width : VerificationType C S → Nat
  | .double | .long => 2
  | _ => 1

/-- Convert the class or the site. -/
def mapM (cls : C → m C') (site : S → m S') :
    VerificationType C S → m (VerificationType C' S')
  | .top => return .top
  | .int => return .int
  | .float => return .float
  | .double => return .double
  | .long => return .long
  | .null => return .null
  | .uninitializedThis => return .uninitializedThis
  | .object c => return .object (← cls c)
  | .uninitialized s => return .uninitialized (← site s)

/-- The type of the values of a field type. -/
def ofFieldType : FieldType → VerificationType RefType S
  | .base .float => .float
  | .base .long => .long
  | .base .double => .double
  | .base _ => .int
  | .ref t => .object t

end VerificationType

/-- Types of the local variables and of the operand stack. -/
structure Frame (Cls Site : Type) where
  locals : List (VerificationType Cls Site)
  stack : List (VerificationType Cls Site)
  deriving DecidableEq, Repr

/-- How a frame differs from the one before it. -/
inductive FrameChange (Cls Site : Type) where
  | same
  /-- The locals are the same, and there is one value on the stack. -/
  | sameWithStack (stack : VerificationType Cls Site)
  /-- The last locals are gone. -/
  | chop (count : UInt8)
  /-- There are further locals. -/
  | append (locals : List (VerificationType Cls Site))
  | full (locals stack : List (VerificationType Cls Site))
  deriving DecidableEq, Repr

/-- A change, and how far it stands behind the frame before it. -/
structure FrameEntry (Cls Site : Type) where
  offsetDelta : UInt16
  change : FrameChange Cls Site
  deriving DecidableEq, Repr

namespace FrameChange

variable {m : Type → Type} [Monad m] {C S C' S' : Type}

/-- Convert the classes and sites. -/
def mapM (cls : C → m C') (site : S → m S') : FrameChange C S → m (FrameChange C' S')
  | .same => return .same
  | .sameWithStack t => return .sameWithStack (← t.mapM cls site)
  | .chop count => return .chop count
  | .append locals => return .append (← locals.mapM (·.mapM cls site))
  | .full locals stack => do
    let locals ← locals.mapM (·.mapM cls site)
    return .full locals (← stack.mapM (·.mapM cls site))

end FrameChange

namespace Frame

variable {m : Type → Type} [Monad m] {C S C' S' : Type}

/-- Convert the classes and sites. -/
def mapM (cls : C → m C') (site : S → m S') (f : Frame C S) : m (Frame C' S') := do
  let locals ← f.locals.mapM (·.mapM cls site)
  return { locals, stack := ← f.stack.mapM (·.mapM cls site) }

/-- The frame that a change leads to. -/
def apply (f : Frame C S) : FrameChange C S → Except ClassError (Frame C S)
  | .same => .ok ⟨f.locals, []⟩
  | .sameWithStack t => .ok ⟨f.locals, [t]⟩
  | .chop count =>
    if f.locals.length < count.toNat then
      .error (.malformedAttribute "StackMapTable" (.tooFewLocals count.toNat f.locals.length))
    else
      .ok ⟨f.locals.take (f.locals.length - count.toNat), []⟩
  | .append locals => .ok ⟨f.locals ++ locals, []⟩
  | .full locals stack => .ok ⟨locals, stack⟩

/-- The most compact change that leads from the previous frame to this one. -/
def compress [DecidableEq C] [DecidableEq S] (f previous : Frame C S) : FrameChange C S :=
  let dropped := previous.locals.length - f.locals.length
  let added := f.locals.length - previous.locals.length
  match f.stack with
  | [] =>
    if f.locals = previous.locals then
      .same
    else if 0 < dropped ∧ dropped ≤ 3 ∧ f.locals <+: previous.locals then
      .chop (UInt8.ofNat dropped)
    else if 0 < added ∧ added ≤ 3 ∧ previous.locals <+: f.locals then
      .append (f.locals.drop previous.locals.length)
    else
      .full f.locals []
  | [t] => if f.locals = previous.locals then .sameWithStack t else .full f.locals [t]
  | stack => .full f.locals stack

end Frame

end ClassPatch
