import ClassPatch.Proofs.StackDepth.Walk
import Mathlib.Data.List.Infix

/-!
Execution of bodies with the kinds of values only, in the local variables and on the operand stack.
It covers what only moves values: loads, calls of static methods, and returns. The depths that are
computed for a body are the widths of the stacks that occur in its execution.
-/

namespace ClassPatch

/-- What a slot of the local variables holds. -/
inductive LocalSlot where
  | value (kind : ValueKind)
  /-- The second slot of the value in front of it. -/
  | upperHalf
  deriving DecidableEq, Repr

/-- The slots that a value takes. -/
def ValueKind.slots : ValueKind → List LocalSlot
  | .long => [.value .long, .upperHalf]
  | .double => [.value .double, .upperHalf]
  | kind => [.value kind]

/-- How values of the type are held. Whatever is smaller than an `int` is held as one. -/
def FieldType.category : FieldType → ValueKind
  | .base .boolean | .base .byte | .base .char | .base .short | .base .int => .int
  | .base .long => .long
  | .base .float => .float
  | .base .double => .double
  | .ref _ => .reference

namespace MethodDescriptor

def parameterKinds (d : MethodDescriptor) : List ValueKind := d.parameters.map FieldType.category

/-- The result, as it is on the stack: nothing for a method without result. -/
def resultKinds (d : MethodDescriptor) : List ValueKind :=
  (d.returnType.map FieldType.category).toList

/-- The local variables with which a static method starts. -/
def parameterSlots (d : MethodDescriptor) : List LocalSlot :=
  d.parameterKinds.flatMap ValueKind.slots

end MethodDescriptor

/-- An operand stack. The top is last. -/
abbrev KindStack := List ValueKind

namespace KindStack

def width (stack : KindStack) : Nat := (stack.map ValueKind.width).sum

theorem width_append (stack stack' : KindStack) :
    width (stack ++ stack') = width stack + width stack' := by
  rw [width, List.map_append, List.sum_append]
  rfl

/-- Take values off the stack, the last of them from the top. -/
def pop (stack : KindStack) (kinds : List ValueKind) : Option KindStack :=
  if kinds <:+ stack then some (stack.take (stack.length - kinds.length)) else none

theorem pop_append (stack : KindStack) (kinds : List ValueKind) :
    pop (stack ++ kinds) kinds = some stack := by
  rw [pop, if_pos (List.suffix_append _ _), List.length_append, Nat.add_sub_cancel,
    List.take_left]

theorem eq_append_of_pop {stack rest : KindStack} {kinds : List ValueKind}
    (h : stack.pop kinds = some rest) : stack = rest ++ kinds := by
  unfold pop at h
  split at h
  next hsuffix =>
    obtain ⟨below, rfl⟩ := hsuffix
    have hpop := pop_append below kinds
    rw [pop, if_pos (List.suffix_append _ _)] at hpop
    cases h.symm.trans hpop
    rfl
  next => cases h

end KindStack

/--
The stack after an element, if what it takes is on the stack or in its slots. After a return it is
what was left there.
-/
def BodyElement.execute (locals : List LocalSlot) (stack : KindStack) :
    BodyElement → Option KindStack
  | .instruction (.load kind slot) =>
    if kind.slots <+: locals.drop slot.toNat then some (stack ++ [kind]) else none
  | .instruction (.invoke .static m) =>
    (stack.pop m.descriptor.parameterKinds).map (· ++ m.descriptor.resultKinds)
  | .branch (.valueReturn kind) => stack.pop [kind]
  | .branch .voidReturn => some stack
  | _ => none

/-- The stacks before the elements, and the one after the last. -/
def stacksAlong (locals : List LocalSlot) (stack : KindStack) :
    List BodyElement → Option (List KindStack)
  | [] => some [stack]
  | e :: es => do
    let next ← BodyElement.execute locals stack e
    return stack :: (← stacksAlong locals next es)

section Widths

theorem FieldType.kind_eq_category (t : FieldType) : t.kind = t.category := by
  cases t with
  | base t => cases t <;> rfl
  | ref t => rfl

theorem FieldType.width_category (t : FieldType) : t.category.width = t.width := by
  cases t with
  | base t => cases t <;> rfl
  | ref t => rfl

theorem ValueKind.length_slots (kind : ValueKind) : kind.slots.length = kind.width := by
  cases kind <;> rfl

/-- Slots that values of the types take together. -/
def FieldType.totalWidth (ts : List FieldType) : Nat := (ts.map FieldType.width).sum

theorem FieldType.totalWidth_cons (t : FieldType) (ts : List FieldType) :
    totalWidth (t :: ts) = t.width + totalWidth ts := by
  rw [totalWidth, List.map_cons, List.sum_cons]
  rfl

theorem FieldType.width_map_category (ts : List FieldType) :
    KindStack.width (ts.map FieldType.category) = totalWidth ts := by
  rw [KindStack.width, List.map_map]
  exact congrArg List.sum (List.map_congr_left fun t _ => t.width_category)

namespace MethodDescriptor

variable (d : MethodDescriptor)

theorem parameterLength_eq_totalWidth :
    d.parameterLength false = FieldType.totalWidth d.parameters := by
  rw [FieldType.totalWidth, List.sum_eq_foldr, List.foldr_map]
  exact Nat.zero_add _

theorem width_parameterKinds :
    KindStack.width d.parameterKinds = d.parameterLength false := by
  rw [parameterLength_eq_totalWidth]
  exact FieldType.width_map_category d.parameters

theorem width_resultKinds : KindStack.width d.resultKinds = d.returnWidth := by
  unfold resultKinds returnWidth
  cases d.returnType with
  | none => rfl
  | some t => exact (Nat.add_zero _).trans t.width_category

end MethodDescriptor

end Widths

section Steps

variable {locals : List LocalSlot} {stack stack' : KindStack} {e : BodyElement}

theorem nextEffect_of_execute (h : BodyElement.execute locals stack e = some stack') :
    (BodyElement.nextEffect e).pops ≤ stack.width
      ∧ stack'.width = (BodyElement.nextEffect e).apply stack.width := by
  unfold BodyElement.execute at h
  split at h
  next kind slot =>
    split at h
    next =>
      cases h
      refine ⟨Nat.zero_le _, ?_⟩
      rw [KindStack.width_append]
      rfl
    next => cases h
  next m =>
    obtain ⟨rest, hrest, rfl⟩ := Option.map_eq_some_iff.1 h
    obtain rfl := KindStack.eq_append_of_pop hrest
    have hpops : (BodyElement.nextEffect (.instruction (.invoke .static m))).pops
        = KindStack.width m.descriptor.parameterKinds := m.descriptor.width_parameterKinds.symm
    have hpushes : (BodyElement.nextEffect (.instruction (.invoke .static m))).pushes
        = KindStack.width m.descriptor.resultKinds := m.descriptor.width_resultKinds.symm
    rw [StackEffect.apply, hpops, hpushes, KindStack.width_append, KindStack.width_append]
    omega
  next kind =>
    obtain rfl := KindStack.eq_append_of_pop h
    have hpops : (BodyElement.nextEffect (.branch (.valueReturn kind))).pops
        = KindStack.width [kind] := rfl
    have hpushes : (BodyElement.nextEffect (.branch (.valueReturn kind))).pushes = 0 := rfl
    rw [StackEffect.apply, hpops, hpushes, KindStack.width_append]
    omega
  next =>
    cases h
    exact ⟨Nat.zero_le _, rfl⟩
  next => cases h

theorem nextEffect_eq_of_execute (h : BodyElement.execute locals stack e = some stack') :
    BodyElement.nextEffect e = BodyElement.stackEffect e := by
  unfold BodyElement.execute at h
  split at h <;> first | rfl | cases h

theorem references_of_execute (h : BodyElement.execute locals stack e = some stack') :
    BodyElement.references e = [] := by
  unfold BodyElement.execute at h
  split at h <;> first | rfl | cases h

end Steps

section Runs

open StackFlow

variable {locals : List LocalSlot} {stack : KindStack} {shapes : List KindStack}
  {elements : List BodyElement} {i : Nat} {e : BodyElement}

theorem stacksAlong_cons_eq_some :
    stacksAlong locals stack (e :: elements) = some shapes
      ↔ ∃ next rest, BodyElement.execute locals stack e = some next
        ∧ stacksAlong locals next elements = some rest ∧ shapes = stack :: rest := by
  simp only [stacksAlong, bind, Option.bind_eq_some_iff, pure, Option.some.injEq]
  constructor
  · rintro ⟨next, hnext, rest, hrest, rfl⟩
    exact ⟨next, rest, hnext, hrest, rfl⟩
  · rintro ⟨next, rest, hnext, hrest, rfl⟩
    exact ⟨next, hnext, rest, hrest, rfl⟩

theorem getElem?_zero_of_stacksAlong (h : stacksAlong locals stack elements = some shapes) :
    shapes[0]? = some stack := by
  cases elements with
  | nil =>
    cases h
    rfl
  | cons e elements =>
    obtain ⟨next, rest, -, -, rfl⟩ := stacksAlong_cons_eq_some.1 h
    rfl

theorem length_of_stacksAlong (h : stacksAlong locals stack elements = some shapes) :
    shapes.length = elements.length + 1 := by
  induction elements generalizing stack shapes with
  | nil =>
    cases h
    rfl
  | cons e elements ih =>
    obtain ⟨next, rest, -, hrest, rfl⟩ := stacksAlong_cons_eq_some.1 h
    rw [List.length_cons, List.length_cons, ih hrest]

theorem execute_of_stacksAlong (h : stacksAlong locals stack elements = some shapes)
    (he : elements[i]? = some e) :
    ∃ before after, shapes[i]? = some before ∧ shapes[i + 1]? = some after
      ∧ BodyElement.execute locals before e = some after := by
  induction elements generalizing stack shapes i with
  | nil => cases he
  | cons e' elements ih =>
    obtain ⟨next, rest, hnext, hrest, rfl⟩ := stacksAlong_cons_eq_some.1 h
    cases i with
    | zero =>
      cases he
      exact ⟨stack, next, rfl, getElem?_zero_of_stacksAlong hrest, hnext⟩
    | succ i =>
      obtain ⟨before, after, hbefore, hafter, hexecute⟩ := ih (i := i) hrest he
      exact ⟨before, after, hbefore, hafter, hexecute⟩

/-- Width of the stack that stands somewhere among others. -/
def widthAt (shapes : List KindStack) (i : Nat) : Nat := (shapes[i]?.getD []).width

theorem widthAt_eq {i : Nat} (h : shapes[i]? = some stack) : widthAt shapes i = stack.width := by
  rw [widthAt, h]
  rfl

theorem references_of_stacksAlong (h : stacksAlong locals stack elements = some shapes)
    (he : elements[i]? = some e) : BodyElement.references e = [] := by
  obtain ⟨before, after, -, -, hexecute⟩ := execute_of_stacksAlong h he
  exact references_of_execute hexecute

theorem count_label_of_stacksAlong (h : stacksAlong locals stack elements = some shapes)
    (label : Label) : elements.count (.label label) = 0 := by
  refine List.count_eq_zero.2 fun hmem => ?_
  obtain ⟨i, hi⟩ := List.mem_iff_getElem?.1 hmem
  obtain ⟨before, after, -, -, hexecute⟩ := execute_of_stacksAlong h hi
  cases hexecute

theorem handlers_eq_nil_of_stacksAlong (h : stacksAlong locals stack elements = some shapes)
    {handlers : List ExceptionHandler} {limit : UInt16}
    (hlimit : Code.stackLimit elements handlers = .ok limit) : handlers = [] := by
  cases handlers with
  | nil => rfl
  | cons handler handlers =>
    unfold Code.stackLimit at hlimit
    obtain ⟨entries, hentries, -⟩ := bind_eq_ok.1 hlimit
    obtain ⟨p, -, hp⟩ := exists_of_mem_left (mapM_eq_ok.1 hentries) List.mem_cons_self
    cases (pointAt_of_count_eq_zero (count_label_of_stacksAlong h handler.handler) 1).symm.trans hp

theorem labelsPlaced_of_stacksAlong (h : stacksAlong locals stack elements = some shapes) :
    LabelsPlaced elements [] where
  targets e he label hlabel := by
    obtain ⟨i, hi⟩ := List.mem_iff_getElem?.1 he
    rw [references_of_stacksAlong h hi] at hlabel
    cases hlabel
  handlers _ hmem := absurd hmem List.not_mem_nil

theorem widthAt_step (h : stacksAlong locals stack elements = some shapes)
    (he : elements[i]? = some e) :
    (BodyElement.nextEffect e).pops ≤ widthAt shapes i
      ∧ widthAt shapes (i + 1) = (BodyElement.nextEffect e).apply (widthAt shapes i) := by
  obtain ⟨before, after, hbefore, hafter, hexecute⟩ := execute_of_stacksAlong h he
  rw [widthAt_eq hbefore, widthAt_eq hafter]
  exact nextEffect_of_execute hexecute

theorem depthsAgree_of_stacksAlong (h : stacksAlong locals [] elements = some shapes) :
    DepthsAgree elements [] (widthAt shapes) := by
  refine .of_forall (labelsPlaced_of_stacksAlong h) ?_
    (fun _ hmem => absurd hmem List.not_mem_nil) ?_ ?_
  · rw [widthAt_eq (getElem?_zero_of_stacksAlong h)]
    rfl
  · exact fun i _ e he _ => widthAt_step h he
  · intro i _ e he label hlabel
    rw [references_of_stacksAlong h he] at hlabel
    cases hlabel

theorem reachable_of_fallsThrough (hfalls : ∀ e ∈ elements.take i, BodyElement.fallsThrough e)
    (hi : i ≤ elements.length) : Reachable elements [] i := by
  induction i with
  | zero => exact .entry .start
  | succ i ih =>
    have hsub : ∀ e ∈ elements.take i, e ∈ elements.take (i + 1) :=
      fun e he => (List.take_subset_take_left elements (Nat.le_succ i)) he
    have hlt : i < elements.length := hi
    refine (ih (fun e he => hfalls e (hsub e he)) (Nat.le_of_lt hlt)).edge
      (.next (List.getElem?_eq_getElem hlt) (hfalls _ ?_))
    exact List.mem_take_iff_getElem.2 ⟨i, by omega, rfl⟩

/-- The depths of a body that only its last element may leave are the widths of its stacks. -/
theorem occurs_iff_of_stacksAlong (h : stacksAlong locals [] elements = some shapes)
    (hfalls : ∀ e ∈ elements.dropLast, BodyElement.fallsThrough e) (d : Nat) :
    Occurs elements [] (widthAt shapes) d ↔ ∃ stack ∈ shapes, stack.width = d := by
  have hlength := length_of_stacksAlong h
  constructor
  · rintro (_ | ⟨-, he⟩ | ⟨-, he⟩)
    · exact ⟨[], List.mem_of_getElem? (getElem?_zero_of_stacksAlong h), rfl⟩
    · obtain ⟨before, -, hbefore, -, -⟩ := execute_of_stacksAlong h he
      exact ⟨before, List.mem_of_getElem? hbefore, (widthAt_eq hbefore).symm⟩
    · obtain ⟨before, after, -, hafter, hexecute⟩ := execute_of_stacksAlong h he
      refine ⟨after, List.mem_of_getElem? hafter, ?_⟩
      rw [← nextEffect_eq_of_execute hexecute, ← (widthAt_step h he).2, widthAt_eq hafter]
  · rintro ⟨stack, hmem, rfl⟩
    obtain ⟨i, hi⟩ := List.mem_iff_getElem?.1 hmem
    have hlt := (List.getElem?_eq_some_iff.1 hi).1
    have hreachable {j : Nat} (hj : j < elements.length) : Reachable elements [] j := by
      refine reachable_of_fallsThrough (fun e he => hfalls e ?_) (Nat.le_of_lt hj)
      rw [List.dropLast_eq_take]
      exact List.take_subset_take_left elements (by omega) he
    rw [← widthAt_eq hi]
    cases i with
    | zero =>
      rw [widthAt_eq (getElem?_zero_of_stacksAlong h)]
      exact .start
    | succ i =>
      have he := List.getElem?_eq_getElem (show i < elements.length by omega)
      obtain ⟨before, after, -, -, hexecute⟩ := execute_of_stacksAlong h he
      rw [(widthAt_step h he).2, nextEffect_eq_of_execute hexecute]
      exact .after (hreachable (by omega)) he

theorem stackLimit_of_stacksAlong (h : stacksAlong locals [] elements = some shapes)
    (hfalls : ∀ e ∈ elements.dropLast, BodyElement.fallsThrough e) {widest : KindStack}
    (hmem : widest ∈ shapes) (hwidest : ∀ stack ∈ shapes, stack.width ≤ widest.width) :
    Code.stackLimit elements [] = .ok (toLimit widest.width) := by
  obtain ⟨highest, hhighest, hlimit⟩ :=
    exists_stackLimit (labelsPlaced_of_stacksAlong h) (depthsAgree_of_stacksAlong h)
  have hgreatest : IsGreatest {d | Occurs elements [] (widthAt shapes) d} widest.width := by
    refine ⟨(occurs_iff_of_stacksAlong h hfalls _).2 ⟨widest, hmem, rfl⟩, fun d hd => ?_⟩
    obtain ⟨stack, hstack, rfl⟩ := (occurs_iff_of_stacksAlong h hfalls d).1 hd
    exact hwidest stack hstack
  rw [hgreatest.unique hhighest]
  exact hlimit

end Runs

end ClassPatch
