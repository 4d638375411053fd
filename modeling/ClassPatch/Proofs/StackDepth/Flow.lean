import ClassPatch.Class.StackDepth
import ClassPatch.Proofs.Class.Labels
import ClassPatch.Proofs.Run
import Mathlib.Order.Bounds.Basic

/-!
The control flow of a body, and the depths of the operand stack along it. Positions are those of the
elements, and the one behind the last element.
-/

namespace ClassPatch

namespace BodyElement

/-- What the element does to the stack on the way to its targets, or else to the next element. -/
def stackEffect : BodyElement → StackEffect
  | .label _ => ⟨0, 0⟩
  | .instruction i => SymbolicInstruction.stackEffect i
  | .branch b => ⟨SymbolicBranch.pops b, (SymbolicBranch.pushesAddress b).toNat⟩

/-- What the element does to the stack on the way to the next element: no address is left there. -/
def nextEffect : BodyElement → StackEffect
  | .branch b => ⟨SymbolicBranch.pops b, 0⟩
  | e => stackEffect e

/-- Whether execution can continue with the next element. -/
def fallsThrough : BodyElement → Bool
  | .branch b => b.fallsThrough
  | _ => true

end BodyElement

namespace StackFlow

/-- Ways from one position to another, with what happens to the stack on the way. -/
inductive Edge (elements : List BodyElement) : Nat → StackEffect → Nat → Prop where
  | next {i : Nat} {e : BodyElement} (he : elements[i]? = some e)
    (hfalls : BodyElement.fallsThrough e = true) :
    Edge elements i (BodyElement.nextEffect e) (i + 1)
  | jump {i j : Nat} {e : BodyElement} {label : Label} (he : elements[i]? = some e)
    (hlabel : label ∈ BodyElement.references e) (hj : elements[j]? = some (.label label)) :
    Edge elements i (BodyElement.stackEffect e) j

/-- Where execution starts: in front, and at each handler with what it caught. -/
inductive Entry (elements : List BodyElement) (handlers : List ExceptionHandler) :
    StackPoint → Prop where
  | start : Entry elements handlers ⟨0, 0⟩
  | handler {h : ExceptionHandler} {i : Nat} (hmem : h ∈ handlers)
    (hi : elements[i]? = some (.label h.handler)) : Entry elements handlers ⟨i, 1⟩

/-- Positions that execution can come to. -/
inductive Reachable (elements : List BodyElement) (handlers : List ExceptionHandler) :
    Nat → Prop where
  | entry {p : StackPoint} (h : Entry elements handlers p) :
    Reachable elements handlers p.position
  | edge {i j : Nat} {effect : StackEffect} (hi : Reachable elements handlers i)
    (hedge : Edge elements i effect j) : Reachable elements handlers j

/--
The depths of the stack are as the entries have it, and change along each way as its effect has it,
which never takes more than there is.
-/
structure DepthsAgree (elements : List BodyElement) (handlers : List ExceptionHandler)
    (depth : Nat → Nat) : Prop where
  entry : ∀ p, Entry elements handlers p → depth p.position = p.depth
  edge : ∀ i effect j, Reachable elements handlers i → Edge elements i effect j →
    effect.pops ≤ depth i ∧ depth j = effect.apply (depth i)

/-- Depths before and after the elements that execution can come to. It starts at depth 0. -/
inductive Occurs (elements : List BodyElement) (handlers : List ExceptionHandler)
    (depth : Nat → Nat) : Nat → Prop where
  | start : Occurs elements handlers depth 0
  | before {i : Nat} {e : BodyElement} (hi : Reachable elements handlers i)
    (he : elements[i]? = some e) : Occurs elements handlers depth (depth i)
  | after {i : Nat} {e : BodyElement} (hi : Reachable elements handlers i)
    (he : elements[i]? = some e) :
    Occurs elements handlers depth ((BodyElement.stackEffect e).apply (depth i))

/-- Each label that a jump or a handler uses stands in one place. -/
structure LabelsPlaced (elements : List BodyElement) (handlers : List ExceptionHandler) :
    Prop where
  targets : ∀ e ∈ elements, ∀ label ∈ BodyElement.references e,
    elements.count (.label label) = 1
  handlers : ∀ h ∈ handlers, elements.count (.label h.handler) = 1

variable {elements : List BodyElement} {handlers : List ExceptionHandler} {depth : Nat → Nat}
  {i j : Nat} {effect : StackEffect} {e : BodyElement} {label : Label}

section Edges

theorem Edge.exists_element (h : Edge elements i effect j) : ∃ e, elements[i]? = some e := by
  cases h with
  | next he _ => exact ⟨_, he⟩
  | jump he _ _ => exact ⟨_, he⟩

theorem apply_le_of_references_eq_nil (b : SymbolicBranch) (h : b.targets = []) (d : Nat) :
    (BodyElement.stackEffect (.branch b)).apply d ≤ d := by
  have haddress : SymbolicBranch.pushesAddress b = false := by
    cases b with
    | jsr t => cases h
    | jsrWide t => cases h
    | _ => rfl
  simp only [BodyElement.stackEffect, haddress, StackEffect.apply, Bool.toNat_false]
  omega

theorem nextEffect_cases (e : BodyElement) :
    BodyElement.nextEffect e = BodyElement.stackEffect e
      ∨ BodyElement.nextEffect e = ⟨0, 0⟩ := by
  cases e with
  | label label => exact .inl rfl
  | instruction i => exact .inl rfl
  | branch b =>
    cases b with
    | jsr t => exact .inr rfl
    | jsrWide t => exact .inr rfl
    | _ => exact .inl rfl

theorem Edge.getElem?_of_eq_length (h : Edge elements i effect elements.length) :
    ∃ e, elements[i]? = some e ∧ effect = BodyElement.nextEffect e := by
  generalize hlength : elements.length = n at h
  cases h with
  | next he hfalls => exact ⟨_, he, rfl⟩
  | jump he hlabel hj =>
    rw [← hlength, List.getElem?_eq_none (Nat.le_refl _)] at hj
    cases hj

end Edges

section Depths

theorem le_length_of_reachable (h : Reachable elements handlers i) : i ≤ elements.length := by
  cases h with
  | entry h =>
    cases h with
    | start => exact Nat.zero_le _
    | handler hmem hi => exact Nat.le_of_lt (List.getElem?_eq_some_iff.1 hi).1
  | edge _ hedge =>
    cases hedge with
    | next he hfalls => exact (List.getElem?_eq_some_iff.1 he).1
    | jump he hlabel hj => exact Nat.le_of_lt (List.getElem?_eq_some_iff.1 hj).1

theorem DepthsAgree.occurs (h : DepthsAgree elements handlers depth)
    (hi : Reachable elements handlers i) : Occurs elements handlers depth (depth i) := by
  rcases Nat.lt_or_eq_of_le (le_length_of_reachable hi) with hlt | rfl
  · exact .before hi (List.getElem?_eq_getElem hlt)
  -- No element stands at the end, so the depth there is one after or before the element that
  -- leads to it.
  generalize hlength : elements.length = n at hi
  cases hi with
  | entry hentry =>
    rw [h.entry _ hentry]
    cases hentry with
    | start => exact .start
    | handler hmem hn =>
      have hlt := (List.getElem?_eq_some_iff.1 hn).1
      exact absurd hlength (Nat.ne_of_gt hlt)
  | @edge k _ effect hk hedge =>
    obtain ⟨-, hdepth⟩ := h.edge k effect n hk hedge
    rw [← hlength] at hedge
    obtain ⟨e, he, rfl⟩ := hedge.getElem?_of_eq_length
    rw [hdepth]
    rcases nextEffect_cases e with heffect | heffect
    · rw [heffect]
      exact .after hk he
    · rw [heffect]
      exact .before hk he

theorem exists_getElem?_of_count (h : elements.count (.label label) = 1) :
    ∃ j : Nat, elements[j]? = some (.label label) := by
  have hmem : CodeElement.label label ∈ elements := List.count_pos_iff.1 (by omega)
  exact List.mem_iff_getElem?.1 hmem

theorem DepthsAgree.apply_cases (h : DepthsAgree elements handlers depth)
    (hplaced : LabelsPlaced elements handlers) (hi : Reachable elements handlers i)
    (he : elements[i]? = some e) :
    (BodyElement.stackEffect e).apply (depth i) ≤ depth i
      ∨ ∃ j, Reachable elements handlers j
        ∧ depth j = (BodyElement.stackEffect e).apply (depth i) := by
  have hnext (hfalls : BodyElement.fallsThrough e = true)
      (heffect : BodyElement.nextEffect e = BodyElement.stackEffect e) :
      ∃ j, Reachable elements handlers j
        ∧ depth j = (BodyElement.stackEffect e).apply (depth i) := by
    have hedge := Edge.next he hfalls
    rw [heffect] at hedge
    exact ⟨i + 1, hi.edge hedge, (h.edge _ _ _ hi hedge).2⟩
  cases e with
  | label label => exact .inr (hnext rfl rfl)
  | instruction x => exact .inr (hnext rfl rfl)
  | branch b =>
    -- With an address the depth is only reached at a target, and there is one.
    cases htargets : b.targets with
    | nil => exact .inl (apply_le_of_references_eq_nil b htargets _)
    | cons label labels =>
      have hlabel : label ∈ BodyElement.references (.branch b) := by
        change label ∈ b.targets
        rw [htargets]
        exact List.mem_cons_self
      obtain ⟨j, hj⟩ := exists_getElem?_of_count
        (hplaced.targets _ (List.mem_of_getElem? he) label hlabel)
      have hedge := Edge.jump he hlabel hj
      exact .inr ⟨j, hi.edge hedge, (h.edge _ _ _ hi hedge).2⟩

end Depths

section Positions

variable {positions : LabelPositions} {n : Nat}

/-- Note where the labels of further elements stand. -/
def notePositions (positions : LabelPositions) (elements : List (BodyElement × Nat)) :
    LabelPositions :=
  elements.foldl
    (fun positions (element, i) =>
      match element with
      | .label label => positions.insert label i
      | _ => positions)
    positions

theorem getElem?_notePositions_of_count_eq_zero (h : elements.count (.label label) = 0) :
    (notePositions positions (elements.zipIdx n))[label]? = positions[label]? := by
  induction elements generalizing positions n with
  | nil => rfl
  | cons e elements ih =>
    rw [List.zipIdx_cons, notePositions, List.foldl_cons, ← notePositions]
    have hne : e ≠ .label label := by
      rintro rfl
      rw [List.count_cons_self] at h
      omega
    rw [List.count_cons_of_ne hne] at h
    rw [ih h]
    cases e with
    | label label' =>
      refine Std.HashMap.getElem?_insert.trans (if_neg fun heq => hne ?_)
      rw [eq_of_beq heq]
    | _ => rfl

theorem getElem?_notePositions (h : elements.count (.label label) = 1)
    (hj : elements[j]? = some (.label label)) :
    (notePositions positions (elements.zipIdx n))[label]? = some (n + j) := by
  induction elements generalizing positions n j with
  | nil => cases hj
  | cons e elements ih =>
    rw [List.zipIdx_cons, notePositions, List.foldl_cons, ← notePositions]
    by_cases heq : e = .label label
    · rw [heq] at h ⊢
      have hzero : elements.count (.label label) = 0 := by
        rw [List.count_cons_self] at h
        omega
      cases j with
      | zero =>
        rw [getElem?_notePositions_of_count_eq_zero hzero]
        exact Std.HashMap.getElem?_insert_self
      | succ j =>
        have hmem := List.mem_of_getElem? (List.getElem?_cons_succ.symm.trans hj)
        exact absurd hmem (List.count_eq_zero.1 hzero)
    · cases j with
      | zero => exact absurd (Option.some.inj hj) heq
      | succ j =>
        rw [List.count_cons_of_ne heq] at h
        rw [List.getElem?_cons_succ] at hj
        rw [ih h hj]
        exact congrArg some (by omega)

theorem position_eq (h : elements.count (.label label) = 1)
    (hj : elements[j]? = some (.label label)) :
    (LabelPositions.ofElements elements).position label = .ok j := by
  have hfound : (LabelPositions.ofElements elements)[label]? = some (0 + j) :=
    getElem?_notePositions h hj
  rw [Nat.zero_add] at hfound
  unfold LabelPositions.position
  rw [hfound]

theorem eq_of_position (h : elements.count (.label label) = 1)
    (hj : (LabelPositions.ofElements elements).position label = .ok j) :
    elements[j]? = some (.label label) := by
  obtain ⟨k, hk⟩ := exists_getElem?_of_count h
  rw [position_eq h hk] at hj
  cases hj
  exact hk

theorem idxOf_eq (h : elements.count (.label label) = 1)
    (hj : elements[j]? = some (.label label)) : elements.idxOf (.label label) = j := by
  have hfirst := position_eq h (List.getElem?_idxOf (List.mem_of_getElem? hj))
  rw [position_eq h hj] at hfirst
  exact (Except.ok.inj hfirst).symm

theorem DepthsAgree.of_forall (hplaced : LabelsPlaced elements handlers) (hstart : depth 0 = 0)
    (hhandlers : ∀ h ∈ handlers, depth (elements.idxOf (.label h.handler)) = 1)
    (hnext : ∀ i < elements.length, ∀ e ∈ elements[i]?, BodyElement.fallsThrough e = true →
      (BodyElement.nextEffect e).pops ≤ depth i
        ∧ depth (i + 1) = (BodyElement.nextEffect e).apply (depth i))
    (hjump : ∀ i < elements.length, ∀ e ∈ elements[i]?, ∀ label ∈ BodyElement.references e,
      (BodyElement.stackEffect e).pops ≤ depth i
        ∧ depth (elements.idxOf (.label label)) = (BodyElement.stackEffect e).apply (depth i)) :
    DepthsAgree elements handlers depth where
  entry p hp := by
    cases hp with
    | start => exact hstart
    | handler hmem hi =>
      rw [← hhandlers _ hmem, idxOf_eq (hplaced.handlers _ hmem) hi]
  edge i effect j _ hedge := by
    cases hedge with
    | next he hfalls => exact hnext i (List.getElem?_eq_some_iff.1 he).1 _ he hfalls
    | jump he hlabel hj =>
      rw [← idxOf_eq (hplaced.targets _ (List.mem_of_getElem? he) _ hlabel) hj]
      exact hjump i (List.getElem?_eq_some_iff.1 he).1 _ he _ hlabel

/-- The point where a label stands, at some depth. -/
def pointAt (elements : List BodyElement) (d : Nat) (label : Label) :
    Except ClassError StackPoint :=
  return ⟨← (LabelPositions.ofElements elements).position label, d⟩

theorem pointAt_eq_ok (h : elements.count (.label label) = 1) {d : Nat} {p : StackPoint} :
    pointAt elements d label = .ok p
      ↔ p.depth = d ∧ elements[p.position]? = some (.label label) := by
  simp only [pointAt, bind_eq_ok, pure_eq_ok]
  constructor
  · rintro ⟨j, hj, rfl⟩
    exact ⟨rfl, eq_of_position h hj⟩
  · rintro ⟨rfl, hj⟩
    exact ⟨_, position_eq h hj, rfl⟩

theorem pointAt_of_count_eq_zero (h : elements.count (.label label) = 0) (d : Nat) :
    pointAt elements d label = .error (.undefinedLabel label) := by
  have hnone : (LabelPositions.ofElements elements)[label]? = none :=
    (getElem?_notePositions_of_count_eq_zero h).trans Std.HashMap.getElem?_empty
  unfold pointAt LabelPositions.position
  rw [hnone]
  rfl

theorem exists_points {α : Type} (as : List α) (use : α → Label)
    (h : ∀ a ∈ as, elements.count (.label (use a)) = 1) (d : Nat) :
    ∃ points, (as.mapM fun a => pointAt elements d (use a)) = .ok points
      ∧ ∀ p, p ∈ points
        ↔ p.depth = d ∧ ∃ a ∈ as, elements[p.position]? = some (.label (use a)) := by
  have hexists : ∀ a ∈ as, ∃ p, pointAt elements d (use a) = .ok p := by
    intro a ha
    obtain ⟨j, hj⟩ := exists_getElem?_of_count (h a ha)
    exact ⟨⟨j, d⟩, (pointAt_eq_ok (h a ha)).2 ⟨rfl, hj⟩⟩
  obtain ⟨points, hpoints⟩ := exists_mapM hexists
  refine ⟨points, hpoints, fun p => ⟨fun hp => ?_, ?_⟩⟩
  · obtain ⟨a, ha, hap⟩ := exists_of_mem_mapM hpoints hp
    obtain ⟨hd, hj⟩ := (pointAt_eq_ok (h a ha)).1 hap
    exact ⟨hd, a, ha, hj⟩
  · rintro ⟨hd, a, ha, hj⟩
    obtain ⟨q, hq, haq⟩ := exists_of_mem_left (mapM_eq_ok.1 hpoints) ha
    cases ((pointAt_eq_ok (h a ha)).2 ⟨hd, hj⟩).symm.trans haq
    exact hq

theorem exists_entries (hplaced : LabelsPlaced elements handlers) :
    ∃ points, (handlers.mapM fun h => pointAt elements 1 h.handler) = .ok points
      ∧ ∀ p, p ∈ points.reverse ++ [⟨0, 0⟩] ↔ Entry elements handlers p := by
  obtain ⟨points, hpoints, hmem⟩ := exists_points handlers (·.handler) hplaced.handlers 1
  refine ⟨points, hpoints, fun p => ?_⟩
  rw [List.mem_append, List.mem_reverse, hmem, List.mem_singleton]
  constructor
  · rintro (⟨hd, h, hh, hj⟩ | rfl)
    · obtain ⟨j, d⟩ := p
      cases hd
      exact .handler hh hj
    · exact .start
  · intro hentry
    cases hentry with
    | start => exact .inr rfl
    | handler hh hj => exact .inl ⟨rfl, _, hh, hj⟩

theorem exists_edge_iff (he : elements[i]? = some e) (d : Nat) (p : StackPoint) :
    (∃ effect, Edge elements i effect p.position ∧ p.depth = effect.apply d)
      ↔ BodyElement.fallsThrough e = true ∧ p = ⟨i + 1, (BodyElement.nextEffect e).apply d⟩
        ∨ p.depth = (BodyElement.stackEffect e).apply d
          ∧ ∃ label ∈ BodyElement.references e, elements[p.position]? = some (.label label) := by
  obtain ⟨j, depth⟩ := p
  constructor
  · rintro ⟨effect, hedge, hdepth⟩
    cases hedge with
    | next he' hfalls =>
      cases he.symm.trans he'
      cases hdepth
      exact .inl ⟨hfalls, rfl⟩
    | jump he' hlabel hj =>
      cases he.symm.trans he'
      exact .inr ⟨hdepth, _, hlabel, hj⟩
  · rintro (⟨hfalls, hp⟩ | ⟨hdepth, label, hlabel, hj⟩)
    · cases hp
      exact ⟨_, .next he hfalls, rfl⟩
    · exact ⟨_, .jump he hlabel hj, hdepth⟩

theorem exits_branch (b : SymbolicBranch) (d : Nat) :
    BodyElement.exits (.ofElements elements) ⟨i, d⟩ (.branch b) = do
      let targets ← b.targets.mapM
        (pointAt elements ((BodyElement.stackEffect (.branch b)).apply d))
      let next :=
        if b.fallsThrough then [⟨i + 1, (BodyElement.nextEffect (.branch b)).apply d⟩] else []
      return next ++ targets.reverse := rfl

theorem exists_exits (hplaced : LabelsPlaced elements handlers) (he : elements[i]? = some e)
    (d : Nat) :
    ∃ exits, BodyElement.exits (.ofElements elements) ⟨i, d⟩ e = .ok exits
      ∧ ∀ p, p ∈ exits
        ↔ ∃ effect, Edge elements i effect p.position ∧ p.depth = effect.apply d := by
  simp only [exists_edge_iff he d]
  have hplain (hfalls : BodyElement.fallsThrough e = true) (hreferences : e.references = [])
      (p : StackPoint) : p ∈ [⟨i + 1, (BodyElement.nextEffect e).apply d⟩]
        ↔ BodyElement.fallsThrough e = true ∧ p = ⟨i + 1, (BodyElement.nextEffect e).apply d⟩
          ∨ p.depth = (BodyElement.stackEffect e).apply d
            ∧ ∃ label ∈ e.references, elements[p.position]? = some (.label label) := by
    simp [hfalls, hreferences]
  cases e with
  | label label => exact ⟨_, rfl, hplain rfl rfl⟩
  | instruction x => exact ⟨_, rfl, hplain rfl rfl⟩
  | branch b =>
    obtain ⟨targets, htargets, hmem⟩ := exists_points b.targets id
      (hplaced.targets _ (List.mem_of_getElem? he)) ((BodyElement.stackEffect (.branch b)).apply d)
    refine ⟨_, (exits_branch b d).trans (bind_of_eq_ok htargets _), fun p => ?_⟩
    rw [List.mem_append, List.mem_reverse, hmem]
    refine or_congr_left ?_
    change p ∈ (if b.fallsThrough then _ else []) ↔ b.fallsThrough = true ∧ _
    cases b.fallsThrough with
    | true => simp
    | false => simp

end Positions

end StackFlow

end ClassPatch
