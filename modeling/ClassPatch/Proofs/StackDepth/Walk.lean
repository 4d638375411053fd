import ClassPatch.Proofs.StackDepth.Flow
import Mathlib.Logic.Relation

/-!
The walk that looks for the highest depth of the operand stack visits what execution can come to,
whatever the order in which it takes the points that are left.
-/

namespace ClassPatch

theorem toNat_toLimit (n : Nat) : (toLimit n).toNat = min 0xFFFF n := by
  rw [toLimit, UInt16.toNat_ofNat_of_lt' (Nat.lt_of_le_of_lt (Nat.min_le_right _ _) (by decide))]
  exact Nat.min_comm _ _

namespace StackWalk

/-- Elements that were visited, the highest depth so far, and the points that are left. -/
structure State where
  visited : Array Bool
  highest : Nat
  pending : List StackPoint

/-- Take any of the points that are left, and visit the element there if that is to be done. -/
inductive Step (w : StackWalk) : State → State → Prop where
  | visit {visited : Array Bool} {highest : Nat} (before : List StackPoint)
    {after exits : List StackPoint} {point : StackPoint} {element : BodyElement}
    (hlt : point.position < visited.size)
    (hfresh : visited[point.position] = false)
    (helement : w.elements[point.position]? = some element)
    (hexits : BodyElement.exits w.positions point element = .ok exits) :
    Step w ⟨visited, highest, before ++ point :: after⟩
      ⟨visited.set point.position true hlt, max highest point.depth, exits ++ (before ++ after)⟩
  | drop {visited : Array Bool} {highest : Nat} (before : List StackPoint)
    {after : List StackPoint} {point : StackPoint}
    (hvisited : visited[point.position]? ≠ some false) :
    Step w ⟨visited, highest, before ++ point :: after⟩
      ⟨visited, max highest point.depth, before ++ after⟩

/-- All runs are finite, go on until no points are left, and come to the same highest depth. -/
structure EndsWith (w : StackWalk) (start : State) (highest : Nat) : Prop where
  terminates : Acc (fun s' s => w.Step s s') start
  goes_on : ∀ s, Relation.ReflTransGen w.Step start s → s.pending ≠ [] → ∃ s', w.Step s s'
  result : ∀ s, Relation.ReflTransGen w.Step start s → s.pending = [] → s.highest = highest

/-- The walk over a list of elements. -/
def ofBody (elements : List BodyElement) : StackWalk := ⟨elements.toArray, .ofElements elements⟩

variable {w : StackWalk} {s s' : State} {elements : List BodyElement}
  {handlers : List ExceptionHandler} {depth : Nat → Nat} {i j : Nat}

section Runs

theorem Step.size_eq (h : w.Step s s') : s'.visited.size = s.visited.size := by
  cases h with
  | visit before hlt hfresh helement hexits => exact Array.size_set hlt
  | drop before hvisited => rfl

theorem size_eq_of_run (h : Relation.ReflTransGen w.Step s s') :
    s'.visited.size = s.visited.size := by
  induction h with
  | refl => rfl
  | tail _ hstep ih => exact hstep.size_eq.trans ih

theorem Step.measure_lt (h : w.Step s s') :
    Prod.Lex (· < ·) (· < ·) (s'.visited.count false, s'.pending.length)
      (s.visited.count false, s.pending.length) := by
  -- a visit may add points, but it leaves one element less to visit
  cases h with
  | visit before hlt hfresh helement hexits => exact .left _ _ (countTrue_set_lt _ _ hlt hfresh)
  | drop before hvisited =>
    refine .right _ ?_
    simp only [List.length_append, List.length_cons]
    omega

theorem wellFounded_step : WellFounded fun s' s => w.Step s s' :=
  Subrelation.wf Step.measure_lt
    (InvImage.wf (fun s : State => (s.visited.count false, s.pending.length))
      (WellFounded.prod_lex Nat.lt_wfRel.wf Nat.lt_wfRel.wf))

end Runs

section Sound

open StackFlow

/-- Whether a position is still to be taken, or was taken with the depth that is there. -/
def State.Covers (s : State) (depth : Nat → Nat) (i : Nat) : Prop :=
  (∃ p ∈ s.pending, p.position = i) ∨ s.visited[i]? ≠ some false ∧ depth i ≤ s.highest

/-- What the steps of a walk keep, where the depths agree. -/
structure Sound (elements : List BodyElement) (handlers : List ExceptionHandler)
    (depth : Nat → Nat) (s : State) : Prop where
  size : s.visited.size = elements.length
  pending : ∀ p ∈ s.pending, Reachable elements handlers p.position ∧ p.depth = depth p.position
  visited : ∀ i, s.visited[i]? = some true → Reachable elements handlers i
  entries : ∀ p, Entry elements handlers p → s.Covers depth p.position
  edges : ∀ i effect j, s.visited[i]? = some true → Edge elements i effect j → s.Covers depth j
  highest : Occurs elements handlers depth s.highest

theorem Sound.start (hdepths : DepthsAgree elements handlers depth) {points : List StackPoint}
    (hpoints : ∀ p, p ∈ points ↔ Entry elements handlers p) :
    Sound elements handlers depth ⟨Array.replicate elements.length false, 0, points⟩ := by
  have hfresh (i : Nat) : (Array.replicate elements.length false)[i]? ≠ some true := by
    rw [Array.getElem?_replicate]
    split <;> exact fun h => by cases h
  exact {
    size := Array.size_replicate
    pending := fun p hp =>
      ⟨.entry ((hpoints p).1 hp), (hdepths.entry p ((hpoints p).1 hp)).symm⟩
    visited := fun i hi => absurd hi (hfresh i)
    entries := fun p hp => .inl ⟨p, (hpoints p).2 hp, rfl⟩
    edges := fun i _ _ hi _ => absurd hi (hfresh i)
    highest := .start }

theorem mem_of_taken {before after : List StackPoint} {point p : StackPoint}
    (h : p ∈ before ++ after) : p ∈ before ++ point :: after :=
  ((List.sublist_cons_self point after).append_left before).subset h

theorem State.Covers.take {visited visited' : Array Bool} {highest : Nat}
    {before after points : List StackPoint} {point : StackPoint}
    (hpoint : point.depth = depth point.position)
    (hfresh : visited'[point.position]? ≠ some false)
    (hmono : ∀ i : Nat, visited[i]? ≠ some false → visited'[i]? ≠ some false)
    (hpoints : ∀ p ∈ before ++ after, p ∈ points)
    (h : State.Covers ⟨visited, highest, before ++ point :: after⟩ depth i) :
    State.Covers ⟨visited', max highest point.depth, points⟩ depth i := by
  rcases h with ⟨p, hp, rfl⟩ | ⟨hvisited, hdepth⟩
  · rcases List.mem_append.1 hp with hp | hp
    · exact .inl ⟨p, hpoints p (List.mem_append_left _ hp), rfl⟩
    rcases List.mem_cons.1 hp with rfl | hp
    · exact .inr ⟨hfresh, hpoint ▸ Nat.le_max_right _ _⟩
    · exact .inl ⟨p, hpoints p (List.mem_append_right _ hp), rfl⟩
  · exact .inr ⟨hmono i hvisited, Nat.le_trans hdepth (Nat.le_max_left _ _)⟩

theorem occurs_max {d d' : Nat} (h : Occurs elements handlers depth d)
    (h' : Occurs elements handlers depth d') : Occurs elements handlers depth (max d d') := by
  rcases Nat.le_total d d' with hle | hle
  · rwa [Nat.max_eq_right hle]
  · rwa [Nat.max_eq_left hle]

theorem Sound.visit {visited : Array Bool} {highest : Nat} {before after exits : List StackPoint}
    {point : StackPoint} (hdepths : DepthsAgree elements handlers depth)
    (h : Sound elements handlers depth ⟨visited, highest, before ++ point :: after⟩)
    (hlt : point.position < visited.size)
    (hexits : ∀ p, p ∈ exits
      ↔ ∃ effect, Edge elements point.position effect p.position
        ∧ p.depth = effect.apply point.depth) :
    Sound elements handlers depth ⟨visited.set point.position true hlt,
      max highest point.depth, exits ++ (before ++ after)⟩ := by
  obtain ⟨hreachable, hdepth⟩ := h.pending point (List.mem_append_right _ List.mem_cons_self)
  have hset (i : Nat) : (visited.set point.position true hlt)[i]?
      = if point.position = i then some true else visited[i]? := Array.getElem?_set hlt
  have hcovers {i : Nat} : State.Covers ⟨visited, highest, before ++ point :: after⟩ depth i →
      State.Covers ⟨visited.set point.position true hlt, max highest point.depth,
        exits ++ (before ++ after)⟩ depth i := by
    refine State.Covers.take hdepth ?_ ?_ fun p hp => List.mem_append_right _ hp
    · rw [hset, if_pos rfl]
      exact fun h => Bool.noConfusion (Option.some.inj h)
    · intro i hi
      rw [hset]
      split
      · exact fun h => Bool.noConfusion (Option.some.inj h)
      · exact hi
  have hvisited {i : Nat} (hi : (visited.set point.position true hlt)[i]? = some true) :
      point.position = i ∨ visited[i]? = some true := by
    rw [hset] at hi
    split at hi
    next heq => exact .inl heq
    next => exact .inr hi
  exact {
    size := (Array.size_set hlt).trans h.size
    pending := by
      intro p hp
      rcases List.mem_append.1 hp with hp | hp
      · obtain ⟨effect, hedge, hp⟩ := (hexits p).1 hp
        refine ⟨hreachable.edge hedge, ?_⟩
        rw [hp, hdepth, (hdepths.edge _ _ _ hreachable hedge).2]
      · exact h.pending p (mem_of_taken hp)
    visited := by
      intro i hi
      rcases hvisited hi with rfl | hi
      · exact hreachable
      · exact h.visited i hi
    entries := fun p hp => hcovers (h.entries p hp)
    edges := by
      intro i effect j hi hedge
      rcases hvisited hi with rfl | hi
      · refine .inl ⟨⟨j, effect.apply point.depth⟩, ?_, rfl⟩
        exact List.mem_append_left _ ((hexits _).2 ⟨effect, hedge, rfl⟩)
      · exact hcovers (h.edges i effect j hi hedge)
    highest := occurs_max h.highest (hdepth ▸ hdepths.occurs hreachable) }

theorem Sound.drop {visited : Array Bool} {highest : Nat} {before after : List StackPoint}
    {point : StackPoint} (hdepths : DepthsAgree elements handlers depth)
    (h : Sound elements handlers depth ⟨visited, highest, before ++ point :: after⟩)
    (hvisited : visited[point.position]? ≠ some false) :
    Sound elements handlers depth ⟨visited, max highest point.depth, before ++ after⟩ := by
  obtain ⟨hreachable, hdepth⟩ := h.pending point (List.mem_append_right _ List.mem_cons_self)
  have hcovers {i : Nat} : State.Covers ⟨visited, highest, before ++ point :: after⟩ depth i →
      State.Covers ⟨visited, max highest point.depth, before ++ after⟩ depth i :=
    State.Covers.take hdepth hvisited (fun _ hi => hi) fun p hp => hp
  exact {
    size := h.size
    pending := fun p hp => h.pending p (mem_of_taken hp)
    visited := h.visited
    entries := fun p hp => hcovers (h.entries p hp)
    edges := fun i effect j hi hedge => hcovers (h.edges i effect j hi hedge)
    highest := occurs_max h.highest (hdepth ▸ hdepths.occurs hreachable) }

theorem Sound.step (hplaced : LabelsPlaced elements handlers)
    (hdepths : DepthsAgree elements handlers depth) (h : Sound elements handlers depth s)
    (hstep : Step (ofBody elements) s s') : Sound elements handlers depth s' := by
  cases hstep with
  | visit before hlt hfresh helement hexits =>
    obtain ⟨exits, hexits', hmem⟩ :=
      exists_exits hplaced (List.getElem?_toArray.symm.trans helement) _
    cases hexits.symm.trans hexits'
    exact h.visit hdepths hlt hmem
  | drop before hvisited => exact h.drop hdepths hvisited

theorem Sound.run (hplaced : LabelsPlaced elements handlers)
    (hdepths : DepthsAgree elements handlers depth) (h : Sound elements handlers depth s)
    (hrun : Relation.ReflTransGen (ofBody elements).Step s s') :
    Sound elements handlers depth s' := by
  induction hrun with
  | refl => exact h
  | tail _ hstep ih => exact ih.step hplaced hdepths hstep

/-- When no points are left, all that can be reached is covered. -/
theorem Sound.covers_of_reachable (h : Sound elements handlers depth s) (hdone : s.pending = [])
    (hi : Reachable elements handlers i) : s.Covers depth i := by
  induction hi with
  | entry hentry => exact h.entries _ hentry
  | @edge i j effect _ hedge ih =>
    -- A position that is covered and has an element was visited, for none is left to be taken.
    refine h.edges i effect j ?_ hedge
    rcases ih with ⟨p, hp, -⟩ | ⟨hvisited, -⟩
    · rw [hdone] at hp
      cases hp
    · obtain ⟨e, he⟩ := hedge.exists_element
      have hlt : i < s.visited.size := h.size ▸ (List.getElem?_eq_some_iff.1 he).1
      rw [Array.getElem?_eq_getElem hlt] at hvisited ⊢
      cases hfresh : s.visited[i] with
      | true => rfl
      | false => exact absurd (congrArg some hfresh) hvisited

theorem Sound.isGreatest (hplaced : LabelsPlaced elements handlers)
    (hdepths : DepthsAgree elements handlers depth) (h : Sound elements handlers depth s)
    (hdone : s.pending = []) : IsGreatest {d | Occurs elements handlers depth d} s.highest := by
  have hle {i : Nat} (hi : Reachable elements handlers i) : depth i ≤ s.highest := by
    rcases h.covers_of_reachable hdone hi with ⟨p, hp, -⟩ | ⟨-, hle⟩
    · rw [hdone] at hp
      cases hp
    · exact hle
  refine ⟨h.highest, ?_⟩
  rintro d (_ | ⟨hi, he⟩ | ⟨hi, he⟩)
  · exact Nat.zero_le _
  · exact hle hi
  · rcases hdepths.apply_cases hplaced hi he with hcase | ⟨j, hj, hdepth⟩
    · exact Nat.le_trans hcase (hle hi)
    · exact hdepth ▸ hle hj

end Sound

section Order

open StackFlow

theorem exists_step (hplaced : LabelsPlaced elements handlers)
    (hsize : s.visited.size = elements.length) (h : s.pending ≠ []) :
    ∃ s', (ofBody elements).Step s s' := by
  obtain ⟨visited, highest, _ | ⟨point, points⟩⟩ := s
  · exact absurd rfl h
  by_cases hfresh : visited[point.position]? = some false
  · obtain ⟨hlt, hfresh⟩ := Array.getElem?_eq_some_iff.1 hfresh
    have helement := List.getElem?_eq_getElem (hsize ▸ hlt : point.position < elements.length)
    obtain ⟨exits, hexits, -⟩ := exists_exits hplaced helement point.depth
    exact ⟨_, .visit [] hlt hfresh (List.getElem?_toArray.trans helement) hexits⟩
  · exact ⟨_, .drop [] hfresh⟩

theorem exists_run_of_go (hplaced : LabelsPlaced elements handlers) (visited : Array Bool)
    (highest : Nat) (points : List StackPoint) (hsize : visited.size = elements.length) :
    ∃ s, Relation.ReflTransGen (ofBody elements).Step ⟨visited, highest, points⟩ s
      ∧ s.pending = [] ∧ (ofBody elements).go visited highest points = .ok s.highest := by
  induction visited, highest, points using go.induct (w := ofBody elements) with
  | case1 visited highest =>
    refine ⟨_, .refl, rfl, ?_⟩
    rw [go]
    rfl
  | case2 visited highest point points highest' h hnone ih =>
    have helement := List.getElem?_eq_getElem (hsize ▸ h.1 : point.position < elements.length)
    cases hnone.symm.trans (List.getElem?_toArray.trans helement)
  | case3 visited highest point points highest' h element helement ih =>
    obtain ⟨exits, hexits, -⟩ :=
      exists_exits hplaced (List.getElem?_toArray.symm.trans helement) point.depth
    have hfresh := h.2
    rw [getElem!_pos visited _ h.1] at hfresh
    obtain ⟨s, hrun, hdone, hgo⟩ := ih exits ((Array.size_set h.1).trans hsize)
    refine ⟨s, .head (.visit [] h.1 hfresh helement hexits) hrun, hdone, ?_⟩
    rw [go, dif_pos h, helement]
    exact (bind_of_eq_ok hexits _).trans hgo
  | case4 visited highest point points highest' h ih =>
    obtain ⟨s, hrun, hdone, hgo⟩ := ih hsize
    have hvisited : visited[point.position]? ≠ some false := by
      intro hfresh
      obtain ⟨hlt, hfresh⟩ := Array.getElem?_eq_some_iff.1 hfresh
      exact h ⟨hlt, (getElem!_pos visited _ hlt).trans hfresh⟩
    refine ⟨s, .head (.drop [] hvisited) hrun, hdone, ?_⟩
    rw [go, dif_neg h]
    exact hgo

theorem endsWith (hplaced : LabelsPlaced elements handlers)
    (hdepths : DepthsAgree elements handlers depth) {highest : Nat}
    (hhighest : IsGreatest {d | Occurs elements handlers depth d} highest)
    (h : Sound elements handlers depth s) : (ofBody elements).EndsWith s highest where
  terminates := wellFounded_step.apply s
  goes_on _ hrun hpending := exists_step hplaced ((size_eq_of_run hrun).trans h.size) hpending
  result _ hrun hdone :=
    ((h.run hplaced hdepths hrun).isGreatest hplaced hdepths hdone).unique hhighest

end Order

end StackWalk

namespace StackFlow

variable {elements : List BodyElement} {handlers : List ExceptionHandler} {depth : Nat → Nat}

theorem exists_stackLimit (hplaced : LabelsPlaced elements handlers)
    (hdepths : DepthsAgree elements handlers depth) :
    ∃ highest, IsGreatest {d | Occurs elements handlers depth d} highest
      ∧ Code.stackLimit elements handlers = .ok (toLimit highest) := by
  obtain ⟨entries, hentries, hmem⟩ := exists_entries hplaced
  obtain ⟨s, hrun, hdone, hgo⟩ := StackWalk.exists_run_of_go hplaced
    (Array.replicate elements.length false) 0 (entries.reverse ++ [⟨0, 0⟩]) Array.size_replicate
  have hsound := (StackWalk.Sound.start hdepths hmem).run hplaced hdepths hrun
  refine ⟨s.highest, hsound.isGreatest hplaced hdepths hdone, ?_⟩
  refine (bind_of_eq_ok hentries _).trans ?_
  exact bind_of_eq_ok hgo _

end StackFlow

/--
Where depths of the stack agree along the control flow, the limit is the highest of them. So it is
for each order in which a walk takes the entries and what it comes to.
-/
theorem Code.stackLimit_isGreatest (elements : List BodyElement)
    (handlers : List ExceptionHandler) (depth : Nat → Nat)
    (hplaced : StackFlow.LabelsPlaced elements handlers)
    (hdepths : StackFlow.DepthsAgree elements handlers depth) :
    ∃ highest, IsGreatest {d | StackFlow.Occurs elements handlers depth d} highest
      ∧ (∃ limit, Code.stackLimit elements handlers = .ok limit
        ∧ limit.toNat = min 0xFFFF highest)
      ∧ ∀ points, (∀ p, p ∈ points ↔ StackFlow.Entry elements handlers p) →
        (StackWalk.ofBody elements).EndsWith
          ⟨Array.replicate elements.length false, 0, points⟩ highest := by
  obtain ⟨highest, hhighest, hlimit⟩ := StackFlow.exists_stackLimit hplaced hdepths
  refine ⟨highest, hhighest, ⟨_, hlimit, toNat_toLimit highest⟩, fun points hpoints => ?_⟩
  exact StackWalk.endsWith hplaced hdepths hhighest (.start hdepths hpoints)

/-- A body with a subroutine, which is called with two slots on the stack, and with a handler. -/
def subroutineBody : List BodyElement :=
  [.label 0, .instruction (.plain .lconst0), .branch (.jsr 1), .branch (.valueReturn .long),
    .label 1, .instruction (.store .reference 0), .branch (.ret 0), .label 2, .branch .athrow]

theorem Code.stackLimit_isGreatest_subroutine :
    let handlers : List ExceptionHandler := [⟨0, 1, 2, none⟩]
    let depth (i : Nat) : Nat := [0, 0, 2, 2, 3, 3, 2, 1, 1].getD i 0
    StackFlow.LabelsPlaced subroutineBody handlers
      ∧ StackFlow.DepthsAgree subroutineBody handlers depth
      ∧ ∃ highest, IsGreatest {d | StackFlow.Occurs subroutineBody handlers depth d} highest
        ∧ (∃ limit, Code.stackLimit subroutineBody handlers = .ok limit
          ∧ limit.toNat = min 0xFFFF highest)
        ∧ ∀ points, (∀ p, p ∈ points ↔ StackFlow.Entry subroutineBody handlers p) →
          (StackWalk.ofBody subroutineBody).EndsWith
            ⟨Array.replicate subroutineBody.length false, 0, points⟩ highest := by
  intro handlers depth
  have hplaced : StackFlow.LabelsPlaced subroutineBody handlers := ⟨by decide, by decide⟩
  have hdepths : StackFlow.DepthsAgree subroutineBody handlers depth :=
    .of_forall hplaced (by decide) (by decide) (by decide) (by decide)
  exact ⟨hplaced, hdepths, Code.stackLimit_isGreatest _ _ _ hplaced hdepths⟩

end ClassPatch
