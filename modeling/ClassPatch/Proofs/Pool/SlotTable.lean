import ClassPatch.SlotTable
import Mathlib.Algebra.GroupWithZero.Nat

/-!
Tables made by adding elements at the end. Their slots increase, so the search finds an element
exactly at the slot where it starts, and it stays there whatever is added later.
-/

namespace ClassPatch

namespace SlotTable

variable {α : Type}

/-- The slots of a table increase, up to the next one. -/
structure Ordered (t : SlotTable α) : Prop where
  start_le : ∀ e ∈ t.entries, t.start ≤ e.1
  lt_next : ∀ e ∈ t.entries, e.1 < t.next
  start_le_next : t.start ≤ t.next
  increasing : ∀ i j (hi : i < t.entries.size) (hj : j < t.entries.size), i < j →
    t.entries[i].1 < t.entries[j].1

theorem ordered_empty (start : Nat) : (empty start : SlotTable α).Ordered := by
  refine ⟨?_, ?_, Nat.le_refl _, ?_⟩
  · intro e he
    cases Array.not_mem_empty _ he
  · intro e he
    cases Array.not_mem_empty _ he
  · intro i j hi
    cases Nat.not_lt_zero _ hi

theorem Ordered.push [HasWidth α] {t : SlotTable α} (h : t.Ordered) {a : α} (ha : 0 < width a) :
    (t.push a).Ordered := by
  refine ⟨?_, ?_, ?_, ?_⟩
  · intro e he
    rcases Array.mem_push.1 he with he | rfl
    · exact h.start_le e he
    · exact h.start_le_next
  · intro e he
    change e.1 < t.next + width a
    rcases Array.mem_push.1 he with he | rfl
    · have := h.lt_next e he
      omega
    · change t.next < t.next + width a
      omega
  · change t.start ≤ t.next + width a
    have := h.start_le_next
    omega
  · intro i j hi hj hij
    simp only [SlotTable.push, Array.size_push] at hi hj ⊢
    rw [Array.getElem_push_lt (by omega), Array.getElem_push]
    split
    · exact h.increasing i j _ _ hij
    · exact h.lt_next _ (Array.getElem_mem _)

theorem lt_of_lt_search (entries : Array (Nat × α)) (slot low high : Nat) (h : high ≤ entries.size)
    (hordered : ∀ i j (hi : i < entries.size) (hj : j < entries.size), i < j →
      entries[i].1 < entries[j].1)
    (hbelow : ∀ i (hi : i < entries.size), i < low → entries[i].1 < slot) :
    ∀ i (hi : i < entries.size), i < search entries slot low high h → entries[i].1 < slot := by
  fun_induction search entries slot low high h with
  | case1 low high h hlt hless ih =>
    apply ih
    intro i hi hlow
    rcases Nat.lt_or_ge i ((low + high) / 2) with hmid | hmid
    · exact Nat.lt_trans (hordered i _ hi _ hmid) hless
    · have heq : i = (low + high) / 2 := by omega
      simp only [heq]
      exact hless
  | case2 low high h hlt hless ih => exact ih hbelow
  | case3 low high h hlt => exact hbelow

theorem le_of_search_le (entries : Array (Nat × α)) (slot low high : Nat) (h : high ≤ entries.size)
    (hordered : ∀ i j (hi : i < entries.size) (hj : j < entries.size), i < j →
      entries[i].1 < entries[j].1)
    (habove : ∀ i (hi : i < entries.size), high ≤ i → slot ≤ entries[i].1) (hlow : low ≤ high) :
    ∀ i (hi : i < entries.size), search entries slot low high h ≤ i → slot ≤ entries[i].1 := by
  fun_induction search entries slot low high h with
  | case1 low high h hlt hless ih => exact ih habove (by omega)
  | case2 low high h hlt hless ih =>
    refine ih ?_ (by omega)
    intro i hi hhigh
    rcases Nat.eq_or_lt_of_le hhigh with heq | hmid
    · simp only [← heq]
      omega
    · have := hordered _ i (by omega) hi hmid
      omega
  | case3 low high h hlt =>
    intro i hi hi'
    exact habove i hi (by omega)

theorem get?_eq_some_iff {t : SlotTable α} (h : t.Ordered) {slot : Nat} {a : α} :
    t.get? slot = some a ↔ (slot, a) ∈ t.entries := by
  have hlt := lt_of_lt_search t.entries slot 0 t.entries.size (Nat.le_refl _) h.increasing
    (fun i hi hneg => absurd hneg (Nat.not_lt_zero i))
  have hle := le_of_search_le t.entries slot 0 t.entries.size (Nat.le_refl _) h.increasing
    (fun i hi hge => absurd hi (Nat.not_lt.2 hge)) (Nat.zero_le _)
  unfold get? lookup
  dsimp only
  generalize search t.entries slot 0 t.entries.size (Nat.le_refl _) = k at hlt hle
  constructor
  · intro hget
    cases hk : t.entries[k]? with
    | none =>
      rw [hk] at hget
      cases hget
    | some e =>
      obtain ⟨s, b⟩ := e
      rw [hk] at hget
      by_cases hs : s = slot
      · rw [← hs] at hget ⊢
        simp only [↓reduceIte, Option.some.injEq] at hget
        rw [← hget]
        exact Array.mem_of_getElem? hk
      · simp only [if_neg hs] at hget
        cases hget
  · intro hmem
    obtain ⟨i, hi, hget⟩ := Array.getElem_of_mem hmem
    have hslot : t.entries[i].1 = slot := by rw [hget]
    have hki : k = i := by
      rcases Nat.lt_trichotomy i k with hlow | heq | hhigh
      · have := hlt i hi hlow
        omega
      · exact heq.symm
      · have := hle k (by omega) (Nat.le_refl k)
        have := h.increasing k i (by omega) hi hhigh
        omega
    rw [hki, Array.getElem?_eq_getElem hi, hget]
    simp only [↓reduceIte]

theorem Ordered.get?_of_lt_start {t : SlotTable α} (h : t.Ordered) {slot : Nat}
    (hlt : slot < t.start) : t.get? slot = none := by
  cases hget : t.get? slot with
  | none => rfl
  | some a =>
    have hle := h.start_le _ ((get?_eq_some_iff h).1 hget)
    exact absurd hlt (Nat.not_lt.2 hle)

/-- Add elements at the end, one after the other. -/
def append [HasWidth α] (t : SlotTable α) (as : List α) : SlotTable α := as.foldl push t

section Append

variable [HasWidth α] (t : SlotTable α)

theorem append_nil : t.append [] = t := rfl

theorem append_cons (a : α) (as : List α) : t.append (a :: as) = (t.push a).append as := rfl

theorem append_append (as bs : List α) : t.append (as ++ bs) = (t.append as).append bs := by
  unfold append
  rw [List.foldl_append]

theorem elements_push (a : α) : (t.push a).elements = t.elements ++ [a] := by
  simp [elements, push]

theorem elements_append (as : List α) : (t.append as).elements = t.elements ++ as := by
  induction as generalizing t with
  | nil => rw [append_nil, List.append_nil]
  | cons a as ih => rw [append_cons, ih, elements_push, List.append_assoc, List.singleton_append]

theorem mem_entries_append {e : Nat × α} (h : e ∈ t.entries) (as : List α) :
    e ∈ (t.append as).entries := by
  induction as generalizing t with
  | nil => exact h
  | cons a as ih => exact ih (t.push a) (Array.mem_push.2 (.inl h))

theorem next_le_append (as : List α) : t.next ≤ (t.append as).next := by
  induction as generalizing t with
  | nil => exact Nat.le_refl _
  | cons a as ih => exact Nat.le_trans (Nat.le_add_right _ _) (ih (t.push a))

theorem next_append (as : List α) : (t.append as).next = t.next + (as.map width).sum := by
  induction as generalizing t with
  | nil => rfl
  | cons a as ih =>
    rw [append_cons, ih, List.map_cons, List.sum_cons, ← Nat.add_assoc]
    rfl

theorem start_append (as : List α) : (t.append as).start = t.start := by
  induction as generalizing t with
  | nil => rfl
  | cons a as ih => exact ih (t.push a)

theorem Ordered.append {t : SlotTable α} (h : t.Ordered) {as : List α}
    (has : ∀ a ∈ as, 0 < width a) : (t.append as).Ordered := by
  induction as generalizing t with
  | nil => exact h
  | cons a as ih =>
    exact ih (h.push (has a List.mem_cons_self)) fun b hb => has b (List.mem_cons_of_mem _ hb)

end Append

end SlotTable

end ClassPatch
