import ClassPatch.Pool.Constant
import ClassPatch.Proofs.Pool.SlotTable
import Mathlib.Data.List.Induction

/-!
What is found at each slot of a table that was made of elements: the element that starts there, and
nothing from the end of the table on. A slot inside an element is answered with the element after it,
or as if it were past the end where there is none.
-/

namespace ClassPatch.SlotTable

variable {α : Type}

theorem search_le (entries : Array (Nat × α)) (slot low high : Nat) (h : high ≤ entries.size)
    (hlow : low ≤ high) : search entries slot low high h ≤ high := by
  fun_induction search entries slot low high h with
  | case1 low high h hlt hless ih => exact ih (by omega)
  | case2 low high h hlt hless ih =>
    have := ih (by omega)
    omega
  | case3 low high h hlt => exact hlow

theorem lookup_of_reaches {t : SlotTable α} (h : t.Ordered) {slot k : Nat}
    (hk : k ≤ t.entries.size)
    (hbelow : ∀ i (hi : i < t.entries.size), i < k → t.entries[i].1 < slot)
    (hreaches : ∀ i (hi : i < t.entries.size), k ≤ i → slot ≤ t.entries[i].1) :
    t.lookup slot = match t.entries[k]? with
      | none => .tooLarge
      | some (s, a) => if s = slot then .found k a else .invalid k := by
  have hlt := lt_of_lt_search t.entries slot 0 t.entries.size (Nat.le_refl _) h.increasing
    (fun i hi hneg => absurd hneg (Nat.not_lt_zero i))
  have hle := le_of_search_le t.entries slot 0 t.entries.size (Nat.le_refl _) h.increasing
    (fun i hi hge => absurd hi (Nat.not_lt.2 hge)) (Nat.zero_le _)
  have hsize := search_le t.entries slot 0 t.entries.size (Nat.le_refl _) (Nat.zero_le _)
  unfold lookup
  dsimp only
  generalize search t.entries slot 0 t.entries.size (Nat.le_refl _) = found at hlt hle hsize
  have heq : found = k := by
    rcases Nat.lt_trichotomy found k with hfound | heq | hfound
    · have := hbelow found (by omega) hfound
      have := hle found (by omega) (Nat.le_refl _)
      omega
    · exact heq
    · have := hlt k (by omega) hfound
      have := hreaches k (by omega) (Nat.le_refl _)
      omega
  subst heq
  rfl

section Slots

variable [HasWidth α] (start : Nat) (elements : List α)

/--
Slot where the element at the index starts. The slots before it are those that the elements before
it take up.
-/
def slotAt (index : Nat) : Nat := start + ((elements.take index).map width).sum

/-- The element at the index starts at the slot. -/
def StartsAt (slot index : Nat) (a : α) : Prop :=
  elements[index]? = some a ∧ slot = slotAt start elements index

/-- The element at the index takes up the slot, but starts before it. -/
def IsInside (slot index : Nat) : Prop :=
  ∃ a, elements[index]? = some a ∧ slotAt start elements index < slot
    ∧ slot < slotAt start elements index + width a

variable {start : Nat} {elements : List α} {slot i j : Nat} {a : α}

theorem slotAt_cons (a : α) (as : List α) (i : Nat) :
    slotAt start (a :: as) (i + 1) = slotAt (start + width a) as i := by
  unfold slotAt
  rw [List.take_succ_cons, List.map_cons, List.sum_cons, Nat.add_assoc]

theorem slotAt_succ (h : elements[i]? = some a) :
    slotAt start elements (i + 1) = slotAt start elements i + width a := by
  unfold slotAt
  rw [List.take_add_one, h, Option.toList_some, List.map_append, List.sum_append, List.map_singleton,
    List.sum_singleton, Nat.add_assoc]

theorem slotAt_le (h : i ≤ j) : slotAt start elements i ≤ slotAt start elements j := by
  obtain ⟨k, rfl⟩ := Nat.exists_eq_add_of_le h
  unfold slotAt
  rw [List.take_add, List.map_append, List.sum_append, ← Nat.add_assoc]
  exact Nat.le_add_right _ _

theorem slotAt_lt (hwidth : ∀ a ∈ elements, 1 ≤ width a) (hi : i < elements.length) (h : i < j) :
    slotAt start elements i < slotAt start elements j := by
  have hget : elements[i]? = some elements[i] := List.getElem?_eq_getElem hi
  have hpos := hwidth _ (List.mem_of_getElem? hget)
  have hnext : slotAt start elements (i + 1) = slotAt start elements i + width elements[i] :=
    slotAt_succ hget
  have hle : slotAt start elements (i + 1) ≤ slotAt start elements j := slotAt_le h
  omega

theorem ofList_concat (a : α) :
    ofList start (elements ++ [a]) = (ofList start elements).push a := by
  unfold ofList
  rw [List.foldl_append]
  rfl

theorem next_ofList : (ofList start elements).next = slotAt start elements elements.length := by
  unfold slotAt
  rw [List.take_length]
  exact next_append (empty start) elements

theorem size_ofList : (ofList start elements).entries.size = elements.length := by
  induction elements using List.reverseRecOn with
  | nil => rfl
  | append_singleton as a ih =>
    rw [ofList_concat, List.length_append, List.length_singleton, ← ih]
    exact Array.size_push _

theorem getElem?_ofList (i : Nat) :
    (ofList start elements).entries[i]?
      = elements[i]?.map fun a => (slotAt start elements i, a) := by
  induction elements using List.reverseRecOn with
  | nil => rfl
  | append_singleton as a ih =>
    have hentries : (ofList start (as ++ [a])).entries
        = (ofList start as).entries.push ((ofList start as).next, a) := by
      rw [ofList_concat]
      rfl
    rw [hentries, Array.getElem?_push, size_ofList, next_ofList]
    rcases Nat.lt_trichotomy i as.length with hlt | heq | hgt
    · rw [if_neg (Nat.ne_of_lt hlt), ih, List.getElem?_append_left hlt]
      unfold slotAt
      rw [List.take_append_of_le_length (Nat.le_of_lt hlt)]
    · subst heq
      rw [if_pos rfl, List.getElem?_concat_length, Option.map_some]
      unfold slotAt
      rw [List.take_append_of_le_length (Nat.le_refl _)]
    · rw [if_neg (Nat.ne_of_gt hgt), ih, List.getElem?_eq_none (Nat.le_of_lt hgt),
        List.getElem?_eq_none (by rwa [List.length_append])]
      rfl

theorem fst_getElem_ofList (hi : i < (ofList start elements).entries.size) :
    (ofList start elements).entries[i].1 = slotAt start elements i := by
  have hget : (ofList start elements).entries[i]? = _ := getElem?_ofList i
  rw [Array.getElem?_eq_getElem hi] at hget
  obtain ⟨a, -, heq⟩ := Option.map_eq_some_iff.1 hget.symm
  rw [← heq]

theorem ordered_ofList (hwidth : ∀ a ∈ elements, 1 ≤ width a) : (ofList start elements).Ordered :=
  (ordered_empty start).append hwidth

theorem startsAt_or_isInside_or_ended (elements : List α) (h : start ≤ slot) :
    (∃ i a, StartsAt start elements slot i a) ∨ (∃ i, IsInside start elements slot i)
      ∨ (ofList start elements).next ≤ slot := by
  rw [next_ofList]
  induction elements generalizing start with
  | nil => exact .inr (.inr h)
  | cons a as ih =>
    rcases Nat.lt_or_ge slot (start + width a) with hlt | hge
    · rcases Nat.eq_or_lt_of_le h with heq | hgt
      · exact .inl ⟨0, a, rfl, heq.symm⟩
      · exact .inr (.inl ⟨0, a, rfl, hgt, hlt⟩)
    · rcases ih hge with ⟨i, b, hget, hslot⟩ | ⟨i, b, hget, hgt, hlt⟩ | hended
      · exact .inl ⟨i + 1, b, hget, hslot.trans (slotAt_cons a as i).symm⟩
      · refine .inr (.inl ⟨i + 1, b, hget, ?_⟩)
        rw [slotAt_cons]
        exact ⟨hgt, hlt⟩
      · refine .inr (.inr ?_)
        rwa [List.length_cons, slotAt_cons]

section Lookup

variable (hwidth : ∀ a ∈ elements, 1 ≤ width a)

include hwidth

theorem lookup_ofList_of_reaches (hi : i ≤ elements.length)
    (hbelow : ∀ k < i, slotAt start elements k < slot)
    (hreaches : ∀ k < elements.length, i ≤ k → slot ≤ slotAt start elements k) :
    (ofList start elements).lookup slot = match elements[i]? with
      | none => .tooLarge
      | some a => if slotAt start elements i = slot then .found i a else .invalid i := by
  rw [lookup_of_reaches (ordered_ofList hwidth) (k := i), getElem?_ofList]
  · cases elements[i]? <;> rfl
  · rwa [size_ofList]
  · intro k hk hlt
    rw [fst_getElem_ofList]
    exact hbelow k hlt
  · intro k hk hle
    rw [fst_getElem_ofList]
    rw [size_ofList] at hk
    exact hreaches k hk hle

theorem lookup_of_startsAt (h : StartsAt start elements slot i a) :
    (ofList start elements).lookup slot = .found i a := by
  obtain ⟨hget, rfl⟩ := h
  obtain ⟨hi, -⟩ := List.getElem?_eq_some_iff.1 hget
  have hbelow : ∀ k < i, slotAt start elements k < slotAt start elements i :=
    fun k hk => slotAt_lt hwidth (Nat.lt_trans hk hi) hk
  rw [lookup_ofList_of_reaches hwidth (Nat.le_of_lt hi) hbelow fun k _ hk => slotAt_le hk, hget]
  exact if_pos rfl

theorem lookup_of_isInside (h : IsInside start elements slot i) :
    (ofList start elements).lookup slot
      = if i + 1 < elements.length then .invalid (i + 1) else .tooLarge := by
  obtain ⟨a, hget, hgt, hlt⟩ := h
  obtain ⟨hi, -⟩ := List.getElem?_eq_some_iff.1 hget
  rw [← slotAt_succ hget] at hlt
  have hbelow : ∀ k < i + 1, slotAt start elements k < slot :=
    fun k hk => Nat.lt_of_le_of_lt (slotAt_le (Nat.le_of_lt_succ hk)) hgt
  have hreaches : ∀ k < elements.length, i + 1 ≤ k → slot ≤ slotAt start elements k :=
    fun k _ hk => Nat.le_trans (Nat.le_of_lt hlt) (slotAt_le hk)
  rw [lookup_ofList_of_reaches hwidth hi hbelow hreaches]
  by_cases hnext : i + 1 < elements.length
  · rw [if_pos hnext, List.getElem?_eq_getElem hnext]
    exact if_neg (Nat.ne_of_gt hlt)
  · rw [if_neg hnext, List.getElem?_eq_none (Nat.le_of_not_lt hnext)]

theorem lookup_of_next_le (h : (ofList start elements).next ≤ slot) :
    (ofList start elements).lookup slot = .tooLarge := by
  rw [next_ofList] at h
  have hbelow : ∀ k < elements.length, slotAt start elements k < slot :=
    fun k hk => Nat.lt_of_lt_of_le (slotAt_lt hwidth hk hk) h
  rw [lookup_ofList_of_reaches hwidth (Nat.le_refl _) hbelow
      fun k hk hle => absurd hk (Nat.not_lt.2 hle),
    List.getElem?_eq_none (Nat.le_refl _)]

theorem lookup_cases (h : start ≤ slot) :
    (∃ i a, StartsAt start elements slot i a ∧ (ofList start elements).lookup slot = .found i a)
      ∨ (∃ i, IsInside start elements slot i ∧ (ofList start elements).lookup slot
        = if i + 1 < elements.length then .invalid (i + 1) else .tooLarge)
      ∨ ((ofList start elements).next ≤ slot
        ∧ (ofList start elements).lookup slot = .tooLarge) := by
  rcases startsAt_or_isInside_or_ended elements h with ⟨i, a, hstarts⟩ | ⟨i, hinside⟩ | hended
  · exact .inl ⟨i, a, hstarts, lookup_of_startsAt hwidth hstarts⟩
  · exact .inr (.inl ⟨i, hinside, lookup_of_isInside hwidth hinside⟩)
  · exact .inr (.inr ⟨hended, lookup_of_next_le hwidth hended⟩)

theorem found_iff_startsAt (h : start ≤ slot) :
    (ofList start elements).lookup slot = .found i a ↔ StartsAt start elements slot i a := by
  refine ⟨fun hfound => ?_, lookup_of_startsAt hwidth⟩
  obtain ⟨j, b, hstarts, heq⟩ | ⟨j, -, heq⟩ | ⟨-, heq⟩ := lookup_cases hwidth h
  · rw [heq] at hfound
    cases hfound
    exact hstarts
  · rw [heq] at hfound
    split at hfound <;> cases hfound
  · rw [heq] at hfound
    cases hfound

end Lookup

/--
The answer tells where the slot is: it names the element that starts there, or the one that only
takes it up, and it is too large exactly from the end of the table on.
-/
structure Locates (start : Nat) (elements : List α) (slot : Nat) (answer : SlotLookup α) : Prop where
  found_iff : ∀ i a, answer = .found i a ↔ StartsAt start elements slot i a
  tooLarge_iff : answer = .tooLarge ↔ (ofList start elements).next ≤ slot
  invalid_iff : ∀ i, answer = .invalid i ↔ IsInside start elements slot i

theorem locates_of_not_isInside (hwidth : ∀ a ∈ elements, 1 ≤ width a) (h : start ≤ slot)
    (houtside : ∀ i, ¬ IsInside start elements slot i) :
    Locates start elements slot ((ofList start elements).lookup slot) where
  found_iff i a := found_iff_startsAt hwidth h
  tooLarge_iff := by
    refine ⟨fun hlarge => ?_, lookup_of_next_le hwidth⟩
    obtain ⟨i, a, -, heq⟩ | ⟨i, hinside, -⟩ | ⟨hended, -⟩ := lookup_cases hwidth h
    · rw [heq] at hlarge
      cases hlarge
    · exact absurd hinside (houtside i)
    · exact hended
  invalid_iff i := by
    refine ⟨fun hinvalid => ?_, fun hinside => absurd hinside (houtside i)⟩
    obtain ⟨j, a, -, heq⟩ | ⟨j, hinside, -⟩ | ⟨-, heq⟩ := lookup_cases hwidth h
    · rw [heq] at hinvalid
      cases hinvalid
    · exact absurd hinside (houtside j)
    · rw [heq] at hinvalid
      cases hinvalid

theorem not_isInside_of_locates (hwidth : ∀ a ∈ elements, 1 ≤ width a)
    (hlocates : Locates start elements slot ((ofList start elements).lookup slot)) (i : Nat) :
    ¬ IsInside start elements slot i := by
  intro hinside
  have hanswer := (hlocates.invalid_iff i).2 hinside
  rw [lookup_of_isInside hwidth hinside] at hanswer
  split at hanswer
  · have := SlotLookup.invalid.inj hanswer
    omega
  · cases hanswer

/--
Looking up a slot finds an element exactly if it starts there. The answer tells where the slot is
exactly if no element takes it up without starting there. Such a slot is answered with the element
after that one, and as too large if that one is the last.
-/
theorem locates_lookup_iff (hwidth : ∀ a ∈ elements, 1 ≤ width a) (h : start ≤ slot) :
    (∀ i a, (ofList start elements).lookup slot = .found i a ↔ StartsAt start elements slot i a)
      ∧ (Locates start elements slot ((ofList start elements).lookup slot)
        ↔ ∀ i, ¬ IsInside start elements slot i)
      ∧ ∀ i, IsInside start elements slot i → (ofList start elements).lookup slot
        = if i + 1 < elements.length then .invalid (i + 1) else .tooLarge := by
  refine ⟨fun i a => found_iff_startsAt hwidth h, ⟨?_, ?_⟩, fun i => lookup_of_isInside hwidth⟩
  · exact not_isInside_of_locates hwidth
  · exact locates_of_not_isInside hwidth h

end Slots

/-- Constants of which the second takes up two slots. -/
def mixedConstants : List Constant := [.integer 7, .long 7, .utf8 "A"]

theorem locates_lookup_mixedConstants :
    (∀ c ∈ mixedConstants, 1 ≤ width c) ∧ 1 ≤ 4 ∧ StartsAt 1 mixedConstants 4 2 (.utf8 "A")
      ∧ (ofList 1 mixedConstants).lookup 4 = .found 2 (.utf8 "A")
      ∧ Locates 1 mixedConstants 4 ((ofList 1 mixedConstants).lookup 4) := by
  have hwidth : ∀ c ∈ mixedConstants, 1 ≤ width c := by decide
  have hstarts : StartsAt 1 mixedConstants 4 2 (.utf8 "A") := ⟨rfl, rfl⟩
  have hstart : 1 ≤ 4 := by decide
  obtain ⟨hfound, hlocates, hinside⟩ := locates_lookup_iff hwidth hstart
  have hanswer := (hfound 2 (.utf8 "A")).2 hstarts
  refine ⟨hwidth, hstart, hstarts, hanswer, hlocates.2 ?_⟩
  intro i hi
  have hpassed := hinside i hi
  rw [hanswer] at hpassed
  split at hpassed <;> cases hpassed

/--
The second slot of a long is not told to be inside it: it is answered with the constant after it,
and as if the table ended before it if there is none.
-/
theorem lookup_insideLong :
    IsInside 1 [Constant.long 7, .utf8 "A"] 2 0 ∧ IsInside 1 [Constant.long 7] 2 0
      ∧ (ofList 1 [Constant.long 7, .utf8 "A"]).lookup 2 = .invalid 1
      ∧ (ofList 1 [Constant.long 7]).lookup 2 = .tooLarge
      ∧ (ofList 1 [Constant.long 7]).next = 3
      ∧ ¬ Locates 1 [Constant.long 7, .utf8 "A"] 2
        ((ofList 1 [Constant.long 7, .utf8 "A"]).lookup 2)
      ∧ ¬ Locates 1 [Constant.long 7] 2 ((ofList 1 [Constant.long 7]).lookup 2) := by
  have hbefore : IsInside 1 [Constant.long 7, .utf8 "A"] 2 0 := ⟨.long 7, rfl, by decide⟩
  have hlast : IsInside 1 [Constant.long 7] 2 0 := ⟨.long 7, rfl, by decide⟩
  have hinvalid := lookup_of_isInside (by decide) hbefore
  have hlarge := lookup_of_isInside (by decide) hlast
  refine ⟨hbefore, hlast, hinvalid, hlarge, rfl, ?_, ?_⟩
  · intro hlocates
    cases hinvalid.symm.trans ((hlocates.invalid_iff 0).2 hbefore)
  · intro hlocates
    cases hlarge.symm.trans ((hlocates.invalid_iff 0).2 hlast)

end ClassPatch.SlotTable
