import ClassPatch.Proofs.Bytecode.Assemble
import Mathlib.Data.Finset.Erase
import Mathlib.Data.Finset.Filter
import Mathlib.Data.Finset.Range

/-!
Which jumps are widened. Where no element is a table of jumps, the bytes of an element do not depend
on its offset, so that every target is at least as far away in code with more wide jumps. Hence a
round only widens what has to be wide in any layout whose jumps reach, and the rounds end with the
least set of wide jumps.
-/

namespace ClassPatch

namespace LayoutElement

/-- Whether the element is a table of jumps, which is padded to its offset. -/
def isSwitch : LayoutElement → Bool
  | .branch (.tableSwitch ..) | .branch (.lookupSwitch ..) => true
  | _ => false

/-- The wide form of a jump that has one. -/
def wide : LayoutElement → LayoutElement
  | .branch (.goto label) => .branch (.gotoWide label)
  | .branch (.jsr label) => .branch (.jsrWide label)
  | e => e

variable {labels : LabelOffsets} {offset : Nat} {e f g : LayoutElement}

theorem widened_wide (e : LayoutElement) : Widened e e.wide := by
  unfold wide
  split
  · exact .branch (.goto _)
  · exact .branch (.jsr _)
  · exact .refl _

theorem exists_of_wide_ne (h : e.wide ≠ e) :
    ∃ label, e = .branch (.goto label) ∧ e.wide = .branch (.gotoWide label)
      ∨ e = .branch (.jsr label) ∧ e.wide = .branch (.jsrWide label) := by
  unfold wide at h
  split at h
  next label => exact ⟨label, .inl ⟨rfl, rfl⟩⟩
  next label => exact ⟨label, .inr ⟨rfl, rfl⟩⟩
  next => exact absurd rfl h

theorem widened_iff : Widened e f ↔ f = e ∨ f = e.wide := by
  constructor
  · intro h
    cases h with
    | label | instruction => exact .inl rfl
    | branch h =>
      cases h with
      | same => exact .inl rfl
      | goto | jsr => exact .inr rfl
  · rintro (rfl | rfl)
    · exact .refl f
    · exact widened_wide e

theorem Widened.antisymm (h : Widened e f) (h' : Widened f e) : f = e := by
  cases h with
  | label | instruction => rfl
  | branch h =>
    cases h with
    | same => rfl
    | goto | jsr =>
      cases h' with
      | branch h' => cases h'

theorem Widened.isSwitch_eq (h : Widened e f) : f.isSwitch = e.isSwitch := by
  cases h with
  | label | instruction => rfl
  | branch h => cases h <;> rfl

theorem Widened.width_le (h : Widened e f) (he : e.isSwitch = false) (o o' : Nat) :
    e.width o ≤ f.width o' := by
  cases h with
  | label | instruction => exact Nat.le_refl _
  | @branch b c h =>
    cases h with
    | goto | jsr => exact (by decide : 3 ≤ 5)
    | same =>
      cases b with
      | tableSwitch | lookupSwitch => cases he
      | _ => exact Nat.le_refl _

theorem Widened.of_widen (h : Widened e g) (hwiden : e.widen labels offset = .ok f)
    (hfits : g = e → ∀ label, (e = .branch (.goto label) ∨ e = .branch (.jsr label)) →
      ∀ n : Nat, labels[label]? = some n → fitsShort (n - offset) = true) :
    Widened f g := by
  unfold widen at hwiden
  split at hwiden
  next label =>
    obtain ⟨n, hn, hwiden⟩ := bind_eq_ok.1 hwiden
    obtain rfl := pure_eq_ok.1 hwiden
    split
    · exact h
    next hfar =>
      rcases widened_iff.1 h with rfl | rfl
      · exact absurd (hfits rfl label (.inl rfl) n (LabelOffsets.of_offset hn)) hfar
      · exact .refl _
  next label =>
    obtain ⟨n, hn, hwiden⟩ := bind_eq_ok.1 hwiden
    obtain rfl := pure_eq_ok.1 hwiden
    split
    · exact h
    next hfar =>
      rcases widened_iff.1 h with rfl | rfl
      · exact absurd (hfits rfl label (.inr rfl) n (LabelOffsets.of_offset hn)) hfar
      · exact .refl _
  next =>
    obtain rfl := pure_eq_ok.1 hwiden
    exact h

end LayoutElement

section Offsets

variable {w w' : List LayoutElement} {label : Label} {n : Nat}

/-- Offset of the element at an index. -/
def offsetAt (w : List LayoutElement) (i : Nat) : Nat := endOffset 0 (w.take i)

theorem getElem?_placeFrom (offset : Nat) (w : List LayoutElement) (i : Nat) :
    (placeFrom offset w)[i]? = w[i]?.map fun e => (endOffset offset (w.take i), e) := by
  induction w generalizing offset i with
  | nil => rfl
  | cons e w ih =>
    cases i with
    | zero => rfl
    | succ i => exact ih _ i

theorem mem_placeFrom_zero_iff {offset : Nat} {e : LayoutElement} :
    (offset, e) ∈ placeFrom 0 w ↔ ∃ i, w[i]? = some e ∧ offset = offsetAt w i := by
  rw [List.mem_iff_getElem?]
  refine exists_congr fun i => ?_
  rw [getElem?_placeFrom, Option.map_eq_some_iff]
  constructor
  · rintro ⟨e', he', heq⟩
    cases heq
    exact ⟨he', rfl⟩
  · rintro ⟨he, rfl⟩
    exact ⟨e, he, rfl⟩

theorem endOffset_append (offset : Nat) (xs ys : List LayoutElement) :
    endOffset offset (xs ++ ys) = endOffset (endOffset offset xs) ys := by
  induction xs generalizing offset with
  | nil => rfl
  | cons e xs ih => exact ih _

theorem offsetAt_eq_of_le {i j : Nat} (hij : i ≤ j) (w : List LayoutElement) :
    offsetAt w j = endOffset (offsetAt w i) ((w.take j).drop i) := by
  rw [offsetAt, offsetAt, ← endOffset_append, ← Nat.min_eq_left hij, ← List.take_take,
    Nat.min_eq_left hij, List.take_append_drop]

theorem offsetAt_le {i j : Nat} (hij : i ≤ j) (w : List LayoutElement) :
    offsetAt w i ≤ offsetAt w j := by
  rw [offsetAt_eq_of_le hij]
  exact le_endOffset _ _

theorem endOffset_add_le (h : List.Forall₂ LayoutElement.Widened w w')
    (hswitch : ∀ e ∈ w, e.isSwitch = false) (o o' : Nat) :
    endOffset o w + o' ≤ endOffset o' w' + o := by
  induction h generalizing o o' with
  | nil => exact Nat.le_of_eq (Nat.add_comm _ _)
  | @cons e f w w' hhead _ ih =>
    rw [List.forall_mem_cons] at hswitch
    have hwidth := hhead.width_le hswitch.1 o o'
    have hrest := ih hswitch.2 (o + e.width o) (o' + f.width o')
    unfold endOffset
    omega

theorem offsetAt_add_le (h : List.Forall₂ LayoutElement.Widened w w')
    (hswitch : ∀ e ∈ w, e.isSwitch = false) {i j : Nat} (hij : i ≤ j) :
    offsetAt w j + offsetAt w' i ≤ offsetAt w' j + offsetAt w i := by
  rw [offsetAt_eq_of_le hij w, offsetAt_eq_of_le hij w']
  apply endOffset_add_le
  · exact List.forall₂_drop i (List.forall₂_take j h)
  · intro e he
    exact hswitch e (List.mem_of_mem_take (List.mem_of_mem_drop he))

theorem fitsShort_of_offsetAt (h : List.Forall₂ LayoutElement.Widened w w')
    (hswitch : ∀ e ∈ w, e.isSwitch = false) {i j : Nat}
    (hfits : fitsShort (offsetAt w' j - offsetAt w' i) = true) :
    fitsShort (offsetAt w j - offsetAt w i) = true := by
  simp only [fitsShort, Bool.and_eq_true, decide_eq_true_eq] at hfits ⊢
  rcases Nat.le_total i j with hij | hji
  · have hapart := offsetAt_add_le h hswitch hij
    have hle := offsetAt_le hij w
    omega
  · have hapart := offsetAt_add_le h hswitch hji
    have hle := offsetAt_le hji w
    omega

/-- The label is placed at the index, and nowhere after it. -/
structure IsLastLabel (w : List LayoutElement) (label : Label) (j : Nat) : Prop where
  placed : w[j]? = some (.label label)
  last : ∀ k, j < k → w[k]? ≠ some (.label label)

theorem IsLastLabel.unique {j j' : Nat} (h : IsLastLabel w label j)
    (h' : IsLastLabel w label j') : j = j' := by
  rcases Nat.lt_trichotomy j j' with hlt | heq | hlt
  · exact absurd h'.placed (h.last j' hlt)
  · exact heq
  · exact absurd h.placed (h'.last j hlt)

theorem getElem?_eq_label_iff (h : List.Forall₂ LayoutElement.Widened w w') {i : Nat} :
    w[i]? = some (.label label) ↔ w'[i]? = some (.label label) := by
  constructor
  · intro hi
    obtain ⟨f, hf, hwidened⟩ := exists_rel_of_getElem? h hi
    rw [hf, (hwidened.eq_label_iff label).1 rfl]
  · intro hi
    obtain ⟨e, he, hwidened⟩ := exists_rel_of_getElem? h.flip hi
    rw [he, (hwidened.eq_label_iff label).2 rfl]

theorem IsLastLabel.of_widened {j : Nat} (hlast : IsLastLabel w label j)
    (h : List.Forall₂ LayoutElement.Widened w w') : IsLastLabel w' label j where
  placed := (getElem?_eq_label_iff h).1 hlast.placed
  last k hk hlabel := hlast.last k hk ((getElem?_eq_label_iff h).2 hlabel)

theorem exists_isLastLabel_of_foldl {offset : Nat} {labels : LabelOffsets}
    (h : ((placeFrom offset w).foldl LabelOffsets.record labels)[label]? = some n) :
    (∃ j, IsLastLabel w label j ∧ n = endOffset offset (w.take j))
      ∨ labels[label]? = some n ∧ .label label ∉ w := by
  induction w generalizing offset labels with
  | nil => exact .inr ⟨h, List.not_mem_nil⟩
  | cons e w ih =>
    rcases ih h with ⟨j, hlast, hn⟩ | ⟨hrecord, hmem⟩
    · refine .inl ⟨j + 1, ⟨hlast.placed, ?_⟩, hn⟩
      rintro (_ | k) hk
      · cases hk
      · exact hlast.last k (Nat.lt_of_succ_lt_succ hk)
    · have hlater (k : Nat) : w[k]? ≠ some (.label label) :=
        fun hk => hmem (List.mem_of_getElem? hk)
      by_cases he : e = .label label
      · subst he
        change (labels.insert label offset)[label]? = some n at hrecord
        rw [Std.HashMap.getElem?_insert_self] at hrecord
        cases hrecord
        refine .inl ⟨0, ⟨rfl, ?_⟩, rfl⟩
        rintro (_ | k) hk
        · cases hk
        · exact hlater k
      · rcases LabelOffsets.of_record hrecord with hlabels | heq
        · refine .inr ⟨hlabels, ?_⟩
          rw [List.mem_cons, not_or]
          exact ⟨Ne.symm he, hmem⟩
        · cases heq
          exact absurd rfl he

theorem exists_isLastLabel (h : (labelOffsets (placeFrom 0 w))[label]? = some n) :
    ∃ j, IsLastLabel w label j ∧ n = offsetAt w j := by
  rcases exists_isLastLabel_of_foldl h with hlast | ⟨hempty, -⟩
  · exact hlast
  · rw [Std.HashMap.getElem?_empty] at hempty
    cases hempty

theorem fitsShort_of_widened (h : List.Forall₂ LayoutElement.Widened w w')
    (hswitch : ∀ e ∈ w, e.isSwitch = false) {i n' : Nat}
    (hn : (labelOffsets (placeFrom 0 w))[label]? = some n)
    (hn' : (labelOffsets (placeFrom 0 w'))[label]? = some n')
    (hfits : fitsShort (n' - offsetAt w' i) = true) : fitsShort (n - offsetAt w i) = true := by
  obtain ⟨j, hlast, rfl⟩ := exists_isLastLabel hn
  obtain ⟨j', hlast', rfl⟩ := exists_isLastLabel hn'
  obtain rfl := (hlast.of_widened h).unique hlast'
  exact fitsShort_of_offsetAt h hswitch hfits

theorem exists_labelOffsets_of_widened (h : List.Forall₂ LayoutElement.Widened w w')
    (hn : (labelOffsets (placeFrom 0 w))[label]? = some n) :
    ∃ n', (labelOffsets (placeFrom 0 w'))[label]? = some n' := by
  obtain ⟨j, hlast, -⟩ := exists_isLastLabel hn
  exact exists_labelOffsets_iff.2 (List.mem_of_getElem? (hlast.of_widened h).placed)

end Offsets

/-- Jumps of placed code that could be wide, but are short, reach their targets. -/
def ShortJumpsReach (placed : List (Nat × LayoutElement)) : Prop :=
  ∀ offset b, (offset, .branch b) ∈ placed → ∀ label, (b = .goto label ∨ b = .jsr label) →
    ∀ n : Nat, (labelOffsets placed)[label]? = some n → fitsShort (n - offset) = true

section Rounds

variable {elements w w' : List LayoutElement}

theorem widened_of_widenOnce_of_reach (honce : widenOnce elements = .ok w)
    (h : List.Forall₂ LayoutElement.Widened elements w')
    (hswitch : ∀ e ∈ elements, e.isSwitch = false) (hreach : ShortJumpsReach (placeFrom 0 w')) :
    List.Forall₂ LayoutElement.Widened w w' := by
  have hround := mapM_eq_ok.1 honce
  have hlength := (widened_of_widenOnce honce).length_eq
  refine List.forall₂_iff_get.2 ⟨hlength.symm.trans h.length_eq, fun i hi hi' => ?_⟩
  have hf : w[i]? = some (w.get ⟨i, hi⟩) := List.getElem?_eq_getElem hi
  have hg : w'[i]? = some (w'.get ⟨i, hi'⟩) := List.getElem?_eq_getElem hi'
  obtain ⟨e, he, hwidened⟩ := exists_rel_of_getElem? h.flip hg
  have hplaced : (placeFrom 0 elements)[i]? = some (offsetAt elements i, e) := by
    rw [getElem?_placeFrom, he]
    rfl
  refine hwidened.of_widen (rel_of_getElem? hround hplaced hf) ?_
  rintro heq label hjump n hn
  rw [heq] at hg
  obtain ⟨n', hn'⟩ := exists_labelOffsets_of_widened h hn
  apply fitsShort_of_widened h hswitch hn hn'
  rcases hjump with rfl | rfl
  · exact hreach _ _ (mem_placeFrom_zero_iff.2 ⟨i, hg, rfl⟩) label (.inl rfl) n' hn'
  · exact hreach _ _ (mem_placeFrom_zero_iff.2 ⟨i, hg, rfl⟩) label (.inr rfl) n' hn'

theorem forall_isSwitch_of_widened (h : List.Forall₂ LayoutElement.Widened elements w)
    (hswitch : ∀ e ∈ elements, e.isSwitch = false) : ∀ e ∈ w, e.isSwitch = false := by
  intro f hf
  obtain ⟨e, he, hwidened⟩ := exists_of_mem_right h hf
  rw [hwidened.isSwitch_eq]
  exact hswitch e he

theorem widened_of_widenAll_of_reach (hall : widenAll elements = .ok w)
    (h : List.Forall₂ LayoutElement.Widened elements w')
    (hswitch : ∀ e ∈ elements, e.isSwitch = false) (hreach : ShortJumpsReach (placeFrom 0 w')) :
    List.Forall₂ LayoutElement.Widened w w' := by
  induction elements using widenAll.induct with
  | case1 elements ih =>
    unfold widenAll at hall
    obtain ⟨once, honce, hall⟩ := bind_eq_ok.1 hall
    split at hall
    next hlt =>
      apply ih once hlt hall
      · exact widened_of_widenOnce_of_reach honce h hswitch hreach
      · exact forall_isSwitch_of_widened (widened_of_widenOnce honce) hswitch
    next =>
      obtain rfl := pure_eq_ok.1 hall
      exact h

theorem shortJumpsReach_of_widenAll (hall : widenAll elements = .ok w) :
    ShortJumpsReach (placeFrom 0 w) := by
  intro offset b hmem label hjump n hn
  exact LayoutElement.fitsShort_of_widen_self hjump hn (widen_of_mem_placeFrom hall hmem)

/-- Each label that a short jump goes to is among the elements. -/
def ShortJumpsPlaced (elements : List LayoutElement) : Prop :=
  ∀ e ∈ elements, e.isShortJump = true → ∀ label ∈ e.targets, .label label ∈ elements

theorem ShortJumpsPlaced.of_widened (hplaced : ShortJumpsPlaced elements)
    (h : List.Forall₂ LayoutElement.Widened elements w) : ShortJumpsPlaced w := by
  intro f hf hshort label hlabel
  obtain ⟨e, he, hwidened⟩ := exists_of_mem_right h hf
  obtain rfl : f = e := by
    cases hwidened with
    | label | instruction => rfl
    | branch hwidened =>
      cases hwidened with
      | same => rfl
      | goto | jsr => cases hshort
  obtain ⟨i, hi⟩ := List.getElem?_of_mem (hplaced f he hshort label hlabel)
  exact List.mem_of_getElem? ((getElem?_eq_label_iff h).1 hi)

theorem ShortJumpsPlaced.exists_widenOnce (hplaced : ShortJumpsPlaced elements) :
    ∃ w, widenOnce elements = .ok w := by
  apply exists_mapM
  rintro ⟨offset, e⟩ hmem
  cases hshort : e.isShortJump with
  | false => exact ⟨e, LayoutElement.widen_of_not_isShortJump hshort⟩
  | true =>
    apply LayoutElement.exists_widen_eq_ok
    intro label hlabel
    exact exists_labelOffsets_iff.2
      (hplaced e (mem_placeFrom_iff.1 ⟨offset, hmem⟩) hshort label hlabel)

theorem ShortJumpsPlaced.exists_widenAll (hplaced : ShortJumpsPlaced elements) :
    ∃ w, widenAll elements = .ok w := by
  induction elements using widenAll.induct with
  | case1 elements ih =>
    obtain ⟨once, honce⟩ := hplaced.exists_widenOnce
    unfold widenAll
    rw [honce, ok_bind]
    split
    next hlt => exact ih once hlt (hplaced.of_widened (widened_of_widenOnce honce))
    next => exact ⟨elements, rfl⟩

end Rounds

section Sets

variable {elements w : List LayoutElement}

/-- The elements with the jumps at the given indices widened. -/
def widenAt (indices : Finset Nat) (elements : List LayoutElement) : List LayoutElement :=
  elements.mapIdx fun i e => if i ∈ indices then e.wide else e

theorem getElem?_widenAt (indices : Finset Nat) (elements : List LayoutElement) (i : Nat) :
    (widenAt indices elements)[i]?
      = elements[i]?.map fun e => if i ∈ indices then e.wide else e := by
  unfold widenAt
  exact List.getElem?_mapIdx

theorem getElem?_widenAt_of_not_mem {indices : Finset Nat} {i : Nat} (h : i ∉ indices) :
    (widenAt indices elements)[i]? = elements[i]? := by
  rw [getElem?_widenAt]
  simp only [h, ↓reduceIte, Option.map_id']

theorem getElem?_widenAt_erase {indices : Finset Nat} {i j : Nat} (h : j ≠ i) :
    (widenAt (indices.erase i) elements)[j]? = (widenAt indices elements)[j]? := by
  rw [getElem?_widenAt, getElem?_widenAt]
  simp only [Finset.mem_erase, h, ne_eq, not_false_eq_true, true_and]

theorem widened_widenAt_of_subset {few many : Finset Nat} (h : few ⊆ many)
    (elements : List LayoutElement) :
    List.Forall₂ LayoutElement.Widened (widenAt few elements) (widenAt many elements) := by
  unfold widenAt
  refine List.forall₂_iff_get.2 ⟨by simp only [List.length_mapIdx], fun i hi hi' => ?_⟩
  simp only [List.get_eq_getElem, List.getElem_mapIdx]
  by_cases hfew : i ∈ few
  · rw [if_pos hfew, if_pos (h hfew)]
    exact .refl _
  · rw [if_neg hfew]
    split
    · exact LayoutElement.widened_wide _
    · exact .refl _

theorem widened_widenAt (indices : Finset Nat) (elements : List LayoutElement) :
    List.Forall₂ LayoutElement.Widened elements (widenAt indices elements) := by
  have hempty : widenAt ∅ elements = elements := by
    apply List.ext_getElem?
    exact fun i => getElem?_widenAt_of_not_mem (Finset.notMem_empty i)
  have hsubset := widened_widenAt_of_subset (Finset.empty_subset indices) elements
  rwa [hempty] at hsubset

/-- Indices of the elements that were widened. -/
def widenedIndices (elements w : List LayoutElement) : Finset Nat :=
  (Finset.range elements.length).filter fun i => w[i]? ≠ elements[i]?

theorem mem_widenedIndices_iff (h : List.Forall₂ LayoutElement.Widened elements w) {i : Nat} :
    i ∈ widenedIndices elements w
      ↔ ∃ e, elements[i]? = some e ∧ w[i]? = some e.wide ∧ e.wide ≠ e := by
  rw [widenedIndices, Finset.mem_filter, Finset.mem_range]
  constructor
  · rintro ⟨hi, hne⟩
    have he := List.getElem?_eq_getElem hi
    obtain ⟨f, hf, hwidened⟩ := exists_rel_of_getElem? h he
    refine ⟨_, he, ?_⟩
    rcases LayoutElement.widened_iff.1 hwidened with rfl | rfl
    · exact absurd (hf.trans he.symm) hne
    · refine ⟨hf, fun heq => hne ?_⟩
      rw [hf, he, heq]
  · rintro ⟨e, he, hf, hne⟩
    refine ⟨(List.getElem?_eq_some_iff.1 he).1, ?_⟩
    rw [hf, he]
    exact fun heq => hne (Option.some.inj heq)

theorem widenAt_widenedIndices (h : List.Forall₂ LayoutElement.Widened elements w) :
    widenAt (widenedIndices elements w) elements = w := by
  apply List.ext_getElem?
  intro i
  by_cases hi : i ∈ widenedIndices elements w
  · obtain ⟨e, he, hf, -⟩ := (mem_widenedIndices_iff h).1 hi
    rw [getElem?_widenAt, he, hf, Option.map_some, if_pos hi]
  · rw [getElem?_widenAt_of_not_mem hi]
    by_cases hlt : i < elements.length
    · by_contra hne
      exact hi (Finset.mem_filter.2 ⟨Finset.mem_range.2 hlt, Ne.symm hne⟩)
    · rw [List.getElem?_eq_none (Nat.not_lt.1 hlt),
        List.getElem?_eq_none (h.length_eq ▸ Nat.not_lt.1 hlt)]

theorem widenedIndices_subset {indices : Finset Nat}
    (h : List.Forall₂ LayoutElement.Widened elements w)
    (h' : List.Forall₂ LayoutElement.Widened w (widenAt indices elements)) :
    widenedIndices elements w ⊆ indices := by
  intro i hi
  obtain ⟨e, he, hf, hne⟩ := (mem_widenedIndices_iff h).1 hi
  by_contra hnot
  have hsame : (widenAt indices elements)[i]? = some e :=
    (getElem?_widenAt_of_not_mem hnot).trans he
  exact hne ((LayoutElement.widened_wide e).antisymm (rel_of_getElem? h' hf hsame))

end Sets

/-- The given jumps are those that are widened, and they have to be. -/
structure LeastWidening (elements : List LayoutElement) (chosen : Finset Nat) : Prop where
  widens : widenAll elements = .ok (widenAt chosen elements)
  isShortJump : ∀ i ∈ chosen, ∃ e, elements[i]? = some e ∧ e.isShortJump = true
  reach : ShortJumpsReach (placeFrom 0 (widenAt chosen elements))
  /-- No other choice after which the jumps that are left reach lacks one of them. -/
  least : ∀ indices, ShortJumpsReach (placeFrom 0 (widenAt indices elements)) → chosen ⊆ indices
  /-- As things are in the end, none of them reaches its target in two bytes. -/
  necessary : ∀ i ∈ chosen, ∃ offset label, ∃ n : Nat,
    ((placeFrom 0 (widenAt chosen elements))[i]? = some (offset, .branch (.gotoWide label))
      ∨ (placeFrom 0 (widenAt chosen elements))[i]? = some (offset, .branch (.jsrWide label)))
    ∧ (labelOffsets (placeFrom 0 (widenAt chosen elements)))[label]? = some n
    ∧ fitsShort (n - offset) = false
  /-- No other choice makes the code shorter. -/
  shortest : ∀ indices, ShortJumpsReach (placeFrom 0 (widenAt indices elements)) →
    endOffset 0 (widenAt chosen elements) ≤ endOffset 0 (widenAt indices elements)
  written : ∀ a, assemble elements = .ok a →
    a.labels = labelOffsets (placeFrom 0 (widenAt chosen elements))
      ∧ a.bytes.length = endOffset 0 (widenAt chosen elements)

section Least

variable {elements : List LayoutElement} {chosen : Finset Nat}

theorem fitsShort_eq_false_of_least (hswitch : ∀ e ∈ elements, e.isSwitch = false)
    (hreach : ShortJumpsReach (placeFrom 0 (widenAt chosen elements)))
    (hleast : ∀ indices, ShortJumpsReach (placeFrom 0 (widenAt indices elements)) →
      chosen ⊆ indices)
    {i n : Nat} (hi : i ∈ chosen) {b : Branch Label Label} {label : Label}
    (he : elements[i]? = some (.branch b)) (hb : b = .goto label ∨ b = .jsr label)
    (hn : (labelOffsets (placeFrom 0 (widenAt chosen elements)))[label]? = some n) :
    fitsShort (n - offsetAt (widenAt chosen elements) i) = false := by
  by_contra hfits
  rw [Bool.not_eq_false] at hfits
  refine Finset.notMem_erase i chosen (hleast (chosen.erase i) ?_ hi)
  intro offset b' hmem label' hjump n' hn'
  obtain ⟨j, hj, rfl⟩ := mem_placeFrom_zero_iff.1 hmem
  have hwidened := widened_widenAt_of_subset (Finset.erase_subset i chosen) elements
  have hswitch' := forall_isSwitch_of_widened
    (widened_widenAt (chosen.erase i) elements) hswitch
  obtain ⟨m, hm⟩ := exists_labelOffsets_of_widened hwidened hn'
  apply fitsShort_of_widened hwidened hswitch' hn' hm
  by_cases hji : j = i
  · subst hji
    rw [getElem?_widenAt_of_not_mem (Finset.notMem_erase j chosen), he] at hj
    cases hj
    obtain rfl : label' = label := by
      rcases hb with rfl | rfl <;> rcases hjump with hjump | hjump <;> cases hjump <;> rfl
    rw [hn] at hm
    cases hm
    exact hfits
  · rw [getElem?_widenAt_erase hji] at hj
    exact hreach _ _ (mem_placeFrom_zero_iff.2 ⟨j, hj, rfl⟩) label' hjump m hm

theorem exists_offset_of_short (hplaced : ShortJumpsPlaced elements) {i : Nat}
    {b : Branch Label Label} {label : Label} (he : elements[i]? = some (.branch b))
    (hb : b = .goto label ∨ b = .jsr label) (indices : Finset Nat) :
    ∃ n, (labelOffsets (placeFrom 0 (widenAt indices elements)))[label]? = some n := by
  have hlabel : .label label ∈ elements := by
    have hmem := List.mem_of_getElem? he
    rcases hb with rfl | rfl
    · exact hplaced _ hmem rfl label List.mem_cons_self
    · exact hplaced _ hmem rfl label List.mem_cons_self
  obtain ⟨n, hn⟩ := exists_labelOffsets_iff.2 hlabel
  exact exists_labelOffsets_of_widened (widened_widenAt indices elements) hn

/-- The jumps that the rounds widen are in every set after which short jumps reach. -/
theorem exists_least (hswitch : ∀ e ∈ elements, e.isSwitch = false)
    (hplaced : ShortJumpsPlaced elements) :
    ∃ chosen, widenAll elements = .ok (widenAt chosen elements)
      ∧ (∀ i ∈ chosen, ∃ e, elements[i]? = some e ∧ e.wide ≠ e)
      ∧ ∀ indices, ShortJumpsReach (placeFrom 0 (widenAt indices elements)) →
        chosen ⊆ indices := by
  obtain ⟨w, hall⟩ := hplaced.exists_widenAll
  have hwidened := widened_of_widenAll hall
  refine ⟨widenedIndices elements w, ?_, ?_, ?_⟩
  · rw [widenAt_widenedIndices hwidened, hall]
  · intro i hi
    obtain ⟨e, he, -, hne⟩ := (mem_widenedIndices_iff hwidened).1 hi
    exact ⟨e, he, hne⟩
  · intro indices hindices
    apply widenedIndices_subset hwidened
    exact widened_of_widenAll_of_reach hall (widened_widenAt indices elements) hswitch hindices

/--
Without tables of jumps, the jumps that are widened are the fewest after which those that are left
reach their targets.
-/
theorem exists_leastWidening (hswitch : ∀ e ∈ elements, e.isSwitch = false)
    (hplaced : ShortJumpsPlaced elements) : ∃ chosen, LeastWidening elements chosen := by
  obtain ⟨chosen, hall, hwide, hleast⟩ := exists_least hswitch hplaced
  have hreach := shortJumpsReach_of_widenAll hall
  refine ⟨chosen, ?_⟩
  constructor
  case widens => exact hall
  case isShortJump =>
    intro i hi
    obtain ⟨e, he, hne⟩ := hwide i hi
    refine ⟨e, he, ?_⟩
    obtain ⟨label, ⟨rfl, -⟩ | ⟨rfl, -⟩⟩ := LayoutElement.exists_of_wide_ne hne <;> rfl
  case reach => exact hreach
  case least => exact hleast
  case necessary =>
    intro i hi
    obtain ⟨e, he, hne⟩ := hwide i hi
    have hat : (placeFrom 0 (widenAt chosen elements))[i]?
        = some (offsetAt (widenAt chosen elements) i, e.wide) := by
      rw [getElem?_placeFrom, getElem?_widenAt, he, Option.map_some, if_pos hi]
      rfl
    obtain ⟨label, ⟨rfl, hwide⟩ | ⟨rfl, hwide⟩⟩ := LayoutElement.exists_of_wide_ne hne
    · obtain ⟨n, hn⟩ := exists_offset_of_short hplaced he (.inl rfl) chosen
      exact ⟨_, label, n, .inl (hwide ▸ hat), hn,
        fitsShort_eq_false_of_least hswitch hreach hleast hi he (.inl rfl) hn⟩
    · obtain ⟨n, hn⟩ := exists_offset_of_short hplaced he (.inr rfl) chosen
      exact ⟨_, label, n, .inr (hwide ▸ hat), hn,
        fitsShort_eq_false_of_least hswitch hreach hleast hi he (.inr rfl) hn⟩
  case shortest =>
    intro indices hindices
    -- what is chosen is part of the other choice, which can only make code longer
    have hwidened := widened_widenAt_of_subset (hleast indices hindices) elements
    exact endOffset_add_le hwidened
      (forall_isSwitch_of_widened (widened_widenAt chosen elements) hswitch) 0 0
  case written =>
    intro a ha
    obtain ⟨w, hw, -, -, -, hlength⟩ := of_assemble ha
    obtain ⟨w', hw', -, hlabels, -⟩ := laidOut_of_assemble ha
    rw [hall] at hw hw'
    cases hw
    cases hw'
    exact ⟨hlabels, hlength⟩

/-- The second jump has to be wide, and then the first one as well. -/
def nestedJumps : List LayoutElement :=
  .branch (.goto 0) :: .branch (.jsr 1) :: List.replicate 32761 (.instruction (.plain .nop))
    ++ [.label 0, .branch .voidReturn, .branch .voidReturn, .branch .voidReturn,
      .branch .voidReturn, .label 1, .branch .athrow]

theorem exists_leastWidening_nestedJumps :
    (∀ e ∈ nestedJumps, e.isSwitch = false) ∧ ShortJumpsPlaced nestedJumps
      ∧ ∃ chosen, LeastWidening nestedJumps chosen := by
  have hswitch : ∀ e ∈ nestedJumps, e.isSwitch = false := by
    simp only [nestedJumps, List.forall_mem_append, List.forall_mem_cons]
    refine ⟨⟨rfl, rfl, ?_⟩, rfl, rfl, rfl, rfl, rfl, rfl, rfl, List.forall_mem_nil _⟩
    intro e he
    rw [List.eq_of_mem_replicate he]
    rfl
  have hplaced : ShortJumpsPlaced nestedJumps := by
    simp only [ShortJumpsPlaced, nestedJumps, List.forall_mem_append, List.forall_mem_cons]
    refine ⟨⟨?_, ?_, ?_⟩, nofun, nofun, nofun, nofun, nofun, nofun, nofun, List.forall_mem_nil _⟩
    · intro _ label hlabel
      obtain rfl := List.mem_singleton.1 hlabel
      exact List.mem_append_right _ List.mem_cons_self
    · intro _ label hlabel
      obtain rfl := List.mem_singleton.1 hlabel
      exact List.mem_append_right _ (by decide)
    · intro e he hshort
      rw [List.eq_of_mem_replicate he] at hshort
      cases hshort
  exact ⟨hswitch, hplaced, exists_leastWidening hswitch hplaced⟩

end Least

end ClassPatch
