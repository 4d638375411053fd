import ClassPatch.Proofs.Bytecode.Layout

/-!
When code can be laid out, and what it is decoded to. Short jumps are widened in rounds; each round
but the last widens one at least, so the jumps that can be widened bound the rounds.
-/

namespace ClassPatch

/--
Widen short jumps in at most the given number of rounds. The last round is the one that changes
nothing.
-/
def widenWithin : Nat → List LayoutElement → Option (Except ClassError (List LayoutElement))
  | 0, _ => none
  | rounds + 1, elements =>
    match widenOnce elements with
    | .error e => some (.error e)
    | .ok widened =>
      if widened = elements then some (.ok elements) else widenWithin rounds widened

namespace Branch

variable {N F N' F' L : Type}

/-- Whether the branch goes on or jumps. Such a branch has no wide form. -/
def isConditional : Branch N F → Bool
  | .ifZero .. | .ifInts .. | .ifRefs .. | .ifNull .. => true
  | _ => false

/-- The target of a jump whose distance is held in two bytes. -/
def shortTarget? : Branch N F → Option N
  | .ifZero _ t | .ifInts _ t | .ifRefs _ t | .ifNull _ t | .goto t | .jsr t => some t
  | _ => none

theorem shortTarget?_aligned (offset : Nat) (b : Branch N F) :
    (b.aligned offset).shortTarget? = b.shortTarget? := by
  cases b <;> rfl

theorem mem_targets_of_shortTarget? {b : Branch L L} {t : L} (h : t ∈ b.shortTarget?) :
    t ∈ b.targets := by
  cases b with
  | ifZero | ifInts | ifRefs | ifNull | goto | jsr =>
    cases h
    apply List.mem_cons_self
  | _ => cases h

theorem isConditional_or_of_shortTarget? {b : Branch L L} {t : L} (h : t ∈ b.shortTarget?) :
    b.isConditional = true ∧ b.targets = [t] ∨ b = .goto t ∨ b = .jsr t := by
  cases b with
  | goto =>
    cases h
    exact .inr (.inl rfl)
  | jsr =>
    cases h
    exact .inr (.inr rfl)
  | ifZero | ifInts | ifRefs | ifNull =>
    cases h
    exact .inl ⟨rfl, rfl⟩
  | _ => cases h

theorem Rel.exists_of_shortTarget? {near : N → N' → Prop} {far : F → F' → Prop}
    {b : Branch N F} {b' : Branch N' F'} (h : Rel near far b b') {t : N}
    (ht : t ∈ b.shortTarget?) : ∃ u, near t u := by
  cases h with
  | ifZero _ h | ifInts _ h | ifRefs _ h | ifNull _ h | goto h | jsr h =>
    cases ht
    exact ⟨_, h⟩
  | _ => cases ht

theorem Rel.exists_of_mem_targets {near : L → N' → Prop} {far : L → F' → Prop}
    {b : Branch L L} {b' : Branch N' F'} (h : Rel near far b b') {t : L} (ht : t ∈ b.targets) :
    (∃ u, near t u) ∨ ∃ u, far t u := by
  cases h with
  | ifZero _ h | ifInts _ h | ifRefs _ h | ifNull _ h | goto h | jsr h =>
    rw [List.mem_singleton.1 ht]
    exact .inl ⟨_, h⟩
  | gotoWide h | jsrWide h =>
    rw [List.mem_singleton.1 ht]
    exact .inr ⟨_, h⟩
  | tableSwitch padding low hfallback h =>
    rcases List.mem_cons.1 ht with rfl | ht
    · exact .inr ⟨_, hfallback⟩
    · obtain ⟨u, -, hu⟩ := exists_of_mem_left h ht
      exact .inr ⟨u, hu⟩
  | lookupSwitch padding hfallback h =>
    rcases List.mem_cons.1 ht with rfl | ht
    · exact .inr ⟨_, hfallback⟩
    · obtain ⟨p, hp, rfl⟩ := List.mem_map.1 ht
      obtain ⟨q, -, -, hq⟩ := exists_of_mem_left h hp
      exact .inr ⟨q.2, hq⟩
  | _ => cases ht

section Convert

variable {near : L → Except ClassError N'} {far : L → Except ClassError F'} {b : Branch L L}

theorem exists_mapM_eq_ok (hnear : ∀ t ∈ b.shortTarget?, ∃ u, near t = .ok u)
    (hfar : ∀ t ∈ b.targets, ∃ u, far t = .ok u) : ∃ b', b.mapM near far = .ok b' := by
  cases b with
  | ifZero | ifInts | ifRefs | ifNull | goto | jsr =>
    obtain ⟨u, hu⟩ := hnear _ rfl
    exact ⟨_, bind_of_eq_ok hu _⟩
  | gotoWide | jsrWide =>
    obtain ⟨u, hu⟩ := hfar _ List.mem_cons_self
    exact ⟨_, bind_of_eq_ok hu _⟩
  | tableSwitch padding fallback low ts =>
    obtain ⟨u, hu⟩ := hfar fallback List.mem_cons_self
    obtain ⟨us, hus⟩ := exists_mapM fun t ht => hfar t (List.mem_cons_of_mem _ ht)
    exact ⟨_, (bind_of_eq_ok hu _).trans (bind_of_eq_ok hus _)⟩
  | lookupSwitch padding fallback ps =>
    obtain ⟨u, hu⟩ := hfar fallback List.mem_cons_self
    have hpair : ∀ p ∈ ps, ∃ q : Int32 × F', (do return (p.1, ← far p.2)) = .ok q := by
      intro p hp
      obtain ⟨v, hv⟩ := hfar p.2 (List.mem_cons_of_mem _ (List.mem_map_of_mem hp))
      exact ⟨(p.1, v), bind_of_eq_ok hv _⟩
    obtain ⟨qs, hqs⟩ := exists_mapM hpair
    exact ⟨_, (bind_of_eq_ok hu _).trans (bind_of_eq_ok hqs _)⟩
  | _ => exact ⟨_, rfl⟩

theorem exists_of_mapM_eq_error {e : ClassError} (h : b.mapM near far = .error e) :
    (∃ t ∈ b.shortTarget?, near t = .error e) ∨ ∃ t ∈ b.targets, far t = .error e := by
  cases b with
  | ifZero | ifInts | ifRefs | ifNull | goto | jsr =>
    rcases bind_eq_error.1 h with hnear | ⟨u, -, h⟩
    · exact .inl ⟨_, rfl, hnear⟩
    · cases h
  | gotoWide | jsrWide =>
    rcases bind_eq_error.1 h with hfar | ⟨u, -, h⟩
    · exact .inr ⟨_, List.mem_cons_self, hfar⟩
    · cases h
  | tableSwitch padding fallback low ts =>
    rcases bind_eq_error.1 h with hfar | ⟨u, -, h⟩
    · exact .inr ⟨fallback, List.mem_cons_self, hfar⟩
    rcases bind_eq_error.1 h with hfar | ⟨us, -, h⟩
    · obtain ⟨t, ht, hfar⟩ := exists_of_listMapM_eq_error hfar
      exact .inr ⟨t, List.mem_cons_of_mem _ ht, hfar⟩
    · cases h
  | lookupSwitch padding fallback ps =>
    rcases bind_eq_error.1 h with hfar | ⟨u, -, h⟩
    · exact .inr ⟨fallback, List.mem_cons_self, hfar⟩
    rcases bind_eq_error.1 h with hfar | ⟨qs, -, h⟩
    · obtain ⟨p, hp, hpair⟩ := exists_of_listMapM_eq_error hfar
      rcases bind_eq_error.1 hpair with hfar | ⟨v, -, hpair⟩
      · exact .inr ⟨p.2, List.mem_cons_of_mem _ (List.mem_map_of_mem hp), hfar⟩
      · cases hpair
    · cases h
  | _ => cases h

end Convert

end Branch

namespace LabelOffsets

variable {labels : LabelOffsets} {label : Label}

theorem offset_eq_ok {n : Nat} : labels.offset label = .ok n ↔ labels[label]? = some n := by
  constructor
  · exact of_offset
  · intro h
    unfold offset
    rw [h]

theorem eq_undefinedLabel_of_offset {e : ClassError} (h : labels.offset label = .error e) :
    e = .undefinedLabel label := by
  unfold offset at h
  split at h <;> cases h
  rfl

end LabelOffsets

theorem mem_placeFrom_iff {offset : Nat} {elements : List LayoutElement} {e : LayoutElement} :
    (∃ o, (o, e) ∈ placeFrom offset elements) ↔ e ∈ elements := by
  have hmap := map_snd_placeFrom offset elements
  constructor
  · rintro ⟨o, ho⟩
    rw [← hmap]
    exact List.mem_map_of_mem ho
  · intro he
    rw [← hmap] at he
    obtain ⟨⟨o, e'⟩, ho, rfl⟩ := List.mem_map.1 he
    exact ⟨o, ho⟩

theorem exists_labelOffsets_iff {elements : List LayoutElement} {label : Label} :
    (∃ n, (labelOffsets (placeFrom 0 elements))[label]? = some n)
      ↔ .label label ∈ elements := by
  have hplaced : (∃ o, (o, CodeElement.label label) ∈ placeFrom 0 elements)
      ↔ .label label ∈ elements := mem_placeFrom_iff
  rw [← hplaced]
  constructor
  · rintro ⟨n, hn⟩
    exact ⟨n, mem_of_labelOffsets hn⟩
  · intro h
    rw [← Option.isSome_iff_exists]
    exact isSome_foldl_record (.inr h)

namespace LayoutElement

/-- Labels that the element jumps to. -/
def targets : LayoutElement → List Label
  | .branch b => b.targets
  | _ => []

theorem Widened.targets_eq {e f : LayoutElement} (h : Widened e f) : f.targets = e.targets := by
  cases h with
  | branch h => exact h.targets_eq
  | _ => rfl

theorem Widened.eq_label_iff {e f : LayoutElement} (h : Widened e f) (label : Label) :
    e = .label label ↔ f = .label label := by
  cases h with
  | label => exact Iff.rfl
  | _ => exact ⟨nofun, nofun⟩

variable {labels : LabelOffsets} {offset : Nat} {e f : LayoutElement}

theorem eq_or_of_widen (h : e.widen labels offset = .ok f) :
    f = e ∨ e.isShortJump = true ∧ f.isShortJump = false := by
  unfold widen at h
  split at h
  · obtain ⟨target, -, h⟩ := bind_eq_ok.1 h
    obtain rfl := pure_eq_ok.1 h
    split
    · exact .inl rfl
    · exact .inr ⟨rfl, rfl⟩
  · obtain ⟨target, -, h⟩ := bind_eq_ok.1 h
    obtain rfl := pure_eq_ok.1 h
    split
    · exact .inl rfl
    · exact .inr ⟨rfl, rfl⟩
  · obtain rfl := pure_eq_ok.1 h
    exact .inl rfl

theorem widen_of_not_isShortJump (h : e.isShortJump = false) : e.widen labels offset = .ok e := by
  unfold widen
  split
  · cases h
  · cases h
  · rfl

theorem exists_widen_eq_ok (h : ∀ k ∈ e.targets, ∃ n, labels[k]? = some n) :
    ∃ f, e.widen labels offset = .ok f := by
  unfold widen
  split
  · obtain ⟨n, hn⟩ := h _ List.mem_cons_self
    exact ⟨_, bind_of_eq_ok (LabelOffsets.offset_eq_ok.2 hn) _⟩
  · obtain ⟨n, hn⟩ := h _ List.mem_cons_self
    exact ⟨_, bind_of_eq_ok (LabelOffsets.offset_eq_ok.2 hn) _⟩
  · exact ⟨e, rfl⟩

theorem eq_undefinedLabel_of_widen {error : ClassError} (h : e.widen labels offset = .error error) :
    ∃ label, error = .undefinedLabel label := by
  unfold widen at h
  split at h
  · rcases bind_eq_error.1 h with h | ⟨n, -, h⟩
    · exact ⟨_, LabelOffsets.eq_undefinedLabel_of_offset h⟩
    · cases h
  · rcases bind_eq_error.1 h with h | ⟨n, -, h⟩
    · exact ⟨_, LabelOffsets.eq_undefinedLabel_of_offset h⟩
    · cases h
  · cases h

theorem fitsShort_of_widen_self {label : Label} {n : Nat} {b : Branch Label Label}
    (hb : b = .goto label ∨ b = .jsr label) (hlabel : labels[label]? = some n)
    (h : widen labels offset (.branch b) = .ok (.branch b)) : fitsShort (n - offset) = true := by
  have htarget := LabelOffsets.offset_eq_ok.2 hlabel
  rcases hb with rfl | rfl
  all_goals
    simp only [widen] at h
    rw [bind_of_eq_ok htarget, pure_eq_ok] at h
    split at h
    · assumption
    · cases h

end LayoutElement

section Rounds

variable {elements widened : List LayoutElement}

theorem eq_or_shortJumps_lt
    (h : List.Forall₂ (fun e f => f = e ∨ e.isShortJump = true ∧ f.isShortJump = false)
      elements widened) :
    widened = elements ∨ shortJumps widened < shortJumps elements := by
  unfold shortJumps
  induction h with
  | nil => exact .inl rfl
  | @cons e f elements widened hhead _ ih =>
    simp only [List.countP_cons]
    rcases hhead with rfl | ⟨he, hf⟩
    · rcases ih with rfl | hlt
      · exact .inl rfl
      · exact .inr (by omega)
    · refine .inr ?_
      rw [he, hf]
      rcases ih with rfl | hlt
      · simp
      · simp only [Bool.false_eq_true, ↓reduceIte]
        omega

theorem eq_or_shortJumps_lt_of_widenOnce (h : widenOnce elements = .ok widened) :
    widened = elements ∨ shortJumps widened < shortJumps elements := by
  apply eq_or_shortJumps_lt
  have hplaced := (mapM_eq_ok.1 h).imp fun _ _ => LayoutElement.eq_or_of_widen
  rw [← map_snd_placeFrom 0 elements]
  exact List.forall₂_map_left_iff.2 hplaced

theorem widenWithin_eq_some (rounds : Nat) (h : shortJumps elements < rounds) :
    widenWithin rounds elements = some (widenAll elements) := by
  induction rounds generalizing elements with
  | zero => cases h
  | succ rounds ih =>
    unfold widenWithin widenAll
    cases honce : widenOnce elements with
    | error e => rfl
    | ok widened =>
      dsimp only
      rw [ok_bind]
      rcases eq_or_shortJumps_lt_of_widenOnce honce with rfl | hlt
      · rw [if_pos rfl, if_neg (Nat.lt_irrefl _)]
        rfl
      · have hne : widened ≠ elements := by
          rintro rfl
          exact Nat.lt_irrefl _ hlt
        rw [if_neg hne, if_pos hlt]
        exact ih (by omega)

theorem widenOnce_of_widen_self (h : ∀ x ∈ placeFrom 0 elements,
    x.2.widen (labelOffsets (placeFrom 0 elements)) x.1 = .ok x.2) :
    widenOnce elements = .ok elements := by
  refine mapM_eq_ok.2 ?_
  have hself : List.Forall₂ (fun x e => x.2.widen (labelOffsets (placeFrom 0 elements)) x.1 = .ok e)
      (placeFrom 0 elements) ((placeFrom 0 elements).map (·.2)) :=
    List.forall₂_map_right_iff.2 (List.forall₂_same.2 h)
  rwa [map_snd_placeFrom] at hself

theorem widenAll_of_widenOnce (h : widenOnce elements = .ok elements) :
    widenAll elements = .ok elements := by
  unfold widenAll
  rw [h, ok_bind, if_neg (Nat.lt_irrefl _)]
  rfl

theorem widenOnce_of_widenAll (h : widenAll elements = .ok widened) :
    widenOnce widened = .ok widened := by
  induction elements using widenAll.induct with
  | case1 elements ih =>
    unfold widenAll at h
    obtain ⟨once, honce, h⟩ := bind_eq_ok.1 h
    split at h
    next hlt => exact ih once hlt h
    next hle =>
      obtain rfl := pure_eq_ok.1 h
      rcases eq_or_shortJumps_lt_of_widenOnce honce with rfl | hlt
      · exact honce
      · exact absurd hlt hle

theorem widen_of_mem_placeFrom (h : widenAll elements = .ok widened) {offset : Nat}
    {e : LayoutElement} (he : (offset, e) ∈ placeFrom 0 widened) :
    e.widen (labelOffsets (placeFrom 0 widened)) offset = .ok e := by
  have hplaced := mapM_eq_ok.1 (widenOnce_of_widenAll h)
  rw [← map_snd_placeFrom 0 widened, List.forall₂_map_right_iff, map_snd_placeFrom] at hplaced
  exact List.forall₂_same.1 hplaced _ he

/-- Each label that a branch jumps to is among the elements. -/
def LabelsPlaced (elements : List LayoutElement) : Prop :=
  ∀ e ∈ elements, ∀ label ∈ e.targets, .label label ∈ elements

theorem labelsPlaced_iff_of_widened
    (h : List.Forall₂ LayoutElement.Widened elements widened) :
    LabelsPlaced widened ↔ LabelsPlaced elements := by
  have hlabel (label : Label) : .label label ∈ widened ↔ .label label ∈ elements := by
    constructor
    · intro hmem
      obtain ⟨e, he, hwidened⟩ := exists_of_mem_right h hmem
      rwa [← (hwidened.eq_label_iff label).2 rfl]
    · intro hmem
      obtain ⟨f, hf, hwidened⟩ := exists_of_mem_left h hmem
      rwa [← (hwidened.eq_label_iff label).1 rfl]
  constructor
  · intro hplaced e he label hmem
    obtain ⟨f, hf, hwidened⟩ := exists_of_mem_left h he
    rw [← hwidened.targets_eq] at hmem
    exact (hlabel label).1 (hplaced f hf label hmem)
  · intro hplaced f hf label hmem
    obtain ⟨e, he, hwidened⟩ := exists_of_mem_right h hf
    rw [hwidened.targets_eq] at hmem
    exact (hlabel label).2 (hplaced e he label hmem)

theorem exists_widenOnce_eq_ok (h : LabelsPlaced elements) :
    ∃ widened, widenOnce elements = .ok widened := by
  apply exists_mapM
  intro x hx
  apply LayoutElement.exists_widen_eq_ok
  intro label hmem
  exact exists_labelOffsets_iff.2 (h x.2 (mem_placeFrom_iff.1 ⟨x.1, hx⟩) label hmem)

theorem exists_widenAll_eq_ok (h : LabelsPlaced elements) :
    ∃ widened, widenAll elements = .ok widened := by
  induction elements using widenAll.induct with
  | case1 elements ih =>
    obtain ⟨once, honce⟩ := exists_widenOnce_eq_ok h
    unfold widenAll
    rw [honce, ok_bind]
    split
    next hlt =>
      exact ih once hlt ((labelsPlaced_iff_of_widened (widened_of_widenOnce honce)).2 h)
    next => exact ⟨elements, rfl⟩

theorem eq_undefinedLabel_of_widenAll {e : ClassError} (h : widenAll elements = .error e) :
    ∃ label, e = .undefinedLabel label := by
  induction elements using widenAll.induct with
  | case1 elements ih =>
    unfold widenAll at h
    rcases bind_eq_error.1 h with h | ⟨once, -, h⟩
    · obtain ⟨x, -, hx⟩ := exists_of_listMapM_eq_error h
      exact LayoutElement.eq_undefinedLabel_of_widen hx
    · split at h
      next hlt => exact ih once hlt h
      next => cases h

end Rounds

/-- Conditional jumps of placed code reach their targets. -/
def ConditionalsReach (placed : List (Nat × LayoutElement)) : Prop :=
  ∀ offset b, (offset, .branch b) ∈ placed → b.isConditional = true →
    ∀ label ∈ b.targets, ∀ n : Nat, (labelOffsets placed)[label]? = some n →
      fitsShort (n - offset) = true

namespace LayoutElement

variable {labels : LabelOffsets} {offset : Nat}

theorem near_eq_ok {label : Label} {n : Nat} (hlabel : labels[label]? = some n)
    (hfits : fitsShort (n - offset) = true) :
    encode.near labels offset label = .ok (Int16.ofInt (n - offset)) := by
  refine (bind_of_eq_ok (LabelOffsets.offset_eq_ok.2 hlabel) _).trans ?_
  exact if_pos hfits

theorem far_eq_ok {label : Label} {n : Nat} (hlabel : labels[label]? = some n) :
    encode.far labels offset label = .ok (Int32.ofInt (n - offset)) :=
  bind_of_eq_ok (LabelOffsets.offset_eq_ok.2 hlabel) _

theorem widen_goto {label : Label} {n : Nat} (hlabel : labels[label]? = some n)
    (hfits : fitsShort (n - offset) = true) :
    widen labels offset (.branch (.goto label)) = .ok (.branch (.goto label)) := by
  refine (bind_of_eq_ok (LabelOffsets.offset_eq_ok.2 hlabel) _).trans ?_
  rw [if_pos hfits]
  rfl

theorem encode_goto {label : Label} {n : Nat} (hlabel : labels[label]? = some n)
    (hfits : fitsShort (n - offset) = true) : encode labels offset (.branch (.goto label))
      = .ok (StoredBranch.encode (.goto (Int16.ofInt (n - offset)))) := by
  have hbranch : (Branch.goto label).mapM (encode.near labels offset) (encode.far labels offset)
      = .ok (.goto (Int16.ofInt (n - offset))) :=
    bind_of_eq_ok (near_eq_ok hlabel hfits) _
  exact bind_of_eq_ok hbranch _

theorem of_near_eq_ok {label : Label} {distance : Int16}
    (h : encode.near labels offset label = .ok distance) :
    ∃ n : Nat, labels[label]? = some n ∧ fitsShort (n - offset) = true := by
  obtain ⟨n, hn, h⟩ := bind_eq_ok.1 h
  dsimp only at h
  split at h
  next hfits => exact ⟨n, LabelOffsets.offset_eq_ok.1 hn, hfits⟩
  next => cases h

theorem of_near_eq_error {label : Label} {e : ClassError}
    (h : encode.near labels offset label = .error e) :
    e = .undefinedLabel label ∨ ∃ n : Nat, labels[label]? = some n
      ∧ fitsShort (n - offset) = false ∧ e = .branchOverflow offset (n - offset) := by
  rcases bind_eq_error.1 h with h | ⟨n, hn, h⟩
  · exact .inl (LabelOffsets.eq_undefinedLabel_of_offset h)
  · dsimp only at h
    split at h
    next => cases h
    next hfits =>
      cases h
      exact .inr ⟨n, LabelOffsets.offset_eq_ok.1 hn, Bool.eq_false_iff.2 hfits, rfl⟩

theorem of_far_eq_error {label : Label} {e : ClassError}
    (h : encode.far labels offset label = .error e) : e = .undefinedLabel label := by
  rcases bind_eq_error.1 h with h | ⟨n, -, h⟩
  · exact LabelOffsets.eq_undefinedLabel_of_offset h
  · cases h

theorem exists_encode_branch {b : Branch Label Label}
    (hplaced : ∀ k ∈ b.targets, ∃ n, labels[k]? = some n)
    (hfits : ∀ k ∈ b.shortTarget?, ∀ n : Nat, labels[k]? = some n → fitsShort (n - offset) = true) :
    ∃ bytes, encode labels offset (.branch b) = .ok bytes := by
  have hconvert : ∃ x, (b.aligned offset).mapM (encode.near labels offset)
      (encode.far labels offset) = .ok x := by
    apply Branch.exists_mapM_eq_ok
    · intro k hk
      rw [Branch.shortTarget?_aligned] at hk
      obtain ⟨n, hn⟩ := hplaced k (Branch.mem_targets_of_shortTarget? hk)
      exact ⟨_, near_eq_ok hn (hfits k hk n hn)⟩
    · intro k hk
      rw [Branch.targets_aligned] at hk
      obtain ⟨n, hn⟩ := hplaced k hk
      exact ⟨_, far_eq_ok hn⟩
  obtain ⟨x, hx⟩ := hconvert
  exact ⟨StoredBranch.encode x, bind_of_eq_ok hx _⟩

theorem length_of_encode {e : LayoutElement} {bytes : Bytes}
    (h : e.encode labels offset = .ok bytes) : bytes.length = e.width offset := by
  cases e with
  | label k =>
    obtain rfl := pure_eq_ok.1 h
    rfl
  | instruction i =>
    obtain rfl := pure_eq_ok.1 h
    exact i.length_encode
  | branch b =>
    obtain ⟨x, hx, h⟩ := bind_eq_ok.1 h
    obtain rfl := pure_eq_ok.1 h
    rw [StoredBranch.length_encode]
    exact (Branch.rel_of_mapM hx).width_eq.symm

theorem placed_of_encode {e : LayoutElement} {bytes : Bytes}
    (h : e.encode labels offset = .ok bytes) {label : Label} (hmem : label ∈ e.targets) :
    ∃ n, labels[label]? = some n := by
  cases e with
  | label | instruction => cases hmem
  | branch b =>
    obtain ⟨x, hx, -⟩ := bind_eq_ok.1 h
    change label ∈ b.targets at hmem
    rw [← Branch.targets_aligned offset] at hmem
    rcases (Branch.rel_of_mapM hx).exists_of_mem_targets hmem with ⟨d, hd⟩ | ⟨d, hd⟩
    · obtain ⟨n, hn, -⟩ := of_near_eq_ok hd
      exact ⟨n, hn⟩
    · obtain ⟨n, hn, -⟩ := bind_eq_ok.1 hd
      exact ⟨n, LabelOffsets.offset_eq_ok.1 hn⟩

theorem fitsShort_of_encode {b : Branch Label Label} {bytes : Bytes}
    (h : encode labels offset (.branch b) = .ok bytes) (hconditional : b.isConditional = true)
    {label : Label} (hmem : label ∈ b.targets) {n : Nat} (hn : labels[label]? = some n) :
    fitsShort (n - offset) = true := by
  obtain ⟨x, hx, -⟩ := bind_eq_ok.1 h
  have hnear : label ∈ b.shortTarget? := by
    cases b with
    | ifZero | ifInts | ifRefs | ifNull => rw [List.mem_singleton.1 hmem]; rfl
    | _ => cases hconditional
  rw [← Branch.shortTarget?_aligned offset] at hnear
  obtain ⟨d, hd⟩ := (Branch.rel_of_mapM hx).exists_of_shortTarget? hnear
  obtain ⟨n', hn', hfits⟩ := of_near_eq_ok hd
  rw [hn] at hn'
  cases hn'
  exact hfits

theorem of_encode_eq_branchOverflow {o : Nat} {e : LayoutElement} {distance : Int}
    (h : e.encode labels o = .error (.branchOverflow offset distance)) :
    ∃ b label, ∃ n : Nat, e = .branch b ∧ o = offset ∧ label ∈ b.shortTarget?
      ∧ labels[label]? = some n ∧ distance = n - o ∧ fitsShort distance = false := by
  cases e with
  | label | instruction => cases h
  | branch b =>
    rcases bind_eq_error.1 h with h | ⟨x, -, h⟩
    · rcases Branch.exists_of_mapM_eq_error h with ⟨k, hk, hnear⟩ | ⟨k, -, hfar⟩
      · rw [Branch.shortTarget?_aligned] at hk
        rcases of_near_eq_error hnear with herror | ⟨n, hn, hfits, herror⟩
        · cases herror
        · cases herror
          exact ⟨b, k, n, rfl, rfl, hk, hn, rfl, hfits⟩
      · cases of_far_eq_error hfar
    · cases h

end LayoutElement

section Assemble

variable {elements widened : List LayoutElement} {offset : Nat} {b : Branch Label Label}

theorem assemble_of_widenAll (h : widenAll elements = .ok widened) :
    assemble elements
      = if maxCodeLength < endOffset 0 widened then .error (.codeOverflow (endOffset 0 widened))
        else do
          let parts ← (placeFrom 0 widened).mapM fun x =>
            x.2.encode (labelOffsets (placeFrom 0 widened)) x.1
          return ⟨parts.flatten, labelOffsets (placeFrom 0 widened)⟩ := by
  unfold assemble
  rw [bind_of_eq_ok h]
  dsimp only
  split <;> rfl

theorem assemble_of_widenOnce {parts : List Bytes} (h : widenOnce elements = .ok elements)
    (hlength : endOffset 0 elements ≤ maxCodeLength)
    (hparts : List.Forall₂
      (fun x part => x.2.encode (labelOffsets (placeFrom 0 elements)) x.1 = .ok part)
      (placeFrom 0 elements) parts) :
    assemble elements = .ok ⟨parts.flatten, labelOffsets (placeFrom 0 elements)⟩ := by
  rw [assemble_of_widenAll (widenAll_of_widenOnce h), if_neg (Nat.not_lt.2 hlength)]
  exact bind_of_eq_ok (mapM_eq_ok.2 hparts) _

theorem isConditional_of_not_fitsShort (h : widenAll elements = .ok widened)
    (hmem : (offset, .branch b) ∈ placeFrom 0 widened) {label : Label}
    (hlabel : label ∈ b.shortTarget?) {n : Nat}
    (hn : (labelOffsets (placeFrom 0 widened))[label]? = some n)
    (hfits : fitsShort (n - offset) = false) : b.isConditional = true ∧ b.targets = [label] := by
  rcases Branch.isConditional_or_of_shortTarget? hlabel with hconditional | hshort
  · exact hconditional
  · have hself := widen_of_mem_placeFrom h hmem
    rw [LayoutElement.fitsShort_of_widen_self hshort hn hself] at hfits
    cases hfits

theorem exists_encode_of_mem_placeFrom (h : widenAll elements = .ok widened)
    (hplaced : LabelsPlaced widened) (hreach : ConditionalsReach (placeFrom 0 widened))
    {e : LayoutElement} (hmem : (offset, e) ∈ placeFrom 0 widened) :
    ∃ bytes, e.encode (labelOffsets (placeFrom 0 widened)) offset = .ok bytes := by
  cases e with
  | label k => exact ⟨_, rfl⟩
  | instruction i => exact ⟨_, rfl⟩
  | branch b =>
    apply LayoutElement.exists_encode_branch
    · intro k hk
      exact exists_labelOffsets_iff.2 (hplaced _ (mem_placeFrom_iff.1 ⟨offset, hmem⟩) k hk)
    · intro k hk n hn
      cases hfits : fitsShort (n - offset) with
      | true => rfl
      | false =>
        obtain ⟨hconditional, htargets⟩ := isConditional_of_not_fitsShort h hmem hk hn hfits
        rw [← hfits]
        apply hreach offset b hmem hconditional k _ n hn
        rw [htargets]
        exact List.mem_singleton_self k

theorem length_parts {offset : Nat} {labels : LabelOffsets} {elements : List LayoutElement}
    {parts : List Bytes}
    (h : List.Forall₂ (fun x bytes => x.2.encode labels x.1 = .ok bytes)
      (placeFrom offset elements) parts) :
    offset + parts.flatten.length = endOffset offset elements := by
  induction elements generalizing offset parts with
  | nil =>
    cases h
    rfl
  | cons e elements ih =>
    obtain ⟨bytes, parts, hbytes, htail, rfl⟩ := List.forall₂_cons_left_iff.1 h
    have hlength := LayoutElement.length_of_encode hbytes
    have hrest := ih htail
    dsimp only at hlength
    unfold endOffset
    rw [List.flatten_cons, List.length_append]
    omega

theorem add_width_le_endOffset {start offset : Nat} {e : LayoutElement}
    (h : (offset, e) ∈ placeFrom start elements) :
    offset + e.width offset ≤ endOffset start elements := by
  induction elements generalizing start with
  | nil => cases h
  | cons e' elements ih =>
    unfold endOffset
    rcases List.mem_cons.1 h with heq | h
    · cases heq
      apply le_endOffset
    · exact ih h

theorem of_assemble {a : AssembledCode} (h : assemble elements = .ok a) :
    ∃ widened, widenAll elements = .ok widened ∧ LabelsPlaced elements
      ∧ endOffset 0 widened ≤ maxCodeLength ∧ ConditionalsReach (placeFrom 0 widened)
      ∧ a.bytes.length = endOffset 0 widened := by
  obtain ⟨widened, hwidened, -⟩ := bind_eq_ok.1 h
  rw [assemble_of_widenAll hwidened] at h
  split at h
  next => cases h
  next hlength =>
    obtain ⟨parts, hparts, h⟩ := bind_eq_ok.1 h
    obtain rfl := pure_eq_ok.1 h
    have hforall := mapM_eq_ok.1 hparts
    refine ⟨widened, hwidened, ?_, Nat.not_lt.1 hlength, ?_, ?_⟩
    · rw [← labelsPlaced_iff_of_widened (widened_of_widenAll hwidened)]
      intro e he label hmem
      obtain ⟨offset, hplaced⟩ := mem_placeFrom_iff.2 he
      obtain ⟨bytes, -, hbytes⟩ := exists_of_mem_left hforall hplaced
      exact exists_labelOffsets_iff.1 (LayoutElement.placed_of_encode hbytes hmem)
    · intro offset b hmem hconditional label hlabel n hn
      obtain ⟨bytes, -, hbytes⟩ := exists_of_mem_left hforall hmem
      exact LayoutElement.fitsShort_of_encode hbytes hconditional hlabel hn
    · have hsum := length_parts hforall
      rwa [Nat.zero_add] at hsum

end Assemble

/-- The keys of a table of jumps can be counted up in four bytes, and there is one at least. -/
def LayoutElement.RangeFits : LayoutElement → Prop
  | .branch (.tableSwitch _ _ low targets) =>
    1 ≤ targets.length ∧ low.toInt + targets.length ≤ 2 ^ 31 - 1
  | _ => True

theorem LayoutElement.Widened.rangeFits {e f : LayoutElement} (h : Widened e f)
    (he : e.RangeFits) : f.RangeFits := by
  cases h with
  | label | instruction => exact True.intro
  | branch h =>
    cases h with
    | same => exact he
    | goto | jsr => exact True.intro

theorem LayoutElement.RangeFits.tableFits {b : Branch Label Label}
    (h : RangeFits (.branch b)) : b.TableFits := by
  cases b with
  | tableSwitch padding fallback low targets =>
    obtain ⟨hpos, hlow⟩ := h
    exact ⟨hpos, by omega⟩
  | _ => exact True.intro

theorem casesFit_of_tableFits {elements : List LayoutElement} {offset : Nat}
    {b : Branch Label Label} (hlength : endOffset 0 elements ≤ maxCodeLength)
    (hmem : (offset, .branch b) ∈ placeFrom 0 elements) (htable : b.TableFits) : b.CasesFit := by
  have hwidth := add_width_le_endOffset hmem
  unfold maxCodeLength at hlength
  cases b with
  | tableSwitch padding fallback low targets => exact htable
  | lookupSwitch padding fallback pairs =>
    simp only [LayoutElement.width, Branch.aligned, Branch.width] at hwidth
    simp only [Branch.CasesFit]
    omega
  | _ => exact True.intro

theorem casesFit_of_mem_placeFrom {elements : List LayoutElement} {offset : Nat}
    {b : Branch Label Label} (hlength : endOffset 0 elements ≤ maxCodeLength)
    (hmem : (offset, .branch b) ∈ placeFrom 0 elements)
    (hrange : LayoutElement.RangeFits (.branch b)) : b.CasesFit :=
  casesFit_of_tableFits hlength hmem hrange.tableFits

/-- How a list of elements is laid out. -/
structure Assembles (elements : List LayoutElement) : Prop where
  /-- There is one round more at most than jumps that can be widened. -/
  rounds : widenWithin (shortJumps elements + 1) elements = some (widenAll elements)
  /-- Nothing but a label that is not placed keeps the rounds from ending with a layout. -/
  widens : LabelsPlaced elements → ∃ widened, widenAll elements = .ok widened
  /-- Code is written exactly if labels are placed and the layout has room for it. -/
  isOk_iff : (∃ a, assemble elements = .ok a) ↔ LabelsPlaced elements
    ∧ ∃ widened, widenAll elements = .ok widened ∧ endOffset 0 widened ≤ maxCodeLength
      ∧ ConditionalsReach (placeFrom 0 widened)
  /-- Written code whose targets are before its end is decoded to what it was made of. -/
  decodes : ∀ a, assemble elements = .ok a →
    (∀ e ∈ elements, ∀ label ∈ e.targets, ∀ n, a.labels[label]? = some n → n < a.bytes.length) →
    ∃ widened, widenAll elements = .ok widened
      ∧ List.Forall₂ LayoutElement.Widened elements widened ∧ LaidOut widened a
  /-- A jump that does not reach its target is a conditional one. -/
  overflow : ∀ offset distance, assemble elements = .error (.branchOverflow offset distance) →
    ∃ widened b label, ∃ n : Nat, widenAll elements = .ok widened
      ∧ (offset, .branch b) ∈ placeFrom 0 widened ∧ b.isConditional = true ∧ b.targets = [label]
      ∧ (labelOffsets (placeFrom 0 widened))[label]? = some n ∧ distance = n - offset
      ∧ fitsShort distance = false

/-- Code is laid out in few rounds, whenever it can be, and decoded to what it was made of. -/
theorem assembles_of_rangeFits {elements : List LayoutElement}
    (hrange : ∀ e ∈ elements, e.RangeFits) : Assembles elements where
  rounds := widenWithin_eq_some _ (Nat.lt_succ_self _)
  widens := exists_widenAll_eq_ok
  isOk_iff := by
    constructor
    · rintro ⟨a, ha⟩
      obtain ⟨widened, hwidened, hplaced, hlength, hreach, -⟩ := of_assemble ha
      exact ⟨hplaced, widened, hwidened, hlength, hreach⟩
    · rintro ⟨hplaced, widened, hwidened, hlength, hreach⟩
      -- widening leaves every label where it was
      rw [← labelsPlaced_iff_of_widened (widened_of_widenAll hwidened)] at hplaced
      rw [assemble_of_widenAll hwidened, if_neg (Nat.not_lt.2 hlength)]
      have hparts : ∃ parts, (placeFrom 0 widened).mapM (fun x =>
          x.2.encode (labelOffsets (placeFrom 0 widened)) x.1) = .ok parts := by
        apply exists_mapM
        intro x hx
        exact exists_encode_of_mem_placeFrom hwidened hplaced hreach hx
      obtain ⟨parts, hparts⟩ := hparts
      exact ⟨_, bind_of_eq_ok hparts _⟩
  decodes := by
    intro a ha hbefore
    obtain ⟨widened, hwidened, -, hlength, -, hbytes⟩ := of_assemble ha
    obtain ⟨widened', hwidened', hforall, hlabels, hlaid⟩ := laidOut_of_assemble ha
    rw [hwidened] at hwidened'
    cases hwidened'
    refine ⟨widened, hwidened, hforall, hlaid ?_⟩
    intro f hf
    obtain ⟨e, he, hef⟩ := exists_of_mem_right hforall hf
    obtain ⟨offset, hmem⟩ := mem_placeFrom_iff.2 hf
    cases f with
    | label | instruction => exact True.intro
    | branch b =>
      constructor
      · intro k hk n hn
        rw [← hbytes]
        apply hbefore e he k _ n hn
        rw [← hef.targets_eq]
        exact hk
      · exact casesFit_of_mem_placeFrom hlength hmem (hef.rangeFits (hrange e he))
  overflow := by
    intro offset distance h
    -- widening itself only fails on an undefined label, so an overflow comes from encoding
    rcases bind_eq_error.1 h with hundefined | ⟨widened, hwidened, -⟩
    · obtain ⟨label, hlabel⟩ := eq_undefinedLabel_of_widenAll hundefined
      cases hlabel
    rw [assemble_of_widenAll hwidened] at h
    split at h
    next => cases h
    next =>
      rcases bind_eq_error.1 h with h | ⟨parts, -, h⟩
      · obtain ⟨⟨o, e⟩, hmem, hencode⟩ := exists_of_listMapM_eq_error h
        obtain ⟨b, label, n, rfl, rfl, hlabel, hn, hdistance, hfits⟩ :=
          LayoutElement.of_encode_eq_branchOverflow hencode
        obtain ⟨hconditional, htargets⟩ :=
          isConditional_of_not_fitsShort hwidened hmem hlabel hn (hdistance ▸ hfits)
        exact ⟨widened, b, label, n, hwidened, hmem, hconditional, htargets, hn, hdistance, hfits⟩
      · cases h

/-- A jump over more instructions than its short form can pass, and a table that ends the code. -/
def farJump : List LayoutElement :=
  .branch (.goto 0) :: List.replicate 40000 (.instruction (.plain .nop))
    ++ [.label 0, .branch (.tableSwitch 0 1 7 [1, 0]), .label 1, .branch .voidReturn]

theorem rangeFits_farJump : ∀ e ∈ farJump, e.RangeFits := by
  intro e he
  rcases List.mem_append.1 he with he | he
  · rcases List.mem_cons.1 he with rfl | he
    · exact True.intro
    · rw [List.eq_of_mem_replicate he]
      exact True.intro
  · simp only [List.mem_cons, List.not_mem_nil, or_false] at he
    rcases he with rfl | rfl | rfl | rfl
    · exact True.intro
    · exact ⟨by decide, by decide⟩
    · exact True.intro
    · exact True.intro

theorem assembles_farJump : (∀ e ∈ farJump, e.RangeFits) ∧ Assembles farJump :=
  ⟨rangeFits_farJump, assembles_of_rangeFits rangeFits_farJump⟩

end ClassPatch
