import ClassPatch.Proofs.Lift.Canonical

/-!
Places in a body and their offsets. In code that was laid out, a label stands at the offset of its
place, and lifting numbers labels as their places are numbered.
-/

namespace ClassPatch

namespace Code

theorem placeIn_label_self (label : Label) (es : List BodyElement) :
    placeIn (.label label :: es) label = 0 := by
  rw [placeIn, List.takeWhile_cons_of_neg (by simp)]
  rfl

theorem placeIn_label_of_ne {label k : Label} (h : label ≠ k) (es : List BodyElement) :
    placeIn (.label label :: es) k = placeIn es k := by
  rw [placeIn, List.takeWhile_cons_of_pos (by simpa using h)]
  exact List.countP_cons_of_neg Bool.false_ne_true

theorem placeIn_of_takesBytes {e : BodyElement} (h : e.takesBytes = true) (k : Label)
    (es : List BodyElement) : placeIn (e :: es) k = placeIn es k + 1 := by
  rw [placeIn, List.takeWhile_cons_of_pos, List.countP_cons_of_pos h, placeIn]
  rw [decide_eq_true_eq]
  rintro rfl
  cases h

theorem place_le_size (c : Code) (k : Label) : c.place k ≤ c.size :=
  (List.takeWhile_sublist _).countP_le

end Code

theorem getElem?_zero_placedBoundaries (offset : Nat) (elements : List LayoutElement) :
    (placedBoundaries offset elements)[0]? = some offset := by
  induction elements with
  | nil => rfl
  | cons e elements ih =>
    cases e with
    | label k => exact ih
    | instruction i => rfl
    | branch b => rfl

theorem placedBoundaries_of_takesBytes {l : LayoutElement} (h : l.takesBytes = true) (offset : Nat)
    (elements : List LayoutElement) : placedBoundaries offset (l :: elements)
      = offset :: placedBoundaries (offset + l.width offset) elements := by
  cases l with
  | label k => cases h
  | instruction i => rfl
  | branch b => rfl

/-- The elements are the same label, or both take bytes. -/
def PlacedAlike (e : BodyElement) (l : LayoutElement) : Prop :=
  (∃ k, e = .label k ∧ l = .label k) ∨ e.takesBytes = true ∧ l.takesBytes = true

variable {s : Rereading} {es : List BodyElement} {elements : List LayoutElement}

theorem ElementPlaced.placedAlike {e : BodyElement} {l : LayoutElement} (h : ElementPlaced s e l) :
    PlacedAlike e l := by
  cases h with
  | label k => exact .inl ⟨k, rfl, rfl⟩
  | instruction h hrepeats => exact .inr ⟨rfl, rfl⟩
  | branch h => exact .inr ⟨rfl, rfl⟩

theorem length_placedBoundaries (h : List.Forall₂ PlacedAlike es elements) (offset : Nat) :
    (placedBoundaries offset elements).length = es.countP CodeElement.takesBytes + 1 := by
  induction h generalizing offset with
  | nil => rfl
  | cons hhead _ ih =>
    rcases hhead with ⟨k, rfl, rfl⟩ | ⟨he, hl⟩
    · exact ih offset
    · rw [placedBoundaries_of_takesBytes hl, List.length_cons, ih, List.countP_cons_of_pos he]

theorem not_mem_placeFrom (h : List.Forall₂ PlacedAlike es elements) {k : Label}
    (hk : .label k ∉ es) (offset p : Nat) : (p, .label k) ∉ placeFrom offset elements := by
  intro hmem
  obtain ⟨e, he, ⟨j, rfl, heq⟩ | ⟨-, hl⟩⟩ := exists_of_mem_right h (mem_placeFrom_iff.1 ⟨p, hmem⟩)
  · cases heq
    exact hk he
  · cases hl

theorem label_mem_placeFrom_iff (h : List.Forall₂ PlacedAlike es elements) {k : Label}
    (hcount : es.count (.label k) = 1) {offset p : Nat} :
    (p, .label k) ∈ placeFrom offset elements
      ↔ (placedBoundaries offset elements)[Code.placeIn es k]? = some p := by
  induction h generalizing offset with
  | nil => cases hcount
  | @cons e l es elements hhead htail ih =>
    unfold placeFrom
    rw [List.mem_cons]
    -- a label takes no place of its own, so places only move on at instructions
    rcases hhead with ⟨j, rfl, rfl⟩ | ⟨he, hl⟩
    · by_cases hjk : j = k
      · subst hjk
        rw [List.count_cons_self, Nat.add_right_cancel_iff, List.count_eq_zero] at hcount
        have habsent := not_mem_placeFrom htail hcount (offset + 0) p
        rw [Code.placeIn_label_self, getElem?_zero_placedBoundaries]
        constructor
        · rintro (heq | hmem)
          · cases heq
            rfl
          · exact absurd hmem habsent
        · intro heq
          cases heq
          exact .inl rfl
      · rw [List.count_cons_of_ne (by simpa using hjk)] at hcount
        rw [Code.placeIn_label_of_ne hjk]
        have hne : (p, CodeElement.label k) ≠ (offset, (.label j : LayoutElement)) := by
          intro heq
          cases heq
          exact hjk rfl
        rw [or_iff_right hne]
        exact ih hcount
    · have hne : (p, CodeElement.label k) ≠ (offset, l) := by
        intro heq
        cases heq
        cases hl
      rw [List.count_cons_of_ne (by rintro rfl; cases he)] at hcount
      rw [or_iff_right hne, Code.placeIn_of_takesBytes he, placedBoundaries_of_takesBytes hl,
        List.getElem?_cons_succ]
      exact ih hcount

theorem boundaryOffsets_of_decodesTo {found : LabelOffsets} {decoded : List (Nat × Decoded)}
    {offset : Nat} (h : DecodesTo found (placeFrom offset elements) decoded) :
    boundaryOffsets decoded (endOffset offset elements) = placedBoundaries offset elements := by
  induction elements generalizing offset decoded with
  | nil =>
    cases h
    rfl
  | cons l elements ih =>
    unfold placeFrom at h
    unfold endOffset
    cases h with
    | label k h => exact ih h
    | instruction i h => exact congrArg (offset :: ·) (ih h)
    | branch hjump h => exact congrArg (offset :: ·) (ih h)

theorem lt_of_getElem? {offsets : List Nat} (h : offsets.Pairwise (· < ·)) {i j o o' : Nat}
    (hij : i < j) (ho : offsets[i]? = some o) (ho' : offsets[j]? = some o') : o < o' := by
  obtain ⟨hi, rfl⟩ := List.getElem?_eq_some_iff.1 ho
  obtain ⟨hj, rfl⟩ := List.getElem?_eq_some_iff.1 ho'
  exact List.pairwise_iff_getElem.1 h i j hi hj hij

/-- A body that was laid out, with the offsets of its places and of its labels. -/
structure PlacesLaid (c : Code) (found : LabelOffsets) (b : Boundaries) (codeLength : Nat) :
    Prop where
  increasing : b.offsets.Pairwise (· < ·)
  length : b.offsets.length = c.size + 1
  found : ∀ k ∈ c.references, found[k]? = b.offsets[c.place k]?
  stop : b.offsets[c.size]? = some codeLength
  contains : ∀ o ∈ b.offsets, b.contains o = true
  length_le : codeLength ≤ maxCodeLength

namespace PlacesLaid

variable {c : Code} {found : LabelOffsets} {b : Boundaries} {codeLength : Nat}

theorem lt_iff (h : PlacesLaid c found b codeLength) {i j o o' : Nat}
    (ho : b.offsets[i]? = some o) (ho' : b.offsets[j]? = some o') : o < o' ↔ i < j := by
  rcases Nat.lt_trichotomy i j with hij | rfl | hji
  · exact ⟨fun _ => hij, fun _ => lt_of_getElem? h.increasing hij ho ho'⟩
  · rw [ho] at ho'
    cases ho'
    exact ⟨fun hlt => absurd hlt (Nat.lt_irrefl _), fun hlt => absurd hlt (Nat.lt_irrefl _)⟩
  · have hlt := lt_of_getElem? h.increasing hji ho' ho
    omega

theorem le_codeLength (h : PlacesLaid c found b codeLength) {i o : Nat}
    (ho : b.offsets[i]? = some o) : o ≤ codeLength := by
  obtain ⟨hi, -⟩ := List.getElem?_eq_some_iff.1 ho
  have hlt := h.lt_iff h.stop ho
  have hlength := h.length
  omega

theorem found_position (h : PlacesLaid c found b codeLength) {k : Label} (hk : k ∈ c.references) :
    b.offsets[c.place k]? = some (found.position k).toNat := by
  have hplace := c.place_le_size k
  have hlength := h.length
  obtain ⟨o, ho⟩ : ∃ o, b.offsets[c.place k]? = some o :=
    ⟨_, List.getElem?_eq_getElem (by omega)⟩
  have hle := h.le_codeLength ho
  have hmax := h.length_le
  unfold maxCodeLength at hmax
  unfold LabelOffsets.position
  rw [h.found k hk, ho, Option.getD_some, UInt16.toNat_ofNat', Nat.mod_eq_of_lt (by omega)]

theorem contains_position (h : PlacesLaid c found b codeLength) {k : Label}
    (hk : k ∈ c.references) : b.contains (found.position k).toNat = true :=
  h.contains _ (List.mem_of_getElem? (h.found_position hk))

theorem position_lt (h : PlacesLaid c found b codeLength) {k : Label} (hk : k ∈ c.references)
    (hplace : c.place k < c.size) : (found.position k).toNat < codeLength :=
  (h.lt_iff (h.found_position hk) h.stop).2 hplace

theorem position_le_iff (h : PlacesLaid c found b codeLength) {k k' : Label}
    (hk : k ∈ c.references) (hk' : k' ∈ c.references) :
    found.position k ≤ found.position k' ↔ c.place k ≤ c.place k' := by
  have hlt := h.lt_iff (h.found_position hk') (h.found_position hk)
  rw [UInt16.le_iff_toNat_le]
  omega

/-- The offsets of labels that something refers to. -/
def Marks (c : Code) (found : LabelOffsets) (marked : List Nat) : Prop :=
  ∀ o, o ∈ marked ↔ ∃ k ∈ c.references, (found.position k).toNat = o

theorem labels_iff (h : PlacesLaid c found b codeLength) {marked : List Nat}
    (hmarked : Marks c found marked) {i o : Nat} (ho : b.offsets[i]? = some o) (n : Label) :
    (b.labels marked)[o]? = some n ↔ c.landmarks[n]? = some i := by
  let pairs := (List.range (c.size + 1)).zip b.offsets
  have hleft : pairs.map (·.1) = List.range (c.size + 1) := by
    rw [List.map_fst_zip]
    rw [List.length_range, h.length]
  have hright : pairs.map (·.2) = b.offsets := by
    rw [List.map_snd_zip]
    rw [List.length_range, h.length]
  -- places and their offsets increase together, and the same ones are marked
  have hmoves : Moves pairs := ⟨hleft ▸ List.pairwise_lt_range, hright ▸ h.increasing⟩
  have hpair {j p : Nat} : (j, p) ∈ pairs ↔ b.offsets[j]? = some p := by
    rw [List.mem_iff_getElem?]
    simp only [pairs, List.getElem?_zip_eq_some]
    constructor
    · rintro ⟨m, hm, hp⟩
      obtain ⟨-, rfl⟩ := List.getElem?_eq_some_iff.1 hm
      rwa [List.getElem_range]
    · intro hp
      obtain ⟨hlt, -⟩ := List.getElem?_eq_some_iff.1 hp
      exact ⟨j, List.getElem?_range (h.length ▸ hlt), hp⟩
  have halike : ∀ x ∈ pairs, x.1 ∈ c.references.map c.place ↔ x.2 ∈ marked := by
    rintro ⟨j, p⟩ hjp
    rw [hpair] at hjp
    rw [hmarked, List.mem_map]
    refine exists_congr fun k => and_congr_right fun hk => ?_
    have hposition := h.found_position hk
    constructor
    · rintro rfl
      rw [hjp] at hposition
      exact (Option.some.inj hposition).symm
    · rintro rfl
      have hlt := h.lt_iff hposition hjp
      have hgt := h.lt_iff hjp hposition
      omega
  rw [Boundaries.labels_eq_some_iff h.increasing, ← hright,
    ← hmoves.getElem?_filter halike (hpair.2 ho), hleft]
  rfl

theorem labelAt_position (h : PlacesLaid c found b codeLength) {marked : List Nat}
    (hmarked : Marks c found marked) {k : Label} (hk : k ∈ c.references) :
    labelAt (b.labels marked) (found.position k).toNat = .ok (c.renumber k) := by
  rw [labelAt_eq_ok, h.labels_iff hmarked (h.found_position hk)]
  exact Code.getElem?_idxOf_landmarks (Code.mem_landmarks.2 ⟨c.place_le_size k, k, hk, rfl⟩)

theorem liftedAs (h : PlacesLaid c found b codeLength) {marked : List Nat}
    (hmarked : Marks c found marked) {ks : List Label} (hks : ∀ k ∈ ks, k ∈ c.references) :
    found.LiftedAs (b.labels marked) c.renumber ks := by
  rintro k hk p hp
  rw [hp.eq_position]
  exact h.labelAt_position hmarked (hks k hk)

theorem labelElement_eq (h : PlacesLaid c found b codeLength) {marked : List Nat}
    (hmarked : Marks c found marked) {i o : Nat} (ho : b.offsets[i]? = some o) :
    labelElement (b.labels marked) o = c.labelFor i := by
  have hlabel := h.labels_iff hmarked ho
  unfold labelElement Code.labelFor
  split
  next hmem =>
    rw [(hlabel _).2 (Code.getElem?_idxOf_landmarks hmem)]
    rfl
  next hmem =>
    cases hnone : (b.labels marked)[o]? with
    | none => rfl
    | some n => exact absurd (List.mem_of_getElem? ((hlabel n).1 hnone)) hmem

end PlacesLaid

theorem labelOffsets_of_placed {c : Code} {widened : List LayoutElement} (hc : c.Placed)
    (hplaced : List.Forall₂ PlacedAlike c.elements widened) {k : Label}
    (hk : k ∈ c.references) :
    (labelOffsets (placeFrom 0 widened))[k]? = (placedBoundaries 0 widened)[c.place k]? := by
  have hmem (o : Nat) : (o, .label k) ∈ placeFrom 0 widened
      ↔ (placedBoundaries 0 widened)[c.place k]? = some o :=
    label_mem_placeFrom_iff hplaced (hc.once k hk)
  have hlength := length_placedBoundaries hplaced 0
  have hplace : c.place k ≤ c.elements.countP CodeElement.takesBytes := c.place_le_size k
  have hget := List.getElem?_eq_getElem
    (show c.place k < (placedBoundaries 0 widened).length by omega)
  rw [hget]
  refine labelOffsets_of_mem ((hmem _).2 hget) fun o ho => ?_
  exact Option.some.inj (((hmem o).1 ho).symm.trans hget)

theorem getElem?_size_placedBoundaries {c : Code} {widened : List LayoutElement}
    (hplaced : List.Forall₂ PlacedAlike c.elements widened) :
    (placedBoundaries 0 widened)[c.size]? = some (endOffset 0 widened) := by
  obtain ⟨front, hfront⟩ := exists_placedBoundaries_append 0 widened
  have hsize := length_placedBoundaries hplaced 0
  rw [hfront, List.length_append, List.length_singleton, Nat.add_right_cancel_iff] at hsize
  have hsize' : c.size = front.length := hsize.symm
  rw [hfront, hsize', List.getElem?_concat_length]

theorem placesLaid_of_placed {c : Code} {widened : List LayoutElement} {b : Boundaries}
    (hc : c.Placed) (hplaced : List.Forall₂ PlacedAlike c.elements widened)
    (hlength : endOffset 0 widened ≤ maxCodeLength) (hb : b.offsets = placedBoundaries 0 widened)
    (hcontains : ∀ o ∈ b.offsets, b.contains o = true) :
    PlacesLaid c (labelOffsets (placeFrom 0 widened)) b (endOffset 0 widened) where
  increasing := hb ▸ increasing_placedBoundaries 0 widened
  length := hb ▸ length_placedBoundaries hplaced 0
  found _ hk := hb ▸ labelOffsets_of_placed hc hplaced hk
  stop := hb ▸ getElem?_size_placedBoundaries hplaced
  contains := hcontains
  length_le := hlength

theorem fits_of_placed {c : Code} {widened : List LayoutElement} {found : LabelOffsets}
    {codeLength : Nat} (hc : c.Placed) (hjumps : c.JumpTablesFit)
    (hplaced : List.Forall₂ (ElementPlaced s) c.elements widened)
    (hfound : ∀ {k : Label}, k ∈ c.references →
      found[k]? = (placedBoundaries 0 widened)[c.place k]?)
    (hstop : (placedBoundaries 0 widened)[c.size]? = some codeLength)
    (hlength : endOffset 0 widened ≤ maxCodeLength) {l : LayoutElement} (hl : l ∈ widened) :
    l.Fits found codeLength := by
  obtain ⟨e, he, hel⟩ := exists_of_mem_right hplaced hl
  cases hel with
  | label k => exact True.intro
  | instruction hx hrepeats => exact True.intro
  | @branch b b' hw =>
    constructor
    · intro k hk n hn
      rw [hw.targets_eq] at hk
      have hplace := hc.targets _ he k hk
      rw [hfound (Code.mem_references_of_element he hk)] at hn
      exact lt_of_getElem? (increasing_placedBoundaries 0 widened) hplace hn hstop
    · obtain ⟨offset, hoffset⟩ := mem_placeFrom_iff.2 hl
      exact casesFit_of_tableFits hlength hoffset (hw.tableFits (hjumps b he))

theorem exists_placesLaid {c : Code} (hc : c.Placed) (hjumps : c.JumpTablesFit)
    {elements : List LayoutElement} {assembled : AssembledCode}
    (helements : List.Forall₂ (ElementLowered s) c.elements elements)
    (hassemble : assemble elements = .ok assembled) :
    ∃ widened decoded, List.Forall₂ (ElementPlaced s) c.elements widened
      ∧ decodeCode assembled.bytes = .ok decoded
      ∧ DecodesTo assembled.labels (placeFrom 0 widened) decoded
      ∧ endOffset 0 widened = assembled.bytes.length
      ∧ PlacesLaid c assembled.labels (.ofDecoded decoded assembled.bytes.length)
        assembled.bytes.length := by
  obtain ⟨widened, hall, hwidened, hlabels, hlaid⟩ := laidOut_of_assemble hassemble
  obtain ⟨widened', hall', -, hlength, -⟩ := of_assemble hassemble
  obtain rfl : widened' = widened := Except.ok.inj (hall'.symm.trans hall)
  have hplaced : List.Forall₂ (ElementPlaced s) c.elements widened' := by
    refine forall₂_comp ?_ helements hwidened
    intro e l m he hl
    exact elementPlaced_of_widened he hl
  have halike := hplaced.imp fun _ _ => ElementPlaced.placedAlike
  have hfound {k : Label} (hk : k ∈ c.references) :
      assembled.labels[k]? = (placedBoundaries 0 widened')[c.place k]? := by
    rw [hlabels]
    exact labelOffsets_of_placed hc halike hk
  -- only once the places of labels are known do the branches fit, which decoding needs
  have hassembled := hlaid fun e he => fits_of_placed hc hjumps hplaced hfound
    (getElem?_size_placedBoundaries halike) hlength he
  obtain ⟨decoded, hdecoded, hto⟩ := hassembled.decodes
  refine ⟨widened', decoded, hplaced, hdecoded, hto, hassembled.length.symm, ?_⟩
  rw [hassembled.length, hlabels]
  exact placesLaid_of_placed hc halike hlength (boundaryOffsets_of_decodesTo hto)
    fun o ho => Boundaries.contains_ofDecoded.2 ho

end ClassPatch
