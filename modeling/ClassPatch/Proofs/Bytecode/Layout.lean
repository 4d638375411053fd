import ClassPatch.Proofs.Bytecode.Decode

/-!
Code that was laid out is decoded to the elements it was made of, with their offsets. Laying out
changes nothing but the form of jumps.
-/

namespace ClassPatch

namespace Branch

variable {N F N' F' L : Type}

/-- A short jump may have become a wide one. -/
inductive Widened : Branch L L → Branch L L → Prop where
  | same (b : Branch L L) : Widened b b
  | goto (target : L) : Widened (.goto target) (.gotoWide target)
  | jsr (target : L) : Widened (.jsr target) (.jsrWide target)

theorem Widened.trans {b c d : Branch L L} (h : Widened b c) (h' : Widened c d) :
    Widened b d := by
  cases h with
  | same => exact h'
  | goto target =>
    cases h'
    exact .goto target
  | jsr target =>
    cases h'
    exact .jsr target

theorem Widened.targets_eq {b c : Branch L L} (h : Widened b c) : c.targets = b.targets := by
  cases h <;> rfl

theorem Widened.casesFit {b c : Branch L L} (h : Widened b c) (hb : b.CasesFit) :
    c.CasesFit := by
  cases h with
  | same => exact hb
  | goto target => exact True.intro
  | jsr target => exact True.intro

theorem Widened.tableFits {b c : Branch L L} (h : Widened b c) (hb : b.TableFits) :
    c.TableFits := by
  cases h with
  | same => exact hb
  | goto target => exact True.intro
  | jsr target => exact True.intro

theorem targets_aligned (offset : Nat) (b : Branch L L) :
    (b.aligned offset).targets = b.targets := by
  cases b <;> rfl

theorem casesFit_aligned {offset : Nat} {b : Branch N F} :
    (b.aligned offset).CasesFit ↔ b.CasesFit := by
  cases b <;> rfl

theorem one_le_width (b : Branch N F) : 1 ≤ b.width := by
  cases b with
  | ret slot =>
    simp only [width]
    split <;> omega
  | _ =>
    simp only [width]
    omega

theorem Rel.casesFit {near : N → N' → Prop} {far : F → F' → Prop} {b : Branch N F}
    {b' : Branch N' F'} (h : Rel near far b b') (hb : b.CasesFit) : b'.CasesFit := by
  cases h with
  | tableSwitch padding low hfallback h =>
    simp only [CasesFit] at hb ⊢
    rwa [← h.length_eq]
  | lookupSwitch padding hfallback h =>
    simp only [CasesFit] at hb ⊢
    rwa [← h.length_eq]
  | _ => exact True.intro

theorem Rel.aligned {near : N → N' → Prop} {far : F → F' → Prop} {b : Branch N F}
    {b' : Branch N' F'} {offset : Nat} (h : Rel near far b b') (hb : b.Aligned offset) :
    b'.Aligned offset := by
  cases h with
  | tableSwitch padding low hfallback h =>
    injection hb with hpadding
    exact congrArg (fun p => Branch.tableSwitch p _ _ _) hpadding
  | lookupSwitch padding hfallback h =>
    injection hb with hpadding
    exact congrArg (fun p => Branch.lookupSwitch p _ _) hpadding
  | _ => rfl

end Branch

theorem StoredInstruction.one_le_width (i : StoredInstruction) : 1 ≤ i.width := by
  rw [← length_encode]
  cases i with
  | ldc c =>
    simp only [encode]
    split <;> exact Nat.succ_le_succ (Nat.zero_le _)
  | load kind slot =>
    simp only [encode, encodeSlotAccess]
    split
    · exact Nat.le_refl _
    · split <;> exact Nat.succ_le_succ (Nat.zero_le _)
  | store kind slot =>
    simp only [encode, encodeSlotAccess]
    split
    · exact Nat.le_refl _
    · split <;> exact Nat.succ_le_succ (Nat.zero_le _)
  | iinc slot amount =>
    simp only [encode]
    split <;> exact Nat.succ_le_succ (Nat.zero_le _)
  | invoke kind m => cases kind <;> exact Nat.succ_le_succ (Nat.zero_le _)
  | _ => exact Nat.succ_le_succ (Nat.zero_le _)

namespace LayoutElement

/-- A short jump may have become a wide one. -/
inductive Widened : LayoutElement → LayoutElement → Prop where
  | label (label : Label) : Widened (.label label) (.label label)
  | instruction (i : StoredInstruction) : Widened (.instruction i) (.instruction i)
  | branch {b c : Branch Label Label} (h : b.Widened c) : Widened (.branch b) (.branch c)

theorem Widened.refl (e : LayoutElement) : Widened e e := by
  cases e with
  | label k => exact .label k
  | instruction i => exact .instruction i
  | branch b => exact .branch (.same b)

theorem Widened.trans {e f g : LayoutElement} (h : Widened e f) (h' : Widened f g) :
    Widened e g := by
  cases h with
  | label k => exact h'
  | instruction i => exact h'
  | branch h =>
    cases h' with
    | branch h' => exact .branch (h.trans h')

theorem widened_of_widen {labels : LabelOffsets} {offset : Nat} {e f : LayoutElement}
    (h : e.widen labels offset = .ok f) : Widened e f := by
  unfold widen at h
  split at h
  next label =>
    obtain ⟨target, htarget, h⟩ := bind_eq_ok.1 h
    obtain rfl := pure_eq_ok.1 h
    refine .branch ?_
    split
    · exact .same _
    · exact .goto label
  next label =>
    obtain ⟨target, htarget, h⟩ := bind_eq_ok.1 h
    obtain rfl := pure_eq_ok.1 h
    refine .branch ?_
    split
    · exact .same _
    · exact .jsr label
  next =>
    obtain rfl := pure_eq_ok.1 h
    exact .refl e

end LayoutElement

theorem map_snd_placeFrom (offset : Nat) (elements : List LayoutElement) :
    (placeFrom offset elements).map (·.2) = elements := by
  induction elements generalizing offset with
  | nil => rfl
  | cons e elements ih =>
    unfold placeFrom
    rw [List.map_cons, ih]

theorem widened_of_widenOnce {elements widened : List LayoutElement}
    (h : widenOnce elements = .ok widened) :
    List.Forall₂ LayoutElement.Widened elements widened := by
  have hplaced := (mapM_eq_ok.1 h).imp fun x e => LayoutElement.widened_of_widen
  have hmap : List.Forall₂ LayoutElement.Widened ((placeFrom 0 elements).map (·.2)) widened :=
    List.forall₂_map_left_iff.2 hplaced
  rwa [map_snd_placeFrom] at hmap

theorem widened_of_widenAll {elements widened : List LayoutElement}
    (h : widenAll elements = .ok widened) :
    List.Forall₂ LayoutElement.Widened elements widened := by
  induction elements using widenAll.induct generalizing widened with
  | case1 elements ih =>
    unfold widenAll at h
    obtain ⟨once, honce, h⟩ := bind_eq_ok.1 h
    have hwidened := widened_of_widenOnce honce
    split at h
    next hlt =>
      exact forall₂_comp (fun _ _ _ h => h.trans) hwidened (ih once hlt h)
    next =>
      obtain rfl := pure_eq_ok.1 h
      exact List.forall₂_same.2 fun e _ => .refl e

/-- Record the offset of an element that is a label. -/
def LabelOffsets.record (labels : LabelOffsets) (x : Nat × LayoutElement) : LabelOffsets :=
  match x.2 with
  | .label label => labels.insert label x.1
  | _ => labels

theorem labelOffsets_eq_foldl (placed : List (Nat × LayoutElement)) :
    labelOffsets placed = placed.foldl LabelOffsets.record ∅ := rfl

theorem LabelOffsets.of_record {labels : LabelOffsets} {x : Nat × LayoutElement} {label : Label}
    {offset : Nat} (h : (labels.record x)[label]? = some offset) :
    labels[label]? = some offset ∨ x = (offset, .label label) := by
  obtain ⟨o, e⟩ := x
  cases e with
  | label k =>
    change (labels.insert k o)[label]? = _ at h
    rw [Std.HashMap.getElem?_insert] at h
    split at h
    next heq =>
      cases h
      rw [eq_of_beq heq]
      exact .inr rfl
    next => exact .inl h
  | instruction i => exact .inl h
  | branch b => exact .inl h

theorem mem_of_foldl_record {placed : List (Nat × LayoutElement)} {labels : LabelOffsets}
    {label : Label} {offset : Nat}
    (h : (placed.foldl LabelOffsets.record labels)[label]? = some offset) :
    labels[label]? = some offset ∨ (offset, .label label) ∈ placed := by
  induction placed generalizing labels with
  | nil => exact .inl h
  | cons x placed ih =>
    rcases ih h with hlabels | hmem
    · rcases LabelOffsets.of_record hlabels with hlabels | rfl
      · exact .inl hlabels
      · exact .inr List.mem_cons_self
    · exact .inr (List.mem_cons_of_mem _ hmem)

theorem mem_of_labelOffsets {placed : List (Nat × LayoutElement)} {label : Label} {offset : Nat}
    (h : (labelOffsets placed)[label]? = some offset) : (offset, .label label) ∈ placed := by
  rcases mem_of_foldl_record h with hempty | hmem
  · rw [Std.HashMap.getElem?_empty] at hempty
    cases hempty
  · exact hmem

theorem isSome_foldl_record {placed : List (Nat × LayoutElement)} {labels : LabelOffsets}
    {label : Label} (h : labels[label]?.isSome ∨ ∃ offset, (offset, .label label) ∈ placed) :
    (placed.foldl LabelOffsets.record labels)[label]?.isSome := by
  induction placed generalizing labels with
  | nil =>
    rcases h with h | ⟨offset, hmem⟩
    · exact h
    · cases hmem
  | cons x placed ih =>
    refine ih ?_
    obtain ⟨o, e⟩ := x
    rcases h with h | ⟨offset, hmem⟩
    · refine .inl ?_
      cases e with
      | label k =>
        change (labels.insert k o)[label]?.isSome
        rw [Std.HashMap.getElem?_insert]
        split
        · rfl
        · exact h
      | instruction i => exact h
      | branch b => exact h
    · rcases List.mem_cons.1 hmem with heq | hmem
      · cases heq
        refine .inl ?_
        change (labels.insert label o)[label]?.isSome
        rw [Std.HashMap.getElem?_insert_self]
        rfl
      · exact .inr ⟨offset, hmem⟩

theorem labelOffsets_of_mem {placed : List (Nat × LayoutElement)} {label : Label} {offset : Nat}
    (hmem : (offset, .label label) ∈ placed)
    (hunique : ∀ o, (o, .label label) ∈ placed → o = offset) :
    (labelOffsets placed)[label]? = some offset := by
  obtain ⟨o, ho⟩ := Option.isSome_iff_exists.1 (isSome_foldl_record (.inr ⟨offset, hmem⟩)
    : (placed.foldl LabelOffsets.record ∅)[label]?.isSome)
  rw [labelOffsets_eq_foldl, ho, hunique o (mem_of_labelOffsets ho)]

/-- Instructions among placed elements, with the offsets of labels as targets. -/
inductive DecodesTo (labels : LabelOffsets) :
    List (Nat × LayoutElement) → List (Nat × Decoded) → Prop where
  | nil : DecodesTo labels [] []
  | label {offset : Nat} (label : Label) {placed : List (Nat × LayoutElement)}
    {decoded : List (Nat × Decoded)} (h : DecodesTo labels placed decoded) :
    DecodesTo labels ((offset, .label label) :: placed) decoded
  | instruction {offset : Nat} (i : StoredInstruction) {placed : List (Nat × LayoutElement)}
    {decoded : List (Nat × Decoded)} (h : DecodesTo labels placed decoded) :
    DecodesTo labels ((offset, .instruction i) :: placed) ((offset, .instruction i) :: decoded)
  | branch {offset : Nat} {b : Branch Label Label} {jump : Branch Nat Nat}
    {placed : List (Nat × LayoutElement)} {decoded : List (Nat × Decoded)}
    (hjump : Branch.Rel (fun k n => labels[k]? = some n) (fun k n => labels[k]? = some n)
      (b.aligned offset) jump)
    (h : DecodesTo labels placed decoded) :
    DecodesTo labels ((offset, .branch b) :: placed) ((offset, .branch jump) :: decoded)

theorem LabelOffsets.of_offset {labels : LabelOffsets} {label : Label} {n : Nat}
    (h : labels.offset label = .ok n) : labels[label]? = some n := by
  unfold offset at h
  split at h
  next n' hn =>
    cases h
    exact hn
  next => cases h

namespace LayoutElement

variable {labels : LabelOffsets} {offset codeLength : Nat}

/-- The targets of a branch are before the end of the code, and its cases can be counted. -/
def Fits (labels : LabelOffsets) (codeLength : Nat) : LayoutElement → Prop
  | .branch b =>
    (∀ k ∈ b.targets, ∀ n, labels[k]? = some n → n < codeLength) ∧ b.CasesFit
  | _ => True

theorem target_add {n : Nat} (h : n < codeLength) :
    CodePosition.target ⟨offset, codeLength⟩ (n - offset) = .ok n := by
  unfold CodePosition.target
  have hadd : (offset : Int) + (n - offset) = n := by omega
  dsimp only
  rw [hadd, if_pos (by omega), Int.toNat_natCast]

theorem of_near {label : Label} {distance : Int16}
    (h : encode.near labels offset label = .ok distance) :
    ∃ n : Nat, labels[label]? = some n ∧ distance.toInt = n - offset := by
  obtain ⟨n, hn, h⟩ := bind_eq_ok.1 h
  dsimp only at h
  split at h
  next hfits =>
    obtain rfl := pure_eq_ok.1 h
    simp only [fitsShort, Bool.and_eq_true, decide_eq_true_eq] at hfits
    exact ⟨n, LabelOffsets.of_offset hn, Int16.toInt_ofInt_of_le (by omega) (by omega)⟩
  next => cases h

theorem of_far (hoffset : offset ≤ codeLength) (hlength : codeLength ≤ maxCodeLength)
    {label : Label} {distance : Int32}
    (hlabel : ∀ n, labels[label]? = some n → n < codeLength)
    (h : encode.far labels offset label = .ok distance) :
    ∃ n : Nat, labels[label]? = some n ∧ distance.toInt = n - offset := by
  obtain ⟨n, hn, h⟩ := bind_eq_ok.1 h
  obtain rfl := pure_eq_ok.1 h
  have hlabel' := LabelOffsets.of_offset hn
  have hlt := hlabel n hlabel'
  unfold maxCodeLength at hlength
  exact ⟨n, hlabel', Int32.toInt_ofInt_of_le (by omega) (by omega)⟩

theorem reads_branch (hoffset : offset ≤ codeLength) (hlength : codeLength ≤ maxCodeLength)
    {b : Branch Label Label} (hb : Fits labels codeLength (.branch b)) {bytes : Bytes}
    (h : encode labels offset (.branch b) = .ok bytes) :
    ∃ jump, Branch.Rel (fun k n => labels[k]? = some n) (fun k n => labels[k]? = some n)
        (b.aligned offset) jump
      ∧ Decoded.ReadsAs ⟨offset, codeLength⟩ bytes (.branch jump)
      ∧ bytes.length = (b.aligned offset).width := by
  obtain ⟨x, hx, h⟩ := bind_eq_ok.1 h
  obtain rfl := pure_eq_ok.1 h
  have hrel := Branch.rel_of_mapM hx
  have htargets : ∀ k ∈ (b.aligned offset).targets, ∀ n, labels[k]? = some n → n < codeLength := by
    rw [Branch.targets_aligned]
    exact hb.1
  have hmiddle : Branch.Rel
      (fun k (d : Int16) => ∃ n : Nat, labels[k]? = some n
        ∧ CodePosition.target ⟨offset, codeLength⟩ d.toInt = .ok n)
      (fun k (d : Int32) => ∃ n : Nat, labels[k]? = some n
        ∧ CodePosition.target ⟨offset, codeLength⟩ d.toInt = .ok n)
      (b.aligned offset) x := by
    refine hrel.imp ?_ ?_
    · intro k hk d hd
      obtain ⟨n, hn, hdistance⟩ := of_near hd
      refine ⟨n, hn, ?_⟩
      rw [hdistance]
      exact target_add (htargets k hk n hn)
    · intro k hk d hd
      obtain ⟨n, hn, hdistance⟩ := of_far hoffset hlength (htargets k hk) hd
      refine ⟨n, hn, ?_⟩
      rw [hdistance]
      exact target_add (htargets k hk n hn)
  -- the distances that are written lie between the labels and the offsets that are read
  obtain ⟨jump, hjump, hdistances⟩ := hmiddle.exists_between
  refine ⟨jump, hjump, ?_, ?_⟩
  · exact StoredBranch.reads_encode hdistances (hrel.aligned (b.aligned_aligned offset))
      (hrel.casesFit (Branch.casesFit_aligned.2 hb.2))
  · rw [StoredBranch.length_encode, hrel.width_eq]

end LayoutElement

theorem decodeFrom_append {codeLength bound offset : Nat} {bytes rest : Bytes} {d : Decoded}
    {decoded : List (Nat × Decoded)} (h : Decoded.ReadsAs ⟨offset, codeLength⟩ bytes d)
    (hpos : 1 ≤ bytes.length)
    (hrest : decodeFrom codeLength bound (offset + bytes.length) rest = .ok decoded) :
    decodeFrom codeLength (bound + 1) offset (bytes ++ rest) = .ok ((offset, d) :: decoded) := by
  have hread := h.read 0 rest
  rw [Nat.zero_add] at hread
  cases bytes with
  | nil => cases hpos
  | cons byte bytes =>
    rw [List.cons_append] at hread ⊢
    unfold decodeFrom
    change (((Decoded.read ⟨offset, codeLength⟩).run 0 (byte :: (bytes ++ rest))).bind fun x =>
      (decodeFrom codeLength bound (offset + x.1.2) x.2).bind fun tail =>
        .ok ((offset, x.1.1) :: tail)) = _
    have hread' : (Decoded.read ⟨offset, codeLength⟩).run 0 (byte :: (bytes ++ rest))
        = .ok ((d, (byte :: bytes).length), rest) := hread
    rw [hread']
    change ((decodeFrom codeLength bound (offset + (byte :: bytes).length) rest).bind fun tail =>
      .ok ((offset, d) :: tail)) = _
    rw [hrest]
    rfl

theorem le_endOffset (offset : Nat) (elements : List LayoutElement) :
    offset ≤ endOffset offset elements := by
  induction elements generalizing offset with
  | nil => exact Nat.le_refl _
  | cons e elements ih =>
    unfold endOffset
    exact Nat.le_trans (Nat.le_add_right _ _) (ih _)

/-- Written elements are decoded to the instructions among them. -/
theorem decodeFrom_of_parts {labels : LabelOffsets} {offset codeLength bound : Nat}
    {elements : List LayoutElement} {parts : List Bytes}
    (hparts : List.Forall₂ (fun x bytes => x.2.encode labels x.1 = .ok bytes)
      (placeFrom offset elements) parts)
    (hend : endOffset offset elements = codeLength) (hlength : codeLength ≤ maxCodeLength)
    (hfits : ∀ e ∈ elements, e.Fits labels codeLength) (hbound : codeLength ≤ offset + bound) :
    offset + parts.flatten.length = codeLength
      ∧ ∃ decoded, decodeFrom codeLength bound offset parts.flatten = .ok decoded
        ∧ DecodesTo labels (placeFrom offset elements) decoded := by
  induction elements generalizing offset bound parts with
  | nil =>
    cases hparts
    refine ⟨hend, [], ?_, .nil⟩
    cases bound <;> rfl
  | cons e elements ih =>
    unfold placeFrom at hparts
    obtain ⟨bytes, parts, hbytes, htail, rfl⟩ := List.forall₂_cons_left_iff.1 hparts
    rw [List.forall_mem_cons] at hfits
    unfold endOffset at hend
    have hle := le_endOffset (offset + e.width offset) elements
    rw [hend] at hle
    rw [List.flatten_cons, List.length_append]
    -- an element that is no label takes a byte at least, so the bound is not reached
    have hstep {d : Decoded} (hread : Decoded.ReadsAs ⟨offset, codeLength⟩ bytes d)
        (hwidth : bytes.length = e.width offset) (hpos : 1 ≤ e.width offset) :
        offset + (bytes.length + parts.flatten.length) = codeLength
          ∧ ∃ decoded, decodeFrom codeLength bound offset (bytes ++ parts.flatten)
              = .ok ((offset, d) :: decoded)
            ∧ DecodesTo labels (placeFrom (offset + e.width offset) elements) decoded := by
      obtain ⟨bound, rfl⟩ : ∃ b, bound = b + 1 := ⟨bound - 1, by omega⟩
      obtain ⟨hsum, decoded, hdecoded, hto⟩ := ih htail hend hfits.2
        (show codeLength ≤ offset + e.width offset + bound by omega)
      refine ⟨by omega, decoded, decodeFrom_append hread (by omega) ?_, hto⟩
      rwa [hwidth]
    cases e with
    | label k =>
      obtain rfl := pure_eq_ok.1 hbytes
      obtain ⟨hsum, decoded, hdecoded, hto⟩ := ih htail hend hfits.2 hbound
      refine ⟨?_, decoded, hdecoded, .label k hto⟩
      rwa [List.length_nil, Nat.zero_add]
    | instruction i =>
      obtain rfl := pure_eq_ok.1 hbytes
      obtain ⟨hsum, decoded, hdecoded, hto⟩ :=
        hstep i.reads_encode i.length_encode i.one_le_width
      exact ⟨hsum, _, hdecoded, .instruction i hto⟩
    | branch b =>
      obtain ⟨jump, hjump, hread, hwidth⟩ :=
        LayoutElement.reads_branch (by omega) hlength hfits.1 hbytes
      obtain ⟨hsum, decoded, hdecoded, hto⟩ := hstep hread hwidth (b.aligned offset).one_le_width
      exact ⟨hsum, _, hdecoded, .branch hjump hto⟩

/-- Code that was laid out, with the form of jumps that was chosen. -/
structure LaidOut (widened : List LayoutElement) (a : AssembledCode) : Prop where
  length : a.bytes.length = endOffset 0 widened
  length_le : a.bytes.length ≤ maxCodeLength
  labels : a.labels = labelOffsets (placeFrom 0 widened)
  decodes : ∃ decoded, decodeCode a.bytes = .ok decoded
    ∧ DecodesTo a.labels (placeFrom 0 widened) decoded

theorem laidOut_of_assemble {elements : List LayoutElement} {a : AssembledCode}
    (h : assemble elements = .ok a) :
    ∃ widened, widenAll elements = .ok widened
      ∧ List.Forall₂ LayoutElement.Widened elements widened
      ∧ a.labels = labelOffsets (placeFrom 0 widened)
      ∧ ((∀ e ∈ widened, e.Fits a.labels (endOffset 0 widened)) → LaidOut widened a) := by
  unfold assemble at h
  obtain ⟨widened, hwidened, h⟩ := bind_eq_ok.1 h
  dsimp only at h
  split at h
  next => cases h
  next hlength =>
    obtain ⟨parts, hparts, h⟩ := bind_eq_ok.1 h
    obtain rfl := pure_eq_ok.1 h
    refine ⟨widened, hwidened, widened_of_widenAll hwidened, rfl, fun hfits => ?_⟩
    obtain ⟨hsum, decoded, hdecoded, hto⟩ :=
      decodeFrom_of_parts (mapM_eq_ok.1 hparts) rfl (Nat.not_lt.1 hlength) hfits
        (Nat.le_add_left _ _)
    rw [Nat.zero_add] at hsum
    refine ⟨hsum, ?_, rfl, decoded, ?_, hto⟩
    · change parts.flatten.length ≤ _
      rw [hsum]
      exact Nat.not_lt.1 hlength
    · unfold decodeCode
      dsimp only
      rw [hsum]
      exact hdecoded

end ClassPatch
