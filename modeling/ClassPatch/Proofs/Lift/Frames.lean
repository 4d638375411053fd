import ClassPatch.Proofs.Binary.Ensures
import ClassPatch.Proofs.Lift.Labels
import ClassPatch.Proofs.Lower.Code

/-!
Frames that were lifted from a table of entries, and frames lifted again from the entries that they
were lowered to.
-/

namespace ClassPatch

namespace FrameChange

variable {C S C' S' : Type}

theorem fits_iff_of_mapM {cls : C → Except ClassError C'} {site : S → Except ClassError S'}
    {change : FrameChange C S} {change' : FrameChange C' S'}
    (h : change.mapM cls site = .ok change') : change'.Fits ↔ change.Fits := by
  cases change with
  | same =>
    obtain rfl := pure_eq_ok.1 h
    rfl
  | sameWithStack t =>
    obtain ⟨u, hu, h⟩ := bind_eq_ok.1 h
    obtain rfl := pure_eq_ok.1 h
    rfl
  | chop count =>
    obtain rfl := pure_eq_ok.1 h
    rfl
  | append locals =>
    obtain ⟨us, hus, h⟩ := bind_eq_ok.1 h
    obtain rfl := pure_eq_ok.1 h
    simp only [Fits, length_of_mapM hus]
  | full locals stack =>
    obtain ⟨us, hus, h⟩ := bind_eq_ok.1 h
    obtain ⟨vs, hvs, h⟩ := bind_eq_ok.1 h
    obtain rfl := pure_eq_ok.1 h
    simp only [Fits, length_of_mapM hus, length_of_mapM hvs]

end FrameChange

namespace Stored.FrameEntry

open Reader

theorem sub_le_three {tag : UInt8} (h247 : ¬tag < 247) (hne : ¬tag = 247) (h251 : tag < 251) :
    251 - tag ≤ 3 := by
  have hle : tag ≤ 251 := UInt8.le_of_lt h251
  rw [UInt8.lt_iff_toNat_lt] at h247 h251
  rw [← UInt8.toNat_inj] at hne
  rw [UInt8.le_iff_toNat_le, UInt8.toNat_sub_of_le _ _ hle]
  change ¬tag.toNat < 247 at h247
  change ¬tag.toNat = 247 at hne
  change tag.toNat < 251 at h251
  change 251 - tag.toNat ≤ 3
  omega

theorem toNat_sub_le_three {tag : UInt8} (h251 : ¬tag < 251) (h255 : tag < 255) :
    (tag - 251).toNat ≤ 3 := by
  have hle : 251 ≤ tag := UInt8.not_lt.1 h251
  rw [UInt8.lt_iff_toNat_lt] at h255
  rw [UInt8.toNat_sub_of_le _ _ hle]
  change tag.toNat < 255 at h255
  change tag.toNat - 251 ≤ 3
  omega

theorem ensures_read : Ensures read fun e => e.change.Fits := by
  refine .skip fun tag => ?_
  unfold readBody
  split
  · exact .pure True.intro
  split
  · exact .skip fun t => .pure True.intro
  split
  · exact .throw
  split
  · exact .skip fun delta => .skip fun t => .pure True.intro
  split
  next hlow hne hhigh => exact .skip fun delta => .pure (sub_le_three hlow hne hhigh)
  split
  · exact .skip fun delta => .pure True.intro
  split
  next hlow hne hhigh =>
    refine .skip fun delta => ((Ensures.trivial _).many _).map ?_
    intro locals hlocals
    change locals.length ≤ 3
    rw [hlocals.1]
    exact toNat_sub_le_three hlow hhigh
  · refine .skip fun delta => (Ensures.trivial _).list16.bind fun locals hlocals => ?_
    exact (Ensures.trivial _).list16.map fun stack hstack => ⟨hlocals.1, hstack.1⟩

end Stored.FrameEntry

namespace PlacedFrame

theorem check_of_mem {b : Boundaries} {source : Nat} {targets checked : List Nat}
    (h : targets.mapM (b.check source) = .ok checked) :
    checked = targets ∧ ∀ t ∈ targets, b.contains t = true := by
  have hforall := mapM_eq_ok.1 h
  constructor
  · have heq : List.Forall₂ (· = ·) targets checked :=
      hforall.imp fun t u hu => (Boundaries.check_eq_ok.1 hu).2.symm
    rw [List.forall₂_eq_eq_eq] at heq
    exact heq.symm
  · intro t ht
    obtain ⟨u, -, hu⟩ := exists_of_mem_left hforall ht
    exact (Boundaries.check_eq_ok.1 hu).1

theorem mapM_check {b : Boundaries} (source : Nat) {targets : List Nat}
    (h : ∀ t ∈ targets, b.contains t = true) : targets.mapM (b.check source) = .ok targets := by
  refine mapM_eq_ok.2 (List.forall₂_same.2 fun t ht => ?_)
  exact Boundaries.check_eq_ok.2 ⟨h t ht, rfl⟩

theorem offsets_eq_ok {b : Boundaries} {f : PlacedFrame} {os : List Nat} :
    offsets b f = .ok os ↔ os = f.1 :: f.2.sites.map (·.toNat)
      ∧ ∀ u ∈ f.2.sites, b.contains u.toNat = true := by
  have hsites (position? : VerificationType RefType UInt16 → Option Nat)
      (h : ∀ t, position? t = t.site?.map (·.toNat)) :
      (f.2.locals ++ f.2.stack).filterMap position? = f.2.sites.map (·.toNat) := by
    rw [funext h, Frame.sites, List.map_filterMap]
  have hoffsets : offsets b f = (do
      return f.1 :: (← (f.2.sites.map (·.toNat)).mapM (b.check f.1))) := by
    rw [offsets, hsites _ fun t => by cases t <;> rfl]
  rw [hoffsets]
  constructor
  · intro h
    obtain ⟨checked, hchecked, h⟩ := bind_eq_ok.1 h
    obtain rfl := pure_eq_ok.1 h
    obtain ⟨rfl, hcontains⟩ := check_of_mem hchecked
    exact ⟨rfl, List.forall_mem_map.1 hcontains⟩
  · rintro ⟨rfl, hcontains⟩
    rw [mapM_check f.1 (List.forall_mem_map.2 hcontains)]
    rfl

/-- The frame stands at an instruction, and so do the sites of its new objects. -/
structure StandsIn (b : Boundaries) (codeLength : Nat) (f : PlacedFrame) : Prop where
  lt : f.1 < codeLength
  offset : b.contains f.1 = true
  sites : ∀ u ∈ f.2.sites, b.contains u.toNat = true

end PlacedFrame

/-- Offset of an entry behind the frame before it. -/
def entryOffset (previous : Option Nat) (delta : UInt16) : Nat :=
  match previous with
  | none => delta.toNat
  | some p => p + delta.toNat + 1

theorem PlacedFrame.ofEntries_cons (r : Resolver) (b : Boundaries) (codeLength : Nat)
    (previous : Option Nat) (before : Frame RefType UInt16) (entry : Stored.FrameEntry)
    (entries : List Stored.FrameEntry) :
    ofEntries r b codeLength previous before (entry :: entries)
      = if codeLength ≤ entryOffset previous entry.offsetDelta
          ∨ b.contains (entryOffset previous entry.offsetDelta) = false then
          .error (.invalidCodeOffset (previous.getD 0)
            (entryOffset previous entry.offsetDelta : Nat))
        else do
          let change ← entry.change.mapM r.refType pure
          let frame ← before.apply change
          let _ ← offsets b (entryOffset previous entry.offsetDelta, frame)
          return (entryOffset previous entry.offsetDelta, frame)
            :: (← ofEntries r b codeLength (some (entryOffset previous entry.offsetDelta)) frame
              entries) := by
  rw [ofEntries.eq_def]
  by_cases h : codeLength ≤ entryOffset previous entry.offsetDelta
      ∨ b.contains (entryOffset previous entry.offsetDelta) = false
  · rw [if_pos h]
    cases previous with
    | none => exact (if_pos h).trans rfl
    | some p => exact (if_pos h).trans rfl
  · rw [if_neg h]
    cases previous with
    | none => exact if_neg h
    | some p => exact if_neg h

/-- Frames that were lifted from entries, each from the one before it. -/
inductive FramesLifted (r : Resolver) (b : Boundaries) (codeLength : Nat) :
    Option Nat → Frame RefType UInt16 → List Stored.FrameEntry → List PlacedFrame → Prop where
  | nil {previous : Option Nat} {before : Frame RefType UInt16} :
    FramesLifted r b codeLength previous before [] []
  | cons {previous : Option Nat} {before frame : Frame RefType UInt16} {entry : Stored.FrameEntry}
    {entries : List Stored.FrameEntry} {change : FrameChange RefType UInt16} {offset : Nat}
    {frames : List PlacedFrame} (hprevious : ∀ p ∈ previous, p < offset)
    (hchange : entry.change.mapM r.refType pure = .ok change)
    (happly : before.apply change = .ok frame)
    (hstands : PlacedFrame.StandsIn b codeLength (offset, frame))
    (hframes : FramesLifted r b codeLength (some offset) frame entries frames) :
    FramesLifted r b codeLength previous before (entry :: entries) ((offset, frame) :: frames)

theorem framesLifted_of_ofEntries {r : Resolver} {b : Boundaries} {codeLength : Nat}
    {previous : Option Nat} {before : Frame RefType UInt16} {entries : List Stored.FrameEntry}
    {frames : List PlacedFrame}
    (h : PlacedFrame.ofEntries r b codeLength previous before entries = .ok frames) :
    FramesLifted r b codeLength previous before entries frames := by
  induction entries generalizing previous before frames with
  | nil =>
    obtain rfl := pure_eq_ok.1 h
    exact .nil
  | cons entry entries ih =>
    rw [PlacedFrame.ofEntries_cons] at h
    split at h
    · cases h
    next hplace =>
      obtain ⟨change, hchange, h⟩ := bind_eq_ok.1 h
      obtain ⟨frame, hframe, h⟩ := bind_eq_ok.1 h
      obtain ⟨offsets, hoffsets, h⟩ := bind_eq_ok.1 h
      obtain ⟨frames, hframes, h⟩ := bind_eq_ok.1 h
      obtain rfl := pure_eq_ok.1 h
      rw [not_or, Nat.not_le, Bool.not_eq_false] at hplace
      refine .cons ?_ hchange hframe ⟨hplace.1, hplace.2, ?_⟩ (ih hframes)
      · intro p hp
        cases hp
        unfold entryOffset
        dsimp only
        omega
      · exact (PlacedFrame.offsets_eq_ok.1 hoffsets).2

namespace FramesLifted

variable {r : Resolver} {b : Boundaries} {codeLength : Nat} {previous : Option Nat}
  {before : Frame RefType UInt16} {entries : List Stored.FrameEntry} {frames : List PlacedFrame}

theorem lt_of_mem (h : FramesLifted r b codeLength previous before entries frames) {p : Nat}
    (hp : p ∈ previous) : ∀ f ∈ frames, p < f.1 := by
  induction h generalizing p with
  | nil => exact fun _ hf => absurd hf List.not_mem_nil
  | cons hprevious hchange happly hstands hframes ih =>
    have hlt := hprevious p hp
    refine List.forall_mem_cons.2 ⟨hlt, fun f hf => ?_⟩
    exact Nat.lt_trans hlt (ih rfl f hf)

theorem increasing (h : FramesLifted r b codeLength previous before entries frames) :
    frames.Pairwise fun f g => f.1 < g.1 := by
  induction h with
  | nil => exact .nil
  | cons hprevious hchange happly hstands hframes ih =>
    exact List.pairwise_cons.2 ⟨hframes.lt_of_mem rfl, ih⟩

theorem standsIn (h : FramesLifted r b codeLength previous before entries frames) :
    ∀ f ∈ frames, PlacedFrame.StandsIn b codeLength f := by
  induction h with
  | nil => exact fun _ hf => absurd hf List.not_mem_nil
  | cons hprevious hchange happly hstands hframes ih =>
    exact List.forall_mem_cons.2 ⟨hstands, ih⟩

end FramesLifted

/-- The most compact change to each frame can be stored. -/
def CompressFits {C S : Type} [DecidableEq C] [DecidableEq S] :
    Frame C S → List (Frame C S) → Prop
  | _, [] => True
  | before, frame :: frames => (frame.compress before).Fits ∧ CompressFits frame frames

theorem FramesLifted.compressFits {r : Resolver} {b : Boundaries} {codeLength : Nat}
    {previous : Option Nat} {before : Frame RefType UInt16} {entries : List Stored.FrameEntry}
    {frames : List PlacedFrame} (h : FramesLifted r b codeLength previous before entries frames)
    (hfits : ∀ e ∈ entries, e.change.Fits) (f : UInt16 → Label) :
    CompressFits (before.mapSites f) (frames.map (·.2.mapSites f)) := by
  induction h with
  | nil => exact True.intro
  | cons hprevious hchange happly hstands hframes ih =>
    rw [List.forall_mem_cons] at hfits
    refine ⟨?_, ih hfits.2⟩
    refine Frame.fits_compress (Frame.apply_mapSites f happly) (FrameChange.fits_mapSites ?_)
    exact (FrameChange.fits_iff_of_mapM hchange).2 hfits.1

theorem FramesLowered.entries_fit {r : Resolver} {labels : LabelOffsets}
    {previous : Option UInt16} {before : BodyFrame} {placed : List (UInt16 × BodyFrame)}
    {entries : List Stored.FrameEntry} (h : FramesLowered r labels previous before placed entries)
    (hfits : CompressFits before (placed.map (·.2))) : ∀ e ∈ entries, e.Fits := by
  induction h with
  | nil => exact fun _ he => absurd he List.not_mem_nil
  | cons hchange hframes ih =>
    refine List.forall_mem_cons.2 ⟨Stored.FrameEntry.fits_of_change ?_, ih hfits.2⟩
    exact (FrameChange.fits_iff_of_mapM hchange).1 (FrameChange.fits_mapSites hfits.1)

theorem FramesLowered.length_eq {r : Resolver} {labels : LabelOffsets}
    {previous : Option UInt16} {before : BodyFrame} {placed : List (UInt16 × BodyFrame)}
    {entries : List Stored.FrameEntry} (h : FramesLowered r labels previous before placed entries) :
    entries.length = placed.length := by
  induction h with
  | nil => rfl
  | cons hchange hframes ih => rw [List.length_cons, List.length_cons, ih]

theorem add_toNat_sub {p offset : UInt16} (h : p < offset) :
    p.toNat + (offset - p - 1).toNat + 1 = offset.toNat := by
  rw [UInt16.lt_iff_toNat_lt] at h
  have hoffset := offset.toNat_lt
  rw [UInt16.toNat_sub, UInt16.toNat_sub]
  change p.toNat + (2 ^ 16 - 1 + (2 ^ 16 - p.toNat + offset.toNat) % 2 ^ 16) % 2 ^ 16 + 1 = _
  omega

theorem ofEntries_of_lowered {r : Resolver} {labels : LabelOffsets} {b : Boundaries}
    {codeLength : Nat} {previous : Option UInt16} {before : BodyFrame}
    {placed : List (UInt16 × BodyFrame)} {entries : List Stored.FrameEntry}
    (h : FramesLowered r labels previous before placed entries)
    (hprevious : ∀ p ∈ previous, ∀ f ∈ placed, p < f.1)
    (hincreasing : placed.Pairwise fun f g => f.1 < g.1)
    (hstands : ∀ f ∈ placed, PlacedFrame.StandsIn b codeLength
      (f.1.toNat, f.2.mapSites labels.position)) :
    PlacedFrame.ofEntries r b codeLength (previous.map (·.toNat))
      (before.mapSites labels.position) entries
      = .ok (placed.map fun f => (f.1.toNat, f.2.mapSites labels.position)) := by
  -- each entry is read as a change of the frame before it, so that frame is not fixed
  induction h with
  | nil =>
    unfold PlacedFrame.ofEntries
    rfl
  | @cons previous before frame offset frames x xs hchange hframes ih =>
    rw [List.pairwise_cons] at hincreasing
    rw [List.forall_mem_cons] at hstands
    have htail : PlacedFrame.ofEntries r b codeLength (some offset.toNat)
        (frame.mapSites labels.position) xs
        = .ok (frames.map fun f => (f.1.toNat, f.2.mapSites labels.position)) := by
      refine ih ?_ hincreasing.2 hstands.2
      intro p hp
      cases hp
      exact hincreasing.1
    have hoffset : entryOffset (previous.map (·.toNat)) (frameDelta previous offset)
        = offset.toNat := by
      cases previous with
      | none => rfl
      | some p => exact add_toNat_sub (hprevious p rfl _ List.mem_cons_self)
    have happly := Frame.apply_mapSites labels.position (Frame.apply_compress frame before)
    have hoffsets := PlacedFrame.offsets_eq_ok.2 ⟨rfl, hstands.1.sites⟩
    rw [PlacedFrame.ofEntries_cons, hoffset, if_neg]
    · simp only [hchange, happly, hoffsets, htail, ok_bind]
      rfl
    · rw [not_or, Nat.not_le, Bool.not_eq_false]
      exact ⟨hstands.1.lt, hstands.1.offset⟩

end ClassPatch
