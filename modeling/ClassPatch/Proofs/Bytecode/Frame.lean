import ClassPatch.Bytecode.Frame
import ClassPatch.Proofs.Run

/-!
Frames and their changes. A frame is what the most compact change makes of the frame before it, and
the sites of new objects can be renamed before or after that.
-/

namespace ClassPatch

variable {C S T U : Type}

namespace VerificationType

def mapSite (f : S → T) : VerificationType C S → VerificationType C T
  | .top => .top
  | .int => .int
  | .float => .float
  | .double => .double
  | .long => .long
  | .null => .null
  | .uninitializedThis => .uninitializedThis
  | .object c => .object c
  | .uninitialized site => .uninitialized (f site)

def site? : VerificationType C S → Option S
  | .uninitialized site => some site
  | _ => none

theorem site?_mapSite (f : S → T) (t : VerificationType C S) :
    (t.mapSite f).site? = t.site?.map f := by
  cases t <;> rfl

theorem mapSite_mapSite (f : S → T) (g : T → U) (t : VerificationType C S) :
    (t.mapSite f).mapSite g = t.mapSite (g ∘ f) := by
  cases t <;> rfl

theorem mapM_mapSite (f : S → T) (site : T → Except ClassError U) (t : VerificationType C S) :
    (t.mapSite f).mapM pure site = t.mapM pure (site ∘ f) := by
  cases t <;> rfl

theorem mapM_of_site {site : S → Except ClassError T} {f : S → T} {t : VerificationType C S}
    (h : ∀ s ∈ t.site?, site s = .ok (f s)) : t.mapM pure site = .ok (t.mapSite f) := by
  cases t with
  | uninitialized s => exact bind_of_eq_ok (h s rfl) _
  | _ => rfl

theorem site_of_mapM {site : S → Except ClassError T} {t : VerificationType C S}
    {u : VerificationType C T} (h : t.mapM pure site = .ok u) :
    ∀ s ∈ t.site?, ∃ k, site s = .ok k := by
  intro s hs
  cases t with
  | uninitialized s' =>
    cases hs
    obtain ⟨k, hk, -⟩ := bind_eq_ok.1 h
    exact ⟨k, hk⟩
  | _ => cases hs

end VerificationType

namespace FrameChange

def mapSites (f : S → T) : FrameChange C S → FrameChange C T
  | .same => .same
  | .sameWithStack t => .sameWithStack (t.mapSite f)
  | .chop count => .chop count
  | .append locals => .append (locals.map (·.mapSite f))
  | .full locals stack => .full (locals.map (·.mapSite f)) (stack.map (·.mapSite f))

/-- Entries hold the change: few locals are dropped or added, and those of a full frame counted. -/
def Fits : FrameChange C S → Prop
  | .chop count => count ≤ 3
  | .append locals => locals.length ≤ 3
  | .full locals stack => locals.length ≤ 0xFFFF ∧ stack.length ≤ 0xFFFF
  | _ => True

theorem fits_mapSites {f : S → T} {change : FrameChange C S} (h : change.Fits) :
    (change.mapSites f).Fits := by
  cases change with
  | append locals =>
    simp only [mapSites, Fits, List.length_map]
    exact h
  | full locals stack =>
    simp only [mapSites, Fits, List.length_map]
    exact h
  | _ => exact h

end FrameChange

namespace Frame

def mapSites (f : S → T) (frame : Frame C S) : Frame C T where
  locals := frame.locals.map (·.mapSite f)
  stack := frame.stack.map (·.mapSite f)

theorem take_of_isPrefix {α : Type} {as bs : List α} (h : as <+: bs) : bs.take as.length = as := by
  obtain ⟨cs, rfl⟩ := h
  rw [List.take_left]

theorem append_drop_of_isPrefix {α : Type} {as bs : List α} (h : as <+: bs) :
    as ++ bs.drop as.length = bs := by
  obtain ⟨cs, rfl⟩ := h
  rw [List.drop_left]

/-- The most compact change leads to the frame. -/
theorem apply_compress [DecidableEq C] [DecidableEq S] (f before : Frame C S) :
    before.apply (f.compress before) = .ok f := by
  obtain ⟨locals, stack⟩ := f
  unfold compress
  dsimp only
  split
  next =>
    split
    next hsame =>
      rw [hsame]
      rfl
    next =>
      split
      next hchop =>
        obtain ⟨hpos, hle, hprefix⟩ := hchop
        have hnat : (UInt8.ofNat (before.locals.length - locals.length)).toNat
            = before.locals.length - locals.length := by
          rw [UInt8.toNat_ofNat', Nat.mod_eq_of_lt (by omega)]
        have htake := take_of_isPrefix hprefix
        simp only [apply, hnat]
        rw [if_neg (by omega), Nat.sub_sub_self (by omega), htake]
      next =>
        split
        next happend =>
          obtain ⟨hpos, hle, hprefix⟩ := happend
          simp only [apply]
          rw [append_drop_of_isPrefix hprefix]
        next => rfl
  next t =>
    split
    next hsame =>
      rw [hsame]
      rfl
    next => rfl
  next => rfl

theorem apply_mapSites (f : S → T) {before after : Frame C S} {change : FrameChange C S}
    (h : before.apply change = .ok after) :
    (before.mapSites f).apply (change.mapSites f) = .ok (after.mapSites f) := by
  cases change with
  | same =>
    cases h
    rfl
  | sameWithStack t =>
    cases h
    rfl
  | chop count =>
    unfold apply at h
    dsimp only at h
    split at h
    · cases h
    next hle =>
      cases h
      simp only [FrameChange.mapSites, apply, mapSites, List.length_map, List.map_take]
      rw [if_neg hle]
      rfl
  | append locals =>
    cases h
    simp only [FrameChange.mapSites, apply, mapSites, List.map_append]
    rfl
  | full locals stack =>
    cases h
    rfl

theorem fits_chop {n : Nat} (h : n ≤ 3) :
    (FrameChange.chop (UInt8.ofNat n) : FrameChange C S).Fits := by
  change UInt8.ofNat n ≤ 3
  rw [UInt8.le_iff_toNat_le, UInt8.toNat_ofNat', Nat.mod_eq_of_lt (by omega)]
  exact h

theorem fits_compress_of_length [DecidableEq C] [DecidableEq S] {after : Frame C S}
    (before : Frame C S) (hlocals : after.locals.length ≤ 0xFFFF)
    (hstack : after.stack.length ≤ 0xFFFF) : (after.compress before).Fits := by
  unfold compress
  dsimp only
  split
  next =>
    split
    · exact True.intro
    · split
      next hchop => exact fits_chop hchop.2.1
      next =>
        split
        next happend =>
          simp only [FrameChange.Fits, List.length_drop]
          exact happend.2.1
        next => exact ⟨hlocals, Nat.zero_le _⟩
  next t heq =>
    split
    · exact True.intro
    · exact ⟨hlocals, heq ▸ hstack⟩
  next => exact ⟨hlocals, hstack⟩

theorem fits_compress [DecidableEq C] [DecidableEq S] {before after : Frame C S}
    {change : FrameChange C S} (h : before.apply change = .ok after) (hfits : change.Fits) :
    (after.compress before).Fits := by
  cases change with
  | same =>
    cases h
    simp only [compress, if_true]
    exact True.intro
  | sameWithStack t =>
    cases h
    simp only [compress, if_true]
    exact True.intro
  | chop count =>
    simp only [apply] at h
    split at h
    next => cases h
    next hle =>
      cases h
      have hcount : count.toNat ≤ 3 := UInt8.le_iff_toNat_le.1 hfits
      have hdropped : before.locals.length
          - (before.locals.take (before.locals.length - count.toNat)).length = count.toNat := by
        rw [List.length_take]
        omega
      simp only [compress, hdropped]
      split
      · exact True.intro
      next hne =>
        rw [if_pos]
        · exact fits_chop hcount
        · refine ⟨Nat.pos_of_ne_zero fun hzero => hne ?_, hcount, List.take_prefix _ _⟩
          rw [hzero, Nat.sub_zero, List.take_length]
  | append locals =>
    cases h
    have hlocals : locals.length ≤ 3 := hfits
    simp only [compress]
    split
    · exact True.intro
    next hne =>
      have hpos : 0 < locals.length := by
        refine List.length_pos_iff.2 fun hnil => hne ?_
        rw [hnil, List.append_nil]
      rw [if_neg, if_pos]
      · simp only [FrameChange.Fits, List.length_drop, List.length_append]
        omega
      · rw [List.length_append]
        exact ⟨by omega, by omega, List.prefix_append _ _⟩
      · rw [List.length_append]
        intro hchop
        omega
  | full locals stack =>
    cases h
    exact fits_compress_of_length before hfits.1 hfits.2

def sites (frame : Frame C S) : List S :=
  (frame.locals ++ frame.stack).filterMap VerificationType.site?

theorem sites_mapSites (f : S → T) (frame : Frame C S) :
    (frame.mapSites f).sites = frame.sites.map f := by
  unfold sites mapSites
  rw [← List.map_append, List.filterMap_map, List.map_filterMap]
  congr 1
  funext t
  exact t.site?_mapSite f

theorem mapSites_mapSites (f : S → T) (g : T → U) (frame : Frame C S) :
    (frame.mapSites f).mapSites g = frame.mapSites (g ∘ f) := by
  unfold mapSites
  simp only [List.map_map, Function.comp_def, VerificationType.mapSite_mapSite]

theorem mapM_mapSites (f : S → T) (site : T → Except ClassError U) (frame : Frame C S) :
    (frame.mapSites f).mapM pure site = frame.mapM pure (site ∘ f) := by
  unfold mapSites mapM
  simp only [List.mapM_map, Function.comp_def, VerificationType.mapM_mapSite]

theorem mapM_of_sites {site : S → Except ClassError T} {f : S → T} {frame : Frame C S}
    (h : ∀ s ∈ frame.sites, site s = .ok (f s)) :
    frame.mapM pure site = .ok (frame.mapSites f) := by
  have htypes {ts : List (VerificationType C S)} (hts : ∀ t ∈ ts, t ∈ frame.locals ++ frame.stack) :
      ts.mapM (·.mapM pure site) = .ok (ts.map (·.mapSite f)) := by
    refine mapM_eq_ok.2 (List.forall₂_map_right_iff.2 (List.forall₂_same.2 ?_))
    intro t ht
    exact VerificationType.mapM_of_site fun s hs => h s (List.mem_filterMap.2 ⟨t, hts t ht, hs⟩)
  have hlocals := htypes fun t ht => List.mem_append_left frame.stack ht
  have hstack := htypes fun t ht => List.mem_append_right frame.locals ht
  unfold mapM
  simp only [hlocals, hstack, ok_bind]
  rfl

theorem site_of_mapM {site : S → Except ClassError T} {frame : Frame C S} {frame' : Frame C T}
    (h : frame.mapM pure site = .ok frame') : ∀ s ∈ frame.sites, ∃ k, site s = .ok k := by
  unfold mapM at h
  obtain ⟨locals, hlocals, h⟩ := bind_eq_ok.1 h
  obtain ⟨stack, hstack, h⟩ := bind_eq_ok.1 h
  intro s hs
  obtain ⟨t, ht, hsite⟩ := List.mem_filterMap.1 hs
  rcases List.mem_append.1 ht with ht | ht
  · obtain ⟨t', -, hok⟩ := exists_of_mem_left (mapM_eq_ok.1 hlocals) ht
    exact VerificationType.site_of_mapM hok s hsite
  · obtain ⟨t', -, hok⟩ := exists_of_mem_left (mapM_eq_ok.1 hstack) ht
    exact VerificationType.site_of_mapM hok s hsite

end Frame

end ClassPatch
