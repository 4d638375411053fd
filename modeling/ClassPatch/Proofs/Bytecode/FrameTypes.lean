import ClassPatch.Proofs.Bytecode.FrameSize

/-!
Types that a change of frames names. The most compact change names no type that another change to
the same frame does not name, so the constants of the other are enough to store it.
-/

namespace ClassPatch

variable {C S T : Type}

namespace FrameChange

def types : FrameChange C S → List (VerificationType C S)
  | .same | .chop _ => []
  | .sameWithStack t => [t]
  | .append locals => locals
  | .full locals stack => locals ++ stack

theorem types_mapSites (f : S → T) (change : FrameChange C S) :
    (change.mapSites f).types = change.types.map (·.mapSite f) := by
  cases change with
  | full locals stack => exact List.map_append.symm
  | _ => rfl

theorem exists_of_mem_types {C' S' : Type} {cls : C → Except ClassError C'}
    {site : S → Except ClassError S'} {change : FrameChange C S} {change' : FrameChange C' S'}
    (h : change.mapM cls site = .ok change') {u : VerificationType C' S'}
    (hu : u ∈ change'.types) : ∃ t ∈ change.types, t.mapM cls site = .ok u := by
  cases change with
  | same | chop =>
    obtain rfl := pure_eq_ok.1 h
    cases hu
  | sameWithStack t =>
    obtain ⟨t', ht, h⟩ := bind_eq_ok.1 h
    obtain rfl := pure_eq_ok.1 h
    obtain rfl := List.mem_singleton.1 hu
    exact ⟨t, List.mem_singleton_self t, ht⟩
  | append locals =>
    obtain ⟨us, hus, h⟩ := bind_eq_ok.1 h
    obtain rfl := pure_eq_ok.1 h
    exact exists_of_mem_mapM hus hu
  | full locals stack =>
    obtain ⟨us, hus, h⟩ := bind_eq_ok.1 h
    obtain ⟨vs, hvs, h⟩ := bind_eq_ok.1 h
    obtain rfl := pure_eq_ok.1 h
    rcases List.mem_append.1 hu with hu | hu
    · obtain ⟨t, ht, hok⟩ := exists_of_mem_mapM hus hu
      exact ⟨t, List.mem_append_left _ ht, hok⟩
    · obtain ⟨t, ht, hok⟩ := exists_of_mem_mapM hvs hu
      exact ⟨t, List.mem_append_right _ ht, hok⟩

end FrameChange

namespace Frame

variable [DecidableEq C] [DecidableEq S]

theorem mem_of_mem_types_compress {f before : Frame C S} {t : VerificationType C S}
    (h : t ∈ (f.compress before).types) : t ∈ f.locals ++ f.stack := by
  unfold compress at h
  dsimp only at h
  split at h
  next hstack =>
    rw [hstack, List.append_nil]
    split at h
    · cases h
    split at h
    · cases h
    split at h
    · exact List.mem_of_mem_drop h
    · rwa [FrameChange.types, List.append_nil] at h
  next u hstack =>
    rw [hstack]
    split at h
    · exact List.mem_append_right _ h
    · exact h
  next => exact h

theorem mem_types_of_mem_types_compress {f before : Frame C S} {change : FrameChange C S}
    (h : before.apply change = .ok f) (hfits : change.Fits) {t : VerificationType C S}
    (ht : t ∈ (f.compress before).types) : t ∈ change.types := by
  by_cases hshort : change.Writable ∧ change.IsShort
  · rwa [compress_of_isShort h hshort.1 hshort.2] at ht
  -- a change that is not short is a full frame, or it drops or adds no local
  cases change with
  | same | sameWithStack => exact absurd ⟨True.intro, True.intro⟩ hshort
  | chop count =>
    have hzero : count.toNat = 0 := by
      have hle : count.toNat ≤ 3 := UInt8.le_iff_toNat_le.1 hfits
      refine Nat.eq_zero_of_not_pos fun hpos => hshort ⟨⟨?_, hfits⟩, True.intro⟩
      exact UInt8.le_iff_toNat_le.2 hpos
    rw [apply, hzero, if_neg (Nat.not_lt_zero _), Nat.sub_zero, List.take_length] at h
    cases h
    rw [compress, if_pos rfl] at ht
    cases ht
  | append locals =>
    have hnil : locals = [] := by
      refine List.eq_nil_of_length_eq_zero (Nat.eq_zero_of_not_pos fun hpos => ?_)
      exact hshort ⟨⟨hpos, hfits⟩, True.intro⟩
    rw [hnil, apply, List.append_nil] at h
    cases h
    rw [compress, if_pos rfl] at ht
    cases ht
  | full locals stack =>
    cases h
    exact mem_of_mem_types_compress ht

end Frame

end ClassPatch
