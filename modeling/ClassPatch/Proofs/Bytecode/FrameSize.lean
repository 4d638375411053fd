import ClassPatch.Proofs.Bytecode.Frame
import ClassPatch.Stored.Attribute
import Mathlib.Algebra.GroupWithZero.Nat

/-!
Sizes of the entries of frames. The size of an entry depends on the forms of its types and not on
their classes and sites, so it is known before these are resolved. Of all changes that lead to a
frame, the most compact one has the shortest entry.
-/

namespace ClassPatch

variable {C S : Type}

namespace Writer

theorem length_u8 (x : UInt8) : (u8 x).length = 1 := rfl

theorem length_u16 (x : UInt16) : (u16 x).length = 2 := rfl

end Writer

namespace VerificationType

/-- Bytes of the type in an entry: after the tag of some stands an index or an offset. -/
def size : VerificationType C S → Nat
  | .object _ | .uninitialized _ => 3
  | _ => 1

/-- Bytes of the types, one after the other. -/
def sizes (ts : List (VerificationType C S)) : Nat := (ts.map size).sum

theorem sizes_drop_le (ts : List (VerificationType C S)) (n : Nat) :
    sizes (ts.drop n) ≤ sizes ts := by
  conv => rhs; rw [← List.take_append_drop n ts]
  unfold sizes
  rw [List.map_append, List.sum_append]
  exact Nat.le_add_left _ _

variable {cls : C → PoolM ConstantIndex} {site : S → PoolM UInt16} {p q : Pool}

theorem size_of_run_mapM {t : VerificationType C S} {u : Stored.VerificationType}
    (h : (t.mapM cls site).run p = (.ok u, q)) : t.size = u.size := by
  cases t with
  | object c =>
    obtain ⟨c', p', -, h⟩ := run_bind_eq_ok.1 h
    obtain ⟨rfl, -⟩ := run_pure_eq_ok.1 h
    rfl
  | uninitialized s =>
    obtain ⟨s', p', -, h⟩ := run_bind_eq_ok.1 h
    obtain ⟨rfl, -⟩ := run_pure_eq_ok.1 h
    rfl
  | _ =>
    obtain ⟨rfl, -⟩ := run_pure_eq_ok.1 h
    rfl

theorem sizes_of_run_mapM {ts : List (VerificationType C S)} {us : List Stored.VerificationType}
    (h : (ts.mapM (VerificationType.mapM cls site)).run p = (.ok us, q)) :
    sizes ts = sizes us := by
  refine congrArg List.sum (map_eq_map_of_forall₂ ((forall₂_of_run_mapM h).imp ?_))
  rintro t u ⟨p', q', hrun⟩
  exact size_of_run_mapM hrun

end VerificationType

namespace FrameChange

open VerificationType

/-- Entries hold the change: one to three locals are dropped or added. -/
def Writable : FrameChange C S → Prop
  | .chop count => 1 ≤ count ∧ count ≤ 3
  | .append locals => 1 ≤ locals.length ∧ locals.length ≤ 3
  | _ => True

/-- Whether the locals are those of the frame before, but for the last ones. -/
def IsShort : FrameChange C S → Prop
  | .full .. => False
  | _ => True

/-- Bytes of a tag that may hold the offset. -/
def tagSize (offsetDelta : UInt16) : Nat := if offsetDelta < 64 then 1 else 3

/-- Bytes of an entry with the change. -/
def size (offsetDelta : UInt16) : FrameChange C S → Nat
  | .same => tagSize offsetDelta
  | .sameWithStack t => tagSize offsetDelta + t.size
  | .chop _ => 3
  | .append locals => 3 + sizes locals
  | .full locals stack => 7 + sizes locals + sizes stack

theorem tagSize_le (offsetDelta : UInt16) : tagSize offsetDelta ≤ 3 := by
  unfold tagSize
  split <;> decide

/-- What the change can be with its classes and sites resolved to indices and offsets. -/
def ResolvesTo (change : FrameChange C S) (stored : FrameChange ConstantIndex UInt16) : Prop :=
  ∃ (cls : C → PoolM ConstantIndex) (site : S → PoolM UInt16) (p q : Pool),
    (change.mapM cls site).run p = (.ok stored, q)

theorem ResolvesTo.keeps {change : FrameChange C S} {stored : FrameChange ConstantIndex UInt16}
    (h : change.ResolvesTo stored) : (change.Writable ↔ stored.Writable)
      ∧ ∀ offsetDelta, change.size offsetDelta = stored.size offsetDelta := by
  obtain ⟨cls, site, p, q, hrun⟩ := h
  cases change with
  | same =>
    obtain ⟨rfl, -⟩ := run_pure_eq_ok.1 hrun
    exact ⟨Iff.rfl, fun _ => rfl⟩
  | sameWithStack t =>
    obtain ⟨u, p', ht, hrun⟩ := run_bind_eq_ok.1 hrun
    obtain ⟨rfl, -⟩ := run_pure_eq_ok.1 hrun
    exact ⟨Iff.rfl, fun _ => congrArg _ (size_of_run_mapM ht)⟩
  | chop count =>
    obtain ⟨rfl, -⟩ := run_pure_eq_ok.1 hrun
    exact ⟨Iff.rfl, fun _ => rfl⟩
  | append locals =>
    obtain ⟨us, p', hlocals, hrun⟩ := run_bind_eq_ok.1 hrun
    obtain ⟨rfl, -⟩ := run_pure_eq_ok.1 hrun
    have hlength := (forall₂_of_run_mapM hlocals).length_eq
    simp only [Writable, size, hlength, sizes_of_run_mapM hlocals, true_and, implies_true]
  | full locals stack =>
    obtain ⟨us, p', hlocals, hrun⟩ := run_bind_eq_ok.1 hrun
    obtain ⟨vs, q', hstack, hrun⟩ := run_bind_eq_ok.1 hrun
    obtain ⟨rfl, -⟩ := run_pure_eq_ok.1 hrun
    simp only [Writable, size, sizes_of_run_mapM hlocals, sizes_of_run_mapM hstack, true_and,
      implies_true]

end FrameChange

namespace Stored

open ClassPatch.VerificationType Writer

theorem VerificationType.length_write (t : VerificationType) : t.write.length = t.size := by
  cases t <;> rfl

theorem VerificationType.length_flatMap_write (ts : List VerificationType) :
    (ts.flatMap write).length = sizes ts := by
  rw [List.length_flatMap]
  exact congrArg List.sum (List.map_congr_left fun t _ => length_write t)

namespace FrameEntry

theorem exists_write {e : FrameEntry} (h : e.change.Writable) : ∃ bytes, e.write = .ok bytes := by
  obtain ⟨offsetDelta, change⟩ := e
  cases change with
  | chop count => exact ⟨_, if_pos h⟩
  | append locals => exact ⟨_, if_pos h⟩
  | _ => exact ⟨_, rfl⟩

theorem exists_writeTable {entries : List FrameEntry} (h : ∀ e ∈ entries, e.change.Writable) :
    ∃ bytes, writeTable entries = .ok bytes := by
  obtain ⟨parts, hparts⟩ := exists_mapM fun e he => exists_write (h e he)
  exact ⟨_, bind_of_eq_ok hparts _⟩

theorem writable_of_write {e : FrameEntry} {bytes : Bytes} (h : e.write = .ok bytes) :
    e.change.Writable ∧ bytes.length = e.change.size e.offsetDelta := by
  obtain ⟨offsetDelta, change⟩ := e
  unfold write at h
  cases change with
  | same =>
    cases h
    refine ⟨True.intro, ?_⟩
    simp only [FrameChange.size, FrameChange.tagSize]
    split <;> rfl
  | sameWithStack t =>
    cases h
    refine ⟨True.intro, ?_⟩
    simp only [FrameChange.size, FrameChange.tagSize, List.length_append,
      VerificationType.length_write]
    split <;> rfl
  | chop count =>
    dsimp only at h
    split at h
    next hcount =>
      cases h
      exact ⟨hcount, rfl⟩
    next => cases h
  | append locals =>
    dsimp only at h
    split at h
    next hlength =>
      cases h
      refine ⟨hlength, ?_⟩
      rw [List.length_append, VerificationType.length_flatMap_write]
      rfl
    next => cases h
  | full locals stack =>
    cases h
    refine ⟨True.intro, ?_⟩
    simp only [list16, List.length_append, VerificationType.length_flatMap_write]
    simp only [length_u8, length_u16, FrameChange.size]
    omega

end FrameEntry

end Stored

namespace Frame

open VerificationType

variable [DecidableEq C] [DecidableEq S]

theorem compress_writable (f before : Frame C S) : (f.compress before).Writable := by
  unfold compress
  dsimp only
  split
  next =>
    split
    · exact True.intro
    · split
      next hchop =>
        have hnat : (UInt8.ofNat (before.locals.length - f.locals.length)).toNat
            = before.locals.length - f.locals.length := by
          rw [UInt8.toNat_ofNat', Nat.mod_eq_of_lt (by omega)]
        refine ⟨UInt8.le_iff_toNat_le.2 ?_, UInt8.le_iff_toNat_le.2 ?_⟩
        · rw [hnat]
          exact hchop.1
        · rw [hnat]
          exact hchop.2.1
      next =>
        split
        next happend =>
          simp only [FrameChange.Writable, List.length_drop]
          exact ⟨happend.1, happend.2.1⟩
        next => exact True.intro
  next => split <;> exact True.intro
  next => exact True.intro

theorem compress_of_isShort {f before : Frame C S} {change : FrameChange C S}
    (h : before.apply change = .ok f) (hwritable : change.Writable) (hshort : change.IsShort) :
    f.compress before = change := by
  cases change with
  | same =>
    cases h
    exact if_pos rfl
  | sameWithStack t =>
    cases h
    exact if_pos rfl
  | chop count =>
    simp only [apply] at h
    split at h
    next => cases h
    next hle =>
      cases h
      have hpos : 1 ≤ count.toNat := UInt8.le_iff_toNat_le.1 hwritable.1
      have hcount : count.toNat ≤ 3 := UInt8.le_iff_toNat_le.1 hwritable.2
      have hlength : (before.locals.take (before.locals.length - count.toNat)).length
          = before.locals.length - count.toNat := by
        rw [List.length_take]
        omega
      have hdropped : before.locals.length
          - (before.locals.take (before.locals.length - count.toNat)).length = count.toNat := by
        omega
      have hne : before.locals.take (before.locals.length - count.toNat) ≠ before.locals := by
        intro heq
        have := congrArg List.length heq
        omega
      simp only [compress, hdropped]
      rw [if_neg hne, if_pos ⟨hpos, hcount, List.take_prefix _ _⟩, UInt8.ofNat_toNat]
  | append locals =>
    cases h
    obtain ⟨hpos, hle⟩ := hwritable
    have hne : before.locals ++ locals ≠ before.locals := by
      intro heq
      have := congrArg List.length heq
      rw [List.length_append] at this
      omega
    simp only [compress]
    rw [if_neg hne, if_neg, if_pos]
    · rw [List.drop_left]
    · rw [List.length_append]
      exact ⟨by omega, by omega, List.prefix_append _ _⟩
    · rw [List.length_append]
      intro hchop
      omega
  | full locals stack => exact hshort.elim

theorem size_compress_le_full (f before : Frame C S) (offsetDelta : UInt16) :
    (f.compress before).size offsetDelta
      ≤ (FrameChange.full f.locals f.stack).size offsetDelta := by
  have htag := FrameChange.tagSize_le offsetDelta
  unfold compress
  dsimp only
  split
  next hnil =>
    split
    · simp only [FrameChange.size]
      omega
    · split
      · simp only [FrameChange.size]
        omega
      · split
        · have hdrop := sizes_drop_le f.locals before.locals.length
          simp only [FrameChange.size]
          omega
        · exact Nat.le_of_eq (by rw [hnil])
  next t hstack =>
    split
    · simp only [FrameChange.size, hstack, sizes, List.map_cons, List.map_nil, List.sum_cons,
        List.sum_nil]
      omega
    · exact Nat.le_of_eq (by rw [hstack])
  next => exact Nat.le_refl _

theorem size_compress_le {f before : Frame C S} {change : FrameChange C S}
    (h : before.apply change = .ok f) (hwritable : change.Writable) (offsetDelta : UInt16) :
    (f.compress before).size offsetDelta ≤ change.size offsetDelta := by
  cases change with
  | full locals stack =>
    cases h
    exact size_compress_le_full _ before offsetDelta
  | _ => exact Nat.le_of_eq (congrArg _ (compress_of_isShort h hwritable True.intro))

/--
The most compact change leads to the frame, its entry can be written once its types are resolved,
and no other change to the frame has an entry of fewer bytes.
-/
theorem compress_shortest (f before : Frame C S) (offsetDelta : UInt16) :
    before.apply (f.compress before) = .ok f
      ∧ ∀ stored, (f.compress before).ResolvesTo stored → ∃ bytes : Bytes,
        Stored.FrameEntry.write ⟨offsetDelta, stored⟩ = .ok bytes
          ∧ ∀ change stored' bytes', before.apply change = .ok f → change.ResolvesTo stored' →
            Stored.FrameEntry.write ⟨offsetDelta, stored'⟩ = .ok bytes' →
              bytes.length ≤ bytes'.length := by
  refine ⟨apply_compress f before, fun stored hstored => ?_⟩
  obtain ⟨hwritable, hsize⟩ := hstored.keeps
  obtain ⟨bytes, hbytes⟩ := Stored.FrameEntry.exists_write (e := ⟨offsetDelta, stored⟩)
    (hwritable.1 (compress_writable f before))
  refine ⟨bytes, hbytes, fun change stored' bytes' happly hstored' hbytes' => ?_⟩
  obtain ⟨hwritable', hsize'⟩ := hstored'.keeps
  obtain ⟨hwritten', hlength'⟩ := Stored.FrameEntry.writable_of_write hbytes'
  calc bytes.length
      = stored.size offsetDelta := (Stored.FrameEntry.writable_of_write hbytes).2
    _ = (f.compress before).size offsetDelta := (hsize offsetDelta).symm
    _ ≤ change.size offsetDelta := size_compress_le happly (hwritable'.2 hwritten') offsetDelta
    _ = stored'.size offsetDelta := hsize' offsetDelta
    _ = bytes'.length := hlength'.symm

/--
A frame with two locals more than the one before it: appending takes 7 bytes, and all of the frame
14.
-/
theorem compress_shortest_appended :
    let before : Frame Nat Nat := ⟨[.object 1, .long], []⟩
    let f : Frame Nat Nat := ⟨[.object 1, .long, .top, .uninitialized 9], []⟩
    before.apply (.full f.locals []) = .ok f
      ∧ (f.compress before).ResolvesTo (.append [.top, .uninitialized 9])
      ∧ (FrameChange.full f.locals []).ResolvesTo
        (.full [.object 1, .long, .top, .uninitialized 9] [])
      ∧ ∃ bytes bytes', Stored.FrameEntry.write ⟨70, .append [.top, .uninitialized 9]⟩ = .ok bytes
        ∧ Stored.FrameEntry.write ⟨70, .full [.object 1, .long, .top, .uninitialized 9] []⟩
          = .ok bytes'
        ∧ bytes.length ≤ bytes'.length := by
  intro before f
  have hresolves : (f.compress before).ResolvesTo (.append [.top, .uninitialized 9]) :=
    ⟨fun c => pure (UInt16.ofNat c), fun s => pure (UInt16.ofNat s), .empty, .empty, rfl⟩
  have hresolves' : (FrameChange.full f.locals []).ResolvesTo
      (.full [.object 1, .long, .top, .uninitialized 9] []) :=
    ⟨fun c => pure (UInt16.ofNat c), fun s => pure (UInt16.ofNat s), .empty, .empty, rfl⟩
  obtain ⟨bytes, hbytes, hle⟩ := (compress_shortest f before 70).2 _ hresolves
  exact ⟨rfl, hresolves, hresolves', bytes, _, hbytes, rfl, hle _ _ _ rfl hresolves' rfl⟩

end Frame

end ClassPatch
