import ClassPatch.Proofs.Run
import ClassPatch.Stored.ClassFile

/-!
What holds of every value that a reader reads, whatever the bytes are: the lengths of lists are
those that the fields which count them can hold. Some readers always take as many bytes.
-/

namespace ClassPatch

namespace Reader

variable {α β : Type}

/-- All values that the reader reads satisfy the predicate. -/
def Ensures (read : Reader α) (P : α → Prop) : Prop :=
  ∀ bytes a rest, read.run bytes = .ok (a, rest) → P a

namespace Ensures

variable {P : α → Prop} {Q : β → Prop}

theorem trivial (read : Reader α) : Ensures read fun _ => True := fun _ _ _ _ => True.intro

theorem pure {a : α} (h : P a) : Ensures (Pure.pure a) P := by
  intro bytes a' rest hrun
  cases hrun
  exact h

theorem throw {e : ClassError} : Ensures (MonadExcept.throw e) P := by
  intro bytes a rest hrun
  cases hrun

theorem bind {read : Reader α} {next : α → Reader β} (h : Ensures read P)
    (hnext : ∀ a, P a → Ensures (next a) Q) : Ensures (read >>= next) Q := by
  intro bytes b rest hrun
  obtain ⟨⟨a, bytes'⟩, hread, hrest⟩ := bind_eq_ok.1 hrun
  exact hnext a (h bytes a bytes' hread) bytes' b rest hrest

theorem skip {read : Reader α} {next : α → Reader β} (hnext : ∀ a, Ensures (next a) Q) :
    Ensures (read >>= next) Q :=
  (trivial read).bind fun a _ => hnext a

theorem map {read : Reader α} {f : α → β} (h : Ensures read P) (hf : ∀ a, P a → Q (f a)) :
    Ensures (do return f (← read)) Q :=
  h.bind fun a ha => pure (hf a ha)

theorem mono {P' : α → Prop} {read : Reader α} (h : Ensures read P) (hP : ∀ a, P a → P' a) :
    Ensures read P' :=
  fun bytes a rest hrun => hP a (h bytes a rest hrun)

theorem many {read : Reader α} (h : Ensures read P) (count : Nat) :
    Ensures (Reader.many read count) fun as => as.length = count ∧ ∀ a ∈ as, P a := by
  induction count with
  | zero => exact pure ⟨rfl, nofun⟩
  | succ count ih =>
    refine h.bind fun a ha => ih.map ?_
    intro as has
    exact ⟨congrArg Nat.succ has.1, List.forall_mem_cons.2 ⟨ha, has.2⟩⟩

theorem list16 {read : Reader α} (h : Ensures read P) :
    Ensures (Reader.list16 read) fun as => as.length ≤ 0xFFFF ∧ ∀ a ∈ as, P a := by
  refine skip fun count => (h.many count.toNat).mono ?_
  intro as has
  have := count.toNat_lt
  exact ⟨by omega, has.2⟩

theorem list8 {read : Reader α} (h : Ensures read P) :
    Ensures (Reader.list8 read) fun as => as.length ≤ 0xFF ∧ ∀ a ∈ as, P a := by
  refine skip fun count => (h.many count.toNat).mono ?_
  intro as has
  have := count.toNat_lt
  exact ⟨by omega, has.2⟩

end Ensures

/-- The reader takes the given number of bytes. -/
def Takes (read : Reader α) (size : Nat) : Prop :=
  ∀ bytes a rest, read.run bytes = .ok (a, rest) → size + rest.length = bytes.length

theorem Takes.map {read : Reader α} {size : Nat} (h : Takes read size) (f : α → β) :
    Takes (f <$> read) size := by
  intro bytes b rest hrun
  obtain ⟨⟨a, rest'⟩, hread, hrest⟩ := bind_eq_ok.1 hrun
  cases hrest
  exact h _ _ _ hread

theorem Takes.pure (a : α) : Takes (Pure.pure a) 0 := by
  intro bytes b rest hrun
  cases hrun
  exact Nat.zero_add _

theorem Takes.bind {read : Reader α} {next : α → Reader β} {size size' : Nat}
    (h : Takes read size) (hnext : ∀ a, Takes (next a) size') :
    Takes (read >>= next) (size + size') := by
  intro bytes b rest hrun
  obtain ⟨⟨a, bytes'⟩, hread, hrest⟩ := bind_eq_ok.1 hrun
  have hhead := h _ _ _ hread
  have htail := hnext a _ _ _ hrest
  omega

theorem Takes.many {read : Reader α} {size : Nat} (h : Takes read size) (count : Nat) :
    Takes (Reader.many read count) (size * count) := by
  induction count with
  | zero => exact pure []
  | succ count ih =>
    have hmany := h.bind fun a => ih.bind fun as => pure (a :: as)
    rwa [Nat.add_zero, Nat.add_comm] at hmany

theorem takes_u8 : Takes u8 1 := by
  intro bytes a rest hrun
  cases bytes with
  | nil => cases hrun
  | cons b bytes =>
    cases hrun
    exact Nat.add_comm 1 _

theorem takes_bigEndian (count n : Nat) : Takes (bigEndian count n) count := by
  induction count generalizing n with
  | zero =>
    intro bytes a rest hrun
    cases hrun
    exact Nat.zero_add _
  | succ count ih =>
    intro bytes a rest hrun
    obtain ⟨⟨b, bytes'⟩, hread, hrest⟩ := bind_eq_ok.1 hrun
    have hbyte := takes_u8 _ _ _ hread
    have hbytes := ih _ _ _ _ hrest
    omega

theorem takes_u16 : Takes u16 2 := (takes_bigEndian 2 0).map _

theorem Takes.list16 {read : Reader α} {size : Nat} (h : Takes read size) {bytes : Bytes}
    {as : List α} {rest : Bytes} (hrun : (list16 read).run bytes = .ok (as, rest)) :
    ∃ count bytes', u16.run bytes = .ok (count, bytes') ∧ as.length = count.toNat
      ∧ size * count.toNat + rest.length = bytes'.length := by
  unfold Reader.list16 at hrun
  obtain ⟨⟨count, bytes'⟩, hcount, hrun⟩ := bind_eq_ok.1 hrun
  exact ⟨count, bytes', hcount, ((Ensures.trivial read).many count.toNat _ _ _ hrun).1,
    h.many count.toNat _ _ _ hrun⟩

theorem takes_u32 : Takes u32 4 := (takes_bigEndian 4 0).map _

theorem takes_bytes (count : Nat) : Takes (bytes count) count := by
  intro input a rest hrun
  change bytes count input = _ at hrun
  unfold bytes at hrun
  rw [List.splitAt_eq] at hrun
  dsimp only at hrun
  split at hrun
  next h =>
    cases hrun
    rw [List.length_take] at h
    rw [List.length_drop]
    omega
  next => cases hrun

end Reader

namespace AttributeFormat

variable {α : Type}

theorem of_parse {format : AttributeFormat α} {P : α → Prop} (h : Reader.Ensures format.read P)
    {info : Bytes} {a : α} (hparse : format.parse info = .ok a) : P a := by
  unfold parse at hparse
  split at hparse
  · cases hparse
  · cases hparse
  next a' hrun =>
    cases hparse
    exact h _ _ _ hrun
  · cases hparse

end AttributeFormat

end ClassPatch
