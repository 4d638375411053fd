import ClassPatch.Proofs.Binary.Reads
import ClassPatch.Proofs.Run

/-!
Readers that look at nothing but the bytes that they take. Such a reader reads the same value
whatever follows these bytes, and where they end early it fails for that reason alone. This is kept
by whatever readers are composed of, so it holds of lists and of what is read after its length.
-/

namespace ClassPatch

namespace Reader

variable {α β : Type}

/-- Wherever the bytes end early, the reader comes to the end of its input. -/
def Needs (read : Reader α) (bytes : Bytes) : Prop :=
  ∀ n < bytes.length, read.run (bytes.take n) = .error .endOfInput

/-- The reader takes a front of its input, whatever follows it, and needs all of that front. -/
def Local (read : Reader α) : Prop :=
  ∀ input a rest, read.run input = .ok (a, rest) →
    ∃ taken, input = taken ++ rest ∧ Reads read taken a ∧ Needs read taken

namespace Needs

theorem nil (read : Reader α) : Needs read [] := fun _ h => absurd h (Nat.not_lt_zero _)

theorem bind {read : Reader α} {next : α → Reader β} {front back : Bytes} {a : α}
    (hreads : Reads read front a) (hfront : Needs read front) (hback : Needs (next a) back) :
    Needs (read >>= next) (front ++ back) := by
  intro n hn
  rw [List.length_append] at hn
  rw [List.take_append]
  rcases Nat.lt_or_ge n front.length with hlt | hge
  · have hnone : n - front.length = 0 := Nat.sub_eq_zero_of_le (Nat.le_of_lt hlt)
    rw [hnone, List.take_zero, List.append_nil]
    exact bind_eq_error.2 (.inl (hfront n hlt))
  · rw [List.take_of_length_le hge]
    exact bind_eq_error.2 (.inr ⟨_, hreads _, hback _ (by omega)⟩)

end Needs

namespace Local

theorem pure (a : α) : Local (Pure.pure a : Reader α) := by
  intro input a' rest hrun
  cases hrun
  exact ⟨[], rfl, .pure a, .nil _⟩

theorem throw (e : ClassError) : Local (MonadExcept.throw e : Reader α) := by
  intro input a rest hrun
  cases hrun

theorem bind {read : Reader α} {next : α → Reader β} (h : Local read)
    (hnext : ∀ a, Local (next a)) : Local (read >>= next) := by
  intro input b rest hrun
  obtain ⟨⟨a, middle⟩, hread, hrest⟩ := bind_eq_ok.1 hrun
  obtain ⟨front, rfl, hfront, hneeds⟩ := h _ _ _ hread
  obtain ⟨back, rfl, hback, hneeds'⟩ := hnext a _ _ _ hrest
  exact ⟨front ++ back, (List.append_assoc _ _ _).symm, hfront.bind hback, hneeds.bind hfront hneeds'⟩

theorem bind_pure {read : Reader α} (h : Local read) (f : α → β) :
    Local (do return f (← read)) :=
  h.bind fun a => pure (f a)

theorem map {read : Reader α} (h : Local read) (f : α → β) : Local (f <$> read) := by
  rw [map_eq_pure_bind]
  exact h.bind_pure f

theorem many {read : Reader α} (h : Local read) (count : Nat) : Local (Reader.many read count) := by
  induction count with
  | zero => exact pure []
  | succ count ih => exact h.bind fun a => ih.bind_pure (a :: ·)

end Local

theorem local_u8 : Local u8 := by
  intro input b rest hrun
  cases input with
  | nil => cases hrun
  | cons b' input =>
    cases hrun
    refine ⟨[b], rfl, reads_u8 b, ?_⟩
    intro n hn
    obtain rfl := Nat.lt_one_iff.1 hn
    rfl

theorem local_bigEndian (count n : Nat) : Local (bigEndian count n) := by
  induction count generalizing n with
  | zero => exact .pure n
  | succ count ih => exact local_u8.bind fun b => ih _

theorem local_u16 : Local u16 := (local_bigEndian 2 0).map _

theorem local_u32 : Local u32 := (local_bigEndian 4 0).map _

theorem local_u64 : Local u64 := (local_bigEndian 8 0).map _

theorem local_i32 : Local i32 := local_u32.map _

theorem local_i64 : Local i64 := local_u64.map _

theorem local_bytes (count : Nat) : Local (bytes count) := by
  intro input front rest hrun
  change bytes count input = _ at hrun
  unfold bytes at hrun
  rw [List.splitAt_eq] at hrun
  dsimp only at hrun
  split at hrun
  next hlength =>
    cases hrun
    refine ⟨input.take count, (List.take_append_drop _ _).symm, ?_, ?_⟩
    · have hreads := reads_bytes (input.take count)
      rwa [hlength] at hreads
    · intro n hn
      change bytes count _ = _
      unfold bytes
      rw [List.splitAt_eq]
      refine if_neg ?_
      rw [List.length_take, List.length_take]
      omega
  next => cases hrun

theorem local_bytes32 : Local bytes32 := local_u32.bind fun _ => local_bytes _

theorem local_list16 {read : Reader α} (h : Local read) : Local (list16 read) :=
  local_u16.bind fun _ => h.many _

theorem local_optionalIndex : Local optionalIndex := local_u16.bind_pure _

end Reader

end ClassPatch
