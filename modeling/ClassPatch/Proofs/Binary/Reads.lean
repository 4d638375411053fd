import ClassPatch.Binary.Reader
import ClassPatch.Binary.Writer
import Mathlib.Tactic.Ring

/-!
Readers on written values. A reader reads bytes as a value if it takes just these bytes, whatever
follows them; what it reads a composition of writers as is composed in the same way.
-/

namespace ClassPatch

namespace Reader

variable {α β : Type}

/-- The reader takes the bytes as the value, whatever follows them. -/
def Reads (read : Reader α) (bytes : Bytes) (a : α) : Prop :=
  ∀ rest, read.run (bytes ++ rest) = .ok (a, rest)

namespace Reads

theorem pure (a : α) : Reads (Pure.pure a) [] a := by
  intro rest
  rfl

theorem bind {read : Reader α} {next : α → Reader β} {front back : Bytes} {a : α} {b : β}
    (h : Reads read front a) (hnext : Reads (next a) back b) :
    Reads (read >>= next) (front ++ back) b := by
  intro rest
  rw [List.append_assoc]
  change (read.run (front ++ (back ++ rest))).bind (fun p => (next p.1).run p.2) = _
  rw [h]
  exact hnext rest

theorem map {read : Reader α} {bytes : Bytes} {a : α} (f : α → β) (h : Reads read bytes a) :
    Reads (f <$> read) bytes (f a) := by
  intro rest
  change (read.run (bytes ++ rest)).bind _ = _
  rw [h]
  rfl

theorem bind_pure {read : Reader α} {bytes : Bytes} {a : α} (f : α → β) (h : Reads read bytes a) :
    Reads (do return f (← read)) bytes (f a) := by
  have hread : Reads (read >>= fun a => Pure.pure (f a)) (bytes ++ []) (f a) := h.bind (pure (f a))
  rwa [List.append_nil] at hread

theorem run_eq {read : Reader α} {bytes : Bytes} {a : α} (h : Reads read bytes a) :
    read.run bytes = .ok (a, []) := by
  have := h []
  rwa [List.append_nil] at this

end Reads

theorem reads_u8 (x : UInt8) : Reads u8 (Writer.u8 x) x := by
  intro rest
  rfl

theorem reads_bigEndian (count m n : Nat) :
    Reads (bigEndian count n) (Writer.bigEndian count m) (n * 256 ^ count + m % 256 ^ count) := by
  induction count generalizing n with
  | zero =>
    have h : n * 256 ^ 0 + m % 256 ^ 0 = n := by omega
    rw [h]
    exact .pure n
  | succ count ih =>
    have h : n * 256 ^ (count + 1) + m % 256 ^ (count + 1)
        = (n * 256 + (UInt8.ofNat (m / 256 ^ count)).toNat) * 256 ^ count + m % 256 ^ count := by
      have hmod : m % 256 ^ (count + 1)
          = m % 256 ^ count + 256 ^ count * (m / 256 ^ count % 256) := by
        rw [Nat.pow_succ, Nat.mod_mul]
      rw [hmod, UInt8.toNat_ofNat', Nat.pow_succ]
      ring
    rw [h]
    exact (reads_u8 (UInt8.ofNat (m / 256 ^ count))).bind (ih _)

theorem reads_u16 (x : UInt16) : Reads u16 (Writer.u16 x) x := by
  have h := (reads_bigEndian 2 x.toNat 0).map UInt16.ofNat
  have hx := x.toNat_lt
  rwa [Nat.zero_mul, Nat.zero_add, Nat.mod_eq_of_lt (by omega), UInt16.ofNat_toNat] at h

theorem reads_u32 (x : UInt32) : Reads u32 (Writer.u32 x) x := by
  have h := (reads_bigEndian 4 x.toNat 0).map UInt32.ofNat
  have hx := x.toNat_lt
  rwa [Nat.zero_mul, Nat.zero_add, Nat.mod_eq_of_lt (by omega), UInt32.ofNat_toNat] at h

theorem reads_u64 (x : UInt64) : Reads u64 (Writer.u64 x) x := by
  have h := (reads_bigEndian 8 x.toNat 0).map UInt64.ofNat
  have hx := x.toNat_lt
  rwa [Nat.zero_mul, Nat.zero_add, Nat.mod_eq_of_lt (by omega), UInt64.ofNat_toNat] at h

theorem reads_i8 (x : Int8) : Reads i8 (Writer.i8 x) x := by
  have h := (reads_u8 x.toUInt8).map UInt8.toInt8
  rwa [Int8.toInt8_toUInt8] at h

theorem reads_i16 (x : Int16) : Reads i16 (Writer.i16 x) x := by
  have h := (reads_u16 x.toUInt16).map UInt16.toInt16
  rwa [Int16.toInt16_toUInt16] at h

theorem reads_i32 (x : Int32) : Reads i32 (Writer.i32 x) x := by
  have h := (reads_u32 x.toUInt32).map UInt32.toInt32
  rwa [Int32.toInt32_toUInt32] at h

theorem reads_i64 (x : Int64) : Reads i64 (Writer.i64 x) x := by
  have h := (reads_u64 x.toUInt64).map UInt64.toInt64
  rwa [Int64.toInt64_toUInt64] at h

theorem reads_bytes (bs : Bytes) : Reads (bytes bs.length) bs bs := by
  intro rest
  simp [bytes, StateT.run]

theorem reads_bytes32 {bs : Bytes} (h : bs.length < 2 ^ 32) :
    Reads bytes32 (Writer.bytes32 bs) bs := by
  unfold bytes32 Writer.bytes32
  refine (reads_u32 _).bind ?_
  rw [UInt32.toNat_ofNat', Nat.mod_eq_of_lt h]
  exact reads_bytes bs

theorem reads_many {read : Reader α} {write : α → Bytes} {as : List α}
    (h : ∀ a ∈ as, Reads read (write a) a) : Reads (many read as.length) (as.flatMap write) as := by
  induction as with
  | nil => exact .pure []
  | cons a as ih =>
    rw [List.flatMap_cons]
    refine (h a List.mem_cons_self).bind ?_
    exact (ih fun b hb => h b (List.mem_cons_of_mem _ hb)).bind_pure _

theorem reads_list16 {read : Reader α} {write : α → Bytes} {as : List α}
    (h : ∀ a ∈ as, Reads read (write a) a) (hlength : as.length ≤ 0xFFFF) :
    Reads (list16 read) (Writer.list16 write as) as := by
  unfold list16 Writer.list16
  refine (reads_u16 _).bind ?_
  rw [UInt16.toNat_ofNat', Nat.mod_eq_of_lt (by omega)]
  exact reads_many h

theorem reads_list8 {read : Reader α} {write : α → Bytes} {as : List α}
    (h : ∀ a ∈ as, Reads read (write a) a) (hlength : as.length ≤ 0xFF) :
    Reads (list8 read) (Writer.list8 write as) as := by
  unfold list8 Writer.list8
  refine (reads_u8 _).bind ?_
  rw [UInt8.toNat_ofNat', Nat.mod_eq_of_lt (by omega)]
  exact reads_many h

theorem reads_optionalIndex {index : Option ConstantIndex} (h : index ≠ some 0) :
    Reads optionalIndex (Writer.optionalIndex index) index := by
  have hindex := (reads_u16 (index.getD 0)).bind_pure fun i => if i = 0 then none else some i
  cases index with
  | none => exact hindex
  | some i =>
    have hi : i ≠ 0 := fun hi => h (congrArg some hi)
    rwa [Option.getD_some, if_neg hi] at hindex

end Reader

end ClassPatch
