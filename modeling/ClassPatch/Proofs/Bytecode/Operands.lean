import ClassPatch.Bytecode.Decode
import ClassPatch.Bytecode.Encode
import ClassPatch.Proofs.Binary.Reads
import Mathlib.Data.List.Forall2

/-!
Readers that count, on written values. What they count is the length of what was written.
-/

namespace ClassPatch

open Reader

namespace CodeReader

variable {α β : Type}

/-- The reader takes the bytes as the value and counts them, whatever follows. -/
def CodeReads (read : CodeReader α) (bytes : Bytes) (a : α) : Prop :=
  ∀ count, Reads (read.run count) bytes (a, count + bytes.length)

namespace CodeReads

theorem pure (a : α) : CodeReads (Pure.pure a) [] a := fun count => .pure (a, count)

theorem bind {read : CodeReader α} {next : α → CodeReader β} {front back : Bytes} {a : α} {b : β}
    (h : CodeReads read front a) (hnext : CodeReads (next a) back b) :
    CodeReads (read >>= next) (front ++ back) b := by
  intro count
  have hback := hnext (count + front.length)
  rw [Nat.add_assoc, ← List.length_append] at hback
  change Reads (read.run count >>= fun x => (next x.1).run x.2) _ _
  exact (h count).bind hback

theorem bind_pure {read : CodeReader α} {bytes : Bytes} {a : α} (f : α → β)
    (h : CodeReads read bytes a) : CodeReads (do return f (← read)) bytes (f a) := by
  have hread : CodeReads (read >>= fun a => Pure.pure (f a)) (bytes ++ []) (f a) :=
    h.bind (pure (f a))
  rwa [List.append_nil] at hread

theorem counted {size : Nat} {read : Reader α} {bytes : Bytes} {a : α}
    (hsize : bytes.length = size) (h : Reads read bytes a) :
    CodeReads (counted size read) bytes a := by
  intro count rest
  rw [hsize]
  change ((read.run (bytes ++ rest)).bind fun x => .ok ((x.1, count + size), x.2)) = _
  rw [h rest]
  rfl

theorem many {γ : Type} {read : CodeReader α} {write : γ → Bytes} {as : List α} {cs : List γ}
    (h : List.Forall₂ (fun a c => CodeReads read (write c) a) as cs) :
    CodeReads (Reader.many read as.length) (cs.flatMap write) as := by
  induction h with
  | nil => exact .pure []
  | cons hhead htail ih =>
    rw [List.flatMap_cons]
    exact hhead.bind (ih.bind_pure _)

end CodeReads

theorem reads_u8 (x : UInt8) : CodeReads u8 (Writer.u8 x) x := .counted rfl (Reader.reads_u8 x)

theorem reads_u16 (x : UInt16) : CodeReads u16 (Writer.u16 x) x :=
  .counted rfl (Reader.reads_u16 x)

theorem reads_i8 (x : Int8) : CodeReads i8 (Writer.i8 x) x := .counted rfl (Reader.reads_i8 x)

theorem reads_i16 (x : Int16) : CodeReads i16 (Writer.i16 x) x :=
  .counted rfl (Reader.reads_i16 x)

theorem reads_i32 (x : Int32) : CodeReads i32 (Writer.i32 x) x :=
  .counted rfl (Reader.reads_i32 x)

theorem reads_skip (bytes : Bytes) : CodeReads (skip bytes.length) bytes () := by
  have h := (CodeReads.counted rfl (Reader.reads_bytes bytes)).bind_pure fun _ => ()
  exact h

end CodeReader

end ClassPatch
