import ClassPatch.Proofs.Pool.Lookup
import ClassPatch.Proofs.Pool.Operation
import ClassPatch.Proofs.Stored.Counted

/-!
Appending to a pool that was read. The reader stops when the next constant would start at the
declared count, so a long or double in the last slot makes it pass the count by one. Whether the
pool wraps depends on that alone: its slots are counted in 16 bits, and a table that ends at slot
65536 is taken to end at 0.
-/

namespace ClassPatch

open Reader

theorem Constant.width_le_two (c : Constant) : width c ≤ 2 := by
  cases c <;> simp [width]

namespace ConstantTable

/-- Some constant takes up the slot. -/
def Covers (t : ConstantTable) (slot : Nat) : Prop :=
  ∃ e ∈ t.entries, e.1 ≤ slot ∧ slot < e.1 + width e.2

/-- The number that is written in front of the constants. -/
def writtenCount (t : ConstantTable) : Option Nat :=
  match u16.run t.write with
  | .ok (count, _) => some count.toNat
  | .error _ => none

variable {t : ConstantTable}

theorem writtenCount_eq (t : ConstantTable) :
    t.writtenCount = some (UInt16.ofNat t.next).toNat := by
  unfold writtenCount write
  rw [reads_u16]

theorem end_le_next_append {cs : List Constant} (h : ∀ e ∈ t.entries, e.1 + width e.2 ≤ t.next) :
    ∀ e ∈ (t.append cs).entries, e.1 + width e.2 ≤ (t.append cs).next := by
  induction cs generalizing t with
  | nil => exact h
  | cons c cs ih =>
    refine ih ?_
    intro e he
    have hnext : (t.push c).next = t.next + width c := rfl
    rw [hnext]
    rcases Array.mem_push.1 he with he | rfl
    · have := h e he
      omega
    · exact Nat.le_refl _

theorem Dense.not_covers_next (h : t.Dense) : ¬ t.Covers t.next := by
  rintro ⟨e, he, -, hlt⟩
  have hend : ∀ e ∈ (empty.append t.elements).entries,
      e.1 + width e.2 ≤ (empty.append t.elements).next :=
    end_le_next_append fun e he => absurd he (Array.not_mem_empty e)
  rw [← h] at hend
  have := hend e he
  omega

theorem Dense.one_le_next (h : t.Dense) : 1 ≤ t.next := by
  have hle := h.ordered.start_le_next
  rwa [h.start_eq] at hle

theorem Dense.get?_next_append_cons (h : t.Dense) (c : Constant) (cs : List Constant) :
    SlotTable.get? (t.append (c :: cs)) t.next = some c := by
  rw [SlotTable.get?_eq_some_iff (h.append (c :: cs)).ordered]
  exact SlotTable.mem_entries_append _ Array.mem_push_self cs

theorem ensures_next_le_readFrom {limit : Nat} (h : t.next ≤ limit + 1) :
    Ensures (readFrom t limit) fun t => t.next ≤ limit + 1 := by
  induction t using readFrom.induct limit with
  | case1 t hlt ih =>
    unfold readFrom
    rw [if_pos hlt]
    refine .skip fun c => ih c ?_
    have hnext : (t.push c).next = t.next + width c := rfl
    have := c.width_le_two
    omega
  | case2 t hge =>
    unfold readFrom
    rw [if_neg hge]
    exact .pure h

theorem ensures_next_le_read : Ensures read fun t => t.next ≤ 0x10000 := by
  refine .skip fun limit => ?_
  have hlimit := limit.toNat_lt
  refine (ensures_next_le_readFrom (Nat.le_add_left 1 _)).mono fun t ht => ?_
  omega

theorem reads_append_singleton {cs : List Constant} {c : Constant} {count : UInt16}
    (hcs : ∀ c ∈ cs, c.Fits) (hc : c.Fits) (hlt : (empty.append cs).next < count.toNat)
    (hle : count.toNat ≤ (empty.append cs).next + width c) :
    Reads read (Writer.u16 count ++ (cs ++ [c]).flatMap Constant.write)
      (empty.append (cs ++ [c])) := by
  have hlast : Reads (readFrom (empty.append cs) count.toNat) (Constant.write c)
      (SlotTable.push (empty.append cs) c) := by
    unfold readFrom
    rw [if_pos hlt, ← List.append_nil (Constant.write c)]
    exact (Constant.reads hc).bind (reads_readFrom_of_le hle)
  rw [List.flatMap_append, List.flatMap_def, List.flatMap_singleton, SlotTable.append_append]
  refine (reads_u16 count).bind ?_
  exact reads_readFrom_append (forall₂_reads hcs) (Nat.le_of_lt hlt) hlast

end ConstantTable

namespace Pool

/-- The pool with its constants alone. -/
def withoutBootstraps (p : Pool) : Pool where
  constants := p.constants
  indices := p.indices
  bootstrapMethods := #[]
  bootstrapIndices := ∅

/--
A request for the constant fails if there is no room for it. Otherwise it is answered with an index
that no constant takes up, where the constant is found from then on.
-/
def AppendsNew (p : Pool) (c : Constant) : Prop :=
  (0xFFFF < p.constants.next + width c
      ∧ p.insert c = (.error (.poolOverflow c (UInt16.ofNat p.constants.next)), p))
    ∨ ∃ i q, p.insert c = (.ok i, q) ∧ 1 ≤ i.toNat ∧ ¬ p.constants.Covers i.toNat
      ∧ ∀ operations, (q.after operations).constants.constant i = .ok c

/-- What is requested for the first time is appended, and the count that is written is exact. -/
structure NeverWraps (p : Pool) : Prop where
  appendsNew : ∀ c ∉ p.constants.elements, p.AppendsNew c
  writtenCount : p.constants.writtenCount = some p.constants.next

variable {allowed : Pool → BootstrapEntry → Prop} {p q : Pool}

theorem Grows.withoutBootstraps (h : p.Grows allowed q) :
    p.withoutBootstraps.Grows allowed q.withoutBootstraps := by
  induction h with
  | refl => exact .refl
  | tail _ hstep ih =>
    cases hstep with
    | constant c absent room => exact ih.tail (.constant _ c absent room)
    | bootstrap e absent he => exact ih

theorem grows_perform (p : Pool) (operation : Operation) :
    p.withoutBootstraps.Grows anyEntry (p.perform operation).2.withoutBootstraps := by
  cases operation with
  | add value => exact (PoolM.OnlyAdds.add value p).withoutBootstraps
  | request request =>
    cases request with
    | constant c => exact (p.grows_insert_any c).withoutBootstraps
    | bootstrap e => exact (p.grows_insertBootstrap_any e).1.withoutBootstraps
    | reserve count => exact .refl
    | fill index e => exact .refl

theorem grows_after (p : Pool) (operations : List Operation) :
    p.withoutBootstraps.Grows anyEntry (p.after operations).withoutBootstraps := by
  induction operations generalizing p with
  | nil => exact .refl
  | cons operation operations ih => exact (p.grows_perform operation).trans (ih _)

theorem dense_after (h : p.constants.Dense) (operations : List Operation) :
    (p.after operations).constants.Dense := by
  obtain ⟨cs, hcs⟩ := (p.extends_after operations).constants
  rw [hcs]
  exact h.append cs

theorem appendsNew (hvalid : p.withoutBootstraps.Valid) (hdense : p.constants.Dense) {c : Constant}
    (hc : c ∉ p.constants.elements) : p.AppendsNew c := by
  have habsent : p.indices[c]? = none :=
    (hvalid.indices_eq c).trans (ConstantTable.indexOf?_eq_none hc)
  have hoffset : (UInt16.ofNat p.constants.next).toNat = p.constants.next :=
    hvalid.toNat_ofNat_next
  rcases Nat.lt_or_ge 0xFFFF (p.constants.next + width c) with hfull | hroom
  · exact .inl ⟨hfull, insert_eq_error_of_none habsent (by rwa [hoffset])⟩
  · refine .inr ⟨_, _, insert_eq_of_none habsent (by rwa [hoffset]), ?_⟩
    rw [hoffset]
    refine ⟨hdense.one_le_next, hdense.not_covers_next, ?_⟩
    intro operations
    obtain ⟨cs, hcs⟩ := (extends_after (p.addConstant c) operations).constants
    rw [ConstantTable.constant_eq_ok, hoffset, hcs]
    exact hdense.get?_next_append_cons c cs

theorem neverWraps (hvalid : p.withoutBootstraps.Valid) (hdense : p.constants.Dense) :
    p.NeverWraps where
  appendsNew := fun _ => appendsNew hvalid hdense
  writtenCount := (ConstantTable.writtenCount_eq _).trans (congrArg some hvalid.toNat_ofNat_next)

section Read

variable {bytes rest : Bytes} {table : ConstantTable}

/--
Whatever is done with a pool that was read, it never wraps, as long as the constants that were read
end where their indices do.
-/
theorem neverWraps_iff (hread : ConstantTable.read.run bytes = .ok (table, rest)) :
    (∀ operations, ((ofTable table).after operations).NeverWraps) ↔ table.next ≤ 0xFFFF := by
  have hdense := ConstantTable.ensures_read _ _ _ hread
  constructor
  · intro h
    have hcount := (h []).writtenCount
    rw [ConstantTable.writtenCount_eq] at hcount
    have hlt := (UInt16.ofNat table.next).toNat_lt
    have heq : (UInt16.ofNat table.next).toNat = table.next := Option.some.inj hcount
    omega
  · intro hnext operations
    have hvalid : (ofTable table).withoutBootstraps.Valid :=
      valid_ofTable hdense.ordered hdense.start_eq hnext
    exact neverWraps ((grows_after _ operations).valid hvalid) (dense_after hdense operations)

theorem neverWraps_text_long :
    ConstantTable.read.run [0, 4, 1, 0, 1, 65, 5, 0, 0, 0, 0, 0, 0, 0, 7]
        = .ok (SlotTable.ofList 1 [.utf8 "A", .long 7], [])
      ∧ ∀ operations,
        ((ofTable (SlotTable.ofList 1 [.utf8 "A", .long 7])).after operations).NeverWraps := by
  have hfits : ConstantTable.Fits (SlotTable.ofList 1 [.utf8 "A", .long 7]) :=
    ⟨ConstantTable.dense_append _, by decide, by decide +kernel⟩
  have hwrite : ConstantTable.write (SlotTable.ofList 1 [.utf8 "A", .long 7])
      = [0, 4, 1, 0, 1, 65, 5, 0, 0, 0, 0, 0, 0, 0, 7] := by decide +kernel
  have hread := (ConstantTable.reads hfits).run_eq
  rw [hwrite] at hread
  exact ⟨hread, (neverWraps_iff hread).2 (by decide)⟩

theorem insert_of_next_gt (hread : ConstantTable.read.run bytes = .ok (table, rest))
    (hnext : 0xFFFF < table.next) {c : Constant} (hc : c ∉ table.elements) :
    ((ofTable table).insert c).1 = .ok 0 := by
  have hle := ConstantTable.ensures_next_le_read _ _ _ hread
  have heq : (ofTable table).constants.next = 0x10000 := by
    change table.next = _
    omega
  have habsent : (ofTable table).indices[c]? = none :=
    (indices_ofTable table c).trans (ConstantTable.indexOf?_eq_none hc)
  have hwidth := c.width_le_two
  have hroom : (UInt16.ofNat (ofTable table).constants.next).toNat + width c ≤ 0xFFFF := by
    rw [heq]
    change 0 + width c ≤ 0xFFFF
    omega
  rw [insert_eq_of_none habsent hroom, heq]
  rfl

/-- Integers in all slots that a count of 65535 leaves to constants before the last. -/
def leadingIntegers : List Constant := List.replicate 0xFFFD (.integer 0)

/-- The last constant is a long, whose second slot the count does not include. -/
def passingTable : ConstantTable := ConstantTable.empty.append (leadingIntegers ++ [Constant.long 0])

def passingBytes : Bytes :=
  Writer.u16 0xFFFF ++ (leadingIntegers ++ [Constant.long 0]).flatMap Constant.write

theorem next_leadingIntegers : (ConstantTable.empty.append leadingIntegers).next = 0xFFFE := by
  unfold leadingIntegers
  rw [SlotTable.next_append, List.map_replicate, List.sum_replicate_nat]
  rfl

theorem read_passingBytes : ConstantTable.read.run passingBytes = .ok (passingTable, []) := by
  have hfits : ∀ c ∈ leadingIntegers, c.Fits := by
    intro c hc
    rw [List.eq_of_mem_replicate hc]
    trivial
  unfold passingBytes passingTable
  refine (ConstantTable.reads_append_singleton (c := .long 0) hfits trivial ?_ ?_).run_eq
  · rw [next_leadingIntegers]
    decide
  · rw [next_leadingIntegers]
    decide

/-- A text that is requested from the pool is answered with 0. -/
theorem insert_passingBytes :
    ConstantTable.read.run passingBytes = .ok (passingTable, [])
      ∧ .utf8 "A" ∉ passingTable.elements
      ∧ ((ofTable passingTable).insert (.utf8 "A")).1 = .ok 0
      ∧ ¬ (ofTable passingTable).AppendsNew (.utf8 "A") := by
  have habsent : .utf8 "A" ∉ passingTable.elements := by
    unfold passingTable
    rw [SlotTable.elements_append]
    intro hmem
    rcases List.mem_append.1 hmem with hnil | hmem
    · cases hnil
    rcases List.mem_append.1 hmem with hinteger | hlong
    · cases List.eq_of_mem_replicate hinteger
    · cases List.mem_singleton.1 hlong
  have hnext : 0xFFFF < passingTable.next := by
    unfold passingTable
    rw [SlotTable.append_append, SlotTable.next_append, next_leadingIntegers]
    decide
  have hinsert := insert_of_next_gt read_passingBytes hnext habsent
  refine ⟨read_passingBytes, habsent, hinsert, ?_⟩
  rintro (⟨-, herror⟩ | ⟨i, q, hok, hpos, -⟩)
  · rw [herror] at hinsert
    cases hinsert
  · rw [hok] at hinsert
    cases hinsert
    exact absurd hpos (by decide)

end Read

end Pool

end ClassPatch
