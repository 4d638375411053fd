import ClassPatch.Proofs.Bytecode.Canonical

/-!
The instructions of a code array divide its bytes among them: each takes those from its offset up to
the next one's. Its written form fits there, and is read at the same offset as the same instruction.
-/

namespace ClassPatch

theorem Branch.rel_map {L N F : Type} {R : L → N → Prop} {S : L → F → Prop} {near : L → N}
    {far : L → F} {b : Branch L L} (hnear : ∀ t ∈ b.shortTarget?, R t (near t))
    (hfar : ∀ t ∈ b.targets, S t (far t)) : Rel R S b (b.map near far) := by
  cases b with
  | ifZero c t => exact .ifZero c (hnear t rfl)
  | ifInts c t => exact .ifInts c (hnear t rfl)
  | ifRefs c t => exact .ifRefs c (hnear t rfl)
  | ifNull c t => exact .ifNull c (hnear t rfl)
  | goto t => exact .goto (hnear t rfl)
  | jsr t => exact .jsr (hnear t rfl)
  | gotoWide t => exact .gotoWide (hfar t (List.mem_singleton_self t))
  | jsrWide t => exact .jsrWide (hfar t (List.mem_singleton_self t))
  | ret slot => exact .ret slot
  | tableSwitch padding fallback low ts =>
    apply Rel.tableSwitch padding low (hfar fallback List.mem_cons_self)
    simp only [List.forall₂_map_right_iff, List.forall₂_same]
    intro t ht
    exact hfar t (List.mem_cons_of_mem _ ht)
  | lookupSwitch padding fallback pairs =>
    apply Rel.lookupSwitch padding (hfar fallback List.mem_cons_self)
    simp only [List.forall₂_map_right_iff, List.forall₂_same, true_and]
    intro x hx
    apply hfar
    exact List.mem_cons_of_mem _ (List.mem_map_of_mem hx)
  | valueReturn kind => exact .valueReturn kind
  | voidReturn => exact .voidReturn
  | athrow => exact .athrow

namespace CodePosition

variable {p : CodePosition} {t : Nat}

theorem Reaches.target_far (h : p.Reaches t) :
    p.target (Int32.ofInt (t - p.offset)).toInt = .ok t := by
  obtain ⟨distance, h⟩ := h
  rwa [(of_target h).2, Int32.ofInt_toInt]

theorem Reaches.target_near (h : p.Reaches t) (hfits : fitsShort (t - p.offset) = true) :
    p.target (Int16.ofInt (t - p.offset)).toInt = .ok t := by
  obtain ⟨distance, h⟩ := h
  simp only [fitsShort, Bool.and_eq_true, decide_eq_true_eq] at hfits
  rwa [Int16.toInt_ofInt_of_le (by omega) (by omega), (of_target h).2]

end CodePosition

namespace Decoded

theorem readsAs_encode {p : CodePosition} {size : Nat} {d : Decoded} (hspans : d.Spans p size)
    (hreaches : d.Reaches p) : ReadsAs p (d.encode p.offset) d := by
  cases d with
  | instruction i => exact i.reads_encode
  | branch b =>
    obtain ⟨-, haligned, hshort⟩ := hspans
    obtain ⟨htargets, hcases⟩ := hreaches
    have hrel : StoredBranch.TargetsAt p b (b.map (fun t : Nat => Int16.ofInt (t - p.offset))
        fun t : Nat => Int32.ofInt (t - p.offset)) := by
      apply Branch.rel_map
      · intro t ht
        exact (htargets t (Branch.mem_targets_of_shortTarget? ht)).target_near (hshort t ht)
      · intro t ht
        exact (htargets t ht).target_far
    exact StoredBranch.reads_encode hrel (hrel.aligned haligned) (hrel.casesFit hcases)

def targets : Decoded → List Nat
  | .instruction _ => []
  | .branch b => b.targets

theorem Reaches.target_lt {p : CodePosition} {d : Decoded} (h : d.Reaches p) :
    ∀ t ∈ d.targets, t < p.codeLength := by
  intro t ht
  cases d with
  | instruction i => cases ht
  | branch b => exact (h.1 t ht).lt

end Decoded

/-- The instruction that starts at an offset of the array, how many bytes it takes, and the bytes
behind it. -/
def instructionAt (code : Bytes) (offset : Nat) : Except ClassError ((Decoded × Nat) × Bytes) :=
  (Decoded.read ⟨offset, code.length⟩).run 0 (code.drop offset)

/-- The array with the given bytes in place of those from the offset on. -/
def overwrite (code : Bytes) (offset : Nat) (bytes : Bytes) : Bytes :=
  code.take offset ++ (bytes ++ code.drop (offset + bytes.length))

section Overwrite

variable {code bytes : Bytes} {offset : Nat}

theorem length_overwrite (h : offset + bytes.length ≤ code.length) :
    (overwrite code offset bytes).length = code.length := by
  simp only [overwrite, List.length_append, List.length_take, List.length_drop]
  omega

theorem drop_overwrite (h : offset ≤ code.length) :
    (overwrite code offset bytes).drop offset = bytes ++ code.drop (offset + bytes.length) := by
  apply List.drop_left'
  rw [List.length_take]
  omega

end Overwrite

/-- The instruction takes the bytes of the array from the start up to the stop, and its written form
can stand at their front. -/
structure TakesSpan (code : Bytes) (start stop : Nat) (d : Decoded) : Prop where
  start_lt : start < stop
  stop_le : stop ≤ code.length
  read_span : instructionAt code start = .ok ((d, stop - start), code.drop stop)
  width_le : start + d.width ≤ stop
  target_lt : ∀ t ∈ d.targets, t < code.length
  length_written : (overwrite code start (d.encode start)).length = code.length
  read_written : instructionAt (overwrite code start (d.encode start)) start
    = .ok ((d, d.width), code.drop (start + d.width))

theorem TakesSpan.of_read {code rest : Bytes} {start size : Nat} {d : Decoded}
    (hstart : start ≤ code.length) (h : instructionAt code start = .ok ((d, size), rest)) :
    TakesSpan code start (start + size) d := by
  obtain ⟨hpos, ⟨taken, htaken, rfl⟩, hreaches⟩ := Decoded.of_read h
  have hspans := Decoded.spans_of_read h
  have hwidth := hspans.width_le
  have hlength := congrArg List.length htaken
  simp only [List.length_drop, List.length_append] at hlength
  have hrest : code.drop (start + taken.length) = rest := by
    rw [← List.drop_drop, htaken, List.drop_left]
  have hwritten : (overwrite code start (d.encode start)).length = code.length := by
    apply length_overwrite
    rw [Decoded.length_encode]
    omega
  refine ⟨by omega, by omega, ?_, by omega, hreaches.target_lt, hwritten, ?_⟩
  · rw [h, hrest, Nat.add_sub_cancel_left]
  · -- the array is as long as before, so the instruction is read at the same position
    have hread := (Decoded.readsAs_encode hspans hreaches).read 0 (code.drop (start + d.width))
    unfold instructionAt
    rw [hwritten, drop_overwrite hstart]
    simp only [Decoded.length_encode, Nat.zero_add] at hread ⊢
    exact hread

/-- Instructions that take the bytes of the array from an offset on to its end, one behind the
other. -/
inductive Partition (code : Bytes) : Nat → List (Nat × Decoded) → Prop where
  | nil : Partition code code.length []
  | cons {start stop : Nat} {d : Decoded} {decoded : List (Nat × Decoded)}
    (hspan : TakesSpan code start stop d) (hrest : Partition code stop decoded) :
    Partition code start ((start, d) :: decoded)

namespace Partition

variable {code : Bytes} {offset : Nat} {decoded : List (Nat × Decoded)}

theorem of_decodeFrom {bound : Nat}
    (h : decodeFrom code.length bound offset (code.drop offset) = .ok decoded)
    (hoffset : offset ≤ code.length) (hbound : code.length ≤ offset + bound) :
    Partition code offset decoded := by
  induction bound generalizing offset decoded with
  | zero =>
    cases h
    obtain rfl : offset = code.length := by omega
    exact .nil
  | succ bound ih =>
    cases hinput : code.drop offset with
    | nil =>
      rw [hinput] at h
      cases h
      rw [List.drop_eq_nil_iff] at hinput
      obtain rfl : offset = code.length := by omega
      exact .nil
    | cons byte input =>
      rw [hinput] at h
      obtain ⟨⟨⟨d, size⟩, rest⟩, hread, h⟩ := bind_eq_ok.1 h
      obtain ⟨tail, htail, h⟩ := bind_eq_ok.1 h
      obtain rfl := pure_eq_ok.1 h
      rw [← hinput] at hread
      have hspan := TakesSpan.of_read hoffset hread
      have hlt := hspan.start_lt
      have hrest := hread.symm.trans hspan.read_span
      simp only [Except.ok.injEq, Prod.mk.injEq] at hrest
      rw [hrest.2] at htail
      exact .cons hspan (ih htail hspan.stop_le (by omega))

theorem getElem?_zero (h : Partition code offset decoded) :
    (boundaryOffsets decoded code.length)[0]? = some offset := by
  cases h <;> rfl

theorem exists_takesSpan (h : Partition code offset decoded) {i start : Nat} {d : Decoded}
    (hd : decoded[i]? = some (start, d)) :
    ∃ stop, (boundaryOffsets decoded code.length)[i + 1]? = some stop
      ∧ TakesSpan code start stop d := by
  induction h generalizing i with
  | nil => cases hd
  | cons hspan hrest ih =>
    cases i with
    | zero =>
      cases hd
      exact ⟨_, hrest.getElem?_zero, hspan⟩
    | succ i => exact ih hd

end Partition

/-- Where the code is decoded, its first instruction stands at the start of the array, and each one
takes the bytes up to the next one, or up to the end of the array. -/
theorem spans_of_decodeCode {code : Bytes} {decoded : List (Nat × Decoded)}
    (h : decodeCode code = .ok decoded) :
    (boundaryOffsets decoded code.length)[0]? = some 0
      ∧ ∀ i start d, decoded[i]? = some (start, d) →
        ∃ stop, (boundaryOffsets decoded code.length)[i + 1]? = some stop
          ∧ TakesSpan code start stop d := by
  have hpartition : Partition code 0 decoded := by
    apply Partition.of_decodeFrom h (Nat.zero_le _)
    omega
  constructor
  · exact hpartition.getElem?_zero
  · intro i start d hd
    exact hpartition.exists_takesSpan hd

/-- A wide load of a low slot, a switch whose padding is not zero, and a return. -/
def paddedCode : Bytes :=
  [0xC4, 0x15, 0, 1, 0xAA, 1, 2, 3, 0, 0, 0, 20, 0, 0, 0, 7, 0, 0, 0, 7, 0, 0, 0, 20, 0xB1]

def paddedDecoded : List (Nat × Decoded) :=
  [(0, .instruction (.load .int 1)), (4, .branch (.tableSwitch 3 24 7 [24])),
    (24, .branch .voidReturn)]

theorem decodeCode_paddedCode : decodeCode paddedCode = .ok paddedDecoded :=
  eq_ok_of_toOption (by decide +kernel)

theorem spans_paddedCode : decodeCode paddedCode = .ok paddedDecoded
    ∧ (∃ stop, (boundaryOffsets paddedDecoded 25)[1]? = some stop
      ∧ TakesSpan paddedCode 0 stop (.instruction (.load .int 1)))
    ∧ ∃ stop, (boundaryOffsets paddedDecoded 25)[2]? = some stop
      ∧ TakesSpan paddedCode 4 stop (.branch (.tableSwitch 3 24 7 [24])) := by
  have hspans := (spans_of_decodeCode decodeCode_paddedCode).2
  exact ⟨decodeCode_paddedCode, hspans 0 0 _ rfl, hspans 1 4 _ rfl⟩

end ClassPatch
