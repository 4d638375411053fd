import ClassPatch.Proofs.Bytecode.Assemble

/-!
The bytes that an instruction takes in the code array that it is decoded from. Its shortest form is
never longer, and where all instructions have that form the array is said to be tight. The code array
that is made of the written forms of its own instructions is tight.
-/

namespace ClassPatch

namespace CodeReader

variable {α β : Type}

/-- Values that are read, each with the number of bytes that are counted for it. -/
def Measures (read : CodeReader α) (P : α → Nat → Prop) : Prop :=
  ∀ count bytes a count' rest, read.run count bytes = .ok ((a, count'), rest) →
    ∃ size, count' = count + size ∧ P a size

namespace Measures

variable {P : α → Nat → Prop} {Q : β → Nat → Prop}

theorem pure {a : α} (h : P a 0) : Measures (Pure.pure a) P := by
  intro count bytes a' count' rest hrun
  cases hrun
  exact ⟨0, rfl, h⟩

theorem throw {e : ClassError} : Measures (MonadExcept.throw e) P := by
  intro count bytes a count' rest hrun
  cases hrun

theorem bind {read : CodeReader α} {next : α → CodeReader β} (h : Measures read P)
    (hnext : ∀ a size, P a size → Measures (next a) fun b size' => Q b (size + size')) :
    Measures (read >>= next) Q := by
  intro count bytes b count' rest hrun
  obtain ⟨⟨⟨a, count₁⟩, bytes₁⟩, hread, hrest⟩ := bind_eq_ok.1 hrun
  obtain ⟨size, rfl, ha⟩ := h _ _ _ _ _ hread
  obtain ⟨size', rfl, hb⟩ := hnext a size ha _ _ _ _ _ hrest
  exact ⟨size + size', Nat.add_assoc _ _ _, hb⟩

theorem map {read : CodeReader α} {f : α → β} (h : Measures read P)
    (hf : ∀ a size, P a size → Q (f a) size) : Measures (do return f (← read)) Q :=
  h.bind fun a size ha => pure (hf a size ha)

theorem mono {read : CodeReader α} {P' : α → Nat → Prop} (h : Measures read P)
    (hP : ∀ a size, P a size → P' a size) : Measures read P' := by
  intro count bytes a count' rest hrun
  obtain ⟨size, hcount, ha⟩ := h count bytes a count' rest hrun
  exact ⟨size, hcount, hP a size ha⟩

theorem counted (size : Nat) (read : Reader α) :
    Measures (counted size read) fun _ size' => size' = size := by
  intro count bytes a count' rest hrun
  obtain ⟨⟨a', rest'⟩, -, hrest⟩ := bind_eq_ok.1 hrun
  cases hrest
  exact ⟨size, rfl, rfl⟩

theorem many {read : CodeReader α} {size : Nat} (h : Measures read fun _ size' => size' = size)
    (count : Nat) :
    Measures (Reader.many read count) fun as size' => size' = size * as.length := by
  induction count with
  | zero => exact pure rfl
  | succ count ih =>
    refine h.bind fun a _ ha => ih.map fun as size' has => ?_
    rw [ha, has, List.length_cons, Nat.mul_succ, Nat.add_comm]

end Measures

theorem measures_skip (size : Nat) : Measures (skip size) fun _ size' => size' = size :=
  (Measures.counted _ _).map fun _ _ h => h

variable {p : CodePosition}

theorem measures_target (distance : Int) :
    Measures (liftM (p.target distance)) fun t size => size = 0 ∧ (t : Int) - p.offset = distance := by
  intro count bytes t count' rest hrun
  cases h : p.target distance with
  | error e =>
    rw [h] at hrun
    cases hrun
  | ok t' =>
    rw [h] at hrun
    cases hrun
    exact ⟨0, rfl, rfl, (CodePosition.of_target h).2⟩

theorem fitsShort_toInt (x : Int16) : fitsShort x.toInt = true := by
  have hle := x.le_toInt
  have hlt := x.toInt_lt
  simp only [fitsShort, Bool.and_eq_true, decide_eq_true_eq]
  omega

theorem measures_nearTarget :
    Measures (nearTarget p) fun t size => size = 2 ∧ fitsShort (t - p.offset) = true := by
  refine (Measures.counted 2 _).bind fun distance _ hsize => ?_
  refine (measures_target distance.toInt).mono ?_
  rintro t _ ⟨rfl, ht⟩
  exact ⟨hsize, ht ▸ fitsShort_toInt distance⟩

theorem measures_farTarget : Measures (farTarget p) fun _ size => size = 4 := by
  refine (Measures.counted 4 _).bind fun distance _ hsize => ?_
  refine (measures_target distance.toInt).mono ?_
  rintro t _ ⟨rfl, -⟩
  exact hsize

end CodeReader

namespace Decoded

open CodeReader

variable {p : CodePosition}

/-- What holds of an instruction that takes the given number of bytes: its shortest form is no
longer, the operands of a switch are aligned, and a short jump goes as far as two bytes can say. -/
def Spans (p : CodePosition) (size : Nat) : Decoded → Prop
  | .instruction i => i.width ≤ size
  | .branch b => b.width ≤ size ∧ b.Aligned p.offset
    ∧ ∀ t ∈ b.shortTarget?, fitsShort (t - p.offset) = true

theorem Spans.width_le {size : Nat} {d : Decoded} (h : d.Spans p size) : d.width ≤ size := by
  cases d with
  | instruction i => exact h
  | branch b => exact h.1

/-- The instruction takes a byte more than what follows its opcode. -/
abbrev Follows (p : CodePosition) (d : Decoded) (size : Nat) : Prop := d.Spans p (size + 1)

theorem spans_of_shortTarget?_eq_none {size : Nat} {b : Branch Nat Nat} (hwidth : b.width ≤ size)
    (haligned : b.Aligned p.offset) (h : b.shortTarget? = none) :
    Spans p size (.branch b) := by
  refine ⟨hwidth, haligned, ?_⟩
  rw [h]
  exact fun t ht => absurd ht (Option.not_mem_none t)

theorem toUInt16_le (x : UInt8) : x.toUInt16 ≤ 0xFF := by
  rw [UInt16.le_iff_toNat_le, UInt8.toNat_toUInt16]
  exact Nat.le_of_lt_succ x.toNat_lt

theorem slotAccessWidth_le_two (slot : UInt8) :
    StoredInstruction.slotAccessWidth slot.toUInt16 ≤ 2 := by
  unfold StoredInstruction.slotAccessWidth
  rw [if_pos (toUInt16_le slot)]
  split <;> omega

theorem slotAccessWidth_le_four (slot : UInt16) : StoredInstruction.slotAccessWidth slot ≤ 4 := by
  unfold StoredInstruction.slotAccessWidth
  split
  · omega
  · split <;> omega

theorem measures_readTableSwitch : Measures (readTableSwitch p) (Follows p) := by
  unfold readTableSwitch
  refine (measures_skip _).bind fun _ _ hpadding => measures_farTarget.bind fun fallback _ h₁ => ?_
  refine (Measures.counted 4 _).bind fun low _ h₂ => (Measures.counted 4 _).bind fun high _ h₃ => ?_
  dsimp only
  split
  · exact Measures.bind (P := fun _ _ => False) .throw fun _ _ h => h.elim
  · refine (measures_farTarget.many _).map ?_
    intro targets size htargets
    refine spans_of_shortTarget?_eq_none ?_ rfl rfl
    simp only [Branch.width, StoredBranch.toNat_padding]
    omega

theorem measures_readLookupSwitch : Measures (readLookupSwitch p) (Follows p) := by
  unfold readLookupSwitch
  refine (measures_skip _).bind fun _ _ hpadding => measures_farTarget.bind fun fallback _ h₁ => ?_
  refine (Measures.counted 4 _).bind fun count _ h₂ => ?_
  dsimp only
  split
  · exact Measures.bind (P := fun _ _ => False) .throw fun _ _ h => h.elim
  · have hpair : Measures (do return (← i32, ← farTarget p) : CodeReader (Int32 × Nat))
        fun _ size => size = 8 := by
      refine (Measures.counted 4 _).bind fun key _ h₃ => measures_farTarget.map fun t _ h₄ => ?_
      omega
    refine (hpair.many _).map ?_
    intro pairs size hpairs
    refine spans_of_shortTarget?_eq_none ?_ rfl rfl
    simp only [Branch.width, StoredBranch.toNat_padding]
    omega

theorem measures_u8 : Measures u8 fun _ size => size = 1 := .counted _ _

theorem measures_u16 : Measures u16 fun _ size => size = 2 := .counted _ _

theorem measures_readWide : Measures (readWide p) (Follows p) := by
  unfold readWide
  refine measures_u8.bind fun code _ hcode => ?_
  split
  · refine measures_u16.bind fun slot _ hslot => (Measures.counted 2 _).map fun amount _ h => ?_
    change StoredInstruction.width (.iinc slot amount) ≤ _
    simp only [StoredInstruction.width]
    split <;> omega
  · split
    · refine measures_u16.map fun slot _ h =>
        spans_of_shortTarget?_eq_none ?_ rfl rfl
      simp only [Branch.width]
      split <;> omega
    · have haccess (slot : UInt16) (size : Nat) (h : size = 2) :
          StoredInstruction.slotAccessWidth slot ≤ 1 + size + 1 := by
        have := slotAccessWidth_le_four slot
        omega
      subst hcode
      split
      · exact measures_u16.map haccess
      · split
        · exact measures_u16.map haccess
        · exact .throw

theorem measures_shortJump {b : Nat → Branch Nat Nat} (hwidth : ∀ t, (b t).width = 3)
    (haligned : ∀ t, (b t).Aligned p.offset) (htarget : ∀ t, (b t).shortTarget? = some t) :
    Measures (do return .branch (b (← nearTarget p))) (Follows p) := by
  refine measures_nearTarget.map ?_
  rintro t _ ⟨rfl, ht⟩
  refine ⟨Nat.le_of_eq (hwidth t), haligned t, ?_⟩
  intro u hu
  rw [htarget] at hu
  cases hu
  exact ht

theorem measures_readInRange (code : UInt8) : Measures (readInRange p code) (Follows p) := by
  have haccess (slot : UInt8) (size : Nat) (h : size = 1) :
      StoredInstruction.slotAccessWidth slot.toUInt16 ≤ size + 1 := by
    have := slotAccessWidth_le_two slot
    omega
  have hshort (x : UInt8) : StoredInstruction.slotAccessWidth (x % 4).toUInt16 ≤ 1 := by
    have hle : (x % 4).toUInt16 ≤ 3 := by
      rw [UInt16.le_iff_toNat_le, UInt8.toNat_toUInt16, UInt8.toNat_mod]
      exact Nat.le_of_lt_succ (Nat.mod_lt _ (by decide))
    unfold StoredInstruction.slotAccessWidth
    rw [if_pos hle]
  unfold readInRange
  split
  · exact measures_u8.map haccess
  · split
    · exact .pure (hshort _)
    · split
      · exact measures_u8.map haccess
      · split
        · exact .pure (hshort _)
        · split
          · exact measures_shortJump (fun _ => rfl) (fun _ => rfl) fun _ => rfl
          · split
            · exact measures_shortJump (fun _ => rfl) (fun _ => rfl) fun _ => rfl
            · split
              · exact .pure (spans_of_shortTarget?_eq_none (Nat.le_refl _) rfl rfl)
              · exact .throw

theorem measures_newPrimitiveArray : Measures (do
      let type ← u8
      match BaseType.ofArrayCode? type with
      | some t => return .instruction (.newPrimitiveArray t)
      | none => throw (.malformedAttribute "Code" (.unknownArrayType type)))
    (Follows p) := by
  refine measures_u8.bind fun type _ h => ?_
  subst h
  split
  · exact .pure (Nat.le_refl _)
  · exact .throw

theorem measures_readOperands (code : UInt8) : Measures (readOperands p code) (Follows p) := by
  have hword {i : UInt16 → StoredInstruction} (hi : ∀ x, (i x).width ≤ 3) :
      Measures (do return .instruction (i (← u16))) (Follows p) := by
    refine measures_u16.map ?_
    rintro x _ rfl
    exact hi x
  have hfar {b : Nat → Branch Nat Nat} (hwidth : ∀ t, (b t).width = 5)
      (haligned : ∀ t, (b t).Aligned p.offset) (htarget : ∀ t, (b t).shortTarget? = none) :
      Measures (do return .branch (b (← farTarget p))) (Follows p) := by
    refine measures_farTarget.map ?_
    rintro t _ rfl
    exact spans_of_shortTarget?_eq_none (Nat.le_of_eq (hwidth t)) (haligned t) (htarget t)
  unfold readOperands
  split
  · exact .pure (Nat.le_refl _)
  · -- one case for each opcode, in the order of the definition
    split
    · exact (Measures.counted 1 _).map fun _ _ h => h ▸ Nat.le_refl _
    · exact (Measures.counted 2 _).map fun _ _ h => h ▸ Nat.le_refl _
    · refine measures_u8.map fun c _ h => ?_
      subst h
      exact Nat.le_of_eq (if_pos (toUInt16_le c))
    · refine hword fun c => ?_
      simp only [StoredInstruction.width]
      split <;> omega
    · exact hword fun _ => Nat.le_refl _
    · refine measures_u8.bind fun slot _ h₁ => (Measures.counted 1 _).map fun amount _ h₂ => ?_
      subst h₁ h₂
      have hfits : fitsByte amount.toInt16 = true := by
        unfold fitsByte
        rw [Int8.toInt8_toInt16, beq_self_eq_true]
      refine Nat.le_of_eq (if_pos ?_)
      rw [hfits, decide_eq_true (toUInt16_le slot)]
      rfl
    · exact measures_shortJump (fun _ => rfl) (fun _ => rfl) fun _ => rfl
    · exact measures_shortJump (fun _ => rfl) (fun _ => rfl) fun _ => rfl
    · exact measures_shortJump (fun _ => rfl) (fun _ => rfl) fun _ => rfl
    · exact measures_shortJump (fun _ => rfl) (fun _ => rfl) fun _ => rfl
    · refine measures_u8.map fun slot _ h =>
        spans_of_shortTarget?_eq_none ?_ rfl rfl
      subst h
      exact Nat.le_of_eq (if_pos (toUInt16_le slot))
    · exact measures_readTableSwitch
    · exact measures_readLookupSwitch
    · exact .pure (spans_of_shortTarget?_eq_none (Nat.le_refl _) rfl rfl)
    · exact hword fun _ => Nat.le_refl _
    · exact hword fun _ => Nat.le_refl _
    · exact hword fun _ => Nat.le_refl _
    · exact hword fun _ => Nat.le_refl _
    · exact hword fun _ => Nat.le_refl _
    · exact hword fun _ => Nat.le_refl _
    · exact hword fun _ => Nat.le_refl _
    · refine measures_u16.bind fun _ _ h₁ => measures_u8.bind fun _ _ h₂ =>
        (measures_skip 1).bind fun _ _ h₃ => .pure ?_
      subst h₁ h₂ h₃
      exact Nat.le_refl _
    · refine measures_u16.bind fun _ _ h₁ => (measures_skip 2).bind fun _ _ h₂ => .pure ?_
      subst h₁ h₂
      exact Nat.le_refl _
    · exact hword fun _ => Nat.le_refl _
    · exact measures_newPrimitiveArray
    · exact hword fun _ => Nat.le_refl _
    · exact .pure (spans_of_shortTarget?_eq_none (Nat.le_refl _) rfl rfl)
    · exact hword fun _ => Nat.le_refl _
    · exact hword fun _ => Nat.le_refl _
    · exact measures_readWide
    · refine measures_u16.bind fun _ _ h₁ => measures_u8.map fun _ _ h₂ => ?_
      subst h₁ h₂
      exact Nat.le_refl _
    · exact measures_shortJump (fun _ => rfl) (fun _ => rfl) fun _ => rfl
    · exact measures_shortJump (fun _ => rfl) (fun _ => rfl) fun _ => rfl
    · exact hfar (fun _ => rfl) (fun _ => rfl) fun _ => rfl
    · exact hfar (fun _ => rfl) (fun _ => rfl) fun _ => rfl
    · exact measures_readInRange _

theorem spans_of_read {bytes rest : Bytes} {d : Decoded} {size : Nat}
    (h : (read p).run 0 bytes = .ok ((d, size), rest)) : d.Spans p size := by
  obtain ⟨code, opcode, operands, -, -, hrest⟩ := exists_operands_of_read h
  obtain ⟨size', rfl, hspans⟩ := measures_readOperands _ _ _ _ _ _ hrest
  rwa [Nat.add_comm]

end Decoded

/-- Instructions that stand behind one another, from an offset on to the end of the code. -/
inductive Contiguous (codeLength : Nat) : Nat → List (Nat × Decoded) → Prop where
  | nil : Contiguous codeLength codeLength []
  | cons {offset size : Nat} {d : Decoded} {decoded : List (Nat × Decoded)}
    (hd : d.Spans ⟨offset, codeLength⟩ size) (h : Contiguous codeLength (offset + size) decoded) :
    Contiguous codeLength offset ((offset, d) :: decoded)

theorem contiguous_of_decodeFrom {codeLength bound offset : Nat} {input : Bytes}
    {decoded : List (Nat × Decoded)} (h : decodeFrom codeLength bound offset input = .ok decoded)
    (hlength : offset + input.length = codeLength) (hbound : input.length ≤ bound) :
    Contiguous codeLength offset decoded := by
  induction bound generalizing offset input decoded with
  | zero =>
    cases h
    obtain rfl : offset = codeLength := by omega
    exact .nil
  | succ bound ih =>
    cases input with
    | nil =>
      cases h
      obtain rfl : offset = codeLength := hlength
      exact .nil
    | cons byte input =>
      obtain ⟨⟨⟨d, size⟩, rest⟩, hread, h⟩ := bind_eq_ok.1 h
      obtain ⟨tail, htail, h⟩ := bind_eq_ok.1 h
      obtain rfl := pure_eq_ok.1 h
      obtain ⟨hpos, ⟨taken, hinput, rfl⟩, -⟩ := Decoded.of_read hread
      rw [hinput, List.length_append] at hlength hbound
      exact .cons (Decoded.spans_of_read hread) (ih htail (by omega) (by omega))

theorem contiguous_of_decodeCode {code : Bytes} {decoded : List (Nat × Decoded)}
    (h : decodeCode code = .ok decoded) : Contiguous code.length 0 decoded :=
  contiguous_of_decodeFrom h (Nat.zero_add _) (Nat.le_refl _)

namespace Contiguous

variable {codeLength offset : Nat} {decoded : List (Nat × Decoded)}

theorem getElem?_zero (h : Contiguous codeLength offset decoded) :
    (boundaryOffsets decoded codeLength)[0]? = some offset := by
  cases h <;> rfl

theorem exists_spans (h : Contiguous codeLength offset decoded) {i o : Nat} {d : Decoded}
    (hd : decoded[i]? = some (o, d)) :
    ∃ size, d.Spans ⟨o, codeLength⟩ size ∧ (boundaryOffsets decoded codeLength)[i]? = some o
      ∧ (boundaryOffsets decoded codeLength)[i + 1]? = some (o + size) := by
  induction h generalizing i with
  | nil => cases hd
  | @cons offset size d' decoded hd' hrest ih =>
    cases i with
    | zero =>
      cases hd
      exact ⟨size, hd', rfl, hrest.getElem?_zero⟩
    | succ i => exact ih hd

end Contiguous

end ClassPatch
