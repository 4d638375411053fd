import ClassPatch.Proofs.Binary.Ensures
import ClassPatch.Proofs.Binary.Local
import ClassPatch.Proofs.Bytecode.Branch

/-!
What holds of every code array that is decoded: instructions stand behind one another up to its
end, and jump to places before it.
-/

namespace ClassPatch

namespace CodePosition

variable {p : CodePosition}

/-- A jump from the position to the offset can be written. -/
def Reaches (p : CodePosition) (t : Nat) : Prop :=
  ∃ distance : Int32, p.target distance.toInt = .ok t

theorem of_target {distance : Int} {t : Nat} (h : p.target distance = .ok t) :
    t < p.codeLength ∧ (t : Int) - p.offset = distance := by
  unfold target at h
  dsimp only at h
  split at h
  next =>
    cases h
    omega
  next => cases h

theorem Reaches.lt {t : Nat} (h : p.Reaches t) : t < p.codeLength := by
  obtain ⟨distance, h⟩ := h
  exact (of_target h).1

end CodePosition

namespace CodeReader

variable {α β : Type}

/-- What is counted is what is taken, and all values that are read satisfy the predicate. -/
def Ensures (read : CodeReader α) (P : α → Prop) : Prop :=
  ∀ count bytes a count' rest, read.run count bytes = .ok ((a, count'), rest) →
    ∃ taken, bytes = taken ++ rest ∧ count' = count + taken.length ∧ P a

namespace Ensures

variable {P : α → Prop} {Q : β → Prop}

theorem pure {a : α} (h : P a) : Ensures (Pure.pure a) P := by
  intro count bytes a' count' rest hrun
  cases hrun
  exact ⟨[], rfl, rfl, h⟩

theorem throw {e : ClassError} : Ensures (MonadExcept.throw e) P := by
  intro count bytes a count' rest hrun
  cases hrun

theorem bind {read : CodeReader α} {next : α → CodeReader β} (h : Ensures read P)
    (hnext : ∀ a, P a → Ensures (next a) Q) : Ensures (read >>= next) Q := by
  intro count bytes b count' rest hrun
  obtain ⟨⟨⟨a, count₁⟩, bytes₁⟩, hread, hrest⟩ := bind_eq_ok.1 hrun
  obtain ⟨front, rfl, rfl, ha⟩ := h _ _ _ _ _ hread
  obtain ⟨back, rfl, rfl, hb⟩ := hnext a ha _ _ _ _ _ hrest
  refine ⟨front ++ back, (List.append_assoc _ _ _).symm, ?_, hb⟩
  rw [List.length_append, Nat.add_assoc]

theorem map {read : CodeReader α} {f : α → β} (h : Ensures read P) (hf : ∀ a, P a → Q (f a)) :
    Ensures (do return f (← read)) Q :=
  h.bind fun a ha => pure (hf a ha)

theorem many {read : CodeReader α} (h : Ensures read P) (count : Nat) :
    Ensures (Reader.many read count) fun as => as.length = count ∧ ∀ a ∈ as, P a := by
  induction count with
  | zero => exact pure ⟨rfl, nofun⟩
  | succ count ih =>
    refine h.bind fun a ha => ih.map ?_
    intro as has
    exact ⟨congrArg Nat.succ has.1, List.forall_mem_cons.2 ⟨ha, has.2⟩⟩

theorem counted {size : Nat} {read : Reader α} (h : Reader.Takes read size)
    (hlocal : Reader.Local read) : Ensures (counted size read) fun _ => True := by
  intro count bytes a count' rest hrun
  obtain ⟨⟨a', rest'⟩, hread, hrest⟩ := bind_eq_ok.1 hrun
  cases hrest
  have hlength := h _ _ _ hread
  obtain ⟨taken, rfl, -, -⟩ := hlocal _ _ _ hread
  rw [List.length_append] at hlength
  refine ⟨taken, rfl, ?_, True.intro⟩
  change count + size = _
  omega

end Ensures

theorem ensures_u8 : Ensures u8 fun _ => True := .counted Reader.takes_u8 Reader.local_u8

theorem ensures_u16 : Ensures u16 fun _ => True := .counted Reader.takes_u16 Reader.local_u16

theorem ensures_i8 : Ensures i8 fun _ => True :=
  .counted (Reader.takes_u8.map _) (Reader.local_u8.map _)

theorem ensures_i16 : Ensures i16 fun _ => True :=
  .counted (Reader.takes_u16.map _) (Reader.local_u16.map _)

theorem ensures_i32 : Ensures i32 fun _ => True :=
  .counted (Reader.takes_u32.map _) (Reader.local_u32.map _)

theorem ensures_skip (size : Nat) : Ensures (skip size) fun _ => True :=
  (Ensures.counted (Reader.takes_bytes size) (Reader.local_bytes size)).map fun _ _ => True.intro

variable {p : CodePosition}

theorem ensures_target (distance : Int32) :
    Ensures (liftM (p.target distance.toInt)) p.Reaches := by
  intro count bytes t count' rest hrun
  cases h : p.target distance.toInt with
  | error e =>
    rw [h] at hrun
    cases hrun
  | ok t' =>
    rw [h] at hrun
    cases hrun
    exact ⟨[], rfl, rfl, distance, h⟩

theorem ensures_nearTarget : Ensures (nearTarget p) p.Reaches := by
  refine ensures_i16.bind fun distance _ => ?_
  rw [← Int16.toInt_toInt32]
  exact ensures_target distance.toInt32

theorem ensures_farTarget : Ensures (farTarget p) p.Reaches :=
  ensures_i32.bind fun distance _ => ensures_target distance

end CodeReader

namespace Decoded

open CodeReader

variable {p : CodePosition}

/-- Targets are before the end of the code, and the cases of a switch can be counted. -/
def Fits (codeLength : Nat) : Decoded → Prop
  | .instruction _ => True
  | .branch b => (∀ t ∈ b.targets, t < codeLength) ∧ b.CasesFit

/-- Targets can be jumped to from the position, and the cases of a switch can be counted. -/
def Reaches (p : CodePosition) : Decoded → Prop
  | .instruction _ => True
  | .branch b => (∀ t ∈ b.targets, p.Reaches t) ∧ b.CasesFit

theorem Reaches.fits {d : Decoded} (h : d.Reaches p) : d.Fits p.codeLength := by
  cases d with
  | instruction i => exact True.intro
  | branch b => exact ⟨fun t ht => (h.1 t ht).lt, h.2⟩

theorem reaches_of_target {t : Nat} (h : p.Reaches t) : ∀ u ∈ [t], p.Reaches u := by
  intro u hu
  rw [List.mem_singleton.1 hu]
  exact h

theorem reaches_of_not_mem : ∀ u ∈ ([] : List Nat), p.Reaches u :=
  fun _ hu => absurd hu List.not_mem_nil

theorem ensures_readTableSwitch : Ensures (readTableSwitch p) (Reaches p) := by
  unfold readTableSwitch
  refine (ensures_skip _).bind fun _ _ => ?_
  refine ensures_farTarget.bind fun fallback hfallback => ?_
  refine ensures_i32.bind fun low _ => ensures_i32.bind fun high _ => ?_
  dsimp only
  split
  · exact Ensures.bind (P := fun _ => False) .throw fun _ h => h.elim
  next hle =>
    rw [Int32.lt_iff_toInt_lt] at hle
    have hhigh := high.toInt_lt
    refine (ensures_farTarget.many _).map ?_
    intro targets htargets
    refine ⟨List.forall_mem_cons.2 ⟨hfallback, htargets.2⟩, ?_⟩
    change 1 ≤ targets.length ∧ low.toInt + targets.length ≤ 2 ^ 31
    omega

theorem ensures_readLookupSwitch : Ensures (readLookupSwitch p) (Reaches p) := by
  unfold readLookupSwitch
  refine (ensures_skip _).bind fun _ _ => ?_
  refine ensures_farTarget.bind fun fallback hfallback => ?_
  refine ensures_i32.bind fun count _ => ?_
  dsimp only
  split
  · exact Ensures.bind (P := fun _ => False) .throw fun _ h => h.elim
  next hle =>
    have hcount := count.toInt_lt
    have hpair : Ensures (do return (← i32, ← farTarget p) : CodeReader (Int32 × Nat))
        fun x => p.Reaches x.2 :=
      ensures_i32.bind fun key _ => ensures_farTarget.map fun t ht => ht
    refine (hpair.many _).map ?_
    intro pairs hpairs
    refine ⟨List.forall_mem_cons.2 ⟨hfallback, List.forall_mem_map.2 hpairs.2⟩, ?_⟩
    change pairs.length < 2 ^ 31
    omega

theorem ensures_readWide : Ensures (readWide p) (Reaches p) := by
  unfold readWide
  refine ensures_u8.bind fun code _ => ?_
  split
  · exact ensures_u16.bind fun _ _ => ensures_i16.map fun _ _ => True.intro
  · split
    · exact ensures_u16.map fun _ _ => ⟨reaches_of_not_mem, True.intro⟩
    · split
      · exact ensures_u16.map fun _ _ => True.intro
      · split
        · exact ensures_u16.map fun _ _ => True.intro
        · exact .throw

theorem ensures_readInRange (code : UInt8) :
    Ensures (readInRange p code) (Reaches p) := by
  unfold readInRange
  split
  · exact ensures_u8.map fun _ _ => True.intro
  · split
    · exact .pure True.intro
    · split
      · exact ensures_u8.map fun _ _ => True.intro
      · split
        · exact .pure True.intro
        · split
          · exact ensures_nearTarget.map fun _ ht => ⟨reaches_of_target ht, True.intro⟩
          · split
            · exact ensures_nearTarget.map fun _ ht => ⟨reaches_of_target ht, True.intro⟩
            · split
              · exact .pure ⟨reaches_of_not_mem, True.intro⟩
              · exact .throw

theorem ensures_newPrimitiveArray : Ensures (do
      let type ← u8
      match BaseType.ofArrayCode? type with
      | some t => return .instruction (.newPrimitiveArray t)
      | none => throw (.malformedAttribute "Code" (.unknownArrayType type)))
    (Reaches p) := by
  refine ensures_u8.bind fun type _ => ?_
  split
  · exact .pure True.intro
  · exact .throw

theorem ensures_readOperands (code : UInt8) :
    Ensures (readOperands p code) (Reaches p) := by
  unfold readOperands
  split
  · exact .pure True.intro
  · -- one case for each opcode, in the order of the definition
    split
    · exact ensures_i8.map fun _ _ => True.intro
    · exact ensures_i16.map fun _ _ => True.intro
    · exact ensures_u8.map fun _ _ => True.intro
    · exact ensures_u16.map fun _ _ => True.intro
    · exact ensures_u16.map fun _ _ => True.intro
    · exact ensures_u8.bind fun _ _ => ensures_i8.map fun _ _ => True.intro
    · exact ensures_nearTarget.map fun _ ht => ⟨reaches_of_target ht, True.intro⟩
    · exact ensures_nearTarget.map fun _ ht => ⟨reaches_of_target ht, True.intro⟩
    · exact ensures_nearTarget.map fun _ ht => ⟨reaches_of_target ht, True.intro⟩
    · exact ensures_nearTarget.map fun _ ht => ⟨reaches_of_target ht, True.intro⟩
    · exact ensures_u8.map fun _ _ => ⟨reaches_of_not_mem, True.intro⟩
    · exact ensures_readTableSwitch
    · exact ensures_readLookupSwitch
    · exact .pure ⟨reaches_of_not_mem, True.intro⟩
    · exact ensures_u16.map fun _ _ => True.intro
    · exact ensures_u16.map fun _ _ => True.intro
    · exact ensures_u16.map fun _ _ => True.intro
    · exact ensures_u16.map fun _ _ => True.intro
    · exact ensures_u16.map fun _ _ => True.intro
    · exact ensures_u16.map fun _ _ => True.intro
    · exact ensures_u16.map fun _ _ => True.intro
    · exact ensures_u16.bind fun _ _ => ensures_u8.bind fun _ _ =>
        (ensures_skip 1).bind fun _ _ => .pure True.intro
    · exact ensures_u16.bind fun _ _ => (ensures_skip 2).bind fun _ _ => .pure True.intro
    · exact ensures_u16.map fun _ _ => True.intro
    · exact ensures_newPrimitiveArray
    · exact ensures_u16.map fun _ _ => True.intro
    · exact .pure ⟨reaches_of_not_mem, True.intro⟩
    · exact ensures_u16.map fun _ _ => True.intro
    · exact ensures_u16.map fun _ _ => True.intro
    · exact ensures_readWide
    · exact ensures_u16.bind fun _ _ => ensures_u8.map fun _ _ => True.intro
    · exact ensures_nearTarget.map fun _ ht => ⟨reaches_of_target ht, True.intro⟩
    · exact ensures_nearTarget.map fun _ ht => ⟨reaches_of_target ht, True.intro⟩
    · exact ensures_farTarget.map fun _ ht => ⟨reaches_of_target ht, True.intro⟩
    · exact ensures_farTarget.map fun _ ht => ⟨reaches_of_target ht, True.intro⟩
    · exact ensures_readInRange _

theorem exists_operands_of_read {bytes rest : Bytes} {d : Decoded} {size : Nat}
    (h : (read p).run 0 bytes = .ok ((d, size), rest)) :
    ∃ (code : UInt8) (opcode operands : Bytes), bytes = opcode ++ operands ∧ opcode.length = 1
      ∧ (readOperands p code).run 1 operands = .ok ((d, size), rest) := by
  change read p 0 bytes = _ at h
  unfold read at h
  split at h
  · cases h
  · obtain ⟨⟨⟨code, count⟩, operands⟩, hread, hrest⟩ := bind_eq_ok.1 h
    obtain ⟨⟨code', operands'⟩, hcode, hcount⟩ := bind_eq_ok.1 hread
    cases hcount
    have hlength := Reader.takes_u8 _ _ _ hcode
    obtain ⟨opcode, rfl, -, -⟩ := Reader.local_u8 _ _ _ hcode
    simp only [List.length_append] at hlength
    exact ⟨code, opcode, operands, rfl, by omega, hrest⟩

theorem of_read {bytes rest : Bytes} {d : Decoded} {size : Nat}
    (h : (read p).run 0 bytes = .ok ((d, size), rest)) :
    1 ≤ size ∧ (∃ taken, bytes = taken ++ rest ∧ taken.length = size) ∧ d.Reaches p := by
  obtain ⟨code, opcode, bytes', rfl, hopcode, hrest⟩ := exists_operands_of_read h
  obtain ⟨operands, rfl, rfl, hreaches⟩ := ensures_readOperands _ _ _ _ _ _ hrest
  refine ⟨Nat.le_add_right _ _, ⟨opcode ++ operands, (List.append_assoc _ _ _).symm, ?_⟩, hreaches⟩
  rw [List.length_append, hopcode]

end Decoded

/-- Where instructions start, and where the code ends. -/
def boundaryOffsets (decoded : List (Nat × Decoded)) (codeLength : Nat) : List Nat :=
  decoded.map (·.1) ++ [codeLength]

/-- Instructions from an offset on to the end of the code. -/
structure DecodedFrom (codeLength offset : Nat) (decoded : List (Nat × Decoded)) : Prop where
  increasing : (boundaryOffsets decoded codeLength).Pairwise (· < ·)
  start_le : ∀ o ∈ boundaryOffsets decoded codeLength, offset ≤ o
  fits : ∀ x ∈ decoded, x.2.Fits codeLength

theorem DecodedFrom.nil {codeLength offset : Nat} (h : offset ≤ codeLength) :
    DecodedFrom codeLength offset [] := by
  refine ⟨List.pairwise_singleton _ _, ?_, fun _ hx => absurd hx List.not_mem_nil⟩
  intro o ho
  rw [List.mem_singleton.1 ho]
  exact h

theorem decodedFrom_of_decodeFrom {codeLength bound offset : Nat} {input : Bytes}
    {decoded : List (Nat × Decoded)} (h : decodeFrom codeLength bound offset input = .ok decoded)
    (hlength : offset + input.length = codeLength) (hbound : input.length ≤ bound) :
    DecodedFrom codeLength offset decoded := by
  induction bound generalizing offset input decoded with
  | zero =>
    cases h
    exact .nil (by omega)
  | succ bound ih =>
    cases input with
    | nil =>
      cases h
      exact .nil (by omega)
    | cons byte input =>
      obtain ⟨⟨⟨d, size⟩, rest⟩, hread, h⟩ := bind_eq_ok.1 h
      obtain ⟨tail, htail, h⟩ := bind_eq_ok.1 h
      obtain rfl := pure_eq_ok.1 h
      obtain ⟨hpos, ⟨taken, hinput, rfl⟩, hreaches⟩ := Decoded.of_read hread
      rw [hinput, List.length_append] at hlength hbound
      have hdecoded := ih htail (by omega) (by omega)
      refine ⟨?_, ?_, List.forall_mem_cons.2 ⟨hreaches.fits, hdecoded.fits⟩⟩
      · refine List.pairwise_cons.2 ⟨?_, hdecoded.increasing⟩
        intro o ho
        have := hdecoded.start_le o ho
        dsimp only
        omega
      · refine List.forall_mem_cons.2 ⟨Nat.le_refl _, ?_⟩
        intro o ho
        have := hdecoded.start_le o ho
        omega

theorem decodedFrom_of_decodeCode {code : Bytes} {decoded : List (Nat × Decoded)}
    (h : decodeCode code = .ok decoded) : DecodedFrom code.length 0 decoded :=
  decodedFrom_of_decodeFrom h (Nat.zero_add _) (Nat.le_refl _)

end ClassPatch
