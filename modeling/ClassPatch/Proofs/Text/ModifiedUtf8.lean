import ClassPatch.Text.ModifiedUtf8

/-!
Decoding undoes encoding. Both go through the code units of the text, so each half is shown of one
character, or of one unit, in front of any others.
-/

namespace ClassPatch.ModifiedUtf8

theorem decodeUnits_cons_ascii {b : UInt8} (h : b.toNat < 0x80) (rest : Bytes) :
    decodeUnits (b :: rest) = b.toNat :: decodeUnits rest := by
  rw [decodeUnits.eq_def]
  exact if_pos h

theorem decodeUnits_cons_two {b₀ : UInt8} (h : opensTwo b₀ = true) (b₁ : UInt8) (rest : Bytes) :
    decodeUnits (b₀ :: b₁ :: rest) = unit₂ b₀ b₁ :: decodeUnits rest := by
  have hhigh : ¬ b₀.toNat < 0x80 := by
    unfold opensTwo at h
    rw [beq_iff_eq] at h
    omega
  cases rest with
  | nil =>
    rw [decodeUnits.eq_def]
    exact (if_neg hhigh).trans (if_pos h)
  | cons b₂ rest => rw [decodeUnits, if_neg hhigh, if_pos h]

theorem decodeUnits_cons_three {b₀ : UInt8} (h : opensThree b₀ = true) (b₁ b₂ : UInt8)
    (rest : Bytes) :
    decodeUnits (b₀ :: b₁ :: b₂ :: rest) = unit₃ b₀ b₁ b₂ :: decodeUnits rest := by
  unfold opensThree at h
  have hhigh : ¬ b₀.toNat < 0x80 := by
    rw [beq_iff_eq] at h
    omega
  have htwo : ¬ opensTwo b₀ = true := by
    unfold opensTwo
    rw [beq_iff_eq] at h ⊢
    omega
  rw [decodeUnits, if_neg hhigh, if_neg htwo, if_pos]
  exact h

theorem decodeUnits_encodeUnit {u : Nat} (h : u < 0x10000) (rest : Bytes) :
    decodeUnits (encodeUnit u ++ rest) = u :: decodeUnits rest := by
  unfold encodeUnit
  split
  · next hascii =>
    have hu : (UInt8.ofNat u).toNat = u := by
      rw [UInt8.toNat_ofNat']
      omega
    rw [List.singleton_append, decodeUnits_cons_ascii (by omega), hu]
  · split
    · have h₀ : (UInt8.ofNat (0xC0 + u / 0x40)).toNat = 0xC0 + u / 0x40 := by
        rw [UInt8.toNat_ofNat']
        omega
      have h₁ : (UInt8.ofNat (0x80 + u % 0x40)).toNat = 0x80 + u % 0x40 := by
        rw [UInt8.toNat_ofNat']
        omega
      have hopens : opensTwo (UInt8.ofNat (0xC0 + u / 0x40)) = true := by
        unfold opensTwo
        rw [h₀, beq_iff_eq]
        omega
      have hunit : unit₂ (UInt8.ofNat (0xC0 + u / 0x40)) (UInt8.ofNat (0x80 + u % 0x40)) = u := by
        unfold unit₂
        rw [h₀, h₁]
        omega
      rw [List.cons_append, List.cons_append, decodeUnits_cons_two hopens, hunit]
      rfl
    · have h₀ : (UInt8.ofNat (0xE0 + u / 0x1000)).toNat = 0xE0 + u / 0x1000 := by
        rw [UInt8.toNat_ofNat']
        omega
      have h₁ : (UInt8.ofNat (0x80 + u / 0x40 % 0x40)).toNat = 0x80 + u / 0x40 % 0x40 := by
        rw [UInt8.toNat_ofNat']
        omega
      have h₂ : (UInt8.ofNat (0x80 + u % 0x40)).toNat = 0x80 + u % 0x40 := by
        rw [UInt8.toNat_ofNat']
        omega
      have hopens : opensThree (UInt8.ofNat (0xE0 + u / 0x1000)) = true := by
        unfold opensThree
        rw [h₀, beq_iff_eq]
        omega
      have hunit : unit₃ (UInt8.ofNat (0xE0 + u / 0x1000)) (UInt8.ofNat (0x80 + u / 0x40 % 0x40))
          (UInt8.ofNat (0x80 + u % 0x40)) = u := by
        unfold unit₃
        rw [h₀, h₁, h₂]
        omega
      rw [List.cons_append, List.cons_append, List.cons_append, decodeUnits_cons_three hopens,
        hunit]
      rfl

theorem decodeUnits_flatMap_encodeUnit (us : List Nat) (h : ∀ u ∈ us, u < 0x10000) (rest : Bytes) :
    decodeUnits (us.flatMap encodeUnit ++ rest) = us ++ decodeUnits rest := by
  induction us with
  | nil => rfl
  | cons u us ih =>
    rw [List.flatMap_cons, List.append_assoc, decodeUnits_encodeUnit (h u List.mem_cons_self)]
    rw [ih fun v hv => h v (List.mem_cons_of_mem _ hv), List.cons_append]

theorem toNat_valid (c : Char) : c.toNat < 0xD800 ∨ 0xDFFF < c.toNat ∧ c.toNat < 0x110000 :=
  c.valid

theorem units_lt (c : Char) : ∀ u ∈ units c, u < 0x10000 := by
  have hc := toNat_valid c
  unfold units
  intro u hu
  split at hu
  · rw [List.mem_singleton] at hu
    omega
  · rw [List.mem_cons, List.mem_singleton] at hu
    omega

theorem ofUnits_cons {u : Nat} (h : isHigh u = false) (rest : List Nat) :
    ofUnits (u :: rest) = ofUnit u :: ofUnits rest := by
  cases rest with
  | nil => rfl
  | cons v rest => rw [ofUnits, h, Bool.false_and, if_neg Bool.false_ne_true]

theorem ofUnits_units (c : Char) (rest : List Nat) :
    ofUnits (units c ++ rest) = c :: ofUnits rest := by
  have hc := toNat_valid c
  unfold units
  split
  · have hhigh : isHigh c.toNat = false := by
      simp only [isHigh, Bool.and_eq_false_imp, decide_eq_true_eq, decide_eq_false_iff_not]
      omega
    have hlow : isLow c.toNat = false := by
      simp only [isLow, Bool.and_eq_false_imp, decide_eq_true_eq, decide_eq_false_iff_not]
      omega
    rw [List.singleton_append, ofUnits_cons hhigh]
    unfold ofUnit
    rw [hhigh, hlow, Bool.or_false, if_neg Bool.false_ne_true, Char.ofNat_toNat]
  · have hhigh : isHigh (0xD800 + (c.toNat - 0x10000) / 0x400) = true := by
      simp only [isHigh, Bool.and_eq_true, decide_eq_true_eq]
      omega
    have hlow : isLow (0xDC00 + (c.toNat - 0x10000) % 0x400) = true := by
      simp only [isLow, Bool.and_eq_true, decide_eq_true_eq]
      omega
    have hunit : 0x10000 + (0xD800 + (c.toNat - 0x10000) / 0x400 - 0xD800) * 0x400
        + (0xDC00 + (c.toNat - 0x10000) % 0x400 - 0xDC00) = c.toNat := by
      omega
    rw [List.cons_append, List.cons_append, List.nil_append, ofUnits, hhigh, hlow, Bool.and_true,
      if_pos rfl, hunit, Char.ofNat_toNat]

theorem ofUnits_flatMap_units (cs : List Char) (rest : List Nat) :
    ofUnits (cs.flatMap units ++ rest) = cs ++ ofUnits rest := by
  induction cs with
  | nil => rfl
  | cons c cs ih =>
    rw [List.flatMap_cons, List.append_assoc, ofUnits_units, ih, List.cons_append]

theorem decode_encode_append (text : String) (bytes : Bytes) :
    decode (encode text ++ bytes) = text ++ decode bytes := by
  have hunits : ∀ u ∈ text.toList.flatMap units, u < 0x10000 := by
    intro u hu
    obtain ⟨c, -, hc⟩ := List.mem_flatMap.1 hu
    exact units_lt c u hc
  unfold decode encode
  rw [decodeUnits_flatMap_encodeUnit _ hunits, ofUnits_flatMap_units, String.ofList_append,
    String.ofList_toList]

theorem decode_encode (text : String) : decode (encode text) = text := by
  have happend := decode_encode_append text []
  rwa [List.append_nil, show decode [] = "" from rfl, String.append_empty] at happend

end ClassPatch.ModifiedUtf8
