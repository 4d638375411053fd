import ClassPatch.Proofs.Text.ModifiedUtf8
import Mathlib.Algebra.GroupWithZero.Nat

/-!
The bytes of each character, with the bits of its code spread over them. The encoding of a text
consists of them, so it holds no zero byte and none that opens a group of four. It is decoded to the
text whatever follows it.
-/

namespace ClassPatch.ModifiedUtf8

/-- Bits of the code of a character, from the given one on. -/
def bits (c : Char) (shift mask : UInt32) : UInt8 := (c.val >>> shift &&& mask).toUInt8

/--
The bytes of a character. Those of a supplementary one are two groups of three, and its plane is
held less 1 in four bits.
-/
def characterBytes (c : Char) : Bytes :=
  if 0 < c.toNat ∧ c.toNat < 0x80 then
    [c.val.toUInt8]
  else if c.toNat < 0x800 then
    [bits c 6 0x1F ||| 0xC0, bits c 0 0x3F ||| 0x80]
  else if c.toNat < 0x10000 then
    [bits c 12 0x0F ||| 0xE0, bits c 6 0x3F ||| 0x80, bits c 0 0x3F ||| 0x80]
  else
    [0xED, (bits c 16 0x0F - 1) &&& 0x0F ||| 0xA0, bits c 10 0x3F ||| 0x80,
      0xED, bits c 6 0x1F ||| 0xB0, bits c 0 0x3F ||| 0x80]

section Bits

variable {c : Char}

theorem toNat_bits {shift mask : UInt32} (width : Nat) (hshift : shift.toNat < 32)
    (hwidth : width ≤ 8) (hmask : mask.toNat = 2 ^ width - 1) :
    (bits c shift mask).toNat = c.toNat / 2 ^ shift.toNat % 2 ^ width := by
  have hlt : c.toNat / 2 ^ shift.toNat % 2 ^ width < 2 ^ 8 :=
    Nat.lt_of_lt_of_le (Nat.mod_lt _ (Nat.two_pow_pos width))
      (Nat.pow_le_pow_right (by decide) hwidth)
  rw [bits, UInt32.toNat_toUInt8, UInt32.toNat_and, UInt32.toNat_shiftRight, hmask,
    Nat.and_two_pow_sub_one_eq_mod, Nat.shiftRight_eq_div_pow, Nat.mod_eq_of_lt hshift]
  exact Nat.mod_eq_of_lt hlt

theorem ofNat_eq_bits_or {shift : UInt32} {u : Nat} (hshift : shift.toNat < 32)
    (hu : u % 0x40 = c.toNat / 2 ^ shift.toNat % 0x40) :
    UInt8.ofNat (0x80 + u % 0x40) = bits c shift 0x3F ||| 0x80 := by
  have hor : ∀ n < 0x40, n ||| 0x80 = 0x80 + n := by decide
  have hbits : (bits c shift 0x3F).toNat = c.toNat / 2 ^ shift.toNat % 0x40 :=
    toNat_bits 6 hshift (by decide) rfl
  rw [← UInt8.toNat_inj, UInt8.toNat_or, hbits, ← hu,
    UInt8.toNat_ofNat_of_lt' (by simp only [UInt8.size]; omega)]
  exact (hor _ (Nat.mod_lt _ (by decide))).symm

theorem opening_two (h : c.toNat < 0x800) :
    UInt8.ofNat (0xC0 + c.toNat / 0x40) = bits c 6 0x1F ||| 0xC0 := by
  have hor : ∀ n < 0x20, 0xC0 + n = n % 0x20 ||| 0xC0 := by decide
  rw [← UInt8.toNat_inj, UInt8.toNat_or, toNat_bits 5 (by decide) (by decide) rfl,
    UInt8.toNat_ofNat_of_lt' (by simp only [UInt8.size]; omega)]
  exact hor _ (by omega)

theorem opening_three (h : c.toNat < 0x10000) :
    UInt8.ofNat (0xE0 + c.toNat / 0x1000) = bits c 12 0x0F ||| 0xE0 := by
  have hor : ∀ n < 0x10, 0xE0 + n = n % 0x10 ||| 0xE0 := by decide
  rw [← UInt8.toNat_inj, UInt8.toNat_or, toNat_bits 4 (by decide) (by decide) rfl,
    UInt8.toNat_ofNat_of_lt' (by simp only [UInt8.size]; omega)]
  exact hor _ (by omega)

theorem plane_high (hbasic : ¬ c.toNat < 0x10000) (hlt : c.toNat < 0x110000) :
    UInt8.ofNat (0x80 + (0xD800 + (c.toNat - 0x10000) / 0x400) / 0x40 % 0x40)
      = (bits c 16 0x0F - 1) &&& 0x0F ||| 0xA0 := by
  -- the last plane is 16, which wraps to 15 in four bits as well
  have hplanes : ∀ n < 0x11, 0 < n →
      UInt8.ofNat (0xA0 + (n - 1)) = (UInt8.ofNat (n % 0x10) - 1) &&& 0x0F ||| 0xA0 := by decide
  have hplane : bits c 16 0x0F = UInt8.ofNat (c.toNat / 0x10000 % 0x10) := by
    rw [← UInt8.toNat_inj, toNat_bits 4 (by decide) (by decide) rfl,
      UInt8.toNat_ofNat_of_lt' (by simp only [UInt8.size]; omega)]
    rfl
  rw [hplane, ← hplanes _ (by omega) (by omega)]
  congr 1
  omega

theorem middle_low (hbasic : ¬ c.toNat < 0x10000) :
    UInt8.ofNat (0x80 + (0xDC00 + (c.toNat - 0x10000) % 0x400) / 0x40 % 0x40)
      = bits c 6 0x1F ||| 0xB0 := by
  -- the mark has the fifth bit, whatever that bit of the code is
  have hor : ∀ n < 0x20, 0xB0 + n % 0x10 = n ||| 0xB0 := by decide
  have hsum : 0x80 + (0xDC00 + (c.toNat - 0x10000) % 0x400) / 0x40 % 0x40
      = 0xB0 + c.toNat / 0x40 % 0x20 % 0x10 := by
    omega
  rw [← UInt8.toNat_inj, UInt8.toNat_or, toNat_bits 5 (by decide) (by decide) rfl,
    UInt8.toNat_ofNat_of_lt' (by simp only [UInt8.size]; omega), hsum]
  exact hor _ (Nat.mod_lt _ (by decide))

end Bits

theorem encodeUnit_of_surrogate {u : Nat} (hge : 0xD800 ≤ u) (hlt : u < 0xE000) :
    encodeUnit u
      = [0xED, UInt8.ofNat (0x80 + u / 0x40 % 0x40), UInt8.ofNat (0x80 + u % 0x40)] := by
  have hopening : 0xE0 + u / 0x1000 = 0xED := by omega
  rw [encodeUnit, if_neg (by omega), if_neg (by omega), hopening]
  rfl

theorem encodeUnit_of_basic {c : Char} (h : c.toNat < 0x10000) :
    encodeUnit c.toNat = characterBytes c := by
  have hmiddle : UInt8.ofNat (0x80 + c.toNat / 0x40 % 0x40) = bits c 6 0x3F ||| 0x80 :=
    ofNat_eq_bits_or (by decide) rfl
  have hlast : UInt8.ofNat (0x80 + c.toNat % 0x40) = bits c 0 0x3F ||| 0x80 :=
    ofNat_eq_bits_or (by decide) (by rw [UInt32.toNat_zero, Nat.pow_zero, Nat.div_one])
  unfold encodeUnit characterBytes
  split
  · rfl
  · split
    · next htwo => rw [hlast, opening_two htwo]
    · rw [hmiddle, hlast, opening_three h]

theorem flatMap_encodeUnit_units (c : Char) : (units c).flatMap encodeUnit = characterBytes c := by
  have hc := toNat_valid c
  unfold units
  split
  · next hbasic => rw [List.flatMap_singleton, encodeUnit_of_basic hbasic]
  · next hbasic =>
    have hhigh : UInt8.ofNat (0x80 + (0xD800 + (c.toNat - 0x10000) / 0x400) % 0x40)
        = bits c 10 0x3F ||| 0x80 :=
      ofNat_eq_bits_or (by decide) (show _ = c.toNat / 0x400 % 0x40 by omega)
    have hlow : UInt8.ofNat (0x80 + (0xDC00 + (c.toNat - 0x10000) % 0x400) % 0x40)
        = bits c 0 0x3F ||| 0x80 :=
      ofNat_eq_bits_or (by decide) (show _ = c.toNat / 1 % 0x40 by omega)
    rw [List.flatMap_cons, List.flatMap_singleton, encodeUnit_of_surrogate (by omega) (by omega),
      encodeUnit_of_surrogate (by omega) (by omega), plane_high hbasic (by omega), hhigh,
      middle_low hbasic, hlow, characterBytes, if_neg (by omega), if_neg (by omega), if_neg hbasic]
    rfl

/-- The encoding of a text consists of the bytes of its characters. -/
theorem encode_eq_flatMap (text : String) : encode text = text.toList.flatMap characterBytes := by
  rw [encode, List.flatMap_assoc, funext flatMap_encodeUnit_units]

section Range

theorem encodeUnit_range {u : Nat} (hu : u < 0x10000) : ∀ b ∈ encodeUnit u, b ≠ 0 ∧ b < 0xF0 := by
  have hrange {n : Nat} (hpos : 0 < n) (hlt : n < 0xF0) :
      UInt8.ofNat n ≠ 0 ∧ UInt8.ofNat n < 0xF0 := by
    have hn : (UInt8.ofNat n).toNat = n :=
      UInt8.toNat_ofNat_of_lt' (by simp only [UInt8.size]; omega)
    constructor
    · intro hzero
      rw [hzero] at hn
      exact Nat.ne_of_lt hpos hn
    · rw [UInt8.lt_iff_toNat_lt, hn]
      exact hlt
  unfold encodeUnit
  split
  · exact List.forall_mem_singleton.2 (hrange (by omega) (by omega))
  · split
    · exact List.forall_mem_cons.2 ⟨hrange (by omega) (by omega),
        List.forall_mem_singleton.2 (hrange (by omega) (by omega))⟩
    · exact List.forall_mem_cons.2 ⟨hrange (by omega) (by omega),
        List.forall_mem_cons.2 ⟨hrange (by omega) (by omega),
          List.forall_mem_singleton.2 (hrange (by omega) (by omega))⟩⟩

theorem encode_range (text : String) : ∀ b ∈ encode text, b ≠ 0 ∧ b < 0xF0 := by
  intro b hb
  obtain ⟨u, hu, hb⟩ := List.mem_flatMap.1 hb
  obtain ⟨c, -, hu⟩ := List.mem_flatMap.1 hu
  exact encodeUnit_range (units_lt c u hu) b hb

end Range

theorem length_decodeUnits_le (bytes : Bytes) : (decodeUnits bytes).length ≤ bytes.length := by
  fun_induction decodeUnits bytes <;> simp_all only [List.length_cons, List.length_nil] <;> omega

/--
A text is decoded from its bytes, whatever follows them. The bytes are those of its characters, none
of them zero or one that opens a group of four. Any bytes at all are decoded, in no more units than
there are bytes, to a text that comes back from its own bytes.
-/
theorem encoding_roundTrips (text : String) (bytes : Bytes) :
    decode (encode text) = text
      ∧ decode (encode text ++ bytes) = text ++ decode bytes
      ∧ encode text = text.toList.flatMap characterBytes
      ∧ (∀ b ∈ encode text, b ≠ 0 ∧ b < 0xF0)
      ∧ (decodeUnits bytes).length ≤ bytes.length
      ∧ decode (encode (decode bytes)) = decode bytes :=
  ⟨decode_encode text, decode_encode_append text bytes, encode_eq_flatMap text, encode_range text,
    length_decodeUnits_le bytes, decode_encode (decode bytes)⟩

end ClassPatch.ModifiedUtf8
