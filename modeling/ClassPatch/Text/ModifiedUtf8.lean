/-!
Modified UTF-8, the text encoding of class files: a text is taken as its UTF-16 code units, and each
unit is written in one to three bytes. NUL takes two bytes, so no encoded text contains a zero byte,
and a supplementary character takes six, one half for each of its surrogates.

Decoding never fails. A byte that starts no complete group and a surrogate without its partner both
become the replacement character.
-/

namespace ClassPatch

/-- A sequence of bytes. -/
abbrev Bytes := List UInt8

namespace ModifiedUtf8

/-- Stands for whatever cannot be decoded. -/
def replacement : Nat := 0xFFFD

/-- UTF-16 code units of a character. -/
def units (c : Char) : List Nat :=
  if c.toNat < 0x10000 then [c.toNat]
  else [0xD800 + (c.toNat - 0x10000) / 0x400, 0xDC00 + (c.toNat - 0x10000) % 0x400]

/-- Units that open a surrogate pair. -/
def isHigh (u : Nat) : Bool := 0xD800 ≤ u && u < 0xDC00

/-- Units that close a surrogate pair. -/
def isLow (u : Nat) : Bool := 0xDC00 ≤ u && u < 0xE000

/-- The character of a unit that stands alone; a lone surrogate has none. -/
def ofUnit (u : Nat) : Char :=
  Char.ofNat (if isHigh u || isLow u then replacement else u)

/-- The characters of a sequence of units. -/
def ofUnits : List Nat → List Char
  | [] => []
  | [u] => [ofUnit u]
  | u :: v :: rest =>
    if isHigh u && isLow v then
      Char.ofNat (0x10000 + (u - 0xD800) * 0x400 + (v - 0xDC00)) :: ofUnits rest
    else
      ofUnit u :: ofUnits (v :: rest)

/-- Bytes of one unit: NUL is written with two bytes, like the units from `0x80` on. -/
def encodeUnit (u : Nat) : Bytes :=
  if 0 < u ∧ u < 0x80 then
    [UInt8.ofNat u]
  else if u < 0x800 then
    [UInt8.ofNat (0xC0 + u / 0x40), UInt8.ofNat (0x80 + u % 0x40)]
  else
    [UInt8.ofNat (0xE0 + u / 0x1000), UInt8.ofNat (0x80 + u / 0x40 % 0x40),
      UInt8.ofNat (0x80 + u % 0x40)]

/-- The unit of a group of two bytes. -/
def unit₂ (b₀ b₁ : UInt8) : Nat :=
  b₀.toNat % 0x20 * 0x40 + b₁.toNat % 0x40

/-- The unit of a group of three bytes. -/
def unit₃ (b₀ b₁ b₂ : UInt8) : Nat :=
  b₀.toNat % 0x10 * 0x1000 + b₁.toNat % 0x40 * 0x40 + b₂.toNat % 0x40

/-- Bytes that open a group of two. -/
def opensTwo (b : UInt8) : Bool := b.toNat / 0x20 == 0b110

/-- Bytes that open a group of three. -/
def opensThree (b : UInt8) : Bool := b.toNat / 0x10 == 0b1110

/--
Units of a byte sequence. Only the first byte of a group is looked at to find its length; the bytes
after it count with their low six bits.
-/
def decodeUnits : Bytes → List Nat
  | [] => []
  | b₀ :: rest =>
    if b₀.toNat < 0x80 then
      b₀.toNat :: decodeUnits rest
    else
      match rest with
      | [] => [replacement]
      | [b₁] =>
        if opensTwo b₀ then [unit₂ b₀ b₁] else replacement :: decodeUnits [b₁]
      | b₁ :: b₂ :: rest =>
        if opensTwo b₀ then unit₂ b₀ b₁ :: decodeUnits (b₂ :: rest)
        else if opensThree b₀ then unit₃ b₀ b₁ b₂ :: decodeUnits rest
        else replacement :: decodeUnits (b₁ :: b₂ :: rest)

/-- The bytes of a text. -/
def encode (text : String) : Bytes :=
  (text.toList.flatMap units).flatMap encodeUnit

/-- The text of any byte sequence. -/
def decode (bytes : Bytes) : String :=
  String.ofList (ofUnits (decodeUnits bytes))

end ModifiedUtf8

end ClassPatch
