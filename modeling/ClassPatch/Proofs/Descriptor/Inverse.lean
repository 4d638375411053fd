import ClassPatch.Proofs.Descriptor.Canonical

/-!
Types and their descriptors correspond to each other. A reader takes from the front of a text what
is written for a value, and nothing else, so parsing and rendering are inverse to each other.
-/

namespace ClassPatch

section Correspondence

variable {α : Type} {read : DescriptorReader α} {chars : α → List Char}

/-- A value is read from a text exactly if the text starts with what is written for the value. -/
def DescriptorReader.Inverts (read : DescriptorReader α) (chars : α → List Char) : Prop :=
  ∀ text a rest, read text = .ok (a, rest) ↔ text = chars a ++ rest

/-- Parsing and rendering are inverse: each value has one text, and no other text is accepted. -/
structure Inverse (parse : String → Except DescriptorError α) (render : α → String) : Prop where
  /-- What is rendered is parsed as the value that it was rendered from. -/
  parse_render : ∀ a, parse (render a) = .ok a
  /-- What is parsed is rendered as the text that it was parsed from. -/
  render_of_parse : ∀ text a, parse text = .ok a → render a = text
  /-- The texts that are accepted are those that are rendered. -/
  accepts_iff : ∀ text, (∃ a, parse text = .ok a) ↔ ∃ a, render a = text
  /-- No two texts stand for one value. -/
  text_unique : ∀ text text' a, parse text = .ok a → parse text' = .ok a → text = text'

theorem DescriptorReader.Inverts.of_read
    (hread : ∀ a rest, read (chars a ++ rest) = .ok (a, rest))
    (hchars : ∀ {text a rest}, read text = .ok (a, rest) → text = chars a ++ rest) :
    Inverts read chars := by
  intro text a rest
  constructor
  · exact hchars
  · rintro rfl
    exact hread a rest

theorem DescriptorReader.Inverts.parse_eq_ok_iff (h : Inverts read chars) {text : String} {a : α} :
    parse read text = .ok a ↔ String.ofList (chars a) = text := by
  constructor
  · intro hparse
    have hchars := (h _ _ _).1 (read_of_parse hparse)
    rw [List.append_nil] at hchars
    rw [← hchars, String.ofList_toList]
  · rintro rfl
    exact parse_of_read ((h _ _ _).2 (List.append_nil _).symm)

theorem inverse_of_iff {parse : String → Except DescriptorError α} {render : α → String}
    (h : ∀ text a, parse text = .ok a ↔ render a = text) : Inverse parse render where
  parse_render a := (h _ a).2 rfl
  render_of_parse text a := (h text a).1
  accepts_iff text := exists_congr (h text)
  text_unique text text' a hparse hparse' := ((h text a).1 hparse).symm.trans ((h text' a).1 hparse')

end Correspondence

theorem RefType.inverts : DescriptorReader.Inverts read chars :=
  .of_read read_chars chars_of_read

theorem FieldType.inverts : DescriptorReader.Inverts read chars :=
  .of_read read_chars chars_of_read

theorem MethodDescriptor.inverts : DescriptorReader.Inverts read chars :=
  .of_read read_chars chars_of_read

/--
The descriptors of field types, reference types and methods are parsed as what they are rendered
from, for arrays of any depth and any number of parameters, and nothing else is accepted.
-/
theorem descriptors_inverse :
    Inverse FieldType.parse FieldType.render
      ∧ Inverse RefType.parse RefType.render
      ∧ Inverse MethodDescriptor.parse MethodDescriptor.render :=
  ⟨inverse_of_iff fun _ _ => FieldType.inverts.parse_eq_ok_iff,
    inverse_of_iff fun _ _ => RefType.inverts.parse_eq_ok_iff,
    inverse_of_iff fun _ _ => MethodDescriptor.inverts.parse_eq_ok_iff⟩

end ClassPatch
