import ClassPatch.Descriptor.Parser
import ClassPatch.Lift.Resolver
import ClassPatch.Proofs.Run

/-!
Reading descriptors and names that were written. Names hold no separators, so each type is read back
from its descriptor, whatever follows it.
-/

namespace ClassPatch

theorem isName_A : BinaryName.fault? "A" = none := by decide

theorem isName_B : BinaryName.fault? "B" = none := by decide

theorem isName_f : UnqualifiedName.fault? "f" = none := by decide

theorem isName_m : UnqualifiedName.fault? "m" = none := by decide

theorem UnqualifiedName.ofString_text (name : UnqualifiedName) : ofString name.text = .ok name := by
  unfold ofString
  split
  next fault h =>
    rw [name.valid] at h
    cases h
  next h => rfl

theorem UnqualifiedName.not_isNameSeparator (name : UnqualifiedName) :
    ∀ c ∈ name.text.toList, isNameSeparator c = false := by
  have h := name.valid
  unfold fault? at h
  split at h
  · cases h
  · next hany =>
    intro c hc
    rw [Bool.not_eq_true, List.any_eq_false] at hany
    exact Bool.eq_false_iff.2 (hany c hc)

theorem mem_separator_or_part {α : Type} {separator : List α} {parts : List (List α)} {a : α}
    (h : a ∈ separator.intercalate parts) : a ∈ separator ∨ ∃ part ∈ parts, a ∈ part := by
  induction parts with
  | nil => cases h
  | cons part parts ih =>
    cases parts with
    | nil =>
      rw [List.intercalate_singleton] at h
      exact .inr ⟨part, List.mem_cons_self, h⟩
    | cons next parts =>
      rw [List.intercalate_cons_cons, List.mem_append, List.mem_append] at h
      rcases h with (h | h) | h
      · exact .inr ⟨part, List.mem_cons_self, h⟩
      · exact .inl h
      · rcases ih h with h | ⟨part', hpart', h⟩
        · exact .inl h
        · exact .inr ⟨part', List.mem_cons_of_mem _ hpart', h⟩

namespace BinaryName

theorem ofString_text (name : BinaryName) : ofString name.text = .ok name := by
  unfold ofString
  split
  next fault h =>
    rw [name.valid] at h
    cases h
  next h => rfl

/-- Segments that are not empty and hold no separators make a name. -/
theorem fault?_eq_none {text : String} {cs : List Char} (htext : text.toList = cs)
    (h : ∀ segment ∈ cs.splitOn '/', segment ≠ [] ∧ segment.any isNameSeparator = false) :
    fault? text = none := by
  subst htext
  have hne : text.toList.isEmpty = false := by
    cases htext : text.toList with
    | nil =>
      rw [htext] at h
      exact absurd rfl (h [] List.mem_cons_self).1
    | cons c cs => rfl
  unfold fault?
  rw [hne, if_neg Bool.false_ne_true, List.findSome?_eq_none_iff]
  intro segment hsegment
  obtain ⟨hnonempty, hany⟩ := h segment hsegment
  unfold UnqualifiedName.fault?
  rw [String.toList_ofList, hany, if_neg Bool.false_ne_true, List.isEmpty_eq_false_iff.2 hnonempty,
    if_neg Bool.false_ne_true]

theorem text_ne_nil (name : BinaryName) : name.text.toList ≠ [] := by
  intro hnil
  have h := name.valid
  unfold fault? at h
  rw [hnil] at h
  cases h

theorem isNameSeparator_imp_slash (name : BinaryName) {c : Char} (hc : c ∈ name.text.toList)
    (hsep : isNameSeparator c = true) : c = '/' := by
  have hvalid := name.valid
  unfold fault? at hvalid
  rw [if_neg (by simpa using name.text_ne_nil), List.findSome?_eq_none_iff] at hvalid
  have hsplit : ['/'].intercalate (name.text.toList.splitOn '/') = name.text.toList :=
    List.intercalate_splitOn '/'
  rw [← hsplit] at hc
  rcases mem_separator_or_part hc with h | ⟨part, hpart, h⟩
  · exact List.mem_singleton.1 h
  · have hname := UnqualifiedName.not_isNameSeparator ⟨_, hvalid part hpart⟩ c
    rw [String.toList_ofList, hsep] at hname
    cases hname h

theorem semicolon_not_mem (name : BinaryName) : ';' ∉ name.text.toList := by
  intro h
  have := name.isNameSeparator_imp_slash h (by decide)
  contradiction

theorem head?_ne_bracket (name : BinaryName) : name.text.toList.head? ≠ some '[' := by
  intro h
  have := name.isNameSeparator_imp_slash (List.mem_of_mem_head? h) (by decide)
  contradiction

theorem untilSemicolon?_append {name : List Char} (h : ';' ∉ name) (rest : List Char) :
    untilSemicolon? (name ++ ';' :: rest) = some (name, rest) := by
  induction name with
  | nil => rfl
  | cons c name ih =>
    have hc : c ≠ ';' := fun heq => h (heq ▸ List.mem_cons_self)
    have hname := ih fun hmem => h (List.mem_cons_of_mem _ hmem)
    rw [List.cons_append, untilSemicolon?]
    · rw [hname]
      rfl
    · exact hc

theorem readDescriptor_descriptorChars (name : BinaryName) (rest : List Char) :
    readDescriptor (name.descriptorChars ++ rest) = .ok (name, rest) := by
  have h : name.descriptorChars ++ rest = 'L' :: (name.text.toList ++ ';' :: rest) := by
    simp [descriptorChars]
  rw [h]
  unfold readDescriptor
  simp only [untilSemicolon?_append name.semicolon_not_mem, String.ofList_toList, ofString_text]

end BinaryName

theorem BaseType.read_chars (t : BaseType) (rest : List Char) :
    read (t.chars ++ rest) = .ok (t, rest) := by
  unfold chars read
  simp only [List.singleton_append, ofLetter?_letter]

theorem BaseType.letter_ne (t : BaseType) : t.letter ≠ 'L' ∧ t.letter ≠ '[' ∧ t.letter ≠ ')'
    ∧ t.letter ≠ 'V' := by
  cases t <;> decide

theorem ArrayType.dimensions_replicate (n : Nat) {rest : List Char} (h : rest.head? ≠ some '[') :
    dimensions (List.replicate n '[' ++ rest) = (n, rest) := by
  induction n with
  | zero =>
    rw [List.replicate_zero, List.nil_append]
    unfold dimensions
    split
    · exact absurd rfl h
    · rfl
  | succ n ih =>
    rw [List.replicate_succ, List.cons_append, dimensions, ih]

namespace RefType

theorem read_chars (t : RefType) (rest : List Char) : read (t.chars ++ rest) = .ok (t, rest) := by
  cases t with
  | object name =>
    have h := name.readDescriptor_descriptorChars rest
    exact bind_of_eq_ok h _
  | objectArray a =>
    have h := a.elementType.readDescriptor_descriptorChars rest
    have hhead : (a.elementType.descriptorChars ++ rest).head? ≠ some '[' := by
      simp [BinaryName.descriptorChars]
    have hdims := ArrayType.dimensions_replicate a.additionalDimensions hhead
    simp only [chars, ArrayType.chars, List.replicate_succ, List.cons_append, List.append_assoc,
      read, hdims]
    exact bind_of_eq_ok h _
  | primitiveArray a =>
    have h := a.elementType.read_chars rest
    have hletter := a.elementType.letter_ne
    have hhead : (a.elementType.chars ++ rest).head? ≠ some '[' := by
      simpa [BaseType.chars] using hletter.2.1
    have hdims := ArrayType.dimensions_replicate a.additionalDimensions hhead
    simp only [chars, ArrayType.chars, List.replicate_succ, List.cons_append, List.append_assoc,
      read, hdims]
    rw [if_neg (by simpa [BaseType.chars] using hletter.1)]
    exact bind_of_eq_ok h _

theorem head?_chars (t : RefType) : t.chars.head? = some 'L' ∨ t.chars.head? = some '[' := by
  cases t with
  | object name => exact .inl rfl
  | objectArray a => exact .inr rfl
  | primitiveArray a => exact .inr rfl

end RefType

namespace FieldType

theorem read_chars (t : FieldType) (rest : List Char) :
    read (t.chars ++ rest) = .ok (t, rest) := by
  cases t with
  | base t =>
    simp only [chars, BaseType.chars, List.singleton_append, read, BaseType.ofLetter?_letter]
  | ref t =>
    have h := t.read_chars rest
    simp only [chars]
    cases hchars : t.chars with
    | nil =>
      have hhead := t.head?_chars
      rw [hchars] at hhead
      rcases hhead with hhead | hhead <;> cases hhead
    | cons c cs =>
      have hletter : BaseType.ofLetter? c = none := by
        have hhead := t.head?_chars
        rw [hchars] at hhead
        rcases hhead with hhead | hhead <;> cases hhead <;> rfl
      rw [hchars] at h
      simp only [List.cons_append, read, hletter]
      exact bind_of_eq_ok h _

theorem chars_ne (t : FieldType) : t.chars ≠ [] ∧ t.chars.head? ≠ some ')' ∧
    t.chars.head? ≠ some 'V' := by
  cases t with
  | base t => cases t <;> decide
  | ref t =>
    have h := t.head?_chars
    simp only [chars]
    refine ⟨?_, ?_, ?_⟩
    · intro hnil
      rw [hnil] at h
      rcases h with h | h <;> cases h
    · rcases h with h | h <;> rw [h] <;> decide
    · rcases h with h | h <;> rw [h] <;> decide

end FieldType

namespace MethodDescriptor

theorem readParameters_chars (ts : List FieldType) (rest : List Char) (bound : Nat)
    (h : ts.length < bound) :
    readParameters bound (ts.flatMap FieldType.chars ++ ')' :: rest) = .ok (ts, rest) := by
  induction ts generalizing bound with
  | nil =>
    obtain ⟨bound, rfl⟩ := Nat.exists_eq_succ_of_ne_zero (Nat.ne_of_gt h)
    rfl
  | cons t ts ih =>
    obtain ⟨bound, rfl⟩ := Nat.exists_eq_succ_of_ne_zero (Nat.ne_of_gt (Nat.zero_lt_of_lt h))
    have hread := t.read_chars (ts.flatMap FieldType.chars ++ ')' :: rest)
    have htail := ih bound (by simpa using h)
    obtain ⟨hnil, hparen, -⟩ := t.chars_ne
    rw [List.flatMap_cons, List.append_assoc, readParameters]
    · refine (bind_of_eq_ok hread _).trans ?_
      exact bind_of_eq_ok htail _
    · intro rest' heq
      rw [List.append_eq_cons_iff] at heq
      rcases heq with ⟨heq, -⟩ | ⟨chars, heq, -⟩
      · exact hnil heq
      · exact hparen (by rw [heq]; rfl)

theorem readReturn_returnChars (t : Option FieldType) (rest : List Char) :
    readReturn (returnChars t ++ rest) = .ok (t, rest) := by
  cases t with
  | none => rfl
  | some t =>
    have hread := t.read_chars rest
    obtain ⟨hnil, -, hvoid⟩ := t.chars_ne
    rw [returnChars, readReturn]
    · exact bind_of_eq_ok hread _
    · intro rest' heq
      rw [List.append_eq_cons_iff] at heq
      rcases heq with ⟨heq, -⟩ | ⟨chars, heq, -⟩
      · exact hnil heq
      · exact hvoid (by rw [heq]; rfl)

theorem length_le_length_flatMap (ts : List FieldType) :
    ts.length ≤ (ts.flatMap FieldType.chars).length := by
  induction ts with
  | nil => exact Nat.le_refl _
  | cons t ts ih =>
    have := List.length_pos_iff.2 t.chars_ne.1
    rw [List.flatMap_cons, List.length_append, List.length_cons]
    omega

theorem read_chars (d : MethodDescriptor) (rest : List Char) :
    read (d.chars ++ rest) = .ok (d, rest) := by
  have hlength := length_le_length_flatMap d.parameters
  have hparameters := readParameters_chars d.parameters (returnChars d.returnType ++ rest)
    ((d.parameters.flatMap FieldType.chars ++ ')' :: (returnChars d.returnType ++ rest)).length + 1)
    (by rw [List.length_append]; omega)
  have hreturn := readReturn_returnChars d.returnType rest
  unfold chars
  rw [List.append_assoc, List.cons_append, List.cons_append, read]
  refine (bind_of_eq_ok hparameters _).trans ?_
  exact bind_of_eq_ok hreturn _

end MethodDescriptor

theorem DescriptorReader.parse_of_read {α : Type} {read : DescriptorReader α} {chars : List Char}
    {a : α} (h : read chars = .ok (a, [])) : parse read (String.ofList chars) = .ok a := by
  unfold parse
  rw [String.toList_ofList]
  exact bind_of_eq_ok h _

section Parse

/-! A name or descriptor is read back from the text that a constant holds for it. -/

theorem parseBinaryName_text (name : BinaryName) : parseBinaryName name.text = .ok name := by
  unfold parseBinaryName
  rw [name.ofString_text]
  rfl

theorem parseUnqualifiedName_text (name : UnqualifiedName) :
    parseUnqualifiedName name.text = .ok name := by
  unfold parseUnqualifiedName
  rw [name.ofString_text]
  rfl

theorem parseFieldType_render (t : FieldType) : parseFieldType t.render = .ok t := by
  have hread := t.read_chars []
  rw [List.append_nil] at hread
  unfold parseFieldType FieldType.parse FieldType.render
  rw [DescriptorReader.parse_of_read hread]
  rfl

theorem parseMethodDescriptor_render (d : MethodDescriptor) :
    parseMethodDescriptor d.render = .ok d := by
  have hread := d.read_chars []
  rw [List.append_nil] at hread
  unfold parseMethodDescriptor MethodDescriptor.parse MethodDescriptor.render
  rw [DescriptorReader.parse_of_read hread]
  rfl

theorem parseRefType_array {t : RefType} (hhead : t.chars.head? = some '[') :
    parseRefType t.render = .ok t := by
  have hread := t.read_chars []
  rw [List.append_nil] at hread
  unfold parseRefType RefType.parse RefType.render
  rw [String.toList_ofList, if_pos hhead, DescriptorReader.parse_of_read hread]
  rfl

theorem parseRefType_constantName (t : RefType) : parseRefType t.constantName = .ok t := by
  cases t with
  | object name =>
    unfold parseRefType RefType.constantName
    rw [if_neg name.head?_ne_bracket, parseBinaryName_text]
    rfl
  | objectArray a => exact parseRefType_array rfl
  | primitiveArray a => exact parseRefType_array rfl

end Parse

end ClassPatch
