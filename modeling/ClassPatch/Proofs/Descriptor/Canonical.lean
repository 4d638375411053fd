import ClassPatch.Proofs.Descriptor.RoundTrip

/-!
A type has one descriptor: what a type is read from is the text that the type is written as.
-/

namespace ClassPatch

theorem BaseType.letter_of_ofLetter? {c : Char} {t : BaseType} (h : ofLetter? c = some t) :
    t.letter = c := by
  unfold ofLetter? at h
  split at h <;> cases h <;> rfl

theorem BaseType.chars_of_read {text rest : List Char} {t : BaseType}
    (h : read text = .ok (t, rest)) : text = t.chars ++ rest := by
  cases text with
  | nil => cases h
  | cons c text =>
    rw [read] at h
    cases hletter : ofLetter? c with
    | none =>
      rw [hletter] at h
      cases h
    | some found =>
      rw [hletter] at h
      cases h
      rw [chars, letter_of_ofLetter? hletter, List.singleton_append]

namespace BinaryName

theorem text_of_ofString {text : String} {name : BinaryName} (h : ofString text = .ok name) :
    name.text = text := by
  unfold ofString at h
  split at h <;> cases h
  rfl

theorem eq_of_untilSemicolon? {text name rest : List Char}
    (h : untilSemicolon? text = some (name, rest)) : text = name ++ ';' :: rest := by
  fun_induction untilSemicolon? text generalizing name with
  | case1 => cases h
  | case2 tail =>
    cases h
    rfl
  | case3 c tail _ ih =>
    obtain ⟨⟨name', rest'⟩, htail, heq⟩ := Option.map_eq_some_iff.1 h
    cases heq
    rw [ih htail, List.cons_append]

theorem descriptorChars_of_readDescriptor {text rest : List Char} {name : BinaryName}
    (h : readDescriptor text = .ok (name, rest)) : text = name.descriptorChars ++ rest := by
  unfold readDescriptor at h
  split at h
  next text =>
    split at h
    next => cases h
    next found after hfound =>
      split at h
      next => cases h
      next name' hname =>
        cases h
        have htext : name.text.toList = found := by
          rw [text_of_ofString hname, String.toList_ofList]
        rw [eq_of_untilSemicolon? hfound, descriptorChars, htext]
        simp only [List.cons_append, List.append_assoc, List.nil_append]
  next => cases h

end BinaryName

theorem ArrayType.eq_of_dimensions {text rest : List Char} {n : Nat}
    (h : dimensions text = (n, rest)) : text = List.replicate n '[' ++ rest := by
  fun_induction dimensions text generalizing n with
  | case1 tail count after htail ih =>
    cases h
    rw [List.replicate_succ, List.cons_append, ← ih htail]
  | case2 text hne =>
    cases h
    rfl

theorem RefType.chars_of_read {text rest : List Char} {t : RefType}
    (h : read text = .ok (t, rest)) : text = t.chars ++ rest := by
  unfold read at h
  split at h
  next => cases h
  next text =>
    obtain ⟨⟨name, rest'⟩, hname, hpure⟩ := bind_eq_ok.1 h
    cases hpure
    exact BinaryName.descriptorChars_of_readDescriptor hname
  next text =>
    obtain ⟨n, after, hdimensions⟩ : ∃ n after, ArrayType.dimensions text = (n, after) :=
      ⟨_, _, rfl⟩
    have htext := ArrayType.eq_of_dimensions hdimensions
    rw [hdimensions] at h
    dsimp only at h
    split at h
    next =>
      obtain ⟨⟨name, rest'⟩, hname, hpure⟩ := bind_eq_ok.1 h
      cases hpure
      rw [chars, ArrayType.chars, List.replicate_succ, List.cons_append, List.cons_append,
        List.append_assoc, ← BinaryName.descriptorChars_of_readDescriptor hname, ← htext]
    next =>
      obtain ⟨⟨base, rest'⟩, hbase, hpure⟩ := bind_eq_ok.1 h
      cases hpure
      rw [chars, ArrayType.chars, List.replicate_succ, List.cons_append, List.cons_append,
        List.append_assoc, ← BaseType.chars_of_read hbase, ← htext]
  next => cases h

theorem FieldType.chars_of_read {text rest : List Char} {t : FieldType}
    (h : read text = .ok (t, rest)) : text = t.chars ++ rest := by
  unfold read at h
  split at h
  next => cases h
  next c text =>
    split at h
    next base hbase =>
      cases h
      refine BaseType.chars_of_read ?_
      rw [BaseType.read, hbase]
    next =>
      obtain ⟨⟨ref, rest'⟩, href, hpure⟩ := bind_eq_ok.1 h
      cases hpure
      exact RefType.chars_of_read href

namespace MethodDescriptor

theorem eq_of_readParameters {bound : Nat} {text rest : List Char} {ts : List FieldType}
    (h : readParameters bound text = .ok (ts, rest)) :
    text = ts.flatMap FieldType.chars ++ ')' :: rest := by
  fun_induction readParameters bound text generalizing ts rest with
  | case1 => cases h
  | case2 bound tail =>
    cases h
    rfl
  | case3 bound text _ ih =>
    obtain ⟨⟨t, after⟩, ht, h⟩ := bind_eq_ok.1 h
    obtain ⟨⟨ts', rest'⟩, hts, h⟩ := bind_eq_ok.1 h
    cases h
    rw [FieldType.chars_of_read ht, ih _ hts, List.flatMap_cons, List.append_assoc]

theorem returnChars_of_readReturn {text rest : List Char} {t : Option FieldType}
    (h : readReturn text = .ok (t, rest)) : text = returnChars t ++ rest := by
  unfold readReturn at h
  split at h
  next =>
    cases h
    rfl
  next =>
    obtain ⟨⟨t', rest'⟩, ht, h⟩ := bind_eq_ok.1 h
    cases h
    exact FieldType.chars_of_read ht

theorem chars_of_read {text rest : List Char} {d : MethodDescriptor}
    (h : read text = .ok (d, rest)) : text = d.chars ++ rest := by
  unfold read at h
  split at h
  next text =>
    obtain ⟨⟨parameters, after⟩, hparameters, h⟩ := bind_eq_ok.1 h
    obtain ⟨⟨returnType, rest'⟩, hreturn, h⟩ := bind_eq_ok.1 h
    cases h
    rw [eq_of_readParameters hparameters, returnChars_of_readReturn hreturn, chars]
    simp only [List.cons_append, List.append_assoc]
  next => cases h

end MethodDescriptor

theorem DescriptorReader.read_of_parse {α : Type} {read : DescriptorReader α} {text : String}
    {a : α} (h : parse read text = .ok a) : read text.toList = .ok (a, []) := by
  unfold parse at h
  obtain ⟨⟨value, rest⟩, hread, hrest⟩ := bind_eq_ok.1 h
  cases rest with
  | nil =>
    cases hrest
    exact hread
  | cons c rest => cases hrest

theorem FieldType.render_of_parse {text : String} {t : FieldType} (h : parse text = .ok t) :
    t.render = text := by
  have hchars := chars_of_read (DescriptorReader.read_of_parse h)
  rw [List.append_nil] at hchars
  rw [render, ← hchars, String.ofList_toList]

section Parse

/-! The text that a name or descriptor was read from is the one that a constant holds for it. -/

variable {text : String}

theorem text_of_parseBinaryName {name : BinaryName} (h : parseBinaryName text = .ok name) :
    name.text = text :=
  BinaryName.text_of_ofString (eq_ok_of_mapError h)

theorem text_of_parseUnqualifiedName {name : UnqualifiedName}
    (h : parseUnqualifiedName text = .ok name) : name.text = text := by
  have hname := eq_ok_of_mapError h
  unfold UnqualifiedName.ofString at hname
  split at hname <;> cases hname
  rfl

theorem render_of_parseFieldType {t : FieldType} (h : parseFieldType text = .ok t) :
    t.render = text :=
  FieldType.render_of_parse (eq_ok_of_mapError h)

theorem render_of_parseMethodDescriptor {d : MethodDescriptor}
    (h : parseMethodDescriptor text = .ok d) : d.render = text := by
  have hchars := MethodDescriptor.chars_of_read
    (DescriptorReader.read_of_parse (eq_ok_of_mapError h))
  rw [List.append_nil] at hchars
  rw [MethodDescriptor.render, ← hchars, String.ofList_toList]

theorem constantName_of_parseRefType {t : RefType} (h : parseRefType text = .ok t) :
    t.constantName = text := by
  unfold parseRefType at h
  split at h
  next hbracket =>
    have hchars := RefType.chars_of_read (DescriptorReader.read_of_parse (eq_ok_of_mapError h))
    rw [List.append_nil] at hchars
    have hrender : t.render = text := by
      rw [RefType.render, ← hchars, String.ofList_toList]
    cases t with
    | object name =>
      rw [hchars] at hbracket
      cases hbracket
    | objectArray | primitiveArray => exact hrender
  next =>
    rw [map_eq_pure_bind] at h
    obtain ⟨name, hname, h⟩ := bind_eq_ok.1 h
    obtain rfl := pure_eq_ok.1 h
    exact text_of_parseBinaryName hname

end Parse

end ClassPatch
