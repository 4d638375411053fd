import ClassPatch.Proofs.Descriptor.RoundTrip
import ClassPatch.Proofs.Signature.Reads
import ClassPatch.Rename.Class

/-!
Descriptors as signatures. A descriptor is the text of a signature without type variables and type
arguments, unless it is that of a primitive type, which is no signature. So a text is renamed to the
same text as either of them.
-/

namespace ClassPatch

/-- No character of the name has a meaning in signatures alone. -/
def BinaryName.MarkFree (name : BinaryName) : Prop :=
  ∀ c ∈ name.text.toList, c ≠ '<' ∧ c ≠ '>' ∧ c ≠ ':'

instance : DecidablePred BinaryName.MarkFree := fun name =>
  List.decidableBAll (fun c => c ≠ '<' ∧ c ≠ '>' ∧ c ≠ ':') name.text.toList

theorem BinaryName.MarkFree.isName {name : BinaryName} (h : name.MarkFree) :
    IsName SignatureReader.endsName name.text := by
  refine ⟨name.text_ne_nil, ?_⟩
  intro c hc
  obtain ⟨hopen, hclose, hcolon⟩ := h c hc
  cases hends : SignatureReader.endsName c with
  | false => rfl
  | true =>
    simp only [SignatureReader.endsName, Bool.or_eq_true, beq_iff_eq] at hends
    have hsep : isNameSeparator c = true := by
      simp only [isNameSeparator, Bool.or_eq_true, beq_iff_eq]
      simp only [hopen, hclose, hcolon, or_false] at hends
      exact .inl hends
    have hslash := name.isNameSeparator_imp_slash hc hsep
    rw [hslash] at hends
    revert hends
    decide

section Trees

/-- The array with more dimensions, as many as given. -/
def ReferenceSignature.nested (t : ReferenceSignature) : Nat → ReferenceSignature
  | 0 => t
  | n + 1 => .array (t.nested n)

def BinaryName.signature (name : BinaryName) : ReferenceSignature := .classType name.text .done

def RefType.signature : RefType → ReferenceSignature
  | .object name => name.signature
  | .objectArray a => a.elementType.signature.nested (a.additionalDimensions + 1)
  | .primitiveArray a =>
    (ReferenceSignature.simpleArray (.base a.elementType)).nested a.additionalDimensions

def FieldType.signature : FieldType → TypeSignature
  | .base t => .simple (.base t)
  | .ref t => .reference t.signature

def MethodDescriptor.signature (d : MethodDescriptor) : Signature where
  typeParameters := none
  body := .method (d.parameters.map FieldType.signature)
    (d.returnType.elim (.simple .void) FieldType.signature) []

end Trees

section Texts

theorem ReferenceSignature.chars_nested (t : ReferenceSignature) (n : Nat) :
    (t.nested n).chars = List.replicate n '[' ++ t.chars := by
  induction n with
  | zero => rfl
  | succ n ih => rw [nested, chars, ih, List.replicate_succ, List.cons_append]

theorem BinaryName.chars_signature (name : BinaryName) :
    name.signature.chars = name.descriptorChars := by
  rw [signature, ReferenceSignature.chars, ClassSuffixes.chars, descriptorChars]

theorem RefType.chars_signature (t : RefType) : t.signature.chars = t.chars := by
  cases t with
  | object name => exact name.chars_signature
  | objectArray a =>
    rw [signature, ReferenceSignature.chars_nested, BinaryName.chars_signature, chars,
      ArrayType.chars]
  | primitiveArray a =>
    rw [signature, ReferenceSignature.chars_nested, chars, ArrayType.chars, List.replicate_succ',
      List.append_assoc]
    rfl

theorem FieldType.chars_signature (t : FieldType) : t.signature.chars = t.chars := by
  cases t with
  | base t => rfl
  | ref t => exact t.chars_signature

theorem MethodDescriptor.render_signature (d : MethodDescriptor) : d.signature.render = d.render := by
  have hresult : (d.returnType.elim (.simple .void) FieldType.signature).chars
      = returnChars d.returnType := by
    cases d.returnType with
    | none => rfl
    | some t => exact t.chars_signature
  rw [Signature.render, render, Signature.chars, signature, chars, SignatureBody.chars, hresult,
    List.flatMap_map, funext FieldType.chars_signature]
  simp

end Texts

section Renaming

variable (r : Renaming)

theorem ReferenceSignature.rename_nested (t : ReferenceSignature) (n : Nat) :
    (t.nested n).rename r = (t.rename r).nested n := by
  induction n with
  | zero => rfl
  | succ n ih => rw [nested, rename, ih, nested]

theorem BinaryName.signature_apply (name : BinaryName) :
    (r.apply name).signature = name.signature.rename r := by
  rw [signature, signature, r.text_apply, ReferenceSignature.rename, ClassSuffixes.rename]

theorem RefType.signature_rename (t : RefType) : (t.rename r).signature = t.signature.rename r := by
  cases t with
  | object name => exact name.signature_apply r
  | objectArray a =>
    rw [signature, ReferenceSignature.rename_nested, ← BinaryName.signature_apply]
    rfl
  | primitiveArray a =>
    rw [signature, ReferenceSignature.rename_nested]
    rfl

theorem FieldType.signature_rename (t : FieldType) :
    (t.rename r).signature = t.signature.rename r := by
  cases t with
  | base t => rfl
  | ref t => exact congrArg TypeSignature.reference (t.signature_rename r)

theorem MethodDescriptor.signature_rename (d : MethodDescriptor) :
    (d.rename r).signature = d.signature.rename r := by
  have htype : FieldType.signature ∘ FieldType.map r.apply = TypeSignature.rename r ∘ FieldType.signature :=
    funext fun t => t.signature_rename r
  have hresult : (d.returnType.map (FieldType.map r.apply)).elim (.simple .void) FieldType.signature
      = (d.returnType.elim (.simple .void) FieldType.signature).rename r := by
    cases d.returnType with
    | none => rfl
    | some t => exact t.signature_rename r
  rw [signature, signature, Signature.rename, SignatureBody.rename, rename, map]
  dsimp only
  rw [hresult, List.map_map, List.map_map, htype]
  rfl

end Renaming

section WellFormed

theorem ReferenceSignature.WellFormed.nested {t : ReferenceSignature} (h : t.WellFormed) (n : Nat) :
    (t.nested n).WellFormed := by
  induction n with
  | zero => exact h
  | succ n ih => exact ih

theorem RefType.wellFormed_signature {t : RefType} (h : ∀ name ∈ t.className?, name.MarkFree) :
    t.signature.WellFormed := by
  have hname {name : BinaryName} (hname : name.MarkFree) : name.signature.WellFormed :=
    ⟨hname.isName, trivial⟩
  cases t with
  | object name => exact hname (h name rfl)
  | objectArray a => exact (hname (h a.elementType rfl)).nested _
  | primitiveArray a => exact ReferenceSignature.WellFormed.nested (t := .simpleArray _) trivial _

theorem FieldType.wellFormed_signature {t : FieldType} (h : ∀ name ∈ t.className?, name.MarkFree) :
    t.signature.WellFormed := by
  cases t with
  | base t => trivial
  | ref t => exact RefType.wellFormed_signature h

theorem MethodDescriptor.wellFormed_signature {d : MethodDescriptor}
    (h : ∀ name ∈ d.classNames, name.MarkFree) : d.signature.WellFormed := by
  rw [classNames, List.forall_mem_append] at h
  obtain ⟨hparameters, hresult⟩ := h
  refine ⟨fun _ hps => absurd hps (Option.not_mem_none _), ?_, ?_, fun _ ht => absurd ht List.not_mem_nil⟩
  · rw [List.forall_mem_map]
    intro t ht
    refine FieldType.wellFormed_signature fun name hname => hparameters name ?_
    exact List.mem_filterMap.2 ⟨t, ht, hname⟩
  · cases hreturn : d.returnType with
    | none => trivial
    | some t =>
      refine FieldType.wellFormed_signature fun name hname => hresult name ?_
      rw [hreturn]
      exact Option.mem_toList.2 hname

end WellFormed

namespace SignatureText

theorem scan_render_base (t : BaseType) : (scan t.render).1 = none := by
  cases t <;> rfl

theorem rename_render_fieldType (r : Renaming) {t : FieldType}
    (h : ∀ name ∈ t.className?, name.MarkFree) : rename r t.render = (t.rename r).render := by
  cases t with
  | base t =>
    have hscan : (scan (FieldType.base t).render).1 = none := scan_render_base t
    rw [rename, hscan]
    rfl
  | ref t =>
    have htext (t : RefType) : (⟨none, .types [t.signature]⟩ : Signature).render = t.render := by
      rw [Signature.render, RefType.render, ← t.chars_signature]
      simp [Signature.chars, SignatureBody.chars]
    have hwf : (⟨none, .types [t.signature]⟩ : Signature).WellFormed :=
      ⟨fun _ hps => absurd hps (Option.not_mem_none _), List.cons_ne_nil _ _,
        List.forall_mem_singleton.2 (RefType.wellFormed_signature h)⟩
    have hscan : (scan (FieldType.ref t).render).1 = some ⟨none, .types [t.signature]⟩ := by
      rw [show (FieldType.ref t).render = t.render from rfl, ← htext, scan_render hwf]
    rw [rename, hscan]
    refine Eq.trans ?_ (htext (t.rename r))
    rw [t.signature_rename r]
    rfl

theorem rename_render_methodDescriptor (r : Renaming) {d : MethodDescriptor}
    (h : ∀ name ∈ d.classNames, name.MarkFree) : rename r d.render = (d.rename r).render := by
  have hscan : (scan d.render).1 = some d.signature := by
    rw [← d.render_signature, scan_render (MethodDescriptor.wellFormed_signature h)]
  rw [rename, hscan, ← (d.rename r).render_signature, d.signature_rename r]

/--
The text of a descriptor is renamed as a signature to what it is renamed to as a descriptor. So a
member whose signature is its descriptor keeps it so, whatever the renaming is.
-/
theorem rename_render_descriptor (r : Renaming) :
    (∀ t : FieldType, (∀ name ∈ t.className?, name.MarkFree) →
        rename r t.render = (t.rename r).render)
      ∧ (∀ d : MethodDescriptor, (∀ name ∈ d.classNames, name.MarkFree) →
        rename r d.render = (d.rename r).render)
      ∧ (∀ f : Field, (∀ name ∈ f.descriptor.className?, name.MarkFree) →
        f.signature = some f.descriptor.render →
        (f.rename r).signature = some (f.rename r).descriptor.render)
      ∧ (∀ m : Method, (∀ name ∈ m.descriptor.classNames, name.MarkFree) →
        m.signature = some m.descriptor.render →
        (m.rename r).signature = some (m.rename r).descriptor.render) := by
  refine ⟨fun t => rename_render_fieldType r, fun d => rename_render_methodDescriptor r, ?_, ?_⟩
  · intro f hnames hsignature
    rw [Field.rename, hsignature, Option.map_some, rename_render_fieldType r hnames]
  · intro m hnames hsignature
    rw [Method.rename, hsignature, Option.map_some, rename_render_methodDescriptor r hnames]

theorem rename_render_descriptor_array :
    let r : Renaming := .single "p/B" ⟨"q/C$D", by decide +kernel⟩
    let array : FieldType := .ref (.objectArray ⟨1, ⟨"p/B", by decide +kernel⟩⟩)
    let arrays : MethodDescriptor :=
      ⟨[.base .long, array, .ref (.primitiveArray ⟨0, .int⟩)], some array⟩
    let field : Field :=
      ⟨.truncate .field 0, ⟨"f", isName_f⟩, array, some array.render, none, {}, []⟩
    let method : Method :=
      ⟨.truncate .method 0, ⟨"m", isName_m⟩, arrays, some arrays.render, [], {}, {}, none,
        none, []⟩
    (∀ name ∈ array.className?, name.MarkFree) ∧ (∀ name ∈ arrays.classNames, name.MarkFree)
      ∧ rename r "J" = "J" ∧ rename r "[[Lp/B;" = "[[Lq/C$D;"
      ∧ rename r "(J[[Lp/B;[I)[[Lp/B;" = "(J[[Lq/C$D;[I)[[Lq/C$D;"
      ∧ (field.rename r).signature = some "[[Lq/C$D;"
      ∧ (method.rename r).signature = some "(J[[Lq/C$D;[I)[[Lq/C$D;" := by
  intro r array arrays field method
  have harray : ∀ name ∈ array.className?, name.MarkFree := by
    decide +kernel
  have harrays : ∀ name ∈ arrays.classNames, name.MarkFree := by
    decide +kernel
  obtain ⟨htype, hdescriptor, hfield, hmethod⟩ := rename_render_descriptor r
  have htexts : (array.rename r).render = "[[Lq/C$D;"
      ∧ (arrays.rename r).render = "(J[[Lq/C$D;[I)[[Lq/C$D;" := by
    decide +kernel
  refine ⟨harray, harrays, htype (.base .long) (by decide), ?_, ?_, ?_, ?_⟩
  · exact (htype array harray).trans htexts.1
  · exact (hdescriptor arrays harrays).trans htexts.2
  · exact (hfield field harray rfl).trans (congrArg some htexts.1)
  · exact (hmethod method harrays rfl).trans (congrArg some htexts.2)

end SignatureText

end ClassPatch
