import ClassPatch.Proofs.Signature.Descriptor
import ClassPatch.Proofs.Signature.Members

/-!
What becomes of names when one class is renamed: the name of the class becomes the new one, and so
does the part before the `$` in the name of a member. All other names stay.
-/

namespace ClassPatch

/-- What a name can become when the class `source` becomes `target`. -/
inductive NameMoved (source target : String) : String → String → Prop where
  | renamed : NameMoved source target source target
  | kept (name : String) (h : name ≠ source) : NameMoved source target name name
  | member (inner : String) :
    NameMoved source target (innerClassName source inner) (innerClassName target inner)

/-- Names, each with what it becomes. -/
abbrev NamesMoved (source target : BinaryName) : List String → List String → Prop :=
  List.Forall₂ (NameMoved source.text target.text)

theorem dollar_mem_innerClassName (outer inner : String) :
    '$' ∈ (innerClassName outer inner).toList := by
  simp [innerClassName]

theorem innerClassName_innerClassName (outer name inner : String) :
    innerClassName (innerClassName outer name) inner
      = innerClassName outer (innerClassName name inner) := by
  simp only [innerClassName, String.append_assoc]

section Lists

variable {source target : BinaryName} {α : Type}

theorem NamesMoved.flatMap {as : List α} {names : α → List String} {f : α → α}
    (h : ∀ a ∈ as, NamesMoved source target (names a) (names (f a))) :
    NamesMoved source target (as.flatMap names) ((as.map f).flatMap names) := by
  induction as with
  | nil => exact .nil
  | cons a as ih =>
    rw [List.forall_mem_cons] at h
    rw [List.map_cons, List.flatMap_cons, List.flatMap_cons]
    exact List.rel_append h.1 (ih h.2)

theorem NamesMoved.elim {a : Option α} {names : α → List String} {f : α → α}
    (h : ∀ x ∈ a, NamesMoved source target (names x) (names (f x))) :
    NamesMoved source target (a.elim [] names) ((a.map f).elim [] names) := by
  cases a with
  | none => exact .nil
  | some x => exact h x rfl

end Lists

section Single

variable {source target : BinaryName}

theorem innerClassName_ne (hsource : '$' ∉ source.text.toList) (outer inner : String) :
    innerClassName outer inner ≠ source.text := by
  intro heq
  exact hsource (heq ▸ dollar_mem_innerClassName outer inner)

theorem NameMoved.applyText (name : String) :
    NameMoved source.text target.text name
      ((Renaming.single source.text target).applyText name) := by
  unfold Renaming.applyText Renaming.single
  split
  next heq =>
    rw [heq]
    exact .renamed
  next hne => exact .kept name hne

theorem NameMoved.apply (name : BinaryName) :
    NameMoved source.text target.text name.text
      ((Renaming.single source.text target).apply name).text := by
  unfold Renaming.apply Renaming.single
  split
  next heq =>
    rw [heq]
    exact .renamed
  next hne => exact .kept name.text hne

theorem NameMoved.inner (hsource : '$' ∉ source.text.toList) {outer outer' : String}
    (h : NameMoved source.text target.text outer outer') (name : String) :
    NameMoved source.text target.text (innerClassName outer name) (innerClassName outer' name) := by
  cases h with
  | renamed => exact .member name
  | kept _ _ => exact .kept _ (innerClassName_ne hsource outer name)
  | member inner =>
    rw [innerClassName_innerClassName, innerClassName_innerClassName]
    exact .member _

theorem NameMoved.ne_source (hne : source ≠ target) (hsource : '$' ∉ source.text.toList)
    {name name' : String} (h : NameMoved source.text target.text name name') :
    name' ≠ source.text := by
  cases h with
  | renamed =>
    intro heq
    obtain ⟨text, _⟩ := source
    obtain ⟨_, _⟩ := target
    cases heq
    exact hne rfl
  | kept _ h => exact h
  | member inner => exact innerClassName_ne hsource target.text inner

theorem NameMoved.eq_iff {kept : String} (hsource : kept ≠ source.text)
    (htarget : kept ≠ target.text)
    (hsourceMember : ∀ inner, kept ≠ innerClassName source.text inner)
    (htargetMember : ∀ inner, kept ≠ innerClassName target.text inner) {name name' : String}
    (h : NameMoved source.text target.text name name') : kept = name' ↔ kept = name := by
  cases h with
  | renamed => exact iff_of_false htarget hsource
  | kept _ _ => exact Iff.rfl
  | member inner => exact iff_of_false (htargetMember inner) (hsourceMember inner)

theorem renameInner_single (hsource : '$' ∉ source.text.toList) (outer inner : String) :
    renameInner (.single source.text target) outer inner = inner := by
  unfold renameInner Renaming.single
  rw [if_neg (innerClassName_ne hsource outer inner)]

theorem Renaming.namesClasses_single (htarget : IsName SignatureReader.endsName target.text) :
    (single source.text target).NamesClasses := by
  intro name renamed hrenamed
  obtain ⟨-, heq⟩ := Option.ite_none_right_eq_some.1 hrenamed
  rwa [← Option.some.inj heq]

end Single

section Signatures

variable {source target : BinaryName}

mutual

theorem ReferenceSignature.moved (hsource : '$' ∉ source.text.toList) : ∀ t : ReferenceSignature,
    NamesMoved source target t.names (t.rename (.single source.text target)).names
  | .classType name suffixes => .cons (.applyText name) (suffixes.moved hsource (.applyText name))
  | .typeVariable _ => .nil
  | .array element => element.moved hsource
  | .simpleArray _ => .nil

theorem ClassSuffixes.moved (hsource : '$' ∉ source.text.toList) {outer outer' : String}
    (houter : NameMoved source.text target.text outer outer') : ∀ x : ClassSuffixes,
    NamesMoved source target (x.names outer)
      ((x.rename (.single source.text target) outer).names outer')
  | .done => .nil
  | .arguments as rest => List.rel_append (as.moved hsource) (rest.moved hsource houter)
  | .inner name rest => by
    rw [ClassSuffixes.rename, renameInner_single hsource]
    exact .cons (houter.inner hsource name) (rest.moved hsource (houter.inner hsource name))

theorem TypeArguments.moved (hsource : '$' ∉ source.text.toList) : ∀ as : TypeArguments,
    NamesMoved source target as.names (as.rename (.single source.text target)).names
  | .done => .nil
  | .wildcard rest => rest.moved hsource
  | .type _ type rest => List.rel_append (type.moved hsource) (rest.moved hsource)

end

theorem TypeSignature.moved (hsource : '$' ∉ source.text.toList) (t : TypeSignature) :
    NamesMoved source target t.names (t.rename (.single source.text target)).names := by
  cases t with
  | simple t => exact .nil
  | reference t => exact t.moved hsource

theorem TypeParameter.moved (hsource : '$' ∉ source.text.toList) (p : TypeParameter) :
    NamesMoved source target p.names (p.rename (.single source.text target)).names :=
  List.rel_append (NamesMoved.elim fun t _ => t.moved hsource)
    (NamesMoved.flatMap fun t _ => t.moved hsource)

theorem SignatureBody.moved (hsource : '$' ∉ source.text.toList) (b : SignatureBody) :
    NamesMoved source target b.names (b.rename (.single source.text target)).names := by
  cases b with
  | method parameters result thrown =>
    exact List.rel_append (List.rel_append (NamesMoved.flatMap fun t _ => t.moved hsource)
      (result.moved hsource)) (NamesMoved.flatMap fun t _ => t.moved hsource)
  | types ts => exact NamesMoved.flatMap fun t _ => t.moved hsource

theorem Signature.moved (hsource : '$' ∉ source.text.toList) (sig : Signature) :
    NamesMoved source target sig.names (sig.rename (.single source.text target)).names :=
  List.rel_append (NamesMoved.elim fun _ _ => NamesMoved.flatMap fun p _ => p.moved hsource)
    (sig.body.moved hsource)

theorem SignatureText.moved (htarget : IsName SignatureReader.endsName target.text)
    (hsource : '$' ∉ source.text.toList) {text : SignatureText}
    (h : text.scan.1.isSome = true) :
    NamesMoved source target text.names (text.rename (.single source.text target)).names := by
  obtain ⟨sig, hsig⟩ := Option.isSome_iff_exists.1 h
  obtain ⟨hwf, -, hnames⟩ := of_scan hsig
  have hmembers : ∀ m ∈ sig.members, (Renaming.single source.text target).NamesMember m := by
    intro m hm
    rw [Renaming.NamesMember, renameInner_single hsource]
    exact hwf.isName_members m hm
  have hscan := scan_render (hwf.rename (Renaming.namesClasses_single htarget) hmembers)
  unfold rename
  rw [hsig, hnames, names, hscan]
  exact List.forall₂_reverse_iff.2 (sig.moved hsource)

end Signatures

section Descriptors

variable {source target : BinaryName}

theorem RefType.moved (t : RefType) :
    NamesMoved source target t.names (t.rename (.single source.text target)).names := by
  cases t with
  | object name => exact .cons (.apply name) .nil
  | objectArray array => exact .cons (.apply array.elementType) .nil
  | primitiveArray array => exact .nil

theorem FieldType.moved (t : FieldType) :
    NamesMoved source target t.names (t.rename (.single source.text target)).names := by
  cases t with
  | base t => exact .nil
  | ref t => exact t.moved

theorem BinaryName.moved (names : List BinaryName) :
    NamesMoved source target (names.map BinaryName.text)
      ((names.map (Renaming.single source.text target).apply).map BinaryName.text) := by
  induction names with
  | nil => exact .nil
  | cons name names ih => exact .cons (.apply name) ih

theorem BinaryName.moved_option (name : Option BinaryName) :
    NamesMoved source target (name.map BinaryName.text).toList
      ((name.map (Renaming.single source.text target).apply).map BinaryName.text).toList := by
  cases name with
  | none => exact .nil
  | some name => exact .cons (.apply name) .nil

theorem FieldType.className?_map (f : BinaryName → BinaryName) (t : FieldType) :
    (t.map f).className? = t.className?.map f := by
  cases t with
  | base t => rfl
  | ref t => cases t <;> rfl

theorem MethodDescriptor.classNames_map (f : BinaryName → BinaryName) (d : MethodDescriptor) :
    (d.map f).classNames = d.classNames.map f := by
  have hclassName : (FieldType.className? ∘ FieldType.map f)
      = fun t => t.className?.map f := funext (FieldType.className?_map f)
  unfold classNames map
  dsimp only
  rw [List.filterMap_map, hclassName, List.map_append, ← List.map_filterMap]
  cases d.returnType with
  | none => rfl
  | some t => rw [Option.map_some, Option.bind_some, Option.bind_some, FieldType.className?_map,
      Option.toList_map]

theorem MethodDescriptor.moved (d : MethodDescriptor) :
    NamesMoved source target d.names (d.rename (.single source.text target)).names := by
  unfold names rename
  rw [classNames_map]
  exact BinaryName.moved d.classNames

theorem DescriptorText.type?_render (t : FieldType) : type? t.render = some t := by
  have hread := t.read_chars []
  rw [List.append_nil] at hread
  unfold type? FieldType.parse FieldType.render
  rw [DescriptorReader.parse_of_read hread]

theorem DescriptorText.moved (text : DescriptorText) :
    NamesMoved source target text.names (text.rename (.single source.text target)).names := by
  cases htype : type? text with
  | none =>
    have hrename : text.rename (.single source.text target) = text := by
      rw [rename, htype]
    have hnames : text.names = [] := by
      rw [names, htype]
    rw [hrename, hnames]
    exact .nil
  | some t =>
    have hrename : text.rename (.single source.text target)
        = (t.rename (.single source.text target)).render := by
      rw [rename, htype]
    rw [hrename, names, htype, names, type?_render]
    exact t.moved

end Descriptors

end ClassPatch
