import ClassPatch.Proofs.Signature.Reads

/-!
Signatures in the grammar of class files, and their renaming. The tree that is read is that of the
signature, and if no name with a `$` has a new name, the outermost name of every class type is
renamed and nothing else.
-/

namespace ClassPatch

section Standard

/-- Identifiers with slashes between them: those of a package, and that of a class in it. -/
def IsPath (name : String) : Prop :=
  ∃ first : String, ∃ others : List String,
    (∀ part ∈ first :: others, IsName endsIdentifier part)
      ∧ name.toList = first.toList ++ others.flatMap ('/' :: ·.toList)

namespace ReferenceSignature

def IsClassType : ReferenceSignature → Prop
  | .classType .. => True
  | _ => False

def IsTypeVariable : ReferenceSignature → Prop
  | .typeVariable _ => True
  | _ => False

end ReferenceSignature

mutual

/-- The grammar of class files for types of references. -/
def ReferenceSignature.Standard : ReferenceSignature → Prop
  | .classType name suffixes => IsPath name ∧ suffixes.Standard
  | .typeVariable name => IsName endsIdentifier name
  | .array element => element.Standard
  | .simpleArray element => element ≠ .void

/-- A name has one list of arguments at most, which is not empty. -/
def ClassSuffixes.Standard : ClassSuffixes → Prop
  | .done => True
  | .arguments arguments rest =>
    arguments ≠ .done ∧ arguments.Standard ∧ (∀ as x, rest ≠ .arguments as x) ∧ rest.Standard
  | .inner name rest => IsName endsIdentifier name ∧ rest.Standard

def TypeArguments.Standard : TypeArguments → Prop
  | .done => True
  | .wildcard rest => rest.Standard
  | .type _ type rest => type.Standard ∧ rest.Standard

end

/-- The type of a value. -/
def TypeSignature.Standard : TypeSignature → Prop
  | .simple t => t ≠ .void
  | .reference t => t.Standard

/-- A type parameter, which has a bound by a class or by an interface. -/
structure TypeParameter.Standard (p : TypeParameter) : Prop where
  name : IsName endsIdentifier p.name
  classBound : ∀ t ∈ p.classBound, t.Standard
  interfaceBounds : ∀ t ∈ p.interfaceBounds, t.Standard
  bounded : p.classBound ≠ none ∨ p.interfaceBounds ≠ []

/-- The grammar of class files for signatures of classes, methods and fields. -/
inductive Signature.Standard : Signature → Prop where
  | ofClass {parameters : Option (List TypeParameter)} {superclass : ReferenceSignature}
    {interfaces : List ReferenceSignature}
    (hparameters : ∀ ps ∈ parameters, ps ≠ [] ∧ ∀ p ∈ ps, p.Standard)
    (htypes : ∀ t ∈ superclass :: interfaces, t.IsClassType ∧ t.Standard) :
    Standard ⟨parameters, .types (superclass :: interfaces)⟩
  | ofMethod {parameters : Option (List TypeParameter)} {arguments : List TypeSignature}
    {result : TypeSignature} {thrown : List ReferenceSignature}
    (hparameters : ∀ ps ∈ parameters, ps ≠ [] ∧ ∀ p ∈ ps, p.Standard)
    (harguments : ∀ t ∈ arguments, t.Standard)
    (hresult : result = .simple .void ∨ result.Standard)
    (hthrown : ∀ t ∈ thrown, (t.IsClassType ∨ t.IsTypeVariable) ∧ t.Standard) :
    Standard ⟨parameters, .method arguments result thrown⟩
  | ofField {type : ReferenceSignature} (htype : type.Standard) : Standard ⟨none, .types [type]⟩

end Standard

section Outermost

variable (r : Renaming)

mutual

/-- Rename the outermost name of each class type. -/
def ReferenceSignature.renameOutermost : ReferenceSignature → ReferenceSignature
  | .classType name suffixes => .classType (r.applyText name) suffixes.renameOutermost
  | .typeVariable name => .typeVariable name
  | .array element => .array element.renameOutermost
  | .simpleArray element => .simpleArray element

/-- Rename in the type arguments. -/
def ClassSuffixes.renameOutermost : ClassSuffixes → ClassSuffixes
  | .done => .done
  | .arguments arguments rest => .arguments arguments.renameOutermost rest.renameOutermost
  | .inner name rest => .inner name rest.renameOutermost

def TypeArguments.renameOutermost : TypeArguments → TypeArguments
  | .done => .done
  | .wildcard rest => .wildcard rest.renameOutermost
  | .type bound type rest => .type bound type.renameOutermost rest.renameOutermost

end

def TypeSignature.renameOutermost : TypeSignature → TypeSignature
  | .simple t => .simple t
  | .reference t => .reference (t.renameOutermost r)

def TypeParameter.renameOutermost (p : TypeParameter) : TypeParameter where
  name := p.name
  classBound := p.classBound.map (·.renameOutermost r)
  interfaceBounds := p.interfaceBounds.map (·.renameOutermost r)

def SignatureBody.renameOutermost : SignatureBody → SignatureBody
  | .method arguments result thrown =>
    .method (arguments.map (·.renameOutermost r)) (result.renameOutermost r)
      (thrown.map (·.renameOutermost r))
  | .types ts => .types (ts.map (·.renameOutermost r))

def Signature.renameOutermost (s : Signature) : Signature where
  typeParameters := s.typeParameters.map (·.map (·.renameOutermost r))
  body := s.body.renameOutermost r

end Outermost

section WellFormed

theorem IsPath.isName {name : String} (h : IsPath name) : IsName SignatureReader.endsName name := by
  obtain ⟨first, others, hparts, hname⟩ := h
  rw [List.forall_mem_cons] at hparts
  obtain ⟨hfirst, hothers⟩ := hparts
  rw [IsName, hname]
  constructor
  · exact fun hnil => hfirst.1 (List.append_eq_nil_iff.1 hnil).1
  · intro c hc
    rcases List.mem_append.1 hc with hc | hc
    · exact endsName_of_endsIdentifier (hfirst.2 c hc)
    · obtain ⟨part, hpart, hc⟩ := List.mem_flatMap.1 hc
      rcases List.mem_cons.1 hc with rfl | hc
      · decide
      · exact endsName_of_endsIdentifier ((hothers part hpart).2 c hc)

mutual

theorem ReferenceSignature.Standard.wellFormed :
    ∀ {t : ReferenceSignature}, t.Standard → t.WellFormed
  | .classType _ _, ⟨hname, hsuffixes⟩ => ⟨hname.isName, hsuffixes.wellFormed⟩
  | .typeVariable _, h => h
  | .array element, h => (show element.Standard from h).wellFormed
  | .simpleArray _, _ => True.intro

theorem ClassSuffixes.Standard.wellFormed : ∀ {x : ClassSuffixes}, x.Standard → x.WellFormed
  | .done, _ => True.intro
  | .arguments _ _, ⟨_, harguments, _, hrest⟩ => ⟨harguments.wellFormed, hrest.wellFormed⟩
  | .inner _ _, ⟨hname, hrest⟩ => ⟨hname, hrest.wellFormed⟩

theorem TypeArguments.Standard.wellFormed : ∀ {as : TypeArguments}, as.Standard → as.WellFormed
  | .done, _ => True.intro
  | .wildcard rest, h => (show rest.Standard from h).wellFormed
  | .type _ _ _, ⟨htype, hrest⟩ => ⟨htype.wellFormed, hrest.wellFormed⟩

end

theorem TypeSignature.Standard.wellFormed {t : TypeSignature} (h : t.Standard) :
    t.WellFormed := by
  cases t with
  | simple t => trivial
  | reference t => exact ReferenceSignature.Standard.wellFormed h

theorem TypeParameter.Standard.wellFormed {p : TypeParameter} (h : p.Standard)
    (rest : List Char) : p.WellFormed rest where
  name := h.name
  classBound t ht := (h.classBound t ht).wellFormed
  interfaceBounds t ht := (h.interfaceBounds t ht).wellFormed
  unbounded hclass hinterfaces := by
    rcases h.bounded with hne | hne
    · exact absurd hclass hne
    · exact absurd hinterfaces hne

theorem follow_of_standard {ps : List TypeParameter} (h : ∀ p ∈ ps, p.Standard)
    (rest : List Char) : Follow TypeParameter.chars TypeParameter.WellFormed ps rest := by
  induction ps with
  | nil => trivial
  | cons p ps ih =>
    rw [List.forall_mem_cons] at h
    exact ⟨h.1.wellFormed _, ih h.2⟩

theorem Signature.Standard.wellFormed {s : Signature} (h : s.Standard) : s.WellFormed := by
  cases h with
  | ofClass hparameters htypes =>
    constructor
    · exact fun ps hps => follow_of_standard (hparameters ps hps).2 _
    · exact ⟨List.cons_ne_nil _ _, fun t ht => (htypes t ht).2.wellFormed⟩
  | ofMethod hparameters harguments hresult hthrown =>
    constructor
    · exact fun ps hps => follow_of_standard (hparameters ps hps).2 _
    · refine ⟨fun t ht => (harguments t ht).wellFormed, ?_, fun t ht => (hthrown t ht).2.wellFormed⟩
      rcases hresult with rfl | hresult
      · trivial
      · exact hresult.wellFormed
  | ofField htype =>
    constructor
    · exact fun _ hps => absurd hps (Option.not_mem_none _)
    · refine ⟨List.cons_ne_nil _ _, ?_⟩
      exact List.forall_mem_singleton.2 htype.wellFormed

end WellFormed

section Rename

variable {r : Renaming}

/-- No class that is a member of another has a new name of its own. -/
def Renaming.KeepsMembers (r : Renaming) : Prop :=
  ∀ outer inner, r (innerClassName outer inner) = none

theorem renameInner_of_keepsMembers (h : r.KeepsMembers) (outer inner : String) :
    renameInner r outer inner = inner := by
  unfold renameInner
  rw [h]

mutual

theorem ReferenceSignature.rename_eq_renameOutermost (h : r.KeepsMembers) :
    ∀ t : ReferenceSignature, t.rename r = t.renameOutermost r
  | .classType name suffixes => by
    rw [ReferenceSignature.rename, ReferenceSignature.renameOutermost,
      suffixes.rename_eq_renameOutermost h]
  | .typeVariable name => rfl
  | .array element => by
    rw [ReferenceSignature.rename, ReferenceSignature.renameOutermost,
      element.rename_eq_renameOutermost h]
  | .simpleArray element => rfl

theorem ClassSuffixes.rename_eq_renameOutermost (h : r.KeepsMembers) (outer : String) :
    ∀ x : ClassSuffixes, x.rename r outer = x.renameOutermost r
  | .done => rfl
  | .arguments arguments rest => by
    rw [ClassSuffixes.rename, ClassSuffixes.renameOutermost, arguments.rename_eq_renameOutermost h,
      rest.rename_eq_renameOutermost h]
  | .inner name rest => by
    rw [ClassSuffixes.rename, ClassSuffixes.renameOutermost, renameInner_of_keepsMembers h,
      rest.rename_eq_renameOutermost h]

theorem TypeArguments.rename_eq_renameOutermost (h : r.KeepsMembers) :
    ∀ as : TypeArguments, as.rename r = as.renameOutermost r
  | .done => rfl
  | .wildcard rest => by
    rw [TypeArguments.rename, TypeArguments.renameOutermost, rest.rename_eq_renameOutermost h]
  | .type bound type rest => by
    rw [TypeArguments.rename, TypeArguments.renameOutermost, type.rename_eq_renameOutermost h,
      rest.rename_eq_renameOutermost h]

end

theorem Signature.rename_eq_renameOutermost (h : r.KeepsMembers) (s : Signature) :
    s.rename r = s.renameOutermost r := by
  have hreference : ReferenceSignature.rename r = ReferenceSignature.renameOutermost r :=
    funext fun t => t.rename_eq_renameOutermost h
  have htype : TypeSignature.rename r = TypeSignature.renameOutermost r := by
    funext t
    cases t with
    | simple t => rfl
    | reference t => exact congrArg TypeSignature.reference (t.rename_eq_renameOutermost h)
  have hparameter : TypeParameter.rename r = TypeParameter.renameOutermost r := by
    funext p
    rw [TypeParameter.rename, TypeParameter.renameOutermost, hreference]
  have hbody (b : SignatureBody) : b.rename r = b.renameOutermost r := by
    cases b with
    | method arguments result thrown =>
      rw [SignatureBody.rename, SignatureBody.renameOutermost, htype, hreference]
    | types ts => rw [SignatureBody.rename, SignatureBody.renameOutermost, hreference]
  rw [rename, renameOutermost, hparameter, hbody]

theorem Renaming.keepsMembers_ofTable {table : List (String × BinaryName)}
    (h : ∀ entry ∈ table, '$' ∉ entry.1.toList) : (ofTable table).KeepsMembers := by
  intro outer inner
  have hdollar : '$' ∈ (innerClassName outer inner).toList := by
    simp [innerClassName]
  rw [ofTable, List.lookup_eq_none_iff]
  intro entry hentry
  rw [List.mem_reverse] at hentry
  rw [bne_iff_ne]
  intro heq
  exact h entry hentry (heq ▸ hdollar)

end Rename

/--
The text of a signature is read as the signature. Where no member of a class has a new name of its
own, its renaming is the text of the signature with the outermost names of its class types renamed.
-/
theorem SignatureText.rename_render {s : Signature} (hs : s.Standard)
    {table : List (String × BinaryName)} (htable : ∀ entry ∈ table, '$' ∉ entry.1.toList) :
    (scan s.render).1 = some s
      ∧ rename (.ofTable table) s.render = (s.renameOutermost (.ofTable table)).render := by
  have hscan : (scan s.render).1 = some s := by rw [scan_render hs.wellFormed]
  refine ⟨hscan, ?_⟩
  rw [rename, hscan, ← s.rename_eq_renameOutermost (Renaming.keepsMembers_ofTable htable)]

/-- A method whose types are of every form, with a type parameter of each kind. -/
def boundedMethod : Signature where
  typeParameters := some [
    ⟨"T", some (.classType "java/lang/Object" .done), []⟩,
    ⟨"E", none, [.classType "p/I" (.arguments (.type .exact (.typeVariable "T") .done) .done)]⟩]
  body := .method
    [.reference (.classType "p/A"
      (.arguments (.type .upper (.classType "p/B" .done) (.wildcard .done))
        (.inner "C" (.arguments (.type .lower (.simpleArray (.base .int)) .done) .done)))),
      .reference (.array (.array (.typeVariable "T")))]
    (.simple .void) [.typeVariable "E", .classType "p/B" .done]

theorem standard_boundedMethod : boundedMethod.Standard := by
  have hA : IsPath "p/A" := ⟨"p", ["A"], by decide, rfl⟩
  have hB : IsPath "p/B" := ⟨"p", ["B"], by decide, rfl⟩
  have hI : IsPath "p/I" := ⟨"p", ["I"], by decide, rfl⟩
  have hobject : IsPath "java/lang/Object" := ⟨"java", ["lang", "Object"], by decide, rfl⟩
  have hT : IsName endsIdentifier "T" := by decide
  have hE : IsName endsIdentifier "E" := by decide
  have hC : IsName endsIdentifier "C" := by decide
  refine .ofMethod ?_ ?_ (.inl rfl) ?_
  · rintro ps ⟨⟩
    refine ⟨List.cons_ne_nil _ _, List.forall_mem_cons.2 ⟨?_, List.forall_mem_singleton.2 ?_⟩⟩
    · exact ⟨hT, by simp [ReferenceSignature.Standard, ClassSuffixes.Standard, hobject], by simp,
        by simp⟩
    · exact ⟨hE, by simp, by simp [ReferenceSignature.Standard, ClassSuffixes.Standard,
        TypeArguments.Standard, hI, hT], by simp⟩
  · simp [TypeSignature.Standard, ReferenceSignature.Standard, ClassSuffixes.Standard,
      TypeArguments.Standard, hA, hB, hC, hT]
  · simp [ReferenceSignature.IsClassType, ReferenceSignature.IsTypeVariable,
      ReferenceSignature.Standard, ClassSuffixes.Standard, hB, hE]

theorem SignatureText.rename_render_boundedMethod :
    boundedMethod.render
        = "<T:Ljava/lang/Object;E::Lp/I<TT;>;>(Lp/A<+Lp/B;*>.C<-[I>;[[TT;)V^TE;^Lp/B;"
      ∧ rename (.ofTable [("p/A", ⟨"q/A", by decide⟩), ("p/B", ⟨"q/r/B", by decide⟩)])
          boundedMethod.render
        = "<T:Ljava/lang/Object;E::Lp/I<TT;>;>(Lq/A<+Lq/r/B;*>.C<-[I>;[[TT;)V^TE;^Lq/r/B;" := by
  refine ⟨by decide +kernel, ?_⟩
  rw [(rename_render standard_boundedMethod (by decide)).2]
  decide +kernel

end ClassPatch
