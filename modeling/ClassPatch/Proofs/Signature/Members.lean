import ClassPatch.Proofs.Signature.Reads

/-!
The members of classes that a signature names. Of all names in a signature, renaming makes only
those of members out of parts of new names, so these alone may cease to be identifiers; as long as
none does, a well-formed signature stays well formed.
-/

namespace ClassPatch

open SignatureReader (endsName)

mutual

/-- Members of classes, each with the name of its class before it. -/
def ReferenceSignature.members : ReferenceSignature → List (String × String)
  | .classType name suffixes => suffixes.members name
  | .typeVariable _ => []
  | .array element => element.members
  | .simpleArray _ => []

/-- Members in what follows the class `outer`. -/
def ClassSuffixes.members (outer : String) : ClassSuffixes → List (String × String)
  | .done => []
  | .arguments arguments rest => arguments.members ++ rest.members outer
  | .inner name rest => (outer, name) :: rest.members (innerClassName outer name)

def TypeArguments.members : TypeArguments → List (String × String)
  | .done => []
  | .wildcard rest => rest.members
  | .type _ type rest => type.members ++ rest.members

end

def TypeSignature.members : TypeSignature → List (String × String)
  | .simple _ => []
  | .reference t => t.members

def TypeParameter.members (p : TypeParameter) : List (String × String) :=
  p.classBound.elim [] ReferenceSignature.members
    ++ p.interfaceBounds.flatMap ReferenceSignature.members

def SignatureBody.members : SignatureBody → List (String × String)
  | .method parameters result thrown =>
    parameters.flatMap TypeSignature.members ++ result.members
      ++ thrown.flatMap ReferenceSignature.members
  | .types ts => ts.flatMap ReferenceSignature.members

def Signature.members (s : Signature) : List (String × String) :=
  s.typeParameters.elim [] (·.flatMap TypeParameter.members) ++ s.body.members

namespace Renaming

/-- New names end nowhere within a signature. -/
def NamesClasses (r : Renaming) : Prop :=
  ∀ name target, r name = some target → IsName endsName target.text

/-- What stands for the member after renaming is an identifier. -/
def NamesMember (r : Renaming) (member : String × String) : Prop :=
  IsName endsIdentifier (renameInner r member.1 member.2)

instance (r : Renaming) : DecidablePred r.NamesMember := fun member =>
  inferInstanceAs (Decidable (IsName endsIdentifier (renameInner r member.1 member.2)))

end Renaming

section Lists

variable {α : Type} {P : String × String → Prop} {members : α → List (String × String)}

theorem forall_mem_flatMap {as : List α} :
    (∀ m ∈ as.flatMap members, P m) ↔ ∀ a ∈ as, ∀ m ∈ members a, P m := by
  simp only [List.mem_flatMap]
  exact ⟨fun h a ha m hm => h m ⟨a, ha, hm⟩, fun h m ⟨a, ha, hm⟩ => h a ha m hm⟩

theorem forall_mem_elim {o : Option α} :
    (∀ m ∈ o.elim [] members, P m) ↔ ∀ a ∈ o, ∀ m ∈ members a, P m := by
  cases o with
  | none => exact ⟨fun _ _ ha => absurd ha (Option.not_mem_none _), fun _ => List.forall_mem_nil _⟩
  | some a => exact ⟨fun h a' ha' => Option.mem_some.1 ha' ▸ h, fun h => h a rfl⟩

end Lists

section Identifiers

/-! In a well-formed signature members are named by identifiers. -/

mutual

theorem ReferenceSignature.WellFormed.isName_members :
    ∀ {t : ReferenceSignature}, t.WellFormed → ∀ m ∈ t.members, IsName endsIdentifier m.2
  | .classType name _, ⟨_, hsuffixes⟩ => hsuffixes.isName_members name
  | .typeVariable _, _ => List.forall_mem_nil _
  | .array element, h => (show element.WellFormed from h).isName_members
  | .simpleArray _, _ => List.forall_mem_nil _

theorem ClassSuffixes.WellFormed.isName_members (outer : String) :
    ∀ {x : ClassSuffixes}, x.WellFormed → ∀ m ∈ x.members outer, IsName endsIdentifier m.2
  | .done, _ => List.forall_mem_nil _
  | .arguments _ _, ⟨harguments, hrest⟩ =>
    List.forall_mem_append.2 ⟨harguments.isName_members, hrest.isName_members outer⟩
  | .inner _ _, ⟨hname, hrest⟩ => List.forall_mem_cons.2 ⟨hname, hrest.isName_members _⟩

theorem TypeArguments.WellFormed.isName_members :
    ∀ {as : TypeArguments}, as.WellFormed → ∀ m ∈ as.members, IsName endsIdentifier m.2
  | .done, _ => List.forall_mem_nil _
  | .wildcard rest, h => (show rest.WellFormed from h).isName_members
  | .type _ _ _, ⟨htype, hrest⟩ =>
    List.forall_mem_append.2 ⟨htype.isName_members, hrest.isName_members⟩

end

theorem TypeSignature.WellFormed.isName_members {t : TypeSignature} (h : t.WellFormed) :
    ∀ m ∈ t.members, IsName endsIdentifier m.2 := by
  cases t with
  | simple t => exact List.forall_mem_nil _
  | reference t => exact ReferenceSignature.WellFormed.isName_members h

theorem TypeParameter.WellFormed.isName_members {p : TypeParameter} {rest : List Char}
    (h : p.WellFormed rest) : ∀ m ∈ p.members, IsName endsIdentifier m.2 :=
  List.forall_mem_append.2 ⟨forall_mem_elim.2 fun t ht => (h.classBound t ht).isName_members,
    forall_mem_flatMap.2 fun t ht => (h.interfaceBounds t ht).isName_members⟩

theorem SignatureBody.WellFormed.isName_members {b : SignatureBody} (h : b.WellFormed) :
    ∀ m ∈ b.members, IsName endsIdentifier m.2 := by
  cases b with
  | method parameters result thrown =>
    obtain ⟨hparameters, hresult, hthrown⟩ := h
    refine List.forall_mem_append.2 ⟨List.forall_mem_append.2 ⟨?_, hresult.isName_members⟩, ?_⟩
    · exact forall_mem_flatMap.2 fun t ht => (hparameters t ht).isName_members
    · exact forall_mem_flatMap.2 fun t ht => (hthrown t ht).isName_members
  | types ts => exact forall_mem_flatMap.2 fun t ht => (h.2 t ht).isName_members

theorem Follow.exists_of_mem {α : Type} {chars : α → List Char} {P : α → List Char → Prop}
    {as : List α} {rest : List Char} (h : Follow chars P as rest) : ∀ a ∈ as, ∃ rest, P a rest := by
  induction as with
  | nil => exact List.forall_mem_nil _
  | cons a as ih => exact List.forall_mem_cons.2 ⟨⟨_, h.1⟩, ih h.2⟩

theorem Signature.WellFormed.isName_members {s : Signature} (h : s.WellFormed) :
    ∀ m ∈ s.members, IsName endsIdentifier m.2 := by
  refine List.forall_mem_append.2 ⟨forall_mem_elim.2 fun ps hps => ?_, h.body.isName_members⟩
  refine forall_mem_flatMap.2 fun p hp => ?_
  obtain ⟨rest, hwf⟩ := (h.typeParameters ps hps).exists_of_mem p hp
  exact hwf.isName_members

end Identifiers

section Rename

variable {r : Renaming}

theorem Renaming.isName_applyText (hr : r.NamesClasses) {name : String} (h : IsName endsName name) :
    IsName endsName (r.applyText name) := by
  unfold applyText
  cases htarget : r name with
  | none => exact h
  | some target => exact hr name target htarget

mutual

theorem ReferenceSignature.WellFormed.rename (hr : r.NamesClasses) :
    ∀ {t : ReferenceSignature}, t.WellFormed → (∀ m ∈ t.members, r.NamesMember m) →
      (t.rename r).WellFormed
  | .classType name _, ⟨hname, hsuffixes⟩, hm =>
    ⟨r.isName_applyText hr hname, hsuffixes.rename hr name hm⟩
  | .typeVariable _, h, _ => h
  | .array element, h, hm => (show element.WellFormed from h).rename hr hm
  | .simpleArray _, h, _ => h

theorem ClassSuffixes.WellFormed.rename (hr : r.NamesClasses) (outer : String) :
    ∀ {x : ClassSuffixes}, x.WellFormed → (∀ m ∈ x.members outer, r.NamesMember m) →
      (x.rename r outer).WellFormed
  | .done, h, _ => h
  | .arguments _ _, ⟨harguments, hrest⟩, hm =>
    have hm := List.forall_mem_append.1 hm
    ⟨harguments.rename hr hm.1, hrest.rename hr outer hm.2⟩
  | .inner _ _, ⟨_, hrest⟩, hm =>
    have hm := List.forall_mem_cons.1 hm
    ⟨hm.1, hrest.rename hr _ hm.2⟩

theorem TypeArguments.WellFormed.rename (hr : r.NamesClasses) :
    ∀ {as : TypeArguments}, as.WellFormed → (∀ m ∈ as.members, r.NamesMember m) →
      (as.rename r).WellFormed
  | .done, h, _ => h
  | .wildcard rest, h, hm => (show rest.WellFormed from h).rename hr hm
  | .type _ _ _, ⟨htype, hrest⟩, hm =>
    have hm := List.forall_mem_append.1 hm
    ⟨htype.rename hr hm.1, hrest.rename hr hm.2⟩

end

theorem TypeSignature.WellFormed.rename (hr : r.NamesClasses) {t : TypeSignature}
    (h : t.WellFormed) (hm : ∀ m ∈ t.members, r.NamesMember m) : (t.rename r).WellFormed := by
  cases t with
  | simple t => trivial
  | reference t => exact ReferenceSignature.WellFormed.rename hr h hm

theorem TypeParameter.WellFormed.rename (hr : r.NamesClasses) {p : TypeParameter}
    {rest : List Char} (h : p.WellFormed rest) (hm : ∀ m ∈ p.members, r.NamesMember m) :
    (p.rename r).WellFormed rest := by
  obtain ⟨hclass, hinterfaces⟩ := List.forall_mem_append.1 hm
  rw [forall_mem_elim] at hclass
  rw [forall_mem_flatMap] at hinterfaces
  constructor
  case name => exact h.name
  case classBound =>
    intro t ht
    obtain ⟨t', ht', rfl⟩ := Option.map_eq_some_iff.1 ht
    exact (h.classBound t' ht').rename hr (hclass t' ht')
  case interfaceBounds =>
    exact List.forall_mem_map.2 fun t ht => (h.interfaceBounds t ht).rename hr (hinterfaces t ht)
  case unbounded =>
    intro hnone hnil
    exact h.unbounded (Option.map_eq_none_iff.1 hnone) (List.map_eq_nil_iff.1 hnil)

theorem Follow.rename (hr : r.NamesClasses) {ps : List TypeParameter} {rest : List Char}
    (h : Follow TypeParameter.chars TypeParameter.WellFormed ps rest)
    (hm : ∀ p ∈ ps, ∀ m ∈ p.members, r.NamesMember m) :
    Follow TypeParameter.chars TypeParameter.WellFormed (ps.map (·.rename r)) rest := by
  induction ps with
  | nil => trivial
  | cons p ps ih =>
    rw [List.forall_mem_cons] at hm
    refine ⟨TypeParameter.WellFormed.congr (h.1.rename hr hm.1) ?_, ih h.2 hm.2⟩
    cases ps with
    | nil => rfl
    | cons q qs =>
      obtain ⟨c, cs, hcs⟩ := List.exists_cons_of_ne_nil h.2.1.name.1
      simp only [List.map_cons, List.flatMap_cons, TypeParameter.chars, TypeParameter.rename, hcs,
        List.cons_append, List.head?_cons]

theorem SignatureBody.WellFormed.rename (hr : r.NamesClasses) {b : SignatureBody}
    (h : b.WellFormed) (hm : ∀ m ∈ b.members, r.NamesMember m) : (b.rename r).WellFormed := by
  cases b with
  | method parameters result thrown =>
    obtain ⟨hparameters, hresult, hthrown⟩ := h
    obtain ⟨hm, hmThrown⟩ := List.forall_mem_append.1 hm
    obtain ⟨hmParameters, hmResult⟩ := List.forall_mem_append.1 hm
    rw [forall_mem_flatMap] at hmParameters hmThrown
    refine ⟨List.forall_mem_map.2 ?_, hresult.rename hr hmResult, List.forall_mem_map.2 ?_⟩
    · exact fun t ht => (hparameters t ht).rename hr (hmParameters t ht)
    · exact fun t ht => (hthrown t ht).rename hr (hmThrown t ht)
  | types ts =>
    obtain ⟨hne, hts⟩ := h
    have hm := forall_mem_flatMap.1 hm
    refine ⟨?_, List.forall_mem_map.2 fun t ht => (hts t ht).rename hr (hm t ht)⟩
    rwa [ne_eq, List.map_eq_nil_iff]

/-- A signature stays well formed if its members keep identifiers for their names. -/
theorem Signature.WellFormed.rename (hr : r.NamesClasses) {s : Signature} (h : s.WellFormed)
    (hm : ∀ m ∈ s.members, r.NamesMember m) : (s.rename r).WellFormed := by
  obtain ⟨hparameters, hbody⟩ := List.forall_mem_append.1 hm
  rw [forall_mem_elim] at hparameters
  constructor
  case typeParameters =>
    intro ps hps
    obtain ⟨ps', hps', rfl⟩ := Option.map_eq_some_iff.1 hps
    exact (h.typeParameters ps' hps').rename hr (forall_mem_flatMap.1 (hparameters ps' hps'))
  case body => exact h.body.rename hr hbody

end Rename

end ClassPatch
