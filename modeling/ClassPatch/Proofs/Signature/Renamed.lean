import ClassPatch.Proofs.Rename.Kept
import ClassPatch.Proofs.Signature.Descriptor
import ClassPatch.Proofs.Signature.Members

/-!
Whether a renamed signature is a signature again. A dot in the text of a signature stands before the
name of a member and nowhere else, so the text alone tells whether these names are identifiers. What
renaming makes of them need not be: a member that moves to another package gets the whole of its new
name, and one that is named as its class, with a dollar after it, gets none.
-/

namespace ClassPatch

open SignatureReader (endsName)

section Dots

/-- An identifier stands there, and a character after it that ends a name of any kind. -/
def StartsIdentifier (cs : List Char) : Prop :=
  ∃ (name : List Char) (c : Char) (rest : List Char), cs = name ++ c :: rest ∧ name ≠ []
    ∧ (∀ d ∈ name, endsIdentifier d = false) ∧ endsName c = true

/-- After each dot an identifier follows. -/
def DotsBeforeIdentifiers : List Char → Prop
  | [] => True
  | c :: cs => (c = '.' → StartsIdentifier cs) ∧ DotsBeforeIdentifiers cs

theorem dotsBeforeIdentifiers_append_iff {cs rest : List Char} (h : '.' ∉ cs) :
    DotsBeforeIdentifiers (cs ++ rest) ↔ DotsBeforeIdentifiers rest := by
  induction cs with
  | nil => rfl
  | cons c cs ih =>
    have hc : c ≠ '.' := fun heq => h (heq ▸ List.mem_cons_self)
    have hcs : '.' ∉ cs := fun hmem => h (List.mem_cons_of_mem c hmem)
    rw [List.cons_append, DotsBeforeIdentifiers, ih hcs, and_iff_right fun heq => absurd heq hc]

theorem startsIdentifier_append_iff {name : List Char} {c : Char} {rest : List Char}
    (hname : ∀ d ∈ name, endsName d = false) (hc : endsName c = true) :
    StartsIdentifier (name ++ c :: rest) ↔ name ≠ [] ∧ ∀ d ∈ name, endsIdentifier d = false := by
  constructor
  · rintro ⟨name', c', rest', heq, hne, hname', hc'⟩
    rcases List.append_eq_append_iff.1 heq with ⟨between, rfl, hrest⟩ | ⟨between, rfl, hrest⟩
    · cases between with
      | nil =>
        rw [List.append_nil] at hne hname'
        exact ⟨hne, hname'⟩
      | cons d between =>
        -- the character would be one of the longer identifier
        obtain rfl := (List.cons.inj hrest).1
        have hends := endsName_of_endsIdentifier
          (hname' c (List.mem_append_right _ List.mem_cons_self))
        rw [hc] at hends
        cases hends
    · cases between with
      | nil =>
        rw [List.append_nil]
        exact ⟨hne, hname'⟩
      | cons d between =>
        -- the name would contain what ends the shorter identifier
        obtain rfl := (List.cons.inj hrest).1
        have hends := hname c' (List.mem_append_right _ List.mem_cons_self)
        rw [hc'] at hends
        cases hends
  · rintro ⟨hne, hends⟩
    exact ⟨name, c, rest, rfl, hne, hends, hc⟩

end Dots

namespace Renaming

variable {r : Renaming}

/-- The characters have a dot before the name of each member after renaming, and nowhere else. -/
def Dots (r : Renaming) (chars : List Char) (members : List (String × String)) : Prop :=
  ∀ rest, DotsBeforeIdentifiers (chars ++ rest)
    ↔ (∀ m ∈ members, r.NamesMember m) ∧ DotsBeforeIdentifiers rest

theorem endsName_renameInner (hr : r.NamesClasses) (outer : String) {inner : String}
    (h : IsName endsIdentifier inner) :
    ∀ c ∈ (renameInner r outer inner).toList, endsName c = false := by
  intro c hc
  unfold renameInner at hc
  split at hc
  next => exact endsName_of_endsIdentifier (h.2 c hc)
  next renamed hrenamed =>
    refine (hr _ renamed hrenamed).2 c ?_
    split at hc
    next suffix hsuffix =>
      rw [String.toList_ofList] at hc
      rw [← List.isPrefixOf?_eq_some_iff_append_eq.1 hsuffix]
      exact List.mem_append_right _ hc
    next =>
      rw [String.toList_ofList, afterLastDollar, List.mem_reverse] at hc
      exact List.mem_reverse.1 ((List.takeWhile_sublist _).subset hc)

namespace Dots

variable {chars chars' : List Char} {members members' : List (String × String)}

theorem nil : r.Dots [] [] := fun _ => (and_iff_right (List.forall_mem_nil _)).symm

theorem of_not_mem (h : '.' ∉ chars) : r.Dots chars [] := by
  intro rest
  rw [dotsBeforeIdentifiers_append_iff h, and_iff_right (List.forall_mem_nil _)]

theorem append (h : r.Dots chars members) (h' : r.Dots chars' members') :
    r.Dots (chars ++ chars') (members ++ members') := by
  intro rest
  rw [List.append_assoc, h, h', List.forall_mem_append, and_assoc]

theorem cons {c : Char} (hc : c ≠ '.') (h : r.Dots chars members) : r.Dots (c :: chars) members :=
  (of_not_mem fun hmem => hc (List.mem_singleton.1 hmem).symm).append h

theorem name (h : ∀ c ∈ chars, endsName c = false) : r.Dots chars [] := by
  refine of_not_mem fun hmem => ?_
  cases h '.' hmem

theorem member (hr : r.NamesClasses) (outer : String) {inner : String}
    (hinner : IsName endsIdentifier inner) (hends : ∃ c cs, chars = c :: cs ∧ endsName c = true)
    (h : r.Dots chars members) :
    r.Dots ('.' :: (renameInner r outer inner).toList ++ chars) ((outer, inner) :: members) := by
  intro rest
  have hname := endsName_renameInner hr outer hinner
  have hdot : '.' ∉ (renameInner r outer inner).toList := fun hmem => nomatch hname '.' hmem
  obtain ⟨c, cs, rfl, hc⟩ := hends
  rw [List.append_assoc, List.cons_append, DotsBeforeIdentifiers, imp_iff_right rfl,
    dotsBeforeIdentifiers_append_iff hdot, h, List.forall_mem_cons, and_assoc, List.cons_append,
    startsIdentifier_append_iff hname hc]
  rfl

theorem flatMap {α : Type} {as : List α} {chars : α → List Char}
    {members : α → List (String × String)} {f : α → α}
    (h : ∀ a ∈ as, r.Dots (chars (f a)) (members a)) :
    r.Dots ((as.map f).flatMap chars) (as.flatMap members) := by
  induction as with
  | nil => exact .nil
  | cons a as ih =>
    rw [List.forall_mem_cons] at h
    exact h.1.append (ih h.2)

theorem elim {α : Type} {o : Option α} {chars : α → List Char}
    {members : α → List (String × String)} {f : α → α}
    (h : ∀ a ∈ o, r.Dots (chars (f a)) (members a)) :
    r.Dots ((o.map f).elim [] chars) (o.elim [] members) := by
  cases o with
  | none => exact .nil
  | some a => exact h a rfl

end Dots

end Renaming

section Trees

variable {r : Renaming}

theorem SimpleType.letter_ne_dot (t : SimpleType) : t.letter ≠ '.' := by
  cases t with
  | base t => cases t <;> decide
  | void => decide

mutual

theorem ReferenceSignature.WellFormed.dots (hr : r.NamesClasses) :
    ∀ {t : ReferenceSignature}, t.WellFormed → r.Dots (t.rename r).chars t.members
  | .classType name _, ⟨hname, hsuffixes⟩ =>
    .append (.cons (by decide) (.name (r.isName_applyText hr hname).2)) (hsuffixes.dots hr name)
  | .typeVariable _, h =>
    .append (.cons (by decide) (.name fun c hc => endsName_of_endsIdentifier (h.2 c hc)))
      (.cons (by decide) .nil)
  | .array element, h => .cons (by decide) ((show element.WellFormed from h).dots hr)
  | .simpleArray t, _ => .cons (by decide) (.cons t.letter_ne_dot .nil)

theorem ClassSuffixes.WellFormed.dots (hr : r.NamesClasses) (outer : String) :
    ∀ {x : ClassSuffixes}, x.WellFormed → r.Dots (x.rename r outer).chars (x.members outer)
  | .done, _ => .cons (by decide) .nil
  | .arguments _ _, ⟨harguments, hrest⟩ =>
    .append (.cons (by decide) (harguments.dots hr)) (hrest.dots hr outer)
  | .inner name _, ⟨hname, hrest⟩ =>
    .member hr outer hname (SignatureReader.exists_chars_suffixes _) (hrest.dots hr _)

theorem TypeArguments.WellFormed.dots (hr : r.NamesClasses) :
    ∀ {as : TypeArguments}, as.WellFormed → r.Dots (as.rename r).chars as.members
  | .done, _ => .cons (by decide) .nil
  | .wildcard rest, h => .cons (by decide) ((show rest.WellFormed from h).dots hr)
  | .type bound _ _, ⟨htype, hrest⟩ =>
    have hbound : r.Dots bound.chars [] := .of_not_mem (by cases bound <;> decide)
    .append (hbound.append (htype.dots hr)) (hrest.dots hr)

end

theorem TypeSignature.WellFormed.dots (hr : r.NamesClasses) {t : TypeSignature}
    (h : t.WellFormed) : r.Dots (t.rename r).chars t.members := by
  cases t with
  | simple t => exact .cons t.letter_ne_dot .nil
  | reference t => exact ReferenceSignature.WellFormed.dots hr h

theorem TypeParameter.WellFormed.dots (hr : r.NamesClasses) {p : TypeParameter}
    {rest : List Char} (h : p.WellFormed rest) : r.Dots (p.rename r).chars p.members := by
  have hname : r.Dots p.name.toList [] :=
    .name fun c hc => endsName_of_endsIdentifier (h.name.2 c hc)
  have hclass : r.Dots (':' :: (p.rename r).classBound.elim [] ReferenceSignature.chars)
      (p.classBound.elim [] ReferenceSignature.members) :=
    .cons (by decide) (.elim fun t ht => (h.classBound t ht).dots hr)
  have hinterfaces : r.Dots ((p.rename r).interfaceBounds.flatMap (':' :: ·.chars))
      (p.interfaceBounds.flatMap ReferenceSignature.members) :=
    .flatMap fun t ht => .cons (by decide) ((h.interfaceBounds t ht).dots hr)
  exact (hname.append hclass).append hinterfaces

theorem SignatureBody.WellFormed.dots (hr : r.NamesClasses) {b : SignatureBody}
    (h : b.WellFormed) : r.Dots (b.rename r).chars b.members := by
  cases b with
  | method parameters result thrown =>
    obtain ⟨hparameters, hresult, hthrown⟩ := h
    have hopen : r.Dots ('(' :: (parameters.map (·.rename r)).flatMap TypeSignature.chars)
        (parameters.flatMap TypeSignature.members) :=
      .cons (by decide) (.flatMap fun t ht => (hparameters t ht).dots hr)
    have hclose : r.Dots (')' :: (result.rename r).chars) result.members :=
      .cons (by decide) (hresult.dots hr)
    have hmarked : r.Dots ((thrown.map (·.rename r)).flatMap ('^' :: ·.chars))
        (thrown.flatMap ReferenceSignature.members) :=
      .flatMap fun t ht => .cons (by decide) ((hthrown t ht).dots hr)
    exact (hopen.append hclose).append hmarked
  | types ts => exact .flatMap fun t ht => (h.2 t ht).dots hr

theorem Signature.WellFormed.dots (hr : r.NamesClasses) {s : Signature} (h : s.WellFormed) :
    r.Dots (s.rename r).chars s.members := by
  refine .append (.elim fun ps hps => ?_) (h.body.dots hr)
  have hparameters : r.Dots ('<' :: (ps.map (·.rename r)).flatMap TypeParameter.chars)
      (ps.flatMap TypeParameter.members) := by
    refine .cons (by decide) (.flatMap fun p hp => ?_)
    obtain ⟨rest, hwf⟩ := (h.typeParameters ps hps).exists_of_mem p hp
    exact hwf.dots hr
  have hclosed := hparameters.append (.cons (c := '>') (by decide) .nil)
  rwa [List.append_nil] at hclosed

theorem Signature.WellFormed.dotsBeforeIdentifiers {s : Signature} (h : s.WellFormed) :
    DotsBeforeIdentifiers s.chars := by
  have hdots := h.dots (r := .identity) nofun []
  rw [s.rename_of_keeps (Renaming.keeps_identity _), List.append_nil] at hdots
  exact hdots.2 ⟨h.isName_members, trivial⟩

end Trees

theorem Renaming.namesClasses_ofTable {table : List (String × BinaryName)}
    (h : ∀ entry ∈ table, entry.2.MarkFree) : (ofTable table).NamesClasses := by
  intro name target htarget
  obtain ⟨before, after, hsplit, -⟩ := List.lookup_eq_some_iff.1 htarget
  have hmem : (name, target) ∈ table := by
    rw [← List.mem_reverse, hsplit]
    exact List.mem_append_right _ List.mem_cons_self
  exact (h _ hmem).isName

namespace SignatureText

/--
A signature is read again after renaming exactly if what then stands for each member of a class in
it is an identifier: neither nothing nor a name with a slash.
-/
theorem isSome_scan_rename_iff {table : List (String × BinaryName)}
    (htable : ∀ entry ∈ table, entry.2.MarkFree) {text : SignatureText} {s : Signature}
    (hscan : text.scan.1 = some s) :
    (scan (rename (.ofTable table) text)).1.isSome = true
      ↔ ∀ m ∈ s.members, (Renaming.ofTable table).NamesMember m := by
  have hr := Renaming.namesClasses_ofTable htable
  obtain ⟨hwf, -, -⟩ := of_scan hscan
  rw [rename, hscan]
  dsimp only
  constructor
  · intro hsome
    obtain ⟨s', hscan'⟩ := Option.isSome_iff_exists.1 hsome
    obtain ⟨hwf', hrender, -⟩ := of_scan hscan'
    have hdots := hwf'.dotsBeforeIdentifiers
    rw [← String.ofList_injective hrender, ← List.append_nil (Signature.chars _)] at hdots
    exact ((hwf.dots hr []).1 hdots).1
  · intro hmembers
    rw [scan_render (hwf.rename hr hmembers)]
    rfl

theorem isSome_scan_rename_nested :
    let arguments : TypeArguments := .type .exact (.typeVariable "T") .done
    let s : Signature := ⟨none, .types [.classType "p/Outer"
      (.arguments arguments (.inner "Inner" (.arguments arguments .done)))]⟩
    let table : List (String × BinaryName) :=
      [("p/Outer", ⟨"q/Renamed", by decide⟩), ("p/Outer$Inner", ⟨"q/Renamed$Nested", by decide⟩)]
    (∀ entry ∈ table, entry.2.MarkFree) ∧ (scan "Lp/Outer<TT;>.Inner<TT;>;").1 = some s
      ∧ rename (.ofTable table) "Lp/Outer<TT;>.Inner<TT;>;" = "Lq/Renamed<TT;>.Nested<TT;>;"
      ∧ (scan (rename (.ofTable table) "Lp/Outer<TT;>.Inner<TT;>;")).1.isSome = true := by
  intro arguments s table
  have htable : ∀ entry ∈ table, entry.2.MarkFree := by decide +kernel
  have hscan : (scan "Lp/Outer<TT;>.Inner<TT;>;").1 = some s := rfl
  refine ⟨htable, hscan, by decide +kernel, (isSome_scan_rename_iff htable hscan).2 ?_⟩
  decide +kernel

/-- A member that moves to another package gets the whole of its new name. -/
theorem scan_rename_moved_member :
    let table : List (String × BinaryName) := [("A$B", ⟨"p/C", by decide⟩)]
    (∀ entry ∈ table, entry.2.MarkFree) ∧ (scan "LA.B;").1.isSome = true
      ∧ rename (.ofTable table) "LA.B;" = "LA.p/C;"
      ∧ (scan (rename (.ofTable table) "LA.B;")).1 = none := by
  intro table
  have hrename : rename (.ofTable table) "LA.B;" = "LA.p/C;" := by decide +kernel
  refine ⟨by decide +kernel, rfl, hrename, ?_⟩
  rw [hrename]
  rfl

end SignatureText

end ClassPatch
