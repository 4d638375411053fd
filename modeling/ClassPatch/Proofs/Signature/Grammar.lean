import ClassPatch.Proofs.Signature.Steps

/-!
Which trees are those of signatures. A tree that was read is well formed and stands for the
characters that were passed; a well-formed tree is read from its characters, with fuel enough for
their number.
-/

namespace ClassPatch

open SignatureReader

/-- Characters that end the name of a member, of a variable or of a parameter. -/
def endsIdentifier (c : Char) : Bool := endsName c || c == '/'

theorem endsName_of_endsIdentifier {c : Char} (h : endsIdentifier c = false) :
    endsName c = false :=
  (Bool.or_eq_false_iff.1 h).1

mutual

def ReferenceSignature.WellFormed : ReferenceSignature → Prop
  | .classType name suffixes => IsName endsName name ∧ suffixes.WellFormed
  | .typeVariable name => IsName endsIdentifier name
  | .array element => element.WellFormed
  | .simpleArray _ => True

def ClassSuffixes.WellFormed : ClassSuffixes → Prop
  | .done => True
  | .arguments arguments rest => arguments.WellFormed ∧ rest.WellFormed
  | .inner name rest => IsName endsIdentifier name ∧ rest.WellFormed

def TypeArguments.WellFormed : TypeArguments → Prop
  | .done => True
  | .wildcard rest => rest.WellFormed
  | .type _ type rest => type.WellFormed ∧ rest.WellFormed

end

def TypeSignature.WellFormed : TypeSignature → Prop
  | .simple _ => True
  | .reference t => t.WellFormed

/-- Characters that references start with. -/
def startsReference (c : Char) : Prop := c = 'L' ∨ c = 'T' ∨ c = '['

instance : DecidablePred startsReference := fun c =>
  inferInstanceAs (Decidable (c = 'L' ∨ c = 'T' ∨ c = '['))

/--
A type parameter that stands before the given characters. Without bounds, it would take a reference
there for its bound.
-/
structure TypeParameter.WellFormed (p : TypeParameter) (rest : List Char) : Prop where
  name : IsName endsIdentifier p.name
  classBound : ∀ t ∈ p.classBound, t.WellFormed
  interfaceBounds : ∀ t ∈ p.interfaceBounds, t.WellFormed
  unbounded : p.classBound = none → p.interfaceBounds = [] → ∀ c ∈ rest.head?, ¬ startsReference c

theorem TypeParameter.WellFormed.congr {p : TypeParameter} {rest rest' : List Char}
    (h : p.WellFormed rest) (hrest : rest.head? = rest'.head?) : p.WellFormed rest' where
  name := h.name
  classBound := h.classBound
  interfaceBounds := h.interfaceBounds
  unbounded := hrest ▸ h.unbounded

/-- Items of which each is as it may be before the characters of the others and the rest. -/
def Follow {α : Type} (chars : α → List Char) (P : α → List Char → Prop) :
    List α → List Char → Prop
  | [], _ => True
  | a :: as, rest => P a (as.flatMap chars ++ rest) ∧ Follow chars P as rest

section Follow

variable {α : Type} {chars : α → List Char} {P : α → List Char → Prop}

theorem follow_iff_forall {Q : α → Prop} {as : List α} {rest : List Char} :
    Follow chars (fun a _ => Q a) as rest ↔ ∀ a ∈ as, Q a := by
  induction as with
  | nil => exact ⟨fun _ _ ha => absurd ha List.not_mem_nil, fun _ => trivial⟩
  | cons a as ih => rw [Follow, ih, List.forall_mem_cons]

theorem head?_append_congr {as : List Char} {rest rest' : List Char}
    (h : rest.head? = rest'.head?) : (as ++ rest).head? = (as ++ rest').head? := by
  cases as with
  | nil => exact h
  | cons a as => rfl

theorem Follow.congr {as : List α} {rest rest' : List Char} (h : Follow chars P as rest)
    (hP : ∀ a cs cs', cs.head? = cs'.head? → P a cs → P a cs') (hrest : rest.head? = rest'.head?) :
    Follow chars P as rest' := by
  induction as with
  | nil => trivial
  | cons a as ih => exact ⟨hP a _ _ (head?_append_congr hrest) h.1, ih h.2⟩

end Follow

def SignatureBody.WellFormed : SignatureBody → Prop
  | .method parameters result thrown =>
    (∀ t ∈ parameters, t.WellFormed) ∧ result.WellFormed ∧ ∀ t ∈ thrown, t.WellFormed
  | .types ts => ts ≠ [] ∧ ∀ t ∈ ts, t.WellFormed

structure Signature.WellFormed (s : Signature) : Prop where
  typeParameters : ∀ ps ∈ s.typeParameters,
    Follow TypeParameter.chars TypeParameter.WellFormed ps ['>']
  body : s.body.WellFormed

section Heads

theorem ReferenceSignature.exists_chars (t : ReferenceSignature) :
    ∃ c cs, t.chars = c :: cs ∧ startsReference c := by
  cases t with
  | classType name suffixes => exact ⟨'L', _, rfl, .inl rfl⟩
  | typeVariable name => exact ⟨'T', _, rfl, .inr (.inl rfl)⟩
  | array element => exact ⟨'[', _, rfl, .inr (.inr rfl)⟩
  | simpleArray element => exact ⟨'[', _, rfl, .inr (.inr rfl)⟩

end Heads

namespace SignatureReader

theorem simpleType_of_letter {c : Char} {t : SimpleType} (h : SimpleType.ofLetter? c = some t) :
    t.letter = c := by
  unfold SimpleType.ofLetter? at h
  split at h
  · cases h
    rfl
  · obtain ⟨b, hb, rfl⟩ := Option.map_eq_some_iff.1 h
    unfold BaseType.ofLetter? at hb
    split at hb <;> cases hb <;> rfl

mutual

theorem passes_reference : ∀ (fuel : Nat) {s s' : SignatureScan} {t : ReferenceSignature},
    (reference fuel).run s = (some t, s') → t.WellFormed ∧ s.Passes s' t.chars t.names
  | 0, s, s', t, h => by cases h
  | fuel + 1, s, s', t, h => by
    rw [reference] at h
    obtain ⟨c, hc, h⟩ := exists_of_run_peek_bind h
    split at h
    case h_1 =>
      obtain ⟨u, s₂, hskip, h⟩ := run_bind_eq_some.1 h
      obtain ⟨name, s₃, hname, h⟩ := run_bind_eq_some.1 h
      obtain ⟨u', s₄, hmention, h⟩ := run_bind_eq_some.1 h
      obtain ⟨x, s₅, hsuffixes, h⟩ := run_bind_eq_some.1 h
      obtain ⟨rfl, rfl⟩ := run_pure_eq_some.1 h
      obtain ⟨hisName, hpasses⟩ := passes_identifierUntil hname
      obtain ⟨hx, hpasses'⟩ := passes_suffixes name fuel hsuffixes
      refine ⟨⟨hisName, hx⟩, ?_⟩
      simpa [ReferenceSignature.chars, ReferenceSignature.names] using
        (((passes_skip hc hskip).trans hpasses).trans (passes_mention hmention)).trans hpasses'
    case h_2 =>
      obtain ⟨u, s₂, hskip, h⟩ := run_bind_eq_some.1 h
      obtain ⟨name, s₃, hname, h⟩ := run_bind_eq_some.1 h
      obtain ⟨u', s₄, hexpect, h⟩ := run_bind_eq_some.1 h
      obtain ⟨rfl, rfl⟩ := run_pure_eq_some.1 h
      obtain ⟨hisName, hpasses⟩ := passes_identifierUntil hname
      refine ⟨hisName, ?_⟩
      simpa [ReferenceSignature.chars, ReferenceSignature.names] using
        ((passes_skip hc hskip).trans hpasses).trans (passes_expect hexpect)
    case h_3 =>
      obtain ⟨u, s₂, hskip, h⟩ := run_bind_eq_some.1 h
      obtain ⟨d, hd, h⟩ := exists_of_run_peek_bind h
      split at h
      next t hletter =>
        obtain ⟨u', s₄, hskip', h⟩ := run_bind_eq_some.1 h
        obtain ⟨rfl, rfl⟩ := run_pure_eq_some.1 h
        refine ⟨trivial, ?_⟩
        simpa [ReferenceSignature.chars, ReferenceSignature.names, simpleType_of_letter hletter]
          using (passes_skip hc hskip).trans (passes_skip hd hskip')
      next =>
        obtain ⟨element, s₄, helement, h⟩ := run_bind_eq_some.1 h
        obtain ⟨rfl, rfl⟩ := run_pure_eq_some.1 h
        obtain ⟨hwf, hpasses⟩ := passes_reference fuel helement
        refine ⟨hwf, ?_⟩
        simpa [ReferenceSignature.chars, ReferenceSignature.names] using
          (passes_skip hc hskip).trans hpasses
    case h_4 => cases h

theorem passes_suffixes (outer : String) : ∀ (fuel : Nat) {s s' : SignatureScan}
    {x : ClassSuffixes}, (suffixes outer fuel).run s = (some x, s') →
    x.WellFormed ∧ s.Passes s' x.chars (x.names outer)
  | 0, s, s', x, h => by cases h
  | fuel + 1, s, s', x, h => by
    rw [suffixes] at h
    obtain ⟨c, hc, h⟩ := exists_of_run_peek_bind h
    split at h
    case h_1 =>
      obtain ⟨u, s₂, hskip, h⟩ := run_bind_eq_some.1 h
      obtain ⟨as, s₃, harguments, h⟩ := run_bind_eq_some.1 h
      obtain ⟨x, s₄, hsuffixes, h⟩ := run_bind_eq_some.1 h
      obtain ⟨rfl, rfl⟩ := run_pure_eq_some.1 h
      obtain ⟨has, hpasses⟩ := passes_arguments fuel harguments
      obtain ⟨hx, hpasses'⟩ := passes_suffixes outer fuel hsuffixes
      refine ⟨⟨has, hx⟩, ?_⟩
      simpa [ClassSuffixes.chars, ClassSuffixes.names] using
        ((passes_skip hc hskip).trans hpasses).trans hpasses'
    case h_2 =>
      obtain ⟨u, s₂, hskip, h⟩ := run_bind_eq_some.1 h
      obtain ⟨name, s₃, hname, h⟩ := run_bind_eq_some.1 h
      obtain ⟨u', s₄, hmention, h⟩ := run_bind_eq_some.1 h
      obtain ⟨x, s₅, hsuffixes, h⟩ := run_bind_eq_some.1 h
      obtain ⟨rfl, rfl⟩ := run_pure_eq_some.1 h
      obtain ⟨hisName, hpasses⟩ := passes_identifierUntil hname
      obtain ⟨hx, hpasses'⟩ := passes_suffixes _ fuel hsuffixes
      refine ⟨⟨hisName, hx⟩, ?_⟩
      simpa [ClassSuffixes.chars, ClassSuffixes.names] using
        (((passes_skip hc hskip).trans hpasses).trans (passes_mention hmention)).trans hpasses'
    case h_3 =>
      obtain ⟨u, s₂, hskip, h⟩ := run_bind_eq_some.1 h
      obtain ⟨rfl, rfl⟩ := run_pure_eq_some.1 h
      exact ⟨trivial, passes_skip hc hskip⟩
    case h_4 => cases h

theorem passes_arguments : ∀ (fuel : Nat) {s s' : SignatureScan} {as : TypeArguments},
    (arguments fuel).run s = (some as, s') → as.WellFormed ∧ s.Passes s' as.chars as.names
  | 0, s, s', as, h => by cases h
  | fuel + 1, s, s', as, h => by
    rw [arguments] at h
    obtain ⟨c, hc, h⟩ := exists_of_run_peek_bind h
    split at h
    case h_1 =>
      obtain ⟨u, s₂, hskip, h⟩ := run_bind_eq_some.1 h
      obtain ⟨rfl, rfl⟩ := run_pure_eq_some.1 h
      exact ⟨trivial, passes_skip hc hskip⟩
    case h_2 =>
      obtain ⟨u, s₂, hskip, h⟩ := run_bind_eq_some.1 h
      obtain ⟨rest, s₃, hrest, h⟩ := run_bind_eq_some.1 h
      obtain ⟨rfl, rfl⟩ := run_pure_eq_some.1 h
      obtain ⟨hwf, hpasses⟩ := passes_arguments fuel hrest
      refine ⟨hwf, ?_⟩
      simpa [TypeArguments.chars, TypeArguments.names] using (passes_skip hc hskip).trans hpasses
    case h_3 | h_4 =>
      obtain ⟨u, s₂, hskip, h⟩ := run_bind_eq_some.1 h
      obtain ⟨t, s₃, ht, h⟩ := run_bind_eq_some.1 h
      obtain ⟨rest, s₄, hrest, h⟩ := run_bind_eq_some.1 h
      obtain ⟨rfl, rfl⟩ := run_pure_eq_some.1 h
      obtain ⟨htwf, hpasses⟩ := passes_reference fuel ht
      obtain ⟨hwf, hpasses'⟩ := passes_arguments fuel hrest
      refine ⟨⟨htwf, hwf⟩, ?_⟩
      simpa [TypeArguments.chars, TypeArguments.names, ArgumentBound.chars] using
        ((passes_skip hc hskip).trans hpasses).trans hpasses'
    case h_5 =>
      obtain ⟨t, s₃, ht, h⟩ := run_bind_eq_some.1 h
      obtain ⟨rest, s₄, hrest, h⟩ := run_bind_eq_some.1 h
      obtain ⟨rfl, rfl⟩ := run_pure_eq_some.1 h
      obtain ⟨htwf, hpasses⟩ := passes_reference fuel ht
      obtain ⟨hwf, hpasses'⟩ := passes_arguments fuel hrest
      refine ⟨⟨htwf, hwf⟩, ?_⟩
      simpa [TypeArguments.chars, TypeArguments.names, ArgumentBound.chars] using
        hpasses.trans hpasses'

end

theorem passes_type (fuel : Nat) {s s' : SignatureScan} {t : TypeSignature}
    (h : (type fuel).run s = (some t, s')) : t.WellFormed ∧ s.Passes s' t.chars t.names := by
  unfold type at h
  obtain ⟨c, hc, h⟩ := exists_of_run_peek_bind h
  split at h
  next t hletter =>
    obtain ⟨u, s₁, hskip, h⟩ := run_bind_eq_some.1 h
    obtain ⟨rfl, rfl⟩ := run_pure_eq_some.1 h
    refine ⟨trivial, ?_⟩
    rw [TypeSignature.chars, simpleType_of_letter hletter]
    exact passes_skip hc hskip
  next =>
    obtain ⟨t, s₁, ht, h⟩ := run_bind_eq_some.1 h
    obtain ⟨rfl, rfl⟩ := run_pure_eq_some.1 h
    exact passes_reference fuel ht

section Loops

variable {α : Type} {more : SignatureReader Bool} {item : SignatureReader α}
  {chars : α → List Char} {names : α → List String} {P : α → List Char → Prop}

theorem passes_whileTrue
    (hmore : ∀ {s s' : SignatureScan} {b : Bool}, more.run s = (some b, s') → s' = s)
    (hitem : ∀ {s s' : SignatureScan} {a : α}, more.run s = (some true, s) →
      item.run s = (some a, s') → P a s'.rest ∧ s.Passes s' (chars a) (names a)) :
    ∀ (fuel : Nat) {s s' : SignatureScan} {as : List α},
      (whileTrue more item fuel).run s = (some as, s') →
      Follow chars P as s'.rest ∧ s.Passes s' (as.flatMap chars) (as.flatMap names)
        ∧ more.run s' = (some false, s')
  | 0, s, s', as, h => by cases h
  | fuel + 1, s, s', as, h => by
    unfold whileTrue at h
    obtain ⟨b, s₁, hb, h⟩ := run_bind_eq_some.1 h
    have hs := hmore hb
    rw [hs] at hb h
    cases b with
    | true =>
      rw [if_pos rfl] at h
      obtain ⟨a, s₂, ha, h⟩ := run_bind_eq_some.1 h
      obtain ⟨as, s₃, has, h⟩ := run_bind_eq_some.1 h
      obtain ⟨rfl, rfl⟩ := run_pure_eq_some.1 h
      obtain ⟨hP, hpasses⟩ := hitem hb ha
      obtain ⟨hfollow, hpasses', hend⟩ := passes_whileTrue hmore hitem fuel has
      rw [hpasses'.rest] at hP
      exact ⟨⟨hP, hfollow⟩, hpasses.trans hpasses', hend⟩
    | false =>
      rw [if_neg Bool.false_ne_true] at h
      obtain ⟨rfl, rfl⟩ := run_pure_eq_some.1 h
      exact ⟨trivial, .refl s, hb⟩

theorem passes_marked (mark : Char) {more : SignatureReader Bool}
    (hmore : ∀ {s s' : SignatureScan} {b : Bool}, more.run s = (some b, s') → s' = s)
    (hmark : ∀ {s : SignatureScan}, more.run s = (some true, s) → s.rest.head? = some mark)
    (fuel : Nat) {s s' : SignatureScan} {ts : List ReferenceSignature}
    (h : (whileTrue more (do skip; reference fuel) fuel).run s = (some ts, s')) :
    (∀ t ∈ ts, t.WellFormed)
      ∧ s.Passes s' (ts.flatMap (mark :: ·.chars)) (ts.flatMap ReferenceSignature.names)
      ∧ more.run s' = (some false, s') := by
  have hitem : ∀ {s s' : SignatureScan} {t : ReferenceSignature}, more.run s = (some true, s) →
      (do skip; reference fuel : SignatureReader ReferenceSignature).run s = (some t, s') →
      t.WellFormed ∧ s.Passes s' (mark :: t.chars) t.names := by
    intro s s' t htrue hrun
    obtain ⟨u, s₁, hskip, ht⟩ := run_bind_eq_some.1 hrun
    obtain ⟨hwf, hpasses⟩ := passes_reference fuel ht
    exact ⟨hwf, (passes_skip (hmark htrue) hskip).trans hpasses⟩
  obtain ⟨hfollow, hpasses, hend⟩ :=
    passes_whileTrue (P := fun t _ => t.WellFormed) hmore hitem fuel h
  exact ⟨follow_iff_forall.1 hfollow, hpasses, hend⟩

end Loops

section More

variable {s s' : SignatureScan} {b : Bool} {p : Char → Prop} [DecidablePred p]

theorem run_peek_decide_eq_some
    (h : (do return decide (p (← peek)) : SignatureReader Bool).run s = (some b, s')) :
    s' = s ∧ ∃ c, s.rest.head? = some c ∧ b = decide (p c) := by
  obtain ⟨c, hc, h⟩ := exists_of_run_peek_bind h
  obtain ⟨rfl, rfl⟩ := run_pure_eq_some.1 h
  exact ⟨rfl, c, hc, rfl⟩

theorem run_peek?_decide_eq_some {f : Option Char → Bool}
    (h : (do return f (← peek?) : SignatureReader Bool).run s = (some b, s')) :
    s' = s ∧ f s.rest.head? = b := by
  obtain ⟨o, s₁, ho, h⟩ := run_bind_eq_some.1 h
  obtain ⟨rfl, rfl⟩ := run_peek?_eq_some ho
  obtain ⟨hb, rfl⟩ := run_pure_eq_some.1 h
  exact ⟨rfl, hb⟩

theorem head?_of_more
    (h : (do return decide (p (← peek)) : SignatureReader Bool).run s = (some true, s')) :
    ∃ c, s.rest.head? = some c ∧ p c := by
  obtain ⟨-, c, hc, htrue⟩ := run_peek_decide_eq_some h
  exact ⟨c, hc, of_decide_eq_true htrue.symm⟩

theorem head?_of_no_more
    (h : (do return decide (p (← peek)) : SignatureReader Bool).run s = (some false, s')) :
    ∃ c, s.rest.head? = some c ∧ ¬ p c := by
  obtain ⟨-, c, hc, hfalse⟩ := run_peek_decide_eq_some h
  exact ⟨c, hc, of_decide_eq_false hfalse.symm⟩

end More

theorem passes_interfaceBounds (fuel : Nat) {name : String} {classBound : Option ReferenceSignature}
    {s s' : SignatureScan} {p : TypeParameter}
    (h : (do
      let interfaceBounds ← whileTrue (return (← peek) = ':') (do skip; reference fuel) fuel
      return { name, classBound, interfaceBounds } : SignatureReader TypeParameter).run s
        = (some p, s')) :
    p.name = name ∧ p.classBound = classBound ∧ (∀ t ∈ p.interfaceBounds, t.WellFormed)
      ∧ s.Passes s' (p.interfaceBounds.flatMap (':' :: ·.chars))
        (p.interfaceBounds.flatMap ReferenceSignature.names) := by
  obtain ⟨ts, s₁, hts, h⟩ := run_bind_eq_some.1 h
  obtain ⟨rfl, rfl⟩ := run_pure_eq_some.1 h
  have hmarked {s : SignatureScan}
      (h : (return decide ((← peek) = ':') : SignatureReader Bool).run s = (some true, s)) :
      s.rest.head? = some ':' := by
    obtain ⟨c, hc, rfl⟩ := head?_of_more h
    exact hc
  obtain ⟨hwf, hpasses, -⟩ :=
    passes_marked ':' (fun h => (run_peek_decide_eq_some h).1) hmarked fuel hts
  exact ⟨rfl, rfl, hwf, hpasses⟩

theorem passes_typeParameter (fuel : Nat) {s s' : SignatureScan} {p : TypeParameter}
    (h : (typeParameter fuel).run s = (some p, s')) :
    p.WellFormed s'.rest ∧ s.Passes s' p.chars p.names := by
  unfold typeParameter at h
  obtain ⟨name, s₁, hname, h⟩ := run_bind_eq_some.1 h
  obtain ⟨u, s₂, hcolon, h⟩ := run_bind_eq_some.1 h
  obtain ⟨c, hc, h⟩ := exists_of_run_peek_bind h
  obtain ⟨hisName, hpasses⟩ := passes_identifierUntil hname
  have hpasses' := hpasses.trans (passes_expect hcolon)
  dsimp only at h
  split at h
  next hstarts =>
    obtain ⟨o, s₃, ho, h⟩ := run_bind_eq_some.1 h
    obtain ⟨t, s₄, ht, ho⟩ := run_bind_eq_some.1 ho
    obtain ⟨rfl, rfl⟩ := run_pure_eq_some.1 ho
    obtain ⟨hwf, hpasses₁⟩ := passes_reference fuel ht
    obtain ⟨rfl, hbound, hbounds, hpasses₂⟩ := passes_interfaceBounds fuel h
    refine ⟨⟨hisName, ?_, hbounds, ?_⟩, ?_⟩
    · rw [hbound]
      intro t' ht'
      cases ht'
      exact hwf
    · rw [hbound]
      intro hnone
      cases hnone
    · simpa [TypeParameter.chars, TypeParameter.names, hbound] using
        (hpasses'.trans hpasses₁).trans hpasses₂
  next hstarts =>
    obtain ⟨o, s₃, ho, h⟩ := run_bind_eq_some.1 h
    obtain ⟨rfl, rfl⟩ := run_pure_eq_some.1 ho
    obtain ⟨rfl, hbound, hbounds, hpasses₂⟩ := passes_interfaceBounds fuel h
    refine ⟨⟨hisName, ?_, hbounds, ?_⟩, ?_⟩
    · rw [hbound]
      intro t ht
      cases ht
    · intro _ hnil d hd
      have hrest := hpasses₂.rest
      rw [hnil, List.flatMap_nil, List.nil_append] at hrest
      rw [hrest] at hc
      obtain rfl := Option.some.inj (hc.symm.trans hd)
      exact hstarts
    · simpa [TypeParameter.chars, TypeParameter.names, hbound] using hpasses'.trans hpasses₂

theorem passes_typeParameters (fuel : Nat) {s s' : SignatureScan} {ps : List TypeParameter}
    (hc : s.rest.head? = some '<') (h : (typeParameters fuel).run s = (some ps, s')) :
    Follow TypeParameter.chars TypeParameter.WellFormed ps ('>' :: s'.rest)
      ∧ s.Passes s' ('<' :: ps.flatMap TypeParameter.chars ++ ['>'])
        (ps.flatMap TypeParameter.names) := by
  unfold typeParameters at h
  obtain ⟨u, s₁, hskip, h⟩ := run_bind_eq_some.1 h
  obtain ⟨ps, s₂, hps, h⟩ := run_bind_eq_some.1 h
  obtain ⟨u', s₃, hskip', h⟩ := run_bind_eq_some.1 h
  obtain ⟨rfl, rfl⟩ := run_pure_eq_some.1 h
  obtain ⟨hfollow, hpasses, hend⟩ := passes_whileTrue (fun h => (run_peek_decide_eq_some h).1)
    (fun _ h => passes_typeParameter fuel h) fuel hps
  obtain ⟨c, hc', hnot⟩ := head?_of_no_more hend
  obtain rfl := Decidable.not_not.1 hnot
  have hpasses' := passes_skip hc' hskip'
  refine ⟨?_, ?_⟩
  · rw [hpasses'.rest] at hfollow
    exact hfollow
  · simpa using ((passes_skip hc hskip).trans hpasses).trans hpasses'

theorem passes_method (fuel : Nat) {s s' : SignatureScan} {body : SignatureBody}
    (hc : s.rest.head? = some '(') (h : (method fuel).run s = (some body, s')) :
    body.WellFormed ∧ s.Passes s' body.chars body.names := by
  unfold method at h
  obtain ⟨u, s₁, hskip, h⟩ := run_bind_eq_some.1 h
  obtain ⟨parameters, s₂, hparameters, h⟩ := run_bind_eq_some.1 h
  obtain ⟨u', s₃, hskip', h⟩ := run_bind_eq_some.1 h
  obtain ⟨result, s₄, hresult, h⟩ := run_bind_eq_some.1 h
  obtain ⟨thrown, s₅, hthrown, h⟩ := run_bind_eq_some.1 h
  obtain ⟨rfl, rfl⟩ := run_pure_eq_some.1 h
  obtain ⟨hfollow, hpasses₁, hend⟩ := passes_whileTrue (P := fun t _ => TypeSignature.WellFormed t)
    (fun h => (run_peek_decide_eq_some h).1) (fun _ h => passes_type fuel h) fuel hparameters
  obtain ⟨c, hc', hnot⟩ := head?_of_no_more hend
  obtain rfl := Decidable.not_not.1 hnot
  obtain ⟨hwf, hpasses₂⟩ := passes_type fuel hresult
  obtain ⟨hthrownWf, hpasses₃, -⟩ := passes_marked '^'
    (fun h => (run_peek?_decide_eq_some (f := fun o => decide (o = some '^')) h).1)
    (fun h => of_decide_eq_true
      (run_peek?_decide_eq_some (f := fun o => decide (o = some '^')) h).2) fuel hthrown
  refine ⟨⟨follow_iff_forall.1 hfollow, hwf, hthrownWf⟩, ?_⟩
  simpa [SignatureBody.chars, SignatureBody.names] using
    ((((passes_skip hc hskip).trans hpasses₁).trans (passes_skip hc' hskip')).trans
      hpasses₂).trans hpasses₃

section Parts

variable (fuel : Nat)

/-! The parts of a signature, each of which starts with a look at the next character. -/

def parametersIfAny : SignatureReader (Option (List TypeParameter)) := do
  if (← peek) = '<' then some <$> typeParameters fuel else pure none

def body : SignatureReader SignatureBody := do
  if (← peek) = '(' then method fuel
  else .types <$> whileTrue (return (← peek?).isSome) (reference fuel) fuel

def endOfText : SignatureReader Unit := do
  if (← peek?).isSome then failure

theorem signature_eq : signature fuel = do
    let typeParameters ← parametersIfAny fuel
    let body ← body fuel
    endOfText
    return { typeParameters, body } := by
  have hite {α β : Type} (p : Prop) [Decidable p] (x y : SignatureReader α)
      (f : α → SignatureReader β) :
      (if p then x else y) >>= f = if p then x >>= f else y >>= f := apply_ite (· >>= f) p x y
  unfold signature parametersIfAny body endOfText
  simp only [bind_assoc, hite, pure_bind]

end Parts

theorem passes_parametersIfAny (fuel : Nat) {s s' : SignatureScan}
    {ps : Option (List TypeParameter)} (h : (parametersIfAny fuel).run s = (some ps, s')) :
    (∀ qs ∈ ps, Follow TypeParameter.chars TypeParameter.WellFormed qs ['>'])
      ∧ s.Passes s' (ps.elim [] fun qs => '<' :: qs.flatMap TypeParameter.chars ++ ['>'])
        (ps.elim [] (·.flatMap TypeParameter.names)) := by
  obtain ⟨c, hc, h⟩ := exists_of_run_peek_bind h
  split at h
  next hangle =>
    obtain ⟨qs, s₁, hqs, h⟩ := run_bind_eq_some.1 h
    obtain ⟨rfl, rfl⟩ := run_pure_eq_some.1 h
    rw [hangle] at hc
    obtain ⟨hfollow, hpasses⟩ := passes_typeParameters fuel hc hqs
    refine ⟨?_, hpasses⟩
    intro qs' hqs'
    rw [← Option.mem_some.1 hqs']
    exact hfollow.congr (fun _ _ _ heq h => h.congr heq) rfl
  next =>
    obtain ⟨rfl, rfl⟩ := run_pure_eq_some.1 h
    exact ⟨fun _ hqs => absurd hqs (Option.not_mem_none _), .refl s⟩

theorem passes_body (fuel : Nat) {s s' : SignatureScan} {b : SignatureBody}
    (h : (body fuel).run s = (some b, s')) : b.WellFormed ∧ s.Passes s' b.chars b.names := by
  obtain ⟨c, hc, h⟩ := exists_of_run_peek_bind h
  split at h
  next hparen =>
    rw [hparen] at hc
    exact passes_method fuel hc h
  next =>
    obtain ⟨ts, s₁, hts, h⟩ := run_bind_eq_some.1 h
    obtain ⟨rfl, rfl⟩ := run_pure_eq_some.1 h
    obtain ⟨hfollow, hpasses, hend⟩ := passes_whileTrue
      (P := fun t _ => ReferenceSignature.WellFormed t) (fun h => (run_peek?_decide_eq_some h).1)
      (fun _ h => passes_reference fuel h) fuel hts
    refine ⟨⟨?_, follow_iff_forall.1 hfollow⟩, hpasses⟩
    rintro rfl
    -- without a type nothing is passed, but there is a character
    have hrest := hpasses.rest
    rw [List.flatMap_nil, List.nil_append] at hrest
    have hnone := (run_peek?_decide_eq_some hend).2
    rw [← hrest, hc] at hnone
    cases hnone

theorem rest_of_endOfText {s s' : SignatureScan} {u : Unit}
    (h : endOfText.run s = (some u, s')) : s' = s ∧ s.rest = [] := by
  obtain ⟨o, s₁, ho, hend⟩ := run_bind_eq_some.1 h
  obtain ⟨rfl, hhead⟩ := run_peek?_eq_some ho
  split at hend
  · cases hend
  · next hnone =>
    obtain ⟨-, rfl⟩ := run_pure_eq_some.1 hend
    rw [← hhead, Option.isSome_iff_ne_none, ne_eq, not_not, List.head?_eq_none_iff] at hnone
    exact ⟨rfl, hnone⟩

theorem passes_signature (fuel : Nat) {s s' : SignatureScan} {sig : Signature}
    (h : (signature fuel).run s = (some sig, s')) :
    sig.WellFormed ∧ s.Passes s' sig.chars sig.names ∧ s'.rest = [] := by
  rw [signature_eq] at h
  obtain ⟨ps, s₁, hps, h⟩ := run_bind_eq_some.1 h
  obtain ⟨b, s₂, hb, h⟩ := run_bind_eq_some.1 h
  obtain ⟨u, s₃, hend, h⟩ := run_bind_eq_some.1 h
  obtain ⟨rfl, rfl⟩ := run_pure_eq_some.1 h
  obtain ⟨rfl, hrest⟩ := rest_of_endOfText hend
  obtain ⟨hfollow, hpasses⟩ := passes_parametersIfAny fuel hps
  obtain ⟨hwf, hpasses'⟩ := passes_body fuel hb
  exact ⟨⟨hfollow, hwf⟩, hpasses.trans hpasses', hrest⟩

end SignatureReader

end ClassPatch
