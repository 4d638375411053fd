import ClassPatch.Proofs.Signature.Grammar

/-!
Reading a signature from the characters of its tree.
-/

namespace ClassPatch

namespace SignatureReader

variable {α β : Type} {chars chars' rest : List Char} {names names' : List String}

/-- Before the given rest, the reader takes the characters for a value and notes the names. -/
def Reads (x : SignatureReader α) (a : α) (chars : List Char) (names : List String)
    (rest : List Char) : Prop :=
  ∀ noted, x.run ⟨chars ++ rest, noted⟩ = (some a, ⟨rest, names.reverse ++ noted⟩)

namespace Reads

theorem pure (a : α) : Reads (Pure.pure a) a [] [] rest := fun _ => rfl

theorem bind {x : SignatureReader α} {f : α → SignatureReader β} {a : α} {b : β}
    (hx : Reads x a chars names (chars' ++ rest)) (hf : Reads (f a) b chars' names' rest) :
    Reads (x >>= f) b (chars ++ chars') (names ++ names') rest := by
  intro noted
  rw [List.append_assoc, List.reverse_append, List.append_assoc]
  exact (run_bind (hx noted) f).trans (hf _)

theorem bind_pure {x : SignatureReader α} {a : α} (f : α → β) (h : Reads x a chars names rest) :
    Reads (do return f (← x)) (f a) chars names rest :=
  fun noted => run_bind (h noted) _

theorem congr {x : SignatureReader α} {a : α} (h : Reads x a chars names rest)
    (hchars : chars = chars') (hnames : names = names') : Reads x a chars' names' rest :=
  hchars ▸ hnames ▸ h

theorem look_bind {x : SignatureReader α} {f : α → SignatureReader β} {a : α} {b : β}
    (hx : Reads x a [] [] (chars ++ rest)) (hf : Reads (f a) b chars names rest) :
    Reads (x >>= f) b chars names rest :=
  bind hx hf

theorem peek_bind_of_head? {f : Char → SignatureReader β} {b : β} {c : Char}
    (hc : (chars ++ rest).head? = some c) (h : Reads (f c) b chars names rest) :
    Reads (peek >>= f) b chars names rest := by
  obtain ⟨cs, hcs⟩ := List.head?_eq_some_iff.1 hc
  intro noted
  have hrun := h noted
  rw [hcs] at hrun ⊢
  exact (run_bind (run_peek_cons c) f).trans hrun

theorem peek_bind {f : Char → SignatureReader β} {b : β} {c : Char}
    (h : Reads (f c) b (c :: chars) names rest) :
    Reads (peek >>= f) b (c :: chars) names rest :=
  peek_bind_of_head? rfl h

theorem skip_bind {f : Unit → SignatureReader β} {b : β} {c : Char}
    (h : Reads (f ()) b chars names rest) : Reads (skip >>= f) b (c :: chars) names rest :=
  fun noted => (run_bind (run_skip_cons c) f).trans (h noted)

theorem expect_bind {f : Unit → SignatureReader β} {b : β} {c : Char}
    (h : Reads (f ()) b chars names rest) : Reads (expect c >>= f) b (c :: chars) names rest :=
  fun noted => (run_bind (run_expect_cons c) f).trans (h noted)

theorem mention (name : String) : Reads (mention name) () [] [name] rest := fun _ => rfl

theorem identifier_bind {ends : Char → Bool} {name : String} {f : String → SignatureReader β}
    {b : β} {c : Char} (hname : IsName ends name) (hnext : (chars ++ rest).head? = some c)
    (hc : ends c = true) (h : Reads (f name) b chars names rest) :
    Reads (identifierUntil ends >>= f) b (name.toList ++ chars) names rest := by
  obtain ⟨cs, hcs⟩ := List.head?_eq_some_iff.1 hnext
  intro noted
  have hrun := h noted
  rw [hcs] at hrun
  rw [List.append_assoc, hcs]
  exact (run_bind (run_identifierUntil hname hc) f).trans hrun

end Reads

theorem exists_chars_suffixes (x : ClassSuffixes) :
    ∃ c cs, x.chars = c :: cs ∧ endsName c = true := by
  cases x with
  | done => exact ⟨';', _, rfl, by decide⟩
  | arguments as rest => exact ⟨'<', _, rfl, by decide⟩
  | inner name rest => exact ⟨'.', _, rfl, by decide⟩

theorem startsReference_ne {c : Char} (h : startsReference c) :
    SimpleType.ofLetter? c = none ∧ c ≠ '>' ∧ c ≠ '*' ∧ c ≠ '+' ∧ c ≠ '-' ∧ c ≠ ')' ∧ c ≠ '('
      ∧ c ≠ '<' := by
  rcases h with rfl | rfl | rfl <;> decide

theorem exists_letter_chars (t : SimpleType) : SimpleType.ofLetter? t.letter = some t := by
  cases t with
  | base t => cases t <;> rfl
  | void => rfl

theorem length_chars_pos (t : ReferenceSignature) : 0 < t.chars.length := by
  obtain ⟨c, cs, hcs, -⟩ := t.exists_chars
  rw [hcs]
  exact Nat.succ_pos _

theorem length_chars_suffixes_pos (x : ClassSuffixes) : 0 < x.chars.length := by
  obtain ⟨c, cs, hcs, -⟩ := exists_chars_suffixes x
  rw [hcs]
  exact Nat.succ_pos _

/-! Each reader passes a character before it reads a part, or the part passes one: twice the number
of characters is fuel enough. -/

mutual

theorem reads_reference : ∀ {t : ReferenceSignature} (_ : t.WellFormed) (fuel : Nat)
    (_ : 2 * t.chars.length ≤ fuel) (rest : List Char),
    Reads (reference fuel) t t.chars t.names rest
  | t, _, 0, hfuel, _ => by
    have := length_chars_pos t
    omega
  | .classType name x, ⟨hname, hx⟩, fuel + 1, hfuel, rest => by
    simp only [ReferenceSignature.chars, List.length_cons, List.length_append] at hfuel
    obtain ⟨c, cs, hcs, hc⟩ := exists_chars_suffixes x
    have hread := reads_suffixes name hx fuel (by omega) rest
    rw [reference, ReferenceSignature.chars, ReferenceSignature.names]
    refine .peek_bind (.skip_bind (.identifier_bind hname ?_ hc
      (.bind (.mention name) (.bind_pure _ hread))))
    rw [hcs]
    rfl
  | .typeVariable name, h, fuel + 1, _, rest => by
    rw [reference, ReferenceSignature.chars, ReferenceSignature.names]
    refine .peek_bind (.skip_bind (.identifier_bind h rfl ?_ (.expect_bind (.pure _))))
    decide
  | .array element, h, fuel + 1, hfuel, rest => by
    simp only [ReferenceSignature.chars, List.length_cons] at hfuel
    obtain ⟨c, cs, hcs, hc⟩ := element.exists_chars
    have hread := reads_reference (show element.WellFormed from h) fuel (by omega) rest
    rw [hcs] at hread
    rw [reference, ReferenceSignature.chars, ReferenceSignature.names, hcs]
    refine .peek_bind (.skip_bind (.peek_bind ?_))
    rw [(startsReference_ne hc).1]
    exact .bind_pure _ hread
  | .simpleArray t, _, fuel + 1, _, rest => by
    rw [reference, ReferenceSignature.chars, ReferenceSignature.names]
    refine .peek_bind (.skip_bind (.peek_bind ?_))
    rw [exists_letter_chars t]
    exact .skip_bind (.pure _)

theorem reads_suffixes (outer : String) : ∀ {x : ClassSuffixes} (_ : x.WellFormed) (fuel : Nat)
    (_ : 2 * x.chars.length ≤ fuel) (rest : List Char),
    Reads (suffixes outer fuel) x x.chars (x.names outer) rest
  | x, _, 0, hfuel, _ => by
    have := length_chars_suffixes_pos x
    omega
  | .done, _, fuel + 1, _, rest => by
    rw [suffixes, ClassSuffixes.chars, ClassSuffixes.names]
    exact .peek_bind (.skip_bind (.pure _))
  | .arguments as x, ⟨has, hx⟩, fuel + 1, hfuel, rest => by
    simp only [ClassSuffixes.chars, List.length_cons, List.length_append] at hfuel
    have hpos := length_chars_suffixes_pos x
    have hread := reads_arguments has fuel (by omega) (x.chars ++ rest)
    have hread' := reads_suffixes outer hx fuel (by omega) rest
    rw [suffixes, ClassSuffixes.chars, ClassSuffixes.names, List.cons_append]
    exact .peek_bind (.skip_bind (.bind hread (.bind_pure _ hread')))
  | .inner name x, ⟨hname, hx⟩, fuel + 1, hfuel, rest => by
    simp only [ClassSuffixes.chars, List.length_cons, List.length_append] at hfuel
    obtain ⟨c, cs, hcs, hc⟩ := exists_chars_suffixes x
    have hc' : endsIdentifier c = true := by
      rw [endsIdentifier, hc]
      rfl
    have hread := reads_suffixes (innerClassName outer name) hx fuel (by omega) rest
    rw [suffixes, ClassSuffixes.chars, ClassSuffixes.names]
    refine .peek_bind (.skip_bind (.identifier_bind hname ?_ hc'
      (.bind (.mention _) (.bind_pure _ hread))))
    rw [hcs]
    rfl

theorem reads_arguments : ∀ {as : TypeArguments} (_ : as.WellFormed) (fuel : Nat)
    (_ : 2 * as.chars.length + 1 ≤ fuel) (rest : List Char),
    Reads (arguments fuel) as as.chars as.names rest
  | as, _, 0, hfuel, _ => by omega
  | .done, _, fuel + 1, _, rest => by
    rw [arguments, TypeArguments.chars, TypeArguments.names]
    exact .peek_bind (.skip_bind (.pure _))
  | .wildcard as, h, fuel + 1, hfuel, rest => by
    simp only [TypeArguments.chars, List.length_cons] at hfuel
    have hread := reads_arguments (show as.WellFormed from h) fuel (by omega) rest
    rw [arguments, TypeArguments.chars, TypeArguments.names]
    exact .peek_bind (.skip_bind (.bind_pure _ hread))
  | .type bound t as, ⟨ht, has⟩, fuel + 1, hfuel, rest => by
    simp only [TypeArguments.chars, List.length_append] at hfuel
    have hpos := length_chars_pos t
    obtain ⟨c, cs, hcs, hc⟩ := t.exists_chars
    have hread := reads_reference ht fuel (by omega) (as.chars ++ rest)
    have hread' := reads_arguments has fuel (by omega) rest
    rw [arguments, TypeArguments.chars, TypeArguments.names, List.append_assoc]
    cases bound with
    | upper =>
      rw [ArgumentBound.chars, List.singleton_append]
      exact .peek_bind (.skip_bind (.bind hread (.bind_pure _ hread')))
    | lower =>
      rw [ArgumentBound.chars, List.singleton_append]
      exact .peek_bind (.skip_bind (.bind hread (.bind_pure _ hread')))
    | exact =>
      obtain ⟨-, hends, hwildcard, hupper, hlower, -⟩ := startsReference_ne hc
      rw [ArgumentBound.chars, List.nil_append, hcs, List.cons_append]
      refine .peek_bind ?_
      rw [← List.cons_append, ← hcs]
      split
      · exact absurd rfl hends
      · exact absurd rfl hwildcard
      · exact absurd rfl hupper
      · exact absurd rfl hlower
      · exact .bind hread (.bind_pure _ hread')

end

theorem reads_type {t : TypeSignature} (h : t.WellFormed) (fuel : Nat)
    (hfuel : 2 * t.chars.length ≤ fuel) (rest : List Char) :
    Reads (type fuel) t t.chars t.names rest := by
  unfold type
  cases t with
  | simple t =>
    rw [TypeSignature.chars, TypeSignature.names]
    refine .peek_bind ?_
    rw [exists_letter_chars t]
    exact .skip_bind (.pure _)
  | reference t =>
    have hread := reads_reference h fuel hfuel rest
    obtain ⟨c, cs, hcs, hc⟩ := t.exists_chars
    rw [hcs] at hread
    rw [TypeSignature.chars, TypeSignature.names, hcs]
    refine .peek_bind ?_
    rw [(startsReference_ne hc).1]
    exact .bind_pure _ hread

section Loops

variable {more : SignatureReader Bool} {item : SignatureReader α} {itemChars : α → List Char}
  {itemNames : α → List String} {P : α → List Char → Prop}

theorem length_le_of_mem (itemChars : α → List Char) {as : List α} {a : α} (h : a ∈ as) :
    (itemChars a).length ≤ (as.flatMap itemChars).length := by
  obtain ⟨before, after, rfl⟩ := List.append_of_mem h
  simp only [List.flatMap_append, List.flatMap_cons, List.length_append]
  omega

theorem length_le_length_flatMap {as : List α} (h : ∀ a ∈ as, 0 < (itemChars a).length) :
    as.length ≤ (as.flatMap itemChars).length := by
  induction as with
  | nil => exact Nat.le_refl _
  | cons a as ih =>
    rw [List.forall_mem_cons] at h
    have hrest := ih h.2
    rw [List.flatMap_cons, List.length_append, List.length_cons]
    omega

theorem reads_whileTrue {as : List α}
    (hitem : ∀ a ∈ as, ∀ rest, P a rest → Reads more true [] [] (itemChars a ++ rest)
      ∧ Reads item a (itemChars a) (itemNames a) rest) (fuel : Nat) (hfuel : as.length < fuel)
    (hfollow : Follow itemChars P as rest) (hend : Reads more false [] [] rest) :
    Reads (whileTrue more item fuel) as (as.flatMap itemChars) (as.flatMap itemNames) rest := by
  induction as generalizing fuel with
  | nil =>
    obtain ⟨fuel, rfl⟩ := Nat.exists_eq_succ_of_ne_zero (Nat.ne_of_gt hfuel)
    unfold whileTrue
    refine .look_bind hend ?_
    rw [if_neg Bool.false_ne_true]
    exact .pure _
  | cons a as ih =>
    obtain ⟨fuel, rfl⟩ := Nat.exists_eq_succ_of_ne_zero (Nat.ne_of_gt (Nat.zero_lt_of_lt hfuel))
    rw [List.forall_mem_cons] at hitem
    obtain ⟨hmore, hread⟩ := hitem.1 _ hfollow.1
    have hreads := ih hitem.2 fuel (by simpa using hfuel) hfollow.2
    unfold whileTrue
    rw [← List.append_assoc] at hmore
    refine .look_bind hmore ?_
    rw [if_pos rfl]
    exact .bind hread (.bind_pure _ hreads)

end Loops

section More

variable {p : Char → Prop} [DecidablePred p] {c : Char}

theorem reads_more (h : rest.head? = some c) (hc : p c) :
    Reads (do return decide (p (← peek)) : SignatureReader Bool) true [] [] rest := by
  obtain ⟨rest, rfl⟩ := List.head?_eq_some_iff.1 h
  rw [← decide_eq_true hc]
  exact fun _ => rfl

theorem reads_no_more (h : rest.head? = some c) (hc : ¬ p c) :
    Reads (do return decide (p (← peek)) : SignatureReader Bool) false [] [] rest := by
  obtain ⟨rest, rfl⟩ := List.head?_eq_some_iff.1 h
  rw [← decide_eq_false hc]
  exact fun _ => rfl

end More

theorem reads_marked (mark : Char) {more : SignatureReader Bool}
    (hmore : ∀ rest, Reads more true [] [] (mark :: rest)) {ts : List ReferenceSignature}
    (hts : ∀ t ∈ ts, t.WellFormed) (fuel : Nat)
    (hfuel : 2 * (ts.flatMap (mark :: ·.chars)).length < fuel)
    (hend : Reads more false [] [] rest) :
    Reads (whileTrue more (do skip; reference fuel) fuel) ts (ts.flatMap (mark :: ·.chars))
      (ts.flatMap ReferenceSignature.names) rest := by
  have hlength : ts.length ≤ (ts.flatMap (mark :: ·.chars)).length :=
    length_le_length_flatMap fun _ _ => Nat.succ_pos _
  refine reads_whileTrue (P := fun t _ => t.WellFormed) ?_ fuel (by omega)
    (follow_iff_forall.2 hts) hend
  intro t ht rest hwf
  have hle : (mark :: t.chars).length ≤ (ts.flatMap (mark :: ·.chars)).length :=
    length_le_of_mem (mark :: ·.chars) ht
  rw [List.length_cons] at hle
  exact ⟨hmore _, .skip_bind (reads_reference hwf fuel (by omega) rest)⟩

theorem reads_interfaceBounds {ts : List ReferenceSignature} (hts : ∀ t ∈ ts, t.WellFormed)
    (fuel : Nat) (hfuel : 2 * (ts.flatMap (':' :: ·.chars)).length < fuel) {c : Char}
    (hrest : rest.head? = some c) (hc : c ≠ ':') :
    Reads (whileTrue (return (← peek) = ':') (do skip; reference fuel) fuel) ts
      (ts.flatMap (':' :: ·.chars)) (ts.flatMap ReferenceSignature.names) rest :=
  reads_marked ':' (fun _ => reads_more (p := (· = ':')) rfl rfl) hts fuel hfuel
    (reads_no_more (p := (· = ':')) hrest hc)

theorem reads_typeParameter {p : TypeParameter} (h : p.WellFormed rest) (fuel : Nat)
    (hfuel : 2 * p.chars.length < fuel) {c : Char} (hrest : rest.head? = some c) (hc : c ≠ ':') :
    Reads (typeParameter fuel) p p.chars p.names rest := by
  obtain ⟨name, classBound, bounds⟩ := p
  obtain ⟨hname, hclassBound, hbounds, hunbounded⟩ := h
  dsimp only at hname hclassBound hbounds hunbounded
  simp only [TypeParameter.chars, List.length_append, List.length_cons] at hfuel
  have hreads := reads_interfaceBounds hbounds fuel (by omega) hrest hc
  rw [typeParameter, TypeParameter.chars, TypeParameter.names, List.append_assoc, List.cons_append]
  dsimp only
  refine .identifier_bind hname rfl (by decide) (.expect_bind ?_)
  cases classBound with
  | some t =>
    obtain ⟨d, cs, hcs, hstarts⟩ := t.exists_chars
    have hread := reads_reference (hclassBound t rfl) fuel
      (by rw [Option.elim_some] at hfuel; omega) (bounds.flatMap (':' :: ·.chars) ++ rest)
    have hbranch : d = 'L' ∨ d = 'T' ∨ d = '[' := hstarts
    refine .peek_bind_of_head? (c := d) ?_ ?_
    · rw [Option.elim_some, hcs]
      rfl
    · rw [if_pos hbranch]
      exact .bind (.bind_pure _ hread) (.bind_pure _ hreads)
  | none =>
    have hnext : ∃ e, (bounds.flatMap (':' :: ·.chars) ++ rest).head? = some e
        ∧ ¬ startsReference e := by
      cases bounds with
      | nil => exact ⟨c, hrest, hunbounded rfl rfl c hrest⟩
      | cons t ts => exact ⟨':', rfl, by decide⟩
    obtain ⟨e, he, hstarts⟩ := hnext
    have hbranch : ¬ (e = 'L' ∨ e = 'T' ∨ e = '[') := hstarts
    refine .peek_bind_of_head? he ?_
    rw [if_neg hbranch]
    exact .look_bind (.pure none) (.bind_pure _ hreads)

theorem exists_chars_parameter {p : TypeParameter} (h : IsName endsIdentifier p.name) :
    ∃ c cs, p.chars = c :: cs ∧ endsIdentifier c = false := by
  cases hname : p.name.toList with
  | nil => exact absurd hname h.1
  | cons c cs =>
    have hc := h.2 c (by rw [hname]; exact List.mem_cons_self)
    rw [TypeParameter.chars, hname]
    exact ⟨c, _, rfl, hc⟩

theorem follow_typeParameters {ps : List TypeParameter}
    (h : Follow TypeParameter.chars TypeParameter.WellFormed ps rest) {c : Char}
    (hrest : rest.head? = some c) (hc : c ≠ ':') :
    Follow TypeParameter.chars
      (fun p rest => p.WellFormed rest ∧ ∃ c, rest.head? = some c ∧ c ≠ ':') ps rest := by
  induction ps with
  | nil => trivial
  | cons p ps ih =>
    refine ⟨⟨h.1, ?_⟩, ih h.2⟩
    cases ps with
    | nil => exact ⟨c, hrest, hc⟩
    | cons q qs =>
      obtain ⟨d, cs, hcs, hd⟩ := exists_chars_parameter h.2.1.name
      refine ⟨d, ?_, ?_⟩
      · rw [List.flatMap_cons, hcs]
        rfl
      · rintro rfl
        cases hd

theorem reads_typeParameters {ps : List TypeParameter}
    (h : Follow TypeParameter.chars TypeParameter.WellFormed ps ['>']) (fuel : Nat)
    (hfuel : 2 * (ps.flatMap TypeParameter.chars).length < fuel) (rest : List Char) :
    Reads (typeParameters fuel) ps ('<' :: ps.flatMap TypeParameter.chars ++ ['>'])
      (ps.flatMap TypeParameter.names) rest := by
  have hafter : Follow TypeParameter.chars TypeParameter.WellFormed ps ('>' :: rest) :=
    h.congr (fun _ _ _ heq h => h.congr heq) rfl
  have hfollow := follow_typeParameters hafter rfl (by decide)
  have hpos : ∀ p ∈ ps, 0 < p.chars.length := by
    intro p _
    simp only [TypeParameter.chars, List.length_append, List.length_cons]
    omega
  have hlength := length_le_length_flatMap hpos
  have hreads : Reads (whileTrue (return (← peek) ≠ '>') (typeParameter fuel) fuel) ps
      (ps.flatMap TypeParameter.chars) (ps.flatMap TypeParameter.names) ('>' :: rest) := by
    refine reads_whileTrue ?_ fuel (by omega) hfollow
      (reads_no_more (p := (· ≠ '>')) rfl (by decide))
    rintro p hp rest ⟨hwf, c, hrest, hc⟩
    have hle := length_le_of_mem TypeParameter.chars hp
    obtain ⟨d, cs, hcs, hd⟩ := exists_chars_parameter hwf.name
    refine ⟨reads_more (p := (· ≠ '>')) (c := d) ?_ ?_,
      reads_typeParameter hwf fuel (by omega) hrest hc⟩
    · rw [hcs]
      rfl
    · rintro rfl
      cases hd
  rw [typeParameters, List.cons_append]
  refine .skip_bind (.congr (.bind hreads (.skip_bind (.pure ps))) rfl ?_)
  rw [List.append_nil]

theorem head?_chars_type (t : TypeSignature) (rest : List Char) :
    ∃ c, (t.chars ++ rest).head? = some c ∧ c ≠ ')' := by
  cases t with
  | simple t =>
    refine ⟨t.letter, rfl, ?_⟩
    cases t with
    | base t => cases t <;> decide
    | void => decide
  | reference t =>
    obtain ⟨c, cs, hcs, hc⟩ := t.exists_chars
    refine ⟨c, ?_, ?_⟩
    · rw [TypeSignature.chars, hcs]
      rfl
    · rintro rfl
      revert hc
      decide

theorem reads_method {parameters : List TypeSignature} {result : TypeSignature}
    {thrown : List ReferenceSignature}
    (h : (SignatureBody.method parameters result thrown).WellFormed) (fuel : Nat)
    (hfuel : 2 * (SignatureBody.method parameters result thrown).chars.length < fuel) :
    Reads (method fuel) (.method parameters result thrown)
      (SignatureBody.method parameters result thrown).chars
      (SignatureBody.method parameters result thrown).names [] := by
  obtain ⟨hparameters, hresult, hthrown⟩ := h
  simp only [SignatureBody.chars, List.length_append, List.length_cons] at hfuel
  have hlength : parameters.length ≤ (parameters.flatMap TypeSignature.chars).length := by
    refine length_le_length_flatMap fun t _ => ?_
    obtain ⟨c, hc, -⟩ := head?_chars_type t []
    rw [List.append_nil] at hc
    exact List.length_pos_of_mem (List.mem_of_mem_head? hc)
  have hreads (rest : List Char) :
      Reads (whileTrue (return (← peek) ≠ ')') (type fuel) fuel) parameters
        (parameters.flatMap TypeSignature.chars) (parameters.flatMap TypeSignature.names)
        (')' :: rest) := by
    refine reads_whileTrue (P := fun t _ => t.WellFormed) ?_ fuel (by omega)
      (follow_iff_forall.2 hparameters) (reads_no_more (p := (· ≠ ')')) rfl (by decide))
    intro t ht rest hwf
    have hle := length_le_of_mem TypeSignature.chars ht
    obtain ⟨c, hc, hne⟩ := head?_chars_type t rest
    exact ⟨reads_more (p := (· ≠ ')')) hc hne, reads_type hwf fuel (by omega) rest⟩
  have hreads' := reads_type hresult fuel (by omega) (thrown.flatMap ('^' :: ·.chars) ++ [])
  have hreads'' : Reads (whileTrue (return (← peek?) = some '^') (do skip; reference fuel) fuel)
      thrown (thrown.flatMap ('^' :: ·.chars)) (thrown.flatMap ReferenceSignature.names) [] := by
    refine reads_marked '^' ?_ hthrown fuel (by omega) ?_
    · exact fun _ _ => rfl
    · exact fun _ => rfl
  rw [method, SignatureBody.chars, SignatureBody.names]
  simp only [List.cons_append, List.append_assoc]
  exact .skip_bind (.bind (hreads _) (.skip_bind (.bind hreads' (.bind_pure _ hreads''))))

theorem reads_types {ts : List ReferenceSignature} (h : (SignatureBody.types ts).WellFormed)
    (fuel : Nat) (hfuel : 2 * (SignatureBody.types ts).chars.length < fuel) :
    Reads (whileTrue (return (← peek?).isSome) (reference fuel) fuel) ts
      (SignatureBody.types ts).chars (SignatureBody.types ts).names [] := by
  have hlength : ts.length ≤ (ts.flatMap ReferenceSignature.chars).length :=
    length_le_length_flatMap fun t _ => length_chars_pos t
  rw [SignatureBody.chars] at hfuel
  refine reads_whileTrue (P := fun t _ => t.WellFormed) ?_ fuel (by omega)
    (follow_iff_forall.2 h.2) fun _ => rfl
  intro t ht rest hwf
  have hle := length_le_of_mem ReferenceSignature.chars ht
  obtain ⟨c, cs, hcs, -⟩ := t.exists_chars
  refine ⟨?_, reads_reference hwf fuel (by omega) rest⟩
  rw [hcs]
  exact fun _ => rfl

theorem reads_body {b : SignatureBody} (h : b.WellFormed) (fuel : Nat)
    (hfuel : 2 * b.chars.length < fuel) : Reads (body fuel) b b.chars b.names [] := by
  unfold body
  cases b with
  | method parameters result thrown =>
    have hread := reads_method h fuel hfuel
    refine .peek_bind_of_head? (c := '(') ?_ ?_
    · rw [SignatureBody.chars]
      rfl
    · rw [if_pos rfl]
      exact hread
  | types ts =>
    have hread := reads_types h fuel hfuel
    obtain ⟨t, ts, rfl⟩ := List.exists_cons_of_ne_nil h.1
    obtain ⟨c, cs, hcs, hc⟩ := t.exists_chars
    refine .peek_bind_of_head? (c := c) ?_ ?_
    · rw [SignatureBody.chars, List.flatMap_cons, hcs]
      rfl
    · obtain ⟨-, -, -, -, -, -, hparen, -⟩ := startsReference_ne hc
      rw [if_neg hparen]
      exact .bind_pure _ hread

theorem reads_parametersIfAny {ps : Option (List TypeParameter)}
    (h : ∀ qs ∈ ps, Follow TypeParameter.chars TypeParameter.WellFormed qs ['>']) (fuel : Nat)
    (hfuel : 2 * (ps.elim [] fun qs => '<' :: qs.flatMap TypeParameter.chars ++ ['>']).length
      < fuel)
    (hrest : ∃ c, rest.head? = some c ∧ c ≠ '<') :
    Reads (parametersIfAny fuel) ps
      (ps.elim [] fun qs => '<' :: qs.flatMap TypeParameter.chars ++ ['>'])
      (ps.elim [] (·.flatMap TypeParameter.names)) rest := by
  unfold parametersIfAny
  cases ps with
  | none =>
    obtain ⟨c, hc, hne⟩ := hrest
    refine .peek_bind_of_head? hc ?_
    rw [if_neg hne]
    exact .pure none
  | some ps =>
    have hread := reads_typeParameters (h ps rfl) fuel
      (by simp only [Option.elim_some, List.length_append, List.length_cons] at hfuel; omega) rest
    refine .peek_bind ?_
    rw [if_pos rfl]
    exact .bind_pure _ hread

theorem head?_chars_body {b : SignatureBody} (h : b.WellFormed) :
    ∃ c, b.chars.head? = some c ∧ c ≠ '<' := by
  cases b with
  | method parameters result thrown => exact ⟨'(', rfl, by decide⟩
  | types ts =>
    obtain ⟨t, ts, rfl⟩ := List.exists_cons_of_ne_nil h.1
    obtain ⟨c, cs, hcs, hc⟩ := t.exists_chars
    obtain ⟨-, -, -, -, -, -, -, hangle⟩ := startsReference_ne hc
    refine ⟨c, ?_, hangle⟩
    rw [SignatureBody.chars, List.flatMap_cons, hcs]
    rfl

theorem reads_signature {sig : Signature} (h : sig.WellFormed) (fuel : Nat)
    (hfuel : 2 * sig.chars.length < fuel) : Reads (signature fuel) sig sig.chars sig.names [] := by
  rw [Signature.chars, List.length_append] at hfuel
  obtain ⟨c, hc, hne⟩ := head?_chars_body h.body
  have hbody := reads_body h.body fuel (by omega)
  have hnext : ∃ c, (sig.body.chars ++ []).head? = some c ∧ c ≠ '<' :=
    ⟨c, by rw [List.append_nil]; exact hc, hne⟩
  have hparameters := reads_parametersIfAny h.typeParameters fuel (by omega) hnext
  have hend : Reads endOfText () [] [] [] := fun _ => rfl
  rw [signature_eq, Signature.chars, Signature.names]
  refine .bind hparameters (.congr (.bind hbody (.look_bind hend (.pure _))) ?_ ?_)
  · exact List.append_nil _
  · exact List.append_nil _

end SignatureReader

namespace SignatureText

/-- A signature that was scanned is the text of a well-formed one, whose names were noted. -/
theorem of_scan {text : SignatureText} {sig : Signature} (h : text.scan.1 = some sig) :
    sig.WellFormed ∧ text = sig.render ∧ text.names = sig.names.reverse := by
  obtain ⟨hwf, hpasses, hrest⟩ := SignatureReader.passes_signature _
    (Prod.ext (h : _ = some sig) rfl : text.scan = (some sig, text.scan.2))
  refine ⟨hwf, ?_, ?_⟩
  · have hchars := hpasses.rest
    rw [hrest, List.append_nil] at hchars
    rw [Signature.render, ← hchars, String.ofList_toList]
  · rw [names, hpasses.names, List.append_nil]

/-- The text of a well-formed signature is scanned as the signature. -/
theorem scan_render {sig : Signature} (h : sig.WellFormed) :
    scan sig.render = (some sig, ⟨[], sig.names.reverse⟩) := by
  have hlength : sig.render.length = sig.chars.length := String.length_ofList
  have hread := SignatureReader.reads_signature h (2 * sig.render.length + 2) (by omega) []
  rw [List.append_nil, List.append_nil] at hread
  unfold scan
  rw [Signature.render, String.toList_ofList] at *
  exact hread

end SignatureText

end ClassPatch
