import ClassPatch.Signature.Parser
import Mathlib.Data.List.TakeWhile

/-!
What one step of a signature reader passes and notes, and what a composition of steps does.
-/

namespace ClassPatch

/-- Between two states, the characters are passed and the names are noted. -/
structure SignatureScan.Passes (s s' : SignatureScan) (chars : List Char) (names : List String) :
    Prop where
  rest : s.rest = chars ++ s'.rest
  names : s'.names = names.reverse ++ s.names

namespace SignatureScan.Passes

variable {s s' s'' : SignatureScan} {chars chars' : List Char} {names names' : List String}

theorem refl (s : SignatureScan) : s.Passes s [] [] := ⟨rfl, rfl⟩

theorem trans (h : s.Passes s' chars names) (h' : s'.Passes s'' chars' names') :
    s.Passes s'' (chars ++ chars') (names ++ names') where
  rest := by rw [h.rest, h'.rest, List.append_assoc]
  names := by rw [h'.names, h.names, List.reverse_append, List.append_assoc]

end SignatureScan.Passes

/-- A nonempty run of characters, none of which ends it. -/
def IsName (ends : Char → Bool) (name : String) : Prop :=
  name.toList ≠ [] ∧ ∀ c ∈ name.toList, ends c = false

-- over the characters of the name, not over all that there are
instance (ends : Char → Bool) : DecidablePred (IsName ends) := fun name =>
  have : Decidable (∀ c ∈ name.toList, ends c = false) := List.decidableBAll _ _
  inferInstanceAs (Decidable (name.toList ≠ [] ∧ ∀ c ∈ name.toList, ends c = false))

namespace SignatureReader

variable {α β : Type} {s s' : SignatureScan}

theorem run_bind {x : SignatureReader α} {a : α} (h : x.run s = (some a, s'))
    (f : α → SignatureReader β) : (x >>= f).run s = (f a).run s' := by
  change (match x.run s with | (o, s₁) => (match o with | some a => f a | none => failure).run s₁)
    = _
  rw [h]

theorem run_bind_eq_some {x : SignatureReader α} {f : α → SignatureReader β} {b : β} :
    (x >>= f).run s = (some b, s')
      ↔ ∃ a s₁, x.run s = (some a, s₁) ∧ (f a).run s₁ = (some b, s') := by
  constructor
  · intro h
    change (match x.run s with | (o, s₁) => (match o with | some a => f a | none => failure).run s₁)
      = (some b, s') at h
    cases hx : x.run s with
    | mk result s₁ =>
      rw [hx] at h
      cases result with
      | some a => exact ⟨a, s₁, rfl, h⟩
      | none => cases h
  · rintro ⟨a, s₁, hx, hf⟩
    rw [run_bind hx, hf]

theorem run_pure_eq_some {a b : α} :
    (pure a : SignatureReader α).run s = (some b, s') ↔ a = b ∧ s = s' := by
  change (some a, s) = (some b, s') ↔ _
  rw [Prod.mk.injEq, Option.some.injEq]

theorem run_peek?_eq_some {c : Option Char} (h : peek?.run s = (some c, s')) :
    s' = s ∧ s.rest.head? = c := by
  cases h
  exact ⟨rfl, rfl⟩

theorem run_peek_eq_some {c : Char} (h : peek.run s = (some c, s')) :
    s' = s ∧ s.rest.head? = some c := by
  obtain ⟨o, s₁, hpeek, h⟩ := run_bind_eq_some.1 h
  obtain ⟨rfl, rfl⟩ := run_peek?_eq_some hpeek
  split at h
  next heq =>
    obtain ⟨rfl, rfl⟩ := run_pure_eq_some.1 h
    exact ⟨rfl, heq⟩
  next => cases h

theorem exists_of_run_peek_bind {f : Char → SignatureReader β} {b : β}
    (h : (peek >>= f).run s = (some b, s')) :
    ∃ c, s.rest.head? = some c ∧ (f c).run s = (some b, s') := by
  obtain ⟨c, s₁, hpeek, hf⟩ := run_bind_eq_some.1 h
  obtain ⟨rfl, hc⟩ := run_peek_eq_some hpeek
  exact ⟨c, hc, hf⟩

theorem passes_skip {c : Char} {u : Unit} (hc : s.rest.head? = some c)
    (h : skip.run s = (some u, s')) : s.Passes s' [c] [] := by
  obtain ⟨rest, hrest⟩ := List.head?_eq_some_iff.1 hc
  cases h
  refine ⟨?_, rfl⟩
  dsimp only
  rw [hrest]
  rfl

theorem passes_expect {c : Char} {u : Unit} (h : (expect c).run s = (some u, s')) :
    s.Passes s' [c] [] := by
  unfold expect at h
  obtain ⟨d, hd, hskip⟩ := exists_of_run_peek_bind h
  split at hskip
  next heq =>
    rw [heq] at hd
    exact passes_skip hd hskip
  next => cases hskip

theorem passes_mention {name : String} {u : Unit} (h : (mention name).run s = (some u, s')) :
    s.Passes s' [] [name] := by
  cases h
  exact ⟨rfl, rfl⟩

theorem passes_identifierUntil {ends : Char → Bool} {name : String}
    (h : (identifierUntil ends).run s = (some name, s')) :
    IsName ends name ∧ s.Passes s' name.toList [] := by
  unfold identifierUntil at h
  obtain ⟨s₀, s₁, hget, hname⟩ := run_bind_eq_some.1 h
  cases hget
  dsimp only at hname
  split at hname
  · cases hname
  · next hne =>
    cases hname
    rw [IsName, String.toList_ofList]
    refine ⟨⟨?_, ?_⟩, ?_, rfl⟩
    · intro hnil
      rw [hnil] at hne
      exact hne rfl
    · intro c hc
      have := List.mem_takeWhile_imp hc
      simpa using this
    · exact (List.prefix_iff_eq_append.1 (List.takeWhile_prefix _)).symm

section Forward

variable {rest : List Char} {names : List String}

theorem run_peek_cons (c : Char) : peek.run ⟨c :: rest, names⟩ = (some c, ⟨c :: rest, names⟩) := rfl

theorem run_skip_cons (c : Char) : skip.run ⟨c :: rest, names⟩ = (some (), ⟨rest, names⟩) := rfl

theorem run_expect_cons (c : Char) :
    (expect c).run ⟨c :: rest, names⟩ = (some (), ⟨rest, names⟩) := by
  unfold expect
  refine (run_bind (run_peek_cons c) _).trans ?_
  rw [if_pos rfl]
  exact run_skip_cons c

theorem run_identifierUntil {ends : Char → Bool} {name : String} {c : Char}
    (h : IsName ends name) (hc : ends c = true) :
    (identifierUntil ends).run ⟨name.toList ++ c :: rest, names⟩
      = (some name, ⟨c :: rest, names⟩) := by
  have htake : (name.toList ++ c :: rest).takeWhile (!ends ·) = name.toList := by
    rw [List.takeWhile_append_of_pos, List.takeWhile_cons_of_neg, List.append_nil]
    · rw [hc]
      decide
    · intro d hd
      rw [h.2 d hd]
      rfl
  have hne : ¬ name.toList.isEmpty = true := by
    rw [List.isEmpty_iff]
    exact h.1
  unfold identifierUntil
  refine (run_bind rfl _).trans ?_
  dsimp only
  rw [htake, if_neg hne]
  refine (run_bind rfl _).trans ?_
  rw [List.drop_left, String.ofList_toList]
  rfl

end Forward

end SignatureReader

end ClassPatch
