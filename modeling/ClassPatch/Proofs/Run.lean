import Mathlib.Data.List.Forall2

/-!
Runs of computations that can fail, with a state and without. The state of a failed computation is
kept.
-/

namespace ClassPatch

variable {ε σ α β : Type}

theorem exists_of_mem_left {R : α → β → Prop} {as : List α} {bs : List β}
    (h : List.Forall₂ R as bs) {a : α} (ha : a ∈ as) : ∃ b ∈ bs, R a b := by
  induction h with
  | nil => cases ha
  | cons hhead htail ih =>
    rcases List.mem_cons.1 ha with rfl | ha
    · exact ⟨_, List.mem_cons_self, hhead⟩
    · obtain ⟨b, hb, hab⟩ := ih ha
      exact ⟨b, List.mem_cons_of_mem _ hb, hab⟩

theorem exists_of_mem_right {R : α → β → Prop} {as : List α} {bs : List β}
    (h : List.Forall₂ R as bs) {b : β} (hb : b ∈ bs) : ∃ a ∈ as, R a b :=
  exists_of_mem_left h.flip hb

theorem rel_of_getElem? {R : α → β → Prop} {as : List α} {bs : List β} (h : List.Forall₂ R as bs)
    {i : Nat} {a : α} {b : β} (ha : as[i]? = some a) (hb : bs[i]? = some b) : R a b := by
  induction h generalizing i with
  | nil => cases ha
  | cons hhead _ ih =>
    cases i with
    | zero =>
      cases ha
      cases hb
      exact hhead
    | succ i => exact ih ha hb

theorem exists_rel_of_getElem? {R : α → β → Prop} {as : List α} {bs : List β}
    (h : List.Forall₂ R as bs) {i : Nat} {a : α} (ha : as[i]? = some a) :
    ∃ b, bs[i]? = some b ∧ R a b := by
  have hi : i < bs.length := h.length_eq ▸ (List.getElem?_eq_some_iff.1 ha).1
  exact ⟨bs[i], List.getElem?_eq_getElem hi, rel_of_getElem? h ha (List.getElem?_eq_getElem hi)⟩

theorem exists_between {γ : Type} {R : α → β → Prop} {S : β → γ → Prop} {as : List α} {cs : List γ}
    (h : List.Forall₂ (fun a c => ∃ b, R a b ∧ S b c) as cs) :
    ∃ bs, List.Forall₂ R as bs ∧ List.Forall₂ S bs cs := by
  induction h with
  | nil => exact ⟨[], .nil, .nil⟩
  | cons hhead htail ih =>
    obtain ⟨b, hR, hS⟩ := hhead
    obtain ⟨bs, hRs, hSs⟩ := ih
    exact ⟨b :: bs, .cons hR hRs, .cons hS hSs⟩

theorem forall₂_comp {γ : Type} {R : α → β → Prop} {S : β → γ → Prop} {T : α → γ → Prop}
    (hcomp : ∀ a b c, R a b → S b c → T a c) {as : List α} {bs : List β} {cs : List γ}
    (h : List.Forall₂ R as bs) (h' : List.Forall₂ S bs cs) : List.Forall₂ T as cs := by
  induction h generalizing cs with
  | nil =>
    cases h'
    exact .nil
  | cons hhead htail ih =>
    cases h' with
    | cons hhead' htail' => exact .cons (hcomp _ _ _ hhead hhead') (ih htail')

theorem map_eq_map_of_forall₂ {γ : Type} {f : α → γ} {g : β → γ} {as : List α} {bs : List β}
    (h : List.Forall₂ (fun a b => f a = g b) as bs) : as.map f = bs.map g := by
  rw [← List.forall₂_eq_eq_eq, List.forall₂_map_left_iff, List.forall₂_map_right_iff]
  exact h

theorem forall₂_and {R S : α → β → Prop} {as : List α} {bs : List β} (h : List.Forall₂ R as bs)
    (h' : List.Forall₂ S as bs) : List.Forall₂ (fun a b => R a b ∧ S a b) as bs := by
  induction h with
  | nil => exact .nil
  | cons hhead _ ih =>
    cases h' with
    | cons hhead' htail' => exact .cons ⟨hhead, hhead'⟩ (ih htail')

theorem pairwise_of_forall₂ {R : α → β → Prop} {S : α → α → Prop} {T : β → β → Prop}
    (himp : ∀ a b a' b', R a b → R a' b' → S a a' → T b b') {as : List α} {bs : List β}
    (h : List.Forall₂ R as bs) (has : as.Pairwise S) : bs.Pairwise T := by
  induction h with
  | nil => exact .nil
  | cons hhead htail ih =>
    rw [List.pairwise_cons] at has
    refine List.pairwise_cons.2 ⟨fun b' hb' => ?_, ih has.2⟩
    obtain ⟨a', ha', hR⟩ := exists_of_mem_right htail hb'
    exact himp _ _ _ _ hhead hR (has.1 a' ha')

theorem forall₂_imp_of_mem {R S : α → β → Prop} {as : List α} {bs : List β}
    (h : List.Forall₂ R as bs) (himp : ∀ a ∈ as, ∀ b ∈ bs, R a b → S a b) :
    List.Forall₂ S as bs := by
  induction h with
  | nil => exact .nil
  | cons hhead htail ih =>
    refine .cons (himp _ List.mem_cons_self _ List.mem_cons_self hhead) (ih ?_)
    intro a ha b hb
    exact himp a (List.mem_cons_of_mem _ ha) b (List.mem_cons_of_mem _ hb)

theorem optionRel_imp_of_mem {R S T : α → β → Prop} {a : Option α} {b : Option β}
    (h : Option.Rel R a b) (h' : Option.Rel S a b)
    (himp : ∀ a' ∈ a, ∀ b', R a' b' → S a' b' → T a' b') : Option.Rel T a b := by
  cases h with
  | none => exact .none
  | some h =>
    cases h' with
    | some h' => exact .some (himp _ rfl _ h h')

section Except

theorem bind_eq_ok {x : Except ε α} {f : α → Except ε β} {b : β} :
    x >>= f = .ok b ↔ ∃ a, x = .ok a ∧ f a = .ok b := by
  cases x with
  | ok a =>
    constructor
    · intro h
      exact ⟨a, rfl, h⟩
    · intro h
      obtain ⟨a', ha, h⟩ := h
      cases ha
      exact h
  | error e =>
    constructor
    · intro h
      cases h
    · intro h
      obtain ⟨a', ha, h⟩ := h
      cases ha

theorem bind_eq_error {x : Except ε α} {f : α → Except ε β} {e : ε} :
    x >>= f = .error e ↔ x = .error e ∨ ∃ a, x = .ok a ∧ f a = .error e := by
  cases x with
  | ok a =>
    constructor
    · intro h
      exact .inr ⟨a, rfl, h⟩
    · rintro (h | ⟨a', ha, h⟩)
      · cases h
      · cases ha
        exact h
  | error e' =>
    constructor
    · intro h
      cases h
      exact .inl rfl
    · rintro (h | ⟨a', ha, -⟩)
      · cases h
        rfl
      · cases ha

theorem bind_of_eq_ok {x : Except ε α} {a : α} (h : x = .ok a) (f : α → Except ε β) :
    x >>= f = f a := by
  rw [h]
  rfl

theorem ok_bind (a : α) (f : α → Except ε β) : (.ok a : Except ε α) >>= f = f a := rfl

theorem pure_eq_ok {a b : α} : (pure a : Except ε α) = .ok b ↔ a = b := by
  constructor
  · intro h
    cases h
    rfl
  · intro h
    rw [h]
    rfl

theorem eq_ok_of_toOption {x : Except ε α} {a : α} (h : x.toOption = some a) : x = .ok a := by
  cases x with
  | ok b =>
    cases h
    rfl
  | error e => cases h

theorem eq_ok_of_mapError {ε' : Type} {x : Except ε α} {f : ε → ε'} {a : α}
    (h : x.mapError f = .ok a) : x = .ok a := by
  cases x with
  | ok b => exact congrArg Except.ok (Except.ok.inj h)
  | error e => cases h

theorem mapM_eq_ok {f : α → Except ε β} {as : List α} {bs : List β} :
    as.mapM f = .ok bs ↔ List.Forall₂ (fun a b => f a = .ok b) as bs := by
  induction as generalizing bs with
  | nil =>
    rw [List.mapM_nil, pure_eq_ok, List.forall₂_nil_left_iff]
    exact eq_comm
  | cons a as ih =>
    simp only [List.mapM_cons, bind_eq_ok, pure_eq_ok, List.forall₂_cons_left_iff]
    constructor
    · intro h
      obtain ⟨b, hb, bs', hbs, rfl⟩ := h
      exact ⟨b, bs', hb, ih.1 hbs, rfl⟩
    · intro h
      obtain ⟨b, bs', hb, hbs, rfl⟩ := h
      exact ⟨b, hb, bs', ih.2 hbs, rfl⟩

theorem exists_of_mem_mapM {f : α → Except ε β} {as : List α} {bs : List β}
    (h : as.mapM f = .ok bs) {b : β} (hb : b ∈ bs) : ∃ a ∈ as, f a = .ok b :=
  exists_of_mem_right (mapM_eq_ok.1 h) hb

theorem length_of_mapM {f : α → Except ε β} {as : List α} {bs : List β}
    (h : as.mapM f = .ok bs) : bs.length = as.length :=
  (mapM_eq_ok.1 h).length_eq.symm

theorem exists_mapM {f : α → Except ε β} {as : List α} (h : ∀ a ∈ as, ∃ b, f a = .ok b) :
    ∃ bs, as.mapM f = .ok bs := by
  induction as with
  | nil => exact ⟨[], rfl⟩
  | cons a as ih =>
    rw [List.forall_mem_cons] at h
    obtain ⟨b, hb⟩ := h.1
    obtain ⟨bs, hbs⟩ := ih h.2
    refine ⟨b :: bs, ?_⟩
    rw [List.mapM_cons, hb, ok_bind, hbs]
    rfl

theorem exists_of_listMapM_eq_error {f : α → Except ε β} {as : List α} {e : ε}
    (h : as.mapM f = .error e) : ∃ a ∈ as, f a = .error e := by
  induction as with
  | nil => cases h
  | cons a as ih =>
    rw [List.mapM_cons] at h
    rcases bind_eq_error.1 h with ha | ⟨b, -, h⟩
    · exact ⟨a, List.mem_cons_self, ha⟩
    rcases bind_eq_error.1 h with has | ⟨bs, -, h⟩
    · obtain ⟨a', ha', herror⟩ := ih has
      exact ⟨a', List.mem_cons_of_mem _ ha', herror⟩
    · cases h

theorem foldlM_induction {f : β → α → Except ε β} {as : List α} {I : β → Prop}
    (hstep : ∀ b, ∀ a ∈ as, ∀ b', I b → f b a = .ok b' → I b') {b b' : β} (hb : I b)
    (h : as.foldlM f b = .ok b') : I b' := by
  induction as generalizing b with
  | nil =>
    rw [List.foldlM_nil, pure_eq_ok] at h
    exact h ▸ hb
  | cons a as ih =>
    rw [List.foldlM_cons, bind_eq_ok] at h
    obtain ⟨b₁, hb₁, h⟩ := h
    exact ih (fun b a ha => hstep b a (List.mem_cons_of_mem _ ha))
      (hstep b a List.mem_cons_self b₁ hb hb₁) h

theorem foldlM_of_projection {γ : Type} {f : β → α → Except ε β} {g : γ → α → Except ε γ} {p : β → γ}
    (hstep : ∀ b a b', f b a = .ok b' → g (p b) a = .ok (p b')) {as : List α} {b b' : β}
    (h : as.foldlM f b = .ok b') : as.foldlM g (p b) = .ok (p b') := by
  induction as generalizing b with
  | nil =>
    rw [List.foldlM_nil, pure_eq_ok] at h ⊢
    rw [h]
  | cons a as ih =>
    rw [List.foldlM_cons] at h ⊢
    obtain ⟨b₁, hb₁, h⟩ := bind_eq_ok.1 h
    rw [hstep b a b₁ hb₁, ok_bind]
    exact ih h

theorem foldlM_size_le {f : β → α → Except ε β} {size : β → Nat}
    (hstep : ∀ b a b', f b a = .ok b' → size b' ≤ size b + 1) {as : List α} {b b' : β}
    (h : as.foldlM f b = .ok b') : size b' ≤ size b + as.length := by
  induction as generalizing b with
  | nil =>
    rw [List.foldlM_nil, pure_eq_ok] at h
    rw [h]
    exact Nat.le_refl _
  | cons a as ih =>
    rw [List.foldlM_cons, bind_eq_ok] at h
    obtain ⟨b₁, hb₁, h⟩ := h
    have hhead := hstep b a b₁ hb₁
    have htail := ih h
    rw [List.length_cons]
    omega

theorem foldlM_append_eq_ok {f : β → α → Except ε β} {as as' : List α} {b b' : β} :
    (as ++ as').foldlM f b = .ok b' ↔ ∃ c, as.foldlM f b = .ok c ∧ as'.foldlM f c = .ok b' := by
  rw [List.foldlM_append, bind_eq_ok]

theorem foldlM_eq_of_forall {f : β → α → Except ε β} {as : List α} {b : β}
    (h : ∀ a ∈ as, f b a = .ok b) : as.foldlM f b = .ok b := by
  induction as with
  | nil => rfl
  | cons a as ih =>
    rw [List.forall_mem_cons] at h
    rw [List.foldlM_cons, h.1, ok_bind]
    exact ih h.2

theorem optionMapM_eq_ok {f : α → Except ε β} {a : Option α} {b : Option β} :
    a.mapM f = .ok b ↔ Option.Rel (fun a b => f a = .ok b) a b := by
  cases a with
  | none =>
    rw [Option.mapM_none, pure_eq_ok]
    constructor
    · intro h
      rw [← h]
      exact .none
    · intro h
      cases h
      rfl
  | some a =>
    simp only [Option.mapM_some, map_eq_pure_bind, bind_eq_ok, pure_eq_ok]
    constructor
    · intro h
      obtain ⟨b, hb, rfl⟩ := h
      exact .some hb
    · intro h
      cases h with
      | some hb => exact ⟨_, hb, rfl⟩

theorem optionMapM_of_rel {P : β → α → Prop} {f : α → Except ε β} {a : Option α} {b : Option β}
    (h : Option.Rel P b a) (hP : ∀ b a, P b a → f a = .ok b) : a.mapM f = .ok b := by
  refine optionMapM_eq_ok.2 ?_
  cases h with
  | none => exact .none
  | some h => exact .some (hP _ _ h)

end Except

section State

theorem run_bind_ok {x : ExceptT ε (StateM σ) α} {s s' : σ} {a : α} (h : x.run s = (.ok a, s'))
    (f : α → ExceptT ε (StateM σ) β) : (x >>= f).run s = (f a).run s' := by
  change ExceptT.bindCont f (x s).1 (x s).2 = f a s'
  have h' : x s = (.ok a, s') := h
  rw [h']
  rfl

theorem run_bind_error {x : ExceptT ε (StateM σ) α} {s s' : σ} {e : ε}
    (h : x.run s = (.error e, s')) (f : α → ExceptT ε (StateM σ) β) :
    (x >>= f).run s = (.error e, s') := by
  change ExceptT.bindCont f (x s).1 (x s).2 = (.error e, s')
  have h' : x s = (.error e, s') := h
  rw [h']
  rfl

theorem run_bind_eq_ok {x : ExceptT ε (StateM σ) α} {f : α → ExceptT ε (StateM σ) β}
    {s t : σ} {b : β} :
    (x >>= f).run s = (.ok b, t)
      ↔ ∃ a s', x.run s = (.ok a, s') ∧ (f a).run s' = (.ok b, t) := by
  constructor
  · intro h
    cases hx : x.run s with
    | mk result s' =>
      cases result with
      | ok a =>
        rw [run_bind_ok hx] at h
        exact ⟨a, s', rfl, h⟩
      | error e =>
        rw [run_bind_error hx] at h
        cases h
  · intro h
    obtain ⟨a, s', hx, hf⟩ := h
    rw [run_bind_ok hx]
    exact hf

theorem run_bind_eq_error {x : ExceptT ε (StateM σ) α} {f : α → ExceptT ε (StateM σ) β}
    {s t : σ} {e : ε} :
    (x >>= f).run s = (.error e, t)
      ↔ x.run s = (.error e, t) ∨ ∃ a s', x.run s = (.ok a, s') ∧ (f a).run s' = (.error e, t) := by
  cases hx : x.run s with
  | mk result s' =>
    cases result with
    | ok a =>
      rw [run_bind_ok hx]
      constructor
      · intro h
        exact .inr ⟨a, s', rfl, h⟩
      · rintro (h | ⟨a', t', ha, h⟩)
        · cases h
        · cases ha
          exact h
    | error e' =>
      rw [run_bind_error hx]
      constructor
      · intro h
        cases h
        exact .inl rfl
      · rintro (h | ⟨a', t', ha, -⟩)
        · cases h
          rfl
        · cases ha

theorem run_pure_eq_ok {a b : α} {s t : σ} :
    (pure a : ExceptT ε (StateM σ) α).run s = (.ok b, t) ↔ a = b ∧ s = t := by
  constructor
  · intro h
    cases h
    exact ⟨rfl, rfl⟩
  · intro h
    rw [h.1, h.2]
    rfl

theorem run_lift_eq_ok {x : Except ε α} {a : α} {s t : σ} :
    (liftM x : ExceptT ε (StateM σ) α).run s = (.ok a, t) ↔ x = .ok a ∧ s = t := by
  change (x, s) = (.ok a, t) ↔ _
  rw [Prod.mk.injEq]

theorem forall₂_of_run_mapM {f : α → ExceptT ε (StateM σ) β} {as : List α} {bs : List β} {s s' : σ}
    (h : (as.mapM f).run s = (.ok bs, s')) :
    List.Forall₂ (fun a b => ∃ t t', (f a).run t = (.ok b, t')) as bs := by
  induction as generalizing bs s with
  | nil =>
    rw [List.mapM_nil] at h
    obtain ⟨rfl, -⟩ := run_pure_eq_ok.1 h
    exact .nil
  | cons a as ih =>
    rw [List.mapM_cons] at h
    obtain ⟨b, s₁, hb, h⟩ := run_bind_eq_ok.1 h
    obtain ⟨bs', s₂, hbs, h⟩ := run_bind_eq_ok.1 h
    obtain ⟨rfl, rfl⟩ := run_pure_eq_ok.1 h
    exact .cons ⟨s, s₁, hb⟩ (ih hbs)

theorem exists_of_run_mapM_eq_error {f : α → ExceptT ε (StateM σ) β} {as : List α} {s t : σ} {e : ε}
    (h : (as.mapM f).run s = (.error e, t)) :
    ∃ (i : Nat) (a : α) (bs : List β) (s' : σ), as[i]? = some a
      ∧ ((as.take i).mapM f).run s = (.ok bs, s') ∧ (f a).run s' = (.error e, t) := by
  induction as generalizing s with
  | nil =>
    rw [List.mapM_nil] at h
    cases h
  | cons a as ih =>
    rw [List.mapM_cons] at h
    rcases run_bind_eq_error.1 h with h | ⟨b, s₁, hb, h⟩
    · exact ⟨0, a, [], s, rfl, rfl, h⟩
    rcases run_bind_eq_error.1 h with h | ⟨bs, s₂, -, h⟩
    · obtain ⟨i, a', bs, s', ha', hbs, herror⟩ := ih h
      refine ⟨i + 1, a', b :: bs, s', ha', ?_, herror⟩
      rw [List.take_succ_cons, List.mapM_cons, run_bind_ok hb, run_bind_ok hbs]
      rfl
    · cases h

end State

end ClassPatch
