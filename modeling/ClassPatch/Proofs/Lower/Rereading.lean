import ClassPatch.Lift.Resolver
import ClassPatch.Lower.Constant
import ClassPatch.Proofs.Pool.Growth
import ClassPatch.Proofs.Run

/-!
Lowering, and resolving what was lowered. A computation that adds to a pool gives indices; they are
resolved by the constants of the pool at the end of lowering, which holds what every pool before it
held. For the same reason the computation gives the same indices there, and adds nothing.
-/

namespace ClassPatch

/-- The resolver holds what the pool finds. -/
structure Resolver.Covers (r : Resolver) (p : Pool) : Prop where
  constants : ∀ c i, p.indices[c]? = some i → r.constants.constant i = .ok c
  bootstraps : ∀ (e : BootstrapEntry) (i : UInt16), p.bootstrapIndices[e]? = some i →
    r.bootstrapMethods[i.toNat]? = some e

namespace Pool

/-- The resolver that a class file with the constants and bootstrap methods of the pool has. -/
def resolver (p : Pool) : Resolver := ⟨p.constants, p.bootstrapMethods.toList⟩

theorem Valid.get?_zero {p : Pool} (h : p.Valid) : p.constants.get? 0 = none := by
  refine h.ordered.get?_of_lt_start ?_
  rw [h.start_eq]
  exact Nat.zero_lt_one

theorem Valid.covers {p : Pool} (h : p.Valid) (hsize : p.bootstrapMethods.size ≤ 0xFFFF) :
    p.resolver.Covers p where
  constants := by
    intro c i hi
    simp only [resolver, ConstantTable.constant, h.get?_eq_of_indices hi]
  bootstraps := by
    intro e i hi
    simp only [resolver, Array.getElem?_toList]
    exact h.bootstraps e i hi (by omega)

/-- What the other pool finds, the pool holds, and finds at the same index. -/
structure Retains (p q : Pool) : Prop where
  covers : p.resolver.Covers q
  remembers : p.Remembers q

theorem Retains.mono {p q q' : Pool} (h : p.Retains q) (hq : q.Remembers q') : p.Retains q' where
  covers := ⟨fun c i hi => h.covers.constants c i (hq.indices c i hi),
    fun e i hi => h.covers.bootstraps e i (hq.bootstrapIndices e i hi)⟩
  remembers := h.remembers.trans hq

theorem Valid.retains {p : Pool} (h : p.Valid) (hsize : p.bootstrapMethods.size ≤ 0xFFFF) :
    p.Retains p :=
  ⟨h.covers hsize, .refl p⟩

end Pool

/-- What is known when a class is lowered, to be read again. -/
structure Rereading where
  /-- The pool at the end of lowering. -/
  pool : Pool
  /-- Index 0 says that there is no constant. -/
  noConstantAtZero : pool.constants.get? 0 = none
  /-- Whether the class is made of what can be read from a class file. -/
  wellFormed : Prop
  /-- The bootstrap methods that it may refer to. -/
  admits : BootstrapMethod → Prop

/-- Nothing is known: what computations do to a pool is shown in this setting. -/
def Rereading.blank : Rereading := 
  ⟨.empty, Pool.valid_empty.get?_zero, False, fun _ => False⟩

/-- In every pool that remembers the given one the computation gives the value and adds nothing. -/
def PoolM.Repeats {α : Type} (p : Pool) (x : PoolM α) (a : α) : Prop :=
  ∀ r : Pool, r.Remembers p → x.run r = (.ok a, r)

namespace PoolM.Repeats

variable {α β : Type} {p q : Pool} {a : α} {b : β}

theorem pure (p : Pool) (a : α) : Repeats p (Pure.pure a) a := fun _ _ => rfl

theorem bind {x : PoolM α} {f : α → PoolM β} (hx : Repeats p x a) (hf : Repeats p (f a) b) :
    Repeats p (x >>= f) b :=
  fun r hr => (run_bind_ok (hx r hr) f).trans (hf r hr)

theorem lift {x : Except ClassError α} (h : x = .ok a) : Repeats p (liftM x) a :=
  fun _ _ => run_lift_eq_ok.2 ⟨h, rfl⟩

theorem mono {x : PoolM α} (hx : Repeats p x a) (hq : q.Remembers p) : Repeats q x a :=
  fun r hr => hx r (hr.trans hq)

theorem mapM {f : α → PoolM β} {as : List α} {bs : List β}
    (h : List.Forall₂ (fun a b => Repeats p (f a) b) as bs) : Repeats p (as.mapM f) bs := by
  induction h with
  | nil =>
    rw [List.mapM_nil]
    exact pure p []
  | cons hhead _ ih =>
    rw [List.mapM_cons]
    exact hhead.bind (ih.bind (pure p _))

end PoolM.Repeats

namespace Rereading

/-- The constants and bootstrap methods of the lowered class. -/
abbrev resolver (s : Rereading) : Resolver := s.pool.resolver

/-- An entry of the table resolves to a bootstrap method. -/
def Resolves (s : Rereading) (e : BootstrapEntry) (b : BootstrapMethod) : Prop :=
  s.resolver.methodHandle e.handle = .ok b.handle
    ∧ List.Forall₂ (fun c i => s.resolver.loadableWithin maxDynamicNesting i = .ok c)
      b.arguments e.arguments

/-- The bootstrap method is one that an entry of the class file may resolve to. -/
def Holds (s : Rereading) (e : BootstrapEntry) (b : BootstrapMethod) : Prop :=
  s.admits b ∧ b.arguments.length ≤ 0xFFFF ∧ s.Resolves e b

/-- The entries of a table resolve as soon as what the pool holds does. -/
def Allowed (s : Rereading) (p : Pool) (e : BootstrapEntry) : Prop :=
  s.wellFormed → s.pool.Retains p → ∃ b, s.Holds e b

/--
The entries that lowering adds to the table of bootstrap methods: each stands for a bootstrap method
that is lowered to it again.
-/
def Added (s : Rereading) (p : Pool) (e : BootstrapEntry) : Prop :=
  ∃ b, PoolM.Repeats p (PoolM.bootstrapParts b) e ∧ (s.wellFormed → s.pool.Retains p → s.Holds e b)

theorem Allowed.mono {s : Rereading} {p q : Pool} {e : BootstrapEntry} (h : s.Allowed p e)
    (hpq : q.Remembers p) : s.Allowed q e :=
  fun hwf hq => h hwf (hq.mono hpq)

theorem Added.allowed {s : Rereading} {p : Pool} {e : BootstrapEntry} (h : s.Added p e) :
    s.Allowed p e := by
  obtain ⟨b, -, hholds⟩ := h
  exact fun hwf hp => ⟨b, hholds hwf hp⟩

end Rereading

namespace PoolM

/--
Runs of the computation grow the pool, they give the same in every later pool, and what they give is
as stated once all of the pool is known.
-/
def Yields {α : Type} (s : Rereading) (x : PoolM α) (Q : α → Prop) : Prop :=
  ∀ p a q, x.run p = (.ok a, q) →
    p.Grows s.Added q ∧ Repeats q x a ∧ (s.pool.Retains q → Q a)

namespace Yields

variable {α β : Type} {s : Rereading} {Q : α → Prop} {R : β → Prop}

theorem pure {a : α} (h : Q a) : Yields s (Pure.pure a) Q := by
  intro p a' q hrun
  obtain ⟨rfl, rfl⟩ := run_pure_eq_ok.1 hrun
  exact ⟨.refl, .pure p a, fun _ => h⟩

theorem bind {x : PoolM α} {f : α → PoolM β} (hx : Yields s x Q)
    (hf : ∀ a, Yields s (f a) fun b => Q a → R b) : Yields s (x >>= f) R := by
  intro p b q h
  obtain ⟨a, p', hrunx, hrunf⟩ := run_bind_eq_ok.1 h
  obtain ⟨hgrows, hrepeats, ha⟩ := hx p a p' hrunx
  obtain ⟨hgrows', hrepeats', hb⟩ := hf a p' b q hrunf
  refine ⟨hgrows.trans hgrows', (hrepeats.mono hgrows'.remembers).bind hrepeats', ?_⟩
  intro hretains
  exact hb hretains (ha (hretains.mono hgrows'.remembers))

theorem mono {x : PoolM α} {Q' : α → Prop} (hx : Yields s x Q)
    (h : ∀ a, Q a → Q' a) : Yields s x Q' := by
  intro p a q hrun
  obtain ⟨hgrows, hrepeats, ha⟩ := hx p a q hrun
  exact ⟨hgrows, hrepeats, fun hretains => h a (ha hretains)⟩

theorem and {x : PoolM α} {Q' : α → Prop} (hx : Yields s x Q) (hx' : Yields s x Q') :
    Yields s x fun a => Q a ∧ Q' a := by
  intro p a q hrun
  obtain ⟨hgrows, hrepeats, ha⟩ := hx p a q hrun
  obtain ⟨-, -, ha'⟩ := hx' p a q hrun
  exact ⟨hgrows, hrepeats, fun hretains => ⟨ha hretains, ha' hretains⟩⟩

theorem repeats {x : PoolM α} (hx : Yields s x Q) :
    Yields s x fun a => Repeats s.pool x a ∧ Q a := by
  intro p a q hrun
  obtain ⟨hgrows, hrepeats, ha⟩ := hx p a q hrun
  exact ⟨hgrows, hrepeats, fun hretains => ⟨hrepeats.mono hretains.remembers, ha hretains⟩⟩

theorem repeats_of_run {x : PoolM α} (hx : Yields .blank x Q) {p q : Pool} {a : α}
    (hrun : x.run p = (.ok a, q)) : q.Remembers p ∧ Repeats q x a := by
  obtain ⟨hgrows, hrepeats, -⟩ := hx p a q hrun
  exact ⟨hgrows.remembers, hrepeats⟩

theorem map {x : PoolM α} {f : α → β} (hx : Yields s x Q)
    (h : ∀ a, Q a → R (f a)) : Yields s (do return f (← x)) R :=
  hx.bind fun a => .pure (h a)

theorem lift (x : Except ClassError α) : Yields s (liftM x) fun a => x = .ok a := by
  intro p a q hrun
  obtain ⟨hx, rfl⟩ := run_lift_eq_ok.1 hrun
  exact ⟨.refl, .lift hx, fun _ => hx⟩

theorem throw {e : ClassError} : Yields s (MonadExcept.throw e) Q := by
  intro p a q hrun
  cases hrun

theorem mapM {f : α → PoolM β} {Q : α → β → Prop} {as : List α}
    (h : ∀ a ∈ as, Yields s (f a) (Q a)) : Yields s (as.mapM f) (List.Forall₂ Q as) := by
  induction as with
  | nil =>
    rw [List.mapM_nil]
    exact .pure .nil
  | cons a as ih =>
    rw [List.mapM_cons]
    refine (h a List.mem_cons_self).bind fun b => ?_
    refine (ih fun a' ha' => h a' (List.mem_cons_of_mem _ ha')).bind fun bs => ?_
    exact .pure fun hbs hb => .cons hb hbs

theorem optionMapM {f : α → PoolM β} {Q : α → β → Prop} {a : Option α}
    (h : ∀ a' ∈ a, Yields s (f a') (Q a')) : Yields s (a.mapM f) (Option.Rel Q a) := by
  cases a with
  | none =>
    rw [Option.mapM_none]
    exact .pure .none
  | some a =>
    rw [Option.mapM_some, map_eq_pure_bind]
    exact (h a rfl).map fun b hb => .some hb

end Yields

variable {s : Rereading}

theorem yields_constant (c : Constant) :
    Yields s (constant c) fun i => s.resolver.constants.constant i = .ok c := by
  intro p i q hrun
  obtain ⟨hgrows, hi⟩ := Pool.grows_insert s.Added hrun
  refine ⟨hgrows, ?_, fun hretains => hretains.covers.constants c i hi⟩
  intro r hr
  exact Pool.insert_eq_of_some (hr.indices c i hi)

theorem run_bootstrapEntry_eq_ok {e : BootstrapEntry} {p q : Pool} {i : UInt16} :
    (bootstrapEntry e).run p = (.ok i, q) ↔ p.insertBootstrap e = (i, q) := by
  change (Except.ok (p.insertBootstrap e).1, (p.insertBootstrap e).2) = _ ↔ _
  rw [Prod.mk.injEq, Except.ok.injEq, Prod.ext_iff]

theorem run_bootstrapEntry_of_some {e : BootstrapEntry} {i : UInt16} {p : Pool}
    (h : p.bootstrapIndices[e]? = some i) : (bootstrapEntry e).run p = (.ok i, p) :=
  run_bootstrapEntry_eq_ok.2 (Pool.insertBootstrap_eq_of_some h)

theorem run_bootstrapEntry_of_none {e : BootstrapEntry} {p : Pool}
    (h : p.bootstrapIndices[e]? = none) : (bootstrapEntry e).run p
      = (.ok (UInt16.ofNat p.bootstrapMethods.size), p.addBootstrap e) :=
  run_bootstrapEntry_eq_ok.2 (Pool.insertBootstrap_eq_of_none h)

theorem run_bootstrapEntry {e : BootstrapEntry} {p q : Pool} {i : UInt16} (he : s.Added p e)
    (hrun : (bootstrapEntry e).run p = (.ok i, q)) : p.Grows s.Added q
      ∧ Repeats q (bootstrapEntry e) i
      ∧ (s.pool.Retains q → s.resolver.bootstrapMethods[i.toNat]? = some e) := by
  obtain ⟨hgrows, hi⟩ := Pool.grows_insertBootstrap he (run_bootstrapEntry_eq_ok.1 hrun)
  refine ⟨hgrows, ?_, fun hretains => hretains.covers.bootstraps e i hi⟩
  intro r hr
  exact run_bootstrapEntry_of_some (hr.bootstrapIndices e i hi)

theorem Yields.bind_bootstrapEntry {b : BootstrapMethod} {Q : BootstrapEntry → Prop}
    (hparts : Yields s (bootstrapParts b) Q) (hholds : ∀ e, Q e → s.wellFormed → s.Holds e b) :
    Yields s (bootstrapParts b >>= bootstrapEntry) fun i => ∃ e,
      s.resolver.bootstrapMethods[i.toNat]? = some e ∧ Q e := by
  intro p i q hrun
  obtain ⟨e, p', hrunParts, hrunEntry⟩ := run_bind_eq_ok.1 hrun
  obtain ⟨hgrows, hrepeats, he⟩ := hparts p e p' hrunParts
  have hadded : s.Added p' e := ⟨b, hrepeats, fun hwf hretains => hholds e (he hretains) hwf⟩
  obtain ⟨hgrows', hrepeats', hi⟩ := run_bootstrapEntry hadded hrunEntry
  refine ⟨hgrows.trans hgrows', (hrepeats.mono hgrows'.remembers).bind hrepeats', ?_⟩
  intro hretains
  exact ⟨e, hi hretains, he (hretains.mono hgrows'.remembers)⟩

end PoolM

end ClassPatch
