import ClassPatch.Proofs.Lower.Bootstrap
import ClassPatch.Proofs.Lower.Compositional
import ClassPatch.Proofs.Pool.Indexed

/-!
Restoring bootstrap methods without adding any. If the dynamic constants among their arguments refer
to bootstrap methods before them only, each of these is found, so the table ends up as long as it
was. A table that was made like this is made again, entry by entry.
-/

namespace ClassPatch

/-- The bootstrap method that computes the constant, if it is dynamic. -/
def LoadableConstant.bootstrap? : LoadableConstant → Option BootstrapMethod
  | .static _ => none
  | .dynamic handle arguments _ _ => some ⟨handle, arguments⟩

namespace BootstrapMethod

/-- Arguments of bootstrap methods are computed by bootstrap methods before them only. -/
def Ordered (bs : List BootstrapMethod) : Prop :=
  ∀ (j : Nat) (b : BootstrapMethod), bs[j]? = some b →
    ∀ c ∈ b.arguments, ∀ d ∈ c.bootstrap?, d ∈ bs.take j

theorem ordered_iff {bs : List BootstrapMethod} : Ordered bs ↔ ∀ j : Fin bs.length,
    ∀ c ∈ bs[j].arguments, ∀ d ∈ c.bootstrap?, d ∈ bs.take j := by
  constructor
  · intro h j
    exact h j bs[j] (List.getElem?_eq_getElem j.isLt)
  · intro h j b hb
    obtain ⟨hlt, rfl⟩ := List.getElem?_eq_some_iff.1 hb
    exact h ⟨j, hlt⟩

instance (bs : List BootstrapMethod) : Decidable (Ordered bs) := decidable_of_iff _ ordered_iff.symm

theorem Ordered.of_isPrefix {bs cs : List BootstrapMethod} (h : Ordered cs) (hbs : bs <+: cs) :
    Ordered bs := by
  obtain ⟨ds, rfl⟩ := hbs
  intro j b hb c hc d hd
  have hlt : j < bs.length := (List.getElem?_eq_some_iff.1 hb).1
  have htake := h j b (by rw [List.getElem?_append_left hlt, hb]) c hc d hd
  rwa [List.take_append_of_le_length (Nat.le_of_lt hlt)] at htake

end BootstrapMethod

/--
The bootstrap method was lowered to the entry when just the given entries were found, and the pool
finds what was found then.
-/
def Pool.Made (p : Pool) (es : List BootstrapEntry) (b : BootstrapMethod) (e : BootstrapEntry) :
    Prop :=
  ∃ p', p.Remembers p' ∧ p'.Indexes es ∧ PoolM.Repeats p' (PoolM.bootstrapParts b) e

namespace Pool.Made

variable {p q : Pool} {es : List BootstrapEntry} {b : BootstrapMethod} {e : BootstrapEntry}

theorem mono (h : p.Made es b e) (hq : q.Remembers p) : q.Made es b e := by
  obtain ⟨p', hremembers, hmade⟩ := h
  exact ⟨p', hq.trans hremembers, hmade⟩

theorem repeats (h : p.Made es b e) : PoolM.Repeats p (PoolM.bootstrapParts b) e := by
  obtain ⟨p', hremembers, -, hrepeats⟩ := h
  exact hrepeats.mono hremembers

theorem run (h : p.Made es b e) (hq : q.Indexes es)
    (hindices : ∀ (c : Constant) (i : ConstantIndex), p.indices[c]? = some i →
      q.indices[c]? = some i) : (PoolM.bootstrapParts b).run q = (.ok e, q) := by
  obtain ⟨p', hremembers, hindexes, hrepeats⟩ := h
  refine hrepeats q ⟨fun c i hi => hindices c i (hremembers.indices c i hi), ?_⟩
  intro d i hd
  rwa [← hindexes.bootstrapIndices_eq hq d]

end Pool.Made

namespace PoolM

variable {α β : Type} {p q : Pool}

/-- In pools that remember the given one the computation adds constants only. -/
def KeepsTable (p : Pool) (x : PoolM α) : Prop :=
  ∀ q a r, q.Remembers p → x.run q = (.ok a, r) → r.Remembers q ∧ q.SameTable r

namespace KeepsTable

theorem pure (a : α) : KeepsTable p (Pure.pure a) := by
  intro q a' r _ hrun
  obtain ⟨-, rfl⟩ := run_pure_eq_ok.1 hrun
  exact ⟨.refl q, .refl q⟩

theorem bind {x : PoolM α} {f : α → PoolM β} (hx : KeepsTable p x)
    (hf : ∀ a, KeepsTable p (f a)) : KeepsTable p (x >>= f) := by
  intro q b r hq hrun
  obtain ⟨a, q', hrunx, hrunf⟩ := run_bind_eq_ok.1 hrun
  obtain ⟨hremembers, hsame⟩ := hx q a q' hq hrunx
  obtain ⟨hremembers', hsame'⟩ := hf a q' b r (hremembers.trans hq) hrunf
  exact ⟨hremembers'.trans hremembers, hsame.trans hsame'⟩

theorem of_repeats {x : PoolM α} {a : α} (h : Repeats p x a) : KeepsTable p x := by
  intro q a' r hq hrun
  rw [h q hq] at hrun
  cases hrun
  exact ⟨.refl q, .refl q⟩

theorem constant (c : Constant) : KeepsTable p (constant c) := by
  intro q i r _ hrun
  exact ⟨(Pool.grows_insert (fun _ _ => False) hrun).1.remembers, Pool.sameTable_insert hrun⟩

theorem compositional : Compositional (KeepsTable p) := ⟨pure, bind, constant⟩

theorem loadable {c : LoadableConstant}
    (h : ∀ b ∈ c.bootstrap?, ∃ i, Repeats p (bootstrapMethod b) i) : KeepsTable p (loadable c) := by
  cases c with
  | static c =>
    rw [PoolM.loadable]
    exact compositional.staticConstant c
  | dynamic handle arguments name descriptor =>
    obtain ⟨i, hi⟩ := h ⟨handle, arguments⟩ rfl
    rw [loadable_dynamic]
    exact (of_repeats hi).bind fun _ => (compositional.nameAndType _ _).bind fun _ => constant _

theorem loadables {cs : List LoadableConstant}
    (h : ∀ c ∈ cs, ∀ b ∈ c.bootstrap?, ∃ i, Repeats p (bootstrapMethod b) i) :
    KeepsTable p (loadables cs) := by
  induction cs with
  | nil => exact pure []
  | cons c cs ih =>
    rw [List.forall_mem_cons] at h
    rw [PoolM.loadables]
    exact (loadable h.1).bind fun _ => (ih h.2).bind fun _ => pure _

theorem bootstrapParts {b : BootstrapMethod}
    (h : ∀ c ∈ b.arguments, ∀ d ∈ c.bootstrap?, ∃ i, Repeats p (bootstrapMethod d) i) :
    KeepsTable p (bootstrapParts b) :=
  (compositional.methodHandle _).bind fun _ => (loadables h).bind fun _ => pure _

end KeepsTable

end PoolM

/--
A pool in which the first bootstrap methods are restored, and that has no entries but those which
are reserved for all of them.
-/
structure Pool.Rebuilt (bs : List BootstrapMethod) (count : Nat) (p : Pool) : Prop where
  size_eq : p.bootstrapMethods.size = bs.length
  indexes : p.Indexes (p.bootstrapMethods.toList.take count)
  made : ∀ i < count, ∃ e b, p.bootstrapMethods[i]? = some e ∧ bs[i]? = some b
    ∧ p.Made (p.bootstrapMethods.toList.take i) b e

namespace Pool.Rebuilt

variable {bs : List BootstrapMethod} {count : Nat} {p q : Pool} {b : BootstrapMethod}
  {e : BootstrapEntry}

theorem of_sameTable (h : p.Rebuilt bs count) (hpq : p.SameTable q) (hremembers : q.Remembers p) :
    q.Rebuilt bs count where
  size_eq := by
    rw [hpq.bootstrapMethods]
    exact h.size_eq
  indexes := by
    rw [hpq.bootstrapMethods]
    exact h.indexes.of_sameTable hpq
  made := by
    intro i hi
    obtain ⟨e, b, he, hb, hmade⟩ := h.made i hi
    rw [hpq.bootstrapMethods]
    exact ⟨e, b, he, hb, hmade.mono hremembers⟩

theorem indexes_all (h : p.Rebuilt bs bs.length) : p.Indexes p.bootstrapMethods.toList := by
  have hsize := h.size_eq
  have hindexes := h.indexes
  rwa [List.take_of_length_le (by rw [Array.length_toList]; omega)] at hindexes

theorem exists_repeats (h : p.Rebuilt bs count) (hb : b ∈ bs.take count) :
    ∃ i, PoolM.Repeats p (PoolM.bootstrapMethod b) i := by
  obtain ⟨j, hj⟩ := List.mem_iff_getElem?.1 hb
  have hlt : j < count := Nat.lt_of_lt_of_le (List.getElem?_eq_some_iff.1 hj).1
    (List.length_take_le _ _)
  obtain ⟨e, b', he, hb', hmade⟩ := h.made j hlt
  rw [List.getElem?_take_of_lt hlt, hb'] at hj
  cases hj
  have hmem : e ∈ p.bootstrapMethods.toList.take count := by
    refine List.mem_iff_getElem?.2 ⟨j, ?_⟩
    rw [List.getElem?_take_of_lt hlt, Array.getElem?_toList]
    exact he
  obtain ⟨i, hi⟩ := h.indexes.exists_of_mem hmem
  refine ⟨i, hmade.repeats.bind ?_⟩
  intro r hr
  exact PoolM.run_bootstrapEntry_of_some (hr.bootstrapIndices e i hi)

theorem fill (h : p.Rebuilt bs count) (hlength : bs.length ≤ 0xFFFF) (hb : bs[count]? = some b)
    (hrepeats : PoolM.Repeats p (PoolM.bootstrapParts b) e) :
    (p.fillBootstrap (UInt16.ofNat count) e).Rebuilt bs (count + 1) := by
  have hlt : count < bs.length := (List.getElem?_eq_some_iff.1 hb).1
  have hnat : (UInt16.ofNat count).toNat = count := by
    rw [UInt16.toNat_ofNat', Nat.mod_eq_of_lt (by omega)]
  have hsize : (UInt16.ofNat count).toNat < p.bootstrapMethods.size := by
    rw [hnat, h.size_eq]
    exact hlt
  have htaken : (p.bootstrapMethods.toList.take count).length = count := by
    rw [List.length_take, Array.length_toList, h.size_eq]
    omega
  have hkept : ∀ k ≤ count, (p.fillBootstrap (UInt16.ofNat count) e).bootstrapMethods.toList.take k
      = p.bootstrapMethods.toList.take k := by
    intro k hk
    exact take_fillBootstrap (by rw [hnat]; exact hk)
  have hremembers := p.remembers_fillBootstrap (UInt16.ofNat count) e
  constructor
  case size_eq =>
    rw [size_fillBootstrap]
    exact h.size_eq
  case indexes =>
    have hfilled := h.indexes.fillBootstrap e
    have hself := take_fillBootstrap_self (e := e) hsize
    rw [hnat] at hself
    rw [htaken] at hfilled
    rwa [hself]
  case made =>
    intro i hi
    rw [hkept i (by omega)]
    -- the new entry is made in this pool, the ones before it in pools that this one remembers
    by_cases heq : i = count
    · rw [heq]
      refine ⟨e, b, ?_, hb, p, hremembers, h.indexes, hrepeats⟩
      have hself := getElem?_fillBootstrap_self (e := e) hsize
      rwa [hnat] at hself
    · obtain ⟨e', b', he', hb', hmade⟩ := h.made i (by omega)
      refine ⟨e', b', ?_, hb', hmade.mono hremembers⟩
      rw [getElem?_fillBootstrap (by rw [hnat]; exact heq)]
      exact he'

end Pool.Rebuilt

namespace PoolM

variable {bs : List BootstrapMethod} {p q : Pool}

theorem rebuilt_reserveBootstraps (hempty : p.bootstrapMethods = #[])
    (hnone : ∀ e : BootstrapEntry, p.bootstrapIndices[e]? = none) :
    (p.reserveBootstraps bs.length).2.Rebuilt bs 0 where
  size_eq := by simp [Pool.reserveBootstraps, hempty]
  indexes := fun e => hnone e
  made := by
    intro i hi
    cases hi

/-- Bootstrap methods in order are restored, and none is added. -/
theorem rebuilt_of_run_restoreBootstraps {u : Unit} (hbs : BootstrapMethod.Ordered bs)
    (hlength : bs.length ≤ 0xFFFF) (hempty : p.bootstrapMethods = #[])
    (hnone : ∀ e : BootstrapEntry, p.bootstrapIndices[e]? = none)
    (hrun : (restoreBootstraps bs).run p = (.ok u, q)) : q.Rebuilt bs bs.length := by
  refine restoreBootstraps_induction (I := Pool.Rebuilt bs) hempty
    (rebuilt_reserveBootstraps hempty hnone) ?_ hrun
  intro i b e p₁ p₂ hb hp₁ hparts
  have hkeeps : KeepsTable p₁ (bootstrapParts b) :=
    .bootstrapParts fun c hc d hd => hp₁.exists_repeats (hbs i b hb c hc d hd)
  obtain ⟨hremembers, hsame⟩ := hkeeps p₁ e p₂ (.refl p₁) hparts
  obtain ⟨-, hrepeats⟩ := (yields_bootstrapParts (s := .blank) False.elim).repeats_of_run hparts
  exact (hp₁.of_sameTable hsame hremembers).fill hlength hb hrepeats

end PoolM

theorem Pool.Rebuilt.exists_made {s : Rereading} {bs : List BootstrapMethod} {p q : Pool}
    (h : p.Rebuilt bs bs.length) (hgrows : p.Grows s.Added q) (hwf : s.wellFormed)
    (hretains : s.pool.Retains q) {k : Nat} {e : BootstrapEntry}
    (he : q.bootstrapMethods[k]? = some e) :
    ∃ b, q.Made (q.bootstrapMethods.toList.take k) b e
      ∧ (bs[k]? = some b ∨ bs.length ≤ k ∧ s.Holds e b) := by
  have hsize := h.size_eq
  rcases Nat.lt_or_ge k bs.length with hlt | hge
  · obtain ⟨e', b, he', hb, hmade⟩ := h.made k hlt
    obtain ⟨es, hes⟩ := hgrows.bootstrapMethods_isPrefix
    have htaken : q.bootstrapMethods.toList.take k = p.bootstrapMethods.toList.take k := by
      rw [← hes, List.take_append_of_le_length (by rw [Array.length_toList]; omega)]
    have heq : q.bootstrapMethods[k]? = p.bootstrapMethods[k]? := by
      rw [← Array.getElem?_toList, ← hes,
        List.getElem?_append_left (by rw [Array.length_toList]; omega), Array.getElem?_toList]
    rw [heq, he'] at he
    cases he
    rw [htaken]
    exact ⟨b, hmade.mono hgrows.remembers, .inl hb⟩
  · obtain ⟨p', hremembers, hindexes, b, hrepeats, hholds⟩ :=
      hgrows.exists_of_getElem? h.indexes_all he (by omega)
    exact ⟨b, ⟨p', hremembers, hindexes, hrepeats⟩,
      .inr ⟨hge, hholds hwf (hretains.mono hremembers)⟩⟩

/-- The entries of the pool are those of the bootstrap methods, one after the other. -/
structure Pool.MadeOf (p : Pool) (bs : List BootstrapMethod) : Prop where
  length_eq : bs.length = p.bootstrapMethods.size
  indexes : p.Indexes p.bootstrapMethods.toList
  made : ∀ (k : Nat) (e : BootstrapEntry), p.bootstrapMethods[k]? = some e → ∃ b, bs[k]? = some b
    ∧ p.Made (p.bootstrapMethods.toList.take k) b e

/-- A pool with the constants of another, in which the first entries of the other are restored. -/
structure Pool.Recovered (p r : Pool) (count : Nat) (q : Pool) : Prop where
  constants : q.constants = r.constants
  indices : q.indices = r.indices
  size_eq : q.bootstrapMethods.size = p.bootstrapMethods.size
  taken : q.bootstrapMethods.toList.take count = p.bootstrapMethods.toList.take count
  indexes : q.Indexes (p.bootstrapMethods.toList.take count)

theorem Pool.Recovered.fill {p q r : Pool} {count : Nat} {e : BootstrapEntry}
    (h : p.Recovered r count q) (he : p.bootstrapMethods[count]? = some e)
    (hsize : p.bootstrapMethods.size ≤ 0xFFFF) :
    p.Recovered r (count + 1) (q.fillBootstrap (UInt16.ofNat count) e) := by
  have hlt : count < p.bootstrapMethods.size := (Array.getElem?_eq_some_iff.1 he).1
  have hnat : (UInt16.ofNat count).toNat = count := by
    rw [UInt16.toNat_ofNat', Nat.mod_eq_of_lt (by omega)]
  have htaken : (p.bootstrapMethods.toList.take count).length = count := by
    rw [List.length_take, Array.length_toList]
    omega
  have hnext : p.bootstrapMethods.toList.take (count + 1)
      = p.bootstrapMethods.toList.take count ++ [e] := by
    rw [List.take_add_one, Array.getElem?_toList, he]
    rfl
  constructor
  case constants => exact h.constants
  case indices => exact h.indices
  case size_eq =>
    rw [size_fillBootstrap]
    exact h.size_eq
  case taken =>
    have hself := take_fillBootstrap_self (p := q) (i := UInt16.ofNat count) (e := e)
      (by rw [hnat, h.size_eq]; exact hlt)
    rw [hnat] at hself
    rw [hself, h.taken, hnext]
  case indexes =>
    have hfilled := h.indexes.fillBootstrap e
    rw [htaken] at hfilled
    rwa [hnext]

namespace PoolM

theorem run_restoreBootstraps_of_madeOf {p r : Pool} {bs : List BootstrapMethod}
    (h : p.MadeOf bs) (hsize : p.bootstrapMethods.size ≤ 0xFFFF)
    (hempty : r.bootstrapMethods = #[])
    (hnone : ∀ e : BootstrapEntry, r.bootstrapIndices[e]? = none)
    (hindices : ∀ (c : Constant) (i : ConstantIndex), p.indices[c]? = some i →
      r.indices[c]? = some i) :
    ∃ q, (restoreBootstraps bs).run r = (.ok (), q) ∧ q.constants = r.constants
      ∧ q.bootstrapMethods = p.bootstrapMethods ∧ q.Remembers p := by
  have hstart : p.Recovered r 0 (r.reserveBootstraps bs.length).2 := by
    refine ⟨rfl, rfl, ?_, rfl, fun e => hnone e⟩
    simp [Pool.reserveBootstraps, hempty, h.length_eq]
  -- what the pool answered for a bootstrap method before, it answers again
  have hstep : ∀ i b q, bs[i]? = some b → p.Recovered r i q →
      ∃ e q', (bootstrapParts b).run q = (.ok e, q')
        ∧ p.Recovered r (i + 1) (q'.fillBootstrap (UInt16.ofNat i) e) := by
    intro i b q hb hq
    have hlt : i < p.bootstrapMethods.size := by
      rw [← h.length_eq]
      exact (List.getElem?_eq_some_iff.1 hb).1
    obtain ⟨b', hb', hmade⟩ := h.made i _ (Array.getElem?_eq_getElem hlt)
    rw [hb] at hb'
    cases hb'
    refine ⟨_, q, hmade.run hq.indexes ?_, hq.fill (Array.getElem?_eq_getElem hlt) hsize⟩
    rw [hq.indices]
    exact hindices
  obtain ⟨q, hrun, hq⟩ := exists_run_restoreBootstraps hempty hstart hstep
  have hlength := h.length_eq
  have hsame := hq.size_eq
  have hall : p.bootstrapMethods.toList.take bs.length = p.bootstrapMethods.toList :=
    List.take_of_length_le (by rw [Array.length_toList]; omega)
  have hall' : q.bootstrapMethods.toList.take bs.length = q.bootstrapMethods.toList :=
    List.take_of_length_le (by rw [Array.length_toList]; omega)
  have htaken := hq.taken
  have hindexes := hq.indexes
  rw [hall] at htaken hindexes
  rw [hall'] at htaken
  refine ⟨q, hrun, hq.constants, Array.toList_inj.1 htaken, ?_, ?_⟩
  · rw [hq.indices]
    exact hindices
  · intro e i he
    rwa [← h.indexes.bootstrapIndices_eq hindexes]

end PoolM

end ClassPatch
