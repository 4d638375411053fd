import ClassPatch.Lower.Class
import ClassPatch.Proofs.Lower.Constant

/-!
Putting bootstrap methods back where they were. While the first ones are restored, the places of the
others are held by entries that are not found; what is added in the meantime stands behind them.
-/

namespace ClassPatch

/--
A pool that grew from a table of constants, with the first bootstrap methods restored. The entries
behind them were added on the way, as the second setting allows.
-/
structure Pool.Restored (s s' : Rereading) (t : ConstantTable) (bs : List BootstrapMethod)
    (count : Nat) (p : Pool) : Prop where
  valid : p.Valid
  constants : ∃ cs, p.constants = t.append cs
  length_le : bs.length ≤ p.bootstrapMethods.size
  outside : ∀ (e : BootstrapEntry) (i : UInt16), p.bootstrapIndices[e]? = some i →
    p.bootstrapMethods.size ≤ 0x10000 → i.toNat < count ∨ bs.length ≤ i.toNat
  allowed : ∀ (i : Nat) (e : BootstrapEntry), p.bootstrapMethods[i]? = some e →
    i < count ∨ bs.length ≤ i → s'.Allowed p e
  resolves : s.wellFormed → s.pool.Retains p → ∀ i < count, ∃ e b,
    p.bootstrapMethods[i]? = some e ∧ bs[i]? = some b ∧ s.Resolves e b

namespace Pool

variable {s s' : Rereading} {t : ConstantTable} {bs : List BootstrapMethod} {count : Nat}
  {p q : Pool}

theorem Restored.grows (h : p.Restored s s' t bs count) (hcount : count ≤ bs.length)
    (hgrows : p.Grows s'.Added q) : q.Restored s s' t bs count := by
  obtain ⟨es, hes, hallowed⟩ := hgrows.bootstrapMethods
  have hlength := h.length_le
  have hold : ∀ i, i < p.bootstrapMethods.size →
      q.bootstrapMethods[i]? = p.bootstrapMethods[i]? := by
    intro i hi
    rw [← Array.getElem?_toList, hes, List.getElem?_append_left (by simpa using hi),
      Array.getElem?_toList]
  constructor
  case valid => exact hgrows.valid h.valid
  case constants =>
    obtain ⟨cs, hcs⟩ := h.constants
    obtain ⟨ds, hds⟩ := hgrows.constants
    exact ⟨cs ++ ds, by rw [hds, hcs, SlotTable.append_append]⟩
  case length_le => exact Nat.le_trans hlength hgrows.size_le
  case outside =>
    intro e i hi hsize
    have hsize' := hgrows.size_le
    rcases hgrows.le_of_bootstrapIndices hi hsize with hi | hi
    · exact h.outside e i hi (by omega)
    · exact .inr (by omega)
  case allowed =>
    intro i e hi houtside
    rcases Nat.lt_or_ge i p.bootstrapMethods.size with hlt | hge
    · rw [hold i hlt] at hi
      exact (h.allowed i e hi houtside).mono hgrows.remembers
    · rw [← Array.getElem?_toList, hes, List.getElem?_append_right (by simpa using hge)] at hi
      obtain ⟨p', hgrows', hp'⟩ := hallowed e (List.mem_of_getElem? hi)
      exact hp'.allowed.mono hgrows'.remembers
  case resolves =>
    intro hwf hretains i hi
    rw [hold i (by omega)]
    exact h.resolves hwf (hretains.mono hgrows.remembers) i hi

theorem Restored.mono {s'' : Rereading} (h : p.Restored s s' t bs count)
    (hallowed : ∀ p e, s'.Allowed p e → s''.Allowed p e) : p.Restored s s'' t bs count :=
  { h with allowed := fun i e hi houtside => hallowed p e (h.allowed i e hi houtside) }

theorem Restored.fill {index : UInt16} (h : p.Restored s s' t bs index.toNat)
    {b : BootstrapMethod} {e : BootstrapEntry} (hb : bs[index.toNat]? = some b)
    (he : s'.Allowed p e) (hresolves : s.pool.Retains p → s.wellFormed → s.Resolves e b) :
    (p.fillBootstrap index e).Restored s s' t bs (index.toNat + 1) := by
  have hlt : index.toNat < bs.length := (List.getElem?_eq_some_iff.1 hb).1
  have hlength := h.length_le
  constructor
  case valid =>
    refine h.valid.fillBootstrap (by omega) ?_
    intro e' j hj hsize
    have := h.outside e' j hj hsize
    omega
  case constants => exact h.constants
  case length_le =>
    rw [size_fillBootstrap]
    exact hlength
  case outside =>
    intro e' j hj hsize
    rw [size_fillBootstrap] at hsize
    rcases bootstrapIndices_fillBootstrap hj with ⟨-, rfl⟩ | hj
    · exact .inl (Nat.lt_succ_self _)
    · have := h.outside e' j hj hsize
      omega
  case allowed =>
    intro i e' hi houtside
    by_cases heq : i = index.toNat
    · rw [heq, getElem?_fillBootstrap_self (by omega)] at hi
      injection hi with hi
      rw [← hi]
      exact he.mono (p.remembers_fillBootstrap index e)
    · rw [getElem?_fillBootstrap heq] at hi
      exact (h.allowed i e' hi (by omega)).mono (p.remembers_fillBootstrap index e)
  case resolves =>
    intro hwf hretains i hi
    have hretains' := hretains.mono (p.remembers_fillBootstrap index e)
    by_cases heq : i = index.toNat
    · rw [heq]
      exact ⟨e, b, getElem?_fillBootstrap_self (by omega), hb, hresolves hretains' hwf⟩
    · rw [getElem?_fillBootstrap heq]
      exact h.resolves hwf hretains' i (by omega)

end Pool

namespace PoolM

section Loop

/-- Restore the bootstrap methods, the first one at the given place. -/
def restoreFrom : Nat → List BootstrapMethod → PoolM Unit
  | _, [] => return ()
  | i, b :: bs => do
    fillBootstrap (UInt16.ofNat i) (← bootstrapParts b)
    restoreFrom (i + 1) bs

theorem restoreLoop_eq (bs : List BootstrapMethod) (i : Nat) :
    (forIn (bs.zipIdx i) PUnit.unit fun x _ => do
      let e ← bootstrapParts x.1
      fillBootstrap (0 + UInt16.ofNat x.2) e
      pure (ForInStep.yield PUnit.unit) : PoolM PUnit) = restoreFrom i bs := by
  induction bs generalizing i with
  | nil => rfl
  | cons b bs ih =>
    rw [List.zipIdx_cons, List.forIn_cons, UInt16.zero_add, restoreFrom, ← ih]
    simp only [bind_assoc, pure_bind]

theorem run_restoreBootstraps_eq {p : Pool} (hempty : p.bootstrapMethods = #[])
    (bs : List BootstrapMethod) :
    (restoreBootstraps bs).run p = (restoreFrom 0 bs).run (p.reserveBootstraps bs.length).2 := by
  have hreserve : (reserveBootstraps bs.length).run p
      = (.ok 0, (p.reserveBootstraps bs.length).2) := by
    have hzero : UInt16.ofNat p.bootstrapMethods.size = 0 := by
      rw [hempty]
      rfl
    change (Except.ok (UInt16.ofNat p.bootstrapMethods.size), _) = _
    rw [hzero]
    rfl
  unfold restoreBootstraps
  refine (run_bind_ok hreserve _).trans ?_
  rw [← restoreLoop_eq]
  exact congrArg (fun x : PoolM Unit => x.run _) bind_pure_unit

variable {bs : List BootstrapMethod} {I : Nat → Pool → Prop} {p q : Pool}

theorem next_of_drop {b : BootstrapMethod} {rest : List BootstrapMethod} {count : Nat}
    (h : bs.drop count = b :: rest) : bs[count]? = some b ∧ bs.drop (count + 1) = rest := by
  rw [← List.head?_drop, ← List.tail_drop, h]
  exact ⟨rfl, rfl⟩

theorem restoreFrom_induction {rest : List BootstrapMethod} {count : Nat} {u : Unit}
    (hstep : ∀ i b e p q, bs[i]? = some b → I i p → (bootstrapParts b).run p = (.ok e, q) →
      I (i + 1) (q.fillBootstrap (UInt16.ofNat i) e))
    (hp : I count p) (hrest : bs.drop count = rest)
    (hrun : (restoreFrom count rest).run p = (.ok u, q)) : I (count + rest.length) q := by
  induction rest generalizing count p with
  | nil =>
    obtain ⟨-, rfl⟩ := run_pure_eq_ok.1 hrun
    exact hp
  | cons b rest ih =>
    obtain ⟨hb, hdrop⟩ := next_of_drop hrest
    obtain ⟨e, p₁, hparts, hrun⟩ := run_bind_eq_ok.1 hrun
    obtain ⟨u', p₂, hfill, hrun⟩ := run_bind_eq_ok.1 hrun
    cases hfill
    have hlast := ih (hstep count b e p p₁ hb hp hparts) hdrop hrun
    rw [List.length_cons]
    rwa [Nat.add_assoc, Nat.add_comm 1] at hlast

theorem restoreBootstraps_induction {u : Unit} (hempty : p.bootstrapMethods = #[])
    (hstart : I 0 (p.reserveBootstraps bs.length).2)
    (hstep : ∀ i b e p q, bs[i]? = some b → I i p → (bootstrapParts b).run p = (.ok e, q) →
      I (i + 1) (q.fillBootstrap (UInt16.ofNat i) e))
    (hrun : (restoreBootstraps bs).run p = (.ok u, q)) : I bs.length q := by
  rw [run_restoreBootstraps_eq hempty] at hrun
  have hlast := restoreFrom_induction hstep hstart rfl hrun
  rwa [Nat.zero_add] at hlast

theorem exists_run_restoreFrom {rest : List BootstrapMethod} {count : Nat}
    (hstep : ∀ i b p, bs[i]? = some b → I i p → ∃ e q, (bootstrapParts b).run p = (.ok e, q)
      ∧ I (i + 1) (q.fillBootstrap (UInt16.ofNat i) e))
    (hp : I count p) (hrest : bs.drop count = rest) :
    ∃ q, (restoreFrom count rest).run p = (.ok (), q) ∧ I (count + rest.length) q := by
  induction rest generalizing count p with
  | nil => exact ⟨p, rfl, hp⟩
  | cons b rest ih =>
    obtain ⟨hb, hdrop⟩ := next_of_drop hrest
    obtain ⟨e, p₁, hparts, hnext⟩ := hstep count b p hb hp
    obtain ⟨q, hrun, hlast⟩ := ih hnext hdrop
    refine ⟨q, (run_bind_ok hparts _).trans ((run_bind_ok rfl _).trans hrun), ?_⟩
    rw [List.length_cons]
    rwa [Nat.add_assoc, Nat.add_comm 1] at hlast

theorem exists_run_restoreBootstraps (hempty : p.bootstrapMethods = #[])
    (hstart : I 0 (p.reserveBootstraps bs.length).2)
    (hstep : ∀ i b p, bs[i]? = some b → I i p → ∃ e q, (bootstrapParts b).run p = (.ok e, q)
      ∧ I (i + 1) (q.fillBootstrap (UInt16.ofNat i) e)) :
    ∃ q, (restoreBootstraps bs).run p = (.ok (), q) ∧ I bs.length q := by
  rw [run_restoreBootstraps_eq hempty]
  obtain ⟨q, hrun, hlast⟩ := exists_run_restoreFrom hstep hstart rfl
  rw [Nat.zero_add] at hlast
  exact ⟨q, hrun, hlast⟩

end Loop

variable {s : Rereading} {t : ConstantTable} {bs : List BootstrapMethod} {p q : Pool}

theorem valid_reserveBootstraps (hvalid : p.Valid)
    (hnone : ∀ e : BootstrapEntry, p.bootstrapIndices[e]? = none) (count : Nat) :
    (p.reserveBootstraps count).2.Valid where
  ordered := hvalid.ordered
  start_eq := hvalid.start_eq
  next_le := hvalid.next_le
  indices_eq := hvalid.indices_eq
  bootstraps := by
    intro e i hi
    have hnone' : (p.reserveBootstraps count).2.bootstrapIndices[e]? = none := hnone e
    rw [hnone'] at hi
    cases hi

theorem restored_reserveBootstraps (hvalid : p.Valid) (hempty : p.bootstrapMethods = #[])
    (hnone : ∀ e : BootstrapEntry, p.bootstrapIndices[e]? = none) :
    (p.reserveBootstraps bs.length).2.Restored s s p.constants bs 0 := by
  have hnone' : ∀ e : BootstrapEntry,
      (p.reserveBootstraps bs.length).2.bootstrapIndices[e]? = none := hnone
  constructor
  case valid => exact valid_reserveBootstraps hvalid hnone _
  case constants => exact ⟨[], rfl⟩
  case length_le => simp [Pool.reserveBootstraps, hempty]
  case outside =>
    intro e i hi
    rw [hnone' e] at hi
    cases hi
  case allowed =>
    intro i e hi houtside
    have hlt := (Array.getElem?_eq_some_iff.1 hi).1
    simp only [Pool.reserveBootstraps, hempty, Array.empty_append, Array.size_replicate] at hlt
    omega
  case resolves =>
    intro _ _ i hi
    cases hi

theorem restored_of_run_bootstrapParts {i : Nat} {b : BootstrapMethod} {e : BootstrapEntry}
    (hbs : s.wellFormed → ∀ b ∈ bs, b.WellFormed s.admits) (hlength : bs.length ≤ 0xFFFF)
    (hb : bs[i]? = some b) (hp : p.Restored s s t bs i)
    (hrun : (bootstrapParts b).run p = (.ok e, q)) :
    q.Restored s s t bs i ∧ (q.fillBootstrap (UInt16.ofNat i) e).Restored s s t bs (i + 1) := by
  have hlt : i < bs.length := (List.getElem?_eq_some_iff.1 hb).1
  have hnat : (UInt16.ofNat i).toNat = i := by
    rw [UInt16.toNat_ofNat', Nat.mod_eq_of_lt (by omega)]
  have hmem : s.wellFormed → b.WellFormed s.admits := fun hwf =>
    hbs hwf b (List.mem_of_getElem? hb)
  obtain ⟨hgrows, -, hresolves⟩ := yields_bootstrapParts hmem p e q hrun
  have hgrown := hp.grows (Nat.le_of_lt hlt) hgrows
  refine ⟨hgrown, ?_⟩
  have hallowed : s.Allowed q e := fun hwf hretains =>
    ⟨b, (hmem hwf).admitted, (hmem hwf).arguments_length, hresolves hretains hwf⟩
  rw [← hnat] at hgrown hb
  have hfilled := hgrown.fill hb hallowed hresolves
  rwa [hnat] at hfilled

/-- All bootstrap methods of the class stand where they were, resolved as they were. -/
theorem run_restoreBootstraps {u : Unit}
    (hbs : s.wellFormed → ∀ b ∈ bs, b.WellFormed s.admits) (hlength : bs.length ≤ 0xFFFF)
    (hvalid : p.Valid) (hempty : p.bootstrapMethods = #[])
    (hnone : ∀ e : BootstrapEntry, p.bootstrapIndices[e]? = none)
    (hrun : (restoreBootstraps bs).run p = (.ok u, q)) :
    q.Restored s s p.constants bs bs.length := by
  refine restoreBootstraps_induction (I := fun i q => q.Restored s s p.constants bs i)
    hempty (restored_reserveBootstraps hvalid hempty hnone) ?_ hrun
  intro i b e p₁ p₂ hb hp₁ hparts
  exact (restored_of_run_bootstrapParts hbs hlength hb hp₁ hparts).2

end PoolM

end ClassPatch
