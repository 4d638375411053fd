import ClassPatch.Proofs.Lower.Limits
import ClassPatch.Proofs.Lower.Rebuilt

/-!
Lowering that adds no bootstrap method. All bootstrap methods that dynamic constants refer to are
found then, and one that is found while another is restored has been restored before it.
-/

namespace ClassPatch

variable {p q : Pool} {bs : List BootstrapMethod}

/-- The bootstrap method is lowered to an entry that the pool finds before the given place. -/
def Pool.FindsBefore (p : Pool) (j : Nat) (b : BootstrapMethod) : Prop :=
  ∃ (e : BootstrapEntry) (i : UInt16), p.bootstrapIndices[e]? = some i ∧ i.toNat < j
    ∧ PoolM.Repeats p (PoolM.bootstrapParts b) e

theorem Pool.FindsBefore.mono {j : Nat} {b : BootstrapMethod} (h : p.FindsBefore j b)
    (hq : q.Remembers p) : q.FindsBefore j b := by
  obtain ⟨e, i, hi, hlt, hrepeats⟩ := h
  exact ⟨e, i, hq.bootstrapIndices e i hi, hlt, hrepeats.mono hq⟩

theorem Rereading.Resolves.unique {s : Rereading} {e : BootstrapEntry} {b b' : BootstrapMethod}
    (h : s.Resolves e b) (h' : s.Resolves e b') : b = b' := by
  obtain ⟨handle, arguments⟩ := b
  obtain ⟨handle', arguments'⟩ := b'
  have hhandle : handle = handle' := Except.ok.inj (h.1.symm.trans h'.1)
  have harguments : arguments = arguments' :=
    Except.ok.inj ((mapM_eq_ok.2 h.2.flip).symm.trans (mapM_eq_ok.2 h'.2.flip))
  rw [hhandle, harguments]

theorem Pool.Restored.findsBefore {s s' : Rereading} {t : ConstantTable} {j n : Nat}
    {b : BootstrapMethod} (h : p.Restored s s' t bs j) (hsize : p.bootstrapMethods.size ≤ bs.length)
    (hlength : bs.length ≤ 0xFFFF) (hb : p.FindsBefore n b) : p.FindsBefore j b := by
  obtain ⟨e, i, hi, -, hrepeats⟩ := hb
  have hlt := (Array.getElem?_eq_some_iff.1 (h.valid.bootstraps e i hi (by omega))).1
  have houtside := h.outside e i hi (by omega)
  exact ⟨e, i, hi, by omega, hrepeats⟩

theorem BootstrapMethod.WellFormed.of_argument {admits : BootstrapMethod → Prop}
    {b d : BootstrapMethod} (h : b.WellFormed admits) {c : LoadableConstant} (hc : c ∈ b.arguments)
    (hd : d ∈ c.bootstrap?) : d.WellFormed admits := by
  cases c with
  | static c => cases hd
  | dynamic handle arguments name descriptor =>
    cases hd
    obtain ⟨-, hdynamic, hhandle, hlength, harguments⟩ := (h.arguments _ hc).dynamic_inv
    exact ⟨hdynamic, hhandle, hlength, fun k hk => (harguments k hk).mono (by omega)⟩

namespace PoolM

theorem findsBefore_of_run_bootstrapMethod {b : BootstrapMethod} {i : UInt16}
    (hrun : (bootstrapMethod b).run p = (.ok i, q)) : q.FindsBefore 0x10000 b := by
  obtain ⟨e, p₁, hparts, hentry⟩ := run_bind_eq_ok.1 hrun
  obtain ⟨-, hrepeats⟩ := (yields_bootstrapParts (s := .blank) False.elim).repeats_of_run hparts
  obtain ⟨hgrows, hi⟩ : p₁.Grows (fun _ _ => True) q ∧ q.bootstrapIndices[e]? = some i :=
    Pool.grows_insertBootstrap trivial (run_bootstrapEntry_eq_ok.1 hentry)
  exact ⟨e, i, hi, i.toNat_lt, hrepeats.mono hgrows.remembers⟩

theorem findsBefore_of_run_loadables {cs : List LoadableConstant} {is : List ConstantIndex}
    {c : LoadableConstant} {b : BootstrapMethod} (hc : c ∈ cs) (hb : b ∈ c.bootstrap?)
    (hrun : (loadables cs).run p = (.ok is, q)) : q.FindsBefore 0x10000 b := by
  induction cs generalizing p is with
  | nil => cases hc
  | cons head cs ih =>
    rw [loadables] at hrun
    obtain ⟨index, p₁, hhead, hrun⟩ := run_bind_eq_ok.1 hrun
    obtain ⟨indices, p₂, htail, hrun⟩ := run_bind_eq_ok.1 hrun
    obtain ⟨-, rfl⟩ := run_pure_eq_ok.1 hrun
    rcases List.mem_cons.1 hc with rfl | hc
    · cases c with
      | static c => cases hb
      | dynamic handle arguments name descriptor =>
        cases hb
        rw [loadable_dynamic] at hhead
        obtain ⟨i, p₃, hmethod, hrest⟩ := run_bind_eq_ok.1 hhead
        have hkeeps : KeepsTable p₃ (nameAndType name.text descriptor.render >>= fun member =>
            constant (.dynamic i member)) :=
          (KeepsTable.compositional.nameAndType _ _).bind fun _ => .constant _
        obtain ⟨hremembers, -⟩ := hkeeps p₃ index p₁ (.refl p₃) hrest
        obtain ⟨hremembers', -⟩ := (yields_loadables (s := .blank) cs (Nat.le_refl _)
          False.elim).repeats_of_run htail
        exact (findsBefore_of_run_bootstrapMethod hmethod).mono (hremembers'.trans hremembers)
    · exact ih hc htail

end PoolM

/-- The bootstrap methods that the first ones refer to are found in order, if none was added. -/
structure Pool.RestoredInOrder (s : Rereading) (t : ConstantTable) (bs : List BootstrapMethod)
    (count : Nat) (p : Pool) : Prop where
  restored : p.Restored s s t bs count
  found : p.bootstrapMethods.size ≤ bs.length → ∀ j < count, ∀ b, bs[j]? = some b →
    ∀ c ∈ b.arguments, ∀ d ∈ c.bootstrap?, p.FindsBefore j d

namespace PoolM

variable {s : Rereading} {t : ConstantTable}

theorem restoredInOrder_of_run_bootstrapParts {i : Nat} {b : BootstrapMethod} {e : BootstrapEntry}
    (hbs : s.wellFormed → ∀ b ∈ bs, b.WellFormed s.admits) (hlength : bs.length ≤ 0xFFFF)
    (hb : bs[i]? = some b) (hp : p.RestoredInOrder s t bs i)
    (hrun : (bootstrapParts b).run p = (.ok e, q)) :
    (q.fillBootstrap (UInt16.ofNat i) e).RestoredInOrder s t bs (i + 1) := by
  obtain ⟨hgrown, hfilled⟩ := restored_of_run_bootstrapParts hbs hlength hb hp.restored hrun
  refine ⟨hfilled, fun hsize j hj b' hb' c hc d hd => ?_⟩
  rw [Pool.size_fillBootstrap] at hsize
  have hremembers := q.remembers_fillBootstrap (UInt16.ofNat i) e
  by_cases heq : j = i
  · rw [heq] at hb' ⊢
    rw [hb] at hb'
    cases hb'
    obtain ⟨index, p₁, -, hrun⟩ := run_bind_eq_ok.1 hrun
    obtain ⟨indices, p₂, harguments, hrun⟩ := run_bind_eq_ok.1 hrun
    obtain ⟨-, rfl⟩ := run_pure_eq_ok.1 hrun
    have hfound := findsBefore_of_run_loadables hc hd harguments
    exact (hgrown.findsBefore hsize hlength hfound).mono hremembers
  · obtain ⟨hgrows, -⟩ := yields_bootstrapParts (s := .blank) False.elim p e q hrun
    have hle := hgrows.size_le
    have hfound := hp.found (by omega) j (by omega) b' hb' c hc d hd
    exact hfound.mono (hremembers.trans hgrows.remembers)

theorem restoredInOrder_of_run_restoreBootstraps {u : Unit}
    (hbs : s.wellFormed → ∀ b ∈ bs, b.WellFormed s.admits) (hlength : bs.length ≤ 0xFFFF)
    (hvalid : p.Valid) (hempty : p.bootstrapMethods = #[])
    (hnone : ∀ e : BootstrapEntry, p.bootstrapIndices[e]? = none)
    (hrun : (restoreBootstraps bs).run p = (.ok u, q)) :
    q.RestoredInOrder s p.constants bs bs.length := by
  refine restoreBootstraps_induction (I := Pool.RestoredInOrder s p.constants bs) hempty
    ⟨restored_reserveBootstraps hvalid hempty hnone, ?_⟩ ?_ hrun
  · intro _ j hj
    cases hj
  · intro i b e p₁ p₂ hb hp₁ hparts
    exact restoredInOrder_of_run_bootstrapParts hbs hlength hb hp₁ hparts

end PoolM

theorem ClassLowering.ordered_of_size_le {admits : BootstrapMethod → Prop} {c : Class}
    {file : Stored.ClassFile} {zero : p.constants.get? 0 = none}
    (h : ClassLowering True admits c file p zero)
    (hpool : c.PoolFits) (hbootstraps : ∀ b ∈ c.bootstrapMethods, b.WellFormed admits)
    (hlength : c.bootstrapMethods.length ≤ 0xFFFF)
    (hfields : ∀ f ∈ c.fields, f.ConstantsWellFormed admits)
    (hmethods : ∀ m ∈ c.methods, m.ConstantsWellFormed admits)
    (hrun : (PoolM.classFile c).run c.initialPool = (.ok file, p))
    (hsize : p.bootstrapMethods.size ≤ c.bootstrapMethods.length) :
    BootstrapMethod.Ordered c.bootstrapMethods := by
  let s : Rereading := ⟨p, zero, True, admits⟩
  obtain ⟨p₀, hrestore, hgrows⟩ := PoolM.exists_grows_of_run (s := s) (fun _ => hfields)
    (fun _ => hmethods) hrun
  have hrestored := PoolM.restoredInOrder_of_run_restoreBootstraps (s := s) (fun _ => hbootstraps)
    hlength (Class.valid_initialPool hpool) c.bootstrapMethods_initialPool
    c.bootstrapIndices_initialPool hrestore
  intro j b hb k hk d hd
  have hj : j < c.bootstrapMethods.length := (List.getElem?_eq_some_iff.1 hb).1
  have hle := hgrows.size_le
  obtain ⟨e, i, hi, hlt, hrepeats⟩ :=
    (hrestored.found (by omega) j hj b hb k hk d hd).mono hgrows.remembers
  -- the entry resolves to what it was made from, and to what was restored in its place
  have hwf : d.WellFormed admits := (hbootstraps b (List.mem_of_getElem? hb)).of_argument hk hd
  obtain ⟨-, -, hresolves⟩ := PoolM.yields_bootstrapParts (s := s) (fun _ => hwf) p e p
    (hrepeats p (.refl p))
  obtain ⟨e', d', he', hd', hresolves'⟩ := h.restored.resolves trivial h.retains i.toNat (by omega)
  have hentry : p.bootstrapMethods[i.toNat]? = some e := by
    have hcovers := h.retains.covers.bootstraps e i hi
    change p.bootstrapMethods.toList[i.toNat]? = some e at hcovers
    rwa [Array.getElem?_toList] at hcovers
  rw [hentry] at he'
  cases he'
  rw [(hresolves h.retains trivial).unique hresolves']
  refine List.mem_iff_getElem?.2 ⟨i.toNat, ?_⟩
  rw [List.getElem?_take_of_lt hlt]
  exact hd'

end ClassPatch
