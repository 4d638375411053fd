import ClassPatch.Proofs.Lower.Known
import ClassPatch.Proofs.Lower.Rebuilt
import ClassPatch.Proofs.Pool.Run
import ClassPatch.Proofs.Stored.ClassFile
import Mathlib.Data.List.Nodup

/-!
Tables without equal entries. Each of their constants is found just where it stands, and once the
bootstrap methods are restored, so is each of these: the pool is the one that was read.
-/

namespace ClassPatch

/--
No constant and no bootstrap method stands in its table twice, and no bootstrap method needs itself
or a later one.
-/
structure Resolver.Distinct (r : Resolver) : Prop where
  constants : r.constants.elements.Nodup
  bootstraps : r.bootstrapMethods.Nodup
  refersBack : r.RefersBack

theorem ConstantTable.indexOf?_of_nodup {t : ConstantTable} (hdense : t.Dense)
    (hnodup : t.elements.Nodup) {c : Constant} {i : ConstantIndex} (hi : t.constant i = .ok c) :
    t.indexOf? c = some i := by
  have hget := constant_eq_ok.1 hi
  have hmem {slot : Nat} (hslot : t.get? slot = some c) : (slot, c) ∈ t.entries.toList :=
    Array.mem_toList_iff.2 ((SlotTable.get?_eq_some_iff hdense.ordered).1 hslot)
  have hfound := Pool.indexOf?_of_first hdense.ordered hget fun slot hlt hslot => by
    have hsame := List.inj_on_of_nodup_map hnodup (hmem hslot) (hmem hget) rfl
    exact Nat.ne_of_lt hlt (congrArg (·.1) hsame)
  rwa [UInt16.ofNat_toNat] at hfound

namespace Pool

variable {p q : Pool} {r : Resolver} {count : Nat}

theorem Indexes.of_nodup {es : List BootstrapEntry} (h : p.Indexes es) (hnodup : es.Nodup)
    {i : Nat} {e : BootstrapEntry} (he : es[i]? = some e) :
    p.bootstrapIndices[e]? = some (UInt16.ofNat i) := by
  obtain ⟨hlt, rfl⟩ := List.getElem?_eq_some_iff.1 he
  have hfind : es.findIdx? (· == es[i]) = some i := by
    refine List.findIdx?_eq_some_iff_getElem.2 ⟨hlt, beq_self_eq_true _, fun j hj heq => ?_⟩
    exact Nat.ne_of_lt hj ((List.Nodup.getElem_inj_iff hnodup).1 (eq_of_beq heq))
  rw [h, hfind, Option.map_some]

theorem Recovered.knows (h : p.Recovered (.ofTable r.constants) count q)
    (hp : p.bootstrapMethods.toList = r.bootstrapMethods) (hr : r.Distinct)
    (hdense : r.constants.Dense) : q.Knows r count where
  constants := by
    intro c i hi
    rw [h.indices, indices_ofTable]
    exact ConstantTable.indexOf?_of_nodup hdense hr.constants hi
  bootstraps := by
    intro e i he hi
    have hindexes := h.indexes
    rw [hp] at hindexes
    rw [← List.getElem?_take_of_lt hi] at he
    have hfound := hindexes.of_nodup (hr.bootstraps.sublist (List.take_sublist _ _)) he
    rwa [UInt16.ofNat_toNat] at hfound

end Pool

namespace PoolM

/-- Restoring the bootstrap methods of distinct tables gives these tables back. -/
theorem exists_run_restoreBootstraps_of_distinct {r : Resolver} {bs : List BootstrapMethod}
    (hr : r.Distinct) (hdense : r.constants.Dense) (hbs : r.bootstraps = .ok bs)
    (hlength : r.bootstrapMethods.length ≤ 0xFFFF) :
    ∃ q, (restoreBootstraps bs).run (.ofTable r.constants) = (.ok (), q)
      ∧ q.constants = r.constants ∧ q.bootstrapMethods.toList = r.bootstrapMethods
      ∧ q.Knows r r.bootstrapMethods.length := by
  let p : Pool := { Pool.ofTable r.constants with bootstrapMethods := r.bootstrapMethods.toArray }
  have hp : p.bootstrapMethods.toList = r.bootstrapMethods := rfl
  have hsize : p.bootstrapMethods.size = r.bootstrapMethods.length := rfl
  have hcount : bs.length = r.bootstrapMethods.length := by
    rw [length_of_mapM hbs, List.length_range]
  have hstart : p.Recovered (.ofTable r.constants) 0
      ((Pool.ofTable r.constants).reserveBootstraps bs.length).2 := by
    refine ⟨rfl, rfl, ?_, rfl, fun e => Std.HashMap.getElem?_empty⟩
    simp [Pool.reserveBootstraps, Pool.ofTable, hcount, hsize]
  -- what is restored is known, which is enough to lower the next one to its entry
  have hstep : ∀ i b q, bs[i]? = some b → p.Recovered (.ofTable r.constants) i q →
      ∃ e q', (bootstrapParts b).run q = (.ok e, q')
        ∧ p.Recovered (.ofTable r.constants) (i + 1) (q'.fillBootstrap (UInt16.ofNat i) e) := by
    intro i b q hb hq
    have hlt : i < r.bootstrapMethods.length := hcount ▸ (List.getElem?_eq_some_iff.1 hb).1
    have hnat : (UInt16.ofNat i).toNat = i := by
      rw [UInt16.toNat_ofNat', Nat.mod_eq_of_lt (by omega)]
    obtain ⟨j, hj, hbootstrap⟩ := exists_rel_of_getElem? (mapM_eq_ok.1 hbs).flip hb
    rw [List.getElem?_range hlt] at hj
    cases hj
    obtain ⟨e, he, hrepeats⟩ := (hq.knows hp hr hdense).exists_bootstrapParts_next hr.refersBack
      hnat hbootstrap
    rw [hnat] at he
    refine ⟨e, q, hrepeats q (.refl q), hq.fill ?_ (hsize ▸ hlength)⟩
    rw [← Array.getElem?_toList, hp, he]
  obtain ⟨q, hrun, hq⟩ := exists_run_restoreBootstraps rfl hstart hstep
  rw [hcount] at hq
  refine ⟨q, hrun, hq.constants, ?_, hq.knows hp hr hdense⟩
  have htaken := hq.taken
  rw [hp, List.take_length, List.take_of_length_le] at htaken
  · exact htaken
  · rw [Array.length_toList, hq.size_eq, hsize]

end PoolM

end ClassPatch
