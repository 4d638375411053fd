import ClassPatch.Proofs.Pool.Growth

/-!
Where a pool finds the entries of its table of bootstrap methods: each where it first stands in the
table. Entries that are reserved are not found, so while a table is restored its first part is
indexed, and nothing else.
-/

namespace ClassPatch.Pool

/-- The pool finds the given entries where they first stand among them, and no others. -/
def Indexes (p : Pool) (es : List BootstrapEntry) : Prop :=
  ∀ e : BootstrapEntry, p.bootstrapIndices[e]? = (es.findIdx? (· == e)).map UInt16.ofNat

variable {allowed : Pool → BootstrapEntry → Prop} {p q r : Pool} {es : List BootstrapEntry}

section Fill

variable {i : UInt16} {e : BootstrapEntry} {k : Nat}

theorem take_fillBootstrap (h : k ≤ i.toNat) :
    (p.fillBootstrap i e).bootstrapMethods.toList.take k = p.bootstrapMethods.toList.take k := by
  simp only [fillBootstrap, Array.toList_setIfInBounds]
  exact List.take_set_of_le h

theorem take_fillBootstrap_self (h : i.toNat < p.bootstrapMethods.size) :
    (p.fillBootstrap i e).bootstrapMethods.toList.take (i.toNat + 1)
      = p.bootstrapMethods.toList.take i.toNat ++ [e] := by
  have hself : (p.fillBootstrap i e).bootstrapMethods.toList[i.toNat]? = some e := by
    rw [Array.getElem?_toList]
    exact getElem?_fillBootstrap_self h
  rw [List.take_add_one, hself, take_fillBootstrap (Nat.le_refl _)]
  rfl

end Fill

namespace Indexes

theorem of_sameTable (h : p.Indexes es) (hpq : p.SameTable q) : q.Indexes es := by
  intro e
  rw [hpq.bootstrapIndices]
  exact h e

theorem bootstrapIndices_eq (h : p.Indexes es) (h' : q.Indexes es) (e : BootstrapEntry) :
    p.bootstrapIndices[e]? = q.bootstrapIndices[e]? :=
  (h e).trans (h' e).symm

theorem exists_of_mem (h : p.Indexes es) {e : BootstrapEntry} (he : e ∈ es) :
    ∃ i : UInt16, p.bootstrapIndices[e]? = some i := by
  cases hfind : es.findIdx? (· == e) with
  | none =>
    have hne := List.findIdx?_eq_none_iff.1 hfind e he
    rw [beq_self_eq_true] at hne
    cases hne
  | some i =>
    refine ⟨UInt16.ofNat i, ?_⟩
    rw [h e, hfind]
    rfl

theorem findIdx?_concat (es : List BootstrapEntry) (e d : BootstrapEntry) :
    (es ++ [e]).findIdx? (· == d)
      = (es.findIdx? (· == d)).or (if e == d then some es.length else none) := by
  rw [List.findIdx?_append, List.findIdx?_singleton]
  split
  · rw [Option.map_some, Nat.zero_add]
  · rw [Option.map_none]

theorem fillBootstrap (h : p.Indexes es) (e : BootstrapEntry) :
    (p.fillBootstrap (UInt16.ofNat es.length) e).Indexes (es ++ [e]) := by
  intro d
  have hd := h d
  simp only [Pool.fillBootstrap]
  rw [findIdx?_concat, Std.HashMap.getElem?_insertIfNew]
  by_cases heq : e = d
  · rw [← heq] at hd ⊢
    simp only [beq_self_eq_true, Std.HashMap.mem_iff_isSome_getElem?, hd]
    cases es.findIdx? (· == e) with
    | none => rfl
    | some i => rfl
  · rw [beq_false_of_ne heq, if_neg fun hnew => Bool.false_ne_true hnew.1,
      if_neg Bool.false_ne_true, Option.or_none]
    exact hd

theorem addBootstrap (h : p.Indexes p.bootstrapMethods.toList) {e : BootstrapEntry}
    (absent : p.bootstrapIndices[e]? = none) :
    (p.addBootstrap e).Indexes (p.addBootstrap e).bootstrapMethods.toList := by
  intro d
  simp only [Pool.addBootstrap, Array.toList_push]
  rw [findIdx?_concat, Std.HashMap.getElem?_insert]
  have hd := h d
  by_cases heq : e = d
  · rw [← heq, absent] at hd
    rw [← heq, Option.map_eq_none_iff.1 hd.symm, beq_self_eq_true, if_pos rfl, if_pos rfl]
    rfl
  · rw [beq_false_of_ne heq, if_neg Bool.false_ne_true, if_neg Bool.false_ne_true,
      Option.or_none]
    exact hd

end Indexes

namespace Step

theorem indexes (h : Step allowed p q) (hp : p.Indexes p.bootstrapMethods.toList) :
    q.Indexes q.bootstrapMethods.toList := by
  cases h with
  | constant c absent room => exact hp
  | bootstrap e absent he => exact hp.addBootstrap absent

end Step

namespace Grows

theorem indexes (h : p.Grows allowed q) (hp : p.Indexes p.bootstrapMethods.toList) :
    q.Indexes q.bootstrapMethods.toList := by
  induction h with
  | refl => exact hp
  | tail _ hstep ih => exact hstep.indexes ih

theorem bootstrapMethods_isPrefix (h : p.Grows allowed q) :
    p.bootstrapMethods.toList <+: q.bootstrapMethods.toList := by
  obtain ⟨es, hes, -⟩ := h.bootstrapMethods
  exact ⟨es, hes.symm⟩

theorem exists_of_getElem? (h : p.Grows allowed q) (hp : p.Indexes p.bootstrapMethods.toList)
    {k : Nat} {e : BootstrapEntry} (hk : q.bootstrapMethods[k]? = some e)
    (hle : p.bootstrapMethods.size ≤ k) :
    ∃ p', q.Remembers p' ∧ p'.Indexes (q.bootstrapMethods.toList.take k) ∧ allowed p' e := by
  induction h with
  | refl =>
    have hlt := (Array.getElem?_eq_some_iff.1 hk).1
    omega
  | @tail p' q hgrows hstep ih =>
    have hp' := Grows.indexes hgrows hp
    have hremembers := Grows.remembers (.single hstep)
    cases hstep with
    | constant c absent room =>
      obtain ⟨r, hremembers', hr⟩ := ih hk
      exact ⟨r, hremembers.trans hremembers', hr⟩
    | bootstrap d absent hd =>
      simp only [Pool.addBootstrap, Array.toList_push] at hk ⊢
      rw [Array.getElem?_push] at hk
      split at hk
      next heq =>
        injection hk with hk
        rw [← hk, heq]
        refine ⟨p', hremembers, ?_, hd⟩
        rwa [← Array.length_toList, List.take_left]
      next hne =>
        have hlt := (Array.getElem?_eq_some_iff.1 hk).1
        obtain ⟨r, hremembers', hr, hallowed⟩ := ih hk
        refine ⟨r, hremembers.trans hremembers', ?_, hallowed⟩
        rwa [List.take_append_of_le_length (by rw [Array.length_toList]; omega)]

end Grows

end ClassPatch.Pool
