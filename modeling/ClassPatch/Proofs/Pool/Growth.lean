import ClassPatch.Pool.Builder
import ClassPatch.Proofs.Pool.SlotTable
import Mathlib.Logic.Relation

/-!
How a pool grows: by steps that add one constant or one bootstrap method which it does not find.
What a pool finds, the pools grown from it find at the same index.
-/

namespace ClassPatch

/-- Index of the first constant equal to the given one. -/
def ConstantTable.indexOf? (t : ConstantTable) (c : Constant) : Option ConstantIndex :=
  (t.entries.toList.find? (·.2 == c)).map fun e => UInt16.ofNat e.1

theorem ConstantTable.indexOf?_append {t : ConstantTable} {c : Constant} {i : ConstantIndex}
    (h : t.indexOf? c = some i) (cs : List Constant) :
    ConstantTable.indexOf? (t.append cs) c = some i := by
  induction cs generalizing t with
  | nil => exact h
  | cons d cs ih =>
    refine ih ?_
    obtain ⟨e, he, hi⟩ := Option.map_eq_some_iff.1 h
    unfold ConstantTable.indexOf? SlotTable.push
    rw [Array.toList_push, List.find?_append, he, Option.some_or, Option.map_some, hi]

theorem ConstantTable.indexOf?_eq_none {t : ConstantTable} {c : Constant} (h : c ∉ t.elements) :
    t.indexOf? c = none := by
  unfold indexOf?
  rw [Option.map_eq_none_iff, List.find?_eq_none]
  intro e he heq
  exact h (List.mem_map.2 ⟨e, he, eq_of_beq heq⟩)

namespace Pool

/-- The pool with a constant added at its end. -/
def addConstant (p : Pool) (c : Constant) : Pool where
  constants := p.constants.push c
  indices := p.indices.insert c (UInt16.ofNat p.constants.next)
  bootstrapMethods := p.bootstrapMethods
  bootstrapIndices := p.bootstrapIndices

/-- The pool with a bootstrap method added at the end of the table. -/
def addBootstrap (p : Pool) (e : BootstrapEntry) : Pool where
  constants := p.constants
  indices := p.indices
  bootstrapMethods := p.bootstrapMethods.push e
  bootstrapIndices := p.bootstrapIndices.insert e (UInt16.ofNat p.bootstrapMethods.size)

/-- Adding one thing that the pool does not find. -/
inductive Step (allowed : Pool → BootstrapEntry → Prop) : Pool → Pool → Prop where
  | constant (p : Pool) (c : Constant) (absent : p.indices[c]? = none)
    (room : (UInt16.ofNat p.constants.next).toNat + width c ≤ 0xFFFF) :
    Step allowed p (p.addConstant c)
  | bootstrap (p : Pool) (e : BootstrapEntry) (absent : p.bootstrapIndices[e]? = none)
    (h : allowed p e) : Step allowed p (p.addBootstrap e)

/-- Adding any number of things. -/
def Grows (allowed : Pool → BootstrapEntry → Prop) : Pool → Pool → Prop :=
  Relation.ReflTransGen (Step allowed)

/--
Both tables are sound: constants stand at the index where they are found, as far as the index can
be held.
-/
structure Valid (p : Pool) : Prop where
  ordered : p.constants.Ordered
  start_eq : p.constants.start = 1
  next_le : p.constants.next ≤ 0xFFFF
  indices_eq : ∀ c, p.indices[c]? = p.constants.indexOf? c
  bootstraps : ∀ (e : BootstrapEntry) (i : UInt16), p.bootstrapIndices[e]? = some i →
    p.bootstrapMethods.size ≤ 0x10000 → p.bootstrapMethods[i.toNat]? = some e

/-- What the other pool finds, the pool finds at the same index. -/
structure Remembers (p q : Pool) : Prop where
  indices : ∀ (c : Constant) (i : ConstantIndex), q.indices[c]? = some i → p.indices[c]? = some i
  bootstrapIndices : ∀ (e : BootstrapEntry) (i : UInt16), q.bootstrapIndices[e]? = some i →
    p.bootstrapIndices[e]? = some i

/-- The pools have the same table of bootstrap methods, and find the same entries in it. -/
structure SameTable (p q : Pool) : Prop where
  bootstrapMethods : q.bootstrapMethods = p.bootstrapMethods
  bootstrapIndices : q.bootstrapIndices = p.bootstrapIndices

variable {allowed : Pool → BootstrapEntry → Prop} {p q r : Pool}

theorem Remembers.refl (p : Pool) : p.Remembers p := ⟨fun _ _ h => h, fun _ _ h => h⟩

theorem Remembers.trans (h : p.Remembers q) (h' : q.Remembers r) : p.Remembers r where
  indices := fun c i hi => h.indices c i (h'.indices c i hi)
  bootstrapIndices := fun e i hi => h.bootstrapIndices e i (h'.bootstrapIndices e i hi)

theorem SameTable.refl (p : Pool) : p.SameTable p := ⟨rfl, rfl⟩

theorem SameTable.trans (h : p.SameTable q) (h' : q.SameTable r) : p.SameTable r :=
  ⟨h'.bootstrapMethods.trans h.bootstrapMethods, h'.bootstrapIndices.trans h.bootstrapIndices⟩

theorem getElem?_foldl_insertIfNew (entries : List (Nat × Constant))
    (indices : Std.HashMap Constant ConstantIndex) (c : Constant) :
    (entries.foldl (fun indices e => indices.insertIfNew e.2 (UInt16.ofNat e.1)) indices)[c]?
      = indices[c]?.or ((entries.find? (·.2 == c)).map fun e => UInt16.ofNat e.1) := by
  induction entries generalizing indices with
  | nil =>
    rw [List.foldl_nil, List.find?_nil, Option.map_none, Option.or_none]
  | cons e entries ih =>
    rw [List.foldl_cons, ih, List.find?_cons, Std.HashMap.getElem?_insertIfNew]
    by_cases hc : e.2 = c
    · rw [beq_iff_eq.2 hc, ← hc]
      by_cases hmem : e.2 ∈ indices
      · rw [if_neg (fun h => h.2 hmem), Std.HashMap.getElem?_eq_some_getElem hmem, Option.some_or,
          Option.some_or]
      · rw [if_pos ⟨rfl, hmem⟩, Std.HashMap.getElem?_eq_none hmem, Option.some_or,
          Option.none_or, Option.map_some]
    · rw [beq_false_of_ne hc, if_neg fun h => Bool.false_ne_true h.1]

theorem indices_ofTable (t : ConstantTable) (c : Constant) :
    (ofTable t).indices[c]? = t.indexOf? c := by
  have h := getElem?_foldl_insertIfNew t.entries.toList ∅ c
  rw [Std.HashMap.getElem?_empty, Option.none_or, Array.foldl_toList] at h
  exact h

theorem valid_ofTable {t : ConstantTable} (hordered : t.Ordered) (hstart : t.start = 1)
    (hnext : t.next ≤ 0xFFFF) : (ofTable t).Valid where
  ordered := hordered
  start_eq := hstart
  next_le := hnext
  indices_eq := indices_ofTable t
  bootstraps := by
    intro e i hi
    simp only [ofTable, Std.HashMap.getElem?_empty] at hi
    cases hi

theorem valid_empty : empty.Valid :=
  valid_ofTable (SlotTable.ordered_empty 1) rfl (by decide)

theorem insert_eq_of_some {c : Constant} {i : ConstantIndex} (h : p.indices[c]? = some i) :
    p.insert c = (.ok i, p) := by
  unfold insert
  rw [h]

theorem insertBootstrap_eq_of_some {e : BootstrapEntry} {i : UInt16}
    (h : p.bootstrapIndices[e]? = some i) : p.insertBootstrap e = (i, p) := by
  unfold insertBootstrap
  rw [h]

theorem insert_eq_of_none {c : Constant} (h : p.indices[c]? = none)
    (hroom : (UInt16.ofNat p.constants.next).toNat + width c ≤ 0xFFFF) :
    p.insert c = (.ok (UInt16.ofNat p.constants.next), p.addConstant c) := by
  unfold insert
  rw [h]
  dsimp only
  rw [if_pos hroom]
  rfl

theorem insert_eq_error_of_none {c : Constant} (h : p.indices[c]? = none)
    (hfull : 0xFFFF < (UInt16.ofNat p.constants.next).toNat + width c) :
    p.insert c = (.error (.poolOverflow c (UInt16.ofNat p.constants.next)), p) := by
  unfold insert
  rw [h]
  dsimp only
  rw [if_neg (Nat.not_le.2 hfull)]

theorem insertBootstrap_eq_of_none {e : BootstrapEntry} (h : p.bootstrapIndices[e]? = none) :
    p.insertBootstrap e = (UInt16.ofNat p.bootstrapMethods.size, p.addBootstrap e) := by
  unfold insertBootstrap
  rw [h]
  rfl

theorem grows_insert (allowed : Pool → BootstrapEntry → Prop) {c : Constant} {i : ConstantIndex}
    (h : p.insert c = (.ok i, q)) : p.Grows allowed q ∧ q.indices[c]? = some i := by
  unfold insert at h
  split at h
  next index hindex =>
    cases h
    exact ⟨.refl, hindex⟩
  next habsent =>
    dsimp only at h
    split at h
    · next hroom =>
      cases h
      exact ⟨.single (.constant p c habsent hroom), Std.HashMap.getElem?_insert_self⟩
    · cases h

theorem sameTable_insert {c : Constant} {i : ConstantIndex} (h : p.insert c = (.ok i, q)) :
    p.SameTable q := by
  unfold insert at h
  split at h
  · cases h
    exact .refl p
  · dsimp only at h
    split at h <;> cases h
    exact ⟨rfl, rfl⟩

theorem grows_insertBootstrap {e : BootstrapEntry} {i : UInt16} (he : allowed p e)
    (h : p.insertBootstrap e = (i, q)) : p.Grows allowed q ∧ q.bootstrapIndices[e]? = some i := by
  unfold insertBootstrap at h
  split at h
  next index hindex =>
    cases h
    exact ⟨.refl, hindex⟩
  next habsent =>
    cases h
    exact ⟨.single (.bootstrap p e habsent he), Std.HashMap.getElem?_insert_self⟩

namespace Valid

theorem toNat_ofNat_next (h : p.Valid) :
    (UInt16.ofNat p.constants.next).toNat = p.constants.next := by
  have := h.next_le
  rw [UInt16.toNat_ofNat', Nat.mod_eq_of_lt (by omega)]

theorem get?_eq_of_indices (h : p.Valid) {c : Constant} {i : ConstantIndex}
    (hi : p.indices[c]? = some i) : p.constants.get? i.toNat = some c := by
  rw [h.indices_eq] at hi
  obtain ⟨e, he, rfl⟩ := Option.map_eq_some_iff.1 hi
  have hmem : e ∈ p.constants.entries := Array.mem_toList_iff.1 (List.mem_of_find?_eq_some he)
  have hlt := h.ordered.lt_next e hmem
  have hnext := h.next_le
  have hc := List.find?_some he
  rw [SlotTable.get?_eq_some_iff h.ordered, UInt16.toNat_ofNat', Nat.mod_eq_of_lt (by omega),
    ← eq_of_beq hc]
  exact hmem

theorem addConstant (h : p.Valid) {c : Constant} (absent : p.indices[c]? = none)
    (room : (UInt16.ofNat p.constants.next).toNat + width c ≤ 0xFFFF) :
    (p.addConstant c).Valid where
  ordered := h.ordered.push c.width_pos
  start_eq := h.start_eq
  next_le := by
    rw [h.toNat_ofNat_next] at room
    exact room
  indices_eq := by
    intro d
    have hd := h.indices_eq d
    simp only [Pool.addConstant, ConstantTable.indexOf?, SlotTable.push, Array.toList_push,
      List.find?_append, List.find?_singleton] at hd ⊢
    rw [Std.HashMap.getElem?_insert]
    by_cases hcd : c = d
    · rw [← hcd, absent] at hd
      rw [if_pos (beq_iff_eq.2 hcd), ← hcd, Option.map_eq_none_iff.1 hd.symm]
      simp only [beq_self_eq_true, ↓reduceIte, Option.none_or, Option.map_some]
    · rw [if_neg (by simpa using hcd), if_neg (by simpa using hcd), Option.or_none]
      exact hd
  bootstraps := h.bootstraps

theorem addBootstrap (h : p.Valid) {e : BootstrapEntry} : (p.addBootstrap e).Valid where
  ordered := h.ordered
  start_eq := h.start_eq
  next_le := h.next_le
  indices_eq := h.indices_eq
  bootstraps := by
    intro d i hi hsize
    simp only [Pool.addBootstrap, Array.size_push] at hi hsize ⊢
    rw [Std.HashMap.getElem?_insert] at hi
    split at hi
    next heq =>
      injection hi with hi
      rw [← hi, UInt16.toNat_ofNat', Nat.mod_eq_of_lt (by omega), Array.getElem?_push_size,
        eq_of_beq heq]
    next hne =>
      have hd := h.bootstraps d i hi (by omega)
      have hlt := (Array.getElem?_eq_some_iff.1 hd).1
      rw [Array.getElem?_push_lt hlt, ← hd, Array.getElem?_eq_getElem hlt]

end Valid

section Fill

theorem getElem?_fillBootstrap {i : UInt16} {e : BootstrapEntry} {j : Nat} (h : j ≠ i.toNat) :
    (p.fillBootstrap i e).bootstrapMethods[j]? = p.bootstrapMethods[j]? := by
  simp only [fillBootstrap]
  rw [Array.getElem?_setIfInBounds_ne (Ne.symm h)]

theorem getElem?_fillBootstrap_self {i : UInt16} {e : BootstrapEntry}
    (h : i.toNat < p.bootstrapMethods.size) :
    (p.fillBootstrap i e).bootstrapMethods[i.toNat]? = some e := by
  simp only [fillBootstrap]
  rw [Array.getElem?_setIfInBounds_self_of_lt h]

theorem size_fillBootstrap {i : UInt16} {e : BootstrapEntry} :
    (p.fillBootstrap i e).bootstrapMethods.size = p.bootstrapMethods.size := by
  simp only [fillBootstrap, Array.size_setIfInBounds]

theorem bootstrapIndices_fillBootstrap {i j : UInt16} {e e' : BootstrapEntry}
    (h : (p.fillBootstrap i e).bootstrapIndices[e']? = some j) :
    (e' = e ∧ j = i) ∨ p.bootstrapIndices[e']? = some j := by
  simp only [fillBootstrap] at h
  rw [Std.HashMap.getElem?_insertIfNew] at h
  split at h
  next heq =>
    injection h with h
    exact .inl ⟨(eq_of_beq heq.1).symm, h.symm⟩
  next => exact .inr h

theorem bootstrapIndices_fillBootstrap_of_some {i j : UInt16} {e e' : BootstrapEntry}
    (h : p.bootstrapIndices[e']? = some j) :
    (p.fillBootstrap i e).bootstrapIndices[e']? = some j := by
  simp only [fillBootstrap]
  rw [Std.HashMap.getElem?_insertIfNew, if_neg]
  · exact h
  · rintro ⟨heq, hnew⟩
    rw [← eq_of_beq heq] at h
    apply hnew
    rw [Std.HashMap.mem_iff_isSome_getElem?, h]
    rfl

theorem remembers_fillBootstrap (p : Pool) (i : UInt16) (e : BootstrapEntry) :
    (p.fillBootstrap i e).Remembers p :=
  ⟨fun _ _ hi => hi, fun _ _ hi => bootstrapIndices_fillBootstrap_of_some hi⟩

theorem Valid.fillBootstrap (h : p.Valid) {i : UInt16} {e : BootstrapEntry}
    (hlt : i.toNat < p.bootstrapMethods.size)
    (hfree : ∀ (e' : BootstrapEntry) (j : UInt16), p.bootstrapIndices[e']? = some j →
      p.bootstrapMethods.size ≤ 0x10000 → j.toNat ≠ i.toNat) : (p.fillBootstrap i e).Valid where
  ordered := h.ordered
  start_eq := h.start_eq
  next_le := h.next_le
  indices_eq := h.indices_eq
  bootstraps := by
    intro e' j hj hsize
    rw [size_fillBootstrap] at hsize
    rcases bootstrapIndices_fillBootstrap hj with ⟨rfl, rfl⟩ | hj
    · exact getElem?_fillBootstrap_self hlt
    · rw [getElem?_fillBootstrap (hfree e' j hj hsize)]
      exact h.bootstraps e' j hj hsize

end Fill

namespace Step

theorem indices (h : Step allowed p q) {c : Constant} {i : ConstantIndex}
    (hc : p.indices[c]? = some i) : q.indices[c]? = some i := by
  cases h with
  | constant d absent room =>
    simp only [addConstant]
    rw [Std.HashMap.getElem?_insert, if_neg]
    · exact hc
    · intro heq
      rw [eq_of_beq heq, hc] at absent
      cases absent
  | bootstrap e absent he => exact hc

theorem bootstrapIndices (h : Step allowed p q) {e : BootstrapEntry} {i : UInt16}
    (he : p.bootstrapIndices[e]? = some i) : q.bootstrapIndices[e]? = some i := by
  cases h with
  | constant d absent room => exact he
  | bootstrap e' absent he' =>
    simp only [addBootstrap]
    rw [Std.HashMap.getElem?_insert, if_neg]
    · exact he
    · intro heq
      rw [eq_of_beq heq, he] at absent
      cases absent

theorem constants (h : Step allowed p q) : ∃ cs, q.constants = p.constants.append cs := by
  cases h with
  | constant c absent room => exact ⟨[c], rfl⟩
  | bootstrap e absent he => exact ⟨[], rfl⟩

theorem bootstrapMethods (h : Step allowed p q) :
    ∃ es, q.bootstrapMethods.toList = p.bootstrapMethods.toList ++ es ∧ ∀ e ∈ es, allowed p e := by
  cases h with
  | constant c absent room =>
    refine ⟨[], (List.append_nil _).symm, ?_⟩
    intro e he
    cases he
  | bootstrap e absent he =>
    refine ⟨[e], Array.toList_push, ?_⟩
    intro e' he'
    rw [List.mem_singleton.1 he']
    exact he

theorem valid (h : Step allowed p q) (hp : p.Valid) : q.Valid := by
  cases h with
  | constant c absent room => exact hp.addConstant absent room
  | bootstrap e absent he => exact hp.addBootstrap

end Step

namespace Grows

theorem trans {r : Pool} (h : p.Grows allowed q) (h' : q.Grows allowed r) : p.Grows allowed r :=
  Relation.ReflTransGen.trans h h'

theorem valid (h : p.Grows allowed q) (hp : p.Valid) : q.Valid := by
  induction h with
  | refl => exact hp
  | tail _ hstep ih => exact hstep.valid ih

theorem indices (h : p.Grows allowed q) {c : Constant} {i : ConstantIndex}
    (hc : p.indices[c]? = some i) : q.indices[c]? = some i := by
  induction h with
  | refl => exact hc
  | tail _ hstep ih => exact hstep.indices ih

theorem bootstrapIndices (h : p.Grows allowed q) {e : BootstrapEntry} {i : UInt16}
    (he : p.bootstrapIndices[e]? = some i) : q.bootstrapIndices[e]? = some i := by
  induction h with
  | refl => exact he
  | tail _ hstep ih => exact hstep.bootstrapIndices ih

theorem remembers (h : p.Grows allowed q) : q.Remembers p :=
  ⟨fun _ _ hi => h.indices hi, fun _ _ hi => h.bootstrapIndices hi⟩

theorem constants (h : p.Grows allowed q) : ∃ cs, q.constants = p.constants.append cs := by
  induction h with
  | refl => exact ⟨[], rfl⟩
  | tail _ hstep ih =>
    obtain ⟨cs, hcs⟩ := ih
    obtain ⟨ds, hds⟩ := hstep.constants
    exact ⟨cs ++ ds, by rw [hds, hcs, SlotTable.append_append]⟩

theorem bootstrapMethods (h : p.Grows allowed q) :
    ∃ es, q.bootstrapMethods.toList = p.bootstrapMethods.toList ++ es
      ∧ ∀ e ∈ es, ∃ p', p'.Grows allowed q ∧ allowed p' e := by
  induction h with
  | refl =>
    refine ⟨[], (List.append_nil _).symm, ?_⟩
    intro e he
    cases he
  | tail _ hstep ih =>
    obtain ⟨es, hes, hallowed⟩ := ih
    obtain ⟨fs, hfs, hallowed'⟩ := hstep.bootstrapMethods
    refine ⟨es ++ fs, by rw [hfs, hes, List.append_assoc], ?_⟩
    intro e he
    rcases List.mem_append.1 he with he | he
    · obtain ⟨p', hgrows, hp'⟩ := hallowed e he
      exact ⟨p', hgrows.tail hstep, hp'⟩
    · exact ⟨_, .single hstep, hallowed' e he⟩

theorem size_le (h : p.Grows allowed q) : p.bootstrapMethods.size ≤ q.bootstrapMethods.size := by
  obtain ⟨es, hes, _⟩ := h.bootstrapMethods
  have hlength := congrArg List.length hes
  rw [List.length_append, Array.length_toList, Array.length_toList] at hlength
  omega

theorem le_of_bootstrapIndices (h : p.Grows allowed q) {e : BootstrapEntry} {i : UInt16}
    (he : q.bootstrapIndices[e]? = some i) (hsize : q.bootstrapMethods.size ≤ 0x10000) :
    p.bootstrapIndices[e]? = some i ∨ p.bootstrapMethods.size ≤ i.toNat := by
  induction h with
  | refl => exact .inl he
  | @tail q q' hgrows hstep ih =>
    cases hstep with
    | constant c absent room => exact ih he hsize
    | bootstrap d absent hd =>
      simp only [addBootstrap] at he hsize
      rw [Array.size_push] at hsize
      rw [Std.HashMap.getElem?_insert] at he
      split at he
      · injection he with he
        have hle := Grows.size_le hgrows
        rw [← he, UInt16.toNat_ofNat', Nat.mod_eq_of_lt (by omega)]
        exact .inr hle
      · exact ih he (by omega)

end Grows

end Pool

end ClassPatch
