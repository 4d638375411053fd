import ClassPatch.Proofs.Lift.Level
import ClassPatch.Proofs.Lower.Constant

/-!
What the constants and bootstrap methods of a class file stand for, with the arguments of each
written out. Arguments may lead back to where they came from; where they do, or go down too many
levels, nothing is resolved. Everything else that is well-formed is resolved to the tree that it
stands for.
-/

namespace ClassPatch

namespace Resolver

variable {r : Resolver} {i j k : ConstantIndex}

/-- The index stands for the constant, on however many levels. -/
inductive Unfolds (r : Resolver) : ConstantIndex → LoadableConstant → Prop where
  | intro {i : ConstantIndex} {c : LoadableConstant} (h : r.UnfoldsBy (Unfolds r) c i) :
    Unfolds r i c

/-- Apart from the arguments of its entry, the constant at the index can be resolved. -/
def WellFormedAt (r : Resolver) (i : ConstantIndex) : Prop :=
  (∃ c, r.StaticAt i c)
    ∨ ∃ e name descriptor handle, r.DynamicAt i e name descriptor
      ∧ r.methodHandle e.handle = .ok handle

/-- The first constant is dynamic, and the second one is an argument of its bootstrap method. -/
inductive Refers (r : Resolver) (i j : ConstantIndex) : Prop where
  | intro {b : UInt16} {member : ConstantIndex} {e : BootstrapEntry}
    (h : r.constants.constant i = .ok (.dynamic b member))
    (hentry : r.bootstrapMethods[b.toNat]? = some e) (hj : j ∈ e.arguments)

/-- The second constant is reached from the first one in the given number of steps. -/
inductive Below (r : Resolver) : Nat → ConstantIndex → ConstantIndex → Prop where
  | refl (i : ConstantIndex) : Below r 0 i i
  | head {n : Nat} {i j k : ConstantIndex} (h : r.Refers i j) (hjk : Below r n j k) :
    Below r (n + 1) i k

theorem StaticAt.not_refers {c : StaticConstant} (h : r.StaticAt i c) : ¬ r.Refers i j := by
  rintro ⟨hdynamic, -, -⟩
  exact h.ne_dynamic hdynamic

theorem DynamicAt.mem_arguments {e : BootstrapEntry} {name : UnqualifiedName}
    {descriptor : FieldType} (h : r.DynamicAt i e name descriptor) (hj : r.Refers i j) :
    j ∈ e.arguments := by
  obtain ⟨h, he, -, -, -⟩ := h
  obtain ⟨h', he', hj⟩ := hj
  rw [h] at h'
  cases h'
  rw [he] at he'
  cases he'
  exact hj

theorem DynamicAt.refers {e : BootstrapEntry} {name : UnqualifiedName} {descriptor : FieldType}
    (h : r.DynamicAt i e name descriptor) (hj : j ∈ e.arguments) : r.Refers i j := by
  obtain ⟨h, he, -, -, -⟩ := h
  exact .intro h he hj

theorem UnfoldsBy.wellFormedAt {R : ConstantIndex → LoadableConstant → Prop} {c : LoadableConstant}
    (h : r.UnfoldsBy R c i) : r.WellFormedAt i := by
  cases h with
  | static h => exact .inl ⟨_, h⟩
  | dynamic h hhandle hcs => exact .inr ⟨_, _, _, _, h, hhandle⟩

theorem UnfoldsBy.exists_of_refers {R : ConstantIndex → LoadableConstant → Prop}
    {c : LoadableConstant} (h : r.UnfoldsBy R c i) (hj : r.Refers i j) : ∃ d, R j d := by
  cases h with
  | static h => exact absurd hj h.not_refers
  | dynamic h hhandle hcs =>
    obtain ⟨d, -, hd⟩ := exists_of_mem_left hcs (h.mem_arguments hj)
    exact ⟨d, hd⟩

theorem exists_loadableWithin_iff {levels : Nat} : (∃ c, r.loadableWithin levels i = .ok c)
    ↔ ∀ n j, r.Below n i j → n < levels ∧ r.WellFormedAt j := by
  induction levels generalizing i with
  | zero =>
    constructor
    · rintro ⟨c, hc⟩
      cases hc
    · intro h
      exact absurd (h 0 i (.refl i)).1 (Nat.not_lt_zero 0)
  | succ levels ih =>
    constructor
    · rintro ⟨c, hc⟩ n j hj
      have hstep := loadableWithin_succ_eq_ok.1 hc
      cases hj with
      | refl => exact ⟨Nat.succ_pos levels, hstep.wellFormedAt⟩
      | @head n _ k _ hk hj =>
        obtain ⟨hlt, hwell⟩ := ih.1 (hstep.exists_of_refers hk) n j hj
        exact ⟨Nat.succ_lt_succ hlt, hwell⟩
    · intro h
      rcases (h 0 i (.refl i)).2 with ⟨c, hc⟩ | ⟨e, name, descriptor, handle, he, hhandle⟩
      · exact ⟨_, loadableWithin_succ_eq_ok.2 (.static hc)⟩
      · have harguments : ∀ a ∈ e.arguments, ∃ c, r.loadableWithin levels a = .ok c := by
          intro a ha
          apply ih.2
          intro n j hj
          obtain ⟨hlt, hwell⟩ := h (n + 1) j (.head (he.refers ha) hj)
          exact ⟨Nat.lt_of_succ_lt_succ hlt, hwell⟩
        obtain ⟨cs, hcs⟩ := exists_mapM harguments
        exact ⟨_, loadableWithin_succ_eq_ok.2 (.dynamic he hhandle (mapM_eq_ok.1 hcs))⟩

theorem unfolds_of_loadableWithin {levels : Nat} {c : LoadableConstant}
    (h : r.loadableWithin levels i = .ok c) : r.Unfolds i c := by
  induction levels generalizing i c with
  | zero => cases h
  | succ levels ih => exact .intro ((loadableWithin_succ_eq_ok.1 h).imp fun _ _ => ih)

mutual

theorem exists_levels : (c : LoadableConstant) → {i : ConstantIndex} → r.Unfolds i c →
    ∃ levels, r.loadableWithin levels i = .ok c
  | .static c, i, .intro h => by
    cases h with
    | static h => exact ⟨1, loadableWithin_succ_eq_ok.2 (.static h)⟩
  | .dynamic handle cs name descriptor, i, .intro h => by
    cases h with
    | dynamic h hhandle hcs =>
      obtain ⟨levels, hlevels⟩ := exists_levels_list cs hcs
      exact ⟨levels + 1, loadableWithin_succ_eq_ok.2 (.dynamic h hhandle hlevels)⟩

theorem exists_levels_list : (cs : List LoadableConstant) → {is : List ConstantIndex} →
    List.Forall₂ r.Unfolds is cs →
      ∃ levels, List.Forall₂ (fun i c => r.loadableWithin levels i = .ok c) is cs
  | [], is, h => by
    cases h
    exact ⟨0, .nil⟩
  | c :: cs, is, h => by
    cases h with
    | cons hhead htail =>
      obtain ⟨m, hm⟩ := exists_levels c hhead
      obtain ⟨n, hn⟩ := exists_levels_list cs htail
      refine ⟨max m n, .cons (loadableWithin_mono (Nat.le_max_left m n) hm) (hn.imp ?_)⟩
      intro i d hd
      exact loadableWithin_mono (Nat.le_max_right m n) hd

end

theorem Unfolds.unique {c d : LoadableConstant} (hc : r.Unfolds i c) (hd : r.Unfolds i d) :
    c = d := by
  obtain ⟨m, hm⟩ := exists_levels c hc
  obtain ⟨n, hn⟩ := exists_levels d hd
  have hm' := loadableWithin_mono (Nat.le_max_left m n) hm
  rw [loadableWithin_mono (Nat.le_max_right m n) hn] at hm'
  cases hm'
  rfl

namespace Below

theorem trans {m n : Nat} (h : r.Below m i j) (h' : r.Below n j k) : r.Below (m + n) i k := by
  induction h with
  | refl i =>
    rw [Nat.zero_add]
    exact h'
  | head hij _ ih =>
    rw [Nat.add_right_comm]
    exact .head hij (ih h')

theorem exists_of_transGen (h : Relation.TransGen r.Refers i j) : ∃ n, 1 ≤ n ∧ r.Below n i j := by
  induction h with
  | single hij => exact ⟨1, Nat.le_refl 1, .head hij (.refl _)⟩
  | tail _ hjk ih =>
    obtain ⟨n, hn, h⟩ := ih
    exact ⟨n + 1, Nat.le_succ_of_le hn, h.trans (.head hjk (.refl _))⟩

theorem exists_of_cycle (h : Relation.TransGen r.Refers i i) (bound : Nat) :
    ∃ n, bound ≤ n ∧ r.Below n i i := by
  obtain ⟨m, hm, hcycle⟩ := exists_of_transGen h
  induction bound with
  | zero => exact ⟨m, Nat.zero_le m, hcycle⟩
  | succ bound ih =>
    obtain ⟨n, hn, h⟩ := ih
    exact ⟨m + n, by omega, hcycle.trans h⟩

end Below

/-- What is asked of a resolver. -/
inductive Query where
  | constant (index : ConstantIndex)
  | callSite (index : ConstantIndex)
  | table

/-- What a resolver answers. -/
inductive Resolution where
  | constant (constant : LoadableConstant)
  | callSite (site : CallSite)
  | table (bootstrapMethods : List BootstrapMethod)

def resolve (r : Resolver) : Query → Except ClassError Resolution
  | .constant index => return .constant (← r.loadable index)
  | .callSite index => return .callSite (← r.callSite index)
  | .table => return .table (← r.bootstraps)

/-- The query is about the entry. Entries of the table are counted in 16 bits. -/
inductive Holds (r : Resolver) : Query → BootstrapEntry → Prop where
  | callSite {i : ConstantIndex} {b : UInt16} {member : ConstantIndex} {e : BootstrapEntry}
    (h : r.constants.constant i = .ok (.invokeDynamic b member))
    (he : r.bootstrapMethods[b.toNat]? = some e) : Holds r (.callSite i) e
  | table {n : Nat} {e : BootstrapEntry} (hn : n < r.bootstrapMethods.length)
    (he : r.bootstrapMethods[(UInt16.ofNat n).toNat]? = some e) : Holds r .table e

/-- The constant is reached from the query, the given number of levels down. -/
inductive Reaches (r : Resolver) : Query → Nat → ConstantIndex → Prop where
  | constant {n : Nat} {i j : ConstantIndex} (h : r.Below n i j) : Reaches r (.constant i) n j
  | argument {q : Query} {e : BootstrapEntry} {n : Nat} {a j : ConstantIndex} (he : r.Holds q e)
    (ha : a ∈ e.arguments) (h : r.Below n a j) : Reaches r q (n + 1) j

/-- Apart from the constants that it reaches, the query can be answered. -/
def WellFormedQuery (r : Resolver) : Query → Prop
  | .constant _ => True
  | .callSite i => ∃ e name descriptor handle, r.CallSiteAt i e name descriptor
    ∧ r.methodHandle e.handle = .ok handle
  | .table => ∀ e, r.Holds .table e → ∃ handle, r.methodHandle e.handle = .ok handle

/-- The query is about what the answer says, with all arguments written out. -/
inductive UnfoldsTo (r : Resolver) : Query → Resolution → Prop where
  | constant {i : ConstantIndex} {c : LoadableConstant} (h : r.Unfolds i c) :
    UnfoldsTo r (.constant i) (.constant c)
  | callSite {i : ConstantIndex} {e : BootstrapEntry} {s : CallSite}
    (h : r.CallSiteAt i e s.name s.descriptor) (hb : r.EntryUnfoldsBy r.Unfolds e s.bootstrap) :
    UnfoldsTo r (.callSite i) (.callSite s)
  | table {bs : List BootstrapMethod}
    (h : List.Forall₂ (fun n b => ∃ e, r.bootstrapMethods[(UInt16.ofNat n).toNat]? = some e
      ∧ r.EntryUnfoldsBy r.Unfolds e b) (List.range r.bootstrapMethods.length) bs) :
    UnfoldsTo r .table (.table bs)

theorem exists_entryUnfoldsBy_iff {levels : Nat} {e : BootstrapEntry} :
    (∃ b, r.EntryUnfoldsBy (fun j c => r.loadableWithin levels j = .ok c) e b)
      ↔ (∃ handle, r.methodHandle e.handle = .ok handle)
        ∧ ∀ a ∈ e.arguments, ∀ n j, r.Below n a j → n < levels ∧ r.WellFormedAt j := by
  constructor
  · rintro ⟨b, hb⟩
    refine ⟨⟨_, hb.handle⟩, ?_⟩
    intro a ha
    obtain ⟨c, -, hc⟩ := exists_of_mem_left hb.arguments ha
    exact exists_loadableWithin_iff.1 ⟨c, hc⟩
  · rintro ⟨⟨handle, hhandle⟩, harguments⟩
    obtain ⟨cs, hcs⟩ := exists_mapM fun a ha => exists_loadableWithin_iff.2 (harguments a ha)
    exact ⟨⟨handle, cs⟩, hhandle, mapM_eq_ok.1 hcs⟩

theorem CallSiteAt.unique {e e' : BootstrapEntry} {name name' : UnqualifiedName}
    {descriptor descriptor' : MethodDescriptor} (h : r.CallSiteAt i e name descriptor)
    (h' : r.CallSiteAt i e' name' descriptor') : e = e' ∧ name = name' ∧ descriptor = descriptor' := by
  obtain ⟨hi, he, hmember, hname, hdescriptor⟩ := h
  obtain ⟨hi', he', hmember', hname', hdescriptor'⟩ := h'
  cases hi.symm.trans hi'
  cases he.symm.trans he'
  cases hmember.symm.trans hmember'
  cases hname.symm.trans hname'
  cases hdescriptor.symm.trans hdescriptor'
  exact ⟨rfl, rfl, rfl⟩

theorem CallSiteAt.holds_iff {e e' : BootstrapEntry} {name : UnqualifiedName}
    {descriptor : MethodDescriptor} (h : r.CallSiteAt i e name descriptor) :
    r.Holds (.callSite i) e' ↔ e' = e := by
  obtain ⟨hi, he, -, -, -⟩ := h
  constructor
  · intro h'
    cases h' with
    | callSite hi' he' =>
      cases hi.symm.trans hi'
      cases he.symm.trans he'
      rfl
  · rintro rfl
    exact .callSite hi he

theorem EntryUnfoldsBy.unique {e : BootstrapEntry} {b c : BootstrapMethod}
    (hb : r.EntryUnfoldsBy r.Unfolds e b) (hc : r.EntryUnfoldsBy r.Unfolds e c) : b = c := by
  obtain ⟨handle, cs⟩ := b
  obtain ⟨handle', ds⟩ := c
  obtain ⟨hhandle, hcs⟩ := hb
  obtain ⟨hhandle', hds⟩ := hc
  cases hhandle.symm.trans hhandle'
  have hunique : Relator.RightUnique r.Unfolds := fun _ _ _ hc hd => hc.unique hd
  obtain rfl : cs = ds := List.right_unique_forall₂' hunique hcs hds
  rfl

theorem UnfoldsTo.unique {q : Query} {t u : Resolution} (ht : r.UnfoldsTo q t)
    (hu : r.UnfoldsTo q u) : t = u := by
  cases ht with
  | constant h =>
    obtain ⟨h'⟩ := hu
    rw [h.unique h']
  | @callSite _ _ s h hb =>
    obtain _ | @⟨_, _, s', h', hb'⟩ := hu
    obtain ⟨bootstrap, name, descriptor⟩ := s
    obtain ⟨bootstrap', name', descriptor'⟩ := s'
    obtain ⟨rfl, hname, hdescriptor⟩ := h.unique h'
    dsimp only at hname hdescriptor hb hb'
    rw [hname, hdescriptor, hb.unique hb']
  | table h =>
    obtain _ | _ | h' := hu
    apply congrArg Resolution.table
    refine List.right_unique_forall₂' (fun n b c hb hc => ?_) h h'
    obtain ⟨e, he, hb⟩ := hb
    obtain ⟨e', he', hc⟩ := hc
    cases he.symm.trans he'
    exact hb.unique hc

theorem exists_entry {n : Nat} (hn : n < r.bootstrapMethods.length) :
    ∃ e, r.bootstrapMethods[(UInt16.ofNat n).toNat]? = some e := by
  -- counting in 16 bits makes the number no larger
  have hlt : (UInt16.ofNat n).toNat < r.bootstrapMethods.length := by
    rw [UInt16.toNat_ofNat']
    exact Nat.lt_of_le_of_lt (Nat.mod_le _ _) hn
  exact ⟨_, List.getElem?_eq_getElem hlt⟩

theorem exists_bootstraps_iff : (∃ bs, r.bootstraps = .ok bs)
    ↔ ∀ e, r.Holds .table e → (∃ handle, r.methodHandle e.handle = .ok handle)
      ∧ ∀ a ∈ e.arguments, ∀ n j, r.Below n a j → n < maxDynamicNesting ∧ r.WellFormedAt j := by
  constructor
  · rintro ⟨bs, hbs⟩ e he
    cases he with
    | table hn he =>
      obtain ⟨b, -, hb⟩ := exists_of_mem_left (mapM_eq_ok.1 hbs) (List.mem_range.2 hn)
      obtain ⟨e', he', hb⟩ := bootstrapMethod_eq_ok.1 hb
      cases he.symm.trans he'
      exact exists_entryUnfoldsBy_iff.1 ⟨b, hb⟩
  · intro h
    apply exists_mapM
    intro n hn
    obtain ⟨e, he⟩ := exists_entry (List.mem_range.1 hn)
    obtain ⟨b, hb⟩ := exists_entryUnfoldsBy_iff.2 (h e (.table (List.mem_range.1 hn) he))
    exact ⟨b, bootstrapMethod_eq_ok.2 ⟨e, he, hb⟩⟩

theorem exists_callSite_iff : (∃ s, r.callSite i = .ok s)
    ↔ ∃ e name descriptor, r.CallSiteAt i e name descriptor
      ∧ (∃ handle, r.methodHandle e.handle = .ok handle)
      ∧ ∀ a ∈ e.arguments, ∀ n j, r.Below n a j → n < maxDynamicNesting ∧ r.WellFormedAt j := by
  constructor
  · rintro ⟨s, hs⟩
    obtain ⟨e, hsite, hb⟩ := callSite_eq_ok.1 hs
    exact ⟨e, _, _, hsite, exists_entryUnfoldsBy_iff.1 ⟨_, hb⟩⟩
  · rintro ⟨e, name, descriptor, hsite, he⟩
    obtain ⟨b, hb⟩ := exists_entryUnfoldsBy_iff.2 he
    exact ⟨⟨b, name, descriptor⟩, callSite_eq_ok.2 ⟨e, hsite, hb⟩⟩

theorem forall_reaches_iff {q : Query} (hq : ∀ i, q ≠ .constant i) :
    (∀ n j, r.Reaches q n j → n ≤ maxDynamicNesting ∧ r.WellFormedAt j)
      ↔ ∀ e, r.Holds q e → ∀ a ∈ e.arguments, ∀ n j, r.Below n a j →
        n < maxDynamicNesting ∧ r.WellFormedAt j := by
  constructor
  · intro h e he a ha n j hj
    exact h (n + 1) j (.argument he ha hj)
  · intro h n j hj
    cases hj with
    | constant => exact absurd rfl (hq _)
    | argument he ha hj => exact h _ he _ ha _ j hj

theorem exists_bind_pure {α β : Type} {x : Except ClassError α} {f : α → β} :
    (∃ t, (x >>= fun a => pure (f a)) = .ok t) ↔ ∃ a, x = .ok a := by
  simp only [bind_eq_ok, pure_eq_ok, exists_comm (α := β), exists_and_left, exists_eq', and_true]

/-- A query is answered just if it is well-formed, as are all constants that it reaches, and none of
them is too many levels down. -/
theorem exists_resolve_iff {q : Query} : (∃ t, r.resolve q = .ok t)
    ↔ r.WellFormedQuery q
      ∧ ∀ n j, r.Reaches q n j → n ≤ maxDynamicNesting ∧ r.WellFormedAt j := by
  cases q with
  | constant i =>
    have hanswer : (∃ t, r.resolve (.constant i) = .ok t) ↔ ∃ c, r.loadable i = .ok c :=
      exists_bind_pure
    rw [hanswer, loadable, exists_loadableWithin_iff]
    constructor
    · intro h
      refine ⟨trivial, fun n j hj => ?_⟩
      cases hj with
      | constant hj => exact ⟨Nat.le_of_lt_succ (h n j hj).1, (h n j hj).2⟩
      | argument he => cases he
    · rintro ⟨-, h⟩ n j hj
      exact ⟨Nat.lt_succ_of_le (h n j (.constant hj)).1, (h n j (.constant hj)).2⟩
  | callSite i =>
    have hanswer : (∃ t, r.resolve (.callSite i) = .ok t) ↔ ∃ s, r.callSite i = .ok s :=
      exists_bind_pure
    rw [hanswer, exists_callSite_iff, forall_reaches_iff (by rintro _ ⟨⟩)]
    constructor
    · rintro ⟨e, name, descriptor, hsite, ⟨handle, hhandle⟩, harguments⟩
      refine ⟨⟨e, name, descriptor, handle, hsite, hhandle⟩, fun e' he' => ?_⟩
      rwa [hsite.holds_iff.1 he']
    · rintro ⟨⟨e, name, descriptor, handle, hsite, hhandle⟩, h⟩
      exact ⟨e, name, descriptor, hsite, ⟨handle, hhandle⟩, h e (hsite.holds_iff.2 rfl)⟩
  | table =>
    have hanswer : (∃ t, r.resolve .table = .ok t) ↔ ∃ bs, r.bootstraps = .ok bs :=
      exists_bind_pure
    rw [hanswer, exists_bootstraps_iff, forall_reaches_iff (by rintro _ ⟨⟩)]
    constructor
    · intro h
      exact ⟨fun e he => (h e he).1, fun e he => (h e he).2⟩
    · rintro ⟨hhandles, harguments⟩ e he
      exact ⟨hhandles e he, harguments e he⟩

theorem unfoldsTo_of_resolve {q : Query} {t : Resolution} (h : r.resolve q = .ok t) :
    r.UnfoldsTo q t := by
  cases q with
  | constant i =>
    obtain ⟨c, hc, h⟩ := bind_eq_ok.1 h
    obtain rfl := pure_eq_ok.1 h
    exact .constant (unfolds_of_loadableWithin hc)
  | callSite i =>
    obtain ⟨s, hs, h⟩ := bind_eq_ok.1 h
    obtain rfl := pure_eq_ok.1 h
    obtain ⟨e, hsite, hb⟩ := callSite_eq_ok.1 hs
    exact .callSite hsite (hb.imp fun _ _ => unfolds_of_loadableWithin)
  | table =>
    obtain ⟨bs, hbs, h⟩ := bind_eq_ok.1 h
    obtain rfl := pure_eq_ok.1 h
    apply UnfoldsTo.table
    refine (mapM_eq_ok.1 hbs).imp fun n b hb => ?_
    obtain ⟨e, he, hb⟩ := bootstrapMethod_eq_ok.1 hb
    exact ⟨e, he, hb.imp fun _ _ => unfolds_of_loadableWithin⟩

theorem Reaches.trans {q : Query} {m n : Nat} (h : r.Reaches q m i) (h' : r.Below n i j) :
    r.Reaches q (m + n) j := by
  cases h with
  | constant h => exact .constant (h.trans h')
  | argument he ha h =>
    rw [Nat.add_right_comm]
    exact .argument he ha (h.trans h')

/-- Constants refer back to themselves, or are too many levels down. -/
inductive Entangled (r : Resolver) (q : Query) : Prop where
  | deep {n : Nat} {j : ConstantIndex} (h : r.Reaches q n j) (hn : maxDynamicNesting < n)
  | cycle {n : Nat} {j : ConstantIndex} (h : r.Reaches q n j)
    (hcycle : Relation.TransGen r.Refers j j)

theorem Entangled.exists_deep {q : Query} (h : r.Entangled q) :
    ∃ n j, r.Reaches q n j ∧ maxDynamicNesting < n := by
  cases h with
  | deep h hn => exact ⟨_, _, h, hn⟩
  | @cycle n j h hcycle =>
    obtain ⟨m, hm, hbelow⟩ := Below.exists_of_cycle hcycle (maxDynamicNesting + 1)
    exact ⟨n + m, j, h.trans hbelow, by omega⟩

/--
Every query is answered or fails. It fails where constants refer back to themselves or are too many
levels down. Where it is well-formed, as are all constants that it reaches, and none of them is too
many levels down, it is answered with what it stands for, all arguments written out.
-/
theorem resolve_unfolds (r : Resolver) (q : Query) :
    ((∃ t, r.resolve q = .ok t ∧ r.UnfoldsTo q t) ∨ ∃ e, r.resolve q = .error e)
      ∧ (r.Entangled q → ∃ e, r.resolve q = .error e)
      ∧ (r.WellFormedQuery q
          ∧ (∀ n j, r.Reaches q n j → n ≤ maxDynamicNesting ∧ r.WellFormedAt j) →
        ∃ t, r.resolve q = .ok t ∧ r.UnfoldsTo q t ∧ ∀ u, r.UnfoldsTo q u → u = t) := by
  refine ⟨?_, ?_, ?_⟩
  · cases h : r.resolve q with
    | ok t => exact .inl ⟨t, rfl, unfoldsTo_of_resolve h⟩
    | error e => exact .inr ⟨e, rfl⟩
  · intro hentangled
    cases h : r.resolve q with
    | error e => exact ⟨e, rfl⟩
    | ok t =>
      obtain ⟨n, j, hj, hn⟩ := hentangled.exists_deep
      have hle := ((exists_resolve_iff.1 ⟨t, h⟩).2 n j hj).1
      omega
  · intro h
    obtain ⟨t, ht⟩ := exists_resolve_iff.2 h
    have hunfolds := unfoldsTo_of_resolve ht
    exact ⟨t, ht, hunfolds, fun u hu => hu.unique hunfolds⟩

/-- A dynamic constant and a call site, computed by a bootstrap method with the constant as its
argument. -/
def selfReferring : Resolver :=
  ⟨.ofList 1 [.utf8 "a", .utf8 "I", .nameAndType 1 2, .dynamic 0 3, .invokeDynamic 0 3], [⟨0, [4]⟩]⟩

/-- A number, a dynamic constant of it, and a dynamic constant of both. -/
def nesting : Resolver :=
  ⟨.ofList 1 [.utf8 "java/lang/Object", .classRef 1, .utf8 "f", .utf8 "()I", .nameAndType 3 4,
    .methodRef 2 5 false, .methodHandle .invokeStatic 6, .utf8 "I", .nameAndType 3 8, .integer 7,
    .dynamic 0 9, .dynamic 1 9], [⟨7, [10]⟩, ⟨7, [11, 10]⟩]⟩

def nestingName : UnqualifiedName := ⟨"f", isName_f⟩

def nestingHandle : MethodHandle :=
  ⟨.invokeStatic, .method ⟨.object .object, nestingName, ⟨[], some (.base .int)⟩, false⟩⟩

/-- A number that is computed by the method of the handle. -/
def nestingConstant (arguments : List LoadableConstant) : LoadableConstant :=
  .dynamic nestingHandle arguments nestingName (.base .int)

section Nesting

theorem methodHandle_nesting : nesting.methodHandle 7 = .ok nestingHandle :=
  eq_ok_of_toOption (by decide +kernel)

theorem dynamicAt_nesting : nesting.DynamicAt 11 ⟨7, [10]⟩ nestingName (.base .int)
    ∧ nesting.DynamicAt 12 ⟨7, [11, 10]⟩ nestingName (.base .int) := by
  have hinner : nesting.constants.constant 11 = .ok (.dynamic 0 9) :=
    eq_ok_of_toOption (by decide +kernel)
  have houter : nesting.constants.constant 12 = .ok (.dynamic 1 9) :=
    eq_ok_of_toOption (by decide +kernel)
  have hmember : nesting.constants.nameAndType 9 = .ok ("f", "I") :=
    eq_ok_of_toOption (by decide +kernel)
  have hname : parseUnqualifiedName "f" = .ok nestingName := eq_ok_of_toOption (by decide)
  have hdescriptor : parseFieldType "I" = .ok (.base .int) := eq_ok_of_toOption (by decide)
  exact ⟨.intro hinner rfl hmember hname hdescriptor, .intro houter rfl hmember hname hdescriptor⟩

theorem staticAt_nesting : nesting.StaticAt 10 (.integer 7) :=
  .integer (eq_ok_of_toOption (by decide +kernel))

theorem below_nesting {n : Nat} {j : ConstantIndex} (h : nesting.Below n 12 j) :
    n ≤ 2 ∧ nesting.WellFormedAt j := by
  obtain ⟨hinner, houter⟩ := dynamicAt_nesting
  have hhandle := methodHandle_nesting
  have hnumber {n : Nat} {j : ConstantIndex} (h : nesting.Below n 10 j) : n = 0 ∧ j = 10 := by
    cases h with
    | refl => exact ⟨rfl, rfl⟩
    | head h => exact absurd h staticAt_nesting.not_refers
  rcases h with _ | @⟨n, _, j, _, h, hbelow⟩
  · exact ⟨Nat.zero_le _, .inr ⟨_, _, _, _, houter, hhandle⟩⟩
  rcases List.mem_pair.1 (houter.mem_arguments h) with rfl | rfl
  · rcases hbelow with _ | @⟨n, _, j, _, h, hbelow⟩
    · exact ⟨Nat.le_add_left _ _, .inr ⟨_, _, _, _, hinner, hhandle⟩⟩
    obtain rfl := List.mem_singleton.1 (hinner.mem_arguments h)
    obtain ⟨rfl, rfl⟩ := hnumber hbelow
    exact ⟨Nat.le_refl _, .inl ⟨_, staticAt_nesting⟩⟩
  · obtain ⟨rfl, rfl⟩ := hnumber hbelow
    exact ⟨Nat.le_add_left _ _, .inl ⟨_, staticAt_nesting⟩⟩

theorem unfolds_nesting : nesting.Unfolds 12 (nestingConstant
    [nestingConstant [.static (.integer 7)], .static (.integer 7)]) := by
  obtain ⟨hinner, houter⟩ := dynamicAt_nesting
  have hhandle := methodHandle_nesting
  have hnumber : nesting.Unfolds 10 (.static (.integer 7)) := .intro (.static staticAt_nesting)
  have hargument : nesting.Unfolds 11 (nestingConstant [.static (.integer 7)]) :=
    .intro (.dynamic hinner hhandle (.cons hnumber .nil))
  exact .intro (.dynamic houter hhandle (.cons hargument (.cons hnumber .nil)))

end Nesting

/-- What refers to itself is not resolved, and what does not is resolved to a tree. -/
theorem resolve_selfReferring : (∃ e, selfReferring.resolve (.constant 4) = .error e)
    ∧ (∃ e, selfReferring.resolve (.callSite 5) = .error e)
    ∧ (∃ e, selfReferring.resolve .table = .error e)
    ∧ nesting.resolve (.constant 12) = .ok (.constant (nestingConstant
      [nestingConstant [.static (.integer 7)], .static (.integer 7)])) := by
  have hdynamic : selfReferring.constants.constant 4 = .ok (.dynamic 0 3) :=
    eq_ok_of_toOption (by decide +kernel)
  have hsite : selfReferring.constants.constant 5 = .ok (.invokeDynamic 0 3) :=
    eq_ok_of_toOption (by decide +kernel)
  have hcycle : Relation.TransGen selfReferring.Refers 4 4 :=
    .single (.intro hdynamic rfl List.mem_cons_self)
  refine ⟨?_, ?_, ?_, ?_⟩
  · exact (resolve_unfolds _ _).2.1 (.cycle (.constant (.refl 4)) hcycle)
  · have hreaches : selfReferring.Reaches (.callSite 5) 1 4 :=
      .argument (.callSite hsite rfl) List.mem_cons_self (.refl 4)
    exact (resolve_unfolds _ _).2.1 (.cycle hreaches hcycle)
  · have hreaches : selfReferring.Reaches .table 1 4 :=
      .argument (.table (n := 0) Nat.zero_lt_one rfl) List.mem_cons_self (.refl 4)
    exact (resolve_unfolds _ _).2.1 (.cycle hreaches hcycle)
  · have hreaches : ∀ n j, nesting.Reaches (.constant 12) n j →
        n ≤ maxDynamicNesting ∧ nesting.WellFormedAt j := by
      intro n j hj
      cases hj with
      | constant h => exact ⟨Nat.le_trans (below_nesting h).1 (by decide), (below_nesting h).2⟩
      | argument he => cases he
    obtain ⟨t, ht, -, hunique⟩ := (resolve_unfolds nesting (.constant 12)).2.2 ⟨trivial, hreaches⟩
    rw [ht, hunique _ (.constant unfolds_nesting)]

end Resolver

end ClassPatch
