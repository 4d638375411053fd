import ClassPatch.Proofs.Lower.Annotation
import ClassPatch.Proofs.Lower.Compositional
import ClassPatch.Proofs.Pool.Appending

/-!
Annotations that are stored in a pool resolve to what they were stored from, in that pool and in
every later one. They refer to constants alone, so nothing is asked of the table of bootstrap
methods, whose entries may be filled in any way.
-/

namespace ClassPatch

/-- What the table holds, the other one holds at the same index. -/
def ConstantTable.Within (t u : ConstantTable) : Prop :=
  ∀ i c, t.constant i = .ok c → u.constant i = .ok c

theorem ConstantTable.Within.bind {α : Type} {t u : ConstantTable} (h : t.Within u)
    {i : ConstantIndex} {f : Constant → Except ClassError α} {a : α}
    (ha : t.constant i >>= f = .ok a) : u.constant i >>= f = .ok a := by
  obtain ⟨c, hc, ha⟩ := bind_eq_ok.1 ha
  rwa [h i c hc]

namespace Resolver

variable {r s : Resolver}

theorem leafValue_within (h : r.constants.Within s.constants) {x : Stored.LeafValue} {v : LeafValue}
    (hv : r.leafValue x = .ok v) : s.leafValue x = .ok v := by
  cases x with
  | const tag value =>
    -- each kind reads one constant, and looks at nothing but that constant
    cases tag <;>
    · obtain ⟨y, hy, hv⟩ := bind_eq_ok.1 hv
      have hy' := h.bind hy
      exact (bind_of_eq_ok hy' _).trans hv
  | enum type name =>
    obtain ⟨t, ht, hv⟩ := bind_eq_ok.1 hv
    obtain ⟨n, hn, hv⟩ := bind_eq_ok.1 hv
    have ht' := h.bind ht
    have hn' := h.bind hn
    exact (bind_of_eq_ok ht' _).trans ((bind_of_eq_ok hn' _).trans hv)
  | classInfo descriptor =>
    obtain ⟨d, hd, hv⟩ := bind_eq_ok.1 hv
    have hd' := h.bind hd
    exact (bind_of_eq_ok hd' _).trans hv

theorem utf8_within (h : r.constants.Within s.constants) {i : ConstantIndex} {text : String}
    (hi : r.utf8 i = .ok text) : s.utf8 i = .ok text := h.bind hi

mutual

theorem elementValue_within (h : r.constants.Within s.constants) :
    (x : Stored.ElementValue) → {v : ElementValue} → r.elementValue x = .ok v →
      s.elementValue x = .ok v
  | .leaf x, v, hv => by
    unfold elementValue at hv ⊢
    obtain ⟨y, hy, hv⟩ := bind_eq_ok.1 hv
    simp only [leafValue_within h hy, ok_bind]
    exact hv
  | .nested type elements, v, hv => by
    unfold elementValue at hv ⊢
    obtain ⟨es, hes, hv⟩ := bind_eq_ok.1 hv
    obtain ⟨t, ht, hv⟩ := bind_eq_ok.1 hv
    simp only [namedElements_within h elements hes, utf8_within h ht, ok_bind]
    exact hv
  | .array values, v, hv => by
    unfold elementValue at hv ⊢
    obtain ⟨vs, hvs, hv⟩ := bind_eq_ok.1 hv
    simp only [elementValues_within h values hvs, ok_bind]
    exact hv

theorem elementValues_within (h : r.constants.Within s.constants) :
    (xs : List Stored.ElementValue) → {vs : List ElementValue} → r.elementValues xs = .ok vs →
      s.elementValues xs = .ok vs
  | [], vs, hvs => by
    unfold elementValues at hvs ⊢
    exact hvs
  | x :: xs, vs, hvs => by
    unfold elementValues at hvs ⊢
    obtain ⟨v, hv, hvs⟩ := bind_eq_ok.1 hvs
    obtain ⟨vs', hvs', hvs⟩ := bind_eq_ok.1 hvs
    simp only [elementValue_within h x hv, elementValues_within h xs hvs', ok_bind]
    exact hvs

theorem namedElements_within (h : r.constants.Within s.constants) :
    (xs : List (ConstantIndex × Stored.ElementValue)) → {es : List (String × ElementValue)} →
      r.namedElements xs = .ok es → s.namedElements xs = .ok es
  | [], es, hes => by
    unfold namedElements at hes ⊢
    exact hes
  | (name, x) :: xs, es, hes => by
    unfold namedElements at hes ⊢
    obtain ⟨n, hn, hes⟩ := bind_eq_ok.1 hes
    obtain ⟨v, hv, hes⟩ := bind_eq_ok.1 hes
    obtain ⟨es', hes', hes⟩ := bind_eq_ok.1 hes
    simp only [utf8_within h hn, elementValue_within h x hv, namedElements_within h xs hes', ok_bind]
    exact hes

end

theorem annotations_within (h : r.constants.Within s.constants) {xs : List Stored.Annotation}
    {as : List Annotation} (has : r.annotations xs = .ok as) : s.annotations xs = .ok as := by
  apply mapM_eq_ok.2
  refine (mapM_eq_ok.1 has).imp fun x a ha => ?_
  obtain ⟨es, hes, ha⟩ := bind_eq_ok.1 ha
  obtain ⟨t, ht, ha⟩ := bind_eq_ok.1 ha
  simp only [namedElements_within h x.elements hes, utf8_within h ht, ok_bind]
  exact ha

end Resolver

namespace PoolM

variable {α β : Type}

/-- The computation has to do with the constants of the pool alone, to which it only adds. -/
structure AddsConstants (x : PoolM α) : Prop where
  grows : ∀ p : Pool, p.withoutBootstraps.Grows Pool.anyEntry (x.run p).2.withoutBootstraps
  run_eq : ∀ p : Pool, x.run p.withoutBootstraps = ((x.run p).1, (x.run p).2.withoutBootstraps)

namespace AddsConstants

theorem pure (a : α) : AddsConstants (Pure.pure a) := ⟨fun _ => .refl, fun _ => rfl⟩

theorem bind {x : PoolM α} {f : α → PoolM β} (hx : AddsConstants x) (hf : ∀ a, AddsConstants (f a)) :
    AddsConstants (x >>= f) := by
  refine ⟨fun p => ?_, fun p => ?_⟩
  · have hgrows := hx.grows p
    cases hrun : x.run p with
    | mk result q =>
      rw [hrun] at hgrows
      cases result with
      | ok a =>
        rw [run_bind_ok hrun]
        exact hgrows.trans ((hf a).grows q)
      | error e =>
        rw [run_bind_error hrun]
        exact hgrows
  · have hrun' := hx.run_eq p
    cases hrun : x.run p with
    | mk result q =>
      rw [hrun] at hrun'
      cases result with
      | ok a => rw [run_bind_ok hrun, run_bind_ok hrun', (hf a).run_eq q]
      | error e => rw [run_bind_error hrun, run_bind_error hrun']

theorem constant (c : Constant) : AddsConstants (constant c) := by
  refine ⟨fun p => (p.grows_insert_any c).withoutBootstraps, fun p => ?_⟩
  change p.withoutBootstraps.insert c = ((p.insert c).1, (p.insert c).2.withoutBootstraps)
  unfold Pool.insert Pool.withoutBootstraps
  dsimp only
  split
  · rfl
  · split <;> rfl

theorem compositional : Compositional AddsConstants := ⟨pure, bind, constant⟩

theorem annotations (as : List Annotation) : AddsConstants (annotations as) :=
  compositional.annotations as

end AddsConstants

end PoolM

namespace Pool

variable {p q : Pool}

theorem Grows.within {allowed : Pool → BootstrapEntry → Prop} (h : p.Grows allowed q)
    (hp : p.Valid) : p.constants.Within q.constants := by
  intro i c hi
  rw [ConstantTable.constant_eq_ok] at hi ⊢
  rwa [(Extends.of_grows h).get?_eq hp (h.valid hp)]

/-- What is done with a pool in which annotations are stored. -/
inductive Use where
  | operation (operation : Operation)
  | store (annotations : List Annotation)

/-- The pool after it was used, also where annotations could not be stored. -/
def use (p : Pool) : Use → Pool
  | .operation operation => (p.perform operation).2
  | .store annotations => ((PoolM.annotations annotations).run p).2

/-- The pool after it was used in several ways in turn. -/
def afterUses (p : Pool) (uses : List Use) : Pool := uses.foldl use p

theorem grows_use (p : Pool) (u : Use) :
    p.withoutBootstraps.Grows anyEntry (p.use u).withoutBootstraps := by
  cases u with
  | operation operation => exact p.grows_perform operation
  | store annotations => exact (PoolM.AddsConstants.annotations annotations).grows p

theorem grows_afterUses (p : Pool) (uses : List Use) :
    p.withoutBootstraps.Grows anyEntry (p.afterUses uses).withoutBootstraps := by
  induction uses generalizing p with
  | nil => exact .refl
  | cons u uses ih => exact (p.grows_use u).trans (ih _)

theorem annotations_of_run (hp : p.withoutBootstraps.Valid) {as : List Annotation}
    {xs : List Stored.Annotation} (h : (PoolM.annotations as).run p = (.ok xs, q)) :
    q.resolver.annotations xs = .ok as := by
  have hadds := PoolM.AddsConstants.annotations as
  have hgrows := hadds.grows p
  have hrun := hadds.run_eq p
  rw [h] at hgrows hrun
  have hq := hgrows.valid hp
  let s : Rereading := ⟨q.withoutBootstraps, hq.get?_zero, False, fun _ => False⟩
  obtain ⟨-, -, hresolves⟩ := PoolM.yields_annotations (s := s) as _ _ _ hrun
  have hwithin : s.resolver.constants.Within q.resolver.constants := fun _ _ hi => hi
  exact Resolver.annotations_within hwithin (hresolves (hq.retains (Nat.zero_le _)))

/--
Annotations that are stored in a pool resolve to what they were stored from in every later pool, and
whatever resolves there still does when further ones are stored, be it with success or not.
-/
theorem annotations_afterUses {cs : List Constant} (hnext : (SlotTable.ofList 1 cs).next ≤ 0xFFFF)
    (before : List Use) :
    let start := (ofTable (.ofList 1 cs)).afterUses before
    (∀ as xs q, (PoolM.annotations as).run start = (.ok xs, q) →
        ∀ others, (q.afterUses others).resolver.annotations xs = .ok as)
      ∧ ∀ xs as, start.resolver.annotations xs = .ok as →
        ∀ others, (start.use (.store others)).resolver.annotations xs = .ok as := by
  intro start
  have hordered : (SlotTable.ofList 1 cs).Ordered :=
    (SlotTable.ordered_empty 1).append fun c _ => c.width_pos
  have hstart : start.withoutBootstraps.Valid := by
    apply (grows_afterUses _ before).valid
    exact valid_ofTable hordered (SlotTable.start_append _ cs) hnext
  constructor
  · intro as xs q hrun others
    have hgrows := (PoolM.AddsConstants.annotations as).grows start
    rw [hrun] at hgrows
    have hwithin := (q.grows_afterUses others).within (hgrows.valid hstart)
    exact Resolver.annotations_within hwithin (annotations_of_run hstart hrun)
  · intro xs as has others
    have hwithin := (start.grows_use (.store others)).within hstart
    exact Resolver.annotations_within hwithin has

section Sharing

/-- The text is a descriptor, the name of a constant and a string. -/
def sharedConstants : List Constant :=
  [.utf8 "LA;", .utf8 "a", .integer 65, .long 65, .float ⟨0x7FC00001⟩]

def sharedValues : List ElementValue :=
  [.leaf (.integer .char 65), .leaf (.integer .int 65), .leaf (.long 65),
    .leaf (.float ⟨0x7FC00001⟩), .leaf (.string "LA;"), .leaf (.enum "LA;" "a"),
    .leaf (.classInfo "LA;"), .nested "LA;" [("a", .array [])]]

def sharedStored : List Stored.ElementValue :=
  [.leaf (.const .char 3), .leaf (.const .int 3), .leaf (.const .long 4),
    .leaf (.const .float 6), .leaf (.const .string 1), .leaf (.enum 1 2),
    .leaf (.classInfo 1), .nested 1 [(2, .array [])]]

theorem finds_sharedValues :
    PoolM.Finds (.ofList 1 sharedConstants) (PoolM.annotations [⟨"LA;", [("a", .array sharedValues)]⟩])
      [⟨1, [(2, .array sharedStored)]⟩] := by
  have htype : PoolM.Finds (.ofList 1 sharedConstants) (PoolM.utf8 "LA;") 1 :=
    .constant (by decide +kernel)
  have hname : PoolM.Finds (.ofList 1 sharedConstants) (PoolM.utf8 "a") 2 :=
    .constant (by decide +kernel)
  have hinteger : PoolM.Finds (.ofList 1 sharedConstants) (PoolM.constant (.integer 65)) 3 :=
    .constant (by decide +kernel)
  have hlong : PoolM.Finds (.ofList 1 sharedConstants) (PoolM.constant (.long 65)) 4 :=
    .constant (by decide +kernel)
  have hfloat : PoolM.Finds (.ofList 1 sharedConstants) (PoolM.constant (.float ⟨0x7FC00001⟩)) 6 :=
    .constant (by decide +kernel)
  simp only [sharedValues, sharedStored, PoolM.annotations, PoolM.namedElements, PoolM.elementValues,
    PoolM.elementValue, PoolM.leafValue, List.mapM_cons, List.mapM_nil, bind_assoc, pure_bind,
    IntegerType.tag]
  refine htype.bind (hname.bind ?_)
  refine hinteger.bind (hinteger.bind (hlong.bind (hfloat.bind ?_)))
  refine htype.bind (htype.bind (hname.bind (htype.bind ?_)))
  exact htype.bind (hname.bind (.pure _))

theorem annotations_sharedValues :
    let start := ofTable (.ofList 1 sharedConstants)
    let others : List Use := [.operation (.request (.fill 7 ⟨1, []⟩)),
      .store [⟨"LB;", []⟩], .operation (.add (.className ⟨"B", isName_B⟩))]
    (SlotTable.ofList 1 sharedConstants).next ≤ 0xFFFF
      ∧ (PoolM.annotations [⟨"LA;", [("a", .array sharedValues)]⟩]).run start
        = (.ok [⟨1, [(2, .array sharedStored)]⟩], start)
      ∧ (start.afterUses others).resolver.annotations [⟨1, [(2, .array sharedStored)]⟩]
        = .ok [⟨"LA;", [("a", .array sharedValues)]⟩] := by
  intro start others
  have hnext : (SlotTable.ofList 1 sharedConstants).next ≤ 0xFFFF := by decide +kernel
  have hrun := finds_sharedValues start (findsAll_ofTable _)
  exact ⟨hnext, hrun, (annotations_afterUses hnext []).1 _ _ _ hrun others⟩

end Sharing

end Pool

end ClassPatch
