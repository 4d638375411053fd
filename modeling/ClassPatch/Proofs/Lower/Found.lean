import ClassPatch.Lower.Class
import ClassPatch.Proofs.Lower.Bootstrap

/-!
Lowering what a pool holds already. Nothing is added to the pool, and the indices are those of the
constants in it.
-/

namespace ClassPatch

/-- The pool finds the constants of the table where they first stand. -/
def Pool.FindsAll (p : Pool) (t : ConstantTable) : Prop :=
  ∀ k i, t.indexOf? k = some i → p.indices[k]? = some i

theorem Pool.FindsAll.mono {p q : Pool} {t : ConstantTable} (h : p.FindsAll t)
    (hq : q.Remembers p) : q.FindsAll t :=
  fun k i hk => hq.indices k i (h k i hk)

theorem Pool.Valid.findsAll {p : Pool} (h : p.Valid) : p.FindsAll p.constants := by
  intro k i hk
  rw [h.indices_eq, hk]

theorem Pool.findsAll_ofTable (t : ConstantTable) : (Pool.ofTable t).FindsAll t := by
  intro k i hk
  rw [indices_ofTable, hk]

/-- The class has no attributes but those it carries along. -/
structure Class.IsPlain (c : Class) : Prop where
  sourceFile : c.sourceFile = none
  signature : c.signature = none
  innerClasses : c.innerClasses = []
  enclosingMethod : c.enclosingMethod = none
  nestHost : c.nestHost = none
  nestMembers : c.nestMembers = []
  permittedSubclasses : c.permittedSubclasses = []
  recordComponents : c.recordComponents = none
  annotations : c.annotations = {}

namespace PoolM

variable {α β : Type} {t : ConstantTable}

/-- The computation gives the value and adds nothing to a pool that finds the constants. -/
def Finds (t : ConstantTable) (x : PoolM α) (a : α) : Prop :=
  ∀ p : Pool, p.FindsAll t → x.run p = (.ok a, p)

/-- A pool that finds the constants goes on finding them, so what is found is found again. -/
theorem finds_iff {x : PoolM α} {a : α} :
    Finds t x a ↔ ∀ p : Pool, p.FindsAll t → Repeats p x a :=
  ⟨fun h _ hp r hr => h r (hp.mono hr), fun h p hp => h p hp p (.refl p)⟩

namespace Finds

theorem pure (a : α) : Finds t (Pure.pure a) a := fun _ _ => rfl

theorem bind {x : PoolM α} {f : α → PoolM β} {a : α} {b : β} (hx : Finds t x a)
    (hf : Finds t (f a) b) : Finds t (x >>= f) b :=
  finds_iff.2 fun p hp => (finds_iff.1 hx p hp).bind (finds_iff.1 hf p hp)

theorem constant {k : Constant} {i : ConstantIndex} (h : t.indexOf? k = some i) :
    Finds t (constant k) i :=
  fun _ hp => Pool.insert_eq_of_some (hp k i h)

theorem className {name : BinaryName} {i j : ConstantIndex}
    (htext : t.indexOf? (.utf8 name.text) = some i) (h : t.indexOf? (.classRef i) = some j) :
    Finds t (className name) j :=
  (constant htext).bind (constant h)

theorem nameAndType {name descriptor : String} {i j k : ConstantIndex}
    (hname : t.indexOf? (.utf8 name) = some i)
    (hdescriptor : t.indexOf? (.utf8 descriptor) = some j)
    (h : t.indexOf? (.nameAndType i j) = some k) : Finds t (nameAndType name descriptor) k :=
  (constant hname).bind ((constant hdescriptor).bind (constant h))

theorem lift {x : Except ClassError α} {a : α} (h : x = .ok a) : Finds t (liftM x) a :=
  fun _ _ => run_lift_eq_ok.2 ⟨h, rfl⟩

theorem store {format : AttributeFormat α} {a : α} {i : ConstantIndex} {info : Bytes}
    (hname : t.indexOf? (.utf8 format.name) = some i) (hwrite : format.write a = .ok info) :
    Finds t (format.store a) ⟨i, info⟩ :=
  (constant hname).bind ((lift hwrite).bind (.pure _))

theorem verbatim {v : VerbatimAttribute} {i : ConstantIndex}
    (h : t.indexOf? (.utf8 v.name) = some i) : Finds t (verbatim v) ⟨i, v.info⟩ :=
  (constant h).bind (pure _)

theorem mapM {f : α → PoolM β} {as : List α} {bs : List β}
    (h : List.Forall₂ (fun a b => Finds t (f a) b) as bs) : Finds t (as.mapM f) bs :=
  finds_iff.2 fun p hp => .mapM (h.imp fun _ _ hab => finds_iff.1 hab p hp)

theorem ifSome_none (store : α → PoolM Stored.Attribute) : Finds t (ifSome store none) [] :=
  pure []

theorem ifSome_some {store : α → PoolM Stored.Attribute} {a : α} {x : Stored.Attribute}
    (h : Finds t (store a) x) : Finds t (ifSome store (some a)) [x] := by
  have hstore : Finds t ((some a).mapM store) (some x) := by
    rw [Option.mapM_some, map_eq_pure_bind]
    exact h.bind (pure _)
  exact hstore.bind (pure _)

theorem unlessEmpty_nil (store : List α → PoolM Stored.Attribute) :
    Finds t (unlessEmpty store []) [] :=
  pure []

theorem unlessEmpty_cons {store : List α → PoolM Stored.Attribute} {a : α} {as : List α}
    {x : Stored.Attribute} (h : Finds t (store (a :: as)) x) :
    Finds t (unlessEmpty store (a :: as)) [x] :=
  h.bind (pure _)

theorem annotationAttributes_empty : Finds t (annotationAttributes {}) [] := by
  unfold annotationAttributes
  exact (unlessEmpty_nil _).bind ((unlessEmpty_nil _).bind (pure []))

theorem classAttributes {c : Class} {xs : List Stored.Attribute} (hc : c.IsPlain)
    (hattributes : List.Forall₂ (fun v x => Finds t (PoolM.verbatim v) x) c.attributes xs) :
    Finds t (classAttributes c) xs := by
  obtain ⟨h₁, h₂, h₃, h₄, h₅, h₆, h₇, h₈, h₉⟩ := hc
  unfold PoolM.classAttributes
  rw [h₁, h₂, h₃, h₄, h₅, h₆, h₇, h₈, h₉]
  refine (ifSome_none _).bind ((ifSome_none _).bind ((unlessEmpty_nil _).bind ?_))
  refine (ifSome_none _).bind ((ifSome_none _).bind ((unlessEmpty_nil _).bind ?_))
  refine (unlessEmpty_nil _).bind ((ifSome_none _).bind ?_)
  exact annotationAttributes_empty.bind ((mapM hattributes).bind (pure xs))

end Finds

/-- The pool with one bootstrap method put back. -/
def restoredPool (p : Pool) (e : BootstrapEntry) : Pool :=
  (p.reserveBootstraps 1).2.fillBootstrap 0 e

theorem run_restoreBootstraps_singleton {p : Pool} {b : BootstrapMethod} {e : BootstrapEntry}
    (hp : p.FindsAll t) (hempty : p.bootstrapMethods = #[]) (h : Finds t (bootstrapParts b) e) :
    (restoreBootstraps [b]).run p = (.ok (), restoredPool p e) := by
  have hparts := h (p.reserveBootstraps 1).2 hp
  rw [run_restoreBootstraps_eq hempty]
  exact (run_bind_ok hparts _).trans rfl

theorem run_bootstrapTable_of_finds {p : Pool} {i : ConstantIndex} (hp : p.FindsAll t)
    (hne : p.bootstrapMethods.toList ≠ [])
    (hname : t.indexOf? (.utf8 "BootstrapMethods") = some i) :
    bootstrapTable.run p = (.ok [⟨i, Writer.list16 BootstrapEntry.write
      p.bootstrapMethods.toList⟩], p) := by
  have hget : (get : PoolM Pool).run p = (.ok p, p) := rfl
  have hempty : p.bootstrapMethods.toList.isEmpty = false := List.isEmpty_eq_false_iff.2 hne
  have hutf8 : (utf8 AttributeFormat.bootstrapMethods.name).run p = (.ok i, p) :=
    Finds.constant hname p hp
  unfold bootstrapTable unlessEmpty AttributeFormat.store
  refine (run_bind_ok hget _).trans ?_
  rw [hempty]
  simp only [bind_assoc, pure_bind, Bool.false_eq_true, ↓reduceIte]
  exact (run_bind_ok hutf8 _).trans rfl

theorem run_classFile_of_finds {c : Class} {p₀ p : Pool} {thisClass superClass : ConstantIndex}
    {parent : BinaryName} {methods : List (Stored.Member .method)}
    {attributes table : List Stored.Attribute} (hc : c.IsPlain) (hfields : c.fields = [])
    (hmethods : List.Forall₂ (fun m y => Finds t (method c.name m) y) c.methods methods)
    (hinterfaces : c.interfaces = [])
    (hrestore : (restoreBootstraps c.bootstrapMethods).run p₀ = (.ok (), p)) (hp : p.FindsAll t)
    (hname : Finds t (className c.name) thisClass) (hparent : c.superName = some parent)
    (hsuper : Finds t (className parent) superClass)
    (hattributes : List.Forall₂ (fun v x => Finds t (PoolM.verbatim v) x) c.attributes attributes)
    (htable : bootstrapTable.run p = (.ok table, p)) :
    (classFile c).run p₀ = (.ok {
      version := c.version
      constants := p.constants
      accessFlags := c.accessFlags
      thisClass
      superClass := some superClass
      interfaces := []
      fields := []
      methods
      attributes := attributes ++ table }, p) := by
  have hsuper' : Finds t (c.superName.mapM className) (some superClass) := by
    rw [hparent, Option.mapM_some, map_eq_pure_bind]
    exact hsuper.bind (.pure _)
  have hmembers : Finds t (c.interfaces.mapM className) [] ∧ Finds t (c.fields.mapM field) [] := by
    rw [hinterfaces, hfields]
    exact ⟨.mapM .nil, .mapM .nil⟩
  unfold classFile
  refine (run_bind_ok hrestore _).trans ?_
  refine (run_bind_ok (hname p hp) _).trans ?_
  refine (run_bind_ok (hsuper' p hp) _).trans ?_
  refine (run_bind_ok (hmembers.1 p hp) _).trans ?_
  refine (run_bind_ok (hmembers.2 p hp) _).trans ?_
  refine (run_bind_ok (Finds.mapM hmethods p hp) _).trans ?_
  refine (run_bind_ok (Finds.classAttributes hc hattributes p hp) _).trans ?_
  exact (run_bind_ok htable _).trans rfl

end PoolM

end ClassPatch
