import ClassPatch.Lift.Class
import ClassPatch.Lower.Class
import ClassPatch.Proofs.Lower.Known

/-!
Lowering that leaves a pool as it is. What was read from the constants that a pool knows is lowered
without a new constant: each part is found where it was read from.
-/

namespace ClassPatch

namespace PoolM

variable {α β : Type} {p : Pool} {P : Prop}

/-- The computation leaves the pool as it is. It fails only where this was to be expected. -/
def Quiet (p : Pool) (P : Prop) (x : PoolM α) : Prop :=
  (x.run p).2 = p ∧ ∀ e, (x.run p).1 = .error e → P

namespace Quiet

theorem of_repeats {x : PoolM α} {a : α} (h : Repeats p x a) : Quiet p P x := by
  unfold Quiet
  rw [h p (.refl p)]
  exact ⟨rfl, fun _ he => nomatch he⟩

theorem pure (a : α) : Quiet p P (Pure.pure a) := ⟨rfl, fun _ he => nomatch he⟩

theorem get : Quiet p P (MonadState.get : PoolM Pool) := ⟨rfl, fun _ he => nomatch he⟩

theorem lift {x : Except ClassError α} (h : ∀ e, x = .error e → P) :
    Quiet p P (MonadLiftT.monadLift x) := ⟨rfl, h⟩

theorem bind {x : PoolM α} {f : α → PoolM β} (hx : Quiet p P x)
    (hf : ∀ a, x.run p = (.ok a, p) → Quiet p P (f a)) : Quiet p P (x >>= f) := by
  obtain ⟨hsame, herror⟩ := hx
  cases hrun : x.run p with
  | mk result q =>
    rw [hrun] at hsame herror
    obtain rfl : q = p := hsame
    cases result with
    | error e =>
      refine ⟨?_, fun _ _ => herror e rfl⟩
      rw [run_bind_error hrun]
    | ok a =>
      unfold Quiet
      rw [run_bind_ok hrun]
      exact hf a hrun

theorem map {x : PoolM α} {f : α → β} (hx : Quiet p P x) : Quiet p P (do return f (← x)) :=
  hx.bind fun _ _ => pure _

theorem mapM {f : α → PoolM β} {as : List α} (h : ∀ a ∈ as, Quiet p P (f a)) :
    Quiet p P (as.mapM f) := by
  induction as with
  | nil => exact pure []
  | cons a as ih =>
    rw [List.forall_mem_cons] at h
    rw [List.mapM_cons]
    exact h.1.bind fun b _ => (ih h.2).map

theorem ifSome_none (store : α → PoolM Stored.Attribute) : Quiet p P (ifSome store none) := pure []

theorem ifSome_some {store : α → PoolM Stored.Attribute} {a : α} (h : Quiet p P (store a)) :
    Quiet p P (ifSome store (some a)) := by
  refine map ?_
  rw [Option.mapM_some, map_eq_pure_bind]
  exact h.map

theorem unlessEmpty_nil (store : List α → PoolM Stored.Attribute) :
    Quiet p P (unlessEmpty store []) := pure []

theorem unlessEmpty {store : List α → PoolM Stored.Attribute} {as : List α}
    (h : ∀ a ∈ as, Quiet p P (store as)) : Quiet p P (unlessEmpty store as) := by
  cases as with
  | nil => exact unlessEmpty_nil store
  | cons a as => exact (h a List.mem_cons_self).map

theorem result {x : PoolM α} (h : Quiet p P x) (hP : ¬ P) : ∃ a, x.run p = (.ok a, p) := by
  obtain ⟨hsame, herror⟩ := h
  cases hrun : x.run p with
  | mk result q =>
    rw [hrun] at hsame herror
    obtain rfl : q = p := hsame
    cases result with
    | error e => exact absurd (herror e rfl) hP
    | ok a => exact ⟨a, rfl⟩

end Quiet

theorem Repeats.optionMapM {read : β → Except ClassError α} {f : α → PoolM β} {x : Option β}
    {a : Option α} (hx : x.mapM read = .ok a) (h : ∀ {b a}, read b = .ok a → Repeats p (f a) b) :
    Repeats p (a.mapM f) x := by
  cases optionMapM_eq_ok.1 hx with
  | none => exact .pure p none
  | some hread =>
    rw [Option.mapM_some, map_eq_pure_bind]
    exact (h hread).bind (.pure p _)

end PoolM

namespace Pool.Knows

open PoolM (Repeats Quiet)

variable {p : Pool} {r : Resolver} {count : Nat} {i : ConstantIndex} {info : Bytes}

theorem leafValue (h : p.Knows r count) {x : Stored.LeafValue} {v : LeafValue}
    (hx : r.leafValue x = .ok v) : Repeats p (PoolM.leafValue v) x := by
  cases x with
  | const type value =>
    cases type with
    | byte | char | short | boolean | int =>
      obtain ⟨n, hn, hx⟩ := bind_eq_ok.1 hx
      obtain rfl := pure_eq_ok.1 hx
      exact (h.constant (ConstantTable.constant_of_integer hn)).bind (.pure p _)
    | long =>
      obtain ⟨n, hn, hx⟩ := bind_eq_ok.1 hx
      obtain rfl := pure_eq_ok.1 hx
      exact (h.constant (ConstantTable.constant_of_long hn)).bind (.pure p _)
    | float =>
      obtain ⟨n, hn, hx⟩ := bind_eq_ok.1 hx
      obtain rfl := pure_eq_ok.1 hx
      exact (h.constant (ConstantTable.constant_of_float hn)).bind (.pure p _)
    | double =>
      obtain ⟨n, hn, hx⟩ := bind_eq_ok.1 hx
      obtain rfl := pure_eq_ok.1 hx
      exact (h.constant (ConstantTable.constant_of_double hn)).bind (.pure p _)
    | string =>
      obtain ⟨text, htext, hx⟩ := bind_eq_ok.1 hx
      obtain rfl := pure_eq_ok.1 hx
      exact (h.utf8 htext).bind (.pure p _)
  | enum type name =>
    obtain ⟨t, ht, hx⟩ := bind_eq_ok.1 hx
    obtain ⟨n, hn, hx⟩ := bind_eq_ok.1 hx
    obtain rfl := pure_eq_ok.1 hx
    exact (h.utf8 ht).bind ((h.utf8 hn).bind (.pure p _))
  | classInfo descriptor =>
    obtain ⟨d, hd, hx⟩ := bind_eq_ok.1 hx
    obtain rfl := pure_eq_ok.1 hx
    exact (h.utf8 hd).bind (.pure p _)

mutual

theorem elementValue (h : p.Knows r count) : (x : Stored.ElementValue) → {v : ElementValue} →
    r.elementValue x = .ok v → Repeats p (PoolM.elementValue v) x
  | .leaf x, v, hx => by
    unfold Resolver.elementValue at hx
    obtain ⟨leaf, hleaf, hx⟩ := bind_eq_ok.1 hx
    obtain rfl := pure_eq_ok.1 hx
    unfold PoolM.elementValue
    exact (h.leafValue hleaf).bind (.pure p _)
  | .nested type xs, v, hx => by
    unfold Resolver.elementValue at hx
    obtain ⟨elements, helements, hx⟩ := bind_eq_ok.1 hx
    obtain ⟨t, ht, hx⟩ := bind_eq_ok.1 hx
    obtain rfl := pure_eq_ok.1 hx
    unfold PoolM.elementValue
    exact (h.utf8 ht).bind ((namedElements h xs helements).bind (.pure p _))
  | .array xs, v, hx => by
    unfold Resolver.elementValue at hx
    obtain ⟨values, hvalues, hx⟩ := bind_eq_ok.1 hx
    obtain rfl := pure_eq_ok.1 hx
    unfold PoolM.elementValue
    exact (elementValues h xs hvalues).bind (.pure p _)

theorem elementValues (h : p.Knows r count) : (xs : List Stored.ElementValue) →
    {vs : List ElementValue} → r.elementValues xs = .ok vs → Repeats p (PoolM.elementValues vs) xs
  | [], vs, hxs => by
    obtain rfl := pure_eq_ok.1 hxs
    exact .pure p []
  | x :: xs, vs, hxs => by
    unfold Resolver.elementValues at hxs
    obtain ⟨v, hv, hxs⟩ := bind_eq_ok.1 hxs
    obtain ⟨vs', hvs, hxs⟩ := bind_eq_ok.1 hxs
    obtain rfl := pure_eq_ok.1 hxs
    unfold PoolM.elementValues
    exact (elementValue h x hv).bind ((elementValues h xs hvs).bind (.pure p _))

theorem namedElements (h : p.Knows r count) :
    (xs : List (ConstantIndex × Stored.ElementValue)) → {es : List (String × ElementValue)} →
      r.namedElements xs = .ok es → Repeats p (PoolM.namedElements es) xs
  | [], es, hxs => by
    obtain rfl := pure_eq_ok.1 hxs
    exact .pure p []
  | (name, x) :: xs, es, hxs => by
    unfold Resolver.namedElements at hxs
    obtain ⟨n, hn, hxs⟩ := bind_eq_ok.1 hxs
    obtain ⟨v, hv, hxs⟩ := bind_eq_ok.1 hxs
    obtain ⟨es', hes, hxs⟩ := bind_eq_ok.1 hxs
    obtain rfl := pure_eq_ok.1 hxs
    unfold PoolM.namedElements
    exact (h.utf8 hn).bind ((elementValue h x hv).bind ((namedElements h xs hes).bind (.pure p _)))

end

theorem annotations (h : p.Knows r count) {xs : List Stored.Annotation} {as : List Annotation}
    (hxs : r.annotations xs = .ok as) : Repeats p (PoolM.annotations as) xs := by
  refine .mapM ((mapM_eq_ok.1 hxs).flip.imp fun a x hx => ?_)
  obtain ⟨elements, helements, hx⟩ := bind_eq_ok.1 hx
  obtain ⟨type, htype, hx⟩ := bind_eq_ok.1 hx
  obtain rfl := pure_eq_ok.1 hx
  exact (h.utf8 htype).bind ((namedElements h _ helements).bind (.pure p _))

section Attribute

variable (h : p.Knows r count) {α : Type} {name : String} {P : Prop}

include h

theorem store {format : AttributeFormat α} {a : α} (hname : r.utf8 i = .ok format.name)
    (hwrite : format.write a = .ok info) : Repeats p (format.store a) ⟨i, info⟩ :=
  (h.utf8 hname).bind ((Repeats.lift hwrite).bind (.pure p _))

theorem storeTotal {read : Reader α} {write : α → Bytes} {a : α} (hname : r.utf8 i = .ok name) :
    Repeats p ((AttributeFormat.total name read write).store a) ⟨i, write a⟩ :=
  h.store hname rfl

theorem verbatim {v : VerbatimAttribute} (hname : r.utf8 i = .ok v.name) :
    Repeats p (PoolM.verbatim v) ⟨i, v.info⟩ :=
  (h.utf8 hname).bind (.pure p _)

theorem textAttribute {text : String} (hname : r.utf8 i = .ok name)
    (htext : r.textAttribute (.index name) info = .ok text) :
    Quiet p P (PoolM.textAttribute (.index name) text) := by
  obtain ⟨j, -, hj⟩ := bind_eq_ok.1 htext
  exact .of_repeats ((h.utf8 hj).bind (h.storeTotal hname))

theorem classAttribute {cls : BinaryName} {j : ConstantIndex} (hname : r.utf8 i = .ok name)
    (hcls : r.className j = .ok cls) : Quiet p P (PoolM.classAttribute (.index name) cls) :=
  .of_repeats ((h.className hcls).bind (h.storeTotal hname))

theorem classesAttribute {names : List BinaryName} (hname : r.utf8 i = .ok name)
    (hnames : r.classNames (.indices name) info = .ok names) :
    Quiet p P (PoolM.classesAttribute (.indices name) names) := by
  obtain ⟨is, -, his⟩ := bind_eq_ok.1 hnames
  have hclasses : Repeats p (names.mapM PoolM.className) is :=
    .mapM ((mapM_eq_ok.1 his).flip.imp fun _ _ hcls => h.className hcls)
  exact .of_repeats (hclasses.bind (h.storeTotal hname))

theorem annotationAttribute {as : List Annotation} (hname : r.utf8 i = .ok name)
    (has : r.annotationAttribute (.annotations name) info = .ok as) :
    Quiet p P (do AttributeFormat.store (.annotations name) (← PoolM.annotations as)) := by
  obtain ⟨xs, -, hxs⟩ := bind_eq_ok.1 has
  exact .of_repeats ((h.annotations hxs).bind (h.storeTotal hname))

theorem parameterAnnotationAttribute {ass : List (List Annotation)} (hname : r.utf8 i = .ok name)
    (hass : r.parameterAnnotationAttribute (.parameterAnnotations name) info = .ok ass) :
    Quiet p P (do
      AttributeFormat.store (.parameterAnnotations name) (← ass.mapM PoolM.annotations)) := by
  obtain ⟨xss, -, hxss⟩ := bind_eq_ok.1 hass
  have hlists : Repeats p (ass.mapM PoolM.annotations) xss :=
    .mapM ((mapM_eq_ok.1 hxss).flip.imp fun _ _ hxs => h.annotations hxs)
  exact .of_repeats (hlists.bind (h.storeTotal hname))

end Attribute

end Pool.Knows

end ClassPatch
