import ClassPatch.Lift.Annotation
import ClassPatch.Lower.Annotation
import ClassPatch.Proofs.Annotation.Format
import ClassPatch.Proofs.Lower.Constant

/-!
Annotations whose constants were added to a pool resolve to what they were made from. Resolving an
annotation does not change the number of its elements, at any level.
-/

namespace ClassPatch

namespace PoolM

variable {s : Rereading}

theorem yields_leafValue (v : LeafValue) :
    Yields s (leafValue v) fun x => s.resolver.leafValue x = .ok v := by
  cases v with
  | integer type value =>
    unfold leafValue
    refine (yields_constant _).map ?_
    intro i hi
    cases type <;>
    · simp only [IntegerType.tag, Resolver.leafValue, ConstantTable.integer, hi, ok_bind]
      rfl
  | long value =>
    unfold leafValue
    refine (yields_constant _).map ?_
    intro i hi
    simp only [Resolver.leafValue, ConstantTable.long, hi, ok_bind]
    rfl
  | float value =>
    unfold leafValue
    refine (yields_constant _).map ?_
    intro i hi
    simp only [Resolver.leafValue, ConstantTable.float, hi, ok_bind]
    rfl
  | double value =>
    unfold leafValue
    refine (yields_constant _).map ?_
    intro i hi
    simp only [Resolver.leafValue, ConstantTable.double, hi, ok_bind]
    rfl
  | string text =>
    unfold leafValue
    refine (yields_utf8 _).map ?_
    intro i hi
    simp only [Resolver.leafValue, hi, ok_bind]
    rfl
  | enum type name =>
    unfold leafValue
    refine (yields_utf8 _).bind fun t => (yields_utf8 _).map ?_
    intro n hn ht
    simp only [Resolver.leafValue, ht, hn, ok_bind]
    rfl
  | classInfo descriptor =>
    unfold leafValue
    refine (yields_utf8 _).map ?_
    intro i hi
    simp only [Resolver.leafValue, hi, ok_bind]
    rfl

mutual

theorem yields_elementValue : (v : ElementValue) →
    Yields s (elementValue v) fun x => s.resolver.elementValue x = .ok v
  | .leaf v => by
    unfold elementValue
    refine (yields_leafValue v).map ?_
    intro x hx
    simp only [Resolver.elementValue, hx, ok_bind]
    rfl
  | .nested type elements => by
    unfold elementValue
    refine (yields_utf8 _).bind fun t => (yields_namedElements elements).map ?_
    intro xs hxs ht
    simp only [Resolver.elementValue, ht, hxs, ok_bind]
    rfl
  | .array values => by
    unfold elementValue
    refine (yields_elementValues values).map ?_
    intro xs hxs
    simp only [Resolver.elementValue, hxs, ok_bind]
    rfl

theorem yields_elementValues : (vs : List ElementValue) →
    Yields s (elementValues vs) fun xs => s.resolver.elementValues xs = .ok vs
  | [] => .pure rfl
  | v :: vs => by
    unfold elementValues
    refine (yields_elementValue v).bind fun x => (yields_elementValues vs).map ?_
    intro xs hxs hx
    simp only [Resolver.elementValues, hx, hxs, ok_bind]
    rfl

theorem yields_namedElements : (es : List (String × ElementValue)) →
    Yields s (namedElements es) fun xs => s.resolver.namedElements xs = .ok es
  | [] => .pure rfl
  | (name, v) :: es => by
    unfold namedElements
    refine (yields_utf8 _).bind fun n => ?_
    refine (yields_elementValue v).bind fun x => (yields_namedElements es).map ?_
    intro xs hxs hx hn
    simp only [Resolver.namedElements, hn, hx, hxs, ok_bind]
    rfl

end

theorem yields_annotations (as : List Annotation) :
    Yields s (annotations as) fun xs => s.resolver.annotations xs = .ok as := by
  unfold annotations
  refine (Yields.mapM (Q := fun a x => (do
    let elements ← s.resolver.namedElements x.elements
    return { type := ← s.resolver.utf8 x.type, elements } : Except ClassError Annotation) = .ok a)
      ?_).mono ?_
  · intro a _
    refine (yields_utf8 _).bind fun t => (yields_namedElements a.elements).map ?_
    intro xs hxs ht
    simp only [ht, hxs, ok_bind]
    rfl
  · intro xs hxs
    exact mapM_eq_ok.2 hxs.flip

end PoolM

namespace Resolver

variable {r : Resolver}

mutual

theorem fits_iff_of_elementValue : (x : Stored.ElementValue) → {v : ElementValue} →
    r.elementValue x = .ok v → (v.Fits ↔ x.Fits)
  | .leaf x, v, h => by
    unfold elementValue at h
    obtain ⟨y, -, h⟩ := bind_eq_ok.1 h
    obtain rfl := pure_eq_ok.1 h
    unfold ElementTree.Fits
    rfl
  | .nested type elements, v, h => by
    unfold elementValue at h
    obtain ⟨es, hes, h⟩ := bind_eq_ok.1 h
    obtain ⟨t, -, h⟩ := bind_eq_ok.1 h
    obtain rfl := pure_eq_ok.1 h
    obtain ⟨hlength, hfit⟩ := fits_iff_of_namedElements elements hes
    unfold ElementTree.Fits
    rw [hlength, hfit]
  | .array values, v, h => by
    unfold elementValue at h
    obtain ⟨vs, hvs, h⟩ := bind_eq_ok.1 h
    obtain rfl := pure_eq_ok.1 h
    obtain ⟨hlength, hfit⟩ := fits_iff_of_elementValues values hvs
    unfold ElementTree.Fits
    rw [hlength, hfit]

theorem fits_iff_of_elementValues : (xs : List Stored.ElementValue) → {vs : List ElementValue} →
    r.elementValues xs = .ok vs →
      vs.length = xs.length ∧ (ElementTree.ValuesFit vs ↔ ElementTree.ValuesFit xs)
  | [], vs, h => by
    obtain rfl := pure_eq_ok.1 h
    unfold ElementTree.ValuesFit
    exact ⟨rfl, Iff.rfl⟩
  | x :: xs, vs, h => by
    unfold elementValues at h
    obtain ⟨v, hv, h⟩ := bind_eq_ok.1 h
    obtain ⟨vs', hvs, h⟩ := bind_eq_ok.1 h
    obtain rfl := pure_eq_ok.1 h
    obtain ⟨hlength, hfit⟩ := fits_iff_of_elementValues xs hvs
    unfold ElementTree.ValuesFit
    rw [List.length_cons, List.length_cons, hlength, hfit, fits_iff_of_elementValue x hv]
    exact ⟨rfl, Iff.rfl⟩

theorem fits_iff_of_namedElements : (xs : List (ConstantIndex × Stored.ElementValue)) →
    {es : List (String × ElementValue)} → r.namedElements xs = .ok es →
      es.length = xs.length ∧ (ElementTree.ElementsFit es ↔ ElementTree.ElementsFit xs)
  | [], es, h => by
    obtain rfl := pure_eq_ok.1 h
    unfold ElementTree.ElementsFit
    exact ⟨rfl, Iff.rfl⟩
  | (name, x) :: xs, es, h => by
    unfold namedElements at h
    obtain ⟨n, -, h⟩ := bind_eq_ok.1 h
    obtain ⟨v, hv, h⟩ := bind_eq_ok.1 h
    obtain ⟨es', hes, h⟩ := bind_eq_ok.1 h
    obtain rfl := pure_eq_ok.1 h
    obtain ⟨hlength, hfit⟩ := fits_iff_of_namedElements xs hes
    unfold ElementTree.ElementsFit
    rw [List.length_cons, List.length_cons, hlength, hfit, fits_iff_of_elementValue x hv]
    exact ⟨rfl, Iff.rfl⟩

end

theorem fits_iff_of_annotations {xs : List Stored.Annotation} {as : List Annotation}
    (h : r.annotations xs = .ok as) :
    as.length = xs.length ∧ ((∀ a ∈ as, a.Fits) ↔ ∀ x ∈ xs, x.Fits) := by
  unfold annotations at h
  have hforall := mapM_eq_ok.1 h
  refine ⟨length_of_mapM h, ?_⟩
  clear h
  induction hforall with
  | nil => simp only [List.not_mem_nil, false_implies, implies_true]
  | @cons x a xs as hhead htail ih =>
    obtain ⟨es, hes, hhead⟩ := bind_eq_ok.1 hhead
    obtain ⟨t, -, hhead⟩ := bind_eq_ok.1 hhead
    obtain rfl := pure_eq_ok.1 hhead
    obtain ⟨hlength, hfit⟩ := fits_iff_of_namedElements x.elements hes
    rw [List.forall_mem_cons, List.forall_mem_cons, ih]
    unfold AnnotationTree.Fits
    rw [← ElementTree.elementsFit_iff, ← ElementTree.elementsFit_iff, hlength, hfit]

end Resolver

end ClassPatch
