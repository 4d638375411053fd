import ClassPatch.Annotation.Format
import ClassPatch.Proofs.Binary.Reads

/-!
Annotations are read back from what they are written as, if their lists can be counted in two bytes.
-/

namespace ClassPatch

namespace ElementTree

variable {Leaf Text : Type}

mutual

/-- A class file can count the parts of the value. -/
def Fits : ElementTree Leaf Text → Prop
  | .leaf _ => True
  | .nested _ elements => elements.length ≤ 0xFFFF ∧ ElementsFit elements
  | .array values => values.length ≤ 0xFFFF ∧ ValuesFit values

def ValuesFit : List (ElementTree Leaf Text) → Prop
  | [] => True
  | v :: vs => v.Fits ∧ ValuesFit vs

def ElementsFit : List (Text × ElementTree Leaf Text) → Prop
  | [] => True
  | (_, v) :: elements => v.Fits ∧ ElementsFit elements

end

theorem valuesFit_iff {vs : List (ElementTree Leaf Text)} :
    ValuesFit vs ↔ ∀ v ∈ vs, v.Fits := by
  induction vs with
  | nil =>
    unfold ValuesFit
    simp only [List.not_mem_nil, false_implies, implies_true]
  | cons v vs ih =>
    unfold ValuesFit
    rw [ih, List.forall_mem_cons]

theorem elementsFit_iff {elements : List (Text × ElementTree Leaf Text)} :
    ElementsFit elements ↔ ∀ e ∈ elements, e.2.Fits := by
  induction elements with
  | nil =>
    unfold ElementsFit
    simp only [List.not_mem_nil, false_implies, implies_true]
  | cons e elements ih =>
    unfold ElementsFit
    rw [ih, List.forall_mem_cons]

end ElementTree

/-- A class file can count the elements of the annotation, and what they are made of. -/
def AnnotationTree.Fits {Leaf Text : Type} (a : AnnotationTree Leaf Text) : Prop :=
  a.elements.length ≤ 0xFFFF ∧ ∀ e ∈ a.elements, e.2.Fits

namespace Stored

open Reader

namespace ElementValue

theorem writeValues_eq (vs : List ElementValue) : writeValues vs = vs.flatMap write := by
  induction vs with
  | nil => rfl
  | cons v vs ih => rw [writeValues, ih, List.flatMap_cons]

theorem writeElements_eq (elements : List (ConstantIndex × ElementValue)) :
    writeElements elements = elements.flatMap fun e => Writer.u16 e.1 ++ write e.2 := by
  induction elements with
  | nil => rfl
  | cons e elements ih => rw [writeElements, ih, List.flatMap_cons]

theorem read_leaf_const (tag : ElementTag) (bound : Nat) (value : ConstantIndex) :
    Reads (read (bound + 1)) (LeafValue.write (.const tag value)) (.leaf (.const tag value)) := by
  unfold LeafValue.write read
  refine (reads_u8 _).bind ?_
  cases tag <;> exact (reads_u16 value).bind_pure _

theorem reads_leaf (v : LeafValue) (bound : Nat) :
    Reads (read (bound + 1)) v.write (.leaf v) := by
  cases v with
  | const tag value => exact read_leaf_const tag bound value
  | enum type name =>
    unfold LeafValue.write read
    simp only [List.append_assoc]
    refine (reads_u8 _).bind ?_
    change Reads (do return ElementTree.leaf (LeafValue.enum (← u16) (← u16))) _ _
    exact (reads_u16 type).bind ((reads_u16 name).bind_pure _)
  | classInfo descriptor =>
    unfold LeafValue.write read
    refine (reads_u8 _).bind ?_
    exact (reads_u16 descriptor).bind_pure _

theorem reads_elements {value : Reader ElementValue}
    {elements : List (ConstantIndex × ElementValue)} (hlength : elements.length ≤ 0xFFFF)
    (h : ∀ e ∈ elements, Reads value (write e.2) e.2) :
    Reads (readElements value)
      (Writer.u16 (UInt16.ofNat elements.length) ++ writeElements elements) elements := by
  unfold readElements
  have hread : ∀ e ∈ elements,
      Reads (do return (← u16, ← value)) (Writer.u16 e.1 ++ write e.2) e := by
    intro e he
    obtain ⟨name, v⟩ := e
    exact (reads_u16 name).bind ((h _ he).bind_pure fun v => (name, v))
  have h16 := reads_list16 hread hlength
  unfold Writer.list16 at h16
  rw [writeElements_eq]
  exact h16

mutual

theorem reads_elementValue : (v : ElementValue) → v.Fits → (bound : Nat) →
    (write v).length ≤ bound → Reads (read bound) (write v) v
  | .leaf v, _, bound, hbound => by
    rw [write] at hbound ⊢
    have hpos : 0 < v.write.length := by
      cases v <;> exact Nat.succ_pos _
    obtain ⟨bound, rfl⟩ := Nat.exists_eq_succ_of_ne_zero (by omega : bound ≠ 0)
    exact reads_leaf v bound
  | .nested type elements, hfits, bound, hbound => by
    obtain ⟨hlength, hfit⟩ := hfits
    rw [write] at hbound ⊢
    simp only [List.length_append, Writer.u8, List.length_singleton] at hbound
    obtain ⟨bound, rfl⟩ := Nat.exists_eq_succ_of_ne_zero (by omega : bound ≠ 0)
    simp only [List.append_assoc]
    refine (reads_u8 _).bind ?_
    change Reads (do return ElementTree.nested (← u16) (← readElements (read bound))) _ _
    refine (reads_u16 type).bind ?_
    exact (reads_elements hlength
      (reads_elementList elements hfit bound (by omega))).bind_pure _
  | .array values, hfits, bound, hbound => by
    obtain ⟨hlength, hfit⟩ := hfits
    rw [write] at hbound ⊢
    simp only [List.length_append, Writer.u8, List.length_singleton] at hbound
    obtain ⟨bound, rfl⟩ := Nat.exists_eq_succ_of_ne_zero (by omega : bound ≠ 0)
    simp only [List.append_assoc]
    refine (reads_u8 _).bind ?_
    change Reads (do return ElementTree.array (← list16 (read bound))) _ _
    have hvalues := reads_valueList values hfit bound (by omega)
    rw [writeValues_eq]
    change Reads _ (Writer.list16 write values) _
    exact (reads_list16 hvalues hlength).bind_pure _

theorem reads_valueList : (vs : List ElementValue) → ElementTree.ValuesFit vs → (bound : Nat) →
    (writeValues vs).length ≤ bound → ∀ v ∈ vs, Reads (read bound) (write v) v
  | [], _, _, _ => by
    intro v hv
    cases hv
  | v :: vs, hfits, bound, hbound => by
    obtain ⟨hv, hvs⟩ := hfits
    rw [writeValues, List.length_append] at hbound
    rw [List.forall_mem_cons]
    exact ⟨reads_elementValue v hv bound (by omega), reads_valueList vs hvs bound (by omega)⟩

theorem reads_elementList : (es : List (ConstantIndex × ElementValue)) →
    ElementTree.ElementsFit es → (bound : Nat) → (writeElements es).length ≤ bound →
      ∀ e ∈ es, Reads (read bound) (write e.2) e.2
  | [], _, _, _ => by
    intro e he
    cases he
  | (name, v) :: es, hfits, bound, hbound => by
    obtain ⟨hv, hes⟩ := hfits
    rw [writeElements, List.length_append, List.length_append] at hbound
    rw [List.forall_mem_cons]
    exact ⟨reads_elementValue v hv bound (by omega), reads_elementList es hes bound (by omega)⟩

end

end ElementValue

theorem Annotation.reads_annotation {a : Annotation} (h : a.Fits) {bound : Nat}
    (hbound : (write a).length ≤ bound) : Reads (read bound) (write a) a := by
  unfold write at hbound ⊢
  unfold read
  simp only [List.length_append] at hbound
  simp only [List.append_assoc]
  refine (reads_u16 a.type).bind ?_
  refine (ElementValue.reads_elements h.1 ?_).bind_pure _
  exact ElementValue.reads_elementList a.elements (ElementTree.elementsFit_iff.2 h.2) bound
    (by omega)

end Stored

end ClassPatch
