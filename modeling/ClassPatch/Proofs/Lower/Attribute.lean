import ClassPatch.Lift.Class
import ClassPatch.Lower.Class
import ClassPatch.Proofs.Lower.Annotation
import ClassPatch.Proofs.Stored.ClassFile

/-!
Attributes that were lowered. Each has the name under which it is lifted; its content resolves to
what was lowered, if a class file can hold that.
-/

namespace ClassPatch

/-- The attribute has the name, and its content is lifted to the value. -/
structure Resolver.Stores {α : Type} (r : Resolver) (sound : Prop) (name : String)
    (lift : Bytes → Except ClassError α) (a : α) (x : Stored.Attribute) : Prop where
  name : r.utf8 x.nameIndex = .ok name
  content : sound → lift x.info = .ok a

/-- The attribute for a value, if there is one. -/
inductive IfSome {α : Type} (P : α → Stored.Attribute → Prop) :
    Option α → List Stored.Attribute → Prop where
  | none : IfSome P none []
  | some {a : α} {x : Stored.Attribute} (h : P a x) :
    IfSome P (some a) [x]

/-- The attribute for a list, unless the list is empty. -/
inductive UnlessEmpty {α : Type} (P : List α → Stored.Attribute → Prop) :
    List α → List Stored.Attribute → Prop where
  | nil : UnlessEmpty P [] []
  | cons {a : α} {as : List α} {x : Stored.Attribute} (h : P (a :: as) x) :
    UnlessEmpty P (a :: as) [x]

/-- An attribute that was carried along as it is. -/
structure Resolver.Carries (r : Resolver) (v : VerbatimAttribute) (x : Stored.Attribute) :
    Prop where
  name : r.utf8 x.nameIndex = .ok v.name
  info : x.info = v.info

/-- The annotations can be counted, and so can what they are made of. -/
def AnnotationTree.ListFits {Leaf Text : Type} (as : List (AnnotationTree Leaf Text)) : Prop :=
  as.length ≤ 0xFFFF ∧ ∀ a ∈ as, a.Fits

namespace Resolver

variable (r : Resolver) (name : String)

def StoresText : String → Stored.Attribute → Prop :=
  r.Stores True name (r.textAttribute (.index name))

def StoresClass : BinaryName → Stored.Attribute → Prop :=
  r.Stores True name fun info => do r.className (← (AttributeFormat.index name).parse info)

def StoresClasses (names : List BinaryName) : Stored.Attribute → Prop :=
  r.Stores (names.length ≤ 0xFFFF) name (r.classNames (.indices name)) names

def StoresAnnotations (as : List Annotation) : Stored.Attribute → Prop :=
  r.Stores (AnnotationTree.ListFits as) name (r.annotationAttribute (.annotations name)) as

/-- Lists of annotations, one for each parameter. -/
def StoresParameterAnnotations (ass : List (List Annotation)) : Stored.Attribute → Prop :=
  r.Stores (ass.length ≤ 0xFF ∧ ∀ as ∈ ass, AnnotationTree.ListFits as) name
    (r.parameterAnnotationAttribute (.parameterAnnotations name)) ass

end Resolver

/-- The attributes for annotations, the visible ones first. -/
inductive AnnotationsStored (r : Resolver) (as : Annotations) : List Stored.Attribute → Prop where
  | mk {visible invisible : List Stored.Attribute}
    (hvisible : UnlessEmpty (r.StoresAnnotations "RuntimeVisibleAnnotations") as.visible visible)
    (hinvisible :
      UnlessEmpty (r.StoresAnnotations "RuntimeInvisibleAnnotations") as.invisible invisible) :
    AnnotationsStored r as (visible ++ invisible)

/-- The attributes for the annotations of parameters, the visible ones first. -/
inductive ParameterAnnotationsStored (r : Resolver) (as : ParameterAnnotations) :
    List Stored.Attribute → Prop where
  | mk {visible invisible : List Stored.Attribute}
    (hvisible : IfSome (r.StoresParameterAnnotations "RuntimeVisibleParameterAnnotations")
      as.visible visible)
    (hinvisible : IfSome (r.StoresParameterAnnotations "RuntimeInvisibleParameterAnnotations")
      as.invisible invisible) :
    ParameterAnnotationsStored r as (visible ++ invisible)

namespace PoolM

variable {α : Type} {s : Rereading}

theorem yields_store (format : AttributeFormat α) (a : α) :
    Yields s (format.store a) fun x =>
      s.resolver.utf8 x.nameIndex = .ok format.name
        ∧ format.write a = .ok x.info := by
  unfold AttributeFormat.store
  refine (yields_utf8 _).bind fun name => (Yields.lift _).map ?_
  intro info hinfo hname
  exact ⟨hname, hinfo⟩

theorem yields_ifSome {store : α → PoolM Stored.Attribute} {P : α → Stored.Attribute → Prop}
    {a : Option α} (h : ∀ a' ∈ a, Yields s (store a') (P a')) :
    Yields s (ifSome store a) (IfSome P a) := by
  unfold ifSome
  refine (Yields.optionMapM h).map ?_
  intro b hb
  cases hb with
  | none => exact .none
  | some hb => exact .some hb

theorem yields_unlessEmpty {store : List α → PoolM Stored.Attribute}
    {P : List α → Stored.Attribute → Prop} {as : List α} (h : Yields s (store as) (P as)) :
    Yields s (unlessEmpty store as) (UnlessEmpty P as) := by
  unfold unlessEmpty
  cases as with
  | nil => exact .pure .nil
  | cons a as =>
    refine h.map ?_
    intro x hx
    exact .cons hx

theorem yields_verbatim (v : VerbatimAttribute) :
    Yields s (verbatim v) (s.resolver.Carries v) := by
  unfold verbatim
  refine (yields_utf8 _).map ?_
  intro name hname
  exact ⟨hname, rfl⟩

theorem yields_textAttribute (name text : String) :
    Yields s (textAttribute (.index name) text) (s.resolver.StoresText name text) := by
  unfold textAttribute
  refine (yields_utf8 _).bind fun i => (yields_store _ _).mono ?_
  intro x hx hi
  refine ⟨hx.1, fun _ => ?_⟩
  simp only [Resolver.textAttribute, AttributeFormat.readsBack_index name i _ hx.2, ok_bind, hi]

theorem yields_classAttribute (name : String) (cls : BinaryName) :
    Yields s (classAttribute (.index name) cls) (s.resolver.StoresClass name cls) := by
  unfold classAttribute
  refine (yields_className _).bind fun i => (yields_store _ _).mono ?_
  intro x hx hi
  refine ⟨hx.1, fun _ => ?_⟩
  simp only [AttributeFormat.readsBack_index name i _ hx.2, ok_bind, hi]

theorem yields_classesAttribute (name : String) (names : List BinaryName) :
    Yields s (classesAttribute (.indices name) names) (s.resolver.StoresClasses name names) := by
  unfold classesAttribute
  refine (Yields.mapM fun n _ => yields_className n).bind fun is => (yields_store _ _).mono ?_
  intro x hx his
  refine ⟨hx.1, fun hlength => ?_⟩
  rw [his.length_eq] at hlength
  simp only [Resolver.classNames, AttributeFormat.readsBack_indices name hlength _ hx.2, ok_bind]
  exact mapM_eq_ok.2 his.flip

theorem yields_annotationAttribute (name : String) (as : List Annotation) :
    Yields s (do AttributeFormat.store (.annotations name) (← annotations as))
      (s.resolver.StoresAnnotations name as) := by
  refine (yields_annotations as).bind fun xs => (yields_store _ _).mono ?_
  intro x hx hxs
  refine ⟨hx.1, fun hfits => ?_⟩
  obtain ⟨hlength, hiff⟩ := Resolver.fits_iff_of_annotations hxs
  have hread := AttributeFormat.readsBack_annotations name (hlength ▸ hfits.1) (hiff.1 hfits.2)
  simp only [Resolver.annotationAttribute, hread _ hx.2, ok_bind, hxs]

theorem yields_parameterAnnotationAttribute (name : String) (ass : List (List Annotation)) :
    Yields s (do AttributeFormat.store (.parameterAnnotations name) (← ass.mapM annotations))
      (s.resolver.StoresParameterAnnotations name ass) := by
  refine (Yields.mapM fun as _ => yields_annotations as).bind fun xss => (yields_store _ _).mono ?_
  intro x hx hxss
  refine ⟨hx.1, fun hfits => ?_⟩
  have hlift : xss.mapM s.resolver.annotations = .ok ass := mapM_eq_ok.2 hxss.flip
  have hread := AttributeFormat.readsBack_parameterAnnotations name (hxss.length_eq ▸ hfits.1)
    (fun xs hxs => by
      obtain ⟨as, has, hok⟩ := exists_of_mem_left hxss.flip hxs
      obtain ⟨hlength, hiff⟩ := Resolver.fits_iff_of_annotations hok
      have hfit := hfits.2 as has
      exact ⟨hlength ▸ hfit.1, hiff.1 hfit.2⟩)
  simp only [Resolver.parameterAnnotationAttribute, hread _ hx.2, ok_bind, hlift]

theorem yields_annotationAttributes (as : Annotations) :
    Yields s (annotationAttributes as) (AnnotationsStored s.resolver as) := by
  unfold annotationAttributes
  refine (yields_unlessEmpty (P := s.resolver.StoresAnnotations "RuntimeVisibleAnnotations")
    (yields_annotationAttribute _ _)).bind fun visible => ?_
  refine (yields_unlessEmpty (P := s.resolver.StoresAnnotations "RuntimeInvisibleAnnotations")
    (yields_annotationAttribute _ _)).map ?_
  intro invisible hinvisible hvisible
  exact .mk hvisible hinvisible

theorem yields_parameterAnnotationAttributes (as : ParameterAnnotations) :
    Yields s (parameterAnnotationAttributes as) (ParameterAnnotationsStored s.resolver as) := by
  unfold parameterAnnotationAttributes
  refine (yields_ifSome fun ass _ => yields_parameterAnnotationAttribute
    "RuntimeVisibleParameterAnnotations" ass).bind fun visible => ?_
  refine (yields_ifSome fun ass _ => yields_parameterAnnotationAttribute
    "RuntimeInvisibleParameterAnnotations" ass).map ?_
  intro invisible hinvisible hvisible
  exact .mk hvisible hinvisible

end PoolM

end ClassPatch
