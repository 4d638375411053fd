import ClassPatch.Proofs.Lift.Attribute
import ClassPatch.Proofs.Lower.Class

/-!
The names of lowered attributes. Each is one whose content is understood, or that of an attribute
which was carried along.
-/

namespace ClassPatch

section Optional

variable {α : Type} {Q : Stored.Attribute → Prop} {xs : List Stored.Attribute}

theorem IfSome.forall_mem {P : α → Stored.Attribute → Prop} {a : Option α} (h : IfSome P a xs)
    (hP : ∀ a' ∈ a, ∀ x, P a' x → Q x) : ∀ x ∈ xs, Q x := by
  cases h with
  | none => exact nofun
  | some h =>
    rw [List.forall_mem_singleton]
    exact hP _ rfl _ h

theorem UnlessEmpty.forall_mem {P : List α → Stored.Attribute → Prop} {as : List α}
    (h : UnlessEmpty P as xs) (hP : ∀ x, P as x → Q x) : ∀ x ∈ xs, Q x := by
  cases h with
  | nil => exact nofun
  | cons h =>
    rw [List.forall_mem_singleton]
    exact hP _ h

end Optional

namespace Resolver

/-- The attribute has one of the names. -/
def Named (r : Resolver) (names : List String) (x : Stored.Attribute) : Prop :=
  ∃ name ∈ names, r.utf8 x.nameIndex = .ok name

variable {r : Resolver} {names : List String} {x : Stored.Attribute}

theorem Named.of_utf8 {name : String} (hname : name ∈ names) (h : r.utf8 x.nameIndex = .ok name) :
    r.Named names x :=
  ⟨name, hname, h⟩

theorem Named.mem {name : String} (h : r.Named names x) (hname : r.utf8 x.nameIndex = .ok name) :
    name ∈ names := by
  obtain ⟨name', hmem, hname'⟩ := h
  rw [hname] at hname'
  cases hname'
  exact hmem

end Resolver

open Resolver

variable {r : Resolver} {s : Rereading} {xs : List Stored.Attribute} {x : Stored.Attribute}

theorem AnnotationsStored.named {as : Annotations} {names : List String}
    (h : AnnotationsStored r as xs) (hvisible : "RuntimeVisibleAnnotations" ∈ names)
    (hinvisible : "RuntimeInvisibleAnnotations" ∈ names) : ∀ x ∈ xs, r.Named names x := by
  obtain ⟨h₁, h₂⟩ := h
  rw [List.forall_mem_append]
  exact ⟨h₁.forall_mem fun x hx => .of_utf8 hvisible hx.name,
    h₂.forall_mem fun x hx => .of_utf8 hinvisible hx.name⟩

theorem ParameterAnnotationsStored.named {as : ParameterAnnotations} {names : List String}
    (h : ParameterAnnotationsStored r as xs)
    (hvisible : "RuntimeVisibleParameterAnnotations" ∈ names)
    (hinvisible : "RuntimeInvisibleParameterAnnotations" ∈ names) :
    ∀ x ∈ xs, r.Named names x := by
  obtain ⟨h₁, h₂⟩ := h
  rw [List.forall_mem_append]
  exact ⟨h₁.forall_mem fun _ _ x hx => .of_utf8 hvisible hx.name,
    h₂.forall_mem fun _ _ x hx => .of_utf8 hinvisible hx.name⟩

theorem carries_of_mem {vs : List VerbatimAttribute} (h : List.Forall₂ r.Carries vs xs) :
    ∀ x ∈ xs, ∃ v ∈ vs, r.Carries v x :=
  fun _ hx => exists_of_mem_right h hx

theorem FieldAttributesLowered.named {f : Field} (h : FieldAttributesLowered s f xs) :
    ∀ x ∈ xs, s.resolver.Named fieldAttributes x
      ∨ ∃ v ∈ f.attributes, s.resolver.Carries v x := by
  obtain ⟨hvalue, hsignature, hannotations, hattributes⟩ := h
  simp only [List.forall_mem_append]
  refine ⟨⟨⟨?_, ?_⟩, ?_⟩, ?_⟩
  · exact hvalue.forall_mem fun _ _ x hx => .inl (.of_utf8 (by decide) hx.name)
  · exact hsignature.forall_mem fun _ _ x hx => .inl (.of_utf8 (by decide) hx.name)
  · exact fun x hx => .inl (hannotations.named (by decide) (by decide) x hx)
  · exact fun x hx => .inr (carries_of_mem hattributes x hx)

theorem ComponentAttributesLowered.named {c : RecordComponent}
    (h : ComponentAttributesLowered r c xs) :
    ∀ x ∈ xs, r.Named componentAttributes x ∨ ∃ v ∈ c.attributes, r.Carries v x := by
  obtain ⟨hsignature, hannotations, hattributes⟩ := h
  simp only [List.forall_mem_append]
  refine ⟨⟨?_, ?_⟩, ?_⟩
  · exact hsignature.forall_mem fun _ _ x hx => .inl (.of_utf8 (by decide) hx.name)
  · exact fun x hx => .inl (hannotations.named (by decide) (by decide) x hx)
  · exact fun x hx => .inr (carries_of_mem hattributes x hx)

theorem CodeAttributesLowered.named {labels : LabelOffsets} {context : MethodContext} {c : Code}
    (h : CodeAttributesLowered r labels context c xs) :
    ∀ x ∈ xs, r.Named codeAttributes x ∨ ∃ v ∈ c.attributes, r.Carries v x := by
  obtain ⟨hlines, hlocals, htypes, hframes, hattributes⟩ := h
  simp only [List.forall_mem_append]
  refine ⟨⟨⟨⟨?_, ?_⟩, ?_⟩, ?_⟩, ?_⟩
  · exact hlines.forall_mem fun x hx => .inl (.of_utf8 (by decide) hx.name)
  · exact hlocals.forall_mem fun x hx => .inl (.of_utf8 (by decide) hx.name)
  · exact htypes.forall_mem fun x hx => .inl (.of_utf8 (by decide) hx.name)
  · exact hframes.forall_mem fun x hx => .inl (.of_utf8 (by decide) hx.name)
  · exact fun x hx => .inr (carries_of_mem hattributes x hx)

theorem MethodAttributesLowered.named {owner : BinaryName} {m : Method}
    (h : MethodAttributesLowered s owner m xs) :
    ∀ x ∈ xs, s.resolver.Named (methodAttributes.erase "Code") x
      ∨ (∃ c ∈ m.code, StoresTable s.resolver .code (CodeLowered s (m.context owner)) c x)
      ∨ ∃ v ∈ m.attributes, s.resolver.Carries v x := by
  obtain ⟨hcode, hexceptions, hsignature, hannotations, hparameters, hdefault, hattributes⟩ := h
  simp only [List.forall_mem_append]
  refine ⟨⟨⟨⟨⟨⟨?_, ?_⟩, ?_⟩, ?_⟩, ?_⟩, ?_⟩, ?_⟩
  · exact hcode.forall_mem fun c hc x hx => .inr (.inl ⟨c, hc, hx⟩)
  · exact hexceptions.forall_mem fun x hx => .inl (.of_utf8 (by decide) hx.name)
  · exact hsignature.forall_mem fun _ _ x hx => .inl (.of_utf8 (by decide) hx.name)
  · exact fun x hx => .inl (hannotations.named (by decide) (by decide) x hx)
  · exact fun x hx => .inl (hparameters.named (by decide) (by decide) x hx)
  · exact hdefault.forall_mem fun _ _ x hx => .inl (.of_utf8 (by decide) hx.name)
  · exact fun x hx => .inr (.inr (carries_of_mem hattributes x hx))

theorem ClassAttributesLowered.named {c : Class} (h : ClassAttributesLowered r c xs) :
    ∀ x ∈ xs, r.Named ((classAttributes.erase "Record").erase "BootstrapMethods") x
      ∨ (∃ cs ∈ c.recordComponents,
          StoresTable r .record (List.Forall₂ (ComponentLowered r)) cs x)
      ∨ ∃ v ∈ c.attributes, r.Carries v x := by
  obtain ⟨hsourceFile, hsignature, hinnerClasses, henclosing, hnestHost, hnestMembers, hpermitted,
    hrecord, hannotations, hattributes⟩ := h
  simp only [List.forall_mem_append]
  refine ⟨⟨⟨⟨⟨⟨⟨⟨⟨?_, ?_⟩, ?_⟩, ?_⟩, ?_⟩, ?_⟩, ?_⟩, ?_⟩, ?_⟩, ?_⟩
  · exact hsourceFile.forall_mem fun _ _ x hx => .inl (.of_utf8 (by decide) hx.name)
  · exact hsignature.forall_mem fun _ _ x hx => .inl (.of_utf8 (by decide) hx.name)
  · exact hinnerClasses.forall_mem fun x hx => .inl (.of_utf8 (by decide) hx.name)
  · exact henclosing.forall_mem fun _ _ x hx => .inl (.of_utf8 (by decide) hx.name)
  · exact hnestHost.forall_mem fun _ _ x hx => .inl (.of_utf8 (by decide) hx.name)
  · exact hnestMembers.forall_mem fun x hx => .inl (.of_utf8 (by decide) hx.name)
  · exact hpermitted.forall_mem fun x hx => .inl (.of_utf8 (by decide) hx.name)
  · exact hrecord.forall_mem fun cs hcs x hx => .inr (.inl ⟨cs, hcs, hx⟩)
  · exact fun x hx => .inl (hannotations.named (by decide) (by decide) x hx)
  · exact fun x hx => .inr (.inr (carries_of_mem hattributes x hx))

end ClassPatch
