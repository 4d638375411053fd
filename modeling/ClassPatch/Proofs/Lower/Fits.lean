import ClassPatch.Proofs.Lower.Names

/-!
How many attributes things are lowered to, and that lowered code and components can be read back.
-/

namespace ClassPatch

section Optional

variable {α : Type} {xs : List Stored.Attribute}

theorem IfSome.length_eq {P : α → Stored.Attribute → Prop} {a : Option α} (h : IfSome P a xs) :
    xs.length = a.isSome.toNat := by
  cases h with
  | none => rfl
  | some h => rfl

theorem UnlessEmpty.length_eq {P : List α → Stored.Attribute → Prop} {as : List α}
    (h : UnlessEmpty P as xs) : xs.length = (!as.isEmpty).toNat := by
  cases h with
  | nil => rfl
  | cons h => rfl

end Optional

def Annotations.attributeCount (as : Annotations) : Nat :=
  (!as.visible.isEmpty).toNat + (!as.invisible.isEmpty).toNat

def ParameterAnnotations.attributeCount (as : ParameterAnnotations) : Nat :=
  as.visible.isSome.toNat + as.invisible.isSome.toNat

def Code.attributeCount (c : Code) : Nat :=
  (!c.lineNumbers.isEmpty).toNat + (!c.localVariables.isEmpty).toNat
    + (!c.localVariableTypes.isEmpty).toNat + (!c.frames.isEmpty).toNat + c.attributes.length

def RecordComponent.attributeCount (c : RecordComponent) : Nat :=
  c.signature.isSome.toNat + c.annotations.attributeCount + c.attributes.length

def Field.attributeCount (f : Field) : Nat :=
  f.constantValue.isSome.toNat + f.signature.isSome.toNat + f.annotations.attributeCount
    + f.attributes.length

def Method.attributeCount (m : Method) : Nat :=
  m.code.isSome.toNat + (!m.exceptions.isEmpty).toNat + m.signature.isSome.toNat
    + m.annotations.attributeCount + m.parameterAnnotations.attributeCount
    + m.annotationDefault.isSome.toNat + m.attributes.length

/-- Attributes that the class is lowered to, without the table of bootstrap methods. -/
def Class.attributeCount (c : Class) : Nat :=
  c.sourceFile.isSome.toNat + c.signature.isSome.toNat + (!c.innerClasses.isEmpty).toNat
    + c.enclosingMethod.isSome.toNat + c.nestHost.isSome.toNat + (!c.nestMembers.isEmpty).toNat
    + (!c.permittedSubclasses.isEmpty).toNat + c.recordComponents.isSome.toNat
    + c.annotations.attributeCount + c.attributes.length

variable {r : Resolver} {s : Rereading} {xs : List Stored.Attribute}

theorem AnnotationsStored.length_eq {as : Annotations} (h : AnnotationsStored r as xs) :
    xs.length = as.attributeCount := by
  obtain ⟨hvisible, hinvisible⟩ := h
  rw [List.length_append, hvisible.length_eq, hinvisible.length_eq, Annotations.attributeCount]

theorem ParameterAnnotationsStored.length_eq {as : ParameterAnnotations}
    (h : ParameterAnnotationsStored r as xs) : xs.length = as.attributeCount := by
  obtain ⟨hvisible, hinvisible⟩ := h
  rw [List.length_append, hvisible.length_eq, hinvisible.length_eq,
    ParameterAnnotations.attributeCount]

theorem CodeAttributesLowered.length_eq {labels : LabelOffsets} {context : MethodContext} {c : Code}
    (h : CodeAttributesLowered r labels context c xs) : xs.length = c.attributeCount := by
  obtain ⟨hlines, hlocals, htypes, hframes, hattributes⟩ := h
  simp only [List.length_append, hlines.length_eq, hlocals.length_eq, htypes.length_eq,
    hframes.length_eq, hattributes.length_eq, Code.attributeCount]

theorem ComponentAttributesLowered.length_eq {c : RecordComponent}
    (h : ComponentAttributesLowered r c xs) : xs.length = c.attributeCount := by
  obtain ⟨hsignature, hannotations, hattributes⟩ := h
  simp only [List.length_append, hsignature.length_eq, hannotations.length_eq,
    hattributes.length_eq, RecordComponent.attributeCount]

theorem FieldAttributesLowered.length_eq {f : Field} (h : FieldAttributesLowered s f xs) :
    xs.length = f.attributeCount := by
  obtain ⟨hvalue, hsignature, hannotations, hattributes⟩ := h
  simp only [List.length_append, hvalue.length_eq, hsignature.length_eq, hannotations.length_eq,
    hattributes.length_eq, Field.attributeCount]

theorem MethodAttributesLowered.length_eq {owner : BinaryName} {m : Method}
    (h : MethodAttributesLowered s owner m xs) : xs.length = m.attributeCount := by
  obtain ⟨hcode, hexceptions, hsignature, hannotations, hparameters, hdefault, hattributes⟩ := h
  simp only [List.length_append, hcode.length_eq, hexceptions.length_eq, hsignature.length_eq,
    hannotations.length_eq, hparameters.length_eq, hdefault.length_eq, hattributes.length_eq,
    Method.attributeCount]

theorem ClassAttributesLowered.length_eq {c : Class} (h : ClassAttributesLowered r c xs) :
    xs.length = c.attributeCount := by
  obtain ⟨hsourceFile, hsignature, hinnerClasses, henclosing, hnestHost, hnestMembers, hpermitted,
    hrecord, hannotations, hattributes⟩ := h
  simp only [List.length_append, hsourceFile.length_eq, hsignature.length_eq,
    hinnerClasses.length_eq, henclosing.length_eq, hnestHost.length_eq, hnestMembers.length_eq,
    hpermitted.length_eq, hrecord.length_eq, hannotations.length_eq, hattributes.length_eq,
    Class.attributeCount]

theorem Stored.Code.length_code_le (x : Stored.Code) : x.code.length ≤ x.write.length := by
  simp only [write, Writer.bytes32, List.length_append]
  omega

theorem Stored.Code.length_info_le {x : Stored.Code} {a : Stored.Attribute}
    (ha : a ∈ x.attributes) : a.info.length ≤ x.write.length := by
  have hle := Stored.length_info_le_of_mem ha
  simp only [write, List.length_append]
  omega

theorem Stored.RecordComponent.length_info_le {x : Stored.RecordComponent} {a : Stored.Attribute}
    (ha : a ∈ x.attributes) : a.info.length ≤ x.write.length := by
  have hle := Stored.length_info_le_of_mem ha
  simp only [write, List.length_append]
  omega

theorem CodeLowered.fits {context : MethodContext} {c : Code} {x : Stored.Code}
    (h : CodeLowered s context c x) (hhandlers : c.exceptionHandlers.length ≤ 0xFFFF)
    (hcount : c.attributeCount ≤ 0xFFFF) (hlength : x.write.length < 2 ^ 32) : x.Fits := by
  obtain ⟨elements, assembled, -, -, haround⟩ := h
  constructor
  case code => exact Nat.lt_of_le_of_lt x.length_code_le hlength
  case exceptionTable =>
    rw [← haround.exceptionTable.length_eq]
    exact hhandlers
  case catchTypes =>
    intro y hy
    obtain ⟨handler, -, hlowered⟩ := exists_of_mem_right haround.exceptionTable hy
    exact Resolver.ne_some_zero hlowered.catchType fun _ _ =>
      Resolver.className_ne_zero s.noConstantAtZero
  case attributes =>
    rw [haround.attributes.length_eq]
    exact hcount
  case infos => exact fun a ha => Nat.lt_of_le_of_lt (Stored.Code.length_info_le ha) hlength

theorem ComponentLowered.fits {c : RecordComponent} {x : Stored.RecordComponent}
    (h : ComponentLowered r c x) (hcount : c.attributeCount ≤ 0xFFFF)
    (hlength : x.write.length < 2 ^ 32) : x.Fits where
  attributes := by
    rw [h.attributes.length_eq]
    exact hcount
  infos := fun a ha => Nat.lt_of_le_of_lt (Stored.RecordComponent.length_info_le ha) hlength

theorem parse_code_of_stores {context : MethodContext} {c : Code} {a : Stored.Attribute}
    (h : StoresTable s.resolver .code (CodeLowered s context) c a)
    (hhandlers : c.exceptionHandlers.length ≤ 0xFFFF) (hcount : c.attributeCount ≤ 0xFFFF)
    (hlength : a.info.length < 2 ^ 32) :
    ∃ x, AttributeFormat.code.parse a.info = .ok x ∧ CodeLowered s context c x := by
  obtain ⟨x, hwrite, hx⟩ := h.content
  have hinfo : x.write = a.info := by
    injection hwrite
  have hfits := hx.fits hhandlers hcount (hinfo ▸ hlength)
  exact ⟨x, AttributeFormat.readsBack_code hfits _ hwrite, hx⟩

theorem parse_record_of_stores {cs : List RecordComponent} {a : Stored.Attribute}
    (h : StoresTable r .record (List.Forall₂ (ComponentLowered r)) cs a)
    (hcs : cs.length ≤ 0xFFFF) (hcount : ∀ c ∈ cs, c.attributeCount ≤ 0xFFFF)
    (hlength : a.info.length < 2 ^ 32) :
    ∃ xs, AttributeFormat.record.parse a.info = .ok xs
      ∧ List.Forall₂ (ComponentLowered r) cs xs := by
  obtain ⟨xs, hwrite, hxs⟩ := h.content
  have hinfo : Writer.list16 Stored.RecordComponent.write xs = a.info := by
    injection hwrite
  refine ⟨xs, AttributeFormat.readsBack_record ?_ ?_ _ hwrite, hxs⟩
  · rw [← hxs.length_eq]
    exact hcs
  · intro x hx
    obtain ⟨c, hc, hlowered⟩ := exists_of_mem_right hxs hx
    refine hlowered.fits (hcount c hc) ?_
    have hle := length_le_of_mem_flatMap Stored.RecordComponent.write hx
    rw [← hinfo, Writer.list16, List.length_append] at hlength
    omega

end ClassPatch
