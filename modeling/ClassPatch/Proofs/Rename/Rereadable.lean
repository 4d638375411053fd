import ClassPatch.Proofs.Class.Reread
import ClassPatch.Proofs.Rename.Class

/-!
Renaming keeps what can be read back: it leaves labels and counts alone. Frames can only become more
alike, so the changes between them take no more than before.
-/

namespace ClassPatch

variable {r : Renaming} {admits : BootstrapMethod → Prop}

section Frames

theorem BodyVerificationType.site?_rename (t : BodyVerificationType) :
    (BodyVerificationType.rename r t).site? = t.site? := by
  cases t <;> rfl

theorem BodyFrame.sites_rename (f : BodyFrame) : (BodyFrame.rename r f).sites = f.sites := by
  unfold Frame.sites BodyFrame.rename
  rw [← List.map_append, List.filterMap_map]
  exact List.filterMap_congr fun t _ => t.site?_rename

theorem BodyFrame.exists_change_rename {before after : BodyFrame}
    {change : FrameChange RefType Label} (h : before.apply change = .ok after) (hfits : change.Fits) :
    ∃ change', (BodyFrame.rename r before).apply change' = .ok (BodyFrame.rename r after)
      ∧ change'.Fits := by
  -- the same change, renamed; where names are merged, a smaller one may do as well
  cases change with
  | same =>
    cases h
    exact ⟨.same, rfl, True.intro⟩
  | sameWithStack t =>
    cases h
    exact ⟨.sameWithStack (BodyVerificationType.rename r t), rfl, True.intro⟩
  | chop count =>
    refine ⟨.chop count, ?_, hfits⟩
    unfold Frame.apply at h ⊢
    dsimp only at h ⊢
    split at h
    · cases h
    next hle =>
      cases h
      simp only [BodyFrame.rename, List.length_map, List.map_take, List.map_nil]
      rw [if_neg hle]
  | append locals =>
    cases h
    refine ⟨.append (locals.map (BodyVerificationType.rename r)), ?_, ?_⟩
    · simp only [Frame.apply, BodyFrame.rename, List.map_append, List.map_nil]
    · simpa only [FrameChange.Fits, List.length_map] using hfits
  | full locals stack =>
    cases h
    refine ⟨.full (locals.map (BodyVerificationType.rename r))
      (stack.map (BodyVerificationType.rename r)), rfl, ?_⟩
    simpa only [FrameChange.Fits, List.length_map] using hfits

theorem compressFits_rename {before : BodyFrame} {frames : List BodyFrame}
    (h : CompressFits before frames) :
    CompressFits (BodyFrame.rename r before) (frames.map (BodyFrame.rename r)) := by
  induction frames generalizing before with
  | nil => exact True.intro
  | cons f frames ih =>
    obtain ⟨change, hchange, hfits⟩ :=
      BodyFrame.exists_change_rename (r := r) (Frame.apply_compress f before) h.1
    exact ⟨Frame.fits_compress hchange hfits, ih h.2⟩

theorem VerificationType.ofFieldType_rename (t : FieldType) :
    (VerificationType.ofFieldType (t.rename r) : BodyVerificationType)
      = BodyVerificationType.rename r (.ofFieldType t) := by
  cases t with
  | base t => cases t <;> rfl
  | ref t => rfl

theorem Method.receiver_rename {owner : BinaryName}
    (howner : r.apply owner = .object ↔ owner = .object) (m : Method) :
    (((m.rename r).context (r.apply owner)).receiver : BodyVerificationType)
      = BodyVerificationType.rename r (m.context owner).receiver := by
  have hiff : (m.name = .constructor ∧ r.apply owner ≠ .object)
      ↔ (m.name = .constructor ∧ owner ≠ .object) := and_congr_right' (not_congr howner)
  change (if m.name = .constructor ∧ r.apply owner ≠ .object then .uninitializedThis
      else .object (.object (r.apply owner)))
    = BodyVerificationType.rename r (if m.name = .constructor ∧ owner ≠ .object then
      .uninitializedThis else .object (.object owner))
  rw [if_congr hiff rfl rfl]
  split <;> rfl

theorem Method.initialFrame_rename {owner : BinaryName}
    (howner : r.apply owner = .object ↔ owner = .object) (m : Method) :
    (((m.rename r).context (r.apply owner)).initialFrame : BodyFrame)
      = BodyFrame.rename r (m.context owner).initialFrame := by
  have hparameters : ((m.descriptor.parameters.map (FieldType.rename r)).map .ofFieldType
        : List BodyVerificationType)
      = (m.descriptor.parameters.map .ofFieldType).map (BodyVerificationType.rename r) := by
    rw [List.map_map, List.map_map]
    exact List.map_congr_left fun t _ => VerificationType.ofFieldType_rename t
  have hlocals : ((if m.isStatic then [] else [((m.rename r).context (r.apply owner)).receiver])
        : List BodyVerificationType)
      = (if m.isStatic then [] else [(m.context owner).receiver]).map
        (BodyVerificationType.rename r) := by
    rw [m.receiver_rename howner]
    split <;> rfl
  unfold MethodContext.initialFrame BodyFrame.rename
  refine (Frame.mk.injEq ..).mpr ⟨?_, rfl⟩
  rw [List.map_append]
  exact congr (congrArg _ hlocals) hparameters

end Frames

section Bodies

variable {c : Code} {context context' : MethodContext}

theorem BodyElement.rename_eq_label {e : BodyElement} {k : Label} :
    BodyElement.rename r e = .label k ↔ e = .label k := by
  cases e with
  | instruction i => exact ⟨nofun, nofun⟩
  | _ => exact Iff.rfl

theorem BodyElement.takesBytes_rename (e : BodyElement) :
    (BodyElement.rename r e).takesBytes = e.takesBytes := by
  cases e <;> rfl

theorem BodyElement.references_rename (e : BodyElement) :
    (BodyElement.rename r e).references = e.references := by
  cases e <;> rfl

theorem BodyElement.branch_mem_map_rename {es : List BodyElement} {b : SymbolicBranch} :
    .branch b ∈ es.map (BodyElement.rename r) ↔ .branch b ∈ es := by
  rw [List.mem_map]
  constructor
  · rintro ⟨e, he, heq⟩
    cases e with
    | branch b' =>
      cases heq
      exact he
    | label | instruction => cases heq
  · exact fun hb => ⟨_, hb, rfl⟩

namespace Code

theorem references_rename : (c.rename r).references = c.references := by
  unfold references rename
  simp only [List.flatMap_map, BodyElement.references_rename, BodyFrame.sites_rename,
    List.flatMap_append]
  rfl

theorem place_rename (k : Label) : (c.rename r).place k = c.place k := by
  unfold place placeIn rename
  have hne : (fun e : BodyElement => decide (e ≠ .label k)) ∘ BodyElement.rename r
      = fun e => decide (e ≠ .label k) :=
    funext fun e => decide_eq_decide.2 (not_congr BodyElement.rename_eq_label)
  rw [List.takeWhile_map, List.countP_map, hne]
  exact List.countP_congr fun e _ => by rw [Function.comp_apply, e.takesBytes_rename]

theorem size_rename : (c.rename r).size = c.size := by
  unfold size rename
  rw [List.countP_map]
  exact List.countP_congr fun e _ => by rw [Function.comp_apply, e.takesBytes_rename]

theorem sortedFrames_rename : (c.rename r).sortedFrames
    = c.sortedFrames.map fun f => (f.1, BodyFrame.rename r f.2) := by
  unfold sortedFrames
  refine (List.map_mergeSort fun f _ g _ => ?_).symm
  rw [place_rename, place_rename]

theorem Placed.rename (h : c.Placed) : (c.rename r).Placed where
  once := by
    intro k hk
    rw [references_rename] at hk
    rw [← h.once k hk]
    change (c.elements.map (BodyElement.rename r)).countP (· == .label k)
      = c.elements.countP (· == .label k)
    rw [List.countP_map]
    refine List.countP_congr fun e _ => ?_
    rw [Function.comp_apply, beq_iff_eq, beq_iff_eq]
    exact BodyElement.rename_eq_label
  targets := by
    refine List.forall_mem_map.2 fun e he k hk => ?_
    rw [e.references_rename] at hk
    rw [place_rename, size_rename]
    exact h.targets e he k hk
  frames := by
    refine List.forall_mem_map.2 fun f hf => ?_
    rw [place_rename, size_rename]
    exact h.frames f hf

theorem tablesFit_rename : (c.rename r).TablesFit ↔ c.TablesFit := by
  have hlocals : (c.rename r).localVariables.length = c.localVariables.length := List.length_map _
  have htypes : (c.rename r).localVariableTypes.length = c.localVariableTypes.length :=
    List.length_map _
  constructor
  · exact fun h => ⟨h.lineNumbers, hlocals ▸ h.localVariables, htypes ▸ h.localVariableTypes⟩
  · exact fun h => ⟨h.lineNumbers, hlocals ▸ h.localVariables, htypes ▸ h.localVariableTypes⟩

theorem FramesFit.rename (h : c.FramesFit context)
    (hinitial : (context'.initialFrame : BodyFrame) = BodyFrame.rename r context.initialFrame) :
    (c.rename r).FramesFit context' where
  count := by
    change (c.frames.map _).length ≤ 0xFFFF
    rw [List.length_map]
    exact h.count
  changes := by
    have hchanges := compressFits_rename (r := r) h.changes
    rw [List.map_map] at hchanges
    rw [hinitial, sortedFrames_rename, List.map_map]
    exact hchanges

theorem Rereadable.rename (h : c.Rereadable context)
    (hinitial : (context'.initialFrame : BodyFrame) = BodyFrame.rename r context.initialFrame) :
    (c.rename r).Rereadable context' where
  placed := h.placed.rename
  jumps := fun b hb => h.jumps b (BodyElement.branch_mem_map_rename.1 hb)
  tables := tablesFit_rename.2 h.tables
  frames := h.frames.rename hinitial
  attributes := h.attributes

end Code

end Bodies

section Annotations

namespace ElementValue

theorem length_renameValues (vs : List ElementValue) :
    (renameValues r vs).length = vs.length := by
  induction vs with
  | nil => rfl
  | cons v vs ih => rw [renameValues, List.length_cons, List.length_cons, ih]

theorem length_renameElements (elements : List (String × ElementValue)) :
    (renameElements r elements).length = elements.length := by
  induction elements with
  | nil => rfl
  | cons e elements ih => rw [renameElements, List.length_cons, List.length_cons, ih]

mutual

theorem fits_rename : ∀ v : ElementValue, v.Fits → (rename r v).Fits
  | .leaf v, _ => by
    rw [rename]
    unfold ElementTree.Fits
    exact True.intro
  | .nested type elements, h => by
    unfold ElementTree.Fits at h
    rw [rename]
    unfold ElementTree.Fits
    rw [length_renameElements]
    exact ⟨h.1, elementsFit_rename elements h.2⟩
  | .array values, h => by
    unfold ElementTree.Fits at h
    rw [rename]
    unfold ElementTree.Fits
    rw [length_renameValues]
    exact ⟨h.1, valuesFit_rename values h.2⟩

theorem valuesFit_rename : ∀ vs : List ElementValue,
    ElementTree.ValuesFit vs → ElementTree.ValuesFit (renameValues r vs)
  | [], h => h
  | v :: vs, h => by
    unfold ElementTree.ValuesFit at h
    rw [renameValues]
    unfold ElementTree.ValuesFit
    exact ⟨fits_rename v h.1, valuesFit_rename vs h.2⟩

theorem elementsFit_rename : ∀ elements : List (String × ElementValue),
    ElementTree.ElementsFit elements → ElementTree.ElementsFit (renameElements r elements)
  | [], h => h
  | (name, v) :: elements, h => by
    unfold ElementTree.ElementsFit at h
    rw [renameElements]
    unfold ElementTree.ElementsFit
    exact ⟨fits_rename v h.1, elementsFit_rename elements h.2⟩

end

end ElementValue

theorem Annotation.fits_rename {a : Annotation} (h : a.Fits) : (a.rename r).Fits := by
  obtain ⟨hlength, hfits⟩ := h
  constructor
  · change (ElementValue.renameElements r a.elements).length ≤ 0xFFFF
    rw [ElementValue.length_renameElements]
    exact hlength
  · exact ElementTree.elementsFit_iff.1
      (ElementValue.elementsFit_rename a.elements (ElementTree.elementsFit_iff.2 hfits))

theorem listFits_rename {as : List Annotation} (h : AnnotationTree.ListFits as) :
    AnnotationTree.ListFits (as.map (·.rename r)) := by
  refine ⟨?_, List.forall_mem_map.2 fun a ha => Annotation.fits_rename (h.2 a ha)⟩
  rw [List.length_map]
  exact h.1

theorem Annotations.Fit.rename {as : Annotations} (h : as.Fit) : (as.rename r).Fit :=
  ⟨listFits_rename h.visible, listFits_rename h.invisible⟩

theorem listsFit_rename {ass : Option (List (List Annotation))}
    (h : ∀ as ∈ ass, AnnotationTree.ListsFit as) :
    ∀ as ∈ ass.map (·.map (·.map (·.rename r))), AnnotationTree.ListsFit as := by
  intro as has
  obtain ⟨bs, hbs, rfl⟩ := Option.map_eq_some_iff.1 has
  obtain ⟨hlength, hfits⟩ := h bs hbs
  refine ⟨?_, List.forall_mem_map.2 fun a ha => listFits_rename (hfits a ha)⟩
  rw [List.length_map]
  exact hlength

theorem ParameterAnnotations.Fit.rename {as : ParameterAnnotations} (h : as.Fit) :
    (as.rename r).Fit :=
  ⟨listsFit_rename h.visible, listsFit_rename h.invisible⟩

end Annotations

section Members

theorem SymbolicInstruction.WellFormed.rename {i : SymbolicInstruction}
    (h : SymbolicInstruction.WellFormed (fun b => admits (b.rename r)) i) :
    SymbolicInstruction.WellFormed admits (SymbolicInstruction.rename r i) := by
  cases i with
  | ldc c => exact LoadableConstant.WellFormed.rename h
  | ldc2 c => exact LoadableConstant.WellFormed.rename h
  | invokeDynamic site => exact BootstrapMethod.WellFormed.rename h
  | _ => exact True.intro

theorem BodyElement.WellFormed.rename {e : BodyElement}
    (h : BodyElement.WellFormed (fun b => admits (b.rename r)) e) :
    BodyElement.WellFormed admits (BodyElement.rename r e) := by
  cases e with
  | instruction i => exact SymbolicInstruction.WellFormed.rename h
  | _ => exact True.intro

theorem Field.Storable.rename {f : Field} (h : f.Storable fun b => admits (b.rename r)) :
    (f.rename r).Storable admits where
  constants := by
    intro c hc
    obtain ⟨c', hc', rfl⟩ := Option.map_eq_some_iff.1 hc
    exact (h.constants c' hc').rename
  annotations := h.annotations.rename
  names := h.names

theorem Method.Storable.rename {m : Method} (h : m.Storable) : (m.rename r).Storable where
  exceptions := by
    change (m.exceptions.map r.apply).length ≤ 0xFFFF
    rw [List.length_map]
    exact h.exceptions
  annotations := h.annotations.rename
  parameterAnnotations := h.parameterAnnotations.rename
  annotationDefault := by
    intro v hv
    obtain ⟨v', hv', rfl⟩ := Option.map_eq_some_iff.1 hv
    exact ElementValue.fits_rename v' (h.annotationDefault v' hv')
  names := h.names

theorem Method.Rereadable.rename {owner : BinaryName}
    (howner : r.apply owner = .object ↔ owner = .object) {m : Method}
    (h : m.Rereadable owner fun b => admits (b.rename r)) :
    (m.rename r).Rereadable (r.apply owner) admits where
  storable := h.storable.rename
  constants := by
    intro c hc
    obtain ⟨c', hc', rfl⟩ := Option.map_eq_some_iff.1 hc
    exact List.forall_mem_map.2 fun e he => (h.constants c' hc' e he).rename
  code := by
    intro c hc
    obtain ⟨c', hc', rfl⟩ := Option.map_eq_some_iff.1 hc
    exact (h.code c' hc').rename (m.initialFrame_rename howner)

theorem RecordComponent.Storable.rename {c : RecordComponent} (h : c.Storable) :
    (c.rename r).Storable :=
  ⟨h.annotations.rename, h.names⟩

theorem RecordComponent.attributeCount_rename (c : RecordComponent) :
    (c.rename r).attributeCount = c.attributeCount := by
  unfold attributeCount Annotations.attributeCount RecordComponent.rename Annotations.rename
  simp only [Option.isSome_map, List.isEmpty_map]

end Members

namespace Class

variable {c : Class}

theorem Storable.rename (h : c.Storable) : (c.rename r).Storable := by
  have hcomponents : ∀ cs ∈ (c.rename r).recordComponents, ∃ cs' ∈ c.recordComponents,
      cs = cs'.map (·.rename r) := by
    intro cs hcs
    obtain ⟨cs', hcs', rfl⟩ := Option.map_eq_some_iff.1 hcs
    exact ⟨cs', hcs', rfl⟩
  constructor
  case nestMembers =>
    change (c.nestMembers.map r.apply).length ≤ 0xFFFF
    rw [List.length_map]
    exact h.nestMembers
  case permittedSubclasses =>
    change (c.permittedSubclasses.map r.apply).length ≤ 0xFFFF
    rw [List.length_map]
    exact h.permittedSubclasses
  case components_length =>
    intro cs hcs
    obtain ⟨cs', hcs', rfl⟩ := hcomponents cs hcs
    rw [List.length_map]
    exact h.components_length cs' hcs'
  case components =>
    intro cs hcs
    obtain ⟨cs', hcs', rfl⟩ := hcomponents cs hcs
    refine List.forall_mem_map.2 fun k hk => ?_
    rw [k.attributeCount_rename]
    exact ⟨(h.components cs' hcs' k hk).1.rename, (h.components cs' hcs' k hk).2⟩
  case annotations => exact h.annotations.rename
  case names => exact h.names

/-- A class is as readable after renaming as before. Only the class that all others extend must stay
what it is, because its constructors are entered with another receiver. -/
theorem Rereadable.rename (hname : r.apply c.name = .object ↔ c.name = .object)
    (h : c.Rereadable fun b => admits (b.rename r)) : (c.rename r).Rereadable admits := by
  have hinner : (c.rename r).innerClasses.length = c.innerClasses.length := List.length_map _
  constructor
  case storable => exact h.storable.rename
  case innerClasses => exact hinner ▸ h.innerClasses
  case fields => exact List.forall_mem_map.2 fun f hf => (h.fields f hf).rename
  case methods =>
    change ∀ m ∈ c.methods.map (·.rename r), m.Rereadable (r.apply c.name) admits
    exact List.forall_mem_map.2 fun m hm => (h.methods m hm).rename hname
  case bootstrapMethods =>
    unfold Class.rename
    dsimp only
    split
    · exact List.forall_mem_map.2 fun b hb => (h.bootstrapMethods b hb).rename
    · exact fun b hb => absurd hb List.not_mem_nil
  case bootstrapCount =>
    unfold Class.rename
    dsimp only
    split
    · rw [List.length_map]
      exact h.bootstrapCount
    · exact Nat.zero_le _

end Class

end ClassPatch
