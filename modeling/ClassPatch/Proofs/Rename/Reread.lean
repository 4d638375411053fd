import ClassPatch.Proofs.Class.Reread
import ClassPatch.Proofs.Rename.Rereadable

/-!
What is read back names no class that was not named before. Labels and the form of branches name
none; frames only change their order.
-/

namespace ClassPatch

section Code

variable {name : String}

theorem BodyElement.names_relabel (f : Label → Label) (e : BodyElement) :
    names (e.relabel f) = names e := by
  cases e <;> rfl

theorem BodyElement.Rewritten.names_eq {e f : BodyElement} (h : e.Rewritten f) :
    names f = names e := by
  cases h <;> rfl

theorem BodyVerificationType.names_mapSite (f : Label → Label) (t : BodyVerificationType) :
    names (t.mapSite f) = names t := by
  cases t <;> rfl

theorem BodyFrame.names_mapSites (f : Label → Label) (frame : BodyFrame) :
    names (frame.mapSites f) = names frame := by
  unfold names Frame.mapSites
  rw [← List.map_append, List.flatMap_map]
  simp only [BodyVerificationType.names_mapSite]

namespace Code

variable {c d : Code} {context : MethodContext}

theorem names_labelFor (place : Nat) : (c.labelFor place).flatMap BodyElement.names = [] := by
  unfold labelFor
  split <;> rfl

theorem names_relabelFrom (place : Nat) (es : List BodyElement) :
    (c.relabelFrom place es).flatMap BodyElement.names = es.flatMap BodyElement.names := by
  induction es generalizing place with
  | nil => exact names_labelFor place
  | cons e es ih =>
    have hstep : (c.labelFor place ++ e.relabel c.renumber :: c.relabelFrom (place + 1) es).flatMap
        BodyElement.names = (e :: es).flatMap BodyElement.names := by
      rw [List.flatMap_append, names_labelFor, List.nil_append, List.flatMap_cons, ih,
        BodyElement.names_relabel, List.flatMap_cons]
    cases e with
    | label k => exact ih place
    | instruction i => exact hstep
    | branch b => exact hstep

theorem mem_names_canonical : name ∈ (c.canonical context).names ↔ name ∈ c.names := by
  have hhandlers : (c.exceptionHandlers.map (·.relabel c.renumber)).flatMap ExceptionHandler.names
      = c.exceptionHandlers.flatMap ExceptionHandler.names := List.flatMap_map ..
  have hvariables : (c.localVariables.map (·.relabel c.renumber)).flatMap
      (DescriptorText.names ·.descriptor)
      = c.localVariables.flatMap (DescriptorText.names ·.descriptor) := List.flatMap_map ..
  have htypes : (c.localVariableTypes.map (·.relabel c.renumber)).flatMap
      (SignatureText.names ·.descriptor)
      = c.localVariableTypes.flatMap (SignatureText.names ·.descriptor) := List.flatMap_map ..
  have hframes : (c.canonical context).frames.flatMap (BodyFrame.names ·.2)
      = c.sortedFrames.flatMap (BodyFrame.names ·.2) := by
    change (c.sortedFrames.map _).flatMap _ = _
    rw [List.flatMap_map]
    simp only [BodyFrame.names_mapSites]
  have hsorted : name ∈ c.sortedFrames.flatMap (BodyFrame.names ·.2)
      ↔ name ∈ c.frames.flatMap (BodyFrame.names ·.2) :=
    ((List.mergeSort_perm _ _).flatMap_right _).mem_iff
  unfold names
  rw [hframes]
  unfold canonical
  simp only [List.mem_append, names_relabelFrom, hhandlers, hvariables, htypes, hsorted]

theorem Rewritten.names_eq (h : c.Rewritten d) : d.names = c.names := by
  obtain ⟨elements, hrewritten, rfl⟩ := h
  have helements : elements.flatMap BodyElement.names = c.elements.flatMap BodyElement.names := by
    generalize c.elements = es at hrewritten
    induction hrewritten with
    | nil => rfl
    | cons hhead _ ih => rw [List.flatMap_cons, List.flatMap_cons, hhead.names_eq, ih]
  unfold names
  rw [helements]

end Code

end Code

section Class

variable {name : String}

theorem Method.Reread.mem_names {owner : BinaryName} {m n : Method} (h : m.Reread owner n) :
    name ∈ n.names ↔ name ∈ m.names := by
  have hcode : name ∈ n.code.elim [] Code.names ↔ name ∈ m.code.elim [] Code.names := by
    have hrel := h.code
    generalize m.code = c, n.code = d at hrel ⊢
    cases hrel with
    | none => exact Iff.rfl
    | some hrewritten =>
      rw [Option.elim_some, Option.elim_some, hrewritten.names_eq]
      exact Code.mem_names_canonical
  rw [h.others]
  simp only [names, List.mem_append, hcode]

theorem Method.Reread.attributes_eq {owner : BinaryName} {m n : Method} (h : m.Reread owner n) :
    (!n.attributes.isEmpty || n.code.any (!·.attributes.isEmpty))
      = (!m.attributes.isEmpty || m.code.any (!·.attributes.isEmpty)) := by
  have hcode : n.code.any (!·.attributes.isEmpty) = m.code.any (!·.attributes.isEmpty) := by
    have hrel := h.code
    generalize m.code = c, n.code = d at hrel ⊢
    cases hrel with
    | none => rfl
    | some hrewritten =>
      obtain ⟨elements, -, rfl⟩ := hrewritten
      rfl
  rw [h.others, hcode]

namespace Class

variable {c d : Class}

theorem Reread.hasVerbatimAttributes_eq (h : c.Reread d) :
    d.hasVerbatimAttributes = c.hasVerbatimAttributes := by
  have hmethods : d.methods.any
        (fun m => !m.attributes.isEmpty || m.code.any (!·.attributes.isEmpty))
      = c.methods.any fun m => !m.attributes.isEmpty || m.code.any (!·.attributes.isEmpty) := by
    have hrel := h.methods
    generalize c.methods = ms, d.methods = ns at hrel ⊢
    induction hrel with
    | nil => rfl
    | cons hhead _ ih => rw [List.any_cons, List.any_cons, hhead.attributes_eq, ih]
  rw [h.others]
  unfold hasVerbatimAttributes
  rw [hmethods]

theorem Reread.not_mem_names (h : c.Reread d) (hc : name ∉ c.names)
    (hbootstraps : c.hasVerbatimAttributes = true → ∀ b ∈ d.bootstrapMethods, name ∉ b.names) :
    name ∉ d.names := by
  have hmethods : name ∉ d.methods.flatMap Method.names := by
    intro hmem
    obtain ⟨n, hn, hmem⟩ := List.mem_flatMap.1 hmem
    obtain ⟨m, hm, hreread⟩ := exists_of_mem_right h.methods hn
    have hmethod := List.mem_flatMap.2 ⟨m, hm, hreread.mem_names.1 hmem⟩
    exact hc (by simp only [names, List.mem_append, hmethod, true_or, or_true])
  have htable : name ∉ if d.hasVerbatimAttributes then d.bootstrapMethods.flatMap
      BootstrapMethod.names else [] := by
    rw [h.hasVerbatimAttributes_eq]
    split
    next hverbatim =>
      intro hmem
      obtain ⟨b, hb, hmem⟩ := List.mem_flatMap.1 hmem
      exact hbootstraps hverbatim b hb hmem
    next => exact List.not_mem_nil
  rw [h.others] at htable ⊢
  unfold names at hc ⊢
  simp only [List.mem_append, not_or] at hc ⊢
  simp only [hc, hmethods, htable, not_false_eq_true, and_self]

end Class

end Class

end ClassPatch
