import ClassPatch.Proofs.Lift.Laid

/-!
Instructions whose width is not their own: that of a load depends on the index of the constant, and
that of a switch on its offset. Unless one of them gets longer, lifted code has room for itself.
-/

namespace ClassPatch

/-- Whether the width depends on the index of a constant or on the offset of the instruction. -/
def Decoded.isElastic : Decoded → Bool
  | .instruction (.ldc _) | .branch (.tableSwitch ..) | .branch (.lookupSwitch ..) => true
  | _ => false

/-- Some load of a constant or some switch is longer where it is first placed than it was in the
code that it was decoded from. -/
def Lengthens (codeLength : Nat) (decoded : List (Nat × Decoded)) (elements : List LayoutElement) :
    Prop :=
  ∃ i o d next n e, decoded[i]? = some (o, d)
    ∧ (boundaryOffsets decoded codeLength)[i + 1]? = some next
    ∧ (placedInstructions 0 elements)[i]? = some (n, e)
    ∧ d.isElastic = true ∧ next < o + e.width n

/-- An element of a body and what it is laid out as, whatever the indices of its constants. -/
inductive ElementShaped : BodyElement → LayoutElement → Prop where
  | label (label : Label) : ElementShaped (.label label) (.label label)
  | instruction {i : SymbolicInstruction} {x : StoredInstruction} (h : x.form = i.form) :
    ElementShaped (.instruction i) (.instruction x)
  | branch (b : SymbolicBranch) : ElementShaped (.branch b) (.branch b)

namespace ElementShaped

variable {e : BodyElement} {l : LayoutElement}

theorem of_run {p q : Pool} (h : (PoolM.layoutElement e).run p = (.ok l, q)) :
    ElementShaped e l := by
  cases e with
  | label k =>
    obtain ⟨rfl, -⟩ := run_pure_eq_ok.1 h
    exact .label k
  | instruction i =>
    obtain ⟨x, _, hx, h⟩ := run_bind_eq_ok.1 h
    obtain ⟨rfl, -⟩ := run_pure_eq_ok.1 h
    exact .instruction (Instruction.form_of_run_mapM hx)
  | branch b =>
    obtain ⟨rfl, -⟩ := run_pure_eq_ok.1 h
    exact .branch b

theorem forall₂_of_run {es : List BodyElement} {elements : List LayoutElement} {p q : Pool}
    (h : (es.mapM PoolM.layoutElement).run p = (.ok elements, q)) :
    List.Forall₂ ElementShaped es elements :=
  (forall₂_of_run_mapM h).imp fun _ _ ⟨_, _, h⟩ => of_run h

theorem of_rename {r : Renaming} (h : ElementShaped (e.rename r) l) : ElementShaped e l := by
  cases e with
  | label k => exact h
  | instruction i =>
    cases h with
    | instruction h => exact .instruction (h.trans (SymbolicInstruction.form_rename r i))
  | branch b => exact h

theorem laidAs {r : Resolver} {labels : Std.HashMap Nat Label} {d : Decoded}
    (h : ElementShaped e l) (he : ElementLifted r labels d e) : LaidAs labels d l := by
  cases he with
  | instruction hx =>
    cases h with
    | instruction h => exact .instruction (h.trans (Instruction.form_of_mapM hx))
  | branch hjump =>
    cases h
    exact .branch hjump

end ElementShaped

theorem exists_of_shaped_labelElement {labels : Std.HashMap Nat Label} {o : Nat}
    {es : List BodyElement} {elements : List LayoutElement}
    (h : List.Forall₂ ElementShaped (labelElement labels o ++ es) elements) :
    ∃ rest, elements = placedLabel labels o ++ rest ∧ List.Forall₂ ElementShaped es rest := by
  unfold labelElement at h
  unfold placedLabel
  cases hlabel : labels[o]? with
  | none =>
    rw [hlabel] at h
    exact ⟨elements, rfl, h⟩
  | some k =>
    rw [hlabel] at h
    obtain ⟨l, rest, hl, hrest, rfl⟩ := List.forall₂_cons_left_iff.1 h
    cases hl
    exact ⟨rest, rfl, hrest⟩

theorem bodyLaid_of_shaped {r : Resolver} {labels : Std.HashMap Nat Label} {codeLength : Nat}
    {decoded : List (Nat × Decoded)} {body : List (List BodyElement)}
    (hbody : List.Forall₂ (fun x es => r.bodyElement labels x.1 x.2 = .ok es) decoded body)
    {elements : List LayoutElement}
    (h : List.Forall₂ ElementShaped (body.flatten ++ labelElement labels codeLength) elements) :
    BodyLaid (LaidAs labels) labels codeLength decoded elements := by
  induction hbody generalizing elements with
  | nil =>
    rw [List.flatten_nil, List.nil_append, ← List.append_nil (labelElement _ _)] at h
    obtain ⟨_, rfl, hnil⟩ := exists_of_shaped_labelElement h
    cases hnil
    rw [List.append_nil]
    exact .stop
  | @cons x es decoded body hhead _ ih =>
    obtain ⟨e, he, rfl⟩ := elementLifted_of_bodyElement hhead
    simp only [List.flatten_cons, List.append_assoc, List.singleton_append] at h
    obtain ⟨_, rfl, hes⟩ := exists_of_shaped_labelElement h
    rw [List.cons_append] at hes
    obtain ⟨l, rest, hl, hrest, rfl⟩ := List.forall₂_cons_left_iff.1 hes
    have hlaid := hl.laidAs he
    exact .cons hlaid.takesBytes hlaid (ih hrest)

theorem LaidAs.width_eq {labels : Std.HashMap Nat Label} {d : Decoded} {e : LayoutElement}
    (h : LaidAs labels d e) (hd : d.isElastic = false) (n : Nat) : e.width n = d.width := by
  cases h with
  | @instruction x y h =>
    refine StoredInstruction.width_eq_of_form h ?_
    cases x with
    | ldc => cases hd
    | _ => rfl
  | branch h =>
    cases h with
    | tableSwitch | lookupSwitch => cases hd
    | _ => rfl

theorem getElem?_placedInstructions {offset i n : Nat} {elements : List LayoutElement}
    {e : LayoutElement} (h : (placedInstructions offset elements)[i]? = some (n, e)) :
    (placedBoundaries offset elements)[i]? = some n
      ∧ (placedBoundaries offset elements)[i + 1]? = some (n + e.width n) := by
  induction elements generalizing offset i with
  | nil => cases h
  | cons l elements ih =>
    cases hl : l.takesBytes with
    | false =>
      cases l with
      | label k => exact ih h
      | instruction | branch => cases hl
    | true =>
      rw [placedInstructions_cons hl] at h
      rw [placedBoundaries_of_takesBytes hl]
      cases i with
      | zero =>
        cases h
        exact ⟨rfl, getElem?_zero_placedBoundaries _ _⟩
      | succ i => exact ih h

section Lengthens

variable {labels : Std.HashMap Nat Label} {codeLength : Nat} {decoded : List (Nat × Decoded)}
  {elements : List LayoutElement}

theorem BodyLaid.contracts (h : BodyLaid (LaidAs labels) labels codeLength decoded elements)
    (hcontiguous : Contiguous codeLength 0 decoded)
    (hnot : ¬ Lengthens codeLength decoded elements) :
    Contracts ((boundaryOffsets decoded codeLength).zip (placedBoundaries 0 elements)) := by
  refine contracts_of_consecutive fun i o n o' n' hi hi' => ?_
  obtain ⟨ho, hn⟩ := List.getElem?_zip_eq_some.1 hi
  obtain ⟨ho', hn'⟩ := List.getElem?_zip_eq_some.1 hi'
  -- the second of two boundaries is the end of an instruction
  have hlength : i < decoded.length := by
    have := (List.getElem?_eq_some_iff.1 ho').1
    rw [boundaryOffsets, List.length_append, List.length_map, List.length_singleton] at this
    omega
  obtain ⟨⟨oᵢ, d⟩, hd⟩ : ∃ x, decoded[i]? = some x := ⟨_, List.getElem?_eq_getElem hlength⟩
  obtain ⟨size, hspans, hstart, hstop⟩ := hcontiguous.exists_spans hd
  have hforall := h.forall₂ 0
  obtain ⟨⟨nᵢ, e⟩, he⟩ : ∃ y, (placedInstructions 0 elements)[i]? = some y :=
    ⟨_, List.getElem?_eq_getElem (hforall.length_eq ▸ hlength)⟩
  obtain ⟨hplaced, hplaced'⟩ := getElem?_placedInstructions he
  obtain rfl := Option.some.inj (hstart.symm.trans ho)
  obtain rfl := Option.some.inj (hstop.symm.trans ho')
  obtain rfl := Option.some.inj (hplaced.symm.trans hn)
  obtain rfl := Option.some.inj (hplaced'.symm.trans hn')
  have hle : e.width nᵢ ≤ size := by
    cases helastic : d.isElastic with
    | true =>
      refine Nat.le_of_not_lt fun hlt => hnot ?_
      exact ⟨i, oᵢ, d, _, nᵢ, e, hd, hstop, he, helastic, by omega⟩
    | false =>
      rw [(rel_of_getElem? hforall hd he).1.width_eq helastic]
      exact hspans.width_le
  omega

end Lengthens

namespace CodeLifted

variable {r : Resolver} {context : MethodContext} {x : Stored.Code} {p : CodeParts} {c : Code}
  {elements : List LayoutElement}

theorem bodyLaid (h : CodeLifted r context x p c)
    (helements : List.Forall₂ ElementShaped c.elements elements) :
    BodyLaid (LaidAs p.labels) p.labels p.codeLength p.decoded elements := by
  obtain ⟨body, hbody, heq⟩ := h.elements
  rw [heq] at helements
  exact bodyLaid_of_shaped (mapM_eq_ok.1 hbody) helements

theorem atBoundaries (h : CodeLifted r context x p c) :
    BodyLaid.AtBoundaries p.labels p.decoded p.codeLength where
  mem := fun _ _ ho => h.mem_boundaryOffsets ho
  injective := h.injective

theorem contiguous (h : CodeLifted r context x p c) : Contiguous p.codeLength 0 p.decoded := by
  rw [h.codeLength]
  exact contiguous_of_decodeCode h.decoded

/-- Lifted code can be laid out and written again unless an instruction gets longer. -/
theorem exists_assemble (h : CodeLifted r context x p c)
    (helements : List.Forall₂ ElementShaped c.elements elements)
    (hlength : x.code.length ≤ maxCodeLength) (hnot : ¬ Lengthens x.code.length p.decoded elements) :
    ∃ assembled, assemble elements = .ok assembled := by
  rw [← h.codeLength] at hlength hnot
  have hlaid := h.bodyLaid helements
  exact hlaid.exists_assemble h.contiguous h.decodedFrom.increasing h.atBoundaries
    (hlaid.contracts h.contiguous hnot) hlength

end CodeLifted

end ClassPatch
