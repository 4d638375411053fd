import ClassPatch.Proofs.Lift.Labels
import ClassPatch.Proofs.Lower.Code

/-!
A body that was lifted, lowered and laid out, and is lifted again: its instructions are those of
the first code array at other offsets, and its labels stand at the same instructions.
-/

namespace ClassPatch

theorem labelAt_eq_ok {labels : Std.HashMap Nat Label} {offset : Nat} {label : Label} :
    labelAt labels offset = .ok label ↔ labels[offset]? = some label := by
  unfold labelAt
  split
  next k hk =>
    rw [hk]
    constructor
    · intro h
      cases h
      rfl
    · intro h
      cases h
      rfl
  next hnone =>
    rw [hnone]
    constructor <;> intro h <;> cases h

/-- The element of a body that an instruction stands for. -/
inductive ElementLifted (r : Resolver) (labels : Std.HashMap Nat Label) :
    Decoded → BodyElement → Prop where
  | instruction {x : StoredInstruction} {i : SymbolicInstruction} (h : r.instruction x = .ok i) :
    ElementLifted r labels (.instruction x) (.instruction i)
  | branch {jump : Branch Nat Nat} {b : SymbolicBranch}
    (h : Branch.Rel (fun o k => labels[o]? = some k) (fun o k => labels[o]? = some k) jump b) :
    ElementLifted r labels (.branch jump) (.branch b)

/-- The label at an offset, if there is one. -/
def labelElement (labels : Std.HashMap Nat Label) (offset : Nat) : List BodyElement :=
  (labels[offset]?.map .label).toList

theorem eq_label_of_mem {labels : Std.HashMap Nat Label} {offset : Nat} {e : BodyElement}
    (h : e ∈ labelElement labels offset) : ∃ k, e = .label k := by
  unfold labelElement at h
  rw [Option.mem_toList, Option.map_eq_some_iff] at h
  obtain ⟨k, -, rfl⟩ := h
  exact ⟨k, rfl⟩

theorem elementLifted_of_bodyElement {r : Resolver} {labels : Std.HashMap Nat Label}
    {offset : Nat} {d : Decoded} {es : List BodyElement}
    (h : r.bodyElement labels offset d = .ok es) :
    ∃ e, ElementLifted r labels d e ∧ es = labelElement labels offset ++ [e] := by
  unfold Resolver.bodyElement at h
  cases d with
  | instruction x =>
    obtain ⟨i, hi, h⟩ := bind_eq_ok.1 h
    obtain rfl := pure_eq_ok.1 h
    exact ⟨_, .instruction hi, rfl⟩
  | branch jump =>
    obtain ⟨b, hb, h⟩ := bind_eq_ok.1 h
    obtain rfl := pure_eq_ok.1 h
    refine ⟨_, .branch ((Branch.rel_of_mapM hb).imp ?_ ?_), rfl⟩
    · exact fun _ _ _ ht => labelAt_eq_ok.1 ht
    · exact fun _ _ _ ht => labelAt_eq_ok.1 ht

theorem bodyElement_of_elementLifted {r : Resolver} {labels : Std.HashMap Nat Label}
    {d : Decoded} {e : BodyElement} (h : ElementLifted r labels d e) (offset : Nat) :
    r.bodyElement labels offset d = .ok (labelElement labels offset ++ [e]) := by
  unfold Resolver.bodyElement
  cases h with
  | instruction h =>
    simp only [h, ok_bind]
    rfl
  | branch h =>
    have hmap := Branch.mapM_of_rel (h.imp (fun _ _ _ ht => labelAt_eq_ok.2 ht)
      fun _ _ _ ht => labelAt_eq_ok.2 ht)
    simp only [hmap, ok_bind]
    rfl

/-- An element with indices as operands, with the form of jumps that was chosen. -/
inductive ElementPlaced (s : Rereading) : BodyElement → LayoutElement → Prop where
  | label (label : Label) : ElementPlaced s (.label label) (.label label)
  | instruction {i : SymbolicInstruction} {x : StoredInstruction}
    (h : s.wellFormed → s.resolver.instruction x = .ok i)
    (hrepeats : PoolM.Repeats s.pool (PoolM.instruction i) x) :
    ElementPlaced s (.instruction i) (.instruction x)
  | branch {b c : SymbolicBranch} (h : b.Widened c) : ElementPlaced s (.branch b) (.branch c)

theorem elementPlaced_of_widened {s : Rereading} {e : BodyElement} {l m : LayoutElement}
    (h : ElementLowered s e l) (hm : l.Widened m) : ElementPlaced s e m := by
  cases h with
  | label k =>
    cases hm
    exact .label k
  | instruction h hrepeats =>
    cases hm
    exact .instruction h hrepeats
  | branch b =>
    cases hm with
    | branch hm => exact .branch hm

/-- Offsets of the elements that are no labels, and the one behind all elements. -/
def placedBoundaries : Nat → List LayoutElement → List Nat
  | offset, [] => [offset]
  | offset, .label _ :: elements => placedBoundaries offset elements
  | offset, e :: elements => offset :: placedBoundaries (offset + e.width offset) elements

theorem le_of_mem_placedBoundaries {offset : Nat} {elements : List LayoutElement} {o : Nat}
    (h : o ∈ placedBoundaries offset elements) : offset ≤ o := by
  induction elements generalizing offset with
  | nil =>
    rw [List.mem_singleton.1 h]
  | cons e elements ih =>
    cases e with
    | label k => exact ih h
    | instruction i =>
      rcases List.mem_cons.1 h with rfl | h
      · exact Nat.le_refl _
      · exact Nat.le_trans (Nat.le_add_right _ _) (ih h)
    | branch b =>
      rcases List.mem_cons.1 h with rfl | h
      · exact Nat.le_refl _
      · exact Nat.le_trans (Nat.le_add_right _ _) (ih h)

theorem increasing_placedBoundaries (offset : Nat) (elements : List LayoutElement) :
    (placedBoundaries offset elements).Pairwise (· < ·) := by
  induction elements generalizing offset with
  | nil => exact List.pairwise_singleton _ _
  | cons e elements ih =>
    have hcons (hpos : 1 ≤ e.width offset) :
        (offset :: placedBoundaries (offset + e.width offset) elements).Pairwise (· < ·) := by
      refine List.pairwise_cons.2 ⟨fun o ho => ?_, ih _⟩
      have := le_of_mem_placedBoundaries ho
      omega
    cases e with
    | label k => exact ih offset
    | instruction i => exact hcons i.one_le_width
    | branch b => exact hcons (b.aligned offset).one_le_width

theorem exists_placedBoundaries_append (offset : Nat) (elements : List LayoutElement) :
    ∃ front, placedBoundaries offset elements = front ++ [endOffset offset elements] := by
  induction elements generalizing offset with
  | nil => exact ⟨[], rfl⟩
  | cons e elements ih =>
    obtain ⟨front, hfront⟩ := ih (offset + e.width offset)
    cases e with
    | label k => exact ⟨front, hfront⟩
    | instruction i => exact ⟨offset :: front, congrArg (offset :: ·) hfront⟩
    | branch b => exact ⟨offset :: front, congrArg (offset :: ·) hfront⟩

theorem le_endOffset_of_mem {offset : Nat} {elements : List LayoutElement} {o : Nat}
    (h : o ∈ placedBoundaries offset elements) : o ≤ endOffset offset elements := by
  obtain ⟨front, hfront⟩ := exists_placedBoundaries_append offset elements
  have hincreasing := increasing_placedBoundaries offset elements
  rw [hfront] at h hincreasing
  rcases List.mem_append.1 h with h | h
  · exact Nat.le_of_lt
      ((List.pairwise_append.1 hincreasing).2.2 o h _ (List.mem_singleton_self _))
  · exact Nat.le_of_eq (List.mem_singleton.1 h)

theorem placed_labelElement {s : Rereading} {labels : Std.HashMap Nat Label} {o : Nat}
    {es : List BodyElement} {elements : List LayoutElement}
    (h : List.Forall₂ (ElementPlaced s) (labelElement labels o ++ es) elements) :
    ∃ elements', List.Forall₂ (ElementPlaced s) es elements'
      ∧ (∀ offset, placedBoundaries offset elements = placedBoundaries offset elements')
      ∧ (∀ offset, endOffset offset elements = endOffset offset elements')
      ∧ (∀ offset k p, (p, .label k) ∈ placeFrom offset elements
        ↔ (labels[o]? = some k ∧ p = offset) ∨ (p, .label k) ∈ placeFrom offset elements')
      ∧ (∀ offset found decoded, DecodesTo found (placeFrom offset elements) decoded
        → DecodesTo found (placeFrom offset elements') decoded) := by
  unfold labelElement at h
  cases hlabel : labels[o]? with
  | none =>
    rw [hlabel] at h
    refine ⟨elements, h, fun _ => rfl, fun _ => rfl, ?_, fun _ _ _ hd => hd⟩
    intro offset k p
    constructor
    · exact .inr
    · rintro (⟨hk, -⟩ | hmem)
      · cases hk
      · exact hmem
  | some k =>
    rw [hlabel] at h
    change List.Forall₂ (ElementPlaced s) (.label k :: es) elements at h
    obtain ⟨l, elements', hl, htail, rfl⟩ := List.forall₂_cons_left_iff.1 h
    cases hl
    refine ⟨elements', htail, fun _ => rfl, fun _ => rfl, ?_, ?_⟩
    · intro offset k' p
      change _ ∈ (offset, CodeElement.label k) :: placeFrom offset elements' ↔ _
      rw [List.mem_cons]
      constructor
      · rintro (heq | hmem)
        · cases heq
          exact .inl ⟨rfl, rfl⟩
        · exact .inr hmem
      · rintro (⟨hk, rfl⟩ | hmem)
        · cases hk
          exact .inl rfl
        · exact .inr hmem
    · intro offset found decoded hd
      cases hd with
      | label k hd => exact hd

/-- An instruction, and the one that its element was written as. -/
inductive Carried (r : Resolver) (s : Rereading) (labels : Std.HashMap Nat Label)
    (found : LabelOffsets) : Decoded → Nat × Decoded → Prop where
  | instruction {x y : StoredInstruction} {i : SymbolicInstruction} {offset : Nat}
    (h : r.instruction x = .ok i) (hy : s.wellFormed → s.resolver.instruction y = .ok i) :
    Carried r s labels found (.instruction x) (offset, .instruction y)
  | branch {jump jump' : Branch Nat Nat} {b c : SymbolicBranch} {offset : Nat}
    (h : Branch.Rel (fun o k => labels[o]? = some k) (fun o k => labels[o]? = some k) jump b)
    (hwidened : b.Widened c)
    (hjump : Branch.Rel (fun k n => found[k]? = some n) (fun k n => found[k]? = some n)
      (c.aligned offset) jump') :
    Carried r s labels found (.branch jump) (offset, .branch jump')

/-- What is known of elements that a body was placed as, from an offset on. -/
structure BodyPlaced (r : Resolver) (s : Rereading) (labels : Std.HashMap Nat Label)
    (decoded : List (Nat × Decoded)) (codeLength offset : Nat) (elements : List LayoutElement) :
    Prop where
  length : (boundaryOffsets decoded codeLength).length = (placedBoundaries offset elements).length
  labels_iff : ∀ k p, (p, .label k) ∈ placeFrom offset elements
    ↔ ∃ o, (o, p) ∈ (boundaryOffsets decoded codeLength).zip (placedBoundaries offset elements)
      ∧ labels[o]? = some k
  decodes : ∀ found decoded', DecodesTo found (placeFrom offset elements) decoded' →
    List.Forall₂ (fun x y => Carried r s labels found x.2 y
        ∧ (x.1, y.1) ∈ (boundaryOffsets decoded codeLength).zip (placedBoundaries offset elements))
      decoded decoded'
      ∧ boundaryOffsets decoded' (endOffset offset elements) = placedBoundaries offset elements

theorem ne_label_of_placed {r : Resolver} {s : Rereading} {labels : Std.HashMap Nat Label}
    {d : Decoded} {e : BodyElement} {l : LayoutElement} (he : ElementLifted r labels d e)
    (hl : ElementPlaced s e l) (k : Label) : l ≠ .label k := by
  rintro rfl
  cases hl
  cases he

theorem exists_carried {r : Resolver} {s : Rereading} {labels : Std.HashMap Nat Label}
    {found : LabelOffsets} {d : Decoded} {e : BodyElement} {l : LayoutElement} {offset : Nat}
    {placed : List (Nat × LayoutElement)} {decoded' : List (Nat × Decoded)}
    (he : ElementLifted r labels d e) (hl : ElementPlaced s e l)
    (hd : DecodesTo found ((offset, l) :: placed) decoded') :
    ∃ y ys, decoded' = (offset, y) :: ys ∧ Carried r s labels found d (offset, y)
      ∧ DecodesTo found placed ys := by
  cases hd with
  | label k hd => exact absurd rfl (ne_label_of_placed he hl k)
  | instruction y hrest =>
    cases hl with
    | instruction hy =>
      cases he with
      | instruction hx => exact ⟨_, _, rfl, .instruction hx hy, hrest⟩
  | branch hjump hrest =>
    cases hl with
    | branch hwidened =>
      cases he with
      | branch hb => exact ⟨_, _, rfl, .branch hb hwidened hjump, hrest⟩

namespace BodyPlaced

variable {r : Resolver} {s : Rereading} {labels : Std.HashMap Nat Label} {codeLength : Nat}
  {decoded : List (Nat × Decoded)} {elements : List LayoutElement}

theorem nil (hplaced : List.Forall₂ (ElementPlaced s) (labelElement labels codeLength) elements)
    (offset : Nat) : BodyPlaced r s labels [] codeLength offset elements := by
  rw [← List.append_nil (labelElement _ _)] at hplaced
  obtain ⟨elements', hnil, hboundaries, hend, hlabels, hdecodes⟩ := placed_labelElement hplaced
  cases hnil
  constructor
  case length =>
    rw [hboundaries]
    rfl
  case labels_iff =>
    intro k p
    rw [hlabels, hboundaries]
    constructor
    · rintro (⟨hk, rfl⟩ | hmem)
      · exact ⟨codeLength, List.mem_singleton_self _, hk⟩
      · cases hmem
    · rintro ⟨o, hmem, hk⟩
      cases List.mem_singleton.1 hmem
      exact .inl ⟨hk, rfl⟩
  case decodes =>
    intro found decoded' hd
    cases hdecodes _ _ _ hd
    rw [hend, hboundaries]
    exact ⟨.nil, rfl⟩

theorem cons {o : Nat} {d : Decoded} {e : BodyElement} {es : List BodyElement}
    (he : ElementLifted r labels d e)
    (hrest : ∀ elements, List.Forall₂ (ElementPlaced s) es elements →
      ∀ offset, BodyPlaced r s labels decoded codeLength offset elements)
    (hplaced : List.Forall₂ (ElementPlaced s) (labelElement labels o ++ e :: es) elements)
    (offset : Nat) : BodyPlaced r s labels ((o, d) :: decoded) codeLength offset elements := by
  obtain ⟨elements', hplaced, hboundaries, hend, hlabels, hdecodes⟩ := placed_labelElement hplaced
  obtain ⟨l, rest, hl, htail, rfl⟩ := List.forall₂_cons_left_iff.1 hplaced
  have hrest := hrest rest htail (offset + l.width offset)
  have hnolabel := ne_label_of_placed he hl
  have hcons : placedBoundaries offset (l :: rest)
      = offset :: placedBoundaries (offset + l.width offset) rest := by
    cases l with
    | label k => exact absurd rfl (hnolabel k)
    | instruction i => rfl
    | branch b => rfl
  -- the first boundary is moved to where the instruction is placed, the others as in the rest
  have hzip : (boundaryOffsets ((o, d) :: decoded) codeLength).zip
        (offset :: placedBoundaries (offset + l.width offset) rest)
      = (o, offset) :: (boundaryOffsets decoded codeLength).zip
        (placedBoundaries (offset + l.width offset) rest) := rfl
  constructor
  case length =>
    rw [hboundaries, hcons, List.length_cons, ← hrest.length]
    rfl
  case labels_iff =>
    intro k p
    rw [hlabels, hboundaries, hcons, hzip]
    unfold placeFrom
    simp only [List.mem_cons, Prod.mk.injEq, hrest.labels_iff]
    constructor
    · rintro (⟨hk, rfl⟩ | ⟨-, heq⟩ | ⟨o', hmem, hk⟩)
      · exact ⟨o, .inl ⟨rfl, rfl⟩, hk⟩
      · exact absurd heq.symm (hnolabel k)
      · exact ⟨o', .inr hmem, hk⟩
    · rintro ⟨o', ⟨rfl, rfl⟩ | hmem, hk⟩
      · exact .inl ⟨hk, rfl⟩
      · exact .inr (.inr ⟨o', hmem, hk⟩)
  case decodes =>
    intro found decoded' hd
    obtain ⟨y, ys, rfl, hcarried, hd⟩ := exists_carried he hl (hdecodes _ _ _ hd)
    obtain ⟨hys, hbounds⟩ := hrest.decodes _ _ hd
    rw [hend, hboundaries, hcons, hzip]
    refine ⟨.cons ⟨hcarried, List.mem_cons_self⟩ (hys.imp fun x y hxy => ?_), ?_⟩
    · exact ⟨hxy.1, List.mem_cons_of_mem _ hxy.2⟩
    · unfold endOffset
      rw [← hbounds]
      rfl

section Pairs

variable {r : Resolver} {s : Rereading} {labels : Std.HashMap Nat Label} {codeLength offset : Nat}
  {decoded : List (Nat × Decoded)} {elements : List LayoutElement}

theorem map_fst_zip (h : BodyPlaced r s labels decoded codeLength offset elements) :
    ((boundaryOffsets decoded codeLength).zip (placedBoundaries offset elements)).map (·.1)
      = boundaryOffsets decoded codeLength :=
  List.map_fst_zip (Nat.le_of_eq h.length)

theorem map_snd_zip (h : BodyPlaced r s labels decoded codeLength offset elements) :
    ((boundaryOffsets decoded codeLength).zip (placedBoundaries offset elements)).map (·.2)
      = placedBoundaries offset elements :=
  List.map_snd_zip (Nat.le_of_eq h.length.symm)

theorem moves (h : BodyPlaced r s labels decoded codeLength offset elements)
    (hincreasing : (boundaryOffsets decoded codeLength).Pairwise (· < ·)) :
    Moves ((boundaryOffsets decoded codeLength).zip (placedBoundaries offset elements)) where
  left := by
    rw [h.map_fst_zip]
    exact hincreasing
  right := by
    rw [h.map_snd_zip]
    exact increasing_placedBoundaries offset elements

theorem stop_mem (h : BodyPlaced r s labels decoded codeLength offset elements) :
    (codeLength, endOffset offset elements)
      ∈ (boundaryOffsets decoded codeLength).zip (placedBoundaries offset elements) := by
  obtain ⟨front, hfront⟩ := exists_placedBoundaries_append offset elements
  have hlength := h.length
  rw [hfront, boundaryOffsets, List.length_append, List.length_append] at hlength
  rw [hfront, boundaryOffsets, List.zip_append (Nat.add_right_cancel hlength)]
  exact List.mem_append_right _ (List.mem_singleton_self _)

end Pairs

end BodyPlaced

theorem bodyPlaced {r : Resolver} {s : Rereading} {labels : Std.HashMap Nat Label}
    {codeLength : Nat} {decoded : List (Nat × Decoded)} {body : List (List BodyElement)}
    (hbody : List.Forall₂ (fun x es => r.bodyElement labels x.1 x.2 = .ok es) decoded body)
    {elements : List LayoutElement}
    (hplaced : List.Forall₂ (ElementPlaced s) (body.flatten ++ labelElement labels codeLength)
      elements)
    (offset : Nat) : BodyPlaced r s labels decoded codeLength offset elements := by
  induction hbody generalizing offset elements with
  | nil => exact .nil hplaced offset
  | @cons x es decoded body hhead _ ih =>
    obtain ⟨e, he, rfl⟩ := elementLifted_of_bodyElement hhead
    simp only [List.flatten_cons, List.append_assoc] at hplaced
    exact .cons he (fun _ hrest offset => ih hrest offset) hplaced offset

end ClassPatch
