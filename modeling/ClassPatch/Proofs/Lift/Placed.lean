import ClassPatch.Proofs.Lift.Reread
import Mathlib.Data.List.Nodup

/-!
Lifted code can be lowered and read back, whatever class file it was lifted from: each label that
something refers to stands at one place, and branches and frames at instructions.
-/

namespace ClassPatch

section Body

variable {r : Resolver} {labels : Std.HashMap Nat Label} {decoded : List (Nat × Decoded)}
  {body : List (List BodyElement)} {k : Label} {o codeLength : Nat}

theorem count_labelElement (labels : Std.HashMap Nat Label) (o : Nat) (k : Label) :
    (labelElement labels o).count (.label k) = if labels[o]? = some k then 1 else 0 := by
  unfold labelElement
  cases hlabel : labels[o]? with
  | none => rfl
  | some j =>
    rw [Option.map_some, Option.toList_some, List.count_singleton]
    simp only [beq_iff_eq, CodeElement.label.injEq, Option.some.injEq]

theorem ElementLifted.takesBytes {d : Decoded} {e : BodyElement} (h : ElementLifted r labels d e) :
    e.takesBytes = true := by
  cases h <;> rfl

theorem count_label_of_lifted
    (h : List.Forall₂ (fun d es => r.bodyElement labels d.1 d.2 = .ok es) decoded body) :
    (body.flatten ++ labelElement labels codeLength).count (.label k)
      = (boundaryOffsets decoded codeLength).countP fun o => labels[o]? = some k := by
  induction h with
  | nil =>
    rw [List.flatten_nil, List.nil_append, count_labelElement]
    simp [boundaryOffsets]
  | @cons d es decoded body hhead _ ih =>
    obtain ⟨e, he, rfl⟩ := elementLifted_of_bodyElement hhead
    have hne : e ≠ .label k := by
      rintro rfl
      exact absurd he.takesBytes Bool.false_ne_true
    have hoffsets : boundaryOffsets (d :: decoded) codeLength
        = d.1 :: boundaryOffsets decoded codeLength := rfl
    rw [List.flatten_cons, List.append_assoc, List.append_assoc, List.count_append,
      count_labelElement, List.singleton_append, List.count_cons_of_ne hne, ih, hoffsets,
      List.countP_cons]
    simp only [decide_eq_true_eq]
    exact Nat.add_comm _ _

theorem size_of_lifted
    (h : List.Forall₂ (fun d es => r.bodyElement labels d.1 d.2 = .ok es) decoded body) :
    (body.flatten ++ labelElement labels codeLength).countP CodeElement.takesBytes
      = decoded.length := by
  have hlabels (o : Nat) : (labelElement labels o).countP CodeElement.takesBytes = 0 := by
    rw [List.countP_eq_length_filter, takesBytes_labelElement, List.length_nil]
  induction h with
  | nil => exact hlabels codeLength
  | cons hhead _ ih =>
    obtain ⟨e, he, rfl⟩ := elementLifted_of_bodyElement hhead
    rw [List.flatten_cons, List.append_assoc, List.append_assoc, List.countP_append, hlabels,
      List.singleton_append, List.countP_cons, if_pos he.takesBytes, ih, List.length_cons,
      Nat.zero_add]

theorem placeIn_of_lifted
    (h : List.Forall₂ (fun d es => r.bodyElement labels d.1 d.2 = .ok es) decoded body)
    (hlabel : labels[o]? = some k) (hunique : ∀ o', labels[o']? = some k → o' = o)
    (ho : o ∈ boundaryOffsets decoded codeLength) :
    Code.placeIn (body.flatten ++ labelElement labels codeLength) k
      = (boundaryOffsets decoded codeLength).idxOf o := by
  have hhere : labelElement labels o = [.label k] := by
    unfold labelElement
    rw [hlabel]
    rfl
  have hfirst (es : List BodyElement) : Code.placeIn (labelElement labels o ++ es) k = 0 := by
    unfold Code.placeIn
    rw [hhere, List.singleton_append, List.takeWhile_cons_of_neg (by simp), List.countP_nil]
  -- the offset stays a boundary of what is left until its label comes
  induction h with
  | nil =>
    obtain rfl := List.mem_singleton.1 ho
    have hplace := hfirst []
    rw [List.append_nil] at hplace
    rw [List.flatten_nil, List.nil_append, hplace]
    exact List.idxOf_cons_self.symm
  | @cons d es decoded body hhead _ ih =>
    obtain ⟨e, he, rfl⟩ := elementLifted_of_bodyElement hhead
    have hoffsets : boundaryOffsets (d :: decoded) codeLength
        = d.1 :: boundaryOffsets decoded codeLength := rfl
    rw [List.flatten_cons, List.append_assoc, List.append_assoc, hoffsets]
    by_cases heq : d.1 = o
    · rw [heq, hfirst, List.idxOf_cons_self]
    · have hnone : ∀ e' ∈ labelElement labels d.1 ++ [e], decide (e' ≠ .label k) = true := by
        intro e' he'
        refine decide_eq_true ?_
        rintro rfl
        rcases List.mem_append.1 he' with hmem | hmem
        · unfold labelElement at hmem
          obtain ⟨j, hj, hjk⟩ := Option.map_eq_some_iff.1 (Option.mem_toList.1 hmem)
          cases hjk
          exact heq (hunique _ hj)
        · rw [← List.mem_singleton.1 hmem] at he
          exact absurd he.takesBytes Bool.false_ne_true
      rw [hoffsets, List.mem_cons] at ho
      have hplace := ih (ho.resolve_left fun h => heq h.symm)
      have hlabels : (labelElement labels d.1).countP CodeElement.takesBytes = 0 := by
        rw [List.countP_eq_length_filter, takesBytes_labelElement, List.length_nil]
      unfold Code.placeIn at hplace ⊢
      rw [← List.append_assoc, List.takeWhile_append_of_pos hnone, List.countP_append, hplace,
        List.countP_append, hlabels, List.countP_singleton, if_pos he.takesBytes,
        List.idxOf_cons_ne _ heq]
      omega

end Body

namespace CodeLifted

variable {r : Resolver} {context : MethodContext} {x : Stored.Code} {p : CodeParts} {c : Code}
  {k : Label} {o : Nat}

theorem mem_boundaryOffsets (h : CodeLifted r context x p c) (ho : p.labels[o]? = some k) :
    o ∈ boundaryOffsets p.decoded p.codeLength :=
  List.mem_of_mem_filter (List.mem_of_getElem? ((h.labels_iff o k).1 ho))

theorem place_eq (h : CodeLifted r context x p c) (ho : p.labels[o]? = some k) :
    c.place k = (boundaryOffsets p.decoded p.codeLength).idxOf o := by
  obtain ⟨body, hbody, helements⟩ := h.elements
  unfold Code.place
  rw [helements]
  exact placeIn_of_lifted (mapM_eq_ok.1 hbody) ho (fun o' ho' => h.injective o' o k ho' ho)
    (h.mem_boundaryOffsets ho)

theorem size_eq (h : CodeLifted r context x p c) : c.size = p.decoded.length := by
  obtain ⟨body, hbody, helements⟩ := h.elements
  unfold Code.size
  rw [helements]
  exact size_of_lifted (mapM_eq_ok.1 hbody)

theorem count_label (h : CodeLifted r context x p c) (ho : p.labels[o]? = some k) :
    c.elements.count (.label k) = 1 := by
  obtain ⟨body, hbody, helements⟩ := h.elements
  rw [helements, count_label_of_lifted (mapM_eq_ok.1 hbody)]
  have hnodup : (boundaryOffsets p.decoded p.codeLength).Nodup :=
    h.decodedFrom.increasing.imp Nat.ne_of_lt
  rw [← List.count_eq_one_of_mem hnodup (h.mem_boundaryOffsets ho), List.count]
  refine List.countP_congr fun o' _ => ?_
  rw [decide_eq_true_eq, beq_iff_eq]
  constructor
  · exact fun ho' => h.injective o' o k ho' ho
  · rintro rfl
    exact ho

theorem place_lt (h : CodeLifted r context x p c) (ho : p.labels[o]? = some k)
    (hlt : o < p.codeLength) : c.place k < c.size := by
  have hmem := h.mem_boundaryOffsets ho
  have hfront : o ∈ p.decoded.map (·.1) := by
    rcases List.mem_append.1 hmem with hmem | hmem
    · exact hmem
    · exact absurd (List.mem_singleton.1 hmem) (Nat.ne_of_lt hlt)
  rw [h.place_eq ho, h.size_eq, boundaryOffsets, List.idxOf_append_of_mem hfront]
  have hindex := List.idxOf_lt_length_of_mem hfront
  rwa [List.length_map] at hindex

theorem place_lt_place (h : CodeLifted r context x p c) {o' : Nat} {k' : Label}
    (ho : p.labels[o]? = some k) (ho' : p.labels[o']? = some k') (hlt : o < o') :
    c.place k < c.place k' := by
  rw [h.place_eq ho, h.place_eq ho']
  have hget := List.getElem?_idxOf (h.mem_boundaryOffsets ho)
  have hget' := List.getElem?_idxOf (h.mem_boundaryOffsets ho')
  rcases Nat.lt_trichotomy ((boundaryOffsets p.decoded p.codeLength).idxOf o)
    ((boundaryOffsets p.decoded p.codeLength).idxOf o') with hlt' | heq | hgt
  · exact hlt'
  · rw [heq, hget'] at hget
    cases hget
    exact absurd hlt (Nat.lt_irrefl _)
  · exact absurd hlt (Nat.lt_asymm (lt_of_getElem? h.decodedFrom.increasing hgt hget' hget))

/-- Labels that stand at boundaries. -/
def Labelled (labels : Std.HashMap Nat Label) (ks : List Label) : Prop :=
  ∀ k ∈ ks, ∃ o : Nat, labels[o]? = some k

theorem labelled_exceptionHandler {labels : Std.HashMap Nat Label} {x : Stored.ExceptionHandler}
    {handler : ExceptionHandler} (h : r.exceptionHandler labels x = .ok handler) :
    Labelled labels handler.references := by
  unfold Resolver.exceptionHandler at h
  obtain ⟨start, hstart, h⟩ := bind_eq_ok.1 h
  obtain ⟨stop, hstop, h⟩ := bind_eq_ok.1 h
  obtain ⟨target, htarget, h⟩ := bind_eq_ok.1 h
  obtain ⟨catchType, -, h⟩ := bind_eq_ok.1 h
  obtain rfl := pure_eq_ok.1 h
  refine List.forall_mem_cons.2 ⟨⟨_, labelAt_eq_ok.1 hstart⟩, ?_⟩
  refine List.forall_mem_cons.2 ⟨⟨_, labelAt_eq_ok.1 hstop⟩, ?_⟩
  exact List.forall_mem_singleton.2 ⟨_, labelAt_eq_ok.1 htarget⟩

theorem labelled_localVariable {labels : Std.HashMap Nat Label} {x : Stored.LocalVariable}
    {v : LocalVariable} (h : r.localVariable labels x = .ok v) : Labelled labels v.references := by
  unfold Resolver.localVariable at h
  obtain ⟨start, hstart, h⟩ := bind_eq_ok.1 h
  obtain ⟨stop, hstop, h⟩ := bind_eq_ok.1 h
  obtain ⟨name, -, h⟩ := bind_eq_ok.1 h
  obtain ⟨descriptor, -, h⟩ := bind_eq_ok.1 h
  obtain rfl := pure_eq_ok.1 h
  refine List.forall_mem_cons.2 ⟨⟨_, labelAt_eq_ok.1 hstart⟩, ?_⟩
  exact List.forall_mem_singleton.2 ⟨_, labelAt_eq_ok.1 hstop⟩

theorem labelled_lineNumber {labels : Std.HashMap Nat Label} {x : Stored.LineNumber}
    {l : LineNumber} (h : Resolver.lineNumber labels x = .ok l) :
    Labelled labels [l.start] := by
  unfold Resolver.lineNumber at h
  obtain ⟨start, hstart, h⟩ := bind_eq_ok.1 h
  obtain rfl := pure_eq_ok.1 h
  exact List.forall_mem_singleton.2 ⟨_, labelAt_eq_ok.1 hstart⟩

theorem exists_of_mem_frames (h : CodeLifted r context x p c) {f : Label × BodyFrame}
    (hf : f ∈ c.frames) : Labelled p.labels (f.1 :: f.2.sites)
      ∧ ∃ o, p.labels[o]? = some f.1 ∧ o < p.codeLength := by
  obtain ⟨g, hg, hlifted⟩ := exists_of_mem_mapM h.bodyFrames hf
  obtain ⟨hlabel, hframe, hsites⟩ := frameLabelled_of_liftFrame hlifted
  refine ⟨List.forall_mem_cons.2 ⟨⟨_, hlabel⟩, ?_⟩, _, hlabel, (h.framesLifted.standsIn g hg).lt⟩
  rw [hframe, Frame.sites_mapSites]
  exact List.forall_mem_map.2 fun u hu => ⟨_, hsites u hu⟩

theorem labelled (h : CodeLifted r context x p c) : Labelled p.labels c.references := by
  intro k hk
  unfold Code.references at hk
  simp only [List.mem_append, List.mem_flatMap, List.mem_map] at hk
  rcases hk with ((⟨e, he, hk⟩ | ⟨handler, hhandler, hk⟩) | ⟨l, hl, rfl⟩ | ⟨v, hv, hk⟩)
    | ⟨f, hf, hk⟩
  · cases e with
    | branch b =>
      obtain ⟨o, ho, -⟩ := (h.branch_fits he).1 k hk
      exact ⟨o, ho⟩
    | label | instruction => cases hk
  · obtain ⟨y, -, hlifted⟩ := exists_of_mem_mapM h.exceptionHandlers hhandler
    exact labelled_exceptionHandler hlifted k hk
  · obtain ⟨y, -, hlifted⟩ := exists_of_mem_mapM h.lineNumbers hl
    exact labelled_lineNumber hlifted _ (List.mem_singleton_self _)
  · rcases hv with hv | hv
    · obtain ⟨y, -, hlifted⟩ := exists_of_mem_mapM h.localVariables hv
      exact labelled_localVariable hlifted k hk
    · obtain ⟨y, -, hlifted⟩ := exists_of_mem_mapM h.localVariableTypes hv
      exact labelled_localVariable hlifted k hk
  · exact (h.exists_of_mem_frames hf).1 k hk

theorem placed (h : CodeLifted r context x p c) : c.Placed where
  once := by
    intro k hk
    obtain ⟨o, ho⟩ := h.labelled k hk
    exact h.count_label ho
  targets := by
    intro e he k hk
    cases e with
    | branch b =>
      obtain ⟨o, ho, hlt⟩ := (h.branch_fits he).1 k hk
      exact h.place_lt ho hlt
    | label | instruction => cases hk
  frames := by
    intro f hf
    obtain ⟨-, o, ho, hlt⟩ := h.exists_of_mem_frames hf
    exact h.place_lt ho hlt

theorem pairwise_place_frames (h : CodeLifted r context x p c) :
    c.frames.Pairwise fun f g => c.place f.1 < c.place g.1 := by
  refine pairwise_of_forall₂ ?_ (mapM_eq_ok.1 h.bodyFrames) h.framesLifted.increasing
  intro f g f' g' hf hg hlt
  exact h.place_lt_place (frameLabelled_of_liftFrame hf).label
    (frameLabelled_of_liftFrame hg).label hlt

theorem sortedFrames_eq (h : CodeLifted r context x p c) : c.sortedFrames = c.frames :=
  List.mergeSort_of_pairwise
    (h.pairwise_place_frames.imp fun hlt => decide_eq_true (Nat.le_of_lt hlt))

theorem framesFit (h : CodeLifted r context x p c) : c.FramesFit context := by
  obtain ⟨-, hcount, hfits⟩ := storable_of_tables h.tables
  constructor
  case count =>
    rw [length_of_mapM h.bodyFrames, h.framesLifted.length_eq]
    exact hcount
  case changes =>
    have hframes : c.frames.map (·.2) = p.frames.map (·.2.mapSites (siteLabel p.labels)) :=
      map_eq_map_of_forall₂
        ((mapM_eq_ok.1 h.bodyFrames).flip.imp fun g f hg =>
          (frameLabelled_of_liftFrame hg).frame)
    rw [h.sortedFrames_eq, hframes, ← MethodContext.mapSites_initialFrame context]
    exact h.framesLifted.compressFits hfits (siteLabel p.labels)

theorem rereadable (h : CodeLifted r context x p c) (hfit : c.TablesFit) :
    c.Rereadable context where
  placed := h.placed
  jumps := fun _ hb => (h.branch_fits hb).2.tableFits
  tables := hfit
  frames := h.framesFit
  attributes := by
    rw [h.attributes]
    exact (storable_of_tables h.tables).1

end CodeLifted

end ClassPatch
