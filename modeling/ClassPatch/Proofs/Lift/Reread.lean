import ClassPatch.Proofs.Lift.Places

/-!
Code that was lowered, and is lifted from what it was lowered to.
-/

namespace ClassPatch

theorem Branch.Widened.relabel {L M : Type} {b c : Branch L L} (h : b.Widened c) (f : L → M) :
    (b.relabel f).Widened (c.relabel f) := by
  cases h with
  | same => exact .same _
  | goto target => exact .goto (f target)
  | jsr target => exact .jsr (f target)

theorem rewritten_labelFor (c : Code) (place : Nat) :
    List.Forall₂ BodyElement.Rewritten (c.labelFor place) (c.labelFor place) := by
  unfold Code.labelFor
  split
  · exact .cons (.label _) .nil
  · exact .nil

theorem mapM_eq_map_of_forall₂ {α β γ ε : Type} {R : α → β → Prop} {f : β → Except ε γ} {g : α → γ}
    {as : List α} {bs : List β} (h : List.Forall₂ R as bs)
    (hback : ∀ a ∈ as, ∀ b, R a b → f b = .ok (g a)) : bs.mapM f = .ok (as.map g) :=
  mapM_eq_ok.2 (List.forall₂_map_right_iff.2
    (forall₂_imp_of_mem h fun a ha b _ hab => hback a ha b hab).flip)

variable {s : Rereading} {c : Code} {found : LabelOffsets}

section Elements

variable {es : List BodyElement} {widened : List LayoutElement} {decoded : List (Nat × Decoded)}
  {offset : Nat}

theorem exists_branch_of_widened (r : Resolver) {labels : Std.HashMap Nat Label} {f : Label → Label}
    {b b' : SymbolicBranch} (hw : b.Widened b') {jump : Branch Nat Nat}
    (hjump : Branch.Rel (fun k n => found[k]? = some n) (fun k n => found[k]? = some n)
      (b'.aligned offset) jump)
    (hlifted : ∀ k ∈ b.targets, ∀ n, found[k]? = some n → labels[n]? = some (f k)) :
    ∃ b₂, (b.relabel f).Rewritten b₂ ∧ ElementLifted r labels (.branch jump) (.branch b₂) := by
  have hback {k : Label} (hk : k ∈ (b'.aligned offset).targets) (n : Nat)
      (hn : found[k]? = some n) : labels[n]? = some (f k) := by
    rw [Branch.targets_aligned, hw.targets_eq] at hk
    exact hlifted k hk n hn
  have hrel : Branch.Rel (fun k n => labels[n]? = some k) (fun k n => labels[n]? = some k)
      ((b'.aligned offset).relabel f) jump :=
    (hjump.imp (fun k hk n hn => hback hk n hn) fun k hk n hn => hback hk n hn).relabel
  refine ⟨(b'.aligned offset).relabel f, ?_, .branch hrel.flip⟩
  rw [Branch.aligned_relabel]
  exact Branch.rewritten_aligned (hw.relabel f) offset

theorem exists_body_relabelFrom {labels : Std.HashMap Nat Label} (hwf : s.wellFormed) {place : Nat}
    (hplaced : List.Forall₂ (ElementPlaced s) es widened)
    (hto : DecodesTo found (placeFrom offset widened) decoded)
    (hlifted : ∀ e ∈ es, ∀ k ∈ e.references, ∀ n, found[k]? = some n →
      labels[n]? = some (c.renumber k))
    (hlabels : ∀ i o, (placedBoundaries offset widened)[i]? = some o →
      labelElement labels o = c.labelFor (place + i)) :
    ∃ body, decoded.mapM (fun d => s.resolver.bodyElement labels d.1 d.2) = .ok body
      ∧ List.Forall₂ BodyElement.Rewritten (c.relabelFrom place es)
        (body.flatten ++ labelElement labels (endOffset offset widened)) := by
  have hfirst := hlabels 0 offset (getElem?_zero_placedBoundaries offset widened)
  -- the labels of a place stand before its instruction, and those of the last one at the end
  induction hplaced generalizing offset place decoded with
  | nil =>
    cases hto
    refine ⟨[], rfl, ?_⟩
    change List.Forall₂ _ (c.labelFor place) (labelElement labels offset)
    rw [hfirst]
    exact rewritten_labelFor c place
  | @cons e l es widened hhead htail ih =>
    rw [List.forall_mem_cons] at hlifted
    unfold placeFrom at hto
    -- an instruction stands behind the label for its place, and the next one at the next place
    have hstep {d : Decoded} {ds : List (Nat × Decoded)} {e' : BodyElement}
        (hl : l.takesBytes = true) (hrewritten : (e.relabel c.renumber).Rewritten e')
        (hd : ElementLifted s.resolver labels d e')
        (hto : DecodesTo found (placeFrom (offset + l.width offset) widened) ds) :
        ∃ body, ((offset, d) :: ds).mapM (fun d => s.resolver.bodyElement labels d.1 d.2)
            = .ok body
          ∧ List.Forall₂ BodyElement.Rewritten
            (c.labelFor place ++ e.relabel c.renumber :: c.relabelFrom (place + 1) es)
            (body.flatten ++ labelElement labels (endOffset offset (l :: widened))) := by
      have hlabels' : ∀ i o, (placedBoundaries (offset + l.width offset) widened)[i]? = some o →
          labelElement labels o = c.labelFor (place + 1 + i) := by
        intro i o ho
        rw [Nat.add_assoc, Nat.add_comm 1 i]
        refine hlabels (i + 1) o ?_
        rw [placedBoundaries_of_takesBytes hl, List.getElem?_cons_succ, ho]
      obtain ⟨body, hbody, hrest⟩ := ih hto hlifted.2 hlabels'
        (hlabels' 0 _ (getElem?_zero_placedBoundaries _ _))
      refine ⟨(labelElement labels offset ++ [e']) :: body, ?_, ?_⟩
      · exact mapM_eq_ok.2 (.cons (bodyElement_of_elementLifted hd offset) (mapM_eq_ok.1 hbody))
      · rw [List.flatten_cons, List.append_assoc, List.append_assoc, hfirst]
        exact List.rel_append (rewritten_labelFor c place) (.cons hrewritten hrest)
    cases hhead with
    | label k =>
      cases hto with
      | label k hto => exact ih hto hlifted.2 hlabels hfirst
    | instruction hx hrepeats =>
      cases hto with
      | instruction x hto => exact hstep rfl (.instruction _) (.instruction (hx hwf)) hto
    | @branch b b' hw =>
      cases hto with
      | @branch _ _ jump _ _ hjump hto =>
        obtain ⟨b₂, hrewritten, hd⟩ := exists_branch_of_widened s.resolver hw hjump hlifted.1
        exact hstep rfl (.branch hrewritten) hd hto

theorem exists_checkedTargets {b : Boundaries} (hplaced : List.Forall₂ (ElementPlaced s) es widened)
    (hto : DecodesTo found (placeFrom offset widened) decoded)
    (hfound : ∀ k ∈ es.flatMap (·.references), found[k]? = some (found.position k).toNat
      ∧ b.contains (found.position k).toNat = true) :
    ∃ targets, decoded.mapM (fun d => d.2.checkedTargets b d.1) = .ok targets
      ∧ targets.flatten = (es.flatMap (·.references)).map fun k => (found.position k).toNat := by
  induction hplaced generalizing offset decoded with
  | nil =>
    cases hto
    exact ⟨[], rfl, rfl⟩
  | @cons e l es widened hhead htail ih =>
    rw [List.flatMap_cons, List.forall_mem_append] at hfound
    unfold placeFrom at hto
    cases hhead with
    | label k =>
      cases hto with
      | label k hto => exact ih hto hfound.2
    | instruction hx hrepeats =>
      cases hto with
      | instruction x hto =>
        obtain ⟨targets, htargets, hflatten⟩ := ih hto hfound.2
        exact ⟨[] :: targets, mapM_eq_ok.2 (.cons rfl (mapM_eq_ok.1 htargets)), hflatten⟩
    | @branch b' b'' hw =>
      cases hto with
      | @branch _ _ jump _ _ hjump hto =>
        obtain ⟨targets, htargets, hflatten⟩ := ih hto hfound.2
        have hjumps : jump.targets = b'.targets.map fun k => (found.position k).toNat := by
          have hrel := hjump.targets
          rw [Branch.targets_aligned, hw.targets_eq] at hrel
          have heq : List.Forall₂ (· = ·) (b'.targets.map fun k => (found.position k).toNat)
              jump.targets := by
            refine List.forall₂_map_left_iff.2 (forall₂_imp_of_mem hrel fun k hk n _ hn => ?_)
            exact Option.some.inj ((hfound.1 k hk).1.symm.trans hn)
          rw [List.forall₂_eq_eq_eq] at heq
          exact heq.symm
        refine ⟨jump.targets :: targets, mapM_eq_ok.2 (.cons ?_ (mapM_eq_ok.1 htargets)), ?_⟩
        · refine PlacedFrame.mapM_check offset fun t ht => ?_
          rw [hjumps] at ht
          obtain ⟨k, hk, rfl⟩ := List.mem_map.1 ht
          exact (hfound.1 k hk).2
        · rw [List.flatten_cons, hjumps, hflatten, List.flatMap_cons, List.map_append]
          rfl

end Elements

section Tables

variable {b : Boundaries} {codeLength : Nat}

theorem offsets_of_handlerLowered {r : Resolver} {h : ExceptionHandler}
    {x : Stored.ExceptionHandler} (hx : HandlerLowered r found h x)
    (hcontains : ∀ k ∈ h.references, b.contains (found.position k).toNat = true) :
    x.offsets b = .ok (h.references.map fun k => (found.position k).toNat) := by
  unfold ExceptionHandler.references at hcontains ⊢
  have hcheck {k : Label} (hk : k ∈ [h.start, h.stop, h.handler]) (source : Nat) :
      b.check source (found.position k).toNat = .ok (found.position k).toNat :=
    Boundaries.check_eq_ok.2 ⟨hcontains k hk, rfl⟩
  unfold Stored.ExceptionHandler.offsets
  simp only [hx.start.eq_position, hx.stop.eq_position, hx.handler.eq_position]
  rw [hcheck (by simp), ok_bind, hcheck (by simp), ok_bind, hcheck (by simp)]
  rfl

theorem offsets_of_variableLowered {r : Resolver} {v : LocalVariable} {x : Stored.LocalVariable}
    (hx : VariableLowered r found v x) :
    [x.startPc.toNat, x.endPc] = v.references.map fun k => (found.position k).toNat := by
  obtain ⟨stop, hstop, hle, hlength⟩ := hx.stop
  rw [Relaid.endPc_eq hle hlength, hstop.eq_position, hx.start.eq_position]
  rfl

theorem tables_of_placesLaid {r : Resolver} {context : MethodContext} {t : Stored.CodeTables}
    (ht : TablesLowered r found context c t)
    (hcontains : ∀ k ∈ c.references, b.contains (found.position k).toNat = true) :
    t.dropMisplaced b = t
      ∧ t.offsets = (c.lineNumbers.map (·.start)
        ++ (c.localVariables ++ c.localVariableTypes).flatMap (·.references)).map
          fun k => (found.position k).toNat := by
  have hvariables : List.Forall₂ (VariableLowered r found)
      (c.localVariables ++ c.localVariableTypes) (t.localVariables ++ t.localVariableTypes) :=
    List.rel_append ht.localVariables ht.localVariableTypes
  have hplaced {x : Stored.LocalVariable} (hx : x ∈ t.localVariables ++ t.localVariableTypes) :
      (b.contains x.startPc.toNat && b.contains x.endPc) = true := by
    obtain ⟨v, hv, hlowered⟩ := exists_of_mem_right hvariables hx
    have hoffsets := offsets_of_variableLowered hlowered
    have hmem {o : Nat} (ho : o ∈ [x.startPc.toNat, x.endPc]) : b.contains o = true := by
      rw [hoffsets] at ho
      obtain ⟨k, hk, rfl⟩ := List.mem_map.1 ho
      exact hcontains k (Code.mem_references_of_variable hv hk)
    rw [hmem (by simp), hmem (by simp)]
    rfl
  have hlines {x : Stored.LineNumber} (hx : x ∈ t.lineNumbers) :
      b.contains x.startPc.toNat = true := by
    obtain ⟨l, hl, hlowered⟩ := exists_of_mem_right ht.lineNumbers hx
    rw [hlowered.start.eq_position]
    exact hcontains _ (Code.mem_references_of_lineNumber hl)
  constructor
  · have hlinesKept := List.filter_eq_self.2 fun x hx => hlines hx
    have hlocalsKept := List.filter_eq_self.2 fun x hx => hplaced (List.mem_append_left _ hx)
    have htypesKept := List.filter_eq_self.2 fun x hx => hplaced (List.mem_append_right _ hx)
    unfold Stored.CodeTables.dropMisplaced
    simp only [hlinesKept, hlocalsKept, htypesKept]
  · have hstarts : t.lineNumbers.map (·.startPc.toNat)
        = (c.lineNumbers.map (·.start)).map fun k => (found.position k).toNat := by
      rw [List.map_map]
      exact map_eq_map_of_forall₂ (ht.lineNumbers.flip.imp fun x l hx =>
        congrArg UInt16.toNat hx.start.eq_position)
    have hranges : (t.localVariables ++ t.localVariableTypes).map (fun x =>
          [x.startPc.toNat, x.endPc])
        = (c.localVariables ++ c.localVariableTypes).map fun v =>
          v.references.map fun k => (found.position k).toNat :=
      map_eq_map_of_forall₂ (hvariables.flip.imp fun x v hx => offsets_of_variableLowered hx)
    unfold Stored.CodeTables.offsets
    rw [hstarts, List.flatMap_def, hranges, ← List.flatMap_def, ← List.map_flatMap,
      ← List.map_append]

end Tables

section Frames

theorem compressFits_of_length {C S : Type} [DecidableEq C] [DecidableEq S]
    {frames : List (Frame C S)} (before : Frame C S)
    (h : ∀ f ∈ frames, f.locals.length ≤ 0xFFFF ∧ f.stack.length ≤ 0xFFFF) :
    CompressFits before frames := by
  induction frames generalizing before with
  | nil => exact True.intro
  | cons f frames ih =>
    rw [List.forall_mem_cons] at h
    exact ⟨Frame.fits_compress_of_length before h.1.1 h.1.2, ih f h.2⟩

/-- The frames can be stored, each as the change from the one before it. -/
structure Code.FramesFit (context : MethodContext) (c : Code) : Prop where
  count : c.frames.length ≤ 0xFFFF
  changes : CompressFits context.initialFrame (c.sortedFrames.map (·.2))

/-- The code can be read back from what it is lowered to in a method, but for its constants. -/
structure Code.Rereadable (context : MethodContext) (c : Code) : Prop where
  placed : c.Placed
  jumps : c.JumpTablesFit
  tables : c.TablesFit
  frames : c.FramesFit context
  attributes : ∀ v ∈ c.attributes, v.name ∉ Resolver.codeAttributes

theorem Code.Readable.rereadable (h : c.Readable) (hc : c.Placed) (context : MethodContext) :
    c.Rereadable context where
  placed := hc
  jumps := fun b hb => (h.ranges b hb).tableFits
  tables := h.tables
  frames := by
    refine ⟨h.frames, compressFits_of_length _ (List.forall_mem_map.2 fun f hf => ?_)⟩
    exact h.frameTypes f (c.perm_sortedFrames.mem_iff.1 hf)
  attributes := h.attributes

variable {b : Boundaries} {codeLength : Nat} {context : MethodContext}
  {entries : List Stored.FrameEntry}

/-- Frames at the offsets of their labels, in the order of their places. -/
def Code.framesAt (c : Code) (found : LabelOffsets) : List (UInt16 × BodyFrame) :=
  c.sortedFrames.map fun f => (found.position f.1, f.2)

namespace PlacesLaid

theorem framesLowered (h : PlacesLaid c found b codeLength) {r : Resolver}
    (hentries : FrameTableLowered r found context c.frames entries) :
    FramesLowered r found none context.initialFrame (c.framesAt found) entries := by
  obtain ⟨placed, hplaced, hlowered⟩ := hentries.entries
  have heq : List.Forall₂ (· = ·) (c.frames.map fun f => (found.position f.1, f.2)) placed := by
    refine List.forall₂_map_left_iff.2 (hplaced.imp fun f p hp => ?_)
    rw [← hp.1.eq_position, ← hp.2]
  rw [List.forall₂_eq_eq_eq] at heq
  have hsorted : c.framesAt found = placed.mergeSort fun f g => f.1 ≤ g.1 := by
    rw [← heq]
    refine List.map_mergeSort fun f hf g hg => ?_
    have hle := h.position_le_iff (Code.mem_references_of_frame hf List.mem_cons_self)
      (Code.mem_references_of_frame hg List.mem_cons_self)
    exact decide_eq_decide.2 hle.symm
  rwa [hsorted]

theorem increasing_framesAt (h : PlacesLaid c found b codeLength)
    (hapart : FramesApart found c.frames) :
    (c.framesAt found).Pairwise fun f g => f.1 < g.1 := by
  have hne : FramesApart found c.sortedFrames :=
    (c.perm_sortedFrames.pairwise_iff fun hfg => Ne.symm hfg).2 hapart
  have hsorted : c.sortedFrames.Pairwise fun f g => c.place f.1 ≤ c.place g.1 := by
    refine (List.pairwise_mergeSort ?_ ?_ _).imp fun h => of_decide_eq_true h
    · intro f g k hfg hgk
      exact decide_eq_true (Nat.le_trans (of_decide_eq_true hfg) (of_decide_eq_true hgk))
    · intro f g
      simp only [Bool.or_eq_true, decide_eq_true_eq]
      exact Nat.le_total _ _
  refine List.pairwise_map.2 ((hsorted.and hne).imp_of_mem fun hf hg hfg => ?_)
  have hf := Code.mem_references_of_frame (c.perm_sortedFrames.mem_iff.1 hf) List.mem_cons_self
  have hg := Code.mem_references_of_frame (c.perm_sortedFrames.mem_iff.1 hg) List.mem_cons_self
  exact UInt16.lt_of_le_of_ne ((h.position_le_iff hf hg).2 hfg.1) hfg.2

theorem standsIn (h : PlacesLaid c found b codeLength) (hc : c.Placed) {f : Label × BodyFrame}
    (hf : f ∈ c.frames) : PlacedFrame.StandsIn b codeLength
      ((found.position f.1).toNat, f.2.mapSites found.position) := by
  have hlabel := Code.mem_references_of_frame hf List.mem_cons_self
  constructor
  case lt => exact h.position_lt hlabel (hc.frames f hf)
  case offset => exact h.contains_position hlabel
  case sites =>
    rw [Frame.sites_mapSites]
    exact List.forall_mem_map.2 fun k hk =>
      h.contains_position (Code.mem_references_of_frame hf (List.mem_cons_of_mem _ hk))

theorem ofEntries_eq (h : PlacesLaid c found b codeLength) (hc : c.Placed)
    (hapart : FramesApart found c.frames) {r : Resolver}
    (hentries : FrameTableLowered r found context c.frames entries) :
    PlacedFrame.ofEntries r b codeLength none context.initialFrame entries
      = .ok (placeAgain found (c.framesAt found)) := by
  have hstands : ∀ f ∈ c.framesAt found, PlacedFrame.StandsIn b codeLength
      (f.1.toNat, f.2.mapSites found.position) := by
    refine List.forall_mem_map.2 fun f hf => ?_
    exact h.standsIn hc (c.perm_sortedFrames.mem_iff.1 hf)
  have hplaced := ofEntries_of_lowered (h.framesLowered hentries)
    (fun _ hp => absurd hp (Option.not_mem_none _)) (h.increasing_framesAt hapart) hstands
  rwa [MethodContext.mapSites_initialFrame] at hplaced

theorem frameOffsets_eq (h : PlacesLaid c found b codeLength) (hc : c.Placed) :
    (placeAgain found (c.framesAt found)).mapM (PlacedFrame.offsets b)
      = .ok (c.sortedFrames.map fun f =>
        (f.1 :: f.2.sites).map fun k => (found.position k).toNat) := by
  unfold placeAgain Code.framesAt
  rw [List.map_map]
  refine mapM_eq_ok.2 (List.forall₂_map_left_iff.2 (List.forall₂_map_right_iff.2 ?_))
  refine List.forall₂_same.2 fun f hf => PlacedFrame.offsets_eq_ok.2 ⟨?_, ?_⟩
  · simp only [Function.comp_apply, Frame.sites_mapSites, List.map_map, List.map_cons]
    rfl
  · exact (h.standsIn hc (c.perm_sortedFrames.mem_iff.1 hf)).sites

theorem liftFrames_eq (h : PlacesLaid c found b codeLength) {marked : List Nat}
    (hmarked : Marks c found marked) :
    (placeAgain found (c.framesAt found)).mapM (liftFrame (b.labels marked))
      = .ok (c.sortedFrames.map fun f => (c.renumber f.1, f.2.mapSites c.renumber)) := by
  unfold placeAgain Code.framesAt
  rw [List.map_map]
  refine mapM_eq_ok.2 (List.forall₂_map_left_iff.2 (List.forall₂_map_right_iff.2 ?_))
  refine List.forall₂_same.2 fun f hf => ?_
  have hlabel {k : Label} (hk : k ∈ f.1 :: f.2.sites) :
      labelAt (b.labels marked) (found.position k).toNat = .ok (c.renumber k) :=
    h.labelAt_position hmarked
      (Code.mem_references_of_frame (c.perm_sortedFrames.mem_iff.1 hf) hk)
  have hframe : (f.2.mapSites found.position).mapM pure
      (fun site => labelAt (b.labels marked) site.toNat) = .ok (f.2.mapSites c.renumber) := by
    rw [Frame.mapM_mapSites]
    exact Frame.mapM_of_sites fun k hk => hlabel (List.mem_cons_of_mem _ hk)
  unfold liftFrame
  simp only [Function.comp_apply, hframe, hlabel List.mem_cons_self, ok_bind]
  rfl

theorem readsBack_frames (h : PlacesLaid c found b codeLength) (hfit : c.FramesFit context)
    {r : Resolver} (hentries : FrameTableLowered r found context c.frames entries) :
    AttributeFormat.stackMapTable.ReadsBack entries := by
  have hlowered := h.framesLowered hentries
  have hframes : (c.framesAt found).map (·.2) = c.sortedFrames.map (·.2) := by
    unfold Code.framesAt
    rw [List.map_map]
    rfl
  refine AttributeFormat.readsBack_stackMapTable ?_ (hlowered.entries_fit (hframes ▸ hfit.changes))
  rw [hlowered.length_eq, Code.framesAt, List.length_map, c.perm_sortedFrames.length_eq]
  exact hfit.count

end PlacesLaid

end Frames

/-- What code that was laid out is taken apart into. -/
def Code.partsAt (c : Code) (found : LabelOffsets) (codeLength : Nat)
    (decoded : List (Nat × Decoded)) (tables : Stored.CodeTables) (targets : List (List Nat)) :
    CodeParts where
  codeLength
  decoded
  tables
  targets
  handlerOffsets := c.exceptionHandlers.map fun h =>
    h.references.map fun k => (found.position k).toNat
  frames := placeAgain found (c.framesAt found)
  frameOffsets := c.sortedFrames.map fun f =>
    (f.1 :: f.2.sites).map fun k => (found.position k).toNat

namespace PlacesLaid

variable {b : Boundaries} {codeLength : Nat}

theorem found_eq (h : PlacesLaid c found b codeLength) {k : Label} (hk : k ∈ c.references) :
    found[k]? = some (found.position k).toNat := by
  rw [h.found k hk, h.found_position hk]

theorem marks_partsAt {decoded : List (Nat × Decoded)} {tables : Stored.CodeTables}
    {targets : List (List Nat)}
    (hkept : tables.dropMisplaced (.ofDecoded decoded codeLength) = tables)
    (htargets : targets.flatten
      = (c.elements.flatMap (·.references)).map fun k => (found.position k).toNat)
    (htables : tables.offsets = (c.lineNumbers.map (·.start)
      ++ (c.localVariables ++ c.localVariableTypes).flatMap (·.references)).map
        fun k => (found.position k).toNat) :
    Marks c found (c.partsAt found codeLength decoded tables targets).marked := by
  have hperm := c.perm_sortedFrames.flatMap_right fun f => f.1 :: f.2.sites
  have hmarked : (c.partsAt found codeLength decoded tables targets).marked
      = (c.elements.flatMap (·.references) ++ c.exceptionHandlers.flatMap (·.references)
        ++ (c.lineNumbers.map (·.start)
          ++ (c.localVariables ++ c.localVariableTypes).flatMap (·.references))
        ++ c.sortedFrames.flatMap fun f => f.1 :: f.2.sites).map
          fun k => (found.position k).toNat := by
    have hplaced : (c.partsAt found codeLength decoded tables targets).placedTables = tables :=
      hkept
    unfold CodeParts.marked
    rw [hplaced, List.map_append, List.map_append, List.map_append, ← htargets, ← htables,
      List.map_flatMap, List.map_flatMap, List.flatMap_def, List.flatMap_def]
    rfl
  intro o
  rw [hmarked, List.mem_map]
  refine exists_congr fun k => and_congr_left fun _ => ?_
  rw [List.mem_append, hperm.mem_iff, ← List.mem_append]
  rfl

theorem handlerOffsets_eq (h : PlacesLaid c found b codeLength) {r : Resolver}
    {handlers : List Stored.ExceptionHandler}
    (hlowered : List.Forall₂ (HandlerLowered r found) c.exceptionHandlers handlers) :
    handlers.mapM (·.offsets b) = .ok (c.exceptionHandlers.map fun h =>
      h.references.map fun k => (found.position k).toNat) :=
  mapM_eq_map_of_forall₂ hlowered fun _ hmem _ hx =>
    offsets_of_handlerLowered hx fun _ hk =>
      h.contains_position (Code.mem_references_of_handler hmem hk)

section Lifted

variable {marked : List Nat} {r : Resolver}

theorem exceptionHandlers_eq (h : PlacesLaid c found b codeLength) (hmarked : Marks c found marked)
    {handlers : List Stored.ExceptionHandler}
    (hlowered : List.Forall₂ (HandlerLowered r found) c.exceptionHandlers handlers) :
    handlers.mapM (r.exceptionHandler (b.labels marked))
      = .ok (c.exceptionHandlers.map (·.relabel c.renumber)) :=
  mapM_eq_map_of_forall₂ hlowered fun _ hmem _ hx =>
    exceptionHandler_of_liftedAs
      (h.liftedAs hmarked fun _ hk => Code.mem_references_of_handler hmem hk) hx

theorem lineNumbers_eq (h : PlacesLaid c found b codeLength) (hmarked : Marks c found marked)
    {lines : List Stored.LineNumber}
    (hlowered : List.Forall₂ (LineLowered found) c.lineNumbers lines) :
    lines.mapM (Resolver.lineNumber (b.labels marked))
      = .ok (c.lineNumbers.map (·.relabel c.renumber)) := by
  refine mapM_eq_map_of_forall₂ hlowered fun l hl x hx => ?_
  refine lineNumber_of_liftedAs (h.liftedAs hmarked fun k hk => ?_) hx
  rw [List.mem_singleton.1 hk]
  exact Code.mem_references_of_lineNumber hl

theorem variables_eq (h : PlacesLaid c found b codeLength) (hmarked : Marks c found marked)
    {vs : List LocalVariable} (hvs : ∀ v ∈ vs, v ∈ c.localVariables ++ c.localVariableTypes)
    {locals : List Stored.LocalVariable}
    (hlowered : List.Forall₂ (VariableLowered r found) vs locals) :
    locals.mapM (r.localVariable (b.labels marked)) = .ok (vs.map (·.relabel c.renumber)) :=
  mapM_eq_map_of_forall₂ hlowered fun v hv _ hx =>
    localVariable_of_liftedAs
      (h.liftedAs hmarked fun _ hk => Code.mem_references_of_variable (hvs v hv) hk) hx

end Lifted

end PlacesLaid

/-- Code is lifted from what it was lowered to with its labels renumbered. -/
theorem exists_rewritten_of_lowered {context : MethodContext} {y : Stored.Code}
    (hwf : s.wellFormed) (hc : c.Rereadable context) (hlowered : CodeLowered s context c y) :
    ∃ d, s.resolver.code context y = .ok d ∧ (c.canonical context).Rewritten d := by
  obtain ⟨elements, assembled, helements, hassemble, haround⟩ := hlowered
  obtain ⟨widened, decoded, hplaced, hdecoded, hto, hend, hlaid⟩ :=
    exists_placesLaid hc.placed hc.jumps helements hassemble
  rw [← haround.code] at hdecoded hend hlaid
  let found := assembled.labels
  have hcontains {k : Label} (hk : k ∈ c.references) := hlaid.contains_position hk
  obtain ⟨tables, hfold, htables⟩ := tables_of_lowered haround.attributes hc.tables
    (fun es hes => hlaid.readsBack_frames hc.frames hes) hc.attributes
  obtain ⟨hkept, hdebug⟩ := tables_of_placesLaid htables fun k hk => hcontains hk
  obtain ⟨targets, htargets, hflatten⟩ := exists_checkedTargets hplaced hto fun k hk => by
    obtain ⟨e, he, hk⟩ := List.mem_flatMap.1 hk
    have hmem := Code.mem_references_of_element he hk
    exact ⟨hlaid.found_eq hmem, hcontains hmem⟩
  let q := c.partsAt found y.code.length decoded tables targets
  have hplacedTables : q.placedTables = tables := hkept
  have hmarked : PlacesLaid.Marks c found q.marked := PlacesLaid.marks_partsAt hkept hflatten hdebug
  -- an offset has the label of its place, and a reference is lifted to that label
  have hlabels : ∀ i o, (placedBoundaries 0 widened)[i]? = some o →
      labelElement q.labels o = c.labelFor (0 + i) := by
    intro i o ho
    rw [Nat.zero_add]
    refine hlaid.labelElement_eq hmarked ?_
    rw [← boundaryOffsets_of_decodesTo hto, hend] at ho
    exact ho
  have hreferred : ∀ e ∈ c.elements, ∀ k ∈ e.references, ∀ n, found[k]? = some n →
      q.labels[n]? = some (c.renumber k) := by
    intro e he k hk n hn
    have hmem := Code.mem_references_of_element he hk
    obtain rfl := Option.some.inj ((hlaid.found_eq hmem).symm.trans hn)
    exact labelAt_eq_ok.1 (hlaid.labelAt_position hmarked hmem)
  obtain ⟨body, hbody, hrewritten⟩ := exists_body_relabelFrom hwf hplaced hto hreferred hlabels
  rw [hend] at hrewritten
  refine ⟨{ c.canonical context with
      elements := body.flatten ++ labelElement q.labels y.code.length },
    code_of_codeLifted (p := q) ?_, ⟨_, hrewritten, rfl⟩⟩
  constructor
  case codeLength => rfl
  case decoded => exact hdecoded
  case tables => exact hfold
  case targets => exact htargets
  case handlerOffsets => exact hlaid.handlerOffsets_eq haround.exceptionTable
  case frames =>
    rw [hplacedTables]
    exact hlaid.ofEntries_eq hc.placed haround.apart htables.frames
  case frameOffsets => exact hlaid.frameOffsets_eq hc.placed
  case elements => exact ⟨body, hbody, rfl⟩
  case exceptionHandlers => exact hlaid.exceptionHandlers_eq hmarked haround.exceptionTable
  case lineNumbers =>
    rw [hplacedTables]
    exact hlaid.lineNumbers_eq hmarked htables.lineNumbers
  case localVariables =>
    rw [hplacedTables]
    exact hlaid.variables_eq hmarked (fun _ => List.mem_append_left _) htables.localVariables
  case localVariableTypes =>
    rw [hplacedTables]
    exact hlaid.variables_eq hmarked (fun _ => List.mem_append_right _) htables.localVariableTypes
  case bodyFrames => exact hlaid.liftFrames_eq hmarked
  case attributes =>
    rw [hplacedTables]
    exact htables.attributes.symm
  case maxStack => exact haround.maxStack
  case maxLocals => exact congrArg some haround.maxLocals.symm

end ClassPatch
