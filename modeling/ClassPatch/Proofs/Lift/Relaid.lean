import ClassPatch.Proofs.Class.Labels
import ClassPatch.Proofs.Lift.Body
import ClassPatch.Proofs.Lift.Frames

/-!
Code that was laid out anew. What refers to places in the code refers to the same places, so it is
lifted to the same labels.
-/

namespace ClassPatch

/-- Code whose boundaries have moved, with the labels of the first and their new offsets. -/
structure Relaid (labels : Std.HashMap Nat Label) (found : LabelOffsets)
    (pairs : List (Nat × Nat)) (b b' : Boundaries) (codeLength codeLength' : Nat) : Prop where
  moves : Moves pairs
  left : b.offsets = pairs.map (·.1)
  right : b'.offsets = pairs.map (·.2)
  contains_left : ∀ o, b.contains o = true → o ∈ b.offsets
  contains_right : ∀ o ∈ b'.offsets, b'.contains o = true
  injective : ∀ (o o' : Nat) (k : Label), labels[o]? = some k → labels[o']? = some k → o = o'
  found_iff : ∀ (k : Label) (p : Nat),
    found[k]? = some p ↔ ∃ o, (o, p) ∈ pairs ∧ labels[o]? = some k
  stop : (codeLength, codeLength') ∈ pairs
  le_stop : ∀ x ∈ pairs, x.2 ≤ codeLength'
  length_le : codeLength' ≤ maxCodeLength

/-- Labels that code is lifted to again, at the new offsets. -/
structure Relabelled (found : LabelOffsets) (labels' : Std.HashMap Nat Label) : Prop where
  label : ∀ (k : Label) (p : Nat), found[k]? = some p → labels'[p]? = some k

namespace Relaid

variable {labels labels' : Std.HashMap Nat Label} {found : LabelOffsets}
  {pairs : List (Nat × Nat)} {b b' : Boundaries} {codeLength codeLength' : Nat}

theorem moved (h : Relaid labels found pairs b b' codeLength codeLength') {o p : Nat} {k : Label}
    (ho : labels[o]? = some k) (hp : found[k]? = some p) : (o, p) ∈ pairs := by
  obtain ⟨o', hmem, ho'⟩ := (h.found_iff k p).1 hp
  rwa [h.injective o o' k ho ho']

theorem contains_of_moved (h : Relaid labels found pairs b b' codeLength codeLength') {o p : Nat}
    (hmem : (o, p) ∈ pairs) : b'.contains p = true := by
  refine h.contains_right p ?_
  rw [h.right]
  exact List.mem_map_of_mem hmem

theorem exists_moved (h : Relaid labels found pairs b b' codeLength codeLength') {o : Nat}
    (ho : b.contains o = true) : ∃ p, (o, p) ∈ pairs := by
  have hmem := h.contains_left o ho
  rw [h.left] at hmem
  obtain ⟨⟨o', p⟩, hpair, rfl⟩ := List.mem_map.1 hmem
  exact ⟨p, hpair⟩

theorem lt_stop (h : Relaid labels found pairs b b' codeLength codeLength') {o p : Nat}
    (hmem : (o, p) ∈ pairs) (hlt : o < codeLength) : p < codeLength' :=
  (h.moves.lt_iff hmem h.stop).1 hlt

theorem toNat_ofNat (h : Relaid labels found pairs b b' codeLength codeLength') {o p : Nat}
    (hmem : (o, p) ∈ pairs) : (UInt16.ofNat p).toNat = p := by
  have hle := h.le_stop _ hmem
  have hlength := h.length_le
  unfold maxCodeLength at hlength
  rw [UInt16.toNat_ofNat', Nat.mod_eq_of_lt (by omega)]

theorem found_of_at (h : Relaid labels found pairs b b' codeLength codeLength') {k : Label}
    {p : UInt16} (hp : found.At k p) : found[k]? = some p.toNat := by
  obtain ⟨n, hn, rfl⟩ := hp
  obtain ⟨o, hmem, -⟩ := (h.found_iff k n).1 hn
  rwa [h.toNat_ofNat hmem]

theorem relabelled (h : Relaid labels found pairs b b' codeLength codeLength')
    {marked marked' : List Nat} (hlabels : labels = b.labels marked)
    (hmarked : List.Forall₂ (fun o p => (o, p) ∈ pairs) marked marked') :
    (∀ o p, (o, p) ∈ pairs → (b'.labels marked')[p]? = labels[o]?)
      ∧ Relabelled found (b'.labels marked') := by
  have hlabel (o p : Nat) (hmem : (o, p) ∈ pairs) : (b'.labels marked')[p]? = labels[o]? := by
    rw [hlabels]
    exact h.moves.labels_eq h.left h.right hmarked hmem
  refine ⟨hlabel, ⟨fun k p hp => ?_⟩⟩
  obtain ⟨o, hmem, ho⟩ := (h.found_iff k p).1 hp
  rw [hlabel o p hmem, ho]

end Relaid

theorem Relabelled.labelAt_found {found : LabelOffsets} {labels' : Std.HashMap Nat Label}
    (h : Relabelled found labels') {k : Label} {p : Nat} (hp : found[k]? = some p) :
    labelAt labels' p = .ok k :=
  labelAt_eq_ok.2 (h.label k p hp)

theorem exists_mapM_flatten {α β γ δ ε : Type} {R : α → β → Prop} {M : γ → δ → Prop}
    {f : α → Except ε (List γ)} {g : β → Except ε (List δ)} {as : List α} {bs : List β}
    (h : List.Forall₂ R as bs)
    (hstep : ∀ a b cs, R a b → f a = .ok cs → ∃ ds, g b = .ok ds ∧ List.Forall₂ M cs ds)
    {css : List (List γ)} (hcss : as.mapM f = .ok css) :
    ∃ dss, bs.mapM g = .ok dss ∧ List.Forall₂ M css.flatten dss.flatten := by
  have hforall := mapM_eq_ok.1 hcss
  induction h generalizing css with
  | nil =>
    cases hforall
    exact ⟨[], rfl, .nil⟩
  | cons hhead htail ih =>
    obtain ⟨cs, css, hcs, hrest, rfl⟩ := List.forall₂_cons_left_iff.1 hforall
    obtain ⟨ds, hds, hM⟩ := hstep _ _ _ hhead hcs
    obtain ⟨dss, hdss, hMs⟩ := ih (mapM_eq_ok.2 hrest) hrest
    refine ⟨ds :: dss, mapM_eq_ok.2 (.cons hds (mapM_eq_ok.1 hdss)), ?_⟩
    rw [List.flatten_cons, List.flatten_cons]
    exact List.rel_append hM hMs

namespace Relaid

variable {r : Resolver} {s : Rereading} {labels labels' : Std.HashMap Nat Label}
  {found : LabelOffsets} {pairs : List (Nat × Nat)} {b b' : Boundaries}
  {codeLength codeLength' : Nat}

theorem mapM_check_moved (h : Relaid labels found pairs b b' codeLength codeLength') (source : Nat)
    {ts us : List Nat} (htargets : List.Forall₂ (fun o p => (o, p) ∈ pairs) ts us) :
    us.mapM (b'.check source) = .ok us := by
  refine PlacedFrame.mapM_check source fun u hu => ?_
  obtain ⟨t, -, hmem⟩ := exists_of_mem_right htargets hu
  exact h.contains_of_moved hmem

theorem checkedTargets (h : Relaid labels found pairs b b' codeLength codeLength') {source : Nat}
    {d : Decoded} {y : Nat × Decoded} {ts : List Nat} (hcarried : Carried r s labels found d y)
    (hts : d.checkedTargets b source = .ok ts) :
    ∃ us, y.2.checkedTargets b' y.1 = .ok us
      ∧ List.Forall₂ (fun o p => (o, p) ∈ pairs) ts us := by
  cases hcarried with
  | instruction hx hy =>
    obtain rfl := pure_eq_ok.1 hts
    exact ⟨[], rfl, .nil⟩
  | @branch jump jump' b c offset hjump hwidened hjump' =>
    obtain ⟨rfl, -⟩ := PlacedFrame.check_of_mem hts
    have hlabels := hjump.targets
    have hoffsets := hjump'.targets
    rw [Branch.targets_aligned, hwidened.targets_eq] at hoffsets
    have hmoved : List.Forall₂ (fun o p => (o, p) ∈ pairs) jump.targets jump'.targets := by
      refine forall₂_comp ?_ hlabels hoffsets
      intro o k p ho hp
      exact h.moved ho hp
    exact ⟨jump'.targets, h.mapM_check_moved offset hmoved, hmoved⟩

theorem exceptionHandler_moved (h : Relaid labels found pairs b b' codeLength codeLength')
    {x y : Stored.ExceptionHandler} {handler : ExceptionHandler} {os : List Nat}
    (hlifted : r.exceptionHandler labels x = .ok handler)
    (hlowered : HandlerLowered s.resolver found handler y) (hos : x.offsets b = .ok os) :
    ∃ ps, y.offsets b' = .ok ps ∧ List.Forall₂ (fun o p => (o, p) ∈ pairs) os ps := by
  unfold Resolver.exceptionHandler at hlifted
  obtain ⟨start, hstart, hlifted⟩ := bind_eq_ok.1 hlifted
  obtain ⟨stop, hstop, hlifted⟩ := bind_eq_ok.1 hlifted
  obtain ⟨target, htarget, hlifted⟩ := bind_eq_ok.1 hlifted
  obtain ⟨catchType, hcatch, hlifted⟩ := bind_eq_ok.1 hlifted
  obtain rfl := pure_eq_ok.1 hlifted
  have hstart' := h.moved (labelAt_eq_ok.1 hstart) (h.found_of_at hlowered.start)
  have hstop' := h.moved (labelAt_eq_ok.1 hstop) (h.found_of_at hlowered.stop)
  have htarget' := h.moved (labelAt_eq_ok.1 htarget) (h.found_of_at hlowered.handler)
  have hcheck {o p : Nat} (source : Nat) (hmem : (o, p) ∈ pairs) :
      b'.check source p = .ok p :=
    Boundaries.check_eq_ok.2 ⟨h.contains_of_moved hmem, rfl⟩
  unfold Stored.ExceptionHandler.offsets at hos
  obtain ⟨o₁, ho₁, hos⟩ := bind_eq_ok.1 hos
  obtain ⟨o₂, ho₂, hos⟩ := bind_eq_ok.1 hos
  obtain ⟨o₃, ho₃, hos⟩ := bind_eq_ok.1 hos
  obtain rfl := pure_eq_ok.1 hos
  rw [(Boundaries.check_eq_ok.1 ho₁).2, (Boundaries.check_eq_ok.1 ho₂).2,
    (Boundaries.check_eq_ok.1 ho₃).2]
  refine ⟨_, ?_, .cons hstart' (.cons hstop' (.cons htarget' .nil))⟩
  unfold Stored.ExceptionHandler.offsets
  simp only [hcheck _ hstart', hcheck _ hstop', hcheck _ htarget', ok_bind]
  rfl

theorem lineNumber_moved (h : Relaid labels found pairs b b' codeLength codeLength')
    {x y : Stored.LineNumber} {line : LineNumber}
    (hlifted : Resolver.lineNumber labels x = .ok line) (hlowered : LineLowered found line y) :
    (x.startPc.toNat, y.startPc.toNat) ∈ pairs := by
  unfold Resolver.lineNumber at hlifted
  obtain ⟨start, hstart, hlifted⟩ := bind_eq_ok.1 hlifted
  obtain rfl := pure_eq_ok.1 hlifted
  exact h.moved (labelAt_eq_ok.1 hstart) (h.found_of_at hlowered.start)

theorem endPc_eq {y : Stored.LocalVariable} {stop : UInt16}
    (hle : y.startPc ≤ stop) (hlength : y.length = stop - y.startPc) :
    y.endPc = stop.toNat := by
  unfold Stored.LocalVariable.endPc
  rw [hlength, UInt16.toNat_sub_of_le _ _ hle]
  rw [UInt16.le_iff_toNat_le] at hle
  omega

theorem localVariable_moved (h : Relaid labels found pairs b b' codeLength codeLength')
    {x y : Stored.LocalVariable} {v : LocalVariable}
    (hlifted : r.localVariable labels x = .ok v)
    (hlowered : VariableLowered s.resolver found v y) :
    (x.startPc.toNat, y.startPc.toNat) ∈ pairs ∧ (x.endPc, y.endPc) ∈ pairs := by
  unfold Resolver.localVariable at hlifted
  obtain ⟨start, hstart, hlifted⟩ := bind_eq_ok.1 hlifted
  obtain ⟨stop, hstop, hlifted⟩ := bind_eq_ok.1 hlifted
  obtain ⟨name, hname, hlifted⟩ := bind_eq_ok.1 hlifted
  obtain ⟨descriptor, hdescriptor, hlifted⟩ := bind_eq_ok.1 hlifted
  obtain rfl := pure_eq_ok.1 hlifted
  obtain ⟨stop', hstop', hle, hlength⟩ := hlowered.stop
  rw [endPc_eq hle hlength]
  exact ⟨h.moved (labelAt_eq_ok.1 hstart) (h.found_of_at hlowered.start),
    h.moved (labelAt_eq_ok.1 hstop) (h.found_of_at hstop')⟩

end Relaid

/-- Offsets of the labels are lifted to what the function gives for them. -/
def LabelOffsets.LiftedAs (found : LabelOffsets) (labels' : Std.HashMap Nat Label)
    (f : Label → Label) (ks : List Label) : Prop :=
  ∀ k ∈ ks, ∀ p : UInt16, found.At k p → labelAt labels' p.toNat = .ok (f k)

section LiftedAs

variable {r : Resolver} {labels' : Std.HashMap Nat Label} {found : LabelOffsets} {f : Label → Label}

theorem exceptionHandler_of_liftedAs {handler : ExceptionHandler} {y : Stored.ExceptionHandler}
    (h : found.LiftedAs labels' f handler.references)
    (hlowered : HandlerLowered r found handler y) :
    r.exceptionHandler labels' y = .ok (handler.relabel f) := by
  unfold ExceptionHandler.references at h
  have hstart := h handler.start (by simp) _ hlowered.start
  have hstop := h handler.stop (by simp) _ hlowered.stop
  have htarget := h handler.handler (by simp) _ hlowered.handler
  have hcatch : y.catchType.mapM r.className = .ok handler.catchType :=
    optionMapM_of_rel hlowered.catchType fun _ _ hname => hname
  unfold Resolver.exceptionHandler
  simp only [hstart, hstop, htarget, hcatch, ok_bind]
  rfl

theorem lineNumber_of_liftedAs {line : LineNumber} {y : Stored.LineNumber}
    (h : found.LiftedAs labels' f [line.start]) (hlowered : LineLowered found line y) :
    Resolver.lineNumber labels' y = .ok (line.relabel f) := by
  have hstart := h line.start (List.mem_singleton_self _) _ hlowered.start
  unfold Resolver.lineNumber
  rw [hstart, ok_bind, hlowered.lineNumber]
  rfl

theorem localVariable_of_liftedAs {v : LocalVariable} {y : Stored.LocalVariable}
    (h : found.LiftedAs labels' f v.references) (hlowered : VariableLowered r found v y) :
    r.localVariable labels' y = .ok (v.relabel f) := by
  unfold LocalVariable.references at h
  obtain ⟨stop, hat, hle, hlength⟩ := hlowered.stop
  have hstart := h v.start (by simp) _ hlowered.start
  have hstop := h v.stop (by simp) _ hat
  have hend := Relaid.endPc_eq hle hlength
  unfold Resolver.localVariable
  simp only [hstart, hend, hstop, hlowered.name, hlowered.descriptor, hlowered.index, ok_bind]
  rfl

end LiftedAs

namespace Relabelled

variable {s : Rereading} {labels' : Std.HashMap Nat Label} {found : LabelOffsets}

/-- Offsets that two bytes hold. -/
abbrev Exact (found : LabelOffsets) : Prop :=
  ∀ (k : Label) (p : UInt16), found.At k p → found[k]? = some p.toNat

theorem liftedAs (h : Relabelled found labels') (hexact : Exact found) (ks : List Label) :
    found.LiftedAs labels' id ks :=
  fun k _ p hp => h.labelAt_found (hexact k p hp)

theorem exceptionHandler (h : Relabelled found labels') (hexact : Exact found)
    {handler : ExceptionHandler} {y : Stored.ExceptionHandler}
    (hlowered : HandlerLowered s.resolver found handler y) :
    s.resolver.exceptionHandler labels' y = .ok handler :=
  exceptionHandler_of_liftedAs (h.liftedAs hexact _) hlowered

theorem lineNumber (h : Relabelled found labels') (hexact : Exact found) {line : LineNumber}
    {y : Stored.LineNumber} (hlowered : LineLowered found line y) :
    Resolver.lineNumber labels' y = .ok line :=
  lineNumber_of_liftedAs (h.liftedAs hexact _) hlowered

theorem localVariable (h : Relabelled found labels') (hexact : Exact found) {v : LocalVariable}
    {y : Stored.LocalVariable} (hlowered : VariableLowered s.resolver found v y) :
    s.resolver.localVariable labels' y = .ok v :=
  localVariable_of_liftedAs (h.liftedAs hexact _) hlowered

end Relabelled

/-- The label at an offset, as a frame names it. -/
def siteLabel (labels : Std.HashMap Nat Label) (site : UInt16) : Label :=
  labels[site.toNat]?.getD 0

/-- A frame, and the one that it is lifted to: it names the labels at the places. -/
structure FrameLabelled (labels : Std.HashMap Nat Label) (f : PlacedFrame)
    (g : Label × BodyFrame) : Prop where
  label : labels[f.1]? = some g.1
  frame : g.2 = f.2.mapSites (siteLabel labels)
  sites : ∀ u ∈ f.2.sites, labels[u.toNat]? = some (siteLabel labels u)

/-- A frame at an offset, and the frame at its new offset that names labels. -/
structure FrameMoved (labels : Std.HashMap Nat Label) (pairs : List (Nat × Nat))
    (found : LabelOffsets) (f : PlacedFrame) (p : UInt16 × BodyFrame) : Prop where
  moved : (f.1, p.1.toNat) ∈ pairs
  frame : p.2 = f.2.mapSites (siteLabel labels)
  sites : ∀ u ∈ f.2.sites,
    (u.toNat, (found.position (siteLabel labels u)).toNat) ∈ pairs
      ∧ found[siteLabel labels u]? = some (found.position (siteLabel labels u)).toNat

namespace Relaid

variable {r : Resolver} {s : Rereading} {labels labels' : Std.HashMap Nat Label}
  {found : LabelOffsets} {pairs : List (Nat × Nat)} {b b' : Boundaries}
  {codeLength codeLength' : Nat}

theorem position_eq {k : Label} {p : Nat} (hp : found[k]? = some p) :
    found.position k = UInt16.ofNat p := by
  unfold LabelOffsets.position
  rw [hp]
  rfl

theorem frameMoved (h : Relaid labels found pairs b b' codeLength codeLength') {f : PlacedFrame}
    {g : Label × BodyFrame} {p : UInt16 × BodyFrame}
    (hstands : PlacedFrame.StandsIn b codeLength f) (hlabelled : FrameLabelled labels f g)
    (hat : found.At g.1 p.1) (hp : p.2 = g.2) : FrameMoved labels pairs found f p := by
  constructor
  case moved => exact h.moved hlabelled.label (h.found_of_at hat)
  case frame =>
    rw [hp]
    exact hlabelled.frame
  case sites =>
    intro u hu
    obtain ⟨v, hv⟩ := h.exists_moved (hstands.sites u hu)
    have hfound := (h.found_iff _ _).2 ⟨u.toNat, hv, hlabelled.sites u hu⟩
    rw [position_eq hfound, h.toNat_ofNat hv]
    exact ⟨hv, hfound⟩

theorem increasing_of_frameMoved (h : Relaid labels found pairs b b' codeLength codeLength')
    {frames : List PlacedFrame} {placed : List (UInt16 × BodyFrame)}
    (hmoved : List.Forall₂ (FrameMoved labels pairs found) frames placed)
    (hincreasing : frames.Pairwise fun f g => f.1 < g.1) :
    placed.Pairwise fun p q => p.1 < q.1 := by
  refine pairwise_of_forall₂ ?_ hmoved hincreasing
  intro f p g q hp hq hlt
  exact UInt16.lt_iff_toNat_lt.2 ((h.moves.lt_iff hp.moved hq.moved).1 hlt)

theorem sites_eq {f : PlacedFrame} {p : UInt16 × BodyFrame}
    (hp : FrameMoved labels pairs found f p) :
    (p.2.mapSites found.position).sites
      = f.2.sites.map fun u => found.position (siteLabel labels u) := by
  rw [hp.frame, Frame.sites_mapSites, Frame.sites_mapSites, List.map_map]
  rfl

theorem standsIn_of_frameMoved (h : Relaid labels found pairs b b' codeLength codeLength')
    {f : PlacedFrame} {p : UInt16 × BodyFrame} (hp : FrameMoved labels pairs found f p)
    (hstands : PlacedFrame.StandsIn b codeLength f) :
    PlacedFrame.StandsIn b' codeLength' (p.1.toNat, p.2.mapSites found.position) := by
  constructor
  case lt => exact h.lt_stop hp.moved hstands.lt
  case offset => exact h.contains_of_moved hp.moved
  case sites =>
    rw [sites_eq hp]
    exact List.forall_mem_map.2 fun u hu => h.contains_of_moved (hp.sites u hu).1

theorem offsets_of_frameMoved (h : Relaid labels found pairs b b' codeLength codeLength')
    {f : PlacedFrame} {p : UInt16 × BodyFrame} (hp : FrameMoved labels pairs found f p)
    (hstands : PlacedFrame.StandsIn b codeLength f) {os : List Nat}
    (hos : PlacedFrame.offsets b f = .ok os) :
    ∃ ps, PlacedFrame.offsets b' (p.1.toNat, p.2.mapSites found.position) = .ok ps
      ∧ List.Forall₂ (fun o p => (o, p) ∈ pairs) os ps := by
  obtain ⟨rfl, -⟩ := PlacedFrame.offsets_eq_ok.1 hos
  refine ⟨_, PlacedFrame.offsets_eq_ok.2 ⟨rfl, (h.standsIn_of_frameMoved hp hstands).sites⟩,
    .cons hp.moved ?_⟩
  rw [sites_eq hp, List.forall₂_map_left_iff, List.map_map, List.forall₂_map_right_iff]
  exact List.forall₂_same.2 fun u hu => (hp.sites u hu).1

end Relaid

theorem Relabelled.frame {labels labels' : Std.HashMap Nat Label} {found : LabelOffsets}
    {pairs : List (Nat × Nat)} (h : Relabelled found labels') {f : PlacedFrame}
    {p : UInt16 × BodyFrame} (hp : FrameMoved labels pairs found f p) :
    (p.2.mapSites found.position).mapM pure (fun site => labelAt labels' site.toNat)
      = .ok p.2 := by
  rw [hp.frame, Frame.mapSites_mapSites, Frame.mapM_mapSites]
  exact Frame.mapM_of_sites fun u hu => h.labelAt_found (hp.sites u hu).2

end ClassPatch
