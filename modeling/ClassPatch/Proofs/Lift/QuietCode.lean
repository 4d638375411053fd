import ClassPatch.Proofs.Bytecode.FrameTypes
import ClassPatch.Proofs.Lift.Exact
import ClassPatch.Proofs.Lift.Quiet

/-!
Code, read from the constants that a pool knows. It is lowered without a new constant: tables have
the names of the attributes that they were read from, and the most compact change to a frame names
no class that its entry did not name.
-/

namespace ClassPatch

open PoolM (Quiet Repeats)

section Names

variable {r : Resolver}

/-- What the tables of code hold was read from attributes with names. -/
structure Stored.CodeTables.Named (r : Resolver) (t : Stored.CodeTables) : Prop where
  lineNumbers : ∀ l ∈ t.lineNumbers, ∃ i, r.utf8 i = .ok "LineNumberTable"
  localVariables : ∀ v ∈ t.localVariables, ∃ i, r.utf8 i = .ok "LocalVariableTable"
  localVariableTypes : ∀ v ∈ t.localVariableTypes, ∃ i, r.utf8 i = .ok "LocalVariableTypeTable"
  frames : ∀ e ∈ t.frames, ∃ i, r.utf8 i = .ok "StackMapTable"
  attributes : ∀ v ∈ t.attributes, ∃ i, r.utf8 i = .ok v.name

theorem named_of_codeStep {t u : Stored.CodeTables} {a : Stored.Attribute} (ht : t.Named r)
    (h : r.CodeStep t a u) : u.Named r := by
  have happend {α : Type} {as bs : List α} {name : String} (hname : r.utf8 a.nameIndex = .ok name)
      (has : ∀ x ∈ as, ∃ i, r.utf8 i = .ok name) : ∀ x ∈ as ++ bs, ∃ i, r.utf8 i = .ok name :=
    List.forall_mem_append.2 ⟨has, fun _ _ => ⟨_, hname⟩⟩
  cases h with
  | lineNumbers name _ => exact { ht with lineNumbers := happend name ht.lineNumbers }
  | localVariables name _ => exact { ht with localVariables := happend name ht.localVariables }
  | localVariableTypes name _ =>
    exact { ht with localVariableTypes := happend name ht.localVariableTypes }
  | frames name _ => exact { ht with frames := fun _ _ => ⟨_, name⟩ }
  | verbatim name _ =>
    exact { ht with attributes :=
      List.forall_mem_append.2 ⟨ht.attributes, List.forall_mem_singleton.2 ⟨_, name⟩⟩ }

theorem named_of_tables {xs : List Stored.Attribute} {t : Stored.CodeTables}
    (h : xs.foldlM (Stored.CodeTables.add r) {} = .ok t) : t.Named r :=
  foldlM_induction (I := fun t : Stored.CodeTables => t.Named r)
    (fun _ _ _ _ ht hstep => named_of_codeStep ht (Resolver.codeStep_of_add r hstep))
    ⟨List.forall_mem_nil _, List.forall_mem_nil _, List.forall_mem_nil _, List.forall_mem_nil _,
      List.forall_mem_nil _⟩ h

end Names

theorem PoolM.Repeats.exists_bind {α β : Type} {p : Pool} {x : PoolM α} {f : α → PoolM β} {a : α}
    (hx : Repeats p x a) (hf : ∃ b, Repeats p (f a) b) : ∃ b, Repeats p (x >>= f) b := by
  obtain ⟨b, hb⟩ := hf
  exact ⟨b, hx.bind hb⟩

theorem PoolM.Repeats.exists_mapM {α β : Type} {p : Pool} {f : α → PoolM β} {as : List α}
    (h : ∀ a ∈ as, ∃ b, Repeats p (f a) b) : ∃ bs, Repeats p (as.mapM f) bs := by
  induction as with
  | nil => exact ⟨[], .pure p []⟩
  | cons a as ih =>
    rw [List.forall_mem_cons] at h
    obtain ⟨b, hb⟩ := h.1
    obtain ⟨bs, hbs⟩ := ih h.2
    rw [List.mapM_cons]
    exact ⟨b :: bs, hb.bind (hbs.bind (.pure p _))⟩

theorem PoolM.Repeats.offsetOf {p : Pool} {found : LabelOffsets} {k : Label} {n : Nat}
    (h : found[k]? = some n) : Repeats p (PoolM.offsetOf found k) (UInt16.ofNat n) :=
  (Repeats.lift (LabelOffsets.offset_eq_ok.2 h)).bind (.pure p _)

namespace CodeLifted

variable {r : Resolver} {context : MethodContext} {x : Stored.Code} {parts : CodeParts} {c : Code}
  {found : LabelOffsets} {pairs : List (Nat × Nat)} {b' : Boundaries} {codeLength' : Nat}

theorem exists_found (h : CodeLifted r context x parts c)
    (hrelaid : Relaid parts.labels found pairs parts.boundaries b' parts.codeLength codeLength')
    {o : Nat} {k : Label} (ho : parts.labels[o]? = some k) :
    ∃ n, (o, n) ∈ pairs ∧ found[k]? = some n := by
  have hmem : o ∈ parts.boundaries.offsets := h.mem_boundaryOffsets ho
  rw [hrelaid.left] at hmem
  obtain ⟨⟨_, n⟩, hpair, rfl⟩ := List.mem_map.1 hmem
  exact ⟨n, hpair, (hrelaid.found_iff k n).2 ⟨_, hpair, ho⟩⟩

end CodeLifted

namespace Pool.Knows

variable {p : Pool} {r : Resolver} {P : Prop} {count : Nat} {labels : Std.HashMap Nat Label}
  {found : LabelOffsets}

section Tables

variable (h : p.Knows r count)
  (hfound : ∀ (o : Nat) (k : Label), labels[o]? = some k → ∃ n, found[k]? = some n)

include h hfound

theorem exists_exceptionHandler {x : Stored.ExceptionHandler} {handler : ExceptionHandler}
    (hx : r.exceptionHandler labels x = .ok handler) :
    ∃ y, Repeats p (PoolM.exceptionHandler found handler) y := by
  unfold Resolver.exceptionHandler at hx
  obtain ⟨start, hstart, hx⟩ := bind_eq_ok.1 hx
  obtain ⟨stop, hstop, hx⟩ := bind_eq_ok.1 hx
  obtain ⟨target, htarget, hx⟩ := bind_eq_ok.1 hx
  obtain ⟨catchType, hcatch, hx⟩ := bind_eq_ok.1 hx
  obtain rfl := pure_eq_ok.1 hx
  obtain ⟨_, hn₁⟩ := hfound _ _ (labelAt_eq_ok.1 hstart)
  obtain ⟨_, hn₂⟩ := hfound _ _ (labelAt_eq_ok.1 hstop)
  obtain ⟨_, hn₃⟩ := hfound _ _ (labelAt_eq_ok.1 htarget)
  exact ⟨_, (Repeats.offsetOf hn₁).bind ((Repeats.offsetOf hn₂).bind ((Repeats.offsetOf hn₃).bind
    ((Repeats.optionMapM hcatch h.className).bind (.pure p _))))⟩

omit h in
theorem exists_lineNumber {x : Stored.LineNumber} {line : LineNumber}
    (hx : Resolver.lineNumber labels x = .ok line) :
    ∃ y, Repeats p (PoolM.lineNumber found line) y := by
  obtain ⟨start, hstart, hx⟩ := bind_eq_ok.1 hx
  obtain rfl := pure_eq_ok.1 hx
  obtain ⟨_, hn⟩ := hfound _ _ (labelAt_eq_ok.1 hstart)
  exact ⟨_, (Repeats.offsetOf hn).bind (.pure p _)⟩

end Tables

theorem exists_localVariable (h : p.Knows r count) {pairs : List (Nat × Nat)} {b b' : Boundaries}
    {codeLength codeLength' : Nat}
    (hrelaid : Relaid labels found pairs b b' codeLength codeLength')
    (hfound : ∀ (o : Nat) (k : Label), labels[o]? = some k →
      ∃ n, (o, n) ∈ pairs ∧ found[k]? = some n)
    {x : Stored.LocalVariable} {v : LocalVariable} (hx : r.localVariable labels x = .ok v) :
    ∃ y, Repeats p (PoolM.localVariable found v) y := by
  unfold Resolver.localVariable at hx
  obtain ⟨start, hstart, hx⟩ := bind_eq_ok.1 hx
  obtain ⟨stop, hstop, hx⟩ := bind_eq_ok.1 hx
  obtain ⟨name, hname, hx⟩ := bind_eq_ok.1 hx
  obtain ⟨descriptor, hdescriptor, hx⟩ := bind_eq_ok.1 hx
  obtain rfl := pure_eq_ok.1 hx
  obtain ⟨n, hpair, hn⟩ := hfound _ _ (labelAt_eq_ok.1 hstart)
  obtain ⟨n', hpair', hn'⟩ := hfound _ _ (labelAt_eq_ok.1 hstop)
  have hle : ¬ UInt16.ofNat n' < UInt16.ofNat n := by
    rw [UInt16.lt_iff_toNat_lt, hrelaid.toNat_ofNat hpair, hrelaid.toNat_ofNat hpair',
      ← hrelaid.moves.lt_iff hpair' hpair]
    exact Nat.not_lt.2 (Nat.le_add_right _ _)
  unfold PoolM.localVariable
  refine (Repeats.offsetOf hn).exists_bind ((Repeats.offsetOf hn').exists_bind ?_)
  rw [if_neg hle]
  exact ⟨_, (h.utf8 hname).bind ((h.utf8 hdescriptor).bind (.pure p _))⟩

end Pool.Knows

section Frames

variable {p : Pool} {r : Resolver} {count : Nat} {found : LabelOffsets}

/-- A type whose class is known and whose site is found is lowered. -/
def LowersType (p : Pool) (found : LabelOffsets) (t : VerificationType RefType Label) : Prop :=
  ∃ u, Repeats p (t.mapM PoolM.refType (PoolM.offsetOf found)) u

theorem exists_frameChange {change : FrameChange RefType Label}
    (h : ∀ t ∈ change.types, LowersType p found t) :
    ∃ y, Repeats p (change.mapM PoolM.refType (PoolM.offsetOf found)) y := by
  cases change with
  | same | chop => exact ⟨_, .pure p _⟩
  | sameWithStack t =>
    obtain ⟨u, hu⟩ := h t (List.mem_singleton_self t)
    exact ⟨_, hu.bind (.pure p _)⟩
  | append locals =>
    obtain ⟨us, hus⟩ := Repeats.exists_mapM h
    exact ⟨_, hus.bind (.pure p _)⟩
  | full locals stack =>
    obtain ⟨us, hus⟩ := Repeats.exists_mapM fun t ht => h t (List.mem_append_left _ ht)
    obtain ⟨vs, hvs⟩ := Repeats.exists_mapM fun t ht => h t (List.mem_append_right _ ht)
    exact ⟨_, hus.bind (hvs.bind (.pure p _))⟩

theorem Pool.Knows.lowersType (h : p.Knows r count) {t : VerificationType ConstantIndex UInt16}
    {u : VerificationType RefType UInt16} (ht : t.mapM r.refType pure = .ok u) {f : UInt16 → Label}
    (hsite : ∀ s ∈ u.site?, ∃ n, found[f s]? = some n) : LowersType p found (u.mapSite f) := by
  cases t with
  | object i =>
    obtain ⟨c, hc, ht⟩ := bind_eq_ok.1 ht
    obtain rfl := pure_eq_ok.1 ht
    exact ⟨_, (h.refType hc).bind (.pure p _)⟩
  | uninitialized s =>
    obtain ⟨s, -, ht⟩ := bind_eq_ok.1 ht
    obtain rfl := pure_eq_ok.1 ht
    obtain ⟨n, hn⟩ := hsite s rfl
    exact ⟨_, (Repeats.offsetOf hn).bind (.pure p _)⟩
  | _ =>
    obtain rfl := pure_eq_ok.1 ht
    exact ⟨_, .pure p _⟩

theorem Pool.Knows.exists_compress (h : p.Knows r count)
    {stored : FrameChange ConstantIndex UInt16} {change : FrameChange RefType UInt16}
    {before frame : Frame RefType UInt16} (hchange : stored.mapM r.refType pure = .ok change)
    (happly : before.apply change = .ok frame) (hfits : stored.Fits) {f : UInt16 → Label}
    (hsites : ∀ s ∈ frame.sites, ∃ n, found[f s]? = some n) :
    ∃ y, Repeats p (((frame.mapSites f).compress (before.mapSites f)).mapM PoolM.refType
      (PoolM.offsetOf found)) y := by
  refine exists_frameChange fun u hu => ?_
  have hfits' := FrameChange.fits_mapSites (f := f) ((FrameChange.fits_iff_of_mapM hchange).2 hfits)
  have htypes := Frame.mem_types_of_mem_types_compress (Frame.apply_mapSites f happly) hfits' hu
  rw [FrameChange.types_mapSites] at htypes
  obtain ⟨t, ht, rfl⟩ := List.mem_map.1 htypes
  obtain ⟨t₀, -, ht₀⟩ := FrameChange.exists_of_mem_types hchange ht
  refine h.lowersType ht₀ fun s hs => ?_
  -- the type is one of the frame, so its site is one of the frame
  have hmem := Frame.mem_of_mem_types_compress hu
  have hsite : f s ∈ (frame.mapSites f).sites := by
    refine List.mem_filterMap.2 ⟨_, hmem, ?_⟩
    rw [VerificationType.site?_mapSite, hs, Option.map_some]
  rw [Frame.sites_mapSites] at hsite
  obtain ⟨s', hs', heq⟩ := List.mem_map.1 hsite
  rw [← heq]
  exact hsites s' hs'

theorem Pool.Knows.exists_frameEntries (h : p.Knows r count) {labels : Std.HashMap Nat Label}
    {pairs : List (Nat × Nat)} {b : Boundaries} {codeLength : Nat} {previous : Option Nat}
    {before : Frame RefType UInt16} {entries : List Stored.FrameEntry}
    {frames : List PlacedFrame}
    (hlifted : FramesLifted r b codeLength previous before entries frames)
    (hfits : ∀ e ∈ entries, e.change.Fits) {placed : List (UInt16 × BodyFrame)}
    (hmoved : List.Forall₂ (FrameMoved labels pairs found) frames placed)
    (previous' : Option UInt16) :
    ∃ es, Repeats p
        (PoolM.frameEntries found previous' (before.mapSites (siteLabel labels)) placed) es
      ∧ ∀ e ∈ es, e.change.Writable := by
  induction hlifted generalizing placed previous' with
  | nil =>
    cases hmoved
    exact ⟨[], .pure p [], List.forall_mem_nil _⟩
  | @cons previous before frame entry entries change offset frames _ hchange happly _ _ ih =>
    obtain ⟨⟨o, g⟩, rest, hg, hrest, rfl⟩ := List.forall₂_cons_left_iff.1 hmoved
    rw [List.forall_mem_cons] at hfits
    obtain rfl : g = _ := hg.frame
    obtain ⟨y, hy⟩ := h.exists_compress hchange happly hfits.1 fun s hs => ⟨_, (hg.sites s hs).2⟩
    obtain ⟨es, hes, hwritable⟩ := ih hfits.2 hrest (some o)
    have hresolves : FrameChange.ResolvesTo _ y := ⟨_, _, p, p, hy p (.refl p)⟩
    refine ⟨⟨frameDelta previous' o, y⟩ :: es, ?_, List.forall_mem_cons.2 ⟨?_, hwritable⟩⟩
    · unfold PoolM.frameEntries
      exact hy.bind (hes.bind (.pure p _))
    · exact hresolves.keeps.1.1 (Frame.compress_writable _ _)

end Frames

theorem PoolM.repeated?_of_pairwise_lt {offsets : List UInt16} (h : offsets.Pairwise (· < ·)) :
    repeated? offsets = none := by
  induction offsets using repeated?.induct with
  | case1 a rest => exact absurd ((List.pairwise_cons.1 h).1 a List.mem_cons_self) (UInt16.lt_irrefl a)
  | case2 a b rest hne ih =>
    rw [repeated?, if_neg hne]
    exact ih (List.pairwise_cons.1 h).2
  | case3 offsets hshort =>
    cases offsets with
    | nil => rfl
    | cons a rest =>
      cases rest with
      | nil => rfl
      | cons b rest => exact absurd rfl (hshort a b rest)

namespace Pool.Knows

section Around

variable {p : Pool} {r : Resolver} {P : Prop} {count : Nat} {context : MethodContext}
  {x : Stored.Code} {parts : CodeParts} {c : Code} {a : AssembledCode} {pairs : List (Nat × Nat)}
  {b' : Boundaries} {codeLength' : Nat} (h : p.Knows r count)
  (hlifted : CodeLifted r context x parts c)
  (hrelaid : Relaid parts.labels a.labels pairs parts.boundaries b' parts.codeLength codeLength')

include h hlifted hrelaid

theorem exists_frameTable {i : ConstantIndex} (hname : r.utf8 i = .ok "StackMapTable") :
    ∃ y, Repeats p (PoolM.frameTable a.labels context c.frames) y := by
  let placed := c.frames.map fun g => (a.labels.position g.1, g.2)
  have hfound {g : Label × BodyFrame} (hg : g ∈ c.frames) : ∃ n, a.labels[g.1]? = some n := by
    obtain ⟨-, o, ho, -⟩ := hlifted.exists_of_mem_frames hg
    obtain ⟨n, -, hn⟩ := hlifted.exists_found hrelaid ho
    exact ⟨n, hn⟩
  have hplaced : List.Forall₂ (fun g q => a.labels.At g.1 q.1 ∧ q.2 = g.2) c.frames placed := by
    refine List.forall₂_map_right_iff.2 (List.forall₂_same.2 fun g hg => ⟨?_, rfl⟩)
    obtain ⟨n, hn⟩ := hfound hg
    exact ⟨n, hn, Relaid.position_eq hn⟩
  obtain ⟨hmoved, hincreasing, hsorted⟩ := hlifted.placed_moved hrelaid hplaced
  have hplace : Repeats p (PoolM.placeFrames a.labels c.frames) placed := by
    have hmap : Repeats p (c.frames.mapM fun g => do
        return (← PoolM.offsetOf a.labels g.1, g.2)) placed := by
      refine .mapM (List.forall₂_map_right_iff.2 (List.forall₂_same.2 fun g hg => ?_))
      obtain ⟨n, hn⟩ := hfound hg
      rw [Relaid.position_eq hn]
      exact (Repeats.offsetOf hn).bind (.pure p _)
    have hsort := hmap.bind (f := fun placed => do
      return placed.mergeSort fun f g => f.1 ≤ g.1) (.pure p _)
    rwa [hsorted] at hsort
  have hnone : PoolM.repeated? (placed.map (·.1)) = none :=
    PoolM.repeated?_of_pairwise_lt (List.pairwise_map.2 hincreasing)
  obtain ⟨-, -, hfits⟩ := storable_of_tables hlifted.tables
  obtain ⟨es, hes, hwritable⟩ := h.exists_frameEntries hlifted.framesLifted hfits hmoved none
  rw [MethodContext.mapSites_initialFrame] at hes
  obtain ⟨written, hwritten⟩ := exists_mapM fun e he =>
    Stored.FrameEntry.exists_write (hwritable e he)
  refine hplace.exists_bind ?_
  simp only [hnone]
  exact ⟨_, hes.bind (h.store hname (bind_of_eq_ok hwritten _))⟩

theorem codeAround : Quiet p P (PoolM.codeAround context c a) := by
  have hnamed := named_of_tables hlifted.tables
  have hfound (o : Nat) (k : Label) (ho : parts.labels[o]? = some k) :
      ∃ n, a.labels[k]? = some n := by
    obtain ⟨n, -, hn⟩ := hlifted.exists_found hrelaid ho
    exact ⟨n, hn⟩
  have hhandlers : Quiet p P (c.exceptionHandlers.mapM (PoolM.exceptionHandler a.labels)) := by
    refine .mapM fun handler hhandler => ?_
    obtain ⟨y, -, hy⟩ := exists_of_mem_mapM hlifted.exceptionHandlers hhandler
    exact .of_repeats (h.exists_exceptionHandler hfound hy).choose_spec
  have hlines : Quiet p P (PoolM.unlessEmpty (fun ls => do
      AttributeFormat.lineNumberTable.store (← ls.mapM (PoolM.lineNumber a.labels)))
      c.lineNumbers) := by
    refine .unlessEmpty fun l hl => ?_
    obtain ⟨y, hy, -⟩ := exists_of_mem_mapM hlifted.lineNumbers hl
    obtain ⟨i, hi⟩ := hnamed.lineNumbers y (List.mem_of_mem_filter hy)
    refine Quiet.bind (.mapM fun l hl => ?_) fun _ _ => .of_repeats (h.storeTotal hi)
    obtain ⟨y, -, hy⟩ := exists_of_mem_mapM hlifted.lineNumbers hl
    exact .of_repeats (exists_lineNumber hfound hy).choose_spec
  have hvariables {name : String} {vs : List Stored.LocalVariable} {ws : List LocalVariable}
      (hvs : vs.mapM (r.localVariable parts.labels) = .ok ws)
      (hname : ∀ v ∈ vs, ∃ i, r.utf8 i = .ok name) : Quiet p P (PoolM.unlessEmpty (fun vs => do
        (AttributeFormat.localVariables name).store
          (← vs.mapM (PoolM.localVariable a.labels))) ws) := by
    refine .unlessEmpty fun w hw => ?_
    obtain ⟨v, hv, -⟩ := exists_of_mem_mapM hvs hw
    obtain ⟨i, hi⟩ := hname v hv
    refine Quiet.bind (.mapM fun w hw => ?_) fun _ _ => .of_repeats (h.storeTotal hi)
    obtain ⟨v, -, hv⟩ := exists_of_mem_mapM hvs hw
    exact .of_repeats (h.exists_localVariable hrelaid
      (fun o k ho => hlifted.exists_found hrelaid ho) hv).choose_spec
  have hlocals := hvariables hlifted.localVariables
    fun v hv => hnamed.localVariables v (List.mem_of_mem_filter hv)
  have htypes := hvariables hlifted.localVariableTypes
    fun v hv => hnamed.localVariableTypes v (List.mem_of_mem_filter hv)
  have hframes : Quiet p P (PoolM.unlessEmpty (PoolM.frameTable a.labels context) c.frames) := by
    refine .unlessEmpty fun g hg => ?_
    obtain ⟨f, hf, -⟩ := exists_of_mem_mapM hlifted.bodyFrames hg
    obtain ⟨e, he⟩ : ∃ e, e ∈ parts.tables.frames := by
      refine List.exists_mem_of_length_pos ?_
      rw [← hlifted.framesLifted.length_eq]
      exact List.length_pos_of_mem hf
    obtain ⟨i, hi⟩ := hnamed.frames e he
    exact .of_repeats (h.exists_frameTable hlifted hrelaid hi).choose_spec
  have hattributes : Quiet p P (c.attributes.mapM PoolM.verbatim) := by
    refine .mapM fun v hv => ?_
    rw [hlifted.attributes] at hv
    obtain ⟨i, hi⟩ := hnamed.attributes v hv
    exact .of_repeats (h.verbatim hi)
  unfold PoolM.codeAround
  refine hhandlers.bind fun _ _ => hlines.bind fun _ _ => hlocals.bind fun _ _ =>
    htypes.bind fun _ _ => hframes.bind fun _ _ => hattributes.bind fun _ _ => ?_
  rw [hlifted.maxStack]
  exact .pure _

end Around

theorem code {s : Rereading} {r : Resolver} {P : Prop} {context : MethodContext} {x : Stored.Code}
    {c : Code} (h : s.pool.Knows r r.bootstrapMethods.length) (hr : r.RefersBack)
    (hwf : ¬ s.wellFormed) (hx : r.code context x = .ok c)
    (hP : ¬ P → Canonical x.code ∧ x.code.length ≤ maxCodeLength) :
    Quiet s.pool P (PoolM.code context c) := by
  obtain ⟨parts, hlifted⟩ := codeLifted_of_code hx
  obtain ⟨elements, helements, hlaid⟩ := hlifted.exists_elementsLowered h hr hwf
  have hrepeats : Repeats s.pool (c.elements.mapM PoolM.layoutElement) elements :=
    .mapM (helements.imp fun _ _ => ElementLowered.repeats)
  have hlayout : Quiet s.pool P (PoolM.layout c.elements) := by
    refine (Quiet.of_repeats hrepeats).bind fun elements' hrun => .lift fun e he => ?_
    rw [hrepeats s.pool (.refl _)] at hrun
    cases hrun
    by_contra hnot
    obtain ⟨hcanonical, hlength⟩ := hP hnot
    rw [hlifted.assemble_of_canonical hcanonical hlaid, if_neg (Nat.not_lt.2 hlength)] at he
    cases he
  rw [PoolM.code_eq]
  refine hlayout.bind fun a hrun => ?_
  obtain ⟨elements', p', helements', hrun⟩ := run_bind_eq_ok.1 hrun
  rw [hrepeats s.pool (.refl _)] at helements'
  cases helements'
  obtain ⟨hassemble, -⟩ := run_lift_eq_ok.1 hrun
  obtain ⟨_, _, _, -, -, -, -, hrelaid, -⟩ := hlifted.relaid helements hassemble
  exact h.codeAround hlifted hrelaid

end Pool.Knows

end ClassPatch
