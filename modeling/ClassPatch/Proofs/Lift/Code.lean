import ClassPatch.Proofs.Lift.Attribute
import ClassPatch.Proofs.Lift.Relaid
import ClassPatch.Proofs.Lift.Settled

/-!
Code that was lifted and lowered is lifted to the same code again, up to the form of jumps and the
padding of switches.
-/

namespace ClassPatch

/-- Branches that differ in the width of a jump or in the padding of a switch at most. -/
inductive Branch.Rewritten {L : Type} : Branch L L → Branch L L → Prop where
  | same (b : Branch L L) : Rewritten b b
  | goto (target : L) : Rewritten (.goto target) (.gotoWide target)
  | jsr (target : L) : Rewritten (.jsr target) (.jsrWide target)
  | tableSwitch (padding padding' : UInt8) (fallback : L) (low : Int32) (targets : List L) :
    Rewritten (.tableSwitch padding fallback low targets)
      (.tableSwitch padding' fallback low targets)
  | lookupSwitch (padding padding' : UInt8) (fallback : L) (pairs : List (Int32 × L)) :
    Rewritten (.lookupSwitch padding fallback pairs) (.lookupSwitch padding' fallback pairs)

theorem Branch.rewritten_aligned {L : Type} {b c : Branch L L} (h : b.Widened c) (offset : Nat) :
    b.Rewritten (c.aligned offset) := by
  cases h with
  | same =>
    cases b with
    | tableSwitch padding fallback low targets => exact .tableSwitch _ _ _ _ _
    | lookupSwitch padding fallback pairs => exact .lookupSwitch _ _ _ _
    | _ => exact .same _
  | goto target => exact .goto target
  | jsr target => exact .jsr target

/-- Elements that differ in the form of a branch at most. -/
inductive BodyElement.Rewritten : BodyElement → BodyElement → Prop where
  | label (label : Label) : Rewritten (.label label) (.label label)
  | instruction (i : SymbolicInstruction) : Rewritten (.instruction i) (.instruction i)
  | branch {b c : SymbolicBranch} (h : b.Rewritten c) : Rewritten (.branch b) (.branch c)

/-- Code that differs in the form of its branches at most. -/
def Code.Rewritten (c d : Code) : Prop :=
  ∃ elements, List.Forall₂ BodyElement.Rewritten c.elements elements ∧ d = { c with elements }

theorem laidOutAs_of_rewritten {s : Rereading} {e f : BodyElement} {l : LayoutElement}
    (hl : ElementPlaced s e l) (hf : e.Rewritten f) : LaidOutAs s l f := by
  cases hl with
  | label k =>
    cases hf
    exact .label k
  | instruction _ hrepeats =>
    cases hf
    exact .instruction hrepeats
  | branch _ =>
    cases hf
    exact .branch _ _

/-- Code that was lifted, and that is lowered to the same as the other. -/
structure Code.Settled (s : Rereading) (c d : Code) : Prop where
  laidOut : LaidOutAlike s c.elements d.elements
  maxStack : c.maxStack.isSome
  maxLocals : c.maxLocals.isSome

section Tables

variable {r : Resolver} {t : Stored.CodeTables} {a : Stored.Attribute}

theorem add_lineNumberTable {ls : List Stored.LineNumber}
    (hname : r.utf8 a.nameIndex = .ok "LineNumberTable")
    (h : AttributeFormat.lineNumberTable.parse a.info = .ok ls) :
    t.add r a = .ok { t with lineNumbers := t.lineNumbers ++ ls } := by
  unfold Stored.CodeTables.add
  simp only [hname, h, ok_bind]
  rfl

theorem add_localVariableTable {vs : List Stored.LocalVariable}
    (hname : r.utf8 a.nameIndex = .ok "LocalVariableTable")
    (h : AttributeFormat.localVariableTable.parse a.info = .ok vs) :
    t.add r a = .ok { t with localVariables := t.localVariables ++ vs } := by
  unfold Stored.CodeTables.add
  simp only [hname, h, ok_bind]
  rfl

theorem add_localVariableTypeTable {vs : List Stored.LocalVariable}
    (hname : r.utf8 a.nameIndex = .ok "LocalVariableTypeTable")
    (h : AttributeFormat.localVariableTypeTable.parse a.info = .ok vs) :
    t.add r a = .ok { t with localVariableTypes := t.localVariableTypes ++ vs } := by
  unfold Stored.CodeTables.add
  simp only [hname, h, ok_bind]
  rfl

theorem add_stackMapTable {es : List Stored.FrameEntry}
    (hname : r.utf8 a.nameIndex = .ok "StackMapTable")
    (h : AttributeFormat.stackMapTable.parse a.info = .ok es) :
    t.add r a = .ok { t with frames := es } := by
  unfold Stored.CodeTables.add
  simp only [hname, h, ok_bind]
  rfl

theorem add_verbatim {name : String} (hname : r.utf8 a.nameIndex = .ok name)
    (h : name ∉ Resolver.codeAttributes) :
    t.add r a = .ok { t with attributes := t.attributes ++ [⟨name, a.info⟩] } := by
  unfold Stored.CodeTables.add
  rw [hname, ok_bind]
  split
  · exact absurd (by decide) h
  · exact absurd (by decide) h
  · exact absurd (by decide) h
  · exact absurd (by decide) h
  · rfl

theorem add_verbatims {vs : List VerbatimAttribute} {xs : List Stored.Attribute}
    (h : List.Forall₂ r.Carries vs xs) (hnames : ∀ v ∈ vs, v.name ∉ Resolver.codeAttributes) :
    xs.foldlM (Stored.CodeTables.add r) t = .ok { t with attributes := t.attributes ++ vs } := by
  induction h generalizing t with
  | nil =>
    rw [List.append_nil]
    rfl
  | cons hhead htail ih =>
    rw [List.forall_mem_cons] at hnames
    rw [List.foldlM_cons, add_verbatim hhead.name hnames.1, ok_bind, ih hnames.2, hhead.info]
    dsimp only
    rw [List.append_assoc]
    rfl

theorem table_of_unlessEmpty {α β : Type} {format : AttributeFormat (List β)} {P : α → β → Prop}
    {as : List α} {xs : List Stored.Attribute}
    (h : UnlessEmpty (StoresTable r format (List.Forall₂ P)) as xs)
    (hreads : ∀ bs : List β, bs.length = as.length → format.ReadsBack bs) :
    ∃ bs, List.Forall₂ P as bs
      ∧ (xs = [] ∧ bs = [] ∨ ∃ x, xs = [x] ∧ r.utf8 x.nameIndex = .ok format.name
        ∧ format.parse x.info = .ok bs) := by
  cases h with
  | nil => exact ⟨[], .nil, .inl ⟨rfl, rfl⟩⟩
  | @cons a as x h =>
    obtain ⟨bs, hwrite, hbs⟩ := h.content
    exact ⟨bs, hbs, .inr ⟨x, rfl, h.name, hreads bs hbs.length_eq.symm _ hwrite⟩⟩

theorem frames_of_unlessEmpty {found : LabelOffsets} {context : MethodContext}
    {frames : List (Label × BodyFrame)} {xs : List Stored.Attribute}
    (h : UnlessEmpty (StoresTable r .stackMapTable (FrameTableLowered r found context)) frames xs)
    (hreads : ∀ es, FrameTableLowered r found context frames es →
      AttributeFormat.stackMapTable.ReadsBack es) :
    ∃ es, FrameTableLowered r found context frames es
      ∧ (xs = [] ∧ es = [] ∨ ∃ x, xs = [x] ∧ r.utf8 x.nameIndex = .ok "StackMapTable"
        ∧ AttributeFormat.stackMapTable.parse x.info = .ok es) := by
  cases h with
  | nil =>
    refine ⟨[], ⟨[], .nil, ?_⟩, .inl ⟨rfl, rfl⟩⟩
    rw [List.mergeSort_nil]
    exact .nil
  | @cons f frames x h =>
    obtain ⟨es, hwrite, hes⟩ := h.content
    exact ⟨es, hes, .inr ⟨x, rfl, h.name, hreads es hes _ hwrite⟩⟩

end Tables

/-- The tables of lowered code, as its attributes are added up again. -/
structure TablesLowered (r : Resolver) (found : LabelOffsets) (context : MethodContext) (c : Code)
    (tables : Stored.CodeTables) : Prop where
  lineNumbers : List.Forall₂ (LineLowered found) c.lineNumbers tables.lineNumbers
  localVariables : List.Forall₂ (VariableLowered r found) c.localVariables tables.localVariables
  localVariableTypes :
    List.Forall₂ (VariableLowered r found) c.localVariableTypes tables.localVariableTypes
  frames : FrameTableLowered r found context c.frames tables.frames
  attributes : tables.attributes = c.attributes

/-- Debug information can be counted. -/
structure Code.TablesFit (c : Code) : Prop where
  lineNumbers : c.lineNumbers.length ≤ 0xFFFF
  localVariables : c.localVariables.length ≤ 0xFFFF
  localVariableTypes : c.localVariableTypes.length ≤ 0xFFFF

theorem tables_of_lowered {r : Resolver} {found : LabelOffsets} {context : MethodContext}
    {c : Code} {xs : List Stored.Attribute} (h : CodeAttributesLowered r found context c xs)
    (hfit : c.TablesFit)
    (hframes : ∀ es, FrameTableLowered r found context c.frames es →
      AttributeFormat.stackMapTable.ReadsBack es)
    (hnames : ∀ v ∈ c.attributes, v.name ∉ Resolver.codeAttributes) :
    ∃ tables, xs.foldlM (Stored.CodeTables.add r) {} = .ok tables
      ∧ TablesLowered r found context c tables := by
  obtain ⟨hlines, hlocals, htypes, hframeTable, hattributes⟩ := h
  obtain ⟨ls, hls, hlines⟩ := table_of_unlessEmpty hlines fun bs hbs =>
    AttributeFormat.readsBack_lineNumberTable (hbs ▸ hfit.lineNumbers)
  obtain ⟨vs, hvs, hlocals⟩ := table_of_unlessEmpty hlocals fun bs hbs =>
    AttributeFormat.readsBack_localVariables "LocalVariableTable" (hbs ▸ hfit.localVariables)
  obtain ⟨ts, hts, htypes⟩ := table_of_unlessEmpty htypes fun bs hbs =>
    AttributeFormat.readsBack_localVariables "LocalVariableTypeTable"
      (hbs ▸ hfit.localVariableTypes)
  obtain ⟨es, hes, hframeTable⟩ := frames_of_unlessEmpty hframeTable hframes
  refine ⟨⟨ls, vs, ts, es, c.attributes⟩, ?_, hls, hvs, hts, hes, rfl⟩
  refine foldlM_append_eq_ok.2 ⟨⟨ls, vs, ts, es, []⟩, ?_, add_verbatims hattributes hnames⟩
  refine foldlM_append_eq_ok.2 ⟨⟨ls, vs, ts, [], []⟩, ?_, ?_⟩
  · refine foldlM_append_eq_ok.2 ⟨⟨ls, vs, [], [], []⟩, ?_, ?_⟩
    · refine foldlM_append_eq_ok.2 ⟨⟨ls, [], [], [], []⟩, ?_, ?_⟩
      · rcases hlines with ⟨rfl, rfl⟩ | ⟨x, rfl, hname, hparse⟩
        · rfl
        · rw [List.foldlM_cons, add_lineNumberTable hname hparse]
          rfl
      · rcases hlocals with ⟨rfl, rfl⟩ | ⟨x, rfl, hname, hparse⟩
        · rfl
        · rw [List.foldlM_cons, add_localVariableTable hname hparse]
          rfl
    · rcases htypes with ⟨rfl, rfl⟩ | ⟨x, rfl, hname, hparse⟩
      · rfl
      · rw [List.foldlM_cons, add_localVariableTypeTable hname hparse]
        rfl
  · rcases hframeTable with ⟨rfl, rfl⟩ | ⟨x, rfl, hname, hparse⟩
    · rfl
    · rw [List.foldlM_cons, add_stackMapTable hname hparse]
      rfl

/-- What code is taken apart into before it is lifted. -/
structure CodeParts where
  codeLength : Nat
  decoded : List (Nat × Decoded)
  tables : Stored.CodeTables
  targets : List (List Nat)
  handlerOffsets : List (List Nat)
  frames : List PlacedFrame
  frameOffsets : List (List Nat)

namespace CodeParts

def boundaries (p : CodeParts) : Boundaries := .ofDecoded p.decoded p.codeLength

/-- The tables without debug information that is not at boundaries. -/
def placedTables (p : CodeParts) : Stored.CodeTables := p.tables.dropMisplaced p.boundaries

/-- Offsets that something refers to. -/
def marked (p : CodeParts) : List Nat :=
  p.targets.flatten ++ p.handlerOffsets.flatten ++ p.placedTables.offsets ++ p.frameOffsets.flatten

def labels (p : CodeParts) : Std.HashMap Nat Label := p.boundaries.labels p.marked

end CodeParts

/-- The frame of a body that a placed frame stands for. -/
def liftFrame (labels : Std.HashMap Nat Label) (f : PlacedFrame) :
    Except ClassError (Label × BodyFrame) := do
  let frame ← f.2.mapM pure fun site => labelAt labels site.toNat
  return (← labelAt labels f.1, frame)

theorem frameLabelled_of_liftFrame {labels : Std.HashMap Nat Label} {f : PlacedFrame}
    {g : Label × BodyFrame} (h : liftFrame labels f = .ok g) : FrameLabelled labels f g := by
  obtain ⟨frame, hframe, h⟩ := bind_eq_ok.1 h
  obtain ⟨label, hlabel, h⟩ := bind_eq_ok.1 h
  obtain rfl := pure_eq_ok.1 h
  have hsites : ∀ u ∈ f.2.sites, labels[u.toNat]? = some (siteLabel labels u) := by
    intro u hu
    obtain ⟨k, hk⟩ := Frame.site_of_mapM hframe u hu
    rw [labelAt_eq_ok] at hk
    unfold siteLabel
    rw [hk]
    rfl
  refine ⟨labelAt_eq_ok.1 hlabel, ?_, hsites⟩
  rw [Frame.mapM_of_sites fun u hu => labelAt_eq_ok.2 (hsites u hu)] at hframe
  exact (Except.ok.inj hframe).symm

/-- Code, its parts and what it is lifted to. -/
structure CodeLifted (r : Resolver) (context : MethodContext) (x : Stored.Code) (p : CodeParts)
    (c : Code) : Prop where
  codeLength : p.codeLength = x.code.length
  decoded : decodeCode x.code = .ok p.decoded
  tables : x.attributes.foldlM (Stored.CodeTables.add r) {} = .ok p.tables
  targets : p.decoded.mapM (fun d => d.2.checkedTargets p.boundaries d.1) = .ok p.targets
  handlerOffsets : x.exceptionTable.mapM (·.offsets p.boundaries) = .ok p.handlerOffsets
  frames : PlacedFrame.ofEntries r p.boundaries p.codeLength none context.initialFrame
    p.placedTables.frames = .ok p.frames
  frameOffsets : p.frames.mapM (PlacedFrame.offsets p.boundaries) = .ok p.frameOffsets
  elements : ∃ body, p.decoded.mapM (fun d => r.bodyElement p.labels d.1 d.2) = .ok body
    ∧ c.elements = body.flatten ++ labelElement p.labels p.codeLength
  exceptionHandlers : x.exceptionTable.mapM (r.exceptionHandler p.labels) = .ok c.exceptionHandlers
  lineNumbers :
    p.placedTables.lineNumbers.mapM (Resolver.lineNumber p.labels) = .ok c.lineNumbers
  localVariables :
    p.placedTables.localVariables.mapM (r.localVariable p.labels) = .ok c.localVariables
  localVariableTypes :
    p.placedTables.localVariableTypes.mapM (r.localVariable p.labels) = .ok c.localVariableTypes
  bodyFrames : p.frames.mapM (liftFrame p.labels) = .ok c.frames
  attributes : c.attributes = p.placedTables.attributes
  maxStack : c.maxStack = some x.maxStack
  maxLocals : c.maxLocals = some x.maxLocals

theorem codeLifted_of_code {r : Resolver} {context : MethodContext} {x : Stored.Code} {c : Code}
    (h : r.code context x = .ok c) : ∃ p, CodeLifted r context x p c := by
  unfold Resolver.code at h
  obtain ⟨decoded, hdecoded, h⟩ := bind_eq_ok.1 h
  obtain ⟨tables, htables, h⟩ := bind_eq_ok.1 h
  obtain ⟨targets, htargets, h⟩ := bind_eq_ok.1 h
  obtain ⟨handlerOffsets, hhandlerOffsets, h⟩ := bind_eq_ok.1 h
  obtain ⟨frames, hframes, h⟩ := bind_eq_ok.1 h
  obtain ⟨frameOffsets, hframeOffsets, h⟩ := bind_eq_ok.1 h
  obtain ⟨body, hbody, h⟩ := bind_eq_ok.1 h
  obtain ⟨handlers, hhandlers, h⟩ := bind_eq_ok.1 h
  obtain ⟨lines, hlines, h⟩ := bind_eq_ok.1 h
  obtain ⟨locals, hlocals, h⟩ := bind_eq_ok.1 h
  obtain ⟨types, htypes, h⟩ := bind_eq_ok.1 h
  obtain ⟨bodyFrames, hbodyFrames, h⟩ := bind_eq_ok.1 h
  obtain rfl := pure_eq_ok.1 h
  exact ⟨⟨x.code.length, decoded, tables, targets, handlerOffsets, frames, frameOffsets⟩, rfl,
    hdecoded, htables, htargets, hhandlerOffsets, hframes, hframeOffsets, ⟨body, hbody, rfl⟩,
    hhandlers, hlines, hlocals, htypes, hbodyFrames, rfl, rfl, rfl⟩

theorem code_of_codeLifted {r : Resolver} {context : MethodContext} {x : Stored.Code}
    {p : CodeParts} {c : Code} (h : CodeLifted r context x p c) : r.code context x = .ok c := by
  obtain ⟨codeLength, decoded, tables, targets, handlerOffsets, frames, frameOffsets⟩ := p
  obtain rfl : codeLength = x.code.length := h.codeLength
  obtain ⟨body, hbody, helements⟩ := h.elements
  unfold Resolver.code
  refine (bind_of_eq_ok h.decoded _).trans ?_
  refine (bind_of_eq_ok h.tables _).trans ?_
  refine (bind_of_eq_ok h.targets _).trans ?_
  refine (bind_of_eq_ok h.handlerOffsets _).trans ?_
  refine (bind_of_eq_ok h.frames _).trans ?_
  refine (bind_of_eq_ok h.frameOffsets _).trans ?_
  refine (bind_of_eq_ok hbody _).trans ?_
  refine (bind_of_eq_ok h.exceptionHandlers _).trans ?_
  refine (bind_of_eq_ok h.lineNumbers _).trans ?_
  refine (bind_of_eq_ok h.localVariables _).trans ?_
  refine (bind_of_eq_ok h.localVariableTypes _).trans ?_
  refine (bind_of_eq_ok h.bodyFrames _).trans ?_
  obtain ⟨maxStack, maxLocals, elements, handlers, lines, locals, types, bodyFrames,
    attributes⟩ := c
  obtain rfl : maxStack = some x.maxStack := h.maxStack
  obtain rfl : maxLocals = some x.maxLocals := h.maxLocals
  obtain rfl : attributes = _ := h.attributes
  rw [show elements = _ from helements]
  rfl

namespace CodeLifted

variable {r : Resolver} {s : Rereading} {context : MethodContext} {x : Stored.Code}
  {p : CodeParts} {c : Code}

theorem decodedFrom (h : CodeLifted r context x p c) : DecodedFrom p.codeLength 0 p.decoded := by
  rw [h.codeLength]
  exact decodedFrom_of_decodeCode h.decoded

theorem labels_iff (h : CodeLifted r context x p c) (o : Nat) (k : Label) :
    p.labels[o]? = some k
      ↔ ((boundaryOffsets p.decoded p.codeLength).filter p.marked.contains)[k]? = some o :=
  Boundaries.labels_eq_some_iff h.decodedFrom.increasing

theorem injective (h : CodeLifted r context x p c) (o o' : Nat) (k : Label)
    (ho : p.labels[o]? = some k) (ho' : p.labels[o']? = some k) : o = o' := by
  rw [h.labels_iff] at ho ho'
  exact Option.some.inj (ho.symm.trans ho')

theorem branch_fits (h : CodeLifted r context x p c) {b : SymbolicBranch}
    (hb : .branch b ∈ c.elements) :
    (∀ k ∈ b.targets, ∃ o, p.labels[o]? = some k ∧ o < p.codeLength) ∧ b.CasesFit := by
  obtain ⟨body, hbody, helements⟩ := h.elements
  rw [helements] at hb
  rcases List.mem_append.1 hb with hb | hb
  · obtain ⟨es, hes, hb⟩ := List.mem_flatten.1 hb
    obtain ⟨⟨o, d⟩, hd, hlifted⟩ := exists_of_mem_mapM hbody hes
    obtain ⟨e, he, rfl⟩ := elementLifted_of_bodyElement hlifted
    rcases List.mem_append.1 hb with hb | hb
    · obtain ⟨k, hk⟩ := eq_label_of_mem hb
      cases hk
    · cases List.mem_singleton.1 hb
      cases he with
      | branch hjump =>
        obtain ⟨htargets, hcases⟩ := h.decodedFrom.fits _ hd
        refine ⟨fun k hk => ?_, hjump.casesFit hcases⟩
        obtain ⟨t, ht, hlabel⟩ := exists_of_mem_right hjump.targets hk
        exact ⟨t, hlabel, htargets t ht⟩
  · obtain ⟨k, hk⟩ := eq_label_of_mem hb
    cases hk

theorem fits_of_placed (h : CodeLifted r context x p c) {elements : List LayoutElement}
    (hplaced : List.Forall₂ (ElementPlaced s) c.elements elements) {pairs : List (Nat × Nat)}
    (hmoves : Moves pairs) {found : LabelOffsets}
    (hfound : ∀ (k : Label) (q : Nat),
      found[k]? = some q ↔ ∃ o, (o, q) ∈ pairs ∧ p.labels[o]? = some k)
    {stop : Nat} (hstop : (p.codeLength, stop) ∈ pairs) : ∀ e ∈ elements, e.Fits found stop := by
  intro e he
  obtain ⟨e', he', hplacedAs⟩ := exists_of_mem_right hplaced he
  cases hplacedAs with
  | label k => exact True.intro
  | instruction hx => exact True.intro
  | branch hw =>
    obtain ⟨htargets, hcases⟩ := h.branch_fits he'
    refine ⟨fun k hk q hq => ?_, hw.casesFit hcases⟩
    rw [hw.targets_eq] at hk
    obtain ⟨o, ho, hlt⟩ := htargets k hk
    obtain ⟨o', hmem, ho'⟩ := (hfound k q).1 hq
    rw [h.injective o o' k ho ho'] at hlt
    exact (hmoves.lt_iff hmem hstop).1 hlt

theorem relaid (h : CodeLifted r context x p c) {elements : List LayoutElement}
    {assembled : AssembledCode} (helements : List.Forall₂ (ElementLowered s) c.elements elements)
    (hassemble : assemble elements = .ok assembled) :
    ∃ widened decoded' pairs, widenAll elements = .ok widened
      ∧ List.Forall₂ (ElementPlaced s) c.elements widened
      ∧ DecodesTo assembled.labels (placeFrom 0 widened) decoded'
      ∧ decodeCode assembled.bytes = .ok decoded'
      ∧ Relaid p.labels assembled.labels pairs p.boundaries
        (.ofDecoded decoded' assembled.bytes.length) p.codeLength assembled.bytes.length
      ∧ List.Forall₂ (fun x y => Carried r s p.labels assembled.labels x.2 y ∧ (x.1, y.1) ∈ pairs)
        p.decoded decoded' := by
  obtain ⟨widened, hall, hwidened, hlabels, hlaid⟩ := laidOut_of_assemble hassemble
  have hplaced : List.Forall₂ (ElementPlaced s) c.elements widened := by
    refine forall₂_comp ?_ helements hwidened
    intro e l m he hl
    exact elementPlaced_of_widened he hl
  obtain ⟨body, hbody, hbodyElements⟩ := h.elements
  have hbodyPlaced := bodyPlaced (mapM_eq_ok.1 hbody) (hbodyElements ▸ hplaced) 0
  let pairs := (boundaryOffsets p.decoded p.codeLength).zip (placedBoundaries 0 widened)
  have hmoves : Moves pairs := hbodyPlaced.moves h.decodedFrom.increasing
  -- an offset with a label is moved to the offset where the label is found
  have hfound (k : Label) (q : Nat) : assembled.labels[k]? = some q
      ↔ ∃ o, (o, q) ∈ pairs ∧ p.labels[o]? = some k := by
    rw [hlabels, ← hbodyPlaced.labels_iff]
    refine ⟨mem_of_labelOffsets, fun hmem => labelOffsets_of_mem hmem fun q' hmem' => ?_⟩
    obtain ⟨o, ho, hk⟩ := (hbodyPlaced.labels_iff k q).1 hmem
    obtain ⟨o', ho', hk'⟩ := (hbodyPlaced.labels_iff k q').1 hmem'
    exact ((hmoves.eq_iff ho' ho).1 (h.injective o' o k hk' hk))
  have hstop : (p.codeLength, endOffset 0 widened) ∈ pairs := hbodyPlaced.stop_mem
  -- only once the moves are known do the branches fit, which decoding needs
  have hassembled := hlaid (h.fits_of_placed hplaced hmoves hfound hstop)
  obtain ⟨decoded', hdecoded', hto⟩ := hassembled.decodes
  obtain ⟨hcarried, hboundaries⟩ := hbodyPlaced.decodes _ _ hto
  rw [← hassembled.length] at hstop hboundaries
  refine ⟨widened, decoded', pairs, hall, hplaced, hto, hdecoded', ?_, hcarried⟩
  constructor
  case moves => exact hmoves
  case left => exact hbodyPlaced.map_fst_zip.symm
  case right => exact hboundaries.trans hbodyPlaced.map_snd_zip.symm
  case contains_left => exact fun o ho => Boundaries.contains_ofDecoded.1 ho
  case contains_right => exact fun o ho => Boundaries.contains_ofDecoded.2 ho
  case injective => exact h.injective
  case found_iff => exact hfound
  case stop => exact hstop
  case le_stop =>
    intro y hy
    rw [hassembled.length]
    refine le_endOffset_of_mem ?_
    rw [← hbodyPlaced.map_snd_zip]
    exact List.mem_map_of_mem hy
  case length_le => exact hassembled.length_le

theorem framesLifted (h : CodeLifted r context x p c) :
    FramesLifted r p.boundaries p.codeLength none context.initialFrame p.tables.frames p.frames :=
  framesLifted_of_ofEntries h.frames

end CodeLifted

theorem storable_of_tables {r : Resolver} {xs : List Stored.Attribute}
    {tables : Stored.CodeTables} (h : xs.foldlM (Stored.CodeTables.add r) {} = .ok tables) :
    (∀ v ∈ tables.attributes, v.name ∉ Resolver.codeAttributes)
      ∧ tables.frames.length ≤ 0xFFFF ∧ ∀ e ∈ tables.frames, e.change.Fits := by
  refine foldlM_induction (I := fun t : Stored.CodeTables =>
    (∀ v ∈ t.attributes, v.name ∉ Resolver.codeAttributes)
      ∧ t.frames.length ≤ 0xFFFF ∧ ∀ e ∈ t.frames, e.change.Fits) ?_ ?_ h
  · intro t a _ u ht hu
    cases Resolver.codeStep_of_add r hu with
    | lineNumbers name h => exact ht
    | localVariables name h => exact ht
    | localVariableTypes name h => exact ht
    | frames name h =>
      have hentries := AttributeFormat.of_parse (Stored.FrameEntry.ensures_read.list16) h
      exact ⟨ht.1, hentries⟩
    | verbatim name h =>
      refine ⟨?_, ht.2⟩
      intro v hv
      rcases List.mem_append.1 hv with hv | hv
      · exact ht.1 v hv
      · rw [List.mem_singleton.1 hv]
        exact h
  · exact ⟨fun _ hv => absurd hv List.not_mem_nil, Nat.zero_le _,
      fun _ he => absurd he List.not_mem_nil⟩

theorem FramesLifted.length_eq {r : Resolver} {b : Boundaries} {codeLength : Nat}
    {previous : Option Nat} {before : Frame RefType UInt16} {entries : List Stored.FrameEntry}
    {frames : List PlacedFrame} (h : FramesLifted r b codeLength previous before entries frames) :
    frames.length = entries.length := by
  induction h with
  | nil => rfl
  | cons hprevious hchange happly hstands hframes ih => rw [List.length_cons, List.length_cons, ih]

theorem MethodContext.mapSites_initialFrame {S T : Type} (context : MethodContext) (f : S → T) :
    context.initialFrame.mapSites f = context.initialFrame := by
  have hreceiver : context.receiver.mapSite f = context.receiver := by
    unfold receiver
    split <;> rfl
  have htype (t : FieldType) : (VerificationType.ofFieldType t).mapSite f = .ofFieldType t := by
    cases t with
    | base t => cases t <;> rfl
    | ref t => rfl
  unfold initialFrame Frame.mapSites
  simp only [List.map_append, List.map_map, Function.comp_def, htype]
  split
  · rfl
  · rw [List.map_cons, hreceiver]
    rfl

namespace CodeLifted

variable {r : Resolver} {s : Rereading} {context : MethodContext} {x : Stored.Code}
  {p : CodeParts} {c : Code} {found : LabelOffsets} {pairs : List (Nat × Nat)} {b' : Boundaries}
  {codeLength' : Nat}

theorem placed_moved (h : CodeLifted r context x p c)
    (hrelaid : Relaid p.labels found pairs p.boundaries b' p.codeLength codeLength')
    {placed : List (UInt16 × BodyFrame)}
    (hplaced : List.Forall₂ (fun g q => found.At g.1 q.1 ∧ q.2 = g.2) c.frames placed) :
    List.Forall₂ (FrameMoved p.labels pairs found) p.frames placed
      ∧ placed.Pairwise (fun q q' => q.1 < q'.1)
      ∧ placed.mergeSort (fun f g => f.1 ≤ g.1) = placed := by
  have hstands := h.framesLifted.standsIn
  have hlifted := forall₂_imp_of_mem (mapM_eq_ok.1 h.bodyFrames)
    (S := fun f g => PlacedFrame.StandsIn p.boundaries p.codeLength f
      ∧ liftFrame p.labels f = .ok g) fun f hf g _ hg => ⟨hstands f hf, hg⟩
  have hmoved : List.Forall₂ (FrameMoved p.labels pairs found) p.frames placed := by
    refine forall₂_comp ?_ hlifted hplaced
    rintro f g q ⟨hstand, hg⟩ ⟨hat, hq⟩
    exact hrelaid.frameMoved hstand (frameLabelled_of_liftFrame hg) hat hq
  have hincreasing := hrelaid.increasing_of_frameMoved hmoved h.framesLifted.increasing
  refine ⟨hmoved, hincreasing, List.mergeSort_of_pairwise (hincreasing.imp ?_)⟩
  intro q q' hlt
  exact decide_eq_true (UInt16.le_of_lt hlt)

theorem frames_moved (h : CodeLifted r context x p c)
    (hrelaid : Relaid p.labels found pairs p.boundaries b' p.codeLength codeLength')
    {es : List Stored.FrameEntry} (hes : FrameTableLowered s.resolver found context c.frames es) :
    ∃ placed, List.Forall₂ (FrameMoved p.labels pairs found) p.frames placed
      ∧ List.Forall₂ (fun g q => found.At g.1 q.1 ∧ q.2 = g.2) c.frames placed
      ∧ placed.Pairwise (fun q q' => q.1 < q'.1)
      ∧ FramesLowered s.resolver found none context.initialFrame placed es := by
  obtain ⟨placed, hplaced, hlowered⟩ := hes.entries
  obtain ⟨hmoved, hincreasing, hsorted⟩ := h.placed_moved hrelaid hplaced
  rw [hsorted] at hlowered
  exact ⟨placed, hmoved, hplaced, hincreasing, hlowered⟩

theorem readsBack_frames (h : CodeLifted r context x p c)
    (hrelaid : Relaid p.labels found pairs p.boundaries b' p.codeLength codeLength')
    {es : List Stored.FrameEntry} (hes : FrameTableLowered s.resolver found context c.frames es) :
    AttributeFormat.stackMapTable.ReadsBack es := by
  obtain ⟨placed, hmoved, -, -, hlowered⟩ := h.frames_moved hrelaid hes
  obtain ⟨-, hcount, hfits⟩ := storable_of_tables h.tables
  have hframes : placed.map (·.2) = p.frames.map (·.2.mapSites (siteLabel p.labels)) :=
    map_eq_map_of_forall₂ (hmoved.flip.imp fun q f hq => hq.frame)
  have hcompress := h.framesLifted.compressFits hfits (siteLabel p.labels)
  rw [MethodContext.mapSites_initialFrame, ← hframes] at hcompress
  refine AttributeFormat.readsBack_stackMapTable ?_ (hlowered.entries_fit hcompress)
  rw [hlowered.length_eq, ← hmoved.length_eq, h.framesLifted.length_eq]
  exact hcount

theorem tables_moved (h : CodeLifted r context x p c)
    (hrelaid : Relaid p.labels found pairs p.boundaries b' p.codeLength codeLength')
    {tables : Stored.CodeTables} (htables : TablesLowered s.resolver found context c tables) :
    tables.dropMisplaced b' = tables
      ∧ List.Forall₂ (fun o q => (o, q) ∈ pairs) p.placedTables.offsets tables.offsets := by
  have hlines : List.Forall₂ (fun l l' => (l.startPc.toNat, l'.startPc.toNat) ∈ pairs)
      p.placedTables.lineNumbers tables.lineNumbers := by
    refine forall₂_comp ?_ (mapM_eq_ok.1 h.lineNumbers) htables.lineNumbers
    intro l line l' hl hl'
    exact hrelaid.lineNumber_moved hl hl'
  have hvariables {vs vs' : List Stored.LocalVariable} {ws : List LocalVariable}
      (hlifted : vs.mapM (r.localVariable p.labels) = .ok ws)
      (hlowered : List.Forall₂ (VariableLowered s.resolver found) ws vs') :
      List.Forall₂ (fun v v' => (v.startPc.toNat, v'.startPc.toNat) ∈ pairs
        ∧ (v.endPc, v'.endPc) ∈ pairs) vs vs' := by
    refine forall₂_comp ?_ (mapM_eq_ok.1 hlifted) hlowered
    intro v w v' hv hv'
    exact hrelaid.localVariable_moved hv hv'
  have hlocals := hvariables h.localVariables htables.localVariables
  have htypes := hvariables h.localVariableTypes htables.localVariableTypes
  -- what was moved with the boundaries is at boundaries, so none of it is dropped
  have hplaced {vs vs' : List Stored.LocalVariable}
      (hmoved : List.Forall₂ (fun v v' => (v.startPc.toNat, v'.startPc.toNat) ∈ pairs
        ∧ (v.endPc, v'.endPc) ∈ pairs) vs vs') :
      vs'.filter (fun v => b'.contains v.startPc.toNat && b'.contains v.endPc) = vs' := by
    refine List.filter_eq_self.2 fun v' hv' => ?_
    obtain ⟨v, -, hstart, hend⟩ := exists_of_mem_right hmoved hv'
    rw [hrelaid.contains_of_moved hstart, hrelaid.contains_of_moved hend]
    rfl
  constructor
  · have hkept : tables.lineNumbers.filter (b'.contains ·.startPc.toNat) = tables.lineNumbers := by
      refine List.filter_eq_self.2 fun l' hl' => ?_
      obtain ⟨l, -, hmem⟩ := exists_of_mem_right hlines hl'
      exact hrelaid.contains_of_moved hmem
    unfold Stored.CodeTables.dropMisplaced
    simp only [hkept, hplaced hlocals, hplaced htypes]
  · unfold Stored.CodeTables.offsets
    refine List.rel_append ?_ (List.rel_flatMap (List.rel_append hlocals htypes) ?_)
    · rw [List.forall₂_map_left_iff, List.forall₂_map_right_iff]
      exact hlines
    · intro v v' hv
      exact .cons hv.1 (.cons hv.2 .nil)

theorem bodyElement_again {labels labels' : Std.HashMap Nat Label} (hwf : s.wellFormed)
    (hlabels : ∀ (k : Label) (q : Nat), found[k]? = some q → labels'[q]? = some k) {d : Decoded}
    {y : Nat × Decoded} {offset : Nat} {es : List BodyElement}
    (hcarried : Carried r s labels found d y) (hsame : labels'[y.1]? = labels[offset]?)
    (hes : r.bodyElement labels offset d = .ok es) :
    ∃ es', s.resolver.bodyElement labels' y.1 y.2 = .ok es'
      ∧ List.Forall₂ BodyElement.Rewritten es es' := by
  have hlabel : labelElement labels' y.1 = labelElement labels offset := by
    unfold labelElement
    rw [hsame]
  have hrewritten {e e' : BodyElement} (he : e.Rewritten e') :
      List.Forall₂ BodyElement.Rewritten (labelElement labels offset ++ [e])
        (labelElement labels' y.1 ++ [e']) := by
    rw [hlabel]
    refine List.rel_append (List.forall₂_same.2 fun e he => ?_) (.cons he .nil)
    obtain ⟨k, rfl⟩ := eq_label_of_mem he
    exact .label k
  cases hcarried with
  | @instruction x y i offset' hx hy =>
    have hlifted : r.bodyElement labels offset (.instruction x)
        = .ok (labelElement labels offset ++ [.instruction i]) :=
      bodyElement_of_elementLifted (.instruction hx) offset
    rw [hlifted] at hes
    cases hes
    exact ⟨_, bodyElement_of_elementLifted (.instruction (hy hwf)) _,
      hrewritten (.instruction i)⟩
  | @branch jump jump' b b'' offset' hjump hwidened hjump' =>
    have hlifted := bodyElement_of_elementLifted (r := r) (.branch hjump) offset
    rw [hlifted] at hes
    cases hes
    -- the branch may have another form, but it goes to the same labels
    have hback : Branch.Rel (fun o k => labels'[o]? = some k) (fun o k => labels'[o]? = some k)
        jump' (b''.aligned offset') := by
      refine hjump'.flip.imp ?_ ?_
      · exact fun q _ k hk => hlabels k q hk
      · exact fun q _ k hk => hlabels k q hk
    exact ⟨_, bodyElement_of_elementLifted (.branch hback) _,
      hrewritten (.branch (Branch.rewritten_aligned hwidened offset'))⟩

end CodeLifted

/-- The frames of lowered code, as they are placed again. -/
def placeAgain (found : LabelOffsets) (placed : List (UInt16 × BodyFrame)) : List PlacedFrame :=
  placed.map fun q => (q.1.toNat, q.2.mapSites found.position)

namespace CodeLifted

variable {r : Resolver} {s : Rereading} {context : MethodContext} {x : Stored.Code}
  {p : CodeParts} {c : Code} {found : LabelOffsets} {pairs : List (Nat × Nat)} {b' : Boundaries}
  {codeLength' : Nat} {placed : List (UInt16 × BodyFrame)}

theorem frames_again (h : CodeLifted r context x p c)
    (hrelaid : Relaid p.labels found pairs p.boundaries b' p.codeLength codeLength')
    (hmoved : List.Forall₂ (FrameMoved p.labels pairs found) p.frames placed)
    (hincreasing : placed.Pairwise fun q q' => q.1 < q'.1) {es : List Stored.FrameEntry}
    (hframes : FramesLowered s.resolver found none context.initialFrame placed es) :
    PlacedFrame.ofEntries s.resolver b' codeLength' none context.initialFrame es
        = .ok (placeAgain found placed)
      ∧ ∃ offsets, (placeAgain found placed).mapM (PlacedFrame.offsets b') = .ok offsets
        ∧ List.Forall₂ (fun o q => (o, q) ∈ pairs) p.frameOffsets.flatten offsets.flatten := by
  have hstands := h.framesLifted.standsIn
  constructor
  · have hstandsAgain : ∀ q ∈ placed, PlacedFrame.StandsIn b' codeLength'
        (q.1.toNat, q.2.mapSites found.position) := by
      intro q hq
      obtain ⟨f, hf, hfq⟩ := exists_of_mem_right hmoved hq
      exact hrelaid.standsIn_of_frameMoved hfq (hstands f hf)
    have hentries := ofEntries_of_lowered hframes
      (fun _ hp => absurd hp (Option.not_mem_none _)) hincreasing hstandsAgain
    rwa [MethodContext.mapSites_initialFrame] at hentries
  · have hrelated : List.Forall₂ (fun f f' => PlacedFrame.StandsIn p.boundaries p.codeLength f
        ∧ ∃ q, FrameMoved p.labels pairs found f q
          ∧ f' = ((q.1.toNat, q.2.mapSites found.position) : PlacedFrame))
        p.frames (placeAgain found placed) := by
      unfold placeAgain
      rw [List.forall₂_map_right_iff]
      exact forall₂_imp_of_mem hmoved fun f hf q _ hq => ⟨hstands f hf, q, hq, rfl⟩
    refine exists_mapM_flatten hrelated ?_ h.frameOffsets
    rintro f f' os ⟨hstand, q, hq, rfl⟩ hos
    exact hrelaid.offsets_of_frameMoved hq hstand hos

theorem handlers_moved (h : CodeLifted r context x p c)
    (hrelaid : Relaid p.labels found pairs p.boundaries b' p.codeLength codeLength')
    {ys : List Stored.ExceptionHandler}
    (hys : List.Forall₂ (HandlerLowered s.resolver found) c.exceptionHandlers ys) :
    ∃ offsets, ys.mapM (·.offsets b') = .ok offsets
      ∧ List.Forall₂ (fun o q => (o, q) ∈ pairs) p.handlerOffsets.flatten offsets.flatten := by
  have hrelated : List.Forall₂ (fun x y => ∃ handler,
      r.exceptionHandler p.labels x = .ok handler ∧ HandlerLowered s.resolver found handler y)
      x.exceptionTable ys := by
    refine forall₂_comp ?_ (mapM_eq_ok.1 h.exceptionHandlers) hys
    exact fun x handler y hx hy => ⟨handler, hx, hy⟩
  refine exists_mapM_flatten hrelated ?_ h.handlerOffsets
  rintro x y os ⟨handler, hx, hy⟩ hos
  exact hrelaid.exceptionHandler_moved hx hy hos

end CodeLifted

theorem Relaid.liftFrames_again {labels labels' : Std.HashMap Nat Label} {found : LabelOffsets}
    {pairs : List (Nat × Nat)} {b b' : Boundaries} {codeLength codeLength' : Nat}
    (h : Relaid labels found pairs b b' codeLength codeLength') (hlabels : Relabelled found labels')
    {frames : List PlacedFrame} {placed : List (UInt16 × BodyFrame)}
    (hmoved : List.Forall₂ (FrameMoved labels pairs found) frames placed)
    {bodyFrames : List (Label × BodyFrame)}
    (hplaced : List.Forall₂ (fun g q => found.At g.1 q.1 ∧ q.2 = g.2) bodyFrames placed) :
    (placeAgain found placed).mapM (liftFrame labels') = .ok bodyFrames := by
  unfold placeAgain
  refine mapM_eq_ok.2 (List.forall₂_map_left_iff.2 ?_)
  refine forall₂_imp_of_mem hplaced.flip ?_
  rintro ⟨o, frame⟩ hq ⟨k, frame'⟩ - ⟨hat, rfl⟩
  obtain ⟨f, -, hf⟩ := exists_of_mem_right hmoved hq
  unfold liftFrame
  simp only [hlabels.frame hf, hlabels.labelAt_found (h.found_of_at hat), ok_bind]
  rfl

/-- The parts of lowered code, and what became of those of the code that was lifted. -/
structure PartsMoved (r : Resolver) (s : Rereading) (context : MethodContext) (c : Code)
    (y : Stored.Code) (found : LabelOffsets) (pairs : List (Nat × Nat)) (p q : CodeParts) :
    Prop where
  codeLength : q.codeLength = y.code.length
  decoded : decodeCode y.code = .ok q.decoded
  tables : y.attributes.foldlM (Stored.CodeTables.add s.resolver) {} = .ok q.tables
  targets : q.decoded.mapM (fun d => d.2.checkedTargets q.boundaries d.1) = .ok q.targets
  handlerOffsets : y.exceptionTable.mapM (·.offsets q.boundaries) = .ok q.handlerOffsets
  frames : PlacedFrame.ofEntries s.resolver q.boundaries q.codeLength none context.initialFrame
    q.tables.frames = .ok q.frames
  frameOffsets : q.frames.mapM (PlacedFrame.offsets q.boundaries) = .ok q.frameOffsets
  placedTables : q.placedTables = q.tables
  lowered : TablesLowered s.resolver found context c q.tables
  relaid : Relaid p.labels found pairs p.boundaries q.boundaries p.codeLength q.codeLength
  marked : List.Forall₂ (fun o n => (o, n) ∈ pairs) p.marked q.marked
  carried : List.Forall₂ (fun x y => Carried r s p.labels found x.2 y ∧ (x.1, y.1) ∈ pairs)
    p.decoded q.decoded
  placed : ∃ placed, List.Forall₂ (FrameMoved p.labels pairs found) p.frames placed
    ∧ List.Forall₂ (fun g f => found.At g.1 f.1 ∧ f.2 = g.2) c.frames placed
    ∧ q.frames = placeAgain found placed

theorem CodeLifted.exists_partsMoved {r : Resolver} {s : Rereading} {context : MethodContext}
    {x y : Stored.Code} {p : CodeParts} {c : Code} {found : LabelOffsets}
    {pairs : List (Nat × Nat)} {decoded : List (Nat × Decoded)} (h : CodeLifted r context x p c)
    (hdecoded : decodeCode y.code = .ok decoded)
    (hrelaid : Relaid p.labels found pairs p.boundaries (.ofDecoded decoded y.code.length)
      p.codeLength y.code.length)
    (hcarried : List.Forall₂ (fun x y => Carried r s p.labels found x.2 y ∧ (x.1, y.1) ∈ pairs)
      p.decoded decoded)
    (hhandlers : List.Forall₂ (HandlerLowered s.resolver found) c.exceptionHandlers
      y.exceptionTable)
    (hattributes : CodeAttributesLowered s.resolver found context c y.attributes)
    (hfit : c.TablesFit) :
    ∃ q, q.decoded = decoded ∧ PartsMoved r s context c y found pairs p q := by
  have hnames : ∀ v ∈ c.attributes, v.name ∉ Resolver.codeAttributes := by
    rw [h.attributes]
    exact (storable_of_tables h.tables).1
  obtain ⟨tables, hfold, htables⟩ := tables_of_lowered hattributes hfit
    (fun es hes => h.readsBack_frames hrelaid hes) hnames
  obtain ⟨hkept, hdebug⟩ := h.tables_moved hrelaid htables
  obtain ⟨placed, hmoved, hplaced, hincreasing, hframes⟩ := h.frames_moved hrelaid htables.frames
  obtain ⟨hentries, frameOffsets, hframeOffsets, hframesMoved⟩ :=
    h.frames_again hrelaid hmoved hincreasing hframes
  obtain ⟨handlerOffsets, hhandlerOffsets, hhandlersMoved⟩ := h.handlers_moved hrelaid hhandlers
  obtain ⟨targets, htargets, htargetsMoved⟩ := exists_mapM_flatten hcarried
    (fun _ _ _ hxy hts => hrelaid.checkedTargets hxy.1 hts) h.targets
  let q : CodeParts := ⟨y.code.length, decoded, tables, targets, handlerOffsets,
    placeAgain found placed, frameOffsets⟩
  have hplacedTables : q.placedTables = tables := hkept
  refine ⟨q, rfl, rfl, hdecoded, hfold, htargets, hhandlerOffsets, hentries, hframeOffsets,
    hplacedTables, htables, hrelaid, ?_, hcarried, placed, hmoved, hplaced, rfl⟩
  unfold CodeParts.marked
  rw [hplacedTables]
  exact List.rel_append (List.rel_append (List.rel_append htargetsMoved hhandlersMoved) hdebug)
    hframesMoved

namespace PartsMoved

variable {r : Resolver} {s : Rereading} {context : MethodContext} {x y : Stored.Code} {c : Code}
  {found : LabelOffsets} {pairs : List (Nat × Nat)} {p q : CodeParts}

theorem relabelled (h : PartsMoved r s context c y found pairs p q) :
    (∀ o n, (o, n) ∈ pairs → q.labels[n]? = p.labels[o]?) ∧ Relabelled found q.labels :=
  h.relaid.relabelled rfl h.marked

theorem exists_body (h : PartsMoved r s context c y found pairs p q)
    (hlifted : CodeLifted r context x p c) (hwf : s.wellFormed) :
    ∃ body, q.decoded.mapM (fun d => s.resolver.bodyElement q.labels d.1 d.2) = .ok body
      ∧ List.Forall₂ BodyElement.Rewritten c.elements
        (body.flatten ++ labelElement q.labels q.codeLength) := by
  obtain ⟨hsame, hrelabelled⟩ := h.relabelled
  obtain ⟨body, hbody, helements⟩ := hlifted.elements
  obtain ⟨body', hbody', hrewritten⟩ := exists_mapM_flatten h.carried
    (fun _ _ _ hxy hes => CodeLifted.bodyElement_again hwf hrelabelled.label hxy.1
      (hsame _ _ hxy.2) hes) hbody
  have hstop : labelElement q.labels q.codeLength = labelElement p.labels p.codeLength := by
    unfold labelElement
    rw [hsame _ _ h.relaid.stop]
  refine ⟨body', hbody', ?_⟩
  rw [helements, hstop]
  refine List.rel_append hrewritten (List.forall₂_same.2 fun e he => ?_)
  obtain ⟨k, rfl⟩ := eq_label_of_mem he
  exact .label k

theorem codeLifted (h : PartsMoved r s context c y found pairs p q)
    (hlifted : CodeLifted r context x p c) (hlowered : CodeLowered s context c y)
    (hhandlers : List.Forall₂ (HandlerLowered s.resolver found) c.exceptionHandlers
      y.exceptionTable) {body : List (List BodyElement)}
    (hbody : q.decoded.mapM (fun d => s.resolver.bodyElement q.labels d.1 d.2) = .ok body) :
    CodeLifted s.resolver context y q
      { c with elements := body.flatten ++ labelElement q.labels q.codeLength } := by
  obtain ⟨-, hrelabelled⟩ := h.relabelled
  obtain ⟨placed, hmoved, hplaced, hframes⟩ := h.placed
  have hexact : Relabelled.Exact found := fun k o ho => h.relaid.found_of_at ho
  constructor
  case codeLength => exact h.codeLength
  case decoded => exact h.decoded
  case tables => exact h.tables
  case targets => exact h.targets
  case handlerOffsets => exact h.handlerOffsets
  case frames =>
    rw [h.placedTables]
    exact h.frames
  case frameOffsets => exact h.frameOffsets
  case elements => exact ⟨body, hbody, rfl⟩
  case exceptionHandlers =>
    exact mapM_eq_ok.2 (hhandlers.flip.imp fun _ _ hy => hrelabelled.exceptionHandler hexact hy)
  case lineNumbers =>
    rw [h.placedTables]
    exact mapM_eq_ok.2 (h.lowered.lineNumbers.flip.imp fun _ _ hy =>
      hrelabelled.lineNumber hexact hy)
  case localVariables =>
    rw [h.placedTables]
    exact mapM_eq_ok.2 (h.lowered.localVariables.flip.imp fun _ _ hy =>
      hrelabelled.localVariable hexact hy)
  case localVariableTypes =>
    rw [h.placedTables]
    exact mapM_eq_ok.2 (h.lowered.localVariableTypes.flip.imp fun _ _ hy =>
      hrelabelled.localVariable hexact hy)
  case bodyFrames =>
    rw [hframes]
    exact h.relaid.liftFrames_again hrelabelled hmoved hplaced
  case attributes =>
    rw [h.placedTables]
    exact h.lowered.attributes.symm
  case maxStack =>
    rw [hlowered.maxStack hlifted.maxStack]
    exact hlifted.maxStack
  case maxLocals =>
    rw [hlowered.maxLocals hlifted.maxLocals]
    exact hlifted.maxLocals

end PartsMoved

/-- Code that was lifted and lowered is lifted again to the same code. -/
theorem code_of_lowered {r : Resolver} {s : Rereading} {context : MethodContext}
    {x y : Stored.Code} {c : Code} (h : r.code context x = .ok c)
    (hlowered : CodeLowered s context c y) (hwf : s.wellFormed) (hfit : c.TablesFit) :
    ∃ d, s.resolver.code context y = .ok d ∧ c.Rewritten d ∧ Code.Settled s c d := by
  obtain ⟨p, hlifted⟩ := codeLifted_of_code h
  have ⟨elements, assembled, helements, hassemble, haround⟩ := hlowered
  obtain ⟨widened, decoded, pairs, hwidened, hplacedAs, hto, hdecoded, hrelaid, hcarried⟩ :=
    hlifted.relaid helements hassemble
  rw [← haround.code] at hdecoded hrelaid
  obtain ⟨q, rfl, hmoved⟩ := hlifted.exists_partsMoved hdecoded hrelaid hcarried
    haround.exceptionTable haround.attributes hfit
  obtain ⟨body, hbody, hrewritten⟩ := hmoved.exists_body hlifted hwf
  refine ⟨{ c with elements := body.flatten ++ labelElement q.labels q.codeLength },
    code_of_codeLifted (hmoved.codeLifted hlifted hlowered haround.exceptionTable hbody),
    ⟨_, hrewritten, rfl⟩, ?_⟩
  constructor
  case laidOut =>
    have hbodyLifted := elementLifted_of_body (mapM_eq_ok.1 hbody)
    refine laidOutAlike_of_decodesTo (r := s.resolver) helements hassemble hwidened hto ?_ ?_
      hmoved.relabelled.2.label
    · refine forall₂_comp ?_ hplacedAs.flip hrewritten
      intro l e f hl hf
      exact laidOutAs_of_rewritten hl hf
    · rwa [List.filter_append, takesBytes_labelElement, List.append_nil]
  case maxStack =>
    rw [hlifted.maxStack]
    rfl
  case maxLocals =>
    rw [hlifted.maxLocals]
    rfl

end ClassPatch
