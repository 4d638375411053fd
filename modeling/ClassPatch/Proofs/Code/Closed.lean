import ClassPatch.Proofs.Code.Shortage
import ClassPatch.Proofs.Lift.Placed

/-!
Lifted code is closed: what refers to a place has a label that is placed once, labels are numbered
in the order of their places, and so the code can be lowered wherever there is room for it.
-/

namespace ClassPatch

/-- The label that an element is. -/
def BodyElement.label? : BodyElement → Option Label
  | .label k => some k
  | _ => none

namespace Code

/-- Labels among the elements, in their order. -/
def placedLabels (c : Code) : List Label := c.elements.filterMap BodyElement.label?

/-- Code that can be lowered by itself. -/
structure Closed (c : Code) : Prop where
  /-- Each label that something refers to is placed once. -/
  once : ∀ k ∈ c.references, c.elements.count (.label k) = 1
  numbered : c.placedLabels.Pairwise (· < ·)
  /-- In every method and with every pool, nothing but want of room keeps it from being lowered. -/
  fails : ∀ context p q e, (PoolM.code context c).run p = (.error e, q) → e.isShortage = true

end Code

theorem BodyElement.label?_of_takesBytes {e : BodyElement} (h : e.takesBytes = true) :
    e.label? = none := by
  cases e with
  | label k => cases h
  | instruction i => rfl
  | branch b => rfl

theorem filterMap_label?_labelElement (labels : Std.HashMap Nat Label) (o : Nat) :
    (labelElement labels o).filterMap BodyElement.label? = (labels[o]?).toList := by
  unfold labelElement
  cases labels[o]? <;> rfl

theorem filterMap_label?_of_lifted {r : Resolver} {labels : Std.HashMap Nat Label}
    {decoded : List (Nat × Decoded)} {body : List (List BodyElement)} {codeLength : Nat}
    (h : List.Forall₂ (fun d es => r.bodyElement labels d.1 d.2 = .ok es) decoded body) :
    (body.flatten ++ labelElement labels codeLength).filterMap BodyElement.label?
      = (boundaryOffsets decoded codeLength).filterMap (labels[·]?) := by
  have hcons (o : Nat) (os : List Nat) :
      (o :: os).filterMap (labels[·]?) = (labels[o]?).toList ++ os.filterMap (labels[·]?) := by
    rw [List.filterMap_cons]
    cases labels[o]? <;> rfl
  induction h with
  | nil =>
    rw [List.flatten_nil, List.nil_append, filterMap_label?_labelElement]
    exact ((hcons codeLength []).trans (List.append_nil _)).symm
  | @cons d es decoded body hhead _ ih =>
    obtain ⟨e, he, rfl⟩ := elementLifted_of_bodyElement hhead
    have hlabel := BodyElement.label?_of_takesBytes he.takesBytes
    have hoffsets : boundaryOffsets (d :: decoded) codeLength
        = d.1 :: boundaryOffsets decoded codeLength := rfl
    rw [List.flatten_cons, List.append_assoc, List.append_assoc, List.filterMap_append,
      filterMap_label?_labelElement, List.singleton_append, List.filterMap_cons_none hlabel, ih,
      hoffsets, hcons]

namespace CodeLifted

variable {r : Resolver} {context : MethodContext} {x : Stored.Code} {p : CodeParts} {c : Code}

theorem label_lt (h : CodeLifted r context x p c) {o o' : Nat} {k k' : Label}
    (ho : p.labels[o]? = some k) (ho' : p.labels[o']? = some k') (hlt : o < o') : k < k' := by
  rw [h.labels_iff] at ho ho'
  have hincreasing := h.decodedFrom.increasing.filter p.marked.contains
  rcases Nat.lt_trichotomy k k' with hlt' | rfl | hgt
  · exact hlt'
  · rw [ho] at ho'
    cases ho'
    exact absurd hlt (Nat.lt_irrefl _)
  · exact absurd hlt (Nat.lt_asymm (lt_of_getElem? hincreasing hgt ho' ho))

theorem numbered (h : CodeLifted r context x p c) : c.placedLabels.Pairwise (· < ·) := by
  obtain ⟨body, hbody, helements⟩ := h.elements
  unfold Code.placedLabels
  rw [helements, filterMap_label?_of_lifted (mapM_eq_ok.1 hbody), List.pairwise_filterMap]
  exact h.decodedFrom.increasing.imp fun hlt k ho k' ho' => h.label_lt ho ho' hlt

theorem place_le_of_localVariable (h : CodeLifted r context x p c) {y : Stored.LocalVariable}
    {v : LocalVariable} (hv : r.localVariable p.labels y = .ok v) :
    c.place v.start ≤ c.place v.stop := by
  unfold Resolver.localVariable at hv
  obtain ⟨start, hstart, hv⟩ := bind_eq_ok.1 hv
  obtain ⟨stop, hstop, hv⟩ := bind_eq_ok.1 hv
  obtain ⟨name, -, hv⟩ := bind_eq_ok.1 hv
  obtain ⟨descriptor, -, hv⟩ := bind_eq_ok.1 hv
  obtain rfl := pure_eq_ok.1 hv
  rw [labelAt_eq_ok] at hstart hstop
  rcases Nat.eq_or_lt_of_le (Nat.le_add_right y.startPc.toNat y.length.toNat) with heq | hlt
  · rw [Stored.LocalVariable.endPc, ← heq, hstart] at hstop
    cases hstop
    exact Nat.le_refl _
  · exact Nat.le_of_lt (h.place_lt_place hstart hstop hlt)

theorem lowerable (h : CodeLifted r context x p c) : c.Lowerable where
  placed := h.placed
  ranges := by
    intro v hv
    rcases List.mem_append.1 hv with hv | hv
    · obtain ⟨y, -, hlifted⟩ := exists_of_mem_mapM h.localVariables hv
      exact h.place_le_of_localVariable hlifted
    · obtain ⟨y, -, hlifted⟩ := exists_of_mem_mapM h.localVariableTypes hv
      exact h.place_le_of_localVariable hlifted
  frames := h.pairwise_place_frames
  maxStack := by
    rw [h.maxStack]
    exact Option.some_ne_none _

end CodeLifted

/-- Code that was lifted is closed. -/
theorem Resolver.closed_of_code {r : Resolver} {context : MethodContext} {x : Stored.Code}
    {c : Code} (h : r.code context x = .ok c) : c.Closed := by
  obtain ⟨parts, hlifted⟩ := codeLifted_of_code h
  constructor
  case once => exact hlifted.placed.once
  case numbered => exact hlifted.numbered
  case fails =>
    intro context' p q e hrun
    exact (PoolM.ends_code hlifted.lowerable context' p).2 e (congrArg Prod.fst hrun)

theorem MethodContext.initialFrame_of_static {S : Type} {context : MethodContext}
    (hstatic : context.isStatic = true) (hparameters : context.descriptor.parameters = []) :
    (context.initialFrame : Frame RefType S) = ⟨[], []⟩ := by
  unfold initialFrame
  rw [if_pos hstatic, hparameters]
  rfl

section Guarded

variable {r : Resolver} {context : MethodContext} {lines frames : ConstantIndex}

/-- A load and a jump that a handler guards, with a line number and a frame where it goes to. The
names of both tables are at the given indices. -/
def guardedCode (load : Bytes) (lines frames : ConstantIndex) : Stored.Code :=
  let target : UInt16 := .ofNat (load.length + 3)
  { maxStack := 1
    maxLocals := 1
    code := load ++ [0xA7, 0x00, 0x03, 0xB1]
    exceptionTable := [⟨0, target, target, none⟩]
    attributes := [⟨lines, [0x00, 0x01] ++ Writer.u16 target ++ [0x00, 0x07]⟩,
      ⟨frames, [0x00, 0x01, 0xFC] ++ Writer.u16 target ++ [0x08, 0x00, 0x00]⟩] }

def wideLoad : Bytes := [0xC4, 0x15, 0x00, 0x00]

def guardedResolver : Resolver := ⟨.ofList 1 [.utf8 "LineNumberTable", .utf8 "StackMapTable"], []⟩

def guardedContext : MethodContext where
  className := ⟨"Guarded", by decide +kernel⟩
  methodName := ⟨"guard", by decide +kernel⟩
  descriptor := ⟨[], none⟩
  isStatic := true

def guardedParts : CodeParts where
  codeLength := 8
  decoded := [(0, .instruction (.load .int 0)), (4, .branch (.goto 7)), (7, .branch .voidReturn)]
  tables := { lineNumbers := [⟨7, 7⟩], frames := [⟨7, .append [.uninitialized 0]⟩] }
  targets := [[], [7], []]
  handlerOffsets := [[0, 7, 7]]
  frames := [(7, ⟨[.uninitialized 0], []⟩)]
  frameOffsets := [[7, 0]]

def guardedBody : Code where
  maxStack := some 1
  maxLocals := some 1
  elements := [.label 0, .instruction (.load .int 0), .branch (.goto 1), .label 1,
    .branch .voidReturn]
  exceptionHandlers := [⟨0, 1, 1, none⟩]
  lineNumbers := [⟨1, 7⟩]
  frames := [(1, ⟨[.uninitialized 0], []⟩)]

theorem decodeCode_guardedCode :
    decodeCode (wideLoad ++ [0xA7, 0x00, 0x03, 0xB1]) = .ok guardedParts.decoded :=
  eq_ok_of_toOption (by decide +kernel)

theorem contains_guardedParts {o : Nat} (h : o ∈ [0, 4, 7, 8]) :
    guardedParts.boundaries.contains o = true :=
  Boundaries.contains_ofDecoded.2 h

theorem check_guardedParts (source : Nat) {o : Nat} (h : o ∈ [0, 4, 7, 8]) :
    guardedParts.boundaries.check source o = .ok o :=
  Boundaries.check_eq_ok.2 ⟨contains_guardedParts h, rfl⟩

theorem placedTables_guardedParts : guardedParts.placedTables = guardedParts.tables := by
  have hkept : guardedParts.tables.lineNumbers.filter
      (guardedParts.boundaries.contains ·.startPc.toNat) = guardedParts.tables.lineNumbers :=
    List.filter_eq_self.2 fun l hl => by
      rw [List.mem_singleton.1 hl]
      exact contains_guardedParts (by decide)
  unfold CodeParts.placedTables Stored.CodeTables.dropMisplaced
  rw [hkept]
  rfl

theorem getElem?_labels_guardedParts (o : Nat) (k : Label) :
    guardedParts.labels[o]? = some k ↔ [0, 7][k]? = some o := by
  have hmarked : guardedParts.marked = [7, 0, 7, 7, 7, 7, 0] := by
    unfold CodeParts.marked
    rw [placedTables_guardedParts]
    rfl
  unfold CodeParts.labels
  rw [Boundaries.labels_eq_some_iff (decodedFrom_of_decodeCode decodeCode_guardedCode).increasing,
    hmarked]
  rfl

theorem tables_guardedCode (hlines : r.utf8 lines = .ok "LineNumberTable")
    (hframes : r.utf8 frames = .ok "StackMapTable") :
    (guardedCode wideLoad lines frames).attributes.foldlM (Stored.CodeTables.add r) {}
      = .ok guardedParts.tables := by
  let x : Stored.Attribute := ⟨lines, [0x00, 0x01, 0x00, 0x07, 0x00, 0x07]⟩
  let y : Stored.Attribute := ⟨frames, [0x00, 0x01, 0xFC, 0x00, 0x07, 0x08, 0x00, 0x00]⟩
  have hx : AttributeFormat.lineNumberTable.parse [0x00, 0x01, 0x00, 0x07, 0x00, 0x07]
      = .ok [⟨7, 7⟩] :=
    eq_ok_of_toOption (by decide +kernel)
  have hy : AttributeFormat.stackMapTable.parse [0x00, 0x01, 0xFC, 0x00, 0x07, 0x08, 0x00, 0x00]
      = .ok [⟨7, .append [.uninitialized 0]⟩] :=
    eq_ok_of_toOption (by decide +kernel)
  change [x, y].foldlM (Stored.CodeTables.add r) {} = _
  rw [List.foldlM_cons, add_lineNumberTable hlines hx, ok_bind, List.foldlM_cons,
    add_stackMapTable hframes hy]
  rfl

theorem offsets_guardedFrame : PlacedFrame.offsets guardedParts.boundaries
    (7, ⟨[.uninitialized 0], []⟩) = .ok [7, 0] := by
  have hsites : [0].mapM (guardedParts.boundaries.check 7) = .ok [0] :=
    mapM_eq_ok.2 (.cons (check_guardedParts 7 (by decide)) .nil)
  exact bind_of_eq_ok hsites _

theorem ofEntries_guardedParts : PlacedFrame.ofEntries r guardedParts.boundaries 8 none ⟨[], []⟩
    guardedParts.tables.frames = .ok guardedParts.frames := by
  have hplace : ¬ (8 ≤ entryOffset none 7
      ∨ guardedParts.boundaries.contains (entryOffset none 7) = false) := by
    rw [not_or, Bool.not_eq_false]
    exact ⟨by decide, contains_guardedParts (by decide)⟩
  refine (PlacedFrame.ofEntries_cons ..).trans ((if_neg hplace).trans ?_)
  exact bind_of_eq_ok offsets_guardedFrame _

theorem codeLifted_guardedCode (hlines : r.utf8 lines = .ok "LineNumberTable")
    (hframes : r.utf8 frames = .ok "StackMapTable") (hstatic : context.isStatic = true)
    (hparameters : context.descriptor.parameters = []) :
    CodeLifted r context (guardedCode wideLoad lines frames) guardedParts guardedBody := by
  have hfirst : guardedParts.labels[0]? = some 0 := (getElem?_labels_guardedParts 0 0).2 rfl
  have hlast : guardedParts.labels[7]? = some 1 := (getElem?_labels_guardedParts 7 1).2 rfl
  have hstart : labelAt guardedParts.labels 0 = .ok 0 := labelAt_eq_ok.2 hfirst
  have hstop : labelAt guardedParts.labels 7 = .ok 1 := labelAt_eq_ok.2 hlast
  have hinner {o : Nat} (ho : o ≠ 0) (ho' : o ≠ 7) : guardedParts.labels[o]? = none := by
    refine Option.eq_none_iff_forall_ne_some.2 fun k hk => ?_
    have hmem := List.mem_of_getElem? ((getElem?_labels_guardedParts o k).1 hk)
    simp only [List.mem_cons, List.not_mem_nil, or_false] at hmem
    omega
  constructor
  case codeLength => rfl
  case decoded => exact decodeCode_guardedCode
  case tables => exact tables_guardedCode hlines hframes
  case targets =>
    have htargets : [7].mapM (guardedParts.boundaries.check 4) = .ok [7] :=
      mapM_eq_ok.2 (.cons (check_guardedParts 4 (by decide)) .nil)
    exact mapM_eq_ok.2 (.cons rfl (.cons htargets (.cons rfl .nil)))
  case handlerOffsets =>
    refine mapM_eq_ok.2 (.cons ?_ .nil)
    refine (bind_of_eq_ok (check_guardedParts 0 (o := 0) (by decide)) _).trans ?_
    refine (bind_of_eq_ok (check_guardedParts 0 (o := 7) (by decide)) _).trans ?_
    exact bind_of_eq_ok (check_guardedParts 0 (o := 7) (by decide)) _
  case frames =>
    rw [placedTables_guardedParts, MethodContext.initialFrame_of_static hstatic hparameters]
    exact ofEntries_guardedParts
  case frameOffsets => exact mapM_eq_ok.2 (.cons offsets_guardedFrame .nil)
  case elements =>
    have hload : ElementLifted r guardedParts.labels (.instruction (.load .int 0))
        (.instruction (.load .int 0)) := .instruction rfl
    have hgoto : ElementLifted r guardedParts.labels (.branch (.goto 7)) (.branch (.goto 1)) :=
      .branch (.goto hlast)
    have hreturn : ElementLifted r guardedParts.labels (.branch .voidReturn)
        (.branch .voidReturn) := .branch .voidReturn
    refine ⟨_, mapM_eq_ok.2 (.cons (bodyElement_of_elementLifted hload 0)
      (.cons (bodyElement_of_elementLifted hgoto 4)
        (.cons (bodyElement_of_elementLifted hreturn 7) .nil))), ?_⟩
    unfold labelElement
    rw [hfirst, hlast, hinner (o := 4) (by decide) (by decide),
      hinner (o := guardedParts.codeLength) (by decide) (by decide)]
    rfl
  case exceptionHandlers =>
    refine mapM_eq_ok.2 (.cons ?_ .nil)
    refine (bind_of_eq_ok hstart _).trans ?_
    refine (bind_of_eq_ok hstop _).trans ?_
    exact bind_of_eq_ok hstop _
  case lineNumbers =>
    rw [placedTables_guardedParts]
    exact mapM_eq_ok.2 (.cons (bind_of_eq_ok hstop _) .nil)
  case localVariables =>
    rw [placedTables_guardedParts]
    rfl
  case localVariableTypes =>
    rw [placedTables_guardedParts]
    rfl
  case bodyFrames =>
    have hlocals : (⟨[.uninitialized 0], []⟩ : Frame RefType UInt16).mapM pure
        (fun site => labelAt guardedParts.labels site.toNat) = .ok ⟨[.uninitialized 0], []⟩ := by
      refine Frame.mapM_of_sites (f := fun _ => 0) fun u hu => ?_
      rw [List.mem_singleton.1 hu]
      exact hstart
    refine mapM_eq_ok.2 (.cons ?_ .nil)
    exact (bind_of_eq_ok hlocals _).trans (bind_of_eq_ok hstop _)
  case attributes =>
    rw [placedTables_guardedParts]
    rfl
  case maxStack => rfl
  case maxLocals => rfl

theorem Resolver.closed_of_code_guardedCode :
    guardedResolver.code guardedContext (guardedCode wideLoad 1 2) = .ok guardedBody
      ∧ guardedBody.Closed := by
  have hlines : guardedResolver.utf8 1 = .ok "LineNumberTable" :=
    eq_ok_of_toOption (by decide +kernel)
  have hframes : guardedResolver.utf8 2 = .ok "StackMapTable" :=
    eq_ok_of_toOption (by decide +kernel)
  have hcode : guardedResolver.code guardedContext (guardedCode wideLoad 1 2) = .ok guardedBody :=
    code_of_codeLifted (codeLifted_guardedCode hlines hframes rfl rfl)
  exact ⟨hcode, Resolver.closed_of_code hcode⟩

end Guarded

end ClassPatch
