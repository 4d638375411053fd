import ClassPatch.Proofs.Bytecode.Frame
import ClassPatch.Proofs.Lower.Attribute

/-!
Code that was lowered: its instructions with resolved operands, its tables with the offsets of the
labels, and the names of its attributes.
-/

namespace ClassPatch

/-- The constants that the instruction loads can be read from a class file. -/
def SymbolicInstruction.WellFormed (admits : BootstrapMethod → Prop) : SymbolicInstruction → Prop
  | .ldc c | .ldc2 c => c.WellFormed admits (maxDynamicNesting + 1)
  | .invokeDynamic site => site.bootstrap.WellFormed admits
  | _ => True

/-- The constants that an element loads can be read from a class file. -/
def BodyElement.WellFormed (admits : BootstrapMethod → Prop) : BodyElement → Prop
  | .instruction i => SymbolicInstruction.WellFormed admits i
  | _ => True

namespace LabelOffsets

/-- The label stands at the offset. -/
def At (labels : LabelOffsets) (label : Label) (offset : UInt16) : Prop :=
  ∃ n, labels[label]? = some n ∧ offset = UInt16.ofNat n

/-- Offset of a label as a class file holds it, or 0. -/
def position (labels : LabelOffsets) (label : Label) : UInt16 :=
  UInt16.ofNat (labels[label]?.getD 0)

theorem At.eq_position {labels : LabelOffsets} {label : Label} {offset : UInt16}
    (h : labels.At label offset) : offset = labels.position label := by
  obtain ⟨n, hn, rfl⟩ := h
  unfold position
  rw [hn]
  rfl

end LabelOffsets

/-- An element with indices as operands. -/
inductive ElementLowered (s : Rereading) : BodyElement → LayoutElement → Prop where
  | label (label : Label) : ElementLowered s (.label label) (.label label)
  | instruction {i : SymbolicInstruction} {x : StoredInstruction}
    (h : s.wellFormed → s.resolver.instruction x = .ok i)
    (hrepeats : PoolM.Repeats s.pool (PoolM.instruction i) x) :
    ElementLowered s (.instruction i) (.instruction x)
  | branch (b : SymbolicBranch) : ElementLowered s (.branch b) (.branch b)

theorem ElementLowered.repeats {s : Rereading} {e : BodyElement} {l : LayoutElement}
    (h : ElementLowered s e l) : PoolM.Repeats s.pool (PoolM.layoutElement e) l := by
  cases h with
  | label k => exact .pure s.pool _
  | instruction _ hrepeats => exact hrepeats.bind (.pure s.pool _)
  | branch b => exact .pure s.pool _

structure HandlerLowered (r : Resolver) (labels : LabelOffsets) (h : ExceptionHandler)
    (x : Stored.ExceptionHandler) : Prop where
  start : labels.At h.start x.startPc
  stop : labels.At h.stop x.endPc
  handler : labels.At h.handler x.handlerPc
  catchType : Option.Rel (fun name i => r.className i = .ok name) h.catchType x.catchType

structure LineLowered (labels : LabelOffsets) (l : LineNumber) (x : Stored.LineNumber) : Prop where
  start : labels.At l.start x.startPc
  lineNumber : x.lineNumber = l.lineNumber

structure VariableLowered (r : Resolver) (labels : LabelOffsets) (v : LocalVariable)
    (x : Stored.LocalVariable) : Prop where
  start : labels.At v.start x.startPc
  stop : ∃ stop, labels.At v.stop stop ∧ x.startPc ≤ stop ∧ x.length = stop - x.startPc
  name : r.utf8 x.name = .ok v.name
  descriptor : r.utf8 x.descriptor = .ok v.descriptor
  index : x.index = v.index

/-- Offset of a frame behind the one before it. -/
def frameDelta (previous : Option UInt16) (offset : UInt16) : UInt16 :=
  match previous with
  | none => offset
  | some previous => offset - previous - 1

/-- Entries for frames with their offsets, each for the change to the frame before it. -/
inductive FramesLowered (r : Resolver) (labels : LabelOffsets) :
    Option UInt16 → BodyFrame → List (UInt16 × BodyFrame) → List Stored.FrameEntry → Prop where
  | nil {previous : Option UInt16} {before : BodyFrame} :
    FramesLowered r labels previous before [] []
  | cons {previous : Option UInt16} {before frame : BodyFrame} {offset : UInt16}
    {frames : List (UInt16 × BodyFrame)} {x : FrameChange ConstantIndex UInt16}
    {xs : List Stored.FrameEntry}
    (hchange : x.mapM r.refType pure
      = .ok ((frame.compress before).mapSites labels.position))
    (hframes : FramesLowered r labels (some offset) frame frames xs) :
    FramesLowered r labels previous before ((offset, frame) :: frames)
      (⟨frameDelta previous offset, x⟩ :: xs)

/-- The table of frames, in the order of their offsets. -/
structure FrameTableLowered (r : Resolver) (labels : LabelOffsets) (context : MethodContext)
    (frames : List (Label × BodyFrame)) (xs : List Stored.FrameEntry) : Prop where
  entries : ∃ placed, List.Forall₂ (fun f p => labels.At f.1 p.1 ∧ p.2 = f.2) frames placed
    ∧ FramesLowered r labels none context.initialFrame
      (placed.mergeSort fun f g => f.1 ≤ g.1) xs

/-- An attribute of code that holds a table. -/
structure StoresTable {α β : Type} (r : Resolver) (format : AttributeFormat β) (P : α → β → Prop)
    (a : α) (x : Stored.Attribute) : Prop where
  name : r.utf8 x.nameIndex = .ok format.name
  content : ∃ b, format.write b = .ok x.info ∧ P a b

/-- The attributes of code. -/
inductive CodeAttributesLowered (r : Resolver) (labels : LabelOffsets) (context : MethodContext)
    (c : Code) : List Stored.Attribute → Prop where
  | mk {lines locals types frames attributes : List Stored.Attribute}
    (hlines : UnlessEmpty (StoresTable r .lineNumberTable (List.Forall₂ (LineLowered labels)))
      c.lineNumbers lines)
    (hlocals : UnlessEmpty
      (StoresTable r .localVariableTable (List.Forall₂ (VariableLowered r labels)))
      c.localVariables locals)
    (htypes : UnlessEmpty
      (StoresTable r .localVariableTypeTable (List.Forall₂ (VariableLowered r labels)))
      c.localVariableTypes types)
    (hframes : UnlessEmpty (StoresTable r .stackMapTable (FrameTableLowered r labels context))
      c.frames frames)
    (hattributes : List.Forall₂ r.Carries c.attributes attributes) :
    CodeAttributesLowered r labels context c (lines ++ locals ++ types ++ frames ++ attributes)

/-- Frames whose labels stand at different offsets. -/
def FramesApart (labels : LabelOffsets) (frames : List (Label × BodyFrame)) : Prop :=
  frames.Pairwise fun f g => labels.position f.1 ≠ labels.position g.1

/-- What is made of the rest of the code once its body is laid out. -/
structure AroundLowered (r : Resolver) (context : MethodContext) (c : Code)
    (assembled : AssembledCode) (x : Stored.Code) : Prop where
  code : x.code = assembled.bytes
  exceptionTable :
    List.Forall₂ (HandlerLowered r assembled.labels) c.exceptionHandlers x.exceptionTable
  attributes : CodeAttributesLowered r assembled.labels context c x.attributes
  apart : FramesApart assembled.labels c.frames
  maxStack :
    c.maxStack.or (Code.stackLimit c.elements c.exceptionHandlers).toOption = some x.maxStack
  maxLocals :
    x.maxLocals = c.maxLocals.getD (Code.localLimit c.elements context.descriptor context.isStatic)

/-- Code and what it was lowered to. -/
def CodeLowered (s : Rereading) (context : MethodContext) (c : Code) (x : Stored.Code) : Prop :=
  ∃ elements assembled, List.Forall₂ (ElementLowered s) c.elements elements
    ∧ assemble elements = .ok assembled ∧ AroundLowered s.resolver context c assembled x

namespace CodeLowered

variable {s : Rereading} {context : MethodContext} {c : Code} {x : Stored.Code} {limit : UInt16}

theorem maxStack (h : CodeLowered s context c x) (hlimit : c.maxStack = some limit) :
    x.maxStack = limit := by
  obtain ⟨elements, assembled, -, -, haround⟩ := h
  have hmaxStack := haround.maxStack
  rw [hlimit, Option.some_or] at hmaxStack
  exact (Option.some.inj hmaxStack).symm

theorem maxLocals (h : CodeLowered s context c x) (hlimit : c.maxLocals = some limit) :
    x.maxLocals = limit := by
  obtain ⟨elements, assembled, -, -, haround⟩ := h
  rw [haround.maxLocals, hlimit, Option.getD_some]

end CodeLowered

theorem PoolM.pairwise_lt_of_repeated? {offsets : List UInt16} (h : repeated? offsets = none)
    (hsorted : offsets.Pairwise (· ≤ ·)) : offsets.Pairwise (· < ·) := by
  induction offsets using repeated?.induct with
  | case1 a rest =>
    simp only [repeated?, if_true] at h
    cases h
  | case2 a b rest hne ih =>
    rw [repeated?, if_neg hne] at h
    obtain ⟨hle, hrest⟩ := List.pairwise_cons.1 hsorted
    have hlt := ih h hrest
    have hab : a < b := UInt16.lt_of_le_of_ne (hle b List.mem_cons_self) hne
    refine List.pairwise_cons.2 ⟨List.forall_mem_cons.2 ⟨hab, fun c hc => ?_⟩, hlt⟩
    exact UInt16.lt_trans hab ((List.pairwise_cons.1 hlt).1 c hc)
  | case3 offsets hshort =>
    match offsets with
    | [] => exact .nil
    | [a] => exact List.pairwise_singleton _ _
    | a :: b :: rest => exact absurd rfl (hshort a b rest)

theorem framesApart_of_repeated? {labels : LabelOffsets} {frames : List (Label × BodyFrame)}
    (h : PoolM.repeated? (((frames.map fun f => (labels.position f.1, f.2)).mergeSort
      fun f g => f.1 ≤ g.1).map (·.1)) = none) : FramesApart labels frames := by
  have hsorted : ((frames.map fun f => (labels.position f.1, f.2)).mergeSort
      fun f g => f.1 ≤ g.1).Pairwise fun f g => f.1 ≤ g.1 := by
    refine (List.pairwise_mergeSort ?_ ?_ _).imp fun h => of_decide_eq_true h
    · intro f g k hfg hgk
      exact decide_eq_true (UInt16.le_trans (of_decide_eq_true hfg) (of_decide_eq_true hgk))
    · intro f g
      simp only [Bool.or_eq_true, decide_eq_true_eq]
      exact UInt16.le_total _ _
  have hlt := PoolM.pairwise_lt_of_repeated? h (List.pairwise_map.2 hsorted)
  have hne := hlt.imp fun hab => (UInt16.ne_of_lt hab)
  have hperm := (List.mergeSort_perm (frames.map fun f => (labels.position f.1, f.2))
    fun f g => f.1 ≤ g.1).map (·.1)
  rw [hperm.pairwise_iff fun hab => Ne.symm hab, List.pairwise_map, List.pairwise_map] at hne
  exact hne

namespace PoolM

variable {s : Rereading} {labels : LabelOffsets}

theorem yields_offsetOf (labels : LabelOffsets) (label : Label) :
    Yields s (offsetOf labels label) (labels.At label) := by
  unfold offsetOf
  refine (Yields.lift _).map ?_
  intro n hn
  refine ⟨n, ?_, rfl⟩
  unfold LabelOffsets.offset at hn
  split at hn
  next n' hn' =>
    cases hn
    exact hn'
  next => cases hn

theorem yields_instruction {i : SymbolicInstruction}
    (hi : s.wellFormed → SymbolicInstruction.WellFormed s.admits i) :
    Yields s (instruction i) fun x => s.wellFormed → s.resolver.instruction x = .ok i := by
  unfold instruction
  cases i with
  | ldc c =>
    refine (yields_loadable c (Nat.le_refl _) hi).map fun x hx hwf => ?_
    exact bind_of_eq_ok (hx hwf) _
  | ldc2 c =>
    refine (yields_loadable c (Nat.le_refl _) hi).map fun x hx hwf => ?_
    exact bind_of_eq_ok (hx hwf) _
  | onField access f => exact (yields_fieldRef f).map fun x hx _ => bind_of_eq_ok hx _
  | invoke kind m => exact (yields_methodRef m).map fun x hx _ => bind_of_eq_ok hx _
  | invokeDynamic site =>
    refine (yields_callSite hi).map fun x hx hwf => ?_
    exact bind_of_eq_ok (hx hwf) _
  | onClass op t => exact (yields_refType t).map fun x hx _ => bind_of_eq_ok hx _
  | multiNewArray t n => exact (yields_refType t).map fun x hx _ => bind_of_eq_ok hx _
  | _ => exact .pure fun _ => rfl

theorem yields_layoutElement {e : BodyElement}
    (he : s.wellFormed → BodyElement.WellFormed s.admits e) :
    Yields s (layoutElement e) (ElementLowered s e) := by
  cases e with
  | label label => exact .pure (.label label)
  | instruction i =>
    refine (yields_instruction he).repeats.map ?_
    rintro x ⟨hrepeats, hx⟩
    exact .instruction hx hrepeats
  | branch b => exact .pure (.branch b)

theorem yields_exceptionHandler (h : ExceptionHandler) :
    Yields s (exceptionHandler labels h) (HandlerLowered s.resolver labels h) := by
  unfold exceptionHandler
  refine (yields_offsetOf labels _).bind fun start => ?_
  refine (yields_offsetOf labels _).bind fun stop => ?_
  refine (yields_offsetOf labels _).bind fun handler => ?_
  refine (Yields.optionMapM fun name _ => yields_className name).map ?_
  intro catchType hcatch hhandler hstop hstart
  exact ⟨hstart, hstop, hhandler, hcatch⟩

theorem yields_lineNumber (l : LineNumber) :
    Yields s (lineNumber labels l) (LineLowered labels l) := by
  unfold lineNumber
  refine (yields_offsetOf labels _).map ?_
  intro start hstart
  exact ⟨hstart, rfl⟩

theorem yields_localVariable (v : LocalVariable) :
    Yields s (localVariable labels v) (VariableLowered s.resolver labels v) := by
  unfold localVariable
  refine (yields_offsetOf labels _).bind fun start => ?_
  refine (yields_offsetOf labels _).bind fun stop => ?_
  split
  next => exact .throw
  next hle =>
    refine (yields_utf8 _).bind fun name => (yields_utf8 _).map ?_
    intro descriptor hdescriptor hname hstop hstart
    exact ⟨hstart, ⟨stop, hstop, UInt16.not_lt.1 hle, rfl⟩, hname, hdescriptor, rfl⟩

theorem yields_verificationType (t : VerificationType RefType Label) :
    Yields s (t.mapM refType (offsetOf labels)) fun x =>
      x.mapM s.resolver.refType pure = .ok (t.mapSite labels.position) := by
  cases t with
  | object c => exact (yields_refType c).map fun x hx => bind_of_eq_ok hx _
  | uninitialized site =>
    refine (yields_offsetOf labels site).map fun x hx => ?_
    rw [hx.eq_position]
    rfl
  | _ => exact .pure rfl

theorem yields_verificationTypes (ts : List (VerificationType RefType Label)) :
    Yields s (ts.mapM (·.mapM refType (offsetOf labels))) fun xs =>
      xs.mapM (·.mapM s.resolver.refType pure)
        = .ok (ts.map (·.mapSite labels.position)) := by
  refine (Yields.mapM fun t _ => yields_verificationType t).mono ?_
  intro xs hxs
  refine mapM_eq_ok.2 ?_
  rw [List.forall₂_map_right_iff]
  exact hxs.flip

theorem yields_frameChange (change : FrameChange RefType Label) :
    Yields s (change.mapM refType (offsetOf labels)) fun x =>
      x.mapM s.resolver.refType pure = .ok (change.mapSites labels.position) := by
  cases change with
  | same => exact .pure rfl
  | sameWithStack t =>
    exact (yields_verificationType t).map fun x hx => bind_of_eq_ok hx _
  | chop count => exact .pure rfl
  | append locals =>
    exact (yields_verificationTypes locals).map fun xs hxs => bind_of_eq_ok hxs _
  | full locals stack =>
    refine (yields_verificationTypes locals).bind fun xs => ?_
    refine (yields_verificationTypes stack).map fun ys hys hxs => ?_
    exact (bind_of_eq_ok hxs _).trans (bind_of_eq_ok hys _)

theorem yields_frameEntries (frames : List (UInt16 × BodyFrame)) (previous : Option UInt16)
    (before : BodyFrame) :
    Yields s (frameEntries labels previous before frames)
      (FramesLowered s.resolver labels previous before frames) := by
  induction frames generalizing previous before with
  | nil => exact .pure .nil
  | cons f frames ih =>
    obtain ⟨offset, frame⟩ := f
    unfold frameEntries
    refine (yields_frameChange _).bind fun x => ?_
    refine (ih (some offset) frame).map ?_
    intro xs hxs hx
    exact FramesLowered.cons hx hxs

theorem yields_frameTable (context : MethodContext) (frames : List (Label × BodyFrame)) :
    Yields s (frameTable labels context frames)
      (StoresTable s.resolver .stackMapTable (FrameTableLowered s.resolver labels context)
        frames) := by
  unfold frameTable placeFrames
  refine Yields.bind (Q := fun sorted => ∃ placed,
    List.Forall₂ (fun f p => labels.At f.1 p.1 ∧ p.2 = f.2) frames placed
      ∧ sorted = placed.mergeSort fun f g => f.1 ≤ g.1) ?_ fun sorted => ?_
  · refine (Yields.mapM (Q := fun f p => labels.At f.1 p.1 ∧ p.2 = f.2) ?_).map ?_
    · intro f _
      refine (yields_offsetOf labels f.1).map ?_
      intro offset hoffset
      exact ⟨hoffset, rfl⟩
    · intro placed hplaced
      exact ⟨placed, hplaced, rfl⟩
  · have hstore : Yields s (do
        let entries ← frameEntries labels none context.initialFrame sorted
        AttributeFormat.stackMapTable.store entries) fun x =>
        (∃ placed, List.Forall₂ (fun f p => labels.At f.1 p.1 ∧ p.2 = f.2) frames placed
          ∧ sorted = placed.mergeSort fun f g => f.1 ≤ g.1) →
        StoresTable s.resolver .stackMapTable (FrameTableLowered s.resolver labels context)
          frames x := by
      refine (yields_frameEntries _ _ _).bind fun entries => (yields_store _ _).mono ?_
      rintro x ⟨hname, hinfo⟩ hentries ⟨placed, hplaced, rfl⟩
      exact ⟨hname, entries, hinfo, placed, hplaced, hentries⟩
    split
    · exact Yields.bind (Q := fun _ => True) .throw fun _ => hstore.mono fun _ h _ => h
    · exact hstore

theorem yields_frameTable_apart (context : MethodContext) (frames : List (Label × BodyFrame)) :
    Yields s (frameTable labels context frames) fun _ => FramesApart labels frames := by
  unfold frameTable placeFrames
  refine Yields.bind (Q := fun sorted => sorted = (frames.map fun f =>
    (labels.position f.1, f.2)).mergeSort fun f g => f.1 ≤ g.1) ?_ fun sorted => ?_
  · refine (Yields.mapM (Q := fun f p => p = (labels.position f.1, f.2)) ?_).map ?_
    · intro f _
      refine (yields_offsetOf labels f.1).map ?_
      intro offset hoffset
      rw [hoffset.eq_position]
    · intro placed hplaced
      have heq : List.Forall₂ (· = ·) (frames.map fun f => (labels.position f.1, f.2)) placed :=
        List.forall₂_map_left_iff.2 (hplaced.imp fun _ _ h => h.symm)
      rw [List.forall₂_eq_eq_eq] at heq
      rw [heq]
  · have hstore : Yields s (do
        let entries ← frameEntries labels none context.initialFrame sorted
        AttributeFormat.stackMapTable.store entries) fun _ => True :=
      (yields_frameEntries _ _ _).bind fun entries =>
        (yields_store _ _).mono fun _ _ _ => True.intro
    split
    · exact Yields.bind (Q := fun _ => False) .throw fun _ => hstore.mono fun _ _ h => h.elim
    next hrepeated =>
      refine hstore.mono ?_
      rintro x - rfl
      exact framesApart_of_repeated? (Option.eq_none_iff_forall_ne_some.2 hrepeated)

theorem yields_table {α β : Type} (format : AttributeFormat (List β)) {f : α → PoolM β}
    {P : α → β → Prop} (h : ∀ a, Yields s (f a) (P a)) (as : List α) :
    Yields s (do format.store (← as.mapM f))
      (StoresTable s.resolver format (List.Forall₂ P) as) := by
  refine (Yields.mapM fun a _ => h a).bind fun xs => (yields_store _ _).mono ?_
  intro x hx hxs
  exact ⟨hx.1, xs, hx.2, hxs⟩

def layout (elements : List BodyElement) : PoolM AssembledCode := do
  assemble (← elements.mapM layoutElement)

/-- Code with its tables and limits, once its body is laid out. -/
def codeAround (context : MethodContext) (c : Code) (assembled : AssembledCode) :
    PoolM Stored.Code := do
  let labels := assembled.labels
  let exceptionTable ← c.exceptionHandlers.mapM (exceptionHandler labels)
  let lineNumbers ← unlessEmpty
    (fun ls => do AttributeFormat.lineNumberTable.store (← ls.mapM (lineNumber labels)))
    c.lineNumbers
  let localVariables ← unlessEmpty
    (fun vs => do AttributeFormat.localVariableTable.store (← vs.mapM (localVariable labels)))
    c.localVariables
  let localVariableTypes ← unlessEmpty
    (fun vs => do AttributeFormat.localVariableTypeTable.store (← vs.mapM (localVariable labels)))
    c.localVariableTypes
  let frames ← unlessEmpty (frameTable labels context) c.frames
  let attributes ← c.attributes.mapM verbatim
  let maxStack ←
    match c.maxStack with
    | some limit => pure limit
    | none => (Code.stackLimit c.elements c.exceptionHandlers : Except ClassError UInt16)
  return {
    maxStack
    maxLocals := c.maxLocals.getD (Code.localLimit c.elements context.descriptor context.isStatic)
    code := assembled.bytes
    exceptionTable
    attributes := lineNumbers ++ localVariables ++ localVariableTypes ++ frames ++ attributes }

theorem code_eq (context : MethodContext) (c : Code) :
    code context c = layout c.elements >>= codeAround context c := by
  unfold code layout
  rw [bind_assoc]
  rfl

theorem parts_of_run_codeAround {context : MethodContext} {c : Code} {assembled : AssembledCode}
    {p q : Pool} {x : Stored.Code} (h : (codeAround context c assembled).run p = (.ok x, q)) :
    x.code = assembled.bytes
      ∧ c.maxStack.or (Code.stackLimit c.elements c.exceptionHandlers).toOption = some x.maxStack
      ∧ x.maxLocals
        = c.maxLocals.getD (Code.localLimit c.elements context.descriptor context.isStatic) := by
  unfold codeAround at h
  simp only [run_bind_eq_ok] at h
  obtain ⟨handlers, _, -, lines, _, -, locals, _, -, types, _, -, frames, _, -, attributes, _, -,
    h⟩ := h
  split at h
  next limit hlimit =>
    obtain ⟨maxStack, _, hmaxStack, h⟩ := run_bind_eq_ok.1 h
    obtain ⟨rfl, -⟩ := run_pure_eq_ok.1 hmaxStack
    obtain ⟨rfl, -⟩ := run_pure_eq_ok.1 h
    exact ⟨rfl, by rw [hlimit, Option.some_or], rfl⟩
  next hnone =>
    obtain ⟨maxStack, _, hmaxStack, h⟩ := run_bind_eq_ok.1 h
    obtain ⟨hlimit, -⟩ := run_lift_eq_ok.1 hmaxStack
    obtain ⟨rfl, -⟩ := run_pure_eq_ok.1 h
    refine ⟨rfl, ?_, rfl⟩
    rw [hnone, Option.none_or, hlimit]
    rfl

theorem limits_of_run {context : MethodContext} {c : Code} {p q : Pool} {x : Stored.Code}
    (h : (code context c).run p = (.ok x, q)) :
    c.maxStack.or (Code.stackLimit c.elements c.exceptionHandlers).toOption = some x.maxStack
      ∧ x.maxLocals
        = c.maxLocals.getD (Code.localLimit c.elements context.descriptor context.isStatic) := by
  rw [code_eq] at h
  obtain ⟨assembled, _, -, h⟩ := run_bind_eq_ok.1 h
  exact (parts_of_run_codeAround h).2

theorem yields_layout {elements : List BodyElement}
    (h : s.wellFormed → ∀ e ∈ elements, BodyElement.WellFormed s.admits e) :
    Yields s (layout elements) fun assembled => ∃ lowered,
      List.Forall₂ (ElementLowered s) elements lowered ∧ assemble lowered = .ok assembled := by
  unfold layout
  refine (Yields.mapM fun e he =>
    yields_layoutElement fun hwf => h hwf e he).bind fun lowered => (Yields.lift _).mono ?_
  intro assembled hassemble hlowered
  exact ⟨lowered, hlowered, hassemble⟩

theorem yields_frames (context : MethodContext) (frames : List (Label × BodyFrame)) :
    Yields s (unlessEmpty (frameTable labels context) frames) fun xs =>
      UnlessEmpty (StoresTable s.resolver .stackMapTable
        (FrameTableLowered s.resolver labels context)) frames xs ∧ FramesApart labels frames := by
  unfold unlessEmpty
  cases frames with
  | nil => exact .pure ⟨.nil, .nil⟩
  | cons f frames =>
    refine ((yields_frameTable context _).and (yields_frameTable_apart context _)).map ?_
    rintro x ⟨hstores, hapart⟩
    exact ⟨.cons hstores, hapart⟩

theorem yields_codeAround (context : MethodContext) (c : Code) (assembled : AssembledCode) :
    Yields s (codeAround context c assembled)
      (AroundLowered s.resolver context c assembled) := by
  unfold codeAround
  dsimp only
  refine (Yields.mapM fun h _ => yields_exceptionHandler h).bind fun handlers => ?_
  refine (yields_unlessEmpty (yields_table .lineNumberTable yields_lineNumber _)).bind
    fun lines => ?_
  refine (yields_unlessEmpty (yields_table .localVariableTable yields_localVariable _)).bind
    fun locals => ?_
  refine (yields_unlessEmpty (yields_table .localVariableTypeTable yields_localVariable _)).bind
    fun types => ?_
  refine (yields_frames context _).bind fun frames => ?_
  refine (Yields.mapM fun v _ => yields_verbatim v).bind fun attributes => ?_
  split
  next limit hlimit =>
    refine Yields.pure ?_
    rintro hattributes ⟨hframes, hapart⟩ htypes hlocals hlines hhandlers
    refine ⟨rfl, hhandlers, .mk hlines hlocals htypes hframes hattributes, hapart, ?_, rfl⟩
    rw [hlimit, Option.some_or]
  next hnone =>
    refine (Yields.lift _).map ?_
    rintro maxStack hmaxStack hattributes ⟨hframes, hapart⟩ htypes hlocals hlines hhandlers
    refine ⟨rfl, hhandlers, .mk hlines hlocals htypes hframes hattributes, hapart, ?_, rfl⟩
    rw [hnone, Option.none_or, hmaxStack]
    rfl

theorem yields_code (context : MethodContext) {c : Code}
    (hc : s.wellFormed → ∀ e ∈ c.elements, BodyElement.WellFormed s.admits e) :
    Yields s (code context c) (CodeLowered s context c) := by
  rw [code_eq]
  refine (yields_layout hc).bind fun assembled => (yields_codeAround context c assembled).mono ?_
  rintro x hx ⟨elements, helements, hassemble⟩
  exact ⟨elements, assembled, helements, hassemble, hx⟩

end PoolM

end ClassPatch
