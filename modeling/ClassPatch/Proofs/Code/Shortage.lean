import ClassPatch.Proofs.Bytecode.FrameTypes
import ClassPatch.Proofs.Lift.Places
import ClassPatch.Proofs.Lift.QuietCode

/-!
How lowering a body can end. If labels are placed, the ranges of local variables in order and frames
apart, it fails for want of room only: in the pool, in the code or for the distance of a jump.
-/

namespace ClassPatch

/-- There is no room for a constant, for the code of a method or for the distance of a jump. -/
def ClassError.isShortage : ClassError → Bool
  | .poolOverflow .. | .codeOverflow _ | .branchOverflow .. => true
  | _ => false

section Assemble

variable {elements : List LayoutElement} {e : ClassError}

theorem LayoutElement.isShortage_of_encode {labels : LabelOffsets} {offset : Nat}
    {l : LayoutElement} (hplaced : ∀ k ∈ l.targets, ∃ n, labels[k]? = some n)
    (h : l.encode labels offset = .error e) : e.isShortage = true := by
  cases l with
  | label | instruction => cases h
  | branch b =>
    have hfound {k : Label} (hk : k ∈ b.targets) : ∃ n, labels.offset k = .ok n := by
      obtain ⟨n, hn⟩ := hplaced k hk
      exact ⟨n, LabelOffsets.offset_eq_ok.2 hn⟩
    rcases bind_eq_error.1 h with h | ⟨x, -, h⟩
    · rcases Branch.exists_of_mapM_eq_error h with ⟨k, hk, hnear⟩ | ⟨k, hk, hfar⟩
      · rw [Branch.shortTarget?_aligned] at hk
        obtain ⟨n, hn⟩ := hfound (Branch.mem_targets_of_shortTarget? hk)
        rcases bind_eq_error.1 hnear with hnone | ⟨_, -, hnear⟩
        · rw [hn] at hnone
          cases hnone
        · dsimp only at hnear
          split at hnear <;> cases hnear
          rfl
      · rw [Branch.targets_aligned] at hk
        obtain ⟨n, hn⟩ := hfound hk
        rcases bind_eq_error.1 hfar with hnone | ⟨_, -, hfar⟩
        · rw [hn] at hnone
          cases hnone
        · cases hfar
    · cases h

theorem isShortage_of_assemble (hplaced : LabelsPlaced elements)
    (h : assemble elements = .error e) : e.isShortage = true := by
  obtain ⟨widened, hall⟩ := exists_widenAll_eq_ok hplaced
  have hplaced' := (labelsPlaced_iff_of_widened (widened_of_widenAll hall)).2 hplaced
  rw [assemble_of_widenAll hall] at h
  split at h
  next =>
    cases h
    rfl
  next =>
    rcases bind_eq_error.1 h with h | ⟨parts, -, h⟩
    · obtain ⟨⟨o, l⟩, hmem, hl⟩ := exists_of_listMapM_eq_error h
      refine LayoutElement.isShortage_of_encode (fun k hk => ?_) hl
      exact exists_labelOffsets_iff.2 (hplaced' l (mem_placeFrom_iff.1 ⟨o, hmem⟩) k hk)
    · cases h

end Assemble

theorem PlacedAlike.of_widened {e : BodyElement} {l m : LayoutElement} (h : PlacedAlike e l)
    (hm : l.Widened m) : PlacedAlike e m := by
  cases hm with
  | label | instruction => exact h
  | branch hm =>
    rcases h with ⟨k, -, hk⟩ | ⟨he, -⟩
    · cases hk
    · exact .inr ⟨he, rfl⟩

namespace PoolM

variable {α β : Type}

/-- Each run ends with a value as stated, or for want of room. -/
def Ends (x : PoolM α) (Q : α → Prop) : Prop :=
  ∀ p, (∀ a, (x.run p).1 = .ok a → Q a) ∧ ∀ e, (x.run p).1 = .error e → e.isShortage = true

variable {Q : α → Prop} {R : β → Prop}

namespace Ends

theorem pure {a : α} (h : Q a) : Ends (Pure.pure a) Q := by
  intro p
  refine ⟨fun a' ha' => ?_, fun _ he => nomatch he⟩
  cases ha'
  exact h

theorem bind {x : PoolM α} {f : α → PoolM β} (hx : Ends x Q) (hf : ∀ a, Q a → Ends (f a) R) :
    Ends (x >>= f) R := by
  intro p
  obtain ⟨hok, herror⟩ := hx p
  cases hrun : x.run p with
  | mk result q =>
    rw [hrun] at hok herror
    cases result with
    | error e =>
      rw [run_bind_error hrun]
      refine ⟨fun _ ha => (nomatch ha), fun e' he' => ?_⟩
      cases he'
      exact herror e rfl
    | ok a =>
      rw [run_bind_ok hrun]
      exact hf a (hok a rfl) q

theorem mono {x : PoolM α} {Q' : α → Prop} (hx : Ends x Q) (h : ∀ a, Q a → Q' a) : Ends x Q' :=
  fun p => ⟨fun a ha => h a ((hx p).1 a ha), (hx p).2⟩

theorem map {x : PoolM α} {f : α → β} (hx : Ends x Q) (h : ∀ a, Q a → R (f a)) :
    Ends (do return f (← x)) R :=
  hx.bind fun a ha => pure (h a ha)

theorem and_run {x : PoolM α} (hx : Ends x Q) :
    Ends x fun a => Q a ∧ ∃ p q, x.run p = (.ok a, q) :=
  fun p => ⟨fun a ha => ⟨(hx p).1 a ha, p, _, Prod.ext ha rfl⟩, (hx p).2⟩

theorem lift {x : Except ClassError α} (hok : ∀ a, x = .ok a → Q a)
    (herror : ∀ e, x = .error e → e.isShortage = true) : Ends (MonadLiftT.monadLift x) Q :=
  fun _ => ⟨hok, herror⟩

theorem of_eq_ok {x : Except ClassError α} {a : α} (h : x = .ok a) (ha : Q a) :
    Ends (MonadLiftT.monadLift x) Q := by
  subst h
  exact pure (a := a) ha

theorem mapM {f : α → PoolM β} {S : α → β → Prop} {as : List α}
    (h : ∀ a ∈ as, Ends (f a) (S a)) : Ends (as.mapM f) (List.Forall₂ S as) := by
  induction as with
  | nil => exact pure .nil
  | cons a as ih =>
    rw [List.forall_mem_cons] at h
    rw [List.mapM_cons]
    exact h.1.bind fun b hb => (ih h.2).map fun bs hbs => .cons hb hbs

theorem optionMapM {f : α → PoolM β} (h : ∀ a, Ends (f a) fun _ => True) (a : Option α) :
    Ends (a.mapM f) fun _ => True := by
  cases a with
  | none => exact pure True.intro
  | some a =>
    rw [Option.mapM_some, map_eq_pure_bind]
    exact (h a).map fun _ _ => True.intro

end Ends

theorem ends_constant (c : Constant) : Ends (constant c) fun _ => True := by
  refine fun p => ⟨fun _ _ => True.intro, fun e he => ?_⟩
  change (p.insert c).1 = _ at he
  unfold Pool.insert at he
  split at he
  · cases he
  · dsimp only at he
    split at he <;> cases he
    rfl

theorem ends_bootstrapEntry (e : BootstrapEntry) : Ends (bootstrapEntry e) fun _ => True :=
  fun _ => ⟨fun _ _ => True.intro, fun _ h => nomatch h⟩

theorem ends_className (name : BinaryName) : Ends (className name) fun _ => True :=
  (ends_constant _).bind fun _ _ => ends_constant _

theorem ends_refType (t : RefType) : Ends (refType t) fun _ => True :=
  (ends_constant _).bind fun _ _ => ends_constant _

theorem ends_nameAndType (name descriptor : String) :
    Ends (nameAndType name descriptor) fun _ => True :=
  (ends_constant _).bind fun _ _ => (ends_constant _).bind fun _ _ => ends_constant _

theorem ends_fieldRef (f : FieldRef) : Ends (fieldRef f) fun _ => True :=
  (ends_className _).bind fun _ _ => (ends_nameAndType _ _).bind fun _ _ => ends_constant _

theorem ends_methodRef (m : MethodRef) : Ends (methodRef m) fun _ => True :=
  (ends_refType _).bind fun _ _ => (ends_nameAndType _ _).bind fun _ _ => ends_constant _

theorem ends_methodHandle (h : MethodHandle) : Ends (methodHandle h) fun _ => True := by
  have hmember : Ends (handleMember h.member) fun _ => True := by
    cases h.member with
    | field f => exact ends_fieldRef f
    | method m => exact ends_methodRef m
  exact hmember.bind fun _ _ => ends_constant _

theorem ends_staticConstant (c : StaticConstant) : Ends (staticConstant c) fun _ => True := by
  cases c with
  | string text => exact (ends_constant _).bind fun _ _ => ends_constant _
  | methodType descriptor => exact (ends_constant _).bind fun _ _ => ends_constant _
  | classRef t => exact ends_refType t
  | methodHandle h => exact ends_methodHandle h
  | _ => exact ends_constant _

mutual

theorem ends_loadable : (c : LoadableConstant) → Ends (loadable c) fun _ => True
  | .static c => by
    unfold loadable
    exact ends_staticConstant c
  | .dynamic handle arguments name descriptor => by
    unfold loadable
    refine (ends_methodHandle handle).bind fun _ _ => ?_
    refine (ends_loadables arguments).bind fun _ _ => ?_
    refine (ends_bootstrapEntry _).bind fun _ _ => ?_
    exact (ends_nameAndType _ _).bind fun _ _ => ends_constant _

theorem ends_loadables : (cs : List LoadableConstant) → Ends (loadables cs) fun _ => True
  | [] => by
    unfold loadables
    exact .pure True.intro
  | c :: cs => by
    unfold loadables
    refine (ends_loadable c).bind fun _ _ => ?_
    exact (ends_loadables cs).map fun _ _ => True.intro

end

theorem ends_callSite (s : CallSite) : Ends (callSite s) fun _ => True := by
  have hparts : Ends (bootstrapParts s.bootstrap) fun _ => True :=
    (ends_methodHandle _).bind fun _ _ => (ends_loadables _).map fun _ _ => True.intro
  have hmethod : Ends (bootstrapMethod s.bootstrap) fun _ => True :=
    hparts.bind fun _ _ => ends_bootstrapEntry _
  exact hmethod.bind fun _ _ => (ends_nameAndType _ _).bind fun _ _ => ends_constant _

theorem ends_instruction (i : SymbolicInstruction) : Ends (instruction i) fun _ => True := by
  unfold instruction
  cases i with
  | ldc c => exact (ends_loadable c).map fun _ _ => True.intro
  | ldc2 c => exact (ends_loadable c).map fun _ _ => True.intro
  | onField access f => exact (ends_fieldRef f).map fun _ _ => True.intro
  | invoke kind m => exact (ends_methodRef m).map fun _ _ => True.intro
  | invokeDynamic site => exact (ends_callSite site).map fun _ _ => True.intro
  | onClass op t => exact (ends_refType t).map fun _ _ => True.intro
  | multiNewArray t n => exact (ends_refType t).map fun _ _ => True.intro
  | _ => exact .pure True.intro

theorem ends_layoutElement (e : BodyElement) :
    Ends (layoutElement e) fun l => PlacedAlike e l ∧ l.targets = e.references := by
  cases e with
  | label k => exact .pure ⟨.inl ⟨k, rfl, rfl⟩, rfl⟩
  | instruction i => exact (ends_instruction i).map fun _ _ => ⟨.inr ⟨rfl, rfl⟩, rfl⟩
  | branch b => exact .pure ⟨.inr ⟨rfl, rfl⟩, rfl⟩

section Tables

variable {c : Code} {labels : LabelOffsets} {b : Boundaries} {codeLength : Nat}
  (h : PlacesLaid c labels b codeLength)

include h

theorem ends_offsetOf {k : Label} (hk : k ∈ c.references) :
    Ends (offsetOf labels k) (· = labels.position k) := by
  have hfound : labels[k]? = some (labels.position k).toNat := by
    rw [h.found k hk, h.found_position hk]
  have hoffset := Ends.of_eq_ok (Q := (· = (labels.position k).toNat))
    (LabelOffsets.offset_eq_ok.2 hfound) rfl
  refine hoffset.map fun n hn => ?_
  rw [hn, UInt16.ofNat_toNat]

theorem ends_exceptionHandler {handler : ExceptionHandler}
    (hreferences : ∀ k ∈ handler.references, k ∈ c.references) :
    Ends (exceptionHandler labels handler) fun _ => True := by
  have hstart := hreferences handler.start (by simp [ExceptionHandler.references])
  have hstop := hreferences handler.stop (by simp [ExceptionHandler.references])
  have htarget := hreferences handler.handler (by simp [ExceptionHandler.references])
  refine (ends_offsetOf h hstart).bind fun _ _ => (ends_offsetOf h hstop).bind fun _ _ => ?_
  refine (ends_offsetOf h htarget).bind fun _ _ => ?_
  exact (Ends.optionMapM ends_className _).map fun _ _ => True.intro

theorem ends_lineNumber {l : LineNumber} (hstart : l.start ∈ c.references) :
    Ends (lineNumber labels l) fun _ => True :=
  (ends_offsetOf h hstart).map fun _ _ => True.intro

theorem ends_localVariable {v : LocalVariable}
    (hreferences : ∀ k ∈ v.references, k ∈ c.references)
    (hrange : c.place v.start ≤ c.place v.stop) :
    Ends (localVariable labels v) fun _ => True := by
  have hstart := hreferences v.start (by simp [LocalVariable.references])
  have hstop := hreferences v.stop (by simp [LocalVariable.references])
  have hle := (h.position_le_iff hstart hstop).2 hrange
  unfold localVariable
  refine (ends_offsetOf h hstart).bind fun start hstartAt => ?_
  refine (ends_offsetOf h hstop).bind fun stop hstopAt => ?_
  -- offsets are in the order of the places, so the range does not end before it starts
  rw [hstartAt, hstopAt, if_neg (UInt16.not_lt.2 hle)]
  refine (ends_constant _).bind fun _ _ => ?_
  exact (ends_constant _).map fun _ _ => True.intro

theorem ends_verificationType {t : VerificationType RefType Label}
    (hsite : ∀ k ∈ t.site?, k ∈ c.references) :
    Ends (t.mapM refType (offsetOf labels)) fun _ => True := by
  cases t with
  | object name => exact (ends_refType name).map fun _ _ => True.intro
  | uninitialized k => exact (ends_offsetOf h (hsite k rfl)).map fun _ _ => True.intro
  | _ => exact .pure True.intro

theorem ends_frameChange {change : FrameChange RefType Label}
    (htypes : ∀ t ∈ change.types, ∀ k ∈ t.site?, k ∈ c.references) :
    Ends (change.mapM refType (offsetOf labels)) fun _ => True := by
  have hmap {ts : List (VerificationType RefType Label)}
      (hts : ∀ t ∈ ts, ∀ k ∈ t.site?, k ∈ c.references) :
      Ends (ts.mapM (·.mapM refType (offsetOf labels))) fun _ => True :=
    (Ends.mapM fun t ht => ends_verificationType h (hts t ht)).mono fun _ _ => True.intro
  cases change with
  | same | chop => exact .pure True.intro
  | sameWithStack t =>
    exact (ends_verificationType h (htypes t (List.mem_singleton_self t))).map
      fun _ _ => True.intro
  | append locals => exact (hmap htypes).map fun _ _ => True.intro
  | full locals stack =>
    refine (hmap fun t ht => htypes t (List.mem_append_left _ ht)).bind fun _ _ => ?_
    exact (hmap fun t ht => htypes t (List.mem_append_right _ ht)).map fun _ _ => True.intro

theorem ends_frameEntries {frames : List (UInt16 × BodyFrame)}
    (hsites : ∀ f ∈ frames, ∀ k ∈ f.2.sites, k ∈ c.references) (previous : Option UInt16)
    (before : BodyFrame) :
    Ends (frameEntries labels previous before frames) fun es => ∀ e ∈ es, e.change.Writable := by
  induction frames generalizing previous before with
  | nil => exact .pure (List.forall_mem_nil _)
  | cons f frames ih =>
    obtain ⟨offset, frame⟩ := f
    rw [List.forall_mem_cons] at hsites
    have htypes : ∀ t ∈ (frame.compress before).types, ∀ k ∈ t.site?, k ∈ c.references := by
      intro t ht k hk
      exact hsites.1 k (List.mem_filterMap.2 ⟨t, Frame.mem_of_mem_types_compress ht, hk⟩)
    unfold frameEntries
    refine (ends_frameChange h htypes).and_run.bind ?_
    rintro change ⟨-, p, q, hrun⟩
    have hresolves : (frame.compress before).ResolvesTo change := ⟨_, _, p, q, hrun⟩
    have hwritable := hresolves.keeps.1.1 (frame.compress_writable before)
    exact (ih hsites.2 _ _).map fun es hes => List.forall_mem_cons.2 ⟨hwritable, hes⟩

end Tables

theorem ends_store {format : AttributeFormat α} {a : α} {info : Bytes}
    (h : format.write a = .ok info) : Ends (format.store a) fun _ => True := by
  refine (ends_constant _).bind fun _ _ => ?_
  exact (Ends.of_eq_ok (Q := fun _ => True) h True.intro).map fun _ _ => True.intro

theorem ends_verbatim (v : VerbatimAttribute) : Ends (verbatim v) fun _ => True :=
  (ends_constant _).map fun _ _ => True.intro

theorem ends_unlessEmpty {f : List α → PoolM Stored.Attribute} {as : List α}
    (h : Ends (f as) fun _ => True) : Ends (unlessEmpty f as) fun _ => True := by
  unfold unlessEmpty
  split
  · exact .pure True.intro
  · exact h.map fun _ _ => True.intro

theorem ends_table (format : AttributeFormat (List β)) {f : α → PoolM β} {as : List α}
    (hf : ∀ a ∈ as, Ends (f a) fun _ => True)
    (hformat : ∀ bs, ∃ info, format.write bs = .ok info) :
    Ends (unlessEmpty (fun as => do format.store (← as.mapM f)) as) fun _ => True := by
  refine ends_unlessEmpty ((Ends.mapM hf).bind fun bs _ => ?_)
  obtain ⟨info, hinfo⟩ := hformat bs
  exact ends_store hinfo

end PoolM

/-- Code that can be lowered, as far as there is room for it. -/
structure Code.Lowerable (c : Code) : Prop where
  placed : c.Placed
  ranges : ∀ v ∈ c.localVariables ++ c.localVariableTypes, c.place v.start ≤ c.place v.stop
  /-- Frames stand in order, each at a place of its own. -/
  frames : c.frames.Pairwise fun f g => c.place f.1 < c.place g.1
  /-- Computing the limit of the stack could fail. -/
  maxStack : c.maxStack ≠ none

namespace PoolM

variable {c : Code} {labels : LabelOffsets} {b : Boundaries} {codeLength : Nat}

theorem ends_frameTable (h : PlacesLaid c labels b codeLength) (hc : c.Lowerable)
    (context : MethodContext) : Ends (frameTable labels context c.frames) fun _ => True := by
  have hreferences {f : Label × BodyFrame} (hf : f ∈ c.frames) :
      ∀ k ∈ f.1 :: f.2.sites, k ∈ c.references :=
    fun _ hk => Code.mem_references_of_frame hf hk
  let placed := c.frames.map fun f => (labels.position f.1, f.2)
  have hincreasing : placed.Pairwise fun f g => f.1 < g.1 := by
    refine List.pairwise_map.2 (hc.frames.imp_of_mem ?_)
    intro f g hf hg hlt
    have hle := h.position_le_iff (hreferences hg g.1 List.mem_cons_self)
      (hreferences hf f.1 List.mem_cons_self)
    exact UInt16.not_le.1 fun hge => Nat.not_le.2 hlt (hle.1 hge)
  have hsorted : placed.mergeSort (fun f g => f.1 ≤ g.1) = placed :=
    List.mergeSort_of_pairwise (hincreasing.imp fun hlt => decide_eq_true (UInt16.le_of_lt hlt))
  have hplaced : Ends (placeFrames labels c.frames) (· = placed) := by
    unfold placeFrames
    refine (Ends.mapM (S := fun f q => q = (labels.position f.1, f.2)) ?_).map ?_
    · intro f hf
      refine (ends_offsetOf h (hreferences hf f.1 List.mem_cons_self)).map fun offset hoffset => ?_
      rw [hoffset]
    · intro qs hqs
      have heq : List.Forall₂ (· = ·) placed qs :=
        List.forall₂_map_left_iff.2 (hqs.imp fun _ _ hq => hq.symm)
      rw [List.forall₂_eq_eq_eq] at heq
      rw [← heq, hsorted]
  unfold frameTable
  refine hplaced.bind fun placed' hplaced' => ?_
  subst hplaced'
  have hnone : repeated? (placed.map (·.1)) = none :=
    repeated?_of_pairwise_lt (List.pairwise_map.2 hincreasing)
  simp only [hnone]
  have hsites : ∀ f ∈ placed, ∀ k ∈ f.2.sites, k ∈ c.references := by
    refine List.forall_mem_map.2 fun f hf k hk => ?_
    exact hreferences hf k (List.mem_cons_of_mem _ hk)
  refine (ends_frameEntries h hsites none context.initialFrame).bind fun es hes => ?_
  obtain ⟨info, hinfo⟩ := Stored.FrameEntry.exists_writeTable hes
  exact ends_store hinfo

theorem ends_codeAround {assembled : AssembledCode}
    (h : PlacesLaid c assembled.labels b codeLength) (hc : c.Lowerable) (context : MethodContext) :
    Ends (codeAround context c assembled) fun _ => True := by
  have hhandlers : Ends (c.exceptionHandlers.mapM (exceptionHandler assembled.labels)) _ :=
    .mapM fun handler hhandler =>
      ends_exceptionHandler h fun k hk => Code.mem_references_of_handler hhandler hk
  have hlines := ends_table .lineNumberTable
    (fun l hl => ends_lineNumber h (Code.mem_references_of_lineNumber hl)) fun _ => ⟨_, rfl⟩
  have hvariable {v : LocalVariable} (hv : v ∈ c.localVariables ++ c.localVariableTypes) :
      Ends (localVariable assembled.labels v) fun _ => True :=
    ends_localVariable h (fun k hk => Code.mem_references_of_variable hv hk) (hc.ranges v hv)
  have hlocals := ends_table .localVariableTable
    (fun v hv => hvariable (List.mem_append_left c.localVariableTypes hv)) fun _ => ⟨_, rfl⟩
  have htypes := ends_table .localVariableTypeTable
    (fun v hv => hvariable (List.mem_append_right c.localVariables hv)) fun _ => ⟨_, rfl⟩
  have hframes := ends_unlessEmpty (ends_frameTable h hc context)
  have hattributes : Ends (c.attributes.mapM verbatim) _ := .mapM fun v _ => ends_verbatim v
  unfold codeAround
  refine hhandlers.bind fun _ _ => hlines.bind fun _ _ => hlocals.bind fun _ _ => ?_
  refine htypes.bind fun _ _ => hframes.bind fun _ _ => hattributes.bind fun _ _ => ?_
  obtain ⟨limit, hlimit⟩ := Option.ne_none_iff_exists'.1 hc.maxStack
  rw [hlimit]
  exact .pure True.intro

theorem ends_layout (hc : c.Placed) : Ends (layout c.elements) fun assembled =>
    ∃ b codeLength, PlacesLaid c assembled.labels b codeLength := by
  unfold layout
  refine (Ends.mapM fun e _ => ends_layoutElement e).bind fun elements helements => ?_
  have hplaced : LabelsPlaced elements := by
    intro l hl k hk
    obtain ⟨e, he, -, htargets⟩ := exists_of_mem_right helements hl
    rw [htargets] at hk
    have hmem : .label k ∈ c.elements := by
      rw [← List.count_pos_iff, hc.once k (Code.mem_references_of_element he hk)]
      exact Nat.one_pos
    obtain ⟨l', hl', ⟨k', hk', rfl⟩ | ⟨hfalse, -⟩, -⟩ := exists_of_mem_left helements hmem
    · cases hk'
      exact hl'
    · cases hfalse
  refine Ends.lift (fun assembled hassemble => ?_) fun e he => isShortage_of_assemble hplaced he
  obtain ⟨widened, hall, hwidened, hlabels, -⟩ := laidOut_of_assemble hassemble
  obtain ⟨widened', hall', -, hlength, -⟩ := of_assemble hassemble
  obtain rfl : widened' = widened := Except.ok.inj (hall'.symm.trans hall)
  rw [hlabels]
  have halike : List.Forall₂ PlacedAlike c.elements widened' :=
    forall₂_comp (fun _ _ _ he hl => he.1.of_widened hl) helements hwidened
  let b : Boundaries := ⟨placedBoundaries 0 widened', .ofList (placedBoundaries 0 widened')⟩
  refine ⟨b, _, placesLaid_of_placed hc halike hlength rfl fun o ho => ?_⟩
  rw [Boundaries.contains, Std.HashSet.contains_ofList, List.contains_iff_mem]
  exact ho

/-- Code that can be lowered is lowered, or there is no room for it. -/
theorem ends_code (hc : c.Lowerable) (context : MethodContext) :
    Ends (code context c) fun _ => True := by
  rw [code_eq]
  refine (ends_layout hc.placed).bind fun assembled ⟨_, _, hlaid⟩ => ?_
  exact ends_codeAround hlaid hc context

end PoolM

end ClassPatch
