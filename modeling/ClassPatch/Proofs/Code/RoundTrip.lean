import ClassPatch.Proofs.Code.Closed
import ClassPatch.Proofs.Lift.Reread
import ClassPatch.Proofs.Lower.Found

/-!
Bodies of methods are read back from what they were lowered to.
-/

namespace ClassPatch

namespace Code

/--
A body that was lowered is read back, with its labels renumbered by their places, its frames in
order and its limits filled in. Jumps may have become wide, and switches are padded anew.
-/
theorem exists_rewritten_canonical {context : MethodContext} {c : Code} {p q : Pool}
    {y : Stored.Code} (hp : p.Valid) (hc : c.Placed) (hread : c.Readable)
    (hrun : (PoolM.code context c).run p = (.ok y, q))
    (hsize : q.bootstrapMethods.size ≤ 0xFFFF) :
    ∃ d, q.resolver.code context y = .ok d ∧ (c.canonical context).Rewritten d := by
  have hblank : PoolM.Yields .blank (PoolM.code context c) _ :=
    PoolM.yields_code context fun hwf => hwf.elim
  have hq : q.Valid := (hblank p y q hrun).1.valid hp
  let s : Rereading := ⟨q, hq.get?_zero, True, fun _ => True⟩
  obtain ⟨-, -, hyields⟩ := PoolM.yields_code (s := s) context (fun _ => hread.constants) p y q hrun
  exact exists_rewritten_of_lowered (s := s) True.intro (hread.rereadable hc context)
    (hyields (hq.retains hsize))

end Code

open PoolM

section Tables

variable {t : ConstantTable} {labels : LabelOffsets} {site stop target : Label}

theorem finds_offsetOf {label : Label} {n : Nat} (h : labels[label]? = some n) :
    Finds t (offsetOf labels label) (UInt16.ofNat n) :=
  (Finds.lift (LabelOffsets.offset_eq_ok.2 h)).bind (.pure _)

theorem finds_exceptionHandler (hsite : labels[site]? = some 0) (hstop : labels[stop]? = some 4)
    (htarget : labels[target]? = some 4) :
    Finds t ([⟨site, stop, target, none⟩].mapM (exceptionHandler labels)) [⟨0, 4, 4, none⟩] := by
  refine .mapM (.cons ?_ .nil)
  exact (finds_offsetOf hsite).bind ((finds_offsetOf hstop).bind
    ((finds_offsetOf htarget).bind (.pure _)))

theorem finds_frameTable {context : MethodContext} {i : ConstantIndex}
    (hsite : labels[site]? = some 0) (htarget : labels[target]? = some 4)
    (hstatic : context.isStatic = true) (hparameters : context.descriptor.parameters = [])
    (hname : t.indexOf? (.utf8 "StackMapTable") = some i) :
    Finds t (unlessEmpty (frameTable labels context) [(target, ⟨[.uninitialized site], []⟩)])
      [⟨i, [0x00, 0x01, 0xFC, 0x00, 0x04, 0x08, 0x00, 0x00]⟩] := by
  let frame : BodyFrame := ⟨[.uninitialized site], []⟩
  have hplace : Finds t (do return (← offsetOf labels target, frame)) (4, frame) :=
    (finds_offsetOf htarget).bind (.pure _)
  have hplaced : Finds t (placeFrames labels [(target, frame)]) [(4, frame)] := by
    unfold placeFrames
    refine (Finds.mapM (.cons hplace .nil)).bind ?_
    rw [List.mergeSort_singleton]
    exact .pure _
  have hlocal : Finds t
      ((.uninitialized site : VerificationType RefType Label).mapM refType (offsetOf labels))
      (.uninitialized 0) :=
    (finds_offsetOf hsite).bind (.pure _)
  have hchange : Finds t ((frame.compress ⟨[], []⟩).mapM refType (offsetOf labels))
      (.append [.uninitialized 0]) :=
    (Finds.mapM (.cons hlocal .nil)).bind (.pure _)
  have hentries : Finds t (frameEntries labels none context.initialFrame [(4, frame)])
      [⟨4, .append [.uninitialized 0]⟩] := by
    rw [MethodContext.initialFrame_of_static hstatic hparameters]
    unfold frameEntries
    exact hchange.bind (.pure _)
  have htable : Finds t (frameTable labels context [(target, frame)])
      ⟨i, [0x00, 0x01, 0xFC, 0x00, 0x04, 0x08, 0x00, 0x00]⟩ :=
    hplaced.bind (hentries.bind (.store hname rfl))
  exact htable.bind (.pure _)

end Tables

section MergedCode

/-- A jump to a place with two labels, where a handler and a frame stand as well. -/
def mergedCode : Code where
  maxStack := some 1
  elements := [.label 4, .instruction (.plain .nop), .branch (.goto 9), .label 2, .label 9,
    .branch .voidReturn, .label 1]
  exceptionHandlers := [⟨4, 2, 9, none⟩]
  frames := [(9, ⟨[.uninitialized 4], []⟩)]

def mergedContext : MethodContext where
  className := ⟨"Merged", by decide +kernel⟩
  methodName := ⟨"merge", by decide +kernel⟩
  descriptor := ⟨[], none⟩
  isStatic := true

def mergedLayout : List LayoutElement :=
  [.label 4, .instruction (.plain .nop), .branch (.goto 9), .label 2, .label 9,
    .branch .voidReturn, .label 1]

def mergedLabels : LabelOffsets := labelOffsets (placeFrom 0 mergedLayout)

theorem getElem?_mergedLabels :
    mergedLabels[4]? = some 0 ∧ mergedLabels[2]? = some 4 ∧ mergedLabels[9]? = some 4 := by
  have hplaced : placeFrom 0 mergedLayout = [(0, .label 4), (0, .instruction (.plain .nop)),
      (1, .branch (.goto 9)), (4, .label 2), (4, .label 9), (4, .branch .voidReturn),
      (5, .label 1)] := rfl
  unfold mergedLabels
  rw [hplaced]
  refine ⟨labelOffsets_of_mem ?_ ?_, labelOffsets_of_mem ?_ ?_, labelOffsets_of_mem ?_ ?_⟩ <;> simp

theorem assemble_mergedLayout :
    assemble mergedLayout = .ok ⟨[0x00, 0xA7, 0x00, 0x03, 0xB1], mergedLabels⟩ := by
  have htarget := getElem?_mergedLabels.2.2
  have hstays : LayoutElement.widen mergedLabels 1 (.branch (.goto 9)) = .ok (.branch (.goto 9)) :=
    LayoutElement.widen_goto htarget (by decide)
  have hgoto : LayoutElement.encode mergedLabels 1 (.branch (.goto 9)) = .ok [0xA7, 0x00, 0x03] :=
    LayoutElement.encode_goto htarget (by decide)
  have hnear : widenOnce mergedLayout = .ok mergedLayout :=
    mapM_eq_ok.2 (.cons rfl (.cons rfl (.cons hstays
      (.cons rfl (.cons rfl (.cons rfl (.cons rfl .nil)))))))
  exact assemble_of_widenOnce hnear (by decide) (.cons rfl (.cons rfl (.cons hgoto
    (.cons rfl (.cons rfl (.cons rfl (.cons rfl .nil)))))))

def mergedNames : ConstantTable := .ofList 1 [.utf8 "StackMapTable"]

theorem valid_mergedNames : (Pool.ofTable mergedNames).Valid :=
  Pool.valid_ofTable (ConstantTable.dense_append _).ordered rfl (by decide)

theorem finds_mergedCode : ∃ y, Finds mergedNames (code mergedContext mergedCode) y := by
  have hlayout : Finds mergedNames (layout mergedCode.elements)
      ⟨[0x00, 0xA7, 0x00, 0x03, 0xB1], mergedLabels⟩ := by
    refine (Finds.mapM ?_).bind (.lift assemble_mergedLayout)
    exact .cons (.pure _) (.cons (.pure _) (.cons (.pure _) (.cons (.pure _) (.cons (.pure _)
      (.cons (.pure _) (.cons (.pure _) .nil))))))
  obtain ⟨hsite, hstop, htarget⟩ := getElem?_mergedLabels
  have hhandlers := finds_exceptionHandler (t := mergedNames) hsite hstop htarget
  have hframes : Finds mergedNames
      (unlessEmpty (frameTable mergedLabels mergedContext) mergedCode.frames)
      [⟨1, [0x00, 0x01, 0xFC, 0x00, 0x04, 0x08, 0x00, 0x00]⟩] :=
    finds_frameTable hsite htarget rfl rfl (by decide)
  rw [code_eq]
  exact ⟨_, hlayout.bind (hhandlers.bind ((Finds.unlessEmpty_nil _).bind
    ((Finds.unlessEmpty_nil _).bind ((Finds.unlessEmpty_nil _).bind (hframes.bind
      ((Finds.mapM .nil).bind ((Finds.pure _).bind (.pure _))))))))⟩

theorem placed_mergedCode : mergedCode.Placed :=
  ⟨by decide, by decide, by decide⟩

theorem readable_mergedCode : mergedCode.Readable := by
  constructor
  case constants =>
    intro e he
    simp only [mergedCode, List.mem_cons, List.not_mem_nil, or_false] at he
    rcases he with rfl | rfl | rfl | rfl | rfl | rfl | rfl <;> exact True.intro
  case ranges =>
    intro b hb
    simp only [mergedCode, List.mem_cons, List.not_mem_nil, or_false, CodeElement.branch.injEq,
      reduceCtorEq, false_or] at hb
    rcases hb with rfl | rfl <;> exact True.intro
  case tables => exact ⟨by decide, by decide, by decide⟩
  case frames => decide
  case frameTypes => decide
  case attributes => exact fun v hv => absurd hv List.not_mem_nil

/-- Both labels behind the jump become one, and so do those that the handler refers to. -/
theorem exists_rewritten_mergedCode : ∃ y,
    (PoolM.code mergedContext mergedCode).run (.ofTable mergedNames)
        = (.ok y, .ofTable mergedNames)
      ∧ ∃ d, (Pool.ofTable mergedNames).resolver.code mergedContext y = .ok d
        ∧ (mergedCode.canonical mergedContext).Rewritten d := by
  obtain ⟨y, hy⟩ := finds_mergedCode
  have hrun := hy (.ofTable mergedNames) valid_mergedNames.findsAll
  exact ⟨y, hrun, Code.exists_rewritten_canonical valid_mergedNames placed_mergedCode
    readable_mergedCode hrun (by decide)⟩

example : mergedCode.canonical mergedContext = {
    maxStack := some 1
    maxLocals := some 0
    elements := [.label 0, .instruction (.plain .nop), .branch (.goto 1), .label 1,
      .branch .voidReturn]
    exceptionHandlers := [⟨0, 1, 1, none⟩]
    frames := [(1, ⟨[.uninitialized 0], []⟩)] } := by
  decide +kernel

end MergedCode

section Guarded

variable {t : ConstantTable} {context : MethodContext} {lines frames : ConstantIndex}

def guardedLayout : List LayoutElement :=
  [.label 0, .instruction (.load .int 0), .branch (.goto 1), .label 1, .branch .voidReturn]

def guardedLabels : LabelOffsets := labelOffsets (placeFrom 0 guardedLayout)

theorem getElem?_guardedLabels : guardedLabels[0]? = some 0 ∧ guardedLabels[1]? = some 4 := by
  have hplaced : placeFrom 0 guardedLayout = [(0, .label 0), (0, .instruction (.load .int 0)),
      (1, .branch (.goto 1)), (4, .label 1), (4, .branch .voidReturn)] := rfl
  unfold guardedLabels
  rw [hplaced]
  refine ⟨labelOffsets_of_mem ?_ ?_, labelOffsets_of_mem ?_ ?_⟩ <;> simp

theorem assemble_guardedLayout :
    assemble guardedLayout = .ok ⟨[0x1A, 0xA7, 0x00, 0x03, 0xB1], guardedLabels⟩ := by
  have htarget := getElem?_guardedLabels.2
  have hstays : LayoutElement.widen guardedLabels 1 (.branch (.goto 1)) = .ok (.branch (.goto 1)) :=
    LayoutElement.widen_goto htarget (by decide)
  have hgoto : LayoutElement.encode guardedLabels 1 (.branch (.goto 1)) = .ok [0xA7, 0x00, 0x03] :=
    LayoutElement.encode_goto htarget (by decide)
  have hnear : widenOnce guardedLayout = .ok guardedLayout :=
    mapM_eq_ok.2 (.cons rfl (.cons rfl (.cons hstays (.cons rfl (.cons rfl .nil)))))
  exact assemble_of_widenOnce hnear (by decide)
    (.cons rfl (.cons rfl (.cons hgoto (.cons rfl (.cons rfl .nil)))))

theorem finds_guardedBody (hlines : t.indexOf? (.utf8 "LineNumberTable") = some lines)
    (hframes : t.indexOf? (.utf8 "StackMapTable") = some frames)
    (hstatic : context.isStatic = true) (hparameters : context.descriptor.parameters = []) :
    Finds t (code context guardedBody) (guardedCode [0x1A] lines frames) := by
  obtain ⟨hstart, htarget⟩ := getElem?_guardedLabels
  have hlayout : Finds t (layout guardedBody.elements)
      ⟨[0x1A, 0xA7, 0x00, 0x03, 0xB1], guardedLabels⟩ :=
    (Finds.mapM (.cons (.pure _) (.cons (.pure _) (.cons (.pure _) (.cons (.pure _)
      (.cons (.pure _) .nil)))))).bind (.lift assemble_guardedLayout)
  have hline : Finds t (lineNumber guardedLabels ⟨1, 7⟩) ⟨4, 7⟩ :=
    (finds_offsetOf htarget).bind (.pure _)
  have hlineTable : Finds t (unlessEmpty
      (fun ls => do AttributeFormat.lineNumberTable.store (← ls.mapM (lineNumber guardedLabels)))
      guardedBody.lineNumbers) [⟨lines, [0x00, 0x01, 0x00, 0x04, 0x00, 0x07]⟩] :=
    .unlessEmpty_cons ((Finds.mapM (.cons hline .nil)).bind (.store hlines rfl))
  rw [code_eq]
  exact hlayout.bind ((finds_exceptionHandler hstart htarget htarget).bind (hlineTable.bind
    ((Finds.unlessEmpty_nil _).bind ((Finds.unlessEmpty_nil _).bind
      ((finds_frameTable hstart htarget hstatic hparameters hframes).bind
        ((Finds.mapM .nil).bind ((Finds.pure _).bind (.pure _))))))))

end Guarded

end ClassPatch
