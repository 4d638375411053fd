import ClassPatch.Proofs.Bytecode.Settled
import ClassPatch.Proofs.Lift.Body

/-!
A body that was laid out, and is lifted from its bytes. When it is lowered again, its instructions
have the same indices as operands, and its branches have the form that was chosen for them.
-/

namespace ClassPatch

/-- Whether the element stands for an instruction. -/
def CodeElement.takesBytes {I B : Type} : CodeElement I B → Bool
  | .label _ => false
  | _ => true

variable {r : Resolver} {s : Rereading} {labels : Std.HashMap Nat Label} {found : LabelOffsets}

theorem takesBytes_labelElement (labels : Std.HashMap Nat Label) (offset : Nat) :
    (labelElement labels offset).filter CodeElement.takesBytes = [] := by
  rw [List.filter_eq_nil_iff]
  intro e he
  obtain ⟨k, rfl⟩ := eq_label_of_mem he
  exact Bool.false_ne_true

theorem elementLifted_of_body {decoded : List (Nat × Decoded)} {body : List (List BodyElement)}
    (h : List.Forall₂ (fun x es => r.bodyElement labels x.1 x.2 = .ok es) decoded body) :
    List.Forall₂ (fun x e => ElementLifted r labels x.2 e) decoded
      (body.flatten.filter CodeElement.takesBytes) := by
  induction h with
  | nil => exact .nil
  | @cons x es decoded body hhead _ ih =>
    obtain ⟨o, d⟩ := x
    obtain ⟨e, he, rfl⟩ := elementLifted_of_bodyElement hhead
    have hsingle : [e].filter CodeElement.takesBytes = [e] := by cases he <;> rfl
    rw [List.flatten_cons, List.filter_append, List.filter_append, takesBytes_labelElement,
      hsingle]
    exact .cons he ih

/-- An element of a body with the one that it was laid out as, up to the form of a branch. -/
inductive LaidOutAs (s : Rereading) : LayoutElement → BodyElement → Prop where
  | label (label : Label) : LaidOutAs s (.label label) (.label label)
  | instruction {x : StoredInstruction} {i : SymbolicInstruction}
    (h : PoolM.Repeats s.pool (PoolM.instruction i) x) :
    LaidOutAs s (.instruction x) (.instruction i)
  | branch (b c : SymbolicBranch) : LaidOutAs s (.branch b) (.branch c)

theorem branch_eq_of_rel {b c : SymbolicBranch} {jump : Branch Nat Nat}
    (hlabels : ∀ (k : Label) (n : Nat), found[k]? = some n → labels[n]? = some k)
    (hjump : Branch.Rel (fun k n => found[k]? = some n) (fun k n => found[k]? = some n) b jump)
    (hlifted : Branch.Rel (fun o k => labels[o]? = some k) (fun o k => labels[o]? = some k)
      jump c) : c = b := by
  have hfirst := Branch.mapM_of_rel (hlifted.imp (fun _ _ _ h => labelAt_eq_ok.2 h)
    fun _ _ _ h => labelAt_eq_ok.2 h)
  have hsecond := Branch.mapM_of_rel (hjump.flip.imp
    (fun n _ k h => labelAt_eq_ok.2 (hlabels k n h)) fun n _ k h => labelAt_eq_ok.2 (hlabels k n h))
  exact Except.ok.inj (hfirst.symm.trans hsecond)

theorem repeats_of_decodesTo {placed : List (Nat × LayoutElement)} {decoded : List (Nat × Decoded)}
    {es : List BodyElement} (h : DecodesTo found placed decoded)
    (hes : List.Forall₂ (fun x e => LaidOutAs s x.2 e) placed es)
    (hlifted : List.Forall₂ (fun x e => ElementLifted r labels x.2 e) decoded
      (es.filter CodeElement.takesBytes))
    (hlabels : ∀ (k : Label) (n : Nat), found[k]? = some n → labels[n]? = some k) :
    List.Forall₂ (fun e x => PoolM.Repeats s.pool (PoolM.layoutElement e) x) es
      (placed.map fun x => x.2.aligned x.1) := by
  induction h generalizing es with
  | nil =>
    cases hes
    exact .nil
  | label k _ ih =>
    obtain ⟨e, es, he, htail, rfl⟩ := List.forall₂_cons_left_iff.1 hes
    cases he
    exact .cons (.pure _ _) (ih htail hlifted)
  | instruction x _ ih =>
    obtain ⟨e, es, he, htail, rfl⟩ := List.forall₂_cons_left_iff.1 hes
    cases he with
    | instruction hrepeats =>
      obtain ⟨-, hrest⟩ := List.forall₂_cons.1 hlifted
      exact .cons (hrepeats.bind (.pure _ _)) (ih htail hrest)
  | branch hjump _ ih =>
    obtain ⟨e, es, he, htail, rfl⟩ := List.forall₂_cons_left_iff.1 hes
    cases he with
    | branch b c =>
      obtain ⟨hhead, hrest⟩ := List.forall₂_cons.1 hlifted
      cases hhead with
      | branch hbranch =>
        rw [branch_eq_of_rel hlabels hjump hbranch]
        exact .cons (.pure _ _) (ih htail hrest)

namespace PoolM

theorem repeats_layout {p : Pool} {es : List BodyElement} {elements : List LayoutElement}
    {assembled : AssembledCode}
    (h : List.Forall₂ (fun e x => Repeats p (layoutElement e) x) es elements)
    (hassemble : assemble elements = .ok assembled) : Repeats p (layout es) assembled :=
  (Repeats.mapM h).bind (.lift hassemble)

end PoolM

/-- Bodies that are laid out as the same code, with what the last pool holds. -/
def LaidOutAlike (s : Rereading) (es fs : List BodyElement) : Prop :=
  ∃ assembled, PoolM.Repeats s.pool (PoolM.layout es) assembled
    ∧ PoolM.Repeats s.pool (PoolM.layout fs) assembled

theorem laidOutAlike_of_decodesTo {es fs : List BodyElement} {elements widened : List LayoutElement}
    {assembled : AssembledCode} {decoded : List (Nat × Decoded)}
    (helements : List.Forall₂ (ElementLowered s) es elements)
    (hassemble : assemble elements = .ok assembled) (hwidened : widenAll elements = .ok widened)
    (hdecodes : DecodesTo assembled.labels (placeFrom 0 widened) decoded)
    (hfs : List.Forall₂ (LaidOutAs s) widened fs)
    (hlifted : List.Forall₂ (fun x e => ElementLifted r labels x.2 e) decoded
      (fs.filter CodeElement.takesBytes))
    (hlabels : ∀ (k : Label) (n : Nat), assembled.labels[k]? = some n → labels[n]? = some k) :
    LaidOutAlike s es fs := by
  have hplaced : List.Forall₂ (fun x e => LaidOutAs s x.2 e) (placeFrom 0 widened) fs := by
    rwa [← map_snd_placeFrom 0 widened, List.forall₂_map_left_iff] at hfs
  have hfirst := PoolM.repeats_layout (helements.imp fun _ _ => ElementLowered.repeats)
    hassemble
  have hsecond := PoolM.repeats_layout (repeats_of_decodesTo hdecodes hplaced hlifted hlabels)
    ((assemble_settleFrom hwidened).trans hassemble)
  exact ⟨assembled, hfirst, hsecond⟩

end ClassPatch
