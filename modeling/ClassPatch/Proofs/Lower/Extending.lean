import ClassPatch.Proofs.Bytecode.Assemble
import ClassPatch.Proofs.Lower.Bootstrap
import ClassPatch.Proofs.Lower.Code
import ClassPatch.Proofs.Lower.Compositional
import ClassPatch.Proofs.Pool.Run

/-!
Lowering adds to the pool and leaves what is there, whether it fails or not. It runs out of room for
code nowhere but in laying out the body of a method.
-/

namespace ClassPatch

/-- Whether there is no room for the code of a method or for the distance of a jump. -/
def ClassError.isOverflow : ClassError → Bool
  | .codeOverflow _ | .branchOverflow .. => true
  | _ => false

theorem LabelOffsets.isOverflow_of_offset {labels : LabelOffsets} {label : Label} {e : ClassError}
    (h : labels.offset label = .error e) : e.isOverflow = false := by
  rw [eq_undefinedLabel_of_offset h]
  rfl

theorem Stored.FrameEntry.isOverflow_of_write {x : FrameEntry} {e : ClassError}
    (h : x.write = .error e) : e.isOverflow = false := by
  unfold write at h
  split at h
  · cases h
  · cases h
  · split at h <;> cases h
    rfl
  · split at h <;> cases h
    rfl
  · cases h

theorem AttributeFormat.isOverflow_of_write_stackMapTable {xs : List Stored.FrameEntry}
    {e : ClassError} (h : stackMapTable.write xs = .error e) : e.isOverflow = false := by
  rcases bind_eq_error.1 h with h | ⟨parts, -, h⟩
  · obtain ⟨x, -, hx⟩ := exists_of_listMapM_eq_error h
    exact Stored.FrameEntry.isOverflow_of_write hx
  · cases h

namespace PoolM

variable {α β : Type}

/-- The computation adds to the pool and leaves what is there. It runs out of room for code only where
this was to be expected. -/
def Extending (P : Prop) (x : PoolM α) : Prop :=
  ∀ p, p.Extends (x.run p).2 ∧ ∀ e, (x.run p).1 = .error e → e.isOverflow = true → P

variable {P : Prop}

namespace Extending

theorem pure (a : α) : Extending P (Pure.pure a) :=
  fun p => ⟨.refl p, fun _ h => nomatch h⟩

theorem bind {x : PoolM α} {f : α → PoolM β} (hx : Extending P x)
    (hf : ∀ a, Extending P (f a)) : Extending P (x >>= f) := by
  intro p
  obtain ⟨hextends, herror⟩ := hx p
  cases hrun : x.run p with
  | mk result q =>
    rw [hrun] at hextends herror
    cases result with
    | error e =>
      rw [run_bind_error hrun]
      refine ⟨hextends, fun e' he => herror e' ?_⟩
      cases he
      rfl
    | ok a =>
      rw [run_bind_ok hrun]
      exact ⟨hextends.trans (hf a q).1, (hf a q).2⟩

theorem constant (c : Constant) : Extending P (constant c) := by
  intro p
  refine ⟨.of_grows (p.grows_insert_any c), fun e he => ?_⟩
  change (p.insert c).1 = _ at he
  unfold Pool.insert at he
  split at he
  · cases he
  · dsimp only at he
    split at he <;> cases he
    exact nofun

theorem compositional : Compositional (Extending P) := ⟨pure, bind, constant⟩

theorem map {x : PoolM α} {f : α → β} (hx : Extending P x) : Extending P (do return f (← x)) :=
  compositional.map hx f

theorem mapM {f : α → PoolM β} {as : List α} (h : ∀ a ∈ as, Extending P (f a)) :
    Extending P (as.mapM f) :=
  compositional.mapM h

theorem optionMapM {f : α → PoolM β} {a : Option α} (h : ∀ a' ∈ a, Extending P (f a')) :
    Extending P (a.mapM f) :=
  compositional.optionMapM h

theorem extends_of_run {x : PoolM α} (hx : Extending P x) {p q : Pool}
    {result : Except ClassError α} (h : x.run p = (result, q)) : p.Extends q := by
  have hextends := (hx p).1
  rwa [h] at hextends

theorem isOverflow_of_run {x : PoolM α} (hx : Extending False x) {p q : Pool} {e : ClassError}
    (h : x.run p = (.error e, q)) : e.isOverflow = false :=
  Bool.eq_false_iff.2 ((hx p).2 e (congrArg Prod.fst h))

theorem exists_of_run_bind {x : PoolM α} {f : α → PoolM β} (hx : Extending False x) {p q : Pool}
    {e : ClassError} (h : (x >>= f).run p = (.error e, q)) (he : e.isOverflow = true) :
    ∃ a p', x.run p = (.ok a, p') ∧ (f a).run p' = (.error e, q) := by
  rcases run_bind_eq_error.1 h with h | h
  · rw [hx.isOverflow_of_run h] at he
    cases he
  · exact h

theorem liftM {x : Except ClassError α} (h : ∀ e, x = .error e → e.isOverflow = true → P) :
    Extending P (MonadLiftT.monadLift x) :=
  fun p => ⟨.refl p, h⟩

theorem lift {x : Except ClassError α} (h : ∀ e, x = .error e → e.isOverflow = false) :
    Extending P (MonadLiftT.monadLift x) :=
  liftM fun e he hoverflow => absurd hoverflow (Bool.eq_false_iff.1 (h e he))

theorem throw {e : ClassError} (h : e.isOverflow = false) :
    Extending P (MonadExcept.throw e : PoolM α) :=
  lift (x := .error e) fun _ he => by
    cases he
    exact h

theorem forall₂_of_run {f : α → PoolM β} {as : List α} {bs : List β}
    (hf : ∀ a ∈ as, Extending P (f a)) {p q : Pool} (h : (as.mapM f).run p = (.ok bs, q)) :
    List.Forall₂ (fun a b => ∃ p' q', p.Extends p' ∧ (f a).run p' = (.ok b, q') ∧ q'.Extends q)
      as bs := by
  induction as generalizing p bs with
  | nil =>
    obtain ⟨rfl, -⟩ := run_pure_eq_ok.1 h
    exact .nil
  | cons a as ih =>
    rw [List.forall_mem_cons] at hf
    rw [List.mapM_cons] at h
    obtain ⟨b, p₁, hb, h⟩ := run_bind_eq_ok.1 h
    obtain ⟨bs, p₂, hbs, h⟩ := run_bind_eq_ok.1 h
    obtain ⟨rfl, rfl⟩ := run_pure_eq_ok.1 h
    have hfirst := hf.1.extends_of_run hb
    have hrest := (mapM hf.2).extends_of_run hbs
    refine .cons ⟨p, p₁, .refl p, hb, hrest⟩ ((ih hf.2 hbs).imp ?_)
    rintro _ _ ⟨p', q', hp', hrun, hq'⟩
    exact ⟨p', q', hfirst.trans hp', hrun, hq'⟩

theorem utf8 (text : String) : Extending P (utf8 text) := constant _

theorem bootstrapEntry (e : BootstrapEntry) : Extending P (bootstrapEntry e) :=
  fun p => ⟨.of_grows (p.grows_insertBootstrap_any e).1, fun _ h => nomatch h⟩

theorem className (name : BinaryName) : Extending P (className name) :=
  compositional.className name

theorem refType (t : RefType) : Extending P (refType t) := compositional.refType t

theorem nameAndType (name descriptor : String) : Extending P (nameAndType name descriptor) :=
  compositional.nameAndType name descriptor

theorem loadable (c : LoadableConstant) : Extending P (loadable c) :=
  compositional.loadable bootstrapEntry c

theorem fillBootstrap (i : UInt16) (e : BootstrapEntry) :
    Extending P (fillBootstrap i e) :=
  fun p => ⟨p.extends_answer (.fill i e), fun _ h => nomatch h⟩

theorem restoreFrom (i : Nat) (bs : List BootstrapMethod) :
    Extending P (restoreFrom i bs) := by
  induction bs generalizing i with
  | nil => exact pure ()
  | cons b bs ih =>
    unfold PoolM.restoreFrom
    refine Extending.bind (compositional.bootstrapParts bootstrapEntry b) fun _ => ?_
    exact (fillBootstrap _ _).bind fun _ => ih (i + 1)

theorem annotations (as : List Annotation) : Extending P (annotations as) :=
  compositional.annotations as

theorem store {format : AttributeFormat α} {a : α}
    (h : ∀ e, format.write a = .error e → e.isOverflow = false) : Extending P (format.store a) :=
  (constant _).bind fun _ => (lift h).map

theorem storeTotal {name : String} {read : Reader α} {write : α → Bytes} {a : α} :
    Extending P ((AttributeFormat.total name read write).store a) :=
  store fun _ h => by cases h

theorem ifSome {f : α → PoolM Stored.Attribute} (h : ∀ a, Extending P (f a)) (a : Option α) :
    Extending P (ifSome f a) :=
  (optionMapM fun a _ => h a).map

theorem unlessEmpty {f : List α → PoolM Stored.Attribute} (h : ∀ as, Extending P (f as))
    (as : List α) : Extending P (unlessEmpty f as) := by
  unfold PoolM.unlessEmpty
  split
  · exact pure []
  · exact (h as).map

theorem verbatim (v : VerbatimAttribute) : Extending P (verbatim v) :=
  (constant _).map

theorem annotationAttributes (as : Annotations) : Extending P (annotationAttributes as) :=
  (unlessEmpty (fun as => (annotations as).bind fun _ => storeTotal) _).bind fun _ =>
    (unlessEmpty (fun as => (annotations as).bind fun _ => storeTotal) _).map

theorem parameterAnnotationAttributes (as : ParameterAnnotations) :
    Extending P (parameterAnnotationAttributes as) := by
  have hlists (ass : List (List Annotation)) :
      Extending P (ass.mapM PoolM.annotations) := mapM fun as _ => annotations as
  exact (ifSome (fun ass => (hlists ass).bind fun _ => storeTotal) _).bind fun _ =>
    (ifSome (fun ass => (hlists ass).bind fun _ => storeTotal) _).map

theorem field (f : Field) : Extending P (field f) := by
  unfold PoolM.field
  refine (constant _).bind fun _ => (constant _).bind fun _ => ?_
  refine (ifSome (fun value => (loadable value).bind fun _ => storeTotal) _).bind fun _ => ?_
  refine (ifSome (fun text => (constant _).bind fun _ => storeTotal) _).bind fun _ => ?_
  exact (annotationAttributes _).bind fun _ => (mapM fun v _ => verbatim v).map

theorem layoutElement (e : BodyElement) : Extending P (layoutElement e) := by
  cases e with
  | label k => exact pure _
  | branch b => exact pure _
  | instruction i =>
    refine Extending.map (x := instruction i) ?_
    unfold instruction
    cases i with
    | ldc c => exact (loadable c).map
    | ldc2 c => exact (loadable c).map
    | onField access f => exact map (compositional.fieldRef f)
    | invoke kind m => exact map (compositional.methodRef m)
    | invokeDynamic site => exact map (compositional.callSite bootstrapEntry site)
    | onClass op t => exact (refType t).map
    | multiNewArray t n => exact (refType t).map
    | _ => exact pure _

section Code

variable (labels : LabelOffsets)

theorem offsetOf (label : Label) : Extending P (offsetOf labels label) :=
  (lift fun _ h => LabelOffsets.isOverflow_of_offset h).map

theorem exceptionHandler (h : ExceptionHandler) : Extending P (exceptionHandler labels h) :=
  (offsetOf labels _).bind fun _ => (offsetOf labels _).bind fun _ =>
    (offsetOf labels _).bind fun _ => (optionMapM fun name _ => className name).map

theorem localVariable (v : LocalVariable) : Extending P (localVariable labels v) := by
  unfold PoolM.localVariable
  refine (offsetOf labels _).bind fun start => (offsetOf labels _).bind fun stop => ?_
  split
  · exact throw rfl
  · exact (constant _).bind fun _ => (constant _).map

theorem verificationType (t : VerificationType RefType Label) :
    Extending P (t.mapM PoolM.refType (PoolM.offsetOf labels)) := by
  cases t with
  | object c => exact (refType c).map
  | uninitialized site => exact (offsetOf labels site).map
  | _ => exact pure _

theorem frameChange (change : FrameChange RefType Label) :
    Extending P (change.mapM PoolM.refType (PoolM.offsetOf labels)) := by
  have htypes (ts : List (VerificationType RefType Label)) :
      Extending P (ts.mapM (·.mapM PoolM.refType (PoolM.offsetOf labels))) :=
    mapM fun t _ => verificationType labels t
  cases change with
  | same => exact pure _
  | sameWithStack t => exact (verificationType labels t).map
  | chop count => exact pure _
  | append locals => exact (htypes locals).map
  | full locals stack => exact (htypes locals).bind fun _ => (htypes stack).map

theorem frameEntries (previous : Option UInt16) (before : BodyFrame)
    (frames : List (UInt16 × BodyFrame)) :
    Extending P (frameEntries labels previous before frames) := by
  induction frames generalizing previous before with
  | nil => exact pure []
  | cons f frames ih =>
    unfold PoolM.frameEntries
    exact (frameChange labels _).bind fun _ => (ih _ _).map

theorem frameTable (context : MethodContext) (frames : List (Label × BodyFrame)) :
    Extending P (frameTable labels context frames) := by
  unfold PoolM.frameTable
  have hplaced : Extending P (placeFrames labels frames) :=
    (mapM fun f _ => (offsetOf labels f.1).map).map
  refine hplaced.bind fun placed => ?_
  have hstore : Extending P (do
      AttributeFormat.stackMapTable.store
        (← PoolM.frameEntries labels none context.initialFrame placed)) :=
    (frameEntries labels _ _ _).bind fun _ =>
      store fun _ h => AttributeFormat.isOverflow_of_write_stackMapTable h
  split
  · exact Extending.bind (throw rfl) fun _ => hstore
  · exact hstore

end Code

theorem codeAround {context : MethodContext} {c : Code} (hlimit : c.maxStack = none → P)
    (assembled : AssembledCode) : Extending P (codeAround context c assembled) := by
  unfold PoolM.codeAround
  refine (mapM fun h _ => exceptionHandler _ h).bind fun _ => ?_
  refine (unlessEmpty (fun ls => (mapM fun l _ => (offsetOf _ _).map).bind fun _ =>
    storeTotal) _).bind fun _ => ?_
  refine (unlessEmpty (fun vs => (mapM fun v _ => localVariable _ v).bind fun _ =>
    storeTotal) _).bind fun _ => ?_
  refine (unlessEmpty (fun vs => (mapM fun v _ => localVariable _ v).bind fun _ =>
    storeTotal) _).bind fun _ => ?_
  refine (unlessEmpty (frameTable _ context) _).bind fun _ => ?_
  refine (mapM fun v _ => verbatim v).bind fun _ => ?_
  cases hmax : c.maxStack with
  | some limit => exact (pure limit).map
  | none => exact Extending.bind (liftM fun _ _ _ => hlimit hmax) fun _ => pure _

theorem code (context : MethodContext) (c : Code) : Extending True (code context c) := by
  rw [code_eq]
  refine Extending.bind ?_ fun assembled => codeAround (fun _ => True.intro) assembled
  exact (mapM fun e _ => layoutElement e).bind fun _ => liftM fun _ _ _ => True.intro

theorem textAttribute {name : String} {read : Reader ConstantIndex} {write : ConstantIndex → Bytes}
    (text : String) : Extending P (textAttribute (.total name read write) text) :=
  (constant _).bind fun _ => storeTotal

theorem classesAttribute {name : String} {read : Reader (List ConstantIndex)}
    {write : List ConstantIndex → Bytes} (names : List BinaryName) :
    Extending P (classesAttribute (.total name read write) names) :=
  (mapM fun name _ => className name).bind fun _ => storeTotal

theorem methodAround (m : Method) {f : List Stored.Attribute → List Stored.Attribute →
      List Stored.Attribute → List Stored.Attribute → List Stored.Attribute →
      List Stored.Attribute → α} : Extending P (do
    let exceptions ← PoolM.unlessEmpty (PoolM.classesAttribute .exceptions) m.exceptions
    let signature ← PoolM.ifSome (PoolM.textAttribute .signature) m.signature
    let annotations ← PoolM.annotationAttributes m.annotations
    let parameterAnnotations ← PoolM.parameterAnnotationAttributes m.parameterAnnotations
    let annotationDefault ← PoolM.ifSome defaultAttribute m.annotationDefault
    let attributes ← m.attributes.mapM PoolM.verbatim
    return f exceptions signature annotations parameterAnnotations annotationDefault attributes) := by
  refine (unlessEmpty (fun names => classesAttribute names) _).bind fun _ => ?_
  refine (ifSome (fun text => textAttribute text) _).bind fun _ => ?_
  refine (annotationAttributes _).bind fun _ => ?_
  refine (parameterAnnotationAttributes _).bind fun _ => ?_
  refine (ifSome (fun v => bind (compositional.elementValue v) fun _ => storeTotal) _).bind fun _ => ?_
  exact (mapM fun v _ => verbatim v).map

theorem method (owner : BinaryName) (m : Method) : Extending True (method owner m) :=
  (constant _).bind fun _ => (constant _).bind fun _ =>
    (ifSome (fun c => (code _ c).bind fun _ => storeTotal) _).bind fun _ => methodAround m

theorem innerClass (c : InnerClass) : Extending P (innerClass c) :=
  (className _).bind fun _ => (optionMapM fun name _ => className name).bind fun _ =>
    (optionMapM fun _ _ => constant _).map

theorem enclosingMethod (e : EnclosingMethod) : Extending P (enclosingMethod e) :=
  (className _).bind fun _ => (optionMapM fun _ _ => nameAndType _ _).map

theorem recordComponent (c : RecordComponent) : Extending P (recordComponent c) := by
  unfold PoolM.recordComponent
  refine (constant _).bind fun _ => (constant _).bind fun _ => ?_
  refine (ifSome (fun _ => (constant _).bind fun _ => storeTotal) _).bind fun _ => ?_
  exact (annotationAttributes _).bind fun _ => (mapM fun v _ => verbatim v).map

theorem classAttributes (c : Class) : Extending P (classAttributes c) := by
  have hclasses (names : List BinaryName) : Extending P (names.mapM PoolM.className) :=
    mapM fun name _ => className name
  unfold PoolM.classAttributes
  refine (ifSome (fun _ => (constant _).bind fun _ => storeTotal) _).bind fun _ => ?_
  refine (ifSome (fun _ => (constant _).bind fun _ => storeTotal) _).bind fun _ => ?_
  refine (unlessEmpty (fun cs => (mapM fun k _ => innerClass k).bind fun _ =>
    storeTotal) _).bind fun _ => ?_
  refine (ifSome (fun k => (enclosingMethod k).bind fun _ => storeTotal) _).bind fun _ => ?_
  refine (ifSome (fun name => (className name).bind fun _ => storeTotal) _).bind fun _ => ?_
  refine (unlessEmpty (fun names => (hclasses names).bind fun _ => storeTotal) _).bind fun _ => ?_
  refine (unlessEmpty (fun names => (hclasses names).bind fun _ => storeTotal) _).bind fun _ => ?_
  refine (ifSome (fun cs => (mapM fun k _ => recordComponent k).bind fun _ =>
    storeTotal) _).bind fun _ => ?_
  exact (annotationAttributes _).bind fun _ => (mapM fun v _ => verbatim v).map

theorem bootstrapTable : Extending P bootstrapTable := by
  refine Extending.bind (x := (get : PoolM Pool)) (fun p => ⟨.refl p, fun _ h => nomatch h⟩) fun _ => ?_
  exact unlessEmpty (fun _ => storeTotal) _

end Extending

end PoolM

end ClassPatch
