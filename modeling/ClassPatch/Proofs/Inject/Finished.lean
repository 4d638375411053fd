import ClassPatch.Proofs.Inject.Commute
import ClassPatch.Proofs.Inject.Untouched
import ClassPatch.Proofs.Rename.Reread

/-!
Methods that were forwarded are finished. They stay so when the placeholder is renamed, and when they
are read back from the new bytes, because their code has no labels.
-/

namespace ClassPatch

section Bodies

/-- What the bodies of forwarded methods are made of. Nothing in them is or refers to a label. -/
inductive BodyElement.Forwards : BodyElement → Prop where
  | load (kind : ValueKind) (slot : UInt16) : Forwards (.instruction (.load kind slot))
  | invoke (m : MethodRef) : Forwards (.instruction (.invoke .static m))
  | valueReturn (kind : ValueKind) : Forwards (.branch (.valueReturn kind))
  | voidReturn : Forwards (.branch .voidReturn)

namespace BodyElement.Forwards

variable {e e' : BodyElement}

theorem takesBytes_eq (h : e.Forwards) : e.takesBytes = true := by
  cases h <;> rfl

theorem references_eq (h : e.Forwards) : e.references = [] := by
  cases h <;> rfl

theorem relabel_eq (h : e.Forwards) (f : Label → Label) : e.relabel f = e := by
  cases h <;> rfl

theorem eq_of_rewritten (h : e.Forwards) (he : e.Rewritten e') : e' = e := by
  cases h with
  | load => cases he; rfl
  | invoke => cases he; rfl
  | valueReturn kind =>
    cases he with
    | branch hb => cases hb; rfl
  | voidReturn =>
    cases he with
    | branch hb => cases hb; rfl

theorem wellFormed (h : e.Forwards) (admits : BootstrapMethod → Prop) :
    BodyElement.WellFormed admits e := by
  cases h <;> trivial

end BodyElement.Forwards

theorem forwards_loadParameters (slot : UInt16) (ts : List FieldType) :
    ∀ e ∈ loadParameters slot ts, e.Forwards := by
  induction ts generalizing slot with
  | nil => exact fun _ h => absurd h List.not_mem_nil
  | cons t ts ih => exact List.forall_mem_cons.2 ⟨.load _ _, ih _⟩

theorem forwards_forwardingBody (target : BinaryName) (m : Method) :
    ∀ e ∈ forwardingBody target m, e.Forwards := by
  have hreturn : BodyElement.Forwards (.branch (returnOf m.descriptor.returnType)) := by
    cases m.descriptor.returnType with
    | none => exact .voidReturn
    | some t => exact .valueReturn _
  refine List.forall_mem_append.2 ⟨forwards_loadParameters _ _, ?_⟩
  exact List.forall_mem_cons.2 ⟨.invoke _, List.forall_mem_singleton.2 hreturn⟩

namespace Code

variable {c d : Code} {context : MethodContext}

theorem references_eq_nil (hplaced : c.Placed) (hc : ∀ e ∈ c.elements, e.takesBytes = true) :
    c.references = [] := by
  refine List.eq_nil_iff_forall_not_mem.2 fun k hk => ?_
  have hcount := hplaced.once k hk
  have hlabel : .label k ∈ c.elements := List.count_pos_iff.1 (by omega)
  cases hc _ hlabel

theorem relabelFrom_eq (hlandmarks : c.landmarks = []) {es : List BodyElement}
    (hes : ∀ e ∈ es, e.Forwards) (place : Nat) : c.relabelFrom place es = es := by
  have hlabel (place : Nat) : c.labelFor place = [] := by
    unfold labelFor
    rw [hlandmarks]
    rfl
  induction es generalizing place with
  | nil => exact hlabel place
  | cons e es ih =>
    rw [List.forall_mem_cons] at hes
    have hstep : c.labelFor place ++ e.relabel c.renumber :: c.relabelFrom (place + 1) es
        = e :: es := by
      rw [hlabel, hes.1.relabel_eq, ih hes.2]
      rfl
    cases e with
    | label k => cases hes.1
    | instruction i => exact hstep
    | branch b => exact hstep

theorem elements_of_rewritten (hplaced : c.Placed) (hc : ∀ e ∈ c.elements, e.Forwards)
    (h : (c.canonical context).Rewritten d) : d.elements = c.elements := by
  have hreferences := references_eq_nil hplaced fun e he => (hc e he).takesBytes_eq
  have hlandmarks : c.landmarks = [] := by
    unfold landmarks
    rw [hreferences]
    exact List.filter_eq_nil_iff.2 fun _ _ => by simp
  obtain ⟨elements, hrewritten, rfl⟩ := h
  have hcanonical : (c.canonical context).elements = c.elements := relabelFrom_eq hlandmarks hc 0
  rw [hcanonical] at hrewritten
  have hsame : List.Forall₂ (· = ·) elements c.elements := by
    refine (forall₂_imp_of_mem hrewritten fun e he e' _ h => ?_).flip
    exact (hc e he).eq_of_rewritten h
  rwa [List.forall₂_eq_eq_eq] at hsame

theorem rereadable_of_forwards {es : List BodyElement} (hes : ∀ e ∈ es, e.Forwards)
    (maxLocals : Option UInt16) : ({ elements := es, maxLocals } : Code).Rereadable context := by
  have hreferences : es.flatMap (·.references) = [] :=
    List.flatMap_eq_nil_iff.2 fun e he => (hes e he).references_eq
  constructor
  case placed =>
    constructor
    case once =>
      intro k hk
      change k ∈ es.flatMap (·.references) ++ [] ++ [] ++ [] at hk
      rw [hreferences] at hk
      cases hk
    case targets =>
      intro e he k hk
      rw [(hes e he).references_eq] at hk
      cases hk
    case frames => exact fun _ h => absurd h List.not_mem_nil
  case jumps =>
    intro b hb
    cases hes _ hb <;> trivial
  case tables => exact ⟨Nat.zero_le _, Nat.zero_le _, Nat.zero_le _⟩
  case frames =>
    refine ⟨Nat.zero_le _, ?_⟩
    unfold sortedFrames
    rw [List.mergeSort_nil]
    exact True.intro
  case attributes => exact fun _ h => absurd h List.not_mem_nil

end Code

end Bodies

namespace Method

variable {found : Except InjectionError BinaryName} {m m' n : Method} {target owner : BinaryName}

section Handled

/-- What becomes of a method when the methods of its class are forwarded. -/
inductive Handled (found : Except InjectionError BinaryName) (m : Method) : Method → Prop where
  | same (h : m.isStatic = true → m.isExpectPlatform = false) : Handled found m m
  | forwarded {target : BinaryName} (h : found = .ok target) : Handled found m (m.forward target)

theorem handled_of_run {ds ds' : List Diagnostic}
    (h : (m.expectPlatform owner found).run ds = (.ok m', ds')) : m.Handled found m' := by
  unfold expectPlatform at h
  cases he : m.isExpectPlatform with
  | false =>
    rw [he] at h
    cases h
    exact .same fun _ => he
  | true =>
    cases hs : m.isStatic with
    | false =>
      rw [he, hs] at h
      cases h
      refine .same fun hstatic => ?_
      rw [hs] at hstatic
      cases hstatic
    | true =>
      rw [he, hs] at h
      cases found with
      | error e => cases h
      | ok target =>
        cases h
        exact .forwarded rfl

theorem forwardedCode_cases (m : Method) (target : BinaryName) :
    (m.forwardedCode target ∈ m.code
        ∧ (m.forwardedCode target).elements = forwardingBody target m)
      ∨ ∃ maxLocals, m.forwardedCode target
        = { elements := forwardingBody target m, maxLocals } := by
  unfold forwardedCode
  cases hcode : m.code with
  | none => exact .inr ⟨none, rfl⟩
  | some c =>
    dsimp only
    split
    next hbody => exact .inl ⟨rfl, hbody⟩
    next => exact .inr ⟨c.maxLocals, rfl⟩

theorem elements_forwardedCode (m : Method) (target : BinaryName) :
    (m.forwardedCode target).elements = forwardingBody target m := by
  rcases m.forwardedCode_cases target with ⟨-, hbody⟩ | ⟨maxLocals, hcode⟩
  · exact hbody
  · rw [hcode]

theorem contains_markedAnnotations (m : Method) :
    m.markedAnnotations.contains transformedMarker.type = true := by
  unfold markedAnnotations
  split
  next h => exact h
  next =>
    unfold Annotations.contains Annotations.all
    simp only [List.any_append, List.any_cons, BEq.rfl, Bool.true_or, Bool.or_true]

/-- What is forwarded once is not forwarded again. -/
theorem Handled.finished (h : m.Handled found m') : m'.Finished found := by
  cases h with
  | same h => exact finished_of_ordinary h
  | @forwarded target h =>
    exact fun _ _ => ⟨target, h, ⟨_, rfl, m.elements_forwardedCode target⟩,
      m.contains_markedAnnotations⟩

end Handled

section Kept

variable {added : BinaryName}

theorem Forwarded.rename (hadded : added.text.toList.getLast? = some 's')
    (htarget : target.text.toList.getLast? = some 'l') (h : m.Forwarded target) :
    (m.rename (.single placeholderClass added)).Forwarded target where
  code := by
    obtain ⟨c, hc, hbody⟩ := h.code
    refine ⟨c.rename (.single placeholderClass added), Option.mem_map.2 ⟨c, hc, rfl⟩, ?_⟩
    rw [forwardingBody_rename (apply_target htarget), ← hbody]
    rfl
  marked := (Annotations.contains_marker_rename hadded m.annotations).trans h.marked

theorem Finished.rename (hadded : added.text.toList.getLast? = some 's')
    (hfound : ∀ target, found = .ok target → target.text.toList.getLast? = some 'l')
    (h : m.Finished found) : (m.rename (.single placeholderClass added)).Finished found := by
  intro hannotated hstatic
  rw [m.isExpectPlatform_rename hadded] at hannotated
  obtain ⟨target, hok, hforwarded⟩ := h hannotated hstatic
  exact ⟨target, hok, hforwarded.rename hadded (hfound target hok)⟩

theorem Reread.forwarded (hreread : m.Reread owner n) (hplaced : ∀ c ∈ m.code, c.Placed)
    (h : m.Forwarded target) : n.Forwarded target := by
  obtain ⟨c, hc, hbody⟩ := h.code
  have hsame : forwardingBody target n = forwardingBody target m := by
    rw [hreread.others]
    rfl
  have hannotations : n.annotations = m.annotations := by rw [hreread.others]
  have hrel := hreread.code
  rw [Option.mem_def.1 hc] at hrel
  generalize hn : n.code = code at hrel
  cases hrel with
  | some hrewritten =>
    have helements := Code.elements_of_rewritten (hplaced c hc)
      (hbody ▸ forwards_forwardingBody target m) hrewritten
    refine ⟨⟨_, hn, ?_⟩, ?_⟩
    · rw [helements, hbody, hsame]
    · rw [hannotations]
      exact h.marked

theorem Reread.finished (hreread : m.Reread owner n) (hplaced : ∀ c ∈ m.code, c.Placed)
    (h : m.Finished found) : n.Finished found := by
  have hannotations : n.isExpectPlatform = m.isExpectPlatform := by
    rw [hreread.others]
    rfl
  have hflags : n.isStatic = m.isStatic := by
    rw [hreread.others]
    rfl
  intro hannotated hstatic
  obtain ⟨target, hok, hforwarded⟩ := h (hannotations ▸ hannotated) (hflags ▸ hstatic)
  exact ⟨target, hok, hreread.forwarded hplaced hforwarded⟩

end Kept

end Method

section Readable

variable {file : Stored.ClassFile} {r : Resolver} {c : Class} {m m' : Method}
  {found : Except InjectionError BinaryName}

theorem Annotation.fits_transformedMarker : transformedMarker.Fits :=
  ⟨Nat.zero_le _, fun _ h => absurd h List.not_mem_nil⟩

theorem Method.fit_markedAnnotations (h : m.annotations.Fit)
    (hcount : m.markedAnnotations.invisible.length ≤ 0xFFFF) : m.markedAnnotations.Fit := by
  unfold markedAnnotations at hcount ⊢
  split at hcount
  next hmarked =>
    rw [if_pos hmarked]
    exact h
  next hmarked =>
    rw [if_neg hmarked]
    refine ⟨h.visible, hcount, List.forall_mem_append.2 ⟨h.invisible.2, ?_⟩⟩
    exact List.forall_mem_singleton.2 Annotation.fits_transformedMarker

/-- A forwarded method can be read back too, even if the code that it had could not. -/
theorem Method.Handled.rereadable (h : m.Handled found m') (hclass : ClassLifted file r c)
    (hfile : file.Fits) (hm : m ∈ c.methods) (hfit : m'.TablesFit)
    (hcount : m'.annotations.invisible.length ≤ 0xFFFF) : m'.Rereadable c.name r.Admits := by
  cases h with
  | same => exact hclass.method_rereadable hfile hm hfit
  | @forwarded target =>
    have hstorable := (hclass.methods_storable hfile m hm).1
    have hcode : (m.forwardedCode target).Rereadable (m.context c.name) := by
      rcases m.forwardedCode_cases target with ⟨hmem, -⟩ | ⟨maxLocals, heq⟩
      · exact hclass.code_rereadable hfile hm hmem (hfit _ rfl)
      · rw [heq]
        exact Code.rereadable_of_forwards (forwards_forwardingBody target m) maxLocals
    constructor
    case storable =>
      exact ⟨hstorable.exceptions, Method.fit_markedAnnotations hstorable.annotations hcount,
        hstorable.parameterAnnotations, hstorable.annotationDefault, hstorable.names⟩
    case constants =>
      intro code hforwarded e he
      obtain rfl := Option.mem_some.1 hforwarded
      rw [elements_forwardedCode] at he
      exact (forwards_forwardingBody target m e he).wellFormed _
    case code =>
      intro code hforwarded
      obtain rfl := Option.mem_some.1 hforwarded
      exact hcode

end Readable

end ClassPatch
