import ClassPatch.Proofs.Lift.MethodCode

/-!
Code that goes nowhere, and methods that have nothing but code.
-/

namespace ClassPatch

/-- An instruction that goes nowhere, and what it is lifted to. -/
inductive LiftedStraight (r : Resolver) : Decoded → BodyElement → Prop where
  | instruction {x : StoredInstruction} {i : SymbolicInstruction} (h : r.instruction x = .ok i) :
    LiftedStraight r (.instruction x) (.instruction i)
  | voidReturn : LiftedStraight r (.branch .voidReturn) (.branch .voidReturn)

theorem exists_codeLifted_of_straight {r : Resolver} (context : MethodContext) {x : Stored.Code}
    {decoded : List (Nat × Decoded)} {elements : List BodyElement}
    {attributes : List VerbatimAttribute} (hdecoded : decodeCode x.code = .ok decoded)
    (helements : List.Forall₂ (fun d e => LiftedStraight r d.2 e) decoded elements)
    (hhandlers : x.exceptionTable = []) (hattributes : List.Forall₂ r.Carries attributes x.attributes)
    (hnames : ∀ v ∈ attributes, v.name ∉ Resolver.codeAttributes) :
    ∃ p, CodeLifted r context x p
      { elements, maxStack := some x.maxStack, maxLocals := some x.maxLocals, attributes } := by
  let p : CodeParts := {
    codeLength := x.code.length
    decoded
    tables := { attributes }
    targets := decoded.map fun _ => []
    handlerOffsets := []
    frames := []
    frameOffsets := [] }
  have hmarked : p.marked = [] := by
    have htargets : (decoded.map fun _ => ([] : List Nat)).flatten = [] := by simp
    unfold CodeParts.marked
    exact (List.append_nil _).trans ((List.append_nil _).trans ((List.append_nil _).trans htargets))
  have hlabels (o : Nat) : labelElement p.labels o = [] := by
    unfold labelElement
    cases hlabel : p.labels[o]? with
    | none => rfl
    | some k =>
      have hfound :=
        (Boundaries.labels_eq_some_iff (decodedFrom_of_decodeCode hdecoded).increasing).1 hlabel
      have hnone : p.boundaries.offsets.filter ([] : List Nat).contains = [] :=
        List.filter_eq_nil_iff.2 fun _ _ => Bool.false_ne_true
      rw [hmarked, hnone] at hfound
      cases hfound
  have htargets : decoded.mapM (fun d => d.2.checkedTargets p.boundaries d.1) = .ok p.targets := by
    rw [mapM_eq_ok, List.forall₂_map_right_iff, List.forall₂_same]
    rintro ⟨o, d⟩ hd
    obtain ⟨e, -, he⟩ := exists_of_mem_left helements hd
    cases he <;> rfl
  have hbody : decoded.mapM (fun d => r.bodyElement p.labels d.1 d.2)
      = .ok (elements.map fun e => [e]) := by
    rw [mapM_eq_ok, List.forall₂_map_right_iff]
    refine helements.imp fun ⟨o, d⟩ e he => ?_
    have helement : ElementLifted r p.labels d e := by
      cases he with
      | instruction h => exact .instruction h
      | voidReturn => exact .branch .voidReturn
    rw [bodyElement_of_elementLifted helement, hlabels]
    rfl
  refine ⟨p, rfl, hdecoded, add_verbatims hattributes hnames, htargets, ?_, rfl, rfl,
    ⟨_, hbody, ?_⟩, ?_, rfl, rfl, rfl, rfl, rfl, rfl, rfl⟩
  · rw [hhandlers]
    rfl
  · rw [hlabels, List.append_nil]
    exact (List.flatMap_singleton' elements).symm
  · rw [hhandlers]
    rfl

theorem Resolver.method_of_parts {r : Resolver} {owner : BinaryName}
    (stored : Stored.Member .method) {name : UnqualifiedName} {descriptor : MethodDescriptor}
    {m : Method} {x : Stored.Code} {p : CodeParts} {c : Code}
    (hname : r.unqualifiedName stored.nameIndex = .ok name)
    (hdescriptor : r.methodDescriptor stored.descriptorIndex = .ok descriptor)
    (hattributes : stored.attributes.foldlM r.addToMethod
      ({ accessFlags := stored.accessFlags, name, descriptor }, none) = .ok (m, some x))
    (h : CodeLifted r (m.context owner) x p c) :
    r.method owner stored = .ok { m with code := some c } := by
  unfold method
  refine (bind_of_eq_ok hname _).trans ?_
  refine (bind_of_eq_ok hdescriptor _).trans ?_
  refine (bind_of_eq_ok hattributes _).trans ?_
  exact (bind_of_eq_ok (code_of_codeLifted h) _).trans rfl

end ClassPatch
