import ClassPatch.Proofs.Class.Small
import ClassPatch.Proofs.Lift.Lengthened

/-!
A class whose only method consists of jumps. Its code refers to no constant, so it is lifted if its
jumps go to instructions, and it is written if the code can be laid out.
-/

namespace ClassPatch

theorem forall₂_replicate {α β : Type} {R : α → β → Prop} {a : α} {b : β} (h : R a b) (n : Nat) :
    List.Forall₂ R (List.replicate n a) (List.replicate n b) := by
  induction n with
  | zero => exact .nil
  | succ n ih => exact .cons h ih

/-- Jumps as the instructions that they are decoded to. -/
def decodedJumps (jumps : List (Nat × Branch Nat Nat)) : List (Nat × Decoded) :=
  jumps.map fun x => (x.1, .branch x.2)

/-- The code array consists of these jumps, which go to instructions of it or to its end. -/
structure JumpsOf (code : Bytes) (jumps : List (Nat × Branch Nat Nat)) : Prop where
  decoded : decodeCode code = .ok (decodedJumps jumps)
  targets : ∀ x ∈ jumps, ∀ t ∈ x.2.targets, t ∈ boundaryOffsets (decodedJumps jumps) code.length

def bareCode (code : Bytes) : Stored.Code := ⟨1, 1, code, [], []⟩

def jumpParts (code : Bytes) (jumps : List (Nat × Branch Nat Nat)) : CodeParts where
  codeLength := code.length
  decoded := decodedJumps jumps
  tables := {}
  targets := jumps.map (·.2.targets)
  handlerOffsets := []
  frames := []
  frameOffsets := []

namespace JumpsOf

variable {code : Bytes} {jumps : List (Nat × Branch Nat Nat)}

theorem marked_jumpParts : (jumpParts code jumps).marked = jumps.flatMap (·.2.targets) := by
  unfold CodeParts.marked
  rw [List.flatMap_def]
  exact (List.append_nil _).trans ((List.append_nil _).trans (List.append_nil _))

theorem labels_iff (h : JumpsOf code jumps) (o : Nat) (k : Label) :
    (jumpParts code jumps).labels[o]? = some k
      ↔ ((boundaryOffsets (decodedJumps jumps) code.length).filter
        (jumps.flatMap (·.2.targets)).contains)[k]? = some o := by
  have hmarked : (jumpParts code jumps).marked = _ := marked_jumpParts
  rw [← hmarked]
  exact Boundaries.labels_eq_some_iff (decodedFrom_of_decodeCode h.decoded).increasing

theorem exists_label (h : JumpsOf code jumps) {x : Nat × Branch Nat Nat} (hx : x ∈ jumps) {t : Nat}
    (ht : t ∈ x.2.targets) : ∃ k, labelAt (jumpParts code jumps).labels t = .ok k := by
  have hmarked : (jumps.flatMap (·.2.targets)).contains t = true :=
    List.contains_iff_mem.2 (List.mem_flatMap.2 ⟨x, hx, ht⟩)
  obtain ⟨k, hk⟩ := List.mem_iff_getElem?.1 (List.mem_filter.2 ⟨h.targets x hx t ht, hmarked⟩)
  exact ⟨k, labelAt_eq_ok.2 ((h.labels_iff t k).2 hk)⟩

theorem exists_codeLifted (h : JumpsOf code jumps) (r : Resolver) (context : MethodContext) :
    ∃ c, CodeLifted r context (bareCode code) (jumpParts code jumps) c
      ∧ ∀ e ∈ c.elements, ∀ i, e ≠ .instruction i := by
  have htargets : (decodedJumps jumps).mapM
      (fun d => d.2.checkedTargets (jumpParts code jumps).boundaries d.1)
        = .ok (jumps.map (·.2.targets)) := by
    unfold decodedJumps
    rw [mapM_eq_ok, List.forall₂_map_left_iff, List.forall₂_map_right_iff, List.forall₂_same]
    intro x hx
    change x.2.targets.mapM _ = _
    rw [mapM_eq_ok, List.forall₂_same]
    intro t ht
    exact Boundaries.check_eq_ok.2 ⟨Boundaries.contains_ofDecoded.2 (h.targets x hx t ht), rfl⟩
  -- each jump becomes a jump to labels
  have hbody : ∀ d ∈ decodedJumps jumps, ∃ es,
      r.bodyElement (jumpParts code jumps).labels d.1 d.2 = .ok es := by
    intro d hd
    obtain ⟨x, hx, rfl⟩ := List.mem_map.1 hd
    have hlabels : ∀ t ∈ x.2.targets, ∃ k, labelAt (jumpParts code jumps).labels t = .ok k :=
      fun t ht => h.exists_label hx ht
    obtain ⟨b, hb⟩ := Branch.exists_mapM_eq_ok
      (fun t ht => hlabels t (Branch.mem_targets_of_shortTarget? ht)) hlabels
    have hrel := (Branch.rel_of_mapM hb).imp (fun _ _ _ hk => labelAt_eq_ok.1 hk)
      fun _ _ _ hk => labelAt_eq_ok.1 hk
    exact ⟨_, bodyElement_of_elementLifted (.branch hrel) x.1⟩
  obtain ⟨body, hbody⟩ := exists_mapM hbody
  refine ⟨{
    maxStack := some 1
    maxLocals := some 1
    elements := body.flatten ++ labelElement (jumpParts code jumps).labels code.length
    exceptionHandlers := []
    lineNumbers := []
    localVariables := []
    localVariableTypes := []
    frames := []
    attributes := [] }, ?_, ?_⟩
  · exact ⟨rfl, h.decoded, rfl, htargets, rfl, rfl, rfl, ⟨body, hbody, rfl⟩, rfl, rfl, rfl, rfl, rfl,
      rfl, rfl, rfl⟩
  · intro e he i hi
    rcases List.mem_append.1 he with he | he
    · obtain ⟨es, hes, he⟩ := List.mem_flatten.1 he
      obtain ⟨d, hd, hlifted⟩ := exists_of_mem_mapM hbody hes
      obtain ⟨x, -, rfl⟩ := List.mem_map.1 hd
      obtain ⟨e', he', rfl⟩ := elementLifted_of_bodyElement hlifted
      rcases List.mem_append.1 he with he | he
      · obtain ⟨k, rfl⟩ := eq_label_of_mem he
        cases hi
      · cases List.mem_singleton.1 he
        subst hi
        cases he'
    · obtain ⟨k, rfl⟩ := eq_label_of_mem he
      cases hi

end JumpsOf

theorem PoolM.exists_run_layoutElements {es : List BodyElement}
    (h : ∀ e ∈ es, ∀ i, e ≠ .instruction i) :
    ∃ elements, ∀ p : Pool, (es.mapM layoutElement).run p = (.ok elements, p) := by
  induction es with
  | nil => exact ⟨[], fun _ => rfl⟩
  | cons e es ih =>
    rw [List.forall_mem_cons] at h
    obtain ⟨elements, htail⟩ := ih h.2
    obtain ⟨l, hhead⟩ : ∃ l, ∀ p : Pool, (layoutElement e).run p = (.ok l, p) := by
      cases e with
      | label k => exact ⟨.label k, fun _ => rfl⟩
      | instruction i => exact absurd rfl (h.1 i)
      | branch b => exact ⟨.branch b, fun _ => rfl⟩
    refine ⟨l :: elements, fun p => ?_⟩
    rw [List.mapM_cons]
    exact (run_bind_ok (hhead p) _).trans (run_bind_ok (htail p) _)

namespace Class

open PoolM (Finds)

/-- Constants of a class `A` with a method `m`, whose parent is `B`. -/
def methodConstants : ConstantTable := .ofList 1
  [.utf8 "A", .classRef 1, .utf8 "B", .classRef 3, .utf8 "m", .utf8 "()V", .utf8 "Code"]

def jumpMethod (c : Code) : Method := codeMethod ⟨"m", isName_m⟩ {} c

def jumpClass (c : Code) : Class :=
  smallClass .java8 methodConstants ⟨"B", isName_B⟩ [jumpMethod c] [] []

def storedMethod (code : Bytes) : Stored.Member .method := codeMember 5 6 7 (bareCode code) []

def jumpFile (code : Bytes) : SmallFile where
  constants := methodConstants
  methods := [storedMethod code]

variable {code : Bytes} {jumps : List (Nat × Branch Nat Nat)} {c : Code}

theorem fits_bareCode (h : code.length < 2 ^ 32) : (bareCode code).Fits :=
  ⟨h, Nat.zero_le _, nofun, Nat.zero_le _, nofun⟩

theorem fits_methodConstants : methodConstants.Fits where
  dense := ConstantTable.dense_append _
  next_le := by decide
  constants := by decide

theorem fits_jumpFile (h : code.length < 2 ^ 31) : (jumpFile code).stored.Fits := by
  have hlength : (bareCode code).write.length = code.length + 12 + 0 := Stored.Code.length_write rfl
  have hmember : (storedMethod code).Fits :=
    Stored.fits_codeMember (by omega) (Nat.zero_lt_succ _) nofun
  exact SmallFile.fits_stored (Nat.le_add_left _ _) (List.forall_mem_singleton.2 hmember)
    (Nat.zero_lt_succ _) nofun nofun

theorem storedParse_jumpFile (h : code.length < 2 ^ 31) :
    Stored.ClassFile.parse (jumpFile code).stored.write = .ok (jumpFile code).stored :=
  Stored.ClassFile.parse_write (fits_jumpFile h) fits_methodConstants nofun

def methodResolver : Resolver := ⟨methodConstants, []⟩

theorem utf8_methodResolver : methodResolver.utf8 7 = .ok "Code" :=
  eq_ok_of_toOption (by decide +kernel)

theorem code?_jumpFile (h : code.length < 2 ^ 32) :
    (jumpFile code).stored.code? (storedMethod code) = .ok (some (bareCode code)) :=
  SmallFile.code?_stored (fits_bareCode h) utf8_methodResolver

theorem ofClassFile_jumpFile {p : CodeParts} (hlength : code.length < 2 ^ 32)
    (h : CodeLifted methodResolver (codeContext ⟨"m", isName_m⟩) (bareCode code) p c) :
    ofClassFile (jumpFile code).stored = .ok (jumpClass c) := by
  have hname : methodResolver.unqualifiedName 5 = .ok ⟨"m", isName_m⟩ :=
    eq_ok_of_toOption (by decide +kernel)
  have hdescriptor : methodResolver.methodDescriptor 6 = .ok ⟨[], none⟩ :=
    eq_ok_of_toOption (by decide +kernel)
  have hclass : methodResolver.className 2 = .ok smallName := eq_ok_of_toOption (by decide +kernel)
  have hparent : methodResolver.className 4 = .ok ⟨"B", isName_B⟩ :=
    eq_ok_of_toOption (by decide +kernel)
  have hmethod : methodResolver.method smallName (storedMethod code) = .ok (jumpMethod c) :=
    Resolver.method_codeMember hname hdescriptor utf8_methodResolver (fits_bareCode hlength) rfl h
  have hparts : (jumpFile code).Lifted ⟨"B", isName_B⟩ [jumpMethod c] [] [] :=
    ⟨hclass, hparent, .cons hmethod .nil, nofun, .nil, fun h => absurd rfl h, Nat.zero_le _, nofun,
      rfl⟩
  exact hparts.ofClassFile

theorem toBytes_jumpClass {e : ClassError} (hfree : ∀ x ∈ c.elements, ∀ i, x ≠ .instruction i)
    (h : ∀ elements, List.Forall₂ ElementShaped c.elements elements → assemble elements = .error e) :
    (jumpClass c).toBytes = .error e := by
  let p : Pool := .ofTable methodConstants
  have hp : p.FindsAll methodConstants := Pool.findsAll_ofTable _
  have hname : Finds methodConstants (PoolM.className smallName) 2 :=
    .className (i := 1) (by decide) (by decide)
  have hparent : Finds methodConstants (PoolM.className ⟨"B", isName_B⟩) 4 :=
    .className (i := 3) (by decide) (by decide)
  have hsuper : Finds methodConstants ((jumpClass c).superName.mapM PoolM.className) (some 4) :=
    hparent.bind (.pure _)
  have hmethodName : Finds methodConstants (PoolM.utf8 "m") 5 := .constant (by decide)
  have hdescriptor : Finds methodConstants (PoolM.utf8 (⟨[], none⟩ : MethodDescriptor).render) 6 :=
    .constant (by decide)
  obtain ⟨elements, hrun⟩ := PoolM.exists_run_layoutElements hfree
  have herror := h elements (ElementShaped.forall₂_of_run (hrun p))
  have hcode (context : MethodContext) :
      (PoolM.code context c).run p = (.error e, p) := by
    unfold PoolM.code
    refine (run_bind_ok (hrun p) _).trans (run_bind_error ?_ _)
    change (assemble elements, p) = _
    rw [herror]
  have hmethod : (PoolM.method smallName (jumpMethod c)).run p = (.error e, p) := by
    unfold PoolM.method
    refine (run_bind_ok (hmethodName p hp) _).trans ?_
    refine (run_bind_ok (hdescriptor p hp) _).trans (run_bind_error ?_ _)
    exact run_bind_error (run_bind_error (run_bind_error (hcode _) _) _) _
  have hrestore : (PoolM.restoreBootstraps []).run p = (.ok (), p) := rfl
  have hinterfaces : Finds methodConstants ([].mapM PoolM.className) [] := .mapM .nil
  have hfields : Finds methodConstants ([].mapM PoolM.field) [] := .mapM .nil
  have hfile : (PoolM.classFile (jumpClass c)).run (jumpClass c).initialPool = (.error e, p) := by
    unfold PoolM.classFile
    refine (run_bind_ok hrestore _).trans ?_
    refine (run_bind_ok (hname p hp) _).trans ?_
    refine (run_bind_ok (hsuper p hp) _).trans ?_
    refine (run_bind_ok (hinterfaces p hp) _).trans ?_
    refine (run_bind_ok (hfields p hp) _).trans ?_
    exact run_bind_error (run_bind_error hmethod _) _
  unfold toBytes toClassFile
  rw [hfile]
  rfl

theorem exists_parsed_of_jumps {e : ClassError} (hjumps : JumpsOf code jumps)
    (hlength : code.length < 2 ^ 31)
    (h : ∀ labels elements, (∀ (o : Nat) (k : Label), labels[o]? = some k
        ↔ ((boundaryOffsets (decodedJumps jumps) code.length).filter
          (jumps.flatMap (·.2.targets)).contains)[k]? = some o) →
      BodyLaid (LaidAs labels) labels code.length (decodedJumps jumps) elements →
        assemble elements = .error e) :
    ∃ c, parse (jumpFile code).stored.write = .ok c ∧ c.toBytes = .error e := by
  obtain ⟨c, hlifted, hfree⟩ := hjumps.exists_codeLifted methodResolver
    (codeContext ⟨"m", isName_m⟩)
  refine ⟨jumpClass c, ?_, toBytes_jumpClass hfree fun elements helements => ?_⟩
  · unfold parse
    rw [storedParse_jumpFile hlength, ok_bind]
    exact ofClassFile_jumpFile (by omega) hlifted
  · exact h _ elements hjumps.labels_iff (hlifted.bodyLaid helements)

end Class

end ClassPatch
