import ClassPatch.Proofs.Rename.Class
import ClassPatch.Proofs.Rename.Moved

/-!
The names that a class mentions after one class is renamed: renaming reaches every position that
names are looked up for.
-/

namespace ClassPatch

section Constants

variable {source target : BinaryName}

theorem FieldRef.moved (f : FieldRef) :
    NamesMoved source target f.names (f.rename (.single source.text target)).names :=
  .cons (.apply f.owner) f.descriptor.moved

theorem MethodRef.moved (m : MethodRef) :
    NamesMoved source target m.names (m.rename (.single source.text target)).names :=
  List.rel_append m.owner.moved m.descriptor.moved

theorem MethodHandle.moved (h : MethodHandle) :
    NamesMoved source target h.names (h.rename (.single source.text target)).names := by
  obtain ⟨kind, member⟩ := h
  cases member with
  | field f => exact f.moved
  | method m => exact m.moved

theorem StaticConstant.moved (c : StaticConstant) :
    NamesMoved source target c.names (c.rename (.single source.text target)).names := by
  cases c with
  | classRef t => exact t.moved
  | methodType descriptor => exact descriptor.moved
  | methodHandle h => exact h.moved
  | string | integer | float | long | double => exact .nil

mutual

theorem LoadableConstant.moved : ∀ c : LoadableConstant,
    NamesMoved source target c.names (c.rename (.single source.text target)).names
  | .static c => c.moved
  | .dynamic handle arguments _ descriptor =>
    List.rel_append (List.rel_append handle.moved (moved_constantNames arguments)) descriptor.moved

theorem moved_constantNames : ∀ cs : List LoadableConstant,
    NamesMoved source target (constantNames cs)
      (constantNames (renameConstants (.single source.text target) cs))
  | [] => .nil
  | c :: cs => List.rel_append c.moved (moved_constantNames cs)

end

theorem BootstrapMethod.moved (b : BootstrapMethod) :
    NamesMoved source target b.names (b.rename (.single source.text target)).names :=
  List.rel_append b.handle.moved (moved_constantNames b.arguments)

theorem CallSite.moved (s : CallSite) :
    NamesMoved source target s.names (s.rename (.single source.text target)).names :=
  List.rel_append s.bootstrap.moved s.descriptor.moved

end Constants

section Annotations

variable {source target : BinaryName}

theorem LeafValue.moved (v : LeafValue) :
    NamesMoved source target v.names (v.rename (.single source.text target)).names := by
  cases v with
  | enum type name => exact DescriptorText.moved type
  | classInfo descriptor => exact DescriptorText.moved descriptor
  | integer | long | float | double | string => exact .nil

namespace ElementValue

mutual

theorem moved : ∀ v : ElementValue,
    NamesMoved source target v.names (v.rename (.single source.text target)).names
  | .leaf v => v.moved
  | .nested type elements =>
    List.rel_append (DescriptorText.moved type) (moved_elements elements)
  | .array values => moved_values values

theorem moved_values : ∀ vs : List ElementValue,
    NamesMoved source target (valueNames vs)
      (valueNames (renameValues (.single source.text target) vs))
  | [] => .nil
  | v :: vs => List.rel_append v.moved (moved_values vs)

theorem moved_elements : ∀ elements : List (String × ElementValue),
    NamesMoved source target (elementNames elements)
      (elementNames (renameElements (.single source.text target) elements))
  | [] => .nil
  | (_, v) :: elements => List.rel_append v.moved (moved_elements elements)

end

end ElementValue

theorem Annotation.moved (a : Annotation) :
    NamesMoved source target a.names (a.rename (.single source.text target)).names :=
  List.rel_append (DescriptorText.moved a.type) (ElementValue.moved_elements a.elements)

theorem Annotations.moved (as : Annotations) :
    NamesMoved source target as.names (as.rename (.single source.text target)).names := by
  have hall : (as.rename (.single source.text target)).all
      = as.all.map (·.rename (.single source.text target)) := List.map_append.symm
  unfold names
  rw [hall]
  exact NamesMoved.flatMap fun a _ => a.moved

theorem ParameterAnnotations.moved (as : ParameterAnnotations) :
    NamesMoved source target as.names (as.rename (.single source.text target)).names := by
  have hgetD (o : Option (List (List Annotation))) (f : Annotation → Annotation) :
      (o.map (·.map (·.map f))).getD [] = (o.getD []).map (·.map f) := by
    cases o <;> rfl
  unfold names rename
  dsimp only
  rw [hgetD, hgetD, ← List.map_append, ← List.map_flatten]
  exact NamesMoved.flatMap fun a _ => a.moved

end Annotations

section Code

variable {source target : BinaryName}

theorem SymbolicInstruction.moved (i : SymbolicInstruction) :
    NamesMoved source target (names i) (names (rename (.single source.text target) i)) := by
  cases i with
  | ldc c => exact c.moved
  | ldc2 c => exact c.moved
  | onField access f => exact f.moved
  | invoke kind m => exact m.moved
  | invokeDynamic site => exact site.moved
  | onClass op t => exact t.moved
  | multiNewArray t dimensions => exact t.moved
  | plain | bipush | sipush | load | store | iinc | newPrimitiveArray => exact .nil

theorem BodyElement.moved (e : BodyElement) :
    NamesMoved source target (names e) (names (rename (.single source.text target) e)) := by
  cases e with
  | instruction i => exact SymbolicInstruction.moved i
  | label | branch => exact .nil

theorem BodyVerificationType.moved (t : BodyVerificationType) :
    NamesMoved source target (names t) (names (rename (.single source.text target) t)) := by
  cases t with
  | object t => exact t.moved
  | _ => exact .nil

theorem BodyFrame.moved (f : BodyFrame) :
    NamesMoved source target (names f) (names (rename (.single source.text target) f)) := by
  unfold names rename
  rw [← List.map_append]
  exact NamesMoved.flatMap fun t _ => BodyVerificationType.moved t

theorem ExceptionHandler.moved (h : ExceptionHandler) :
    NamesMoved source target h.names (h.rename (.single source.text target)).names :=
  BinaryName.moved_option h.catchType

/-- Every signature of a local variable is well formed. -/
def Code.SignaturesWellFormed (c : Code) : Prop :=
  ∀ v ∈ c.localVariableTypes, (SignatureText.scan v.descriptor).1.isSome = true

theorem Code.moved (htarget : IsName SignatureReader.endsName target.text)
    (hsource : '$' ∉ source.text.toList) {c : Code} (hc : c.SignaturesWellFormed) :
    NamesMoved source target c.names (c.rename (.single source.text target)).names := by
  refine List.rel_append (List.rel_append (List.rel_append (List.rel_append ?_ ?_) ?_) ?_) ?_
  · exact NamesMoved.flatMap fun e _ => BodyElement.moved e
  · exact NamesMoved.flatMap fun h _ => h.moved
  · exact NamesMoved.flatMap fun v _ => DescriptorText.moved v.descriptor
  · exact NamesMoved.flatMap fun v hv => SignatureText.moved htarget hsource (hc v hv)
  · exact NamesMoved.flatMap fun x _ => BodyFrame.moved x.2

end Code

section Class

variable {source target : BinaryName}

/-- A signature, if there is one, is well formed. -/
def SignatureWellFormed (signature : Option SignatureText) : Prop :=
  ∀ text ∈ signature, text.scan.1.isSome = true

/-- Every signature of the class and its parts is well formed. -/
structure Class.SignaturesWellFormed (c : Class) : Prop where
  signature : SignatureWellFormed c.signature
  fields : ∀ f ∈ c.fields, SignatureWellFormed f.signature
  methods : ∀ m ∈ c.methods, SignatureWellFormed m.signature
  code : ∀ m ∈ c.methods, ∀ code ∈ m.code, code.SignaturesWellFormed
  recordComponents : ∀ cs ∈ c.recordComponents, ∀ k ∈ cs, SignatureWellFormed k.signature

theorem moved_signature (htarget : IsName SignatureReader.endsName target.text)
    (hsource : '$' ∉ source.text.toList) {signature : Option SignatureText}
    (h : SignatureWellFormed signature) :
    NamesMoved source target (signature.elim [] SignatureText.names)
      ((signature.map (SignatureText.rename (.single source.text target))).elim []
        SignatureText.names) :=
  NamesMoved.elim fun text htext => SignatureText.moved htarget hsource (h text htext)

theorem Field.moved (htarget : IsName SignatureReader.endsName target.text)
    (hsource : '$' ∉ source.text.toList) {f : Field} (hf : SignatureWellFormed f.signature) :
    NamesMoved source target f.names (f.rename (.single source.text target)).names := by
  refine List.rel_append (List.rel_append (List.rel_append ?_ ?_) ?_) ?_
  · exact f.descriptor.moved
  · exact moved_signature htarget hsource hf
  · exact NamesMoved.elim fun c _ => c.moved
  · exact f.annotations.moved

theorem Method.moved (htarget : IsName SignatureReader.endsName target.text)
    (hsource : '$' ∉ source.text.toList) {m : Method} (hm : SignatureWellFormed m.signature)
    (hcode : ∀ code ∈ m.code, code.SignaturesWellFormed) :
    NamesMoved source target m.names (m.rename (.single source.text target)).names := by
  refine List.rel_append (List.rel_append (List.rel_append (List.rel_append
    (List.rel_append (List.rel_append ?_ ?_) ?_) ?_) ?_) ?_) ?_
  · exact m.descriptor.moved
  · exact moved_signature htarget hsource hm
  · exact BinaryName.moved m.exceptions
  · exact m.annotations.moved
  · exact m.parameterAnnotations.moved
  · exact NamesMoved.elim fun v _ => v.moved
  · exact NamesMoved.elim fun code h => Code.moved htarget hsource (hcode code h)

theorem InnerClass.moved (c : InnerClass) :
    NamesMoved source target c.names (c.rename (.single source.text target)).names :=
  .cons (.apply c.innerClass) (BinaryName.moved_option c.outerClass)

theorem EnclosingMethod.moved (e : EnclosingMethod) :
    NamesMoved source target e.names (e.rename (.single source.text target)).names := by
  refine .cons (.apply e.enclosingClass) ?_
  exact NamesMoved.elim fun x _ => x.2.moved

theorem RecordComponent.moved (htarget : IsName SignatureReader.endsName target.text)
    (hsource : '$' ∉ source.text.toList) {c : RecordComponent}
    (hc : SignatureWellFormed c.signature) :
    NamesMoved source target c.names (c.rename (.single source.text target)).names := by
  refine List.rel_append (List.rel_append ?_ ?_) ?_
  · exact c.descriptor.moved
  · exact moved_signature htarget hsource hc
  · exact c.annotations.moved

/-- Every name that the class mentions is moved, and no other is mentioned afterwards. -/
theorem Class.moved (htarget : IsName SignatureReader.endsName target.text)
    (hsource : '$' ∉ source.text.toList) {c : Class} (hc : c.SignaturesWellFormed) :
    NamesMoved source target c.names (c.rename (.single source.text target)).names := by
  have hcomponents : NamesMoved source target
      ((c.recordComponents.getD []).flatMap RecordComponent.names)
      (((c.recordComponents.map (·.map (·.rename (.single source.text target)))).getD []).flatMap
        RecordComponent.names) := by
    cases hrecord : c.recordComponents with
    | none => exact .nil
    | some cs =>
      exact NamesMoved.flatMap fun k hk =>
        k.moved htarget hsource (hc.recordComponents cs hrecord k hk)
  -- bootstrap methods are renamed only where verbatim attributes may refer to them
  have hbootstraps : NamesMoved source target
      (if c.hasVerbatimAttributes then c.bootstrapMethods.flatMap BootstrapMethod.names else [])
      (if c.hasVerbatimAttributes then
        (c.rename (.single source.text target)).bootstrapMethods.flatMap BootstrapMethod.names
      else []) := by
    split
    next h =>
      rw [(rename_of_hasVerbatimAttributes _ h).2]
      exact NamesMoved.flatMap fun b _ => b.moved
    next => exact .nil
  unfold names
  rw [hasVerbatimAttributes_rename]
  refine List.rel_append (List.rel_append (List.rel_append (List.rel_append (List.rel_append
    (List.rel_append (List.rel_append (List.rel_append (List.rel_append (List.rel_append
      (List.rel_append (List.rel_append (.cons (.apply c.name) ?_) ?_) ?_) ?_) ?_) ?_) ?_) ?_) ?_)
      ?_) hcomponents) ?_) hbootstraps
  · exact BinaryName.moved_option c.superName
  · exact BinaryName.moved c.interfaces
  · exact NamesMoved.flatMap fun f hf => f.moved htarget hsource (hc.fields f hf)
  · exact NamesMoved.flatMap fun m hm => m.moved htarget hsource (hc.methods m hm) (hc.code m hm)
  · exact moved_signature htarget hsource hc.signature
  · exact NamesMoved.flatMap fun k _ => k.moved
  · exact NamesMoved.elim fun e _ => e.moved
  · exact BinaryName.moved_option c.nestHost
  · exact BinaryName.moved c.nestMembers
  · exact BinaryName.moved c.permittedSubclasses
  · exact c.annotations.moved

theorem NamesMoved.source_not_mem (hne : source ≠ target) (hsource : '$' ∉ source.text.toList)
    {names names' : List String} (h : NamesMoved source target names names') :
    source.text ∉ names' := by
  intro hmem
  obtain ⟨name, -, hmoved⟩ := exists_of_mem_right h hmem
  exact hmoved.ne_source hne hsource rfl

theorem NamesMoved.mem_iff {kept : String} (hsource : kept ≠ source.text)
    (htarget : kept ≠ target.text)
    (hsourceMember : ∀ inner, kept ≠ innerClassName source.text inner)
    (htargetMember : ∀ inner, kept ≠ innerClassName target.text inner)
    {names names' : List String} (h : NamesMoved source target names names') :
    kept ∈ names' ↔ kept ∈ names := by
  induction h with
  | nil => exact Iff.rfl
  | cons hhead _ ih =>
    rw [List.mem_cons, List.mem_cons, ih,
      hhead.eq_iff hsource htarget hsourceMember htargetMember]

theorem isPrefix_innerClassName (outer inner : String) :
    (outer ++ "$").toList <+: (innerClassName outer inner).toList := by
  have htext : (innerClassName outer inner).toList = (outer ++ "$").toList ++ inner.toList :=
    String.toList_append
  rw [htext]
  exact List.prefix_append _ _

/--
Renaming one class reaches every position: the class is not mentioned afterwards, and all other
names are mentioned as before, but for those of the new class and of members.
-/
theorem Class.mentions_rename_single {c : Class} (hc : c.SignaturesWellFormed)
    (hne : source ≠ target) (hsource : '$' ∉ source.text.toList)
    (htarget : ∀ c ∈ target.text.toList, c ≠ '<' ∧ c ≠ '>' ∧ c ≠ ':') :
    (c.rename (.single source.text target)).mentions source.text = false
      ∧ ∀ name : String, name ≠ source.text → name ≠ target.text →
        ¬ (source.text ++ "$").toList <+: name.toList →
        ¬ (target.text ++ "$").toList <+: name.toList →
        (c.rename (.single source.text target)).mentions name = c.mentions name := by
  have hmoved := c.moved (BinaryName.MarkFree.isName htarget) hsource hc
  refine ⟨?_, ?_⟩
  · unfold mentions
    rw [List.contains_eq_mem, decide_eq_false_iff_not]
    exact hmoved.source_not_mem hne hsource
  · intro name hname hname' hmember hmember'
    unfold mentions
    rw [List.contains_eq_mem, List.contains_eq_mem, decide_eq_decide]
    refine hmoved.mem_iff hname hname' ?_ ?_
    · rintro inner rfl
      exact hmember (isPrefix_innerClassName _ inner)
    · rintro inner rfl
      exact hmember' (isPrefix_innerClassName _ inner)

/-- A list of `P` whose field has a member of `P` for its type. -/
def listOfP : Class where
  version := .java8
  accessFlags := .truncate _ 0x20
  name := ⟨"ListOfP", by decide +kernel⟩
  superName := some ⟨"java/util/List", by decide +kernel⟩
  signature := some "Ljava/util/List<LP;>;"
  fields := [{
    accessFlags := .truncate _ 0
    name := ⟨"member", by decide +kernel⟩
    descriptor := .ref (.object ⟨"P$M", by decide +kernel⟩)
    signature := some "LP<TX;>.M;" }]

theorem signaturesWellFormed_listOfP : listOfP.SignaturesWellFormed := by
  have hscan : ∀ text ∈ ["Ljava/util/List<LP;>;", "LP<TX;>.M;"],
      (SignatureText.scan text).1.isSome = true := by decide +kernel
  constructor
  case signature =>
    intro text htext
    exact hscan text (Option.mem_some.1 htext ▸ List.mem_cons_self)
  case fields =>
    intro f hf text htext
    rw [List.mem_singleton.1 hf] at htext
    exact hscan text (Option.mem_some.1 htext ▸ List.mem_cons_of_mem _ List.mem_cons_self)
  case methods => exact fun m hm => absurd hm List.not_mem_nil
  case code => exact fun m hm => absurd hm List.not_mem_nil
  case recordComponents => exact fun cs hcs => absurd hcs (Option.not_mem_none cs)

theorem Class.mentions_rename_listOfP :
    let source : BinaryName := ⟨"P", by decide +kernel⟩
    let target : BinaryName := ⟨"Q", by decide +kernel⟩
    listOfP.SignaturesWellFormed ∧ source ≠ target ∧ '$' ∉ source.text.toList
      ∧ (∀ c ∈ target.text.toList, c ≠ '<' ∧ c ≠ '>' ∧ c ≠ ':')
      ∧ (listOfP.rename (.single source.text target)).mentions source.text = false
      ∧ (listOfP.rename (.single source.text target)).mentions "java/util/List"
        = listOfP.mentions "java/util/List" := by
  intro source target
  have hne : source ≠ target := by decide +kernel
  have hsource : '$' ∉ source.text.toList := by decide +kernel
  have htext : target.text.toList = ['Q'] := by decide +kernel
  have htarget : ∀ c ∈ target.text.toList, c ≠ '<' ∧ c ≠ '>' ∧ c ≠ ':' := by
    rw [htext, List.forall_mem_singleton]
    decide
  obtain ⟨hgone, hothers⟩ :=
    Class.mentions_rename_single signaturesWellFormed_listOfP hne hsource htarget
  exact ⟨signaturesWellFormed_listOfP, hne, hsource, htarget, hgone,
    hothers "java/util/List" (by decide +kernel) (by decide +kernel) (by decide +kernel)
      (by decide +kernel)⟩

end Class

end ClassPatch
