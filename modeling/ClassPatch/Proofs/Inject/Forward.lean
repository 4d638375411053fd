import ClassPatch.Proofs.Inject.Indices
import ClassPatch.Proofs.Rename.Compose
import ClassPatch.Proofs.Rename.Mentions

/-!
Forwarding methods of a class in which the placeholder is renamed. The class that is forwarded to,
the annotations that are looked for and the one that is added are neither the placeholder nor the
class that it becomes: their names end differently.
-/

namespace ClassPatch

section Names

namespace InjectionConfig

theorem text_of_configuredName {text : String} {name : BinaryName}
    (h : configuredName text = .ok name) : name.text = text := by
  unfold configuredName at h
  cases hname : BinaryName.ofString text with
  | error e =>
    rw [hname] at h
    cases h
  | ok found =>
    rw [hname] at h
    cases h
    exact BinaryName.text_of_ofString hname

theorem getLast?_append_text (text ending : String) (h : ending.toList ≠ []) :
    (text ++ ending).toList.getLast? = ending.toList.getLast? := by
  rw [String.toList_append, List.getLast?_append_of_ne_nil _ h]

theorem getLast?_platformClass {c : InjectionConfig} {package : Option String}
    {owner target : BinaryName} (h : c.platformClass package owner = .ok target) :
    target.text.toList.getLast? = some 'l' := by
  have hending : "Impl".toList.getLast? = some 'l' := by decide
  unfold platformClass at h
  obtain ⟨platform, -, h⟩ := bind_eq_ok.1 h
  rw [text_of_configuredName h]
  cases owner.package? with
  | none =>
    dsimp only
    rw [getLast?_append_text _ _ (by decide), hending]
  | some package =>
    dsimp only
    rw [← String.append_assoc, getLast?_append_text _ _ (by decide), hending]

theorem getLast?_platformMethodsClass {c : InjectionConfig} {identifier : Option String}
    {target : BinaryName} (h : c.platformMethodsClass identifier = .ok target) :
    target.text.toList.getLast? = some 's' := by
  have hending : platformMethodsName.toList.getLast? = some 's' := by decide
  unfold platformMethodsClass at h
  cases hidentifier : identifier <|> c.uniqueIdentifier with
  | none =>
    rw [hidentifier] at h
    cases h
  | some text =>
    rw [hidentifier] at h
    rw [text_of_configuredName h, getLast?_append_text _ _ (by decide), hending]

end InjectionConfig

theorem getLast?_placeholder : Injector.placeholder.text.toList.getLast? = some 't' := by
  have htext : Injector.placeholder.text.toList = _ := String.toList_ofList
  rw [htext]
  decide

theorem ne_of_getLast? {name name' : BinaryName} {c c' : Char}
    (h : name.text.toList.getLast? = some c) (h' : name'.text.toList.getLast? = some c')
    (hne : c ≠ c') : name.text ≠ name'.text := by
  intro heq
  rw [heq, h'] at h
  exact hne (Option.some.inj h).symm

end Names

section Descriptors

variable {source target : BinaryName}

theorem DescriptorText.rename_single_eq_iff {text text' : DescriptorText}
    (htext' : (type? text').isSome = true) (hsource : source.text ∉ text'.names)
    (htarget : target.text ∉ text'.names) :
    text.rename (.single source.text target) = text' ↔ text = text' := by
  obtain ⟨t, ht⟩ := Option.isSome_iff_exists.1 htext'
  constructor
  · intro heq
    cases htext : type? text with
    | none =>
      unfold rename at heq
      rwa [htext] at heq
    | some u =>
      have hu : u.rename (.single source.text target) = t := by
        rw [← heq, rename, htext, type?_render] at ht
        exact Option.some.inj ht
      -- a text that mentions the source would mention the target once it is renamed
      have hkeeps : (Renaming.single source.text target).Keeps text.names := by
        refine Renaming.keeps_single_of_not_mem ?_
        intro hmem
        rw [names, htext] at hmem
        obtain ⟨n, hn, hname⟩ := Option.map_eq_some_iff.1 (Option.mem_toList.1 hmem)
        have happly : (Renaming.single source.text target).apply n = target := by
          unfold Renaming.apply Renaming.single
          rw [if_pos hname, Option.getD_some]
        have hclass : t.className? = some target := by
          rw [← hu, FieldType.rename, FieldType.className?_map, hn, Option.map_some, happly]
        have hnames : text'.names = [target.text] := by
          unfold names
          rw [ht]
          exact congrArg (fun name => (name.map BinaryName.text).toList) hclass
        exact htarget (hnames ▸ List.mem_cons_self)
      rw [← heq, rename_of_keeps text hkeeps]
  · rintro rfl
    exact rename_of_keeps text (Renaming.keeps_single_of_not_mem hsource)

end Descriptors

section Annotations

variable {target : BinaryName}

/-- The descriptor of a class that is neither the placeholder nor one that is added. -/
structure IsOtherClass (text : DescriptorText) : Prop where
  isSome : (DescriptorText.type? text).isSome = true
  placeholder : placeholderClass ∉ DescriptorText.names text
  added : ∀ name ∈ DescriptorText.names text, name.toList.getLast? ≠ some 's'

theorem isOtherClass_of_toList {text text' : String} {cs : List Char} (hname : text'.toList = cs)
    (htext : text = String.ofList ('L' :: cs ++ [';']))
    (hvalid : ∀ segment ∈ cs.splitOn '/', segment ≠ [] ∧ segment.any isNameSeparator = false)
    (hplaceholder : placeholderClass ≠ text') (hadded : cs.getLast? ≠ some 's') :
    IsOtherClass text := by
  let name : BinaryName := ⟨text', BinaryName.fault?_eq_none hname hvalid⟩
  have hrender : (FieldType.ref (.object name)).render = text := by
    rw [htext, ← hname]
    rfl
  have htype : DescriptorText.type? text = some (.ref (.object name)) := by
    rw [← hrender]
    exact DescriptorText.type?_render _
  have hnames : DescriptorText.names text = [text'] := by
    unfold DescriptorText.names
    rw [htype]
    rfl
  constructor
  case isSome =>
    rw [htype]
    rfl
  case placeholder =>
    rw [hnames, List.mem_singleton]
    exact hplaceholder
  case added =>
    rw [hnames, List.forall_mem_singleton, hname]
    exact hadded

theorem isOtherClass_descriptor (e : ExpectPlatform) : IsOtherClass e.descriptor := by
  cases e with
  | current =>
    have hname : "dev/architectury/injectables/annotations/ExpectPlatform".toList = _ :=
      String.toList_ofList
    exact isOtherClass_of_toList hname rfl (by decide) (by decide) (by decide)
  | legacy =>
    have hname : "me/shedaniel/architectury/ExpectPlatform".toList = _ := String.toList_ofList
    exact isOtherClass_of_toList hname rfl (by decide) (by decide) (by decide)
  | legacyAnnotations =>
    have hname : "me/shedaniel/architectury/annotations/ExpectPlatform".toList = _ :=
      String.toList_ofList
    exact isOtherClass_of_toList hname rfl (by decide) (by decide) (by decide)

theorem isOtherClass_marker : IsOtherClass transformedMarker.type := by
  have hname : "dev/architectury/injectables/annotations/ExpectPlatform$Transformed".toList = _ :=
    String.toList_ofList
  exact isOtherClass_of_toList hname rfl (by decide) (by decide) (by decide)

theorem IsOtherClass.rename_eq_iff {text text' : DescriptorText} (h : IsOtherClass text')
    (htarget : target.text.toList.getLast? = some 's') :
    DescriptorText.rename (.single placeholderClass target) text = text' ↔ text = text' := by
  have hiff : DescriptorText.rename (.single Injector.placeholder.text target) text = text'
      ↔ text = text' :=
    DescriptorText.rename_single_eq_iff h.isSome h.placeholder fun hmem => h.added _ hmem htarget
  exact hiff

theorem ExpectPlatform.ofDescriptor?_rename (htarget : target.text.toList.getLast? = some 's')
    (text : DescriptorText) :
    ofDescriptor? (DescriptorText.rename (.single placeholderClass target) text)
      = ofDescriptor? text := by
  have hspelling : ∀ e : ExpectPlatform,
      (e.descriptor == DescriptorText.rename (.single placeholderClass target) text)
        = (e.descriptor == text) := by
    intro e
    rw [Bool.eq_iff_iff, beq_iff_eq, beq_iff_eq, eq_comm,
      (isOtherClass_descriptor e).rename_eq_iff htarget, eq_comm]
  unfold ofDescriptor?
  simp only [hspelling]

theorem Annotations.all_rename (as : Annotations) (r : Renaming) :
    (as.rename r).all = as.all.map (·.rename r) := List.map_append.symm

theorem Method.isExpectPlatform_rename (htarget : target.text.toList.getLast? = some 's')
    (m : Method) :
    (m.rename (.single placeholderClass target)).isExpectPlatform = m.isExpectPlatform := by
  change (m.annotations.rename _).all.any _ = m.annotations.all.any _
  rw [Annotations.all_rename, List.any_map]
  refine congrArg m.annotations.all.any (funext fun a => ?_)
  exact congrArg Option.isSome (ExpectPlatform.ofDescriptor?_rename htarget a.type)

theorem Annotations.contains_marker_rename (htarget : target.text.toList.getLast? = some 's')
    (as : Annotations) :
    (as.rename (.single placeholderClass target)).contains transformedMarker.type
      = as.contains transformedMarker.type := by
  unfold contains
  rw [all_rename, List.any_map]
  refine congrArg as.all.any (funext fun a => ?_)
  rw [Bool.eq_iff_iff, beq_iff_eq, Function.comp_apply, beq_iff_eq]
  exact isOtherClass_marker.rename_eq_iff htarget

theorem Method.markedAnnotations_rename (htarget : target.text.toList.getLast? = some 's')
    (m : Method) :
    (m.rename (.single placeholderClass target)).markedAnnotations
      = m.markedAnnotations.rename (.single placeholderClass target) := by
  have hmarker : Annotation.rename (.single placeholderClass target) transformedMarker
      = transformedMarker := by
    refine (AnnotationTree.mk.injEq ..).mpr ⟨?_, rfl⟩
    exact (isOtherClass_marker.rename_eq_iff htarget).2 rfl
  unfold markedAnnotations
  change (if (m.annotations.rename _).contains _ then m.annotations.rename _ else _) = _
  rw [Annotations.contains_marker_rename htarget]
  split
  · rfl
  · refine (Annotations.mk.injEq ..).mpr ⟨rfl, ?_⟩
    rw [List.map_append, List.map_singleton, hmarker]
    rfl

end Annotations

section Bodies

variable {r : Renaming} {target : BinaryName}

theorem loadParameters_rename (slot : UInt16) (ts : List FieldType) :
    loadParameters slot (ts.map (FieldType.rename r))
      = (loadParameters slot ts).map (BodyElement.rename r) := by
  induction ts generalizing slot with
  | nil => rfl
  | cons t ts ih =>
    have hkind : (t.rename r).kind = t.kind := by
      cases t <;> rfl
    have hwidth : (t.rename r).width = t.width := by
      cases t <;> rfl
    rw [List.map_cons, loadParameters, loadParameters, List.map_cons, hkind, hwidth, ih]
    rfl

theorem forwardingBody_rename (htarget : r.apply target = target) (m : Method) :
    forwardingBody target (m.rename r) = (forwardingBody target m).map (BodyElement.rename r) := by
  have hreturn : returnOf (m.rename r).descriptor.returnType
      = returnOf m.descriptor.returnType := by
    change returnOf (m.descriptor.returnType.map (FieldType.rename r)) = _
    cases m.descriptor.returnType with
    | none => rfl
    | some t => cases t <;> rfl
  have howner : RefType.rename r (.object target) = .object target :=
    congrArg RefType.object htarget
  unfold forwardingBody
  rw [List.map_append, ← loadParameters_rename, hreturn]
  simp only [List.map_cons, List.map_nil, BodyElement.rename, SymbolicInstruction.rename,
    MethodRef.rename, forwardTarget, howner]
  rfl

theorem names_loadParameters (slot : UInt16) (ts : List FieldType) :
    (loadParameters slot ts).flatMap BodyElement.names = [] := by
  induction ts generalizing slot with
  | nil => rfl
  | cons t ts ih =>
    rw [loadParameters, List.flatMap_cons, ih]
    rfl

theorem names_forwardingBody (target : BinaryName) (m : Method) :
    (forwardingBody target m).flatMap BodyElement.names = target.text :: m.descriptor.names := by
  unfold forwardingBody
  rw [List.flatMap_append, names_loadParameters]
  simp [BodyElement.names, SymbolicInstruction.names, MethodRef.names, RefType.names,
    RefType.className?, forwardTarget]

end Bodies

namespace Diagnostic

/-- The same problem after classes are renamed in the descriptor. -/
def rename (r : Renaming) : Diagnostic → Diagnostic
  | .nonStatic owner method descriptor => .nonStatic owner method (descriptor.rename r)

end Diagnostic

namespace Method

variable {source added target owner : BinaryName} {m m' : Method}

theorem forwardedCode_rename
    (htarget : (Renaming.single source.text added).apply target = target)
    (hne : target.text ≠ added.text) (hm : added.text ∉ m.names) :
    (m.rename (.single source.text added)).forwardedCode target
      = (m.forwardedCode target).rename (.single source.text added) := by
  have hdescriptor : added.text ∉ m.descriptor.names := fun h => hm (by simp [names, h])
  have hbody : added.text ∉ (forwardingBody target m).flatMap BodyElement.names := by
    rw [names_forwardingBody, List.mem_cons, not_or]
    exact ⟨hne.symm, hdescriptor⟩
  have hcode : (m.rename (.single source.text added)).code
      = m.code.map (·.rename (.single source.text added)) := rfl
  unfold forwardedCode
  rw [hcode, forwardingBody_rename htarget]
  cases hc : m.code with
  | none => rfl
  | some c =>
    have helements : added.text ∉ c.elements.flatMap BodyElement.names := by
      intro h
      refine hm ?_
      unfold names
      rw [hc]
      exact List.mem_append_right _ (by simp only [Option.elim_some, Code.names, List.mem_append, h,
        true_or])
    -- renaming does not make code forward that did not, nor the other way
    have hiff : (c.rename (.single source.text added)).elements
        = (forwardingBody target m).map (BodyElement.rename (.single source.text added))
          ↔ c.elements = forwardingBody target m := BodyElement.map_rename_inj helements hbody
    dsimp only [Option.map_some]
    by_cases hforwards : c.elements = forwardingBody target m
    · rw [if_pos hforwards, if_pos (hiff.2 hforwards)]
    · rw [if_neg hforwards, if_neg fun h => hforwards (hiff.1 h)]
      rfl

theorem apply_target (htarget : target.text.toList.getLast? = some 'l') :
    (Renaming.single placeholderClass added).apply target = target :=
  Renaming.apply_single_of_ne (ne_of_getLast? htarget getLast?_placeholder (by decide))

theorem forward_rename (hadded : added.text.toList.getLast? = some 's')
    (htarget : target.text.toList.getLast? = some 'l') (hm : added.text ∉ m.names) :
    (m.rename (.single placeholderClass added)).forward target
      = (m.forward target).rename (.single placeholderClass added) := by
  have hne := ne_of_getLast? htarget hadded (by decide)
  have hcode : (m.rename (.single Injector.placeholder.text added)).forwardedCode target
      = (m.forwardedCode target).rename (.single Injector.placeholder.text added) :=
    forwardedCode_rename (apply_target htarget) hne hm
  have hannotations := m.markedAnnotations_rename hadded
  refine (mk.injEq ..).mpr ⟨rfl, rfl, rfl, rfl, rfl, hannotations, rfl, rfl, ?_, rfl⟩
  exact congrArg some hcode

/-- Whether the method is renamed before it is forwarded, or afterwards, makes no difference. -/
structure ForwardsAlike (r : Renaming) (found : Except InjectionError BinaryName) (m : Method) :
    Prop where
  annotated : (m.rename r).isExpectPlatform = m.isExpectPlatform
  forward : ∀ target, found = .ok target → (m.rename r).forward target = (m.forward target).rename r

theorem forwardsAlike_single {found : Except InjectionError BinaryName}
    (hadded : added.text.toList.getLast? = some 's')
    (hfound : ∀ target, found = .ok target → target.text.toList.getLast? = some 'l')
    (hm : added.text ∉ m.names) : m.ForwardsAlike (.single placeholderClass added) found where
  annotated := m.isExpectPlatform_rename hadded
  forward := fun target h => forward_rename hadded (hfound target h) hm

theorem forwardsAlike_of_keeps {r : Renaming} {found : Except InjectionError BinaryName}
    (h : ∀ m : Method, m.rename r = m) : m.ForwardsAlike r found where
  annotated := by rw [h]
  forward := fun target _ => by rw [h, h]

section Runs

variable {r : Renaming} {found : Except InjectionError BinaryName} {ds ds' : List Diagnostic}

theorem run_expectPlatform_rename (hm : m.ForwardsAlike r found)
    (h : (m.expectPlatform owner found).run ds = (.ok m', ds')) :
    ∃ reported, ds' = ds ++ reported ∧ ∀ es,
      ((m.rename r).expectPlatform owner found).run es
        = (.ok (m'.rename r), es ++ reported.map (Diagnostic.rename r)) := by
  have hstatic : (m.rename r).isStatic = m.isStatic := rfl
  unfold expectPlatform at h ⊢
  rw [hm.annotated, hstatic]
  cases hannotated : m.isExpectPlatform with
  | false =>
    rw [hannotated] at h
    cases h
    refine ⟨[], (List.append_nil _).symm, fun es => ?_⟩
    rw [List.map_nil, List.append_nil]
    rfl
  | true =>
    rw [hannotated] at h
    cases hs : m.isStatic with
    | false =>
      rw [hs] at h
      cases h
      exact ⟨[.nonStatic owner m.name m.descriptor], rfl, fun es => rfl⟩
    | true =>
      rw [hs] at h
      cases hfound : found with
      | error e =>
        rw [hfound] at h
        cases h
      | ok target =>
        rw [hfound] at h
        cases h
        refine ⟨[], (List.append_nil _).symm, fun es => ?_⟩
        rw [List.map_nil, List.append_nil, ← hm.forward target hfound]
        rfl

theorem run_mapM_expectPlatform_rename {ms ms' : List Method}
    (hms : ∀ m ∈ ms, m.ForwardsAlike r found)
    (h : (ms.mapM (·.expectPlatform owner found) : InjectM (List Method)).run ds = (.ok ms', ds')) :
    ∃ reported, ds' = ds ++ reported ∧ ∀ es,
      ((ms.map (·.rename r)).mapM (·.expectPlatform owner found) : InjectM (List Method)).run es
        = (.ok (ms'.map (·.rename r)), es ++ reported.map (Diagnostic.rename r)) := by
  induction ms generalizing ms' ds with
  | nil =>
    cases h
    refine ⟨[], (List.append_nil _).symm, fun es => ?_⟩
    rw [List.map_nil, List.map_nil, List.append_nil]
    rfl
  | cons m ms ih =>
    rw [List.forall_mem_cons] at hms
    rw [List.mapM_cons] at h
    obtain ⟨m', ds₁, hm, h⟩ := run_bind_eq_ok.1 h
    obtain ⟨ms'', ds₂, hrest, h⟩ := run_bind_eq_ok.1 h
    obtain ⟨rfl, rfl⟩ := run_pure_eq_ok.1 h
    obtain ⟨first, rfl, hfirst⟩ := run_expectPlatform_rename hms.1 hm
    obtain ⟨others, rfl, hothers⟩ := ih hms.2 hrest
    refine ⟨first ++ others, List.append_assoc .., fun es => ?_⟩
    rw [List.map_cons, List.mapM_cons, run_bind_ok (hfirst es), run_bind_ok (hothers _),
      List.map_append, ← List.append_assoc]
    rfl

end Runs

end Method

end ClassPatch
