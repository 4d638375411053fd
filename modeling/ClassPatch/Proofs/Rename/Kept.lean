import ClassPatch.Proofs.Descriptor.Canonical
import ClassPatch.Proofs.Rename.Class
import ClassPatch.Proofs.Signature.Reads

/-!
A renaming that keeps every name that a class mentions keeps the class, but for the pool that it was
read with. Texts are written anew as they were, since a type has only one descriptor and a signature
is the text of what is read from it.
-/

namespace ClassPatch

namespace Renaming

variable {α : Type} {r : Renaming}

/-- Every one of the names stays what it is. -/
def Keeps (r : Renaming) (names : List String) : Prop := ∀ name ∈ names, r.applyText name = name

theorem keeps_cons {name : String} {names : List String} :
    r.Keeps (name :: names) ↔ r.applyText name = name ∧ r.Keeps names := List.forall_mem_cons

theorem keeps_append {names names' : List String} :
    r.Keeps (names ++ names') ↔ r.Keeps names ∧ r.Keeps names' := List.forall_mem_append

theorem keeps_reverse {names : List String} : r.Keeps names.reverse ↔ r.Keeps names :=
  forall_congr' fun _ => imp_congr_left List.mem_reverse

theorem keeps_identity (names : List String) : identity.Keeps names := fun _ _ => rfl

theorem keeps_single_of_not_mem {source : String} {target : BinaryName} {names : List String}
    (h : source ∉ names) : (single source target).Keeps names := by
  intro name hname
  have hne : name ≠ source := fun heq => h (heq ▸ hname)
  unfold applyText single
  rw [if_neg hne]
  rfl

theorem apply_of_applyText {name : BinaryName} (h : r.applyText name.text = name.text) :
    r.apply name = name := by
  rw [← text_apply] at h
  cases name
  rwa [BinaryName.mk.injEq]

theorem apply_single_of_ne {source : String} {target name : BinaryName} (h : name.text ≠ source) :
    (single source target).apply name = name := by
  unfold apply single
  rw [if_neg h, Option.getD_none]

theorem map_of_keeps {as : List α} {names : α → List String} {f : α → α}
    (hf : ∀ a, r.Keeps (names a) → f a = a) (h : r.Keeps (as.flatMap names)) : as.map f = as := by
  have hmem : ∀ a ∈ as, f a = id a := by
    intro a ha
    exact hf a fun name hname => h name (List.mem_flatMap.2 ⟨a, ha, hname⟩)
  rw [List.map_congr_left hmem, List.map_id]

theorem optionMap_of_keeps {a : Option α} {names : α → List String} {f : α → α}
    (hf : ∀ a, r.Keeps (names a) → f a = a) (h : r.Keeps (a.elim [] names)) : a.map f = a := by
  cases a with
  | none => rfl
  | some x => exact congrArg some (hf x h)

theorem map_apply_of_keeps {names : List BinaryName} (h : r.Keeps (names.map BinaryName.text)) :
    names.map r.apply = names := by
  have hmem : ∀ name ∈ names, r.apply name = id name := by
    intro name hname
    exact apply_of_applyText (h name.text (List.mem_map_of_mem hname))
  rw [List.map_congr_left hmem, List.map_id]

theorem optionMap_apply_of_keeps {name : Option BinaryName}
    (h : r.Keeps (name.map BinaryName.text).toList) : name.map r.apply = name := by
  cases name with
  | none => rfl
  | some name => exact congrArg some (apply_of_applyText (keeps_cons.1 h).1)

end Renaming

open Renaming

variable {r : Renaming}

section Types

theorem RefType.rename_of_keeps (t : RefType) (h : r.Keeps t.names) : t.rename r = t := by
  cases t with
  | object name => exact congrArg RefType.object (apply_of_applyText (keeps_cons.1 h).1)
  | objectArray array =>
    have helement := apply_of_applyText (keeps_cons.1 h).1
    simp only [rename, map, ArrayType.map, helement]
  | primitiveArray array => rfl

theorem FieldType.rename_of_keeps (t : FieldType) (h : r.Keeps t.names) : t.rename r = t := by
  cases t with
  | base t => rfl
  | ref t => exact congrArg FieldType.ref (t.rename_of_keeps h)

theorem MethodDescriptor.rename_of_keeps (d : MethodDescriptor) (h : r.Keeps d.names) :
    d.rename r = d := by
  have hmem : ∀ t : FieldType, (∀ name, t.className? = some name → name ∈ d.classNames) →
      t.rename r = t := by
    intro t ht
    refine t.rename_of_keeps ?_
    intro text htext
    obtain ⟨name, hname, rfl⟩ := Option.map_eq_some_iff.1 (Option.mem_toList.1 htext)
    exact h _ (List.mem_map_of_mem (ht name hname))
  have hparameters : ∀ t ∈ d.parameters, FieldType.rename r t = id t := by
    intro t ht
    refine hmem t fun name hname => ?_
    exact List.mem_append_left _ (List.mem_filterMap.2 ⟨t, ht, hname⟩)
  have hreturn : ∀ t, d.returnType = some t → FieldType.rename r t = id t := by
    intro t ht
    refine hmem t fun name hname => ?_
    rw [classNames, ht, Option.bind_some, hname]
    exact List.mem_append_right _ List.mem_cons_self
  obtain ⟨parameters, returnType⟩ := d
  have hparameters' := (List.map_congr_left hparameters).trans (List.map_id parameters)
  have hreturn' := (Option.map_congr hreturn).trans (congrFun Option.map_id returnType)
  exact (mk.injEq ..).mpr ⟨hparameters', hreturn'⟩

theorem DescriptorText.rename_of_keeps (text : DescriptorText) (h : r.Keeps text.names) :
    text.rename r = text := by
  unfold names at h
  unfold rename
  unfold type? at h ⊢
  cases hparse : FieldType.parse text with
  | error e => rfl
  | ok t =>
    rw [hparse] at h
    dsimp only at h ⊢
    rw [t.rename_of_keeps h, FieldType.render_of_parse hparse]

end Types

section Signatures

theorem renameInner_of_keeps {outer inner : String} (houter : r.applyText outer = outer)
    (hinner : r.applyText (innerClassName outer inner) = innerClassName outer inner) :
    renameInner r outer inner = inner := by
  unfold renameInner
  cases hr : r (innerClassName outer inner) with
  | none => rfl
  | some renamed =>
    have htext : renamed.text = innerClassName outer inner := by
      rw [applyText, hr] at hinner
      exact hinner
    have hsuffix : (innerClassName outer "").toList.isPrefixOf? renamed.text.toList
        = some inner.toList := by
      rw [List.isPrefixOf?_eq_some_iff_append_eq, htext]
      simp [innerClassName]
    dsimp only
    rw [houter, hsuffix]
    exact String.ofList_toList

mutual

theorem ReferenceSignature.rename_of_keeps : ∀ t : ReferenceSignature,
    r.Keeps t.names → t.rename r = t
  | .classType name suffixes, h => by
    obtain ⟨hname, hsuffixes⟩ := keeps_cons.1 h
    rw [ReferenceSignature.rename, hname, suffixes.rename_of_keeps hname hsuffixes]
  | .typeVariable _, _ => by rw [ReferenceSignature.rename]
  | .array element, h => by rw [ReferenceSignature.rename, element.rename_of_keeps h]
  | .simpleArray _, _ => by rw [ReferenceSignature.rename]

theorem ClassSuffixes.rename_of_keeps {outer : String} (houter : r.applyText outer = outer) :
    ∀ x : ClassSuffixes, r.Keeps (x.names outer) → x.rename r outer = x
  | .done, _ => by rw [ClassSuffixes.rename]
  | .arguments as rest, h => by
    obtain ⟨has, hrest⟩ := keeps_append.1 h
    rw [ClassSuffixes.rename, as.rename_of_keeps has, rest.rename_of_keeps houter hrest]
  | .inner name rest, h => by
    obtain ⟨hname, hrest⟩ := keeps_cons.1 h
    rw [ClassSuffixes.rename, renameInner_of_keeps houter hname, rest.rename_of_keeps hname hrest]

theorem TypeArguments.rename_of_keeps : ∀ as : TypeArguments, r.Keeps as.names → as.rename r = as
  | .done, _ => by rw [TypeArguments.rename]
  | .wildcard rest, h => by rw [TypeArguments.rename, rest.rename_of_keeps h]
  | .type bound type rest, h => by
    obtain ⟨htype, hrest⟩ := keeps_append.1 h
    rw [TypeArguments.rename, type.rename_of_keeps htype, rest.rename_of_keeps hrest]

end

theorem TypeSignature.rename_of_keeps (t : TypeSignature) (h : r.Keeps t.names) :
    t.rename r = t := by
  cases t with
  | simple t => rfl
  | reference t => exact congrArg TypeSignature.reference (t.rename_of_keeps h)

theorem TypeParameter.rename_of_keeps (p : TypeParameter) (h : r.Keeps p.names) :
    p.rename r = p := by
  obtain ⟨hclass, hinterfaces⟩ := keeps_append.1 h
  have hclassBound := optionMap_of_keeps ReferenceSignature.rename_of_keeps hclass
  have hinterfaceBounds := map_of_keeps ReferenceSignature.rename_of_keeps hinterfaces
  rw [rename, hclassBound, hinterfaceBounds]

theorem SignatureBody.rename_of_keeps (b : SignatureBody) (h : r.Keeps b.names) :
    b.rename r = b := by
  cases b with
  | method parameters result thrown =>
    obtain ⟨h, hthrown⟩ := keeps_append.1 h
    obtain ⟨hparameters, hresult⟩ := keeps_append.1 h
    rw [rename, map_of_keeps TypeSignature.rename_of_keeps hparameters,
      result.rename_of_keeps hresult, map_of_keeps ReferenceSignature.rename_of_keeps hthrown]
  | types ts => rw [rename, map_of_keeps ReferenceSignature.rename_of_keeps h]

theorem Signature.rename_of_keeps (sig : Signature) (h : r.Keeps sig.names) :
    sig.rename r = sig := by
  obtain ⟨hparameters, hbody⟩ := keeps_append.1 h
  have htypeParameters := optionMap_of_keeps
    (fun _ => map_of_keeps TypeParameter.rename_of_keeps) hparameters
  rw [rename, htypeParameters, sig.body.rename_of_keeps hbody]

theorem SignatureText.rename_of_keeps (text : SignatureText) (h : r.Keeps text.names) :
    text.rename r = text := by
  unfold rename
  cases hscan : text.scan.1 with
  | none => rfl
  | some sig =>
    obtain ⟨-, htext, hnames⟩ := of_scan hscan
    rw [hnames, keeps_reverse] at h
    dsimp only
    rw [sig.rename_of_keeps h, ← htext]

end Signatures

section Constants

theorem FieldRef.rename_of_keeps (f : FieldRef) (h : r.Keeps f.names) : f.rename r = f := by
  obtain ⟨howner, hdescriptor⟩ := keeps_cons.1 h
  rw [rename, apply_of_applyText howner, f.descriptor.rename_of_keeps hdescriptor]

theorem MethodRef.rename_of_keeps (m : MethodRef) (h : r.Keeps m.names) : m.rename r = m := by
  obtain ⟨howner, hdescriptor⟩ := keeps_append.1 h
  rw [rename, m.owner.rename_of_keeps howner, m.descriptor.rename_of_keeps hdescriptor]

theorem MethodHandle.rename_of_keeps (m : MethodHandle) (h : r.Keeps m.names) :
    m.rename r = m := by
  obtain ⟨kind, member⟩ := m
  cases member with
  | field f => rw [rename, HandleMember.rename, f.rename_of_keeps h]
  | method m => rw [rename, HandleMember.rename, m.rename_of_keeps h]

theorem StaticConstant.rename_of_keeps (c : StaticConstant) (h : r.Keeps c.names) :
    c.rename r = c := by
  cases c with
  | classRef t => rw [rename, t.rename_of_keeps h]
  | methodType descriptor => rw [rename, descriptor.rename_of_keeps h]
  | methodHandle handle => rw [rename, handle.rename_of_keeps h]
  | string | integer | float | long | double => rfl

mutual

theorem LoadableConstant.rename_of_keeps : ∀ c : LoadableConstant,
    r.Keeps c.names → c.rename r = c
  | .static c, h => by rw [LoadableConstant.rename, c.rename_of_keeps h]
  | .dynamic handle arguments _ descriptor, h => by
    obtain ⟨h, hdescriptor⟩ := keeps_append.1 h
    obtain ⟨hhandle, harguments⟩ := keeps_append.1 h
    rw [LoadableConstant.rename, handle.rename_of_keeps hhandle,
      renameConstants_of_keeps arguments harguments, descriptor.rename_of_keeps hdescriptor]

theorem renameConstants_of_keeps : ∀ cs : List LoadableConstant,
    r.Keeps (constantNames cs) → renameConstants r cs = cs
  | [], _ => by rw [renameConstants]
  | c :: cs, h => by
    obtain ⟨hc, hcs⟩ := keeps_append.1 h
    rw [renameConstants, c.rename_of_keeps hc, renameConstants_of_keeps cs hcs]

end

theorem BootstrapMethod.rename_of_keeps (b : BootstrapMethod) (h : r.Keeps b.names) :
    b.rename r = b := by
  obtain ⟨hhandle, harguments⟩ := keeps_append.1 h
  rw [rename, b.handle.rename_of_keeps hhandle, renameConstants_of_keeps _ harguments]

theorem CallSite.rename_of_keeps (s : CallSite) (h : r.Keeps s.names) : s.rename r = s := by
  obtain ⟨hbootstrap, hdescriptor⟩ := keeps_append.1 h
  rw [rename, s.bootstrap.rename_of_keeps hbootstrap, s.descriptor.rename_of_keeps hdescriptor]

end Constants

section Annotations

theorem LeafValue.rename_of_keeps (v : LeafValue) (h : r.Keeps v.names) : v.rename r = v := by
  cases v with
  | enum type name => rw [rename, DescriptorText.rename_of_keeps type h]
  | classInfo descriptor => rw [rename, DescriptorText.rename_of_keeps descriptor h]
  | integer | long | float | double | string => rfl

namespace ElementValue

mutual

theorem rename_of_keeps : ∀ v : ElementValue, r.Keeps (names v) → rename r v = v
  | .leaf v, h => by rw [rename, v.rename_of_keeps h]
  | .nested type elements, h => by
    obtain ⟨htype, helements⟩ := keeps_append.1 h
    rw [rename, DescriptorText.rename_of_keeps type htype,
      renameElements_of_keeps elements helements]
  | .array values, h => by rw [rename, renameValues_of_keeps values h]

theorem renameValues_of_keeps : ∀ vs : List ElementValue,
    r.Keeps (valueNames vs) → renameValues r vs = vs
  | [], _ => by rw [renameValues]
  | v :: vs, h => by
    obtain ⟨hv, hvs⟩ := keeps_append.1 h
    rw [renameValues, rename_of_keeps v hv, renameValues_of_keeps vs hvs]

theorem renameElements_of_keeps : ∀ elements : List (String × ElementValue),
    r.Keeps (elementNames elements) → renameElements r elements = elements
  | [], _ => by rw [renameElements]
  | (_, v) :: elements, h => by
    obtain ⟨hv, helements⟩ := keeps_append.1 h
    rw [renameElements, rename_of_keeps v hv, renameElements_of_keeps elements helements]

end

end ElementValue

theorem Annotation.rename_of_keeps (a : Annotation) (h : r.Keeps (names a)) : rename r a = a := by
  obtain ⟨htype, helements⟩ := keeps_append.1 h
  rw [rename, DescriptorText.rename_of_keeps _ htype,
    ElementValue.renameElements_of_keeps _ helements]

theorem Annotations.rename_of_keeps (as : Annotations) (h : r.Keeps as.names) :
    as.rename r = as := by
  unfold names all at h
  rw [List.flatMap_append] at h
  obtain ⟨hvisible, hinvisible⟩ := keeps_append.1 h
  rw [rename, map_of_keeps Annotation.rename_of_keeps hvisible,
    map_of_keeps Annotation.rename_of_keeps hinvisible]

theorem ParameterAnnotations.rename_of_keeps (as : ParameterAnnotations)
    (h : r.Keeps as.names) : as.rename r = as := by
  have hlists : ∀ lists : Option (List (List Annotation)),
      r.Keeps ((lists.getD []).flatten.flatMap Annotation.names) →
        lists.map (·.map (·.map (·.rename r))) = lists := by
    intro lists hkeeps
    cases lists with
    | none => rfl
    | some lists =>
      refine congrArg some (map_of_keeps (fun _ => map_of_keeps Annotation.rename_of_keeps) ?_)
      rw [Option.getD_some, List.flatten_eq_flatMap, List.flatMap_assoc] at hkeeps
      exact hkeeps
  unfold names at h
  rw [List.flatten_append, List.flatMap_append] at h
  obtain ⟨hvisible, hinvisible⟩ := keeps_append.1 h
  rw [rename, hlists _ hvisible, hlists _ hinvisible]

end Annotations

section Code

theorem SymbolicInstruction.rename_of_keeps (i : SymbolicInstruction) (h : r.Keeps (names i)) :
    rename r i = i := by
  cases i with
  | ldc c => rw [rename, c.rename_of_keeps h]
  | ldc2 c => rw [rename, c.rename_of_keeps h]
  | onField access f => rw [rename, f.rename_of_keeps h]
  | invoke kind m => rw [rename, m.rename_of_keeps h]
  | invokeDynamic site => rw [rename, site.rename_of_keeps h]
  | onClass op t => rw [rename, t.rename_of_keeps h]
  | multiNewArray t dimensions => rw [rename, t.rename_of_keeps h]
  | plain | bipush | sipush | load | store | iinc | newPrimitiveArray => rfl

theorem BodyElement.rename_of_keeps (e : BodyElement) (h : r.Keeps (names e)) :
    rename r e = e := by
  cases e with
  | instruction i => rw [rename, SymbolicInstruction.rename_of_keeps i h]
  | label | branch => rfl

theorem BodyVerificationType.rename_of_keeps (t : BodyVerificationType)
    (h : r.Keeps (names t)) : rename r t = t := by
  cases t with
  | object t => rw [rename, t.rename_of_keeps h]
  | _ => rfl

theorem BodyFrame.rename_of_keeps (f : BodyFrame) (h : r.Keeps (names f)) : rename r f = f := by
  unfold names at h
  rw [List.flatMap_append] at h
  obtain ⟨hlocals, hstack⟩ := keeps_append.1 h
  rw [rename, map_of_keeps BodyVerificationType.rename_of_keeps hlocals,
    map_of_keeps BodyVerificationType.rename_of_keeps hstack]

theorem ExceptionHandler.rename_of_keeps (e : ExceptionHandler) (h : r.Keeps e.names) :
    e.rename r = e := by
  rw [rename, optionMap_apply_of_keeps h]

theorem LocalVariable.renameDescriptor_of_keeps (v : LocalVariable)
    (h : r.Keeps (DescriptorText.names v.descriptor)) : v.renameDescriptor r = v := by
  rw [renameDescriptor, DescriptorText.rename_of_keeps _ h]

theorem LocalVariable.renameSignature_of_keeps (v : LocalVariable)
    (h : r.Keeps (SignatureText.names v.descriptor)) : v.renameSignature r = v := by
  rw [renameSignature, SignatureText.rename_of_keeps _ h]

theorem Code.rename_of_keeps (c : Code) (h : r.Keeps c.names) : c.rename r = c := by
  obtain ⟨h, hframes⟩ := keeps_append.1 h
  obtain ⟨h, hlocalVariableTypes⟩ := keeps_append.1 h
  obtain ⟨h, hlocalVariables⟩ := keeps_append.1 h
  obtain ⟨helements, hhandlers⟩ := keeps_append.1 h
  have hframe : ∀ x : Label × BodyFrame, r.Keeps (BodyFrame.names x.2) →
      (x.1, BodyFrame.rename r x.2) = x := by
    intro x hx
    rw [BodyFrame.rename_of_keeps x.2 hx]
  rw [rename, map_of_keeps BodyElement.rename_of_keeps helements,
    map_of_keeps ExceptionHandler.rename_of_keeps hhandlers,
    map_of_keeps LocalVariable.renameDescriptor_of_keeps hlocalVariables,
    map_of_keeps LocalVariable.renameSignature_of_keeps hlocalVariableTypes,
    map_of_keeps hframe hframes]

end Code

section Class

theorem Field.rename_of_keeps (f : Field) (h : r.Keeps f.names) : f.rename r = f := by
  obtain ⟨h, hannotations⟩ := keeps_append.1 h
  obtain ⟨h, hconstantValue⟩ := keeps_append.1 h
  obtain ⟨hdescriptor, hsignature⟩ := keeps_append.1 h
  rw [rename, f.descriptor.rename_of_keeps hdescriptor,
    optionMap_of_keeps SignatureText.rename_of_keeps hsignature,
    optionMap_of_keeps LoadableConstant.rename_of_keeps hconstantValue,
    f.annotations.rename_of_keeps hannotations]

theorem Method.rename_of_keeps (m : Method) (h : r.Keeps m.names) : m.rename r = m := by
  obtain ⟨h, hcode⟩ := keeps_append.1 h
  obtain ⟨h, hdefault⟩ := keeps_append.1 h
  obtain ⟨h, hparameterAnnotations⟩ := keeps_append.1 h
  obtain ⟨h, hannotations⟩ := keeps_append.1 h
  obtain ⟨h, hexceptions⟩ := keeps_append.1 h
  obtain ⟨hdescriptor, hsignature⟩ := keeps_append.1 h
  rw [rename, m.descriptor.rename_of_keeps hdescriptor,
    optionMap_of_keeps SignatureText.rename_of_keeps hsignature,
    map_apply_of_keeps hexceptions, m.annotations.rename_of_keeps hannotations,
    m.parameterAnnotations.rename_of_keeps hparameterAnnotations,
    optionMap_of_keeps ElementValue.rename_of_keeps hdefault,
    optionMap_of_keeps Code.rename_of_keeps hcode]

theorem InnerClass.rename_of_keeps (c : InnerClass) (h : r.Keeps c.names) : c.rename r = c := by
  obtain ⟨hinner, houter⟩ := keeps_cons.1 h
  rw [rename, apply_of_applyText hinner, optionMap_apply_of_keeps houter]

theorem EnclosingMethod.rename_of_keeps (e : EnclosingMethod) (h : r.Keeps e.names) :
    e.rename r = e := by
  obtain ⟨hclass, hmethod⟩ := keeps_cons.1 h
  have hpair : ∀ x : UnqualifiedName × MethodDescriptor, r.Keeps x.2.names →
      (x.1, x.2.rename r) = x := by
    intro x hx
    rw [x.2.rename_of_keeps hx]
  rw [rename, apply_of_applyText hclass, optionMap_of_keeps hpair hmethod]

theorem RecordComponent.rename_of_keeps (c : RecordComponent) (h : r.Keeps c.names) :
    c.rename r = c := by
  obtain ⟨h, hannotations⟩ := keeps_append.1 h
  obtain ⟨hdescriptor, hsignature⟩ := keeps_append.1 h
  rw [rename, c.descriptor.rename_of_keeps hdescriptor,
    optionMap_of_keeps SignatureText.rename_of_keeps hsignature,
    c.annotations.rename_of_keeps hannotations]

namespace Class

/-- The class without what comes from the class file that it was read from. -/
def withoutPool (c : Class) : Class := { c with constantPool := none, bootstrapMethods := [] }

theorem rename_of_keeps {c : Class} (h : r.Keeps c.names) :
    (c.rename r).withoutPool = c.withoutPool := by
  obtain ⟨h, -⟩ := keeps_append.1 h
  obtain ⟨h, hannotations⟩ := keeps_append.1 h
  obtain ⟨h, hrecord⟩ := keeps_append.1 h
  obtain ⟨h, hpermitted⟩ := keeps_append.1 h
  obtain ⟨h, hmembers⟩ := keeps_append.1 h
  obtain ⟨h, hhost⟩ := keeps_append.1 h
  obtain ⟨h, henclosing⟩ := keeps_append.1 h
  obtain ⟨h, hinner⟩ := keeps_append.1 h
  obtain ⟨h, hsignature⟩ := keeps_append.1 h
  obtain ⟨h, hmethods⟩ := keeps_append.1 h
  obtain ⟨h, hfields⟩ := keeps_append.1 h
  obtain ⟨h, hinterfaces⟩ := keeps_append.1 h
  obtain ⟨hname, hsuper⟩ := keeps_cons.1 h
  have hcomponents : c.recordComponents.map (·.map (·.rename r)) = c.recordComponents := by
    cases hcs : c.recordComponents with
    | none => rfl
    | some cs =>
      rw [hcs] at hrecord
      exact congrArg some (map_of_keeps RecordComponent.rename_of_keeps hrecord)
  unfold rename withoutPool
  simp only [apply_of_applyText hname, optionMap_apply_of_keeps hsuper,
    map_apply_of_keeps hinterfaces, map_of_keeps Field.rename_of_keeps hfields,
    map_of_keeps Method.rename_of_keeps hmethods,
    optionMap_of_keeps SignatureText.rename_of_keeps hsignature,
    map_of_keeps InnerClass.rename_of_keeps hinner,
    optionMap_of_keeps EnclosingMethod.rename_of_keeps henclosing,
    optionMap_apply_of_keeps hhost, map_apply_of_keeps hmembers, map_apply_of_keeps hpermitted,
    hcomponents, c.annotations.rename_of_keeps hannotations]

theorem rename_eq_self {c : Class} (h : r.Keeps c.names)
    (hverbatim : c.hasVerbatimAttributes = true) : c.rename r = c := by
  obtain ⟨hpool, hbootstraps⟩ := rename_of_hasVerbatimAttributes r hverbatim
  obtain ⟨-, htable⟩ := keeps_append.1 h
  rw [if_pos hverbatim] at htable
  rw [map_of_keeps BootstrapMethod.rename_of_keeps htable] at hbootstraps
  calc c.rename r
    _ = { (c.rename r).withoutPool with
        constantPool := (c.rename r).constantPool
        bootstrapMethods := (c.rename r).bootstrapMethods } := rfl
    _ = { c.withoutPool with
        constantPool := c.constantPool
        bootstrapMethods := c.bootstrapMethods } := by rw [rename_of_keeps h, hpool, hbootstraps]

end Class

end Class

end ClassPatch
