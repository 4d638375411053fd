import ClassPatch.Proofs.Inject.Finished
import ClassPatch.Proofs.Inject.Patched
import ClassPatch.Proofs.Inject.Stub
import ClassPatch.Proofs.Lift.Straight

/-!
Transforming again what was transformed. The class that is read back has finished methods and does
not mention the placeholder, so it stays as it is.
-/

namespace ClassPatch

/-- The pool matters only for the bootstrap methods that come with it. -/
theorem Class.rereadable_iff_withoutPool {c : Class} {admits : BootstrapMethod → Prop} :
    c.Rereadable admits ↔ c.withoutPool.Rereadable admits
      ∧ (∀ b ∈ c.bootstrapMethods, b.WellFormed admits)
      ∧ c.bootstrapMethods.length ≤ 0xFFFF := by
  constructor
  · intro h
    refine ⟨?_, h.bootstrapMethods, h.bootstrapCount⟩
    exact { h with
      storable := { h.storable with }
      bootstrapMethods := fun _ hb => absurd hb List.not_mem_nil
      bootstrapCount := Nat.zero_le _ }
  · rintro ⟨h, hbootstraps, hcount⟩
    exact { h with
      storable := { h.storable with }
      bootstrapMethods := hbootstraps
      bootstrapCount := hcount }

/-- No length field of the format is exceeded when the class is written, nor any in an attribute. -/
structure Class.Writable (c : Class) : Prop extends Class.WithinLimits c where
  tables : ∀ m ∈ c.methods, m.TablesFit
  innerClasses : c.innerClasses.length ≤ 0xFFFF
  annotations : ∀ m ∈ c.methods, m.annotations.invisible.length ≤ 0xFFFF
  pool : ∀ t ∈ c.constantPool, t.next ≤ 0xFFFF

theorem InjectionConfig.isName_platformMethodsClass {config : InjectionConfig}
    {identifier : Option String} {target : BinaryName}
    (hidentifier : ∀ text ∈ identifier <|> config.uniqueIdentifier,
      ∀ c ∈ text.toList, c ≠ '<' ∧ c ≠ '>' ∧ c ≠ ':')
    (h : config.platformMethodsClass identifier = .ok target) :
    ∀ c ∈ target.text.toList, c ≠ '<' ∧ c ≠ '>' ∧ c ≠ ':' := by
  have htext : ("/" ++ platformMethodsName).toList
      = ['/', 'P', 'l', 'a', 't', 'f', 'o', 'r', 'm', 'M', 'e', 't', 'h', 'o', 'd', 's'] := by
    decide
  have hending : ∀ c ∈ ("/" ++ platformMethodsName).toList, c ≠ '<' ∧ c ≠ '>' ∧ c ≠ ':' := by
    rw [htext]
    simp
  unfold platformMethodsClass at h
  cases hconfigured : identifier <|> config.uniqueIdentifier with
  | none =>
    rw [hconfigured] at h
    cases h
  | some text =>
    rw [hconfigured] at h
    rw [text_of_configuredName h, String.append_assoc, String.toList_append]
    exact List.forall_mem_append.2 ⟨hidentifier text hconfigured, hending⟩

namespace Injector

variable {i : Injector} {c d f : Class} {ms : List Method} {added : BinaryName}
  {file : Stored.ClassFile} {r : Resolver} {found : Except InjectionError BinaryName}

theorem dollar_not_mem_placeholder : '$' ∉ placeholder.text.toList := by decide

theorem placeholder_ne (hadded : added.text.toList.getLast? = some 's') : placeholder ≠ added := by
  rintro rfl
  exact ne_of_getLast? getLast?_placeholder hadded (by decide) rfl

section Handled

variable (hms : ∀ m' ∈ ms, ∃ m ∈ c.methods, m.Handled found m')

include hms

theorem signaturesWellFormed_withMethods (hc : c.SignaturesWellFormed) :
    (c.withMethods ms).SignaturesWellFormed where
  signature := hc.signature
  fields := hc.fields
  recordComponents := hc.recordComponents
  methods := by
    intro m' hm'
    obtain ⟨m, hm, hhandled⟩ := hms m' hm'
    cases hhandled with
    | same => exact hc.methods m' hm
    | forwarded => exact hc.methods m hm
  code := by
    intro m' hm' code hcode
    obtain ⟨m, hm, hhandled⟩ := hms m' hm'
    cases hhandled with
    | same => exact hc.code m' hm code hcode
    | @forwarded target =>
      obtain rfl := Option.mem_some.1 hcode
      rcases m.forwardedCode_cases target with ⟨hmem, -⟩ | ⟨maxLocals, heq⟩
      · exact hc.code m hm _ hmem
      · rw [heq]
        exact fun _ h => absurd h List.not_mem_nil

theorem rereadable_withMethods (h : ClassLifted file r c) (hfile : file.Fits)
    (hinner : c.innerClasses.length ≤ 0xFFFF)
    (hfit : ∀ m ∈ ms, m.TablesFit ∧ m.annotations.invisible.length ≤ 0xFFFF) :
    (c.withMethods ms).Rereadable r.Admits where
  storable := { h.storable with }
  innerClasses := hinner
  fields := fun f hf => (h.fields_storable hfile f hf).1
  methods := by
    intro m' hm'
    obtain ⟨m, hm, hhandled⟩ := hms m' hm'
    have hreadable := hhandled.rereadable h hfile hm (hfit m' hm').1 (hfit m' hm').2
    exact hreadable
  bootstrapMethods := h.bootstrapMethods_wellFormed
  bootstrapCount := h.length_bootstrapMethods_le

end Handled

section Remapped

theorem Remapped.name_eq (h : i.Remapped f d) (hname : f.name.text ≠ placeholderClass) :
    d.name = f.name := by
  cases h with
  | same => rfl
  | renamed => exact Renaming.apply_single_of_ne hname

theorem Remapped.finished (h : i.Remapped f d)
    (hfound : ∀ target, found = .ok target → target.text.toList.getLast? = some 'l')
    (hf : ∀ m ∈ f.methods, m.Finished found) : ∀ m ∈ d.methods, m.Finished found := by
  cases h with
  | same => exact hf
  | renamed _ hadded =>
    refine List.forall_mem_map.2 fun m hm => (hf m hm).rename ?_ hfound
    exact InjectionConfig.getLast?_platformMethodsClass hadded

theorem Remapped.lengths (h : i.Remapped f d) (hd : d.Writable) :
    f.innerClasses.length ≤ 0xFFFF
      ∧ ∀ m ∈ f.methods, m.TablesFit ∧ m.annotations.invisible.length ≤ 0xFFFF := by
  cases h with
  | same => exact ⟨hd.innerClasses, fun m hm => ⟨hd.tables m hm, hd.annotations m hm⟩⟩
  | @renamed target =>
    refine ⟨?_, fun m hm => ⟨fun code hcode => ?_, ?_⟩⟩
    · have hinner := hd.innerClasses
      change (f.innerClasses.map _).length ≤ _ at hinner
      rwa [List.length_map] at hinner
    · exact Code.tablesFit_rename.1
        (hd.tables _ (List.mem_map_of_mem hm) _ (Option.mem_map_of_mem _ hcode))
    · have hcount := hd.annotations _ (List.mem_map_of_mem hm)
      change (m.annotations.invisible.map _).length ≤ _ at hcount
      rwa [List.length_map] at hcount

theorem Remapped.dense (h : i.Remapped f d) (hf : ∀ t ∈ f.constantPool, t.Dense) :
    ∀ t ∈ d.constantPool, t.Dense := by
  intro t ht
  rcases h.keeps with ⟨-, hpool, -⟩ | ⟨-, hnone, -⟩
  · rw [hpool] at ht
    exact hf t ht
  · rw [hnone] at ht
    cases ht

theorem Remapped.not_mem_names
    (hidentifier : ∀ text ∈ i.overrides.uniqueIdentifier <|> i.config.uniqueIdentifier,
      ∀ c ∈ text.toList, c ≠ '<' ∧ c ≠ '>' ∧ c ≠ ':')
    (hf : f.SignaturesWellFormed) (h : i.Remapped f d) : placeholderClass ∉ d.names := by
  cases h with
  | same hmentions => exact Class.mentions_eq_false.1 hmentions
  | @renamed target _ hadded =>
    have hmoved : NamesMoved placeholder target f.names _ :=
      f.moved (BinaryName.MarkFree.isName
        (InjectionConfig.isName_platformMethodsClass hidentifier hadded)) dollar_not_mem_placeholder hf
    exact hmoved.source_not_mem
      (placeholder_ne (InjectionConfig.getLast?_platformMethodsClass hadded))
      dollar_not_mem_placeholder

theorem apply_eq_object (hadded : added.text.toList.getLast? = some 's') (owner : BinaryName) :
    (Renaming.single placeholderClass added).apply owner = .object ↔ owner = .object := by
  by_cases howner : owner.text = placeholderClass
  · have happly : (Renaming.single placeholderClass added).apply owner = added := by
      unfold Renaming.apply Renaming.single
      rw [if_pos howner]
      rfl
    have hobject : BinaryName.object.text.toList.getLast? = some 't' := by decide
    rw [happly]
    constructor
    · rintro rfl
      exact absurd rfl (ne_of_getLast? hadded hobject (by decide))
    · rintro rfl
      exact absurd howner (by decide)
  · rw [Renaming.apply_single_of_ne howner]

theorem admits_rename (hadded : added.text.toList.getLast? = some 's') :
    (fun b : BootstrapMethod => r.Admits (b.rename (.single placeholderClass added))
      ∧ placeholderClass ∉ (b.rename (.single placeholderClass added)).names) = r.Admits := by
  refine funext fun b => propext (and_iff_left ?_)
  have hmoved : NamesMoved placeholder added b.names _ := b.moved
  exact hmoved.source_not_mem (placeholder_ne hadded) dollar_not_mem_placeholder

theorem rereadable_rename (hadded : added.text.toList.getLast? = some 's')
    (hf : f.Rereadable r.Admits) : (f.rename (.single placeholderClass added)).Rereadable
      fun b => r.Admits b ∧ placeholderClass ∉ b.names := by
  refine Class.Rereadable.rename (apply_eq_object hadded f.name) ?_
  rw [admits_rename hadded]
  exact hf

theorem rereadable_of_not_mem (hmentions : f.mentions placeholderClass = false)
    (htable : ∀ b ∈ f.bootstrapMethods, placeholderClass ∉ b.names) (hf : f.Rereadable r.Admits) :
    f.Rereadable fun b => r.Admits b ∧ placeholderClass ∉ b.names := by
  -- the class is what it would be renamed to, whatever the placeholder is renamed to
  have hreplacement : replacement.text.toList.getLast? = some 's' := by decide
  have hrenamed := (Class.rereadable_iff_withoutPool.1 (rereadable_rename hreplacement hf)).1
  rw [Class.rename_of_keeps
    (Renaming.keeps_single_of_not_mem (Class.mentions_eq_false.1 hmentions))] at hrenamed
  refine Class.rereadable_iff_withoutPool.2 ⟨hrenamed, fun b hb => ?_, hf.bootstrapCount⟩
  have hb' := hf.bootstrapMethods b hb
  rw [← admits_rename hreplacement] at hb'
  have hwellFormed : (b.rename (.single placeholderClass replacement)).WellFormed
      fun b => r.Admits b ∧ placeholderClass ∉ b.names := BootstrapMethod.WellFormed.rename hb'
  rwa [b.rename_of_keeps (Renaming.keeps_single_of_not_mem (htable b hb))] at hwellFormed

theorem Remapped.rereadable (h : i.Remapped f d) (hf : f.Rereadable r.Admits)
    (htable : f.mentions placeholderClass = true
      ∨ ∀ b ∈ f.bootstrapMethods, placeholderClass ∉ b.names) :
    d.Rereadable fun b => r.Admits b ∧ placeholderClass ∉ b.names := by
  cases h with
  | same hmentions =>
    rw [hmentions, Bool.false_eq_true, false_or] at htable
    exact rereadable_of_not_mem hmentions htable hf
  | renamed _ hadded =>
    exact rereadable_rename (InjectionConfig.getLast?_platformMethodsClass hadded) hf

theorem Remapped.exists_rereadable (h : i.Remapped f d) (hf : f.Rereadable r.Admits) :
    ∃ admits, d.Rereadable admits
      ∧ (d.hasVerbatimAttributes = true → ∀ b, admits b → placeholderClass ∉ b.names) := by
  by_cases htable : f.mentions placeholderClass = true
    ∨ ∀ b ∈ f.bootstrapMethods, placeholderClass ∉ b.names
  · exact ⟨_, h.rereadable hf htable, fun _ b hb => hb.2⟩
  · cases h with
    | renamed hmentions => exact absurd (.inl hmentions) htable
    | same hmentions =>
      refine ⟨r.Admits, hf, fun hverbatim => absurd (.inr fun b hb hmem => ?_) htable⟩
      refine Class.mentions_eq_false.1 hmentions ?_
      have hnames := List.mem_flatMap.2 ⟨b, hb, hmem⟩
      simp only [Class.names, hverbatim, ↓reduceIte, List.mem_append, hnames, or_true]

end Remapped

/-- What was written for a transformed class is read back as a class that is finished. -/
theorem finished_of_reread {c₁ : Class} {bytes : Bytes} {admits : BootstrapMethod → Prop}
    (hreadable : d.Rereadable admits) (hpool : d.PoolFits) (hd : d.WithinLimits)
    (hbytes : d.toBytes = .ok bytes) (hresult : Class.parse bytes = .ok c₁)
    (hmethods : ∀ m ∈ d.methods, m.Finished (i.forwardedTo d.name))
    (hnames : placeholderClass ∉ d.names)
    (hadmits : d.hasVerbatimAttributes = true → ∀ b, admits b → placeholderClass ∉ b.names) :
    (∀ n ∈ c₁.methods, n.Finished (i.forwardedTo c₁.name))
      ∧ c₁.mentions placeholderClass = false := by
  obtain ⟨hreread, hbootstraps⟩ := Class.reread_of_parse hreadable hpool hd hbytes hresult
  have hname : c₁.name = d.name := by rw [hreread.others]
  constructor
  · intro n hn
    obtain ⟨m, hm, hmn⟩ := exists_of_mem_right hreread.methods hn
    rw [hname]
    exact hmn.finished (fun code hcode => ((hreadable.methods m hm).code code hcode).placed)
      (hmethods m hm)
  · exact Class.mentions_eq_false.2 (hreread.not_mem_names hnames fun hverbatim b hb =>
      hadmits hverbatim b (hbootstraps b hb))

/-- A class with new bytes: its methods are forwarded, the placeholder is renamed, and what was
forwarded can be read back. -/
structure Transformed (i : Injector) (c : Class) (ds ds' : List Diagnostic) (result : Bytes)
    (ms : List Method) (d : Class) (r : Resolver) : Prop where
  run : (i.expectPlatform c).run ds = (.ok (c.withMethods ms), ds')
  handled : ∀ m' ∈ ms, ∃ m ∈ c.methods, m.Handled (i.forwardedTo c.name) m'
  remapped : i.Remapped (c.withMethods ms) d
  readable : (c.withMethods ms).Rereadable r.Admits
  bytes : d.toBytes = .ok result
  limits : d.WithinLimits
  pool : d.PoolFits

theorem exists_transformed {bytes result : Bytes} (henabled : i.config.enabled = true)
    (hparse : Class.parse bytes = .ok c)
    (hrun : (i.transformBytes bytes).run ds = (.ok (some result), ds'))
    (hlimits : ∀ d ds', (i.transform c).run ds = (.ok d, ds') → d.Writable) :
    ∃ ms d r, i.Transformed c ds ds' result ms d r := by
  obtain ⟨file, r, hfile, hdense, hlifted⟩ := Class.lifted_of_parse hparse
  obtain ⟨d, htransform, hbytes⟩ := transform_of_transformBytes hparse hrun
  have hd := hlimits d ds' htransform
  obtain ⟨f, hforward, hremapped⟩ := remapped_of_transform henabled htransform
  obtain ⟨ms, hms, rfl⟩ := (run_expectPlatform_eq_ok henabled).1 hforward
  have hhandled : ∀ m' ∈ ms, ∃ m ∈ c.methods, m.Handled (i.forwardedTo c.name) m' := by
    intro m' hm'
    obtain ⟨m, hm, t, t', hmm'⟩ := exists_of_mem_right (forall₂_of_run_mapM hms) hm'
    exact ⟨m, hm, Method.handled_of_run hmm'⟩
  obtain ⟨hinner, hfit⟩ := hremapped.lengths hd
  have hpool : d.PoolFits := by
    refine fun t ht => ⟨hremapped.dense (fun t ht => ?_) t ht, hd.pool t ht⟩
    obtain rfl := Option.mem_some.1 (hlifted.constantPool ▸ ht)
    exact hdense
  refine ⟨ms, d, r, ?_⟩
  constructor
  case run => exact hforward
  case handled => exact hhandled
  case remapped => exact hremapped
  -- not all of it was parsed, but what was not forwards
  case readable => exact rereadable_withMethods hhandled hlifted hfile hinner hfit
  case bytes => exact hbytes
  case limits => exact hd.toWithinLimits
  case pool => exact hpool

/--
Transforming what was transformed changes nothing: the class that is parsed from new bytes is
transformed to itself.
-/
theorem transform_again_of_transformBytes {bytes result : Bytes} {c₁ : Class}
    {ds ds' : List Diagnostic} (henabled : i.config.enabled = true)
    (hidentifier : ∀ text ∈ i.overrides.uniqueIdentifier <|> i.config.uniqueIdentifier,
      ∀ c ∈ text.toList, c ≠ '<' ∧ c ≠ '>' ∧ c ≠ ':')
    (hparse : Class.parse bytes = .ok c) (hname : c.name.text ≠ placeholderClass)
    (hsignatures : c.SignaturesWellFormed)
    (hrun : (i.transformBytes bytes).run ds = (.ok (some result), ds'))
    (hlimits : ∀ d ds', (i.transform c).run ds = (.ok d, ds') → d.Writable)
    (hresult : Class.parse result = .ok c₁) (es : List Diagnostic) :
    ∃ es', (i.transform c₁).run es = (.ok c₁, es') := by
  obtain ⟨ms, d, r, h⟩ := exists_transformed henabled hparse hrun hlimits
  have hremapped := h.remapped
  obtain ⟨admits, hreadable, hadmits⟩ := hremapped.exists_rereadable h.readable
  -- what is read back is as finished as the transformed class is
  have hmethods : ∀ m ∈ d.methods, m.Finished (i.forwardedTo d.name) := by
    have hsame : d.name = c.name := hremapped.name_eq hname
    rw [hsame]
    refine hremapped.finished (fun _ => InjectionConfig.getLast?_platformClass) ?_
    intro m' hm'
    obtain ⟨m, -, hmm'⟩ := h.handled m' hm'
    exact hmm'.finished
  have hnames : placeholderClass ∉ d.names := hremapped.not_mem_names hidentifier
    (signaturesWellFormed_withMethods h.handled hsignatures)
  obtain ⟨hfinished, hmentions⟩ := finished_of_reread hreadable h.pool h.limits h.bytes hresult
    hmethods hnames hadmits
  exact transform_of_finished hfinished hmentions es

section Calling

open PoolM (Finds)

/-- The class with the implementations of `A` for Fabric. -/
def fabricTarget : BinaryName := ⟨"fabric/AImpl", by decide⟩

def fabricMethod : MethodRef := ⟨.object fabricTarget, ⟨"f", isName_f⟩, ⟨[], none⟩, false⟩

/-- An annotated method, with other annotations as given. -/
def callingMethod (others : List Annotation) (elements : List BodyElement)
    (maxStack : Option UInt16) : Method :=
  codeMethod ⟨"f", isName_f⟩ { invisible := .marker ExpectPlatform.current.descriptor :: others }
    { elements, maxStack, maxLocals := some 0 }

/-- A body that calls what a bootstrap method of the linker gives. -/
def callingElements (linker : BinaryName) : List BodyElement :=
  [.instruction (.invokeDynamic ⟨carryingBootstrap linker, ⟨"f", isName_f⟩, ⟨[], none⟩⟩),
    .branch .voidReturn]

def calledElements : List BodyElement :=
  [.instruction (.invoke .static fabricMethod), .branch .voidReturn]

/-- The method before it is forwarded. -/
def callerMethod (linker : BinaryName) : Method :=
  callingMethod [] (callingElements linker) (some 0)

def calledMethod (maxStack : Option UInt16) : Method :=
  callingMethod [transformedMarker] calledElements maxStack

def callingCode (code : Bytes) : Stored.Code where
  maxStack := 0
  maxLocals := 0
  code := code
  exceptionTable := []
  attributes := []

def callingMember (annotations : List Stored.Annotation) (code : Bytes) : Stored.Member .method :=
  codeMember 9 10 20 (callingCode code) [⟨21, Writer.list16 Stored.Annotation.write annotations⟩]

def callerMember : Stored.Member .method := callingMember [⟨22, []⟩] [0xBA, 0, 16, 0, 0, 0xB1]

def calledMember : Stored.Member .method :=
  callingMember [⟨22, []⟩, ⟨23, []⟩] [0xB8, 0, 19, 0xB1]

section Parsed

variable {entries : List BootstrapEntry}

theorem annotationAttribute_callingMember :
    (⟨carryingConstants, entries⟩ : Resolver).annotationAttribute .invisibleAnnotations
        (Writer.list16 Stored.Annotation.write [⟨22, []⟩])
      = .ok [.marker ExpectPlatform.current.descriptor]
    ∧ (⟨carryingConstants, entries⟩ : Resolver).annotationAttribute .invisibleAnnotations
        (Writer.list16 Stored.Annotation.write [⟨22, []⟩, ⟨23, []⟩])
      = .ok [.marker ExpectPlatform.current.descriptor, transformedMarker] := by
  let r : Resolver := ⟨carryingConstants, entries⟩
  have hmarker {i : ConstantIndex} {type : String} (htype : carryingConstants.utf8 i = .ok type) :
      (do
        let elements ← r.namedElements []
        return { type := ← r.utf8 i, elements } : Except ClassError Annotation)
          = .ok ⟨type, []⟩ :=
    bind_of_eq_ok htype _
  have hexpect : carryingConstants.utf8 22 = .ok ExpectPlatform.current.descriptor :=
    eq_ok_of_toOption (by decide +kernel)
  have hmarked : carryingConstants.utf8 23 = .ok transformedMarker.type :=
    eq_ok_of_toOption (by decide +kernel)
  constructor
  · have hparse : AttributeFormat.invisibleAnnotations.parse
        (Writer.list16 Stored.Annotation.write [⟨22, []⟩]) = .ok [⟨22, []⟩] :=
      eq_ok_of_toOption (by decide +kernel)
    exact bind_of_eq_ok hparse _ |>.trans (mapM_eq_ok.2 (.cons (hmarker hexpect) .nil))
  · have hparse : AttributeFormat.invisibleAnnotations.parse
        (Writer.list16 Stored.Annotation.write [⟨22, []⟩, ⟨23, []⟩]) = .ok [⟨22, []⟩, ⟨23, []⟩] :=
      eq_ok_of_toOption (by decide +kernel)
    exact bind_of_eq_ok hparse _ |>.trans
      (mapM_eq_ok.2 (.cons (hmarker hexpect) (.cons (hmarker hmarked) .nil)))

theorem method_callingMember {annotations : List Stored.Annotation} {others : List Annotation}
    {code : Bytes} {decoded : List (Nat × Decoded)} {elements : List BodyElement}
    (hlength : code.length < 2 ^ 32)
    (hannotations : (⟨carryingConstants, entries⟩ : Resolver).annotationAttribute
      .invisibleAnnotations (Writer.list16 Stored.Annotation.write annotations)
        = .ok (.marker ExpectPlatform.current.descriptor :: others))
    (hdecoded : decodeCode code = .ok decoded)
    (helements : List.Forall₂ (fun d e => LiftedStraight ⟨carryingConstants, entries⟩ d.2 e) decoded
      elements) :
    (⟨carryingConstants, entries⟩ : Resolver).method smallName (callingMember annotations code)
      = .ok (callingMethod others elements (some 0)) := by
  obtain ⟨hname, hdescriptor, hcode⟩ := names_carryingResolver
  have hattribute : carryingConstants.utf8 21 = .ok "RuntimeInvisibleAnnotations" :=
    eq_ok_of_toOption (by decide +kernel)
  have hstep : Resolver.addToMethod ⟨carryingConstants, entries⟩
      (codeHead ⟨"f", isName_f⟩ {}, some (callingCode code))
      ⟨21, Writer.list16 Stored.Annotation.write annotations⟩
        = .ok (codeHead ⟨"f", isName_f⟩
          { invisible := .marker ExpectPlatform.current.descriptor :: others },
            some (callingCode code)) :=
    Resolver.addToMethod_of_methodStep _ (.invisible hattribute hannotations)
  obtain ⟨p, hlifted⟩ := exists_codeLifted_of_straight (x := callingCode code)
    (codeContext ⟨"f", isName_f⟩) hdecoded helements rfl .nil nofun
  refine Resolver.method_codeMember hname hdescriptor hcode
    ⟨hlength, Nat.zero_le _, nofun, Nat.zero_le _, nofun⟩ ?_ hlifted
  exact bind_of_eq_ok hstep _

theorem method_callerMember {linker : BinaryName}
    (hcall : (⟨carryingConstants, entries⟩ : Resolver).instruction (.invokeDynamic 16)
      = .ok (.invokeDynamic ⟨carryingBootstrap linker, ⟨"f", isName_f⟩, ⟨[], none⟩⟩)) :
    (⟨carryingConstants, entries⟩ : Resolver).method smallName callerMember
      = .ok (callerMethod linker) := by
  have hdecoded : decodeCode [0xBA, 0, 16, 0, 0, 0xB1]
      = .ok [(0, .instruction (.invokeDynamic 16)), (5, .branch .voidReturn)] :=
    eq_ok_of_toOption (by decide)
  exact method_callingMember (by decide) annotationAttribute_callingMember.1 hdecoded
    (.cons (.instruction hcall) (.cons .voidReturn .nil))

theorem method_calledMember
    (hcall : (⟨carryingConstants, entries⟩ : Resolver).instruction (.invoke .static 19)
      = .ok (.invoke .static fabricMethod)) :
    (⟨carryingConstants, entries⟩ : Resolver).method smallName calledMember
      = .ok (calledMethod (some 0)) := by
  have hdecoded : decodeCode [0xB8, 0, 19, 0xB1]
      = .ok [(0, .instruction (.invoke .static 19)), (3, .branch .voidReturn)] :=
    eq_ok_of_toOption (by decide)
  exact method_callingMember (by decide) annotationAttribute_callingMember.2 hdecoded
    (.cons (.instruction hcall) (.cons .voidReturn .nil))

theorem instruction_invokeDynamic :
    (⟨carryingConstants, [⟨13, []⟩]⟩ : Resolver).instruction (.invokeDynamic 16)
        = .ok (.invokeDynamic ⟨carryingBootstrap placeholder, ⟨"f", isName_f⟩, ⟨[], none⟩⟩)
      ∧ (⟨carryingConstants, [⟨15, []⟩]⟩ : Resolver).instruction (.invokeDynamic 16)
        = .ok (.invokeDynamic ⟨carryingBootstrap replacement, ⟨"f", isName_f⟩, ⟨[], none⟩⟩) :=
  ⟨eq_ok_of_toOption (by decide +kernel), eq_ok_of_toOption (by decide +kernel)⟩

theorem instruction_invokeStatic :
    (⟨carryingConstants, [⟨13, []⟩]⟩ : Resolver).instruction (.invoke .static 19)
        = .ok (.invoke .static fabricMethod)
      ∧ (⟨carryingConstants, [⟨15, []⟩]⟩ : Resolver).instruction (.invoke .static 19)
        = .ok (.invoke .static fabricMethod) :=
  ⟨eq_ok_of_toOption (by decide +kernel), eq_ok_of_toOption (by decide +kernel)⟩

theorem fits_callingMember {annotations : List Stored.Annotation} {code : Bytes}
    (hcode : code.length < 2 ^ 31)
    (hannotations : (Writer.list16 Stored.Annotation.write annotations).length < 2 ^ 32) :
    (callingMember annotations code).Fits := by
  have hlength : (callingCode code).write.length = code.length + 12 + 0 :=
    Stored.Code.length_write rfl
  have hone : 1 < 0xFFFF := by decide
  exact Stored.fits_codeMember (by omega) hone (List.forall_mem_singleton.2 hannotations)

theorem fits_callerMember : callerMember.Fits := fits_callingMember (by decide) (by decide)

theorem fits_calledMember : calledMember.Fits := fits_callingMember (by decide) (by decide)

end Parsed

section Lowered

variable {parent linker : BinaryName} {superClass handle : ConstantIndex}
  {attributes : List VerbatimAttribute} {carried : List Stored.Attribute}

theorem finds_calledElements : Finds carryingConstants (PoolM.layout calledElements)
    ⟨[0xB8, 0, 19, 0xB1], ∅⟩ := by
  let laid : List LayoutElement := [.instruction (.invoke .static 19), .branch .voidReturn]
  have hnear : widenOnce laid = .ok laid := rfl
  have hassemble : assemble laid = .ok ⟨[0xB8, 0, 19, 0xB1], ∅⟩ :=
    assemble_of_widenOnce hnear (by decide) (.cons rfl (.cons rfl .nil))
  have howner : Finds carryingConstants (PoolM.refType (.object fabricTarget)) 18 :=
    .className (i := 17) (by decide) (by decide)
  have hmethod : Finds carryingConstants (PoolM.methodRef fabricMethod) 19 :=
    howner.bind (finds_carryingMember.bind (.constant (by decide)))
  have hinvoke : Finds carryingConstants (PoolM.instruction (.invoke .static fabricMethod))
      (.invoke .static 19) := hmethod.bind (.pure _)
  have hcall : Finds carryingConstants
      (PoolM.layoutElement (.instruction (.invoke .static fabricMethod)))
      (.instruction (.invoke .static 19)) := hinvoke.bind (.pure _)
  exact (Finds.mapM (.cons hcall (.cons (.pure _) .nil))).bind (.lift hassemble)

theorem finds_calledMethod :
    Finds carryingConstants (PoolM.method smallName (calledMethod none)) calledMember := by
  have hlimit : Code.stackLimit (forwardingBody fabricTarget (codeHead ⟨"f", isName_f⟩ {})) []
      = .ok 0 := stackLimit_forwardingBody (Nat.zero_le _)
  have hcode : Finds carryingConstants (PoolM.code (codeContext ⟨"f", isName_f⟩)
      { elements := calledElements, maxLocals := some 0 }) (callingCode [0xB8, 0, 19, 0xB1]) :=
    .code_of_layout finds_calledElements (.inr ⟨rfl, hlimit⟩) .nil
  have hmarkers : Finds carryingConstants
      (PoolM.annotations [.marker ExpectPlatform.current.descriptor, transformedMarker])
      [⟨22, []⟩, ⟨23, []⟩] :=
    .mapM (.cons (Finds.bind (.constant (by decide)) (.pure _))
      (.cons (Finds.bind (.constant (by decide)) (.pure _)) .nil))
  have hannotations : Finds carryingConstants
      (PoolM.annotationAttributes (calledMethod none).annotations)
      [⟨21, Writer.list16 Stored.Annotation.write [⟨22, []⟩, ⟨23, []⟩]⟩] := by
    refine (Finds.unlessEmpty_nil _).bind (Finds.bind (Finds.unlessEmpty_cons ?_) (.pure _))
    exact hmarkers.bind (.store (by decide) rfl)
  exact .method_codeMember (by decide) (by decide) (by decide) hcode hannotations

theorem forward_callerMethod (linker : BinaryName) :
    (callerMethod linker).forward fabricTarget = calledMethod none := by
  have hannotations : (callingMethod [] [] none).markedAnnotations
      = (calledMethod none).annotations := by
    have hunmarked : (callingMethod [] [] none).annotations.contains transformedMarker.type
        = false := by decide
    unfold Method.markedAnnotations
    rw [hunmarked]
    rfl
  have hne : callingElements linker ≠ calledElements := nofun
  have hcode : (callerMethod linker).forwardedCode fabricTarget
      = { elements := calledElements, maxLocals := some 0 } := by
    change (if callingElements linker = calledElements then
      ({ elements := callingElements linker, maxStack := some 0, maxLocals := some 0 } : Code)
      else { elements := calledElements, maxLocals := some 0 }) = _
    rw [if_neg hne]
  refine (Method.mk.injEq ..).mpr ⟨rfl, rfl, rfl, rfl, rfl, hannotations, rfl, rfl, ?_, rfl⟩
  exact congrArg some hcode

theorem run_expectPlatform_callerMethod :
    (fabricInjector.expectPlatform
        (carryingClass parent linker attributes [callerMethod linker])).run []
      = (.ok (carryingClass parent linker attributes [calledMethod none]), []) := by
  have htarget : fabricInjector.forwardedTo smallName = .ok fabricTarget :=
    eq_ok_of_toOption (by decide)
  have hhead : (callingMethod [] [] none).IsForwarded := by decide
  have hforwarded : (callerMethod linker).IsForwarded := hhead
  have hmethod : ((callerMethod linker).expectPlatform smallName
      (fabricInjector.forwardedTo smallName)).run [] = (.ok (calledMethod none), []) := by
    rw [htarget, Method.run_expectPlatform_of_isForwarded hforwarded, ← forward_callerMethod linker]
    rfl
  refine (run_expectPlatform_eq_ok rfl).2 ⟨[calledMethod none], ?_, rfl⟩
  change ([callerMethod linker].mapM (·.expectPlatform smallName
    (fabricInjector.forwardedTo smallName)) : InjectM _).run [] = _
  rw [List.mapM_cons, List.mapM_nil]
  exact (run_bind_ok hmethod _).trans rfl

variable (hparent : Finds carryingConstants (PoolM.className parent) superClass)
  (hlinker : Finds carryingConstants (PoolM.bootstrapParts (carryingBootstrap linker)) ⟨handle, []⟩)
  (hattributes : List.Forall₂ (fun v x => Finds carryingConstants (PoolM.verbatim v) x) attributes
    carried)

include hparent hlinker hattributes

theorem run_calledClass :
    (PoolM.classFile (carryingClass parent linker attributes [calledMethod none])).run
        (carryingClass parent linker attributes [calledMethod none]).initialPool
      = (.ok (carryingFile superClass handle carried [calledMember]).stored, carryingPool handle) :=
  run_carryingClass hparent hlinker (.cons finds_calledMethod .nil) hattributes

theorem writable_calledClass
    (hfile : (carryingFile superClass handle carried [calledMember]).stored.Fits) :
    (carryingClass parent linker attributes [calledMethod none]).Writable := by
  have hmethod {P : Method → Prop} (hm : P (calledMethod none)) : ∀ m ∈ [calledMethod none], P m :=
    List.forall_mem_singleton.2 hm
  have hcode {P : Code → Prop} (hc : P { elements := calledElements, maxLocals := some 0 }) :
      ∀ m ∈ [calledMethod none], ∀ c ∈ m.code, P c :=
    hmethod fun c hc' => Option.mem_some.1 hc' ▸ hc
  constructor
  case toWithinLimits =>
    exact withinLimits_carryingClass (hcode (Nat.zero_le _)) (hcode (by decide)) hfile
      (run_calledClass hparent hlinker hattributes)
  case tables => exact hcode ⟨Nat.zero_le _, Nat.zero_le _, Nat.zero_le _⟩
  case innerClasses => exact Nat.zero_le _
  case annotations => exact hmethod (Nat.le_add_left _ _)
  case pool =>
    intro t ht
    rw [← Option.mem_some.1 ht]
    decide

end Lowered

theorem identifier_fabricInjector :
    ∀ text ∈ fabricInjector.overrides.uniqueIdentifier <|> fabricInjector.config.uniqueIdentifier,
      ∀ c ∈ text.toList, c ≠ '<' ∧ c ≠ '>' ∧ c ≠ ':' := by
  intro text htext
  obtain rfl : "T" = text := Option.mem_some.1 htext
  have hchars : "T".toList = ['T'] := by decide
  rw [hchars, List.forall_mem_singleton]
  decide

theorem signaturesWellFormed_callerMethod (parent linker : BinaryName)
    (attributes : List VerbatimAttribute) :
    (carryingClass parent linker attributes [callerMethod linker]).SignaturesWellFormed := by
  have hnone : ∀ text : SignatureText, text ∉ (none : Option SignatureText) :=
    fun text => Option.not_mem_none text
  refine ⟨fun text h => absurd h (hnone text), fun _ h => absurd h List.not_mem_nil,
    List.forall_mem_singleton.2 fun text h => absurd h (hnone text),
    List.forall_mem_singleton.2 fun code hcode => ?_,
    fun cs h => absurd h (Option.not_mem_none cs)⟩
  obtain rfl := Option.mem_some.1 hcode
  exact fun _ h => absurd h List.not_mem_nil

/-- The class of the placeholder, with a method that forwards once its bytes are written again. -/
theorem transform_again_of_carryingFile :
    (fabricInjector.transformBytes
        (carryingFile 6 13 [⟨25, []⟩] [callerMember]).stored.write).run []
      = (.ok (some (carryingFile 8 15 [⟨25, []⟩] [calledMember]).stored.write), [])
    ∧ Class.parse (carryingFile 8 15 [⟨25, []⟩] [calledMember]).stored.write
      = .ok (carryingClass replacement replacement [⟨"X", []⟩] [calledMethod (some 0)])
    ∧ (calledMethod (some 0)).isExpectPlatform = true
    ∧ ∃ es', (fabricInjector.transform
        (carryingClass replacement replacement [⟨"X", []⟩] [calledMethod (some 0)])).run []
      = (.ok (carryingClass replacement replacement [⟨"X", []⟩] [calledMethod (some 0)]), es') := by
  have hnames : ∀ v ∈ [(⟨"X", []⟩ : VerbatimAttribute)], v.name ∉ Resolver.classAttributes := by
    decide
  have hinfos : ∀ a ∈ [(⟨25, []⟩ : Stored.Attribute)], a.info.length < 2 ^ 32 :=
    List.forall_mem_singleton.2 (Nat.two_pow_pos 32)
  have hcaller : (carryingFile 6 13 [⟨25, []⟩] [callerMember]).stored.Fits :=
    fits_carryingFile (List.forall_mem_singleton.2 fits_callerMember) (by decide) (by decide) hinfos
  have hcalled : (carryingFile 8 15 [⟨25, []⟩] [calledMember]).stored.Fits :=
    fits_carryingFile (List.forall_mem_singleton.2 fits_calledMember) (by decide) (by decide) hinfos
  have hbefore : Class.parse (carryingFile 6 13 [⟨25, []⟩] [callerMember]).stored.write
      = .ok (carryingClass placeholder placeholder [⟨"X", []⟩] [callerMethod placeholder]) :=
    parse_carryingFile className_carryingResolver.2.1 bootstraps_carryingConstants.1
      (.cons (method_callerMember instruction_invokeDynamic.1) .nil)
      (.cons carries_carryingResolver .nil) hnames hcaller
  have hafter : Class.parse (carryingFile 8 15 [⟨25, []⟩] [calledMember]).stored.write
      = .ok (carryingClass replacement replacement [⟨"X", []⟩] [calledMethod (some 0)]) :=
    parse_carryingFile className_carryingResolver.2.2 bootstraps_carryingConstants.2
      (.cons (method_calledMember instruction_invokeStatic.2) .nil)
      (.cons carries_carryingResolver .nil) hnames hcalled
  have hremap : fabricInjector.remapPlaceholder
      (carryingClass placeholder placeholder [⟨"X", []⟩] [calledMethod none])
        = .ok (carryingClass replacement replacement [⟨"X", []⟩] [calledMethod none]) := rfl
  have htransform : (fabricInjector.transform
      (carryingClass placeholder placeholder [⟨"X", []⟩] [callerMethod placeholder])).run []
        = (.ok (carryingClass replacement replacement [⟨"X", []⟩] [calledMethod none]), []) :=
    run_transform_of_remap run_expectPlatform_callerMethod hremap
  have hcarried : List.Forall₂ (fun v x => Finds carryingConstants (PoolM.verbatim v) x)
      [⟨"X", []⟩] [⟨25, []⟩] := .cons (.verbatim (by decide)) .nil
  have hlower := run_calledClass finds_carryingParents.2 finds_carryingBootstraps.2 hcarried
  have hrun := run_transformBytes_of_transform rfl hbefore htransform
    (fun heq => placeholder_ne_replacement (congrArg Class.superName heq))
    (Class.toBytes_of_run hlower)
  refine ⟨hrun, hafter, by decide, transform_again_of_transformBytes rfl identifier_fabricInjector
    hbefore (by decide) (signaturesWellFormed_callerMethod _ _ _) hrun ?_ hafter []⟩
  intro d ds' hrun'
  rw [htransform] at hrun'
  cases hrun'
  exact writable_calledClass finds_carryingParents.2 finds_carryingBootstraps.2 hcarried hcalled

end Calling

end Injector

end ClassPatch
