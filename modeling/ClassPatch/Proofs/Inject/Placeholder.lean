import ClassPatch.Proofs.Inject.Again

/-!
What is left of the placeholder in a transformed class without attributes that are carried along.
The class that is read back does not name it, but its bootstrap methods may. They are not looked at
when it is decided whether the class mentions the placeholder. Where the body that was forwarded had
the last mention of it, the bootstrap methods are kept as they were.
-/

namespace ClassPatch

namespace Injector

variable {i : Injector} {c d f : Class} {ms : List Method} {ds ds' : List Diagnostic}
  {found : Except InjectionError BinaryName}

section Verbatim

theorem noVerbatim_of_handled {m m' : Method} (h : m.Handled found m') (hm : m.NoVerbatim) :
    m'.NoVerbatim := by
  cases h with
  | same => exact hm
  | @forwarded target =>
    refine ⟨hm.1, fun code hcode => ?_⟩
    obtain rfl := Option.mem_some.1 hcode
    rcases m.forwardedCode_cases target with ⟨hmem, -⟩ | ⟨maxLocals, heq⟩
    · exact hm.2 _ hmem
    · rw [heq]

theorem hasVerbatimAttributes_withMethods
    (hms : ∀ m' ∈ ms, ∃ m ∈ c.methods, m.Handled found m')
    (hc : c.hasVerbatimAttributes = false) : (c.withMethods ms).hasVerbatimAttributes = false := by
  rw [Class.hasVerbatimAttributes_eq_false] at hc ⊢
  obtain ⟨hattributes, hfields, hmethods, hcomponents⟩ := hc
  refine ⟨hattributes, hfields, fun m' hm' => ?_, hcomponents⟩
  obtain ⟨m, hm, hhandled⟩ := hms m' hm'
  exact noVerbatim_of_handled hhandled (hmethods m hm)

theorem Remapped.hasVerbatimAttributes_eq (h : i.Remapped f d) :
    d.hasVerbatimAttributes = f.hasVerbatimAttributes := by
  cases h with
  | same => rfl
  | renamed => exact Class.hasVerbatimAttributes_rename _ f

end Verbatim

/--
New bytes of a class without attributes that are carried along are parsed as a class that does not
name the placeholder. Its bootstrap methods name it exactly if those of the class did, and the class
did not mention it any more when its methods were forwarded.
-/
theorem placeholder_of_transformBytes {bytes result : Bytes} (henabled : i.config.enabled = true)
    (hidentifier : ∀ text ∈ i.overrides.uniqueIdentifier <|> i.config.uniqueIdentifier,
      ∀ c ∈ text.toList, c ≠ '<' ∧ c ≠ '>' ∧ c ≠ ':')
    (hparse : Class.parse bytes = .ok c) (hverbatim : c.hasVerbatimAttributes = false)
    (hsignatures : c.SignaturesWellFormed)
    (hrun : (i.transformBytes bytes).run ds = (.ok (some result), ds'))
    (hlimits : ∀ d ds', (i.transform c).run ds = (.ok d, ds') → d.Writable) :
    ∃ c₁ f, Class.parse result = .ok c₁ ∧ placeholderClass ∉ c₁.names
      ∧ (i.expectPlatform c).run ds = (.ok f, ds')
      ∧ ((∀ b ∈ c₁.bootstrapMethods, placeholderClass ∉ b.names)
        ↔ f.mentions placeholderClass = true
          ∨ ∀ b ∈ c.bootstrapMethods, placeholderClass ∉ b.names) := by
  obtain ⟨ms, d, r, h⟩ := exists_transformed henabled hparse hrun hlimits
  have hremapped := h.remapped
  have hnames : placeholderClass ∉ d.names := hremapped.not_mem_names hidentifier
    (signaturesWellFormed_withMethods h.handled hsignatures)
  have hnone : d.hasVerbatimAttributes = false :=
    hremapped.hasVerbatimAttributes_eq.trans
      (hasVerbatimAttributes_withMethods h.handled hverbatim)
  have hnot {c₁ : Class} (hreread : d.Reread c₁) : placeholderClass ∉ c₁.names := by
    apply hreread.not_mem_names hnames
    simp [hnone]
  by_cases hclean : (c.withMethods ms).mentions placeholderClass = true
    ∨ ∀ b ∈ c.bootstrapMethods, placeholderClass ∉ b.names
  · obtain ⟨c₁, hparse₁, hreread, -, hadmits⟩ := Class.exists_reread
      (hremapped.rereadable h.readable hclean) h.pool h.limits h.bytes
    refine ⟨c₁, _, hparse₁, hnot hreread, h.run, ?_⟩
    exact iff_of_true (fun b hb => (hadmits b hb).2) hclean
  · -- nothing was renamed, so the table of the parsed class comes first in the new one
    obtain ⟨hmentions, htable⟩ := not_or.1 hclean
    cases hremapped with
    | renamed hmentioned => exact absurd hmentioned hmentions
    | same =>
      obtain ⟨c₁, hparse₁, hreread, hfront, -⟩ :=
        Class.exists_reread h.readable h.pool h.limits h.bytes
      refine ⟨c₁, _, hparse₁, hnot hreread, h.run, ?_⟩
      exact iff_of_false (fun hclean₁ => htable fun b hb => hclean₁ b (hfront.subset hb)) hclean

section Calling

/-- A class without attributes that are carried along, before its method is forwarded. -/
def callerClass (linker : BinaryName) : Class :=
  carryingClass .object linker [] [callerMethod linker]

/-- The class after that. -/
def calledClass (linker : BinaryName) (maxStack : Option UInt16) : Class :=
  carryingClass .object linker [] [calledMethod maxStack]

def callingFile (m : Stored.Member .method) (handle : ConstantIndex) : SmallFile :=
  carryingFile 4 handle [] [m]

variable {linker : BinaryName} {handle : ConstantIndex}

theorem fits_callingFile {m : Stored.Member .method} (hm : m.Fits) :
    (callingFile m handle).stored.Fits :=
  fits_carryingFile (List.forall_mem_singleton.2 hm) (Nat.le_add_left _ _) (Nat.zero_lt_succ _)
    nofun

theorem parse_callingFile {m : Method} {stored : Stored.Member .method}
    (hbootstraps : (⟨carryingConstants, [⟨handle, []⟩]⟩ : Resolver).bootstraps
      = .ok [carryingBootstrap linker])
    (hmethod : (⟨carryingConstants, [⟨handle, []⟩]⟩ : Resolver).method smallName stored = .ok m)
    (hfits : stored.Fits) :
    Class.parse (callingFile stored handle).stored.write
      = .ok (carryingClass .object linker [] [m]) :=
  parse_carryingFile className_carryingResolver.1 hbootstraps (.cons hmethod .nil) .nil nofun
    (fits_callingFile hfits)

theorem run_transform_callerClass : (fabricInjector.transform (callerClass linker)).run []
    = (.ok (calledClass linker none), []) := by
  -- whether the bootstrap method is one of the placeholder does not matter
  have hcalled : (calledClass placeholder none).mentions placeholderClass = false := by decide
  have hmentions : (calledClass linker none).mentions placeholderClass = false := hcalled
  have hremap : fabricInjector.remapPlaceholder (calledClass linker none)
      = .ok (calledClass linker none) := by
    unfold remapPlaceholder Class.remapPlaceholder
    rw [hmentions, Bool.and_false]
    rfl
  exact run_transform_of_remap run_expectPlatform_callerMethod hremap

section Lowered

variable (hlinker : PoolM.Finds carryingConstants (PoolM.bootstrapParts (carryingBootstrap linker))
  ⟨handle, []⟩)

include hlinker

theorem run_transformBytes_callingFile
    (hparse : Class.parse (callingFile callerMember handle).stored.write = .ok (callerClass linker)) :
    (fabricInjector.transformBytes (callingFile callerMember handle).stored.write).run []
      = (.ok (some (callingFile calledMember handle).stored.write), []) := by
  have hlower := run_calledClass finds_carryingParents.1 hlinker .nil
  refine run_transformBytes_of_transform rfl hparse run_transform_callerClass (fun heq => ?_)
    (Class.toBytes_of_run hlower)
  have hmethods := congrArg Class.methods heq
  have hcode := congrArg Method.code (List.head_eq_of_cons_eq hmethods)
  have hmaxStack := congrArg Code.maxStack (Option.some.inj hcode)
  cases hmaxStack

theorem writable_of_run_transform {d : Class} {ds' : List Diagnostic}
    (h : (fabricInjector.transform (callerClass linker)).run [] = (.ok d, ds')) : d.Writable := by
  rw [run_transform_callerClass] at h
  cases h
  exact writable_calledClass finds_carryingParents.1 hlinker .nil
    (fits_callingFile fits_calledMember)

end Lowered

theorem placeholder_of_callerFile :
    Class.parse (callingFile callerMember 15).stored.write = .ok (callerClass replacement)
      ∧ (callerClass replacement).hasVerbatimAttributes = false
      ∧ (fabricInjector.transformBytes (callingFile callerMember 15).stored.write).run []
        = (.ok (some (callingFile calledMember 15).stored.write), [])
      ∧ ∃ c₁ f, Class.parse (callingFile calledMember 15).stored.write = .ok c₁
        ∧ placeholderClass ∉ c₁.names
        ∧ (fabricInjector.expectPlatform (callerClass replacement)).run [] = (.ok f, [])
        ∧ ((∀ b ∈ c₁.bootstrapMethods, placeholderClass ∉ b.names)
          ↔ f.mentions placeholderClass = true
            ∨ ∀ b ∈ (callerClass replacement).bootstrapMethods, placeholderClass ∉ b.names) := by
  have hlinker := finds_carryingBootstraps.2
  have hparse := parse_callingFile bootstraps_carryingConstants.2
    (method_callerMember instruction_invokeDynamic.2) fits_callerMember
  have hrun := run_transformBytes_callingFile hlinker hparse
  have hverbatim : (callerClass replacement).hasVerbatimAttributes = false := rfl
  exact ⟨hparse, hverbatim, hrun, placeholder_of_transformBytes rfl identifier_fabricInjector hparse
    hverbatim (signaturesWellFormed_callerMethod _ _ _) hrun
    fun _ _ => writable_of_run_transform hlinker⟩

/-- A bootstrap method of the placeholder is left behind when the only call of it is forwarded. -/
theorem placeholder_retained_callerFile : fabricInjector.config.enabled = true
    ∧ (∀ text ∈ fabricInjector.overrides.uniqueIdentifier
      <|> fabricInjector.config.uniqueIdentifier,
        ∀ c ∈ text.toList, c ≠ '<' ∧ c ≠ '>' ∧ c ≠ ':')
    ∧ Class.parse (callingFile callerMember 13).stored.write = .ok (callerClass placeholder)
    ∧ (callerClass placeholder).hasVerbatimAttributes = false
    ∧ (callerClass placeholder).SignaturesWellFormed
    ∧ (fabricInjector.transformBytes (callingFile callerMember 13).stored.write).run []
      = (.ok (some (callingFile calledMember 13).stored.write), [])
    ∧ (∀ d ds', (fabricInjector.transform (callerClass placeholder)).run [] = (.ok d, ds') →
      d.Writable)
    ∧ Class.parse (callingFile calledMember 13).stored.write
      = .ok (calledClass placeholder (some 0))
    ∧ ∃ b ∈ (calledClass placeholder (some 0)).bootstrapMethods, placeholderClass ∈ b.names := by
  have hlinker := finds_carryingBootstraps.1
  have hparse := parse_callingFile bootstraps_carryingConstants.1
    (method_callerMember instruction_invokeDynamic.1) fits_callerMember
  have hparse' := parse_callingFile bootstraps_carryingConstants.1
    (method_calledMember instruction_invokeStatic.1) fits_calledMember
  exact ⟨rfl, identifier_fabricInjector, hparse, rfl, signaturesWellFormed_callerMethod _ _ _,
    run_transformBytes_callingFile hlinker hparse, fun _ _ => writable_of_run_transform hlinker,
    hparse', carryingBootstrap placeholder, List.mem_singleton_self _, by decide⟩

end Calling

end Injector

end ClassPatch
