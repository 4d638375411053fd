import ClassPatch.Proofs.Class.Offsets
import ClassPatch.Proofs.Inject.Indices
import ClassPatch.Proofs.Lift.Straight

/-!
Offsets within attributes that are carried along with code. Code that a transformation leaves alone
is written again, and its instructions stay where they are if they were in their shortest form.
-/

namespace ClassPatch

namespace Injector

variable {i : Injector} {c d f : Class} {ds ds' : List Diagnostic}

theorem Remapped.exists_code (h : i.Remapped f d) (hverbatim : f.hasVerbatimAttributes = true)
    {j : Nat} {m : Method} {code : Code} (hm : f.methods[j]? = some m) (hcode : m.code = some code) :
    d.constantPool = f.constantPool ∧ ∃ m' code', d.methods[j]? = some m' ∧ m'.code = some code'
      ∧ ∀ elements, List.Forall₂ ElementShaped code'.elements elements →
        List.Forall₂ ElementShaped code.elements elements := by
  cases h with
  | same => exact ⟨rfl, m, code, hm, hcode, fun _ h => h⟩
  | @renamed target _ _ =>
    let r : Renaming := .single placeholderClass target
    refine ⟨(Class.rename_of_hasVerbatimAttributes r hverbatim).1, m.rename r, code.rename r, ?_, ?_,
      fun elements h => ?_⟩
    · change (f.methods.map (·.rename r))[j]? = _
      rw [List.getElem?_map, hm]
      rfl
    · change m.code.map (·.rename r) = _
      rw [hcode]
      rfl
    · exact (List.forall₂_map_left_iff.1 h).imp fun _ _ => ElementShaped.of_rename

/--
Where new bytes are those of a class with code that is left alone and carries an attribute along, and
every instruction of this code was in its shortest form, the instructions start and end where they
did exactly if loads of constants keep their width.
-/
theorem offsets_of_transformBytes {bytes result : Bytes} {file : Stored.ClassFile}
    (henabled : i.config.enabled = true) (hfile : Stored.ClassFile.parse bytes = .ok file)
    (hparse : Class.parse bytes = .ok c)
    (hrun : (i.transformBytes bytes).run ds = (.ok (some result), ds'))
    (hforward : (i.expectPlatform c).run ds = (.ok f, ds')) {j : Nat} {m m' : Method} {code : Code}
    (hm : c.methods[j]? = some m) (hm' : f.methods[j]? = some m') (hcode : m.code = some code)
    (hkept : m'.code = some code) (hverbatim : code.attributes ≠ [])
    {stored : Stored.Member .method} {x : Stored.Code} {decoded : List (Nat × Decoded)}
    (hstored : file.methods[j]? = some stored) (hx : file.code? stored = .ok (some x))
    (hdecoded : decodeCode x.code = .ok decoded) (htight : Tight x.code.length decoded) :
    ∃ (d : Class) (file₁ : Stored.ClassFile) (stored₁ : Stored.Member .method) (x₁ : Stored.Code)
        (decoded₁ : List (Nat × Decoded)), (i.transform c).run ds = (.ok d, ds')
      ∧ d.toClassFile = .ok file₁ ∧ result = file₁.write ∧ file₁.methods[j]? = some stored₁
      ∧ file₁.HoldsCode stored₁ x₁ ∧ decodeCode x₁.code = .ok decoded₁
      ∧ (LoadsStay decoded decoded₁ ↔ boundaryOffsets decoded₁ x₁.code.length
        = boundaryOffsets decoded x.code.length) := by
  obtain ⟨d, htransform, hbytes⟩ := transform_of_transformBytes hparse hrun
  obtain ⟨f', hforward', hremapped⟩ := remapped_of_transform henabled htransform
  rw [hforward] at hforward'
  cases hforward'
  have hdense := (Stored.ClassFile.of_parse hfile).2
  rw [Class.parse, hfile, ok_bind] at hparse
  obtain ⟨r, hlifted⟩ := Class.lifted_of_ofClassFile hparse
  obtain ⟨-, hpool, -⟩ := expectPlatform_keeps hforward
  have hcarries : f.hasVerbatimAttributes = true := by
    have hmethods : f.methods.any
        (fun m => !m.attributes.isEmpty || m.code.any (!·.attributes.isEmpty)) = true := by
      refine List.any_eq_true.2 ⟨m', List.mem_of_getElem? hm', ?_⟩
      rw [hkept, Option.any_some, List.isEmpty_eq_false_iff.2 hverbatim, Bool.not_false,
        Bool.or_true]
    unfold Class.hasVerbatimAttributes
    rw [hmethods, Bool.or_true, Bool.true_or]
  obtain ⟨hkeeps, m₁, code₁, hm₁, hcode₁, hshaped⟩ := hremapped.exists_code hcarries hm' hkept
  rw [hpool, hlifted.constantPool] at hkeeps
  obtain ⟨file₁, q, hlower, rfl⟩ := Class.toBytes_eq_ok hbytes
  obtain ⟨stored₁, x₁, elements, a, _, _, _, hstored₁, hholds, -, -, helements, hassemble, hx₁⟩ :=
    Class.exists_code_of_toClassFile hkeeps hdense (Stored.ClassFile.exists_utf8_of_code? hx)
      (congrArg Prod.fst hlower) hm₁ hcode₁
  obtain ⟨stored', x', p, hstored', hx', hp⟩ := hlifted.exists_codeLifted hm hcode
  rw [hstored] at hstored'
  cases hstored'
  rw [hx] at hx'
  cases hx'
  have hpdecoded := hp.decoded
  rw [hdecoded] at hpdecoded
  cases hpdecoded
  rw [← hp.codeLength] at htight ⊢
  have hlaid := hp.bodyLaid (hshaped _ (ElementShaped.forall₂_of_run helements))
  obtain ⟨decoded₁, hdecoded₁, hoffsets⟩ := hlaid.exists_boundaries_eq_iff hp.contiguous
    hp.decodedFrom hp.atBoundaries htight hassemble
  rw [← hx₁] at hdecoded₁ hoffsets
  exact ⟨d, file₁, stored₁, x₁, decoded₁, htransform, congrArg Prod.fst hlower, rfl, hstored₁,
    hholds, hdecoded₁, hoffsets⟩

section Carried

open PoolM (Finds)

/-- A method whose code carries an attribute along. -/
def offsetMethod (elements : List BodyElement) : Method :=
  codeMethod ⟨"f", isName_f⟩ {}
    { elements, maxStack := some 1, maxLocals := some 1, attributes := [⟨"X", []⟩] }

def offsetClass (elements : List BodyElement) (parent : BinaryName) : Class :=
  smallClass .java8 carryingConstants parent [offsetMethod elements] [] []

def offsetCode (code : Bytes) : Stored.Code where
  maxStack := 1
  maxLocals := 1
  code := code
  exceptionTable := []
  attributes := [⟨25, []⟩]

def offsetMember (code : Bytes) : Stored.Member .method := codeMember 9 10 20 (offsetCode code) []

/-- The class file of the class, with the index of its parent. -/
def offsetFile (code : Bytes) (parent : ConstantIndex) : SmallFile where
  constants := carryingConstants
  superClass := parent
  methods := [offsetMember code]

variable {code : Bytes} {elements : List BodyElement} {a : AssembledCode}

theorem run_offsetClass (hlayout : Finds carryingConstants (PoolM.layout elements) a) :
    (PoolM.classFile (offsetClass elements replacement)).run
        (offsetClass elements replacement).initialPool
      = (.ok (offsetFile a.bytes 8).stored, .ofTable carryingConstants) := by
  have hcode : Finds carryingConstants (PoolM.code (codeContext ⟨"f", isName_f⟩)
      { elements, maxStack := some 1, maxLocals := some 1, attributes := [⟨"X", []⟩] })
      (offsetCode a.bytes) :=
    .code_of_layout hlayout (.inl rfl) (.cons (.verbatim (by decide)) .nil)
  have hmethod : Finds carryingConstants (PoolM.method smallName (offsetMethod elements))
      (offsetMember a.bytes) :=
    .method_codeMember (by decide) (by decide) (by decide) hcode .annotationAttributes_empty
  exact SmallFile.run_smallClass_nil (f := offsetFile a.bytes 8) finds_carryingName
    finds_carryingParents.2 (.cons hmethod .nil) .nil rfl

theorem fits_offsetCode (h : code.length < 2 ^ 31) : (offsetCode code).Fits :=
  ⟨Nat.lt_trans h (by decide), Nat.zero_le _, nofun, Nat.le_add_left _ _,
    List.forall_mem_singleton.2 (Nat.two_pow_pos 32)⟩

theorem fits_offsetFile (h : code.length < 2 ^ 31) (parent : ConstantIndex) :
    (offsetFile code parent).stored.Fits := by
  have hlength : (offsetCode code).write.length = code.length + 12 + 6 :=
    Stored.Code.length_write rfl
  have hmember : (offsetMember code).Fits :=
    Stored.fits_codeMember (by omega) (Nat.zero_lt_succ _) nofun
  exact SmallFile.fits_stored (Nat.le_add_left _ _) (List.forall_mem_singleton.2 hmember)
    (Nat.zero_lt_succ _) nofun nofun

theorem storedParse_offsetFile (h : code.length < 2 ^ 31) :
    Stored.ClassFile.parse (offsetFile code 6).stored.write = .ok (offsetFile code 6).stored :=
  Stored.ClassFile.parse_write (fits_offsetFile h 6) fits_carryingConstants nofun

theorem code?_offsetFile (h : code.length < 2 ^ 31) (parent : ConstantIndex) :
    (offsetFile code parent).stored.code? (offsetMember code) = .ok (some (offsetCode code)) :=
  SmallFile.code?_stored (fits_offsetCode h) names_carryingResolver.2.2

theorem parse_offsetFile {decoded : List (Nat × Decoded)} (hlength : code.length < 2 ^ 31)
    (hdecoded : decodeCode code = .ok decoded)
    (helements : List.Forall₂ (fun d e => LiftedStraight carryingResolver d.2 e) decoded elements) :
    Class.parse (offsetFile code 6).stored.write = .ok (offsetClass elements placeholder) := by
  obtain ⟨hname, hdescriptor, hcode⟩ := names_carryingResolver
  have hmethod : carryingResolver.method smallName (offsetMember code)
      = .ok (offsetMethod elements) := by
    obtain ⟨p, hlifted⟩ := exists_codeLifted_of_straight (x := offsetCode code) _ hdecoded helements
      rfl (.cons carries_carryingResolver .nil) (by decide)
    exact Resolver.method_codeMember hname hdescriptor hcode (fits_offsetCode hlength) rfl hlifted
  have hparts : (offsetFile code 6).Lifted placeholder [offsetMethod elements] [] [] :=
    ⟨className_smallName, className_carryingResolver.2.1, .cons hmethod .nil, nofun, .nil,
      fun h => absurd rfl h, Nat.zero_le _, nofun, rfl⟩
  exact hparts.parse fits_carryingConstants (fits_offsetFile hlength 6)

theorem run_transform_offsetClass
    (hremap : carryingInjector.remapPlaceholder (offsetClass elements placeholder)
      = .ok (offsetClass elements replacement)) :
    (carryingInjector.transform (offsetClass elements placeholder)).run []
      = (.ok (offsetClass elements replacement), []) :=
  run_transform_of_remap rfl hremap

theorem run_transformBytes_offsetFile
    (hparse : Class.parse (offsetFile code 6).stored.write = .ok (offsetClass elements placeholder))
    (hremap : carryingInjector.remapPlaceholder (offsetClass elements placeholder)
      = .ok (offsetClass elements replacement))
    (hlayout : Finds carryingConstants (PoolM.layout elements) a) :
    (carryingInjector.transformBytes (offsetFile code 6).stored.write).run []
      = (.ok (some (offsetFile a.bytes 8).stored.write), []) := by
  exact run_transformBytes_of_transform rfl hparse (run_transform_offsetClass hremap)
    (fun heq => placeholder_ne_replacement (congrArg Class.superName heq))
    (Class.toBytes_of_run (run_offsetClass hlayout))

/-- A load with a prefix that it does not need, before two more instructions. -/
def prefixedCode : Bytes := [0xC4, 0x15, 0x00, 0x00, 0x57, 0xB1]

def prefixedElements : List BodyElement :=
  [.instruction (.load .int 0), .instruction (.plain .pop), .branch .voidReturn]

theorem finds_prefixedElements : Finds carryingConstants (PoolM.layout prefixedElements)
    ⟨[0x1A, 0x57, 0xB1], ∅⟩ := by
  let laid : List LayoutElement :=
    [.instruction (.load .int 0), .instruction (.plain .pop), .branch .voidReturn]
  have hnear : widenOnce laid = .ok laid := rfl
  have hassemble : assemble laid = .ok ⟨[0x1A, 0x57, 0xB1], ∅⟩ :=
    assemble_of_widenOnce hnear (by decide) (.cons rfl (.cons rfl (.cons rfl .nil)))
  exact (Finds.mapM (.cons (.pure _) (.cons (.pure _) (.cons (.pure _) .nil)))).bind
    (.lift hassemble)

theorem parse_prefixedCode : Class.parse (offsetFile prefixedCode 6).stored.write
    = .ok (offsetClass prefixedElements placeholder) := by
  have hdecoded : decodeCode prefixedCode = .ok [(0, .instruction (.load .int 0)),
      (4, .instruction (.plain .pop)), (5, .branch .voidReturn)] :=
    eq_ok_of_toOption (by decide)
  exact parse_offsetFile (by decide) hdecoded
    (.cons (.instruction rfl) (.cons (.instruction rfl) (.cons .voidReturn .nil)))

theorem run_prefixedCode :
    (carryingInjector.transformBytes (offsetFile prefixedCode 6).stored.write).run []
      = (.ok (some (offsetFile [0x1A, 0x57, 0xB1] 8).stored.write), []) := by
  have hremap : carryingInjector.remapPlaceholder (offsetClass prefixedElements placeholder)
      = .ok (offsetClass prefixedElements replacement) :=
    eq_ok_of_toOption (by decide)
  have hrun := run_transformBytes_offsetFile parse_prefixedCode hremap finds_prefixedElements
  exact hrun

/-- Instructions behind the prefix start earlier in the new code. -/
theorem offsets_prefixedCode : carryingInjector.config.enabled = true
    ∧ Stored.ClassFile.parse (offsetFile prefixedCode 6).stored.write
      = .ok (offsetFile prefixedCode 6).stored
    ∧ (carryingInjector.transformBytes (offsetFile prefixedCode 6).stored.write).run []
      = (.ok (some (offsetFile [0x1A, 0x57, 0xB1] 8).stored.write), [])
    ∧ (carryingInjector.expectPlatform (offsetClass prefixedElements placeholder)).run []
      = (.ok (offsetClass prefixedElements placeholder), [])
    ∧ (offsetFile prefixedCode 6).stored.code? (offsetMember prefixedCode)
      = .ok (some (offsetCode prefixedCode))
    ∧ (offsetCode prefixedCode).attributes ≠ []
    ∧ (offsetFile [0x1A, 0x57, 0xB1] 8).stored.code? (offsetMember [0x1A, 0x57, 0xB1])
      = .ok (some (offsetCode [0x1A, 0x57, 0xB1]))
    ∧ (decodeCode prefixedCode).map (List.map (·.1)) = .ok [0, 4, 5]
    ∧ (decodeCode [0x1A, 0x57, 0xB1]).map (List.map (·.1)) = .ok [0, 1, 2] := by
  have hoffsets : (decodeCode prefixedCode).map (List.map (·.1)) = .ok [0, 4, 5] :=
    eq_ok_of_toOption (by decide)
  have hoffsets' : (decodeCode [0x1A, 0x57, 0xB1]).map (List.map (·.1)) = .ok [0, 1, 2] :=
    eq_ok_of_toOption (by decide)
  exact ⟨rfl, storedParse_offsetFile (by decide), run_prefixedCode, rfl,
    code?_offsetFile (by decide) 6, nofun, code?_offsetFile (by decide) 8, hoffsets, hoffsets'⟩

/-- A load of a constant, before two more instructions. -/
def loadingCode : Bytes := [0x12, 0x1A, 0x57, 0xB1]

def loadingDecoded : List (Nat × Decoded) :=
  [(0, .instruction (.ldc 26)), (2, .instruction (.plain .pop)), (3, .branch .voidReturn)]

def loadingElements : List BodyElement :=
  [.instruction (.ldc (.static (.integer 7))), .instruction (.plain .pop), .branch .voidReturn]

theorem finds_loadingElements : Finds carryingConstants (PoolM.layout loadingElements)
    ⟨loadingCode, ∅⟩ := by
  let laid : List LayoutElement :=
    [.instruction (.ldc 26), .instruction (.plain .pop), .branch .voidReturn]
  have hnear : widenOnce laid = .ok laid := rfl
  have hassemble : assemble laid = .ok ⟨loadingCode, ∅⟩ :=
    assemble_of_widenOnce hnear (by decide) (.cons rfl (.cons rfl (.cons rfl .nil)))
  have hloadable : Finds carryingConstants (PoolM.loadable (.static (.integer 7))) 26 := by
    unfold PoolM.loadable
    exact .constant (by decide)
  have hload : Finds carryingConstants (PoolM.instruction (.ldc (.static (.integer 7))))
      (.ldc 26) := hloadable.bind (.pure _)
  have helement : Finds carryingConstants
      (PoolM.layoutElement (.instruction (.ldc (.static (.integer 7))))) (.instruction (.ldc 26)) :=
    hload.bind (.pure _)
  exact (Finds.mapM (.cons helement (.cons (.pure _) (.cons (.pure _) .nil)))).bind
    (.lift hassemble)

theorem decodeCode_loadingCode : decodeCode loadingCode = .ok loadingDecoded :=
  eq_ok_of_toOption (by decide)

theorem parse_loadingCode : Class.parse (offsetFile loadingCode 6).stored.write
    = .ok (offsetClass loadingElements placeholder) := by
  have hload : carryingResolver.instruction (.ldc 26) = .ok (.ldc (.static (.integer 7))) :=
    eq_ok_of_toOption (by decide +kernel)
  exact parse_offsetFile (by decide) decodeCode_loadingCode
    (.cons (.instruction hload) (.cons (.instruction rfl) (.cons .voidReturn .nil)))

theorem remapPlaceholder_loadingElements :
    carryingInjector.remapPlaceholder (offsetClass loadingElements placeholder)
      = .ok (offsetClass loadingElements replacement) :=
  eq_ok_of_toOption (by decide)

/-- The constant stays at a low index, so the code is written again with the boundaries it had. -/
theorem offsets_loadingCode :
    (carryingInjector.transformBytes (offsetFile loadingCode 6).stored.write).run []
        = (.ok (some (offsetFile loadingCode 8).stored.write), [])
      ∧ ∃ (d : Class) (file₁ : Stored.ClassFile) (stored₁ : Stored.Member .method)
          (x₁ : Stored.Code) (decoded₁ : List (Nat × Decoded)),
        (carryingInjector.transform (offsetClass loadingElements placeholder)).run [] = (.ok d, [])
        ∧ d.toClassFile = .ok file₁ ∧ (offsetFile loadingCode 8).stored.write = file₁.write
        ∧ file₁.methods[0]? = some stored₁ ∧ file₁.HoldsCode stored₁ x₁
        ∧ decodeCode x₁.code = .ok decoded₁ ∧ LoadsStay loadingDecoded decoded₁
        ∧ boundaryOffsets decoded₁ x₁.code.length = [0, 2, 3, 4] := by
  have htight : Tight 4 loadingDecoded := by decide
  have hrun := run_transformBytes_offsetFile parse_loadingCode remapPlaceholder_loadingElements
    finds_loadingElements
  obtain ⟨d, file₁, stored₁, x₁, decoded₁, htransform, hfile₁, hwrite, hstored₁, hholds, hdecoded₁,
    hiff⟩ := offsets_of_transformBytes (j := 0) rfl (storedParse_offsetFile (by decide))
      parse_loadingCode hrun rfl rfl rfl rfl rfl nofun rfl (code?_offsetFile (by decide) 6)
      decodeCode_loadingCode htight
  -- the code that is held is the one that the class was lowered to
  have hcode : x₁.code = loadingCode := by
    rw [run_transform_offsetClass remapPlaceholder_loadingElements] at htransform
    cases htransform
    rw [Class.toClassFile, run_offsetClass finds_loadingElements] at hfile₁
    cases hfile₁
    cases hstored₁
    obtain ⟨a, ha, -, hinfo⟩ := hholds
    rw [List.mem_singleton.1 ha] at hinfo
    exact Stored.Code.code_eq_of_write_eq hinfo.symm (by decide)
  have hstays : LoadsStay loadingDecoded decoded₁ := by
    rw [hcode, decodeCode_loadingCode] at hdecoded₁
    cases hdecoded₁
    intro i o o' k k' hk hk'
    cases hk.symm.trans hk'
    exact Iff.rfl
  exact ⟨hrun, d, file₁, stored₁, x₁, decoded₁, htransform, hfile₁, hwrite, hstored₁, hholds,
    hdecoded₁, hstays, hiff.1 hstays⟩

end Carried

end Injector

end ClassPatch
