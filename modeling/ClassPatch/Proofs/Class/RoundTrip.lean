import ClassPatch.Proofs.Class.Small
import ClassPatch.Proofs.Code.RoundTrip
import ClassPatch.Proofs.Lift.Again

/-!
Parsing, writing and parsing again. What a class is written as is parsed as the same class, up to
the form of branches and what was added behind its constants and bootstrap methods, if nothing of it
has become too large.
-/

namespace ClassPatch.Class

variable {bytes written : Bytes} {c : Class}

theorem constantsWellFormed_of_lifted {file : Stored.ClassFile} {r : Resolver}
    (h : ClassLifted file r c) (hfile : file.Fits) :
    (∀ f ∈ c.fields, f.ConstantsWellFormed r.Admits)
      ∧ ∀ m ∈ c.methods, m.ConstantsWellFormed r.Admits := by
  refine ⟨fun f hf => (h.fields_storable hfile f hf).1.constants, ?_⟩
  intro m hm code hcode
  obtain ⟨-, -, hlifted⟩ := h.methods_storable hfile m hm
  obtain ⟨y, hy, hycode⟩ := hlifted code hcode
  exact (Code.storable_of_code h.argumentsFit hy hycode).constants

theorem exists_lowering (hparse : parse bytes = .ok c) (hbytes : c.toBytes = .ok written)
    (hfit : c.LengthsFit) :
    ∃ (file₀ file : Stored.ClassFile) (r : Resolver) (p : Pool)
      (zero : p.constants.get? 0 = none), ClassLifted file₀ r c ∧ file₀.Fits
        ∧ (PoolM.classFile c).run c.initialPool = (.ok file, p)
        ∧ ClassLowering True r.Admits c file p zero ∧ ContentFits file p
        ∧ Stored.ClassFile.parse written = .ok file := by
  obtain ⟨file₀, r, hfile₀, hdense, h₀⟩ := lifted_of_parse hparse
  obtain ⟨file, p, hrun, rfl⟩ := toBytes_eq_ok hbytes
  have hcontent := hfit.lowered file p hrun
  have hpool : c.PoolFits := by
    intro t ht
    refine ⟨?_, hfit.pool t ht⟩
    rw [h₀.constantPool] at ht
    rw [← Option.mem_some.1 ht]
    exact hdense
  obtain ⟨hfields, hmethods⟩ := constantsWellFormed_of_lifted h₀ hfile₀
  obtain ⟨zero, h⟩ := classLowering_of_run hpool h₀.bootstrapMethods_wellFormed
    h₀.length_bootstrapMethods_le (fun _ => hfields) (fun _ => hmethods) hrun hcontent.bootstraps
  exact ⟨file₀, file, r, p, zero, h₀, hfile₀, hrun, h, hcontent,
    h.parse_write hpool (h.fileFits h₀ hfile₀ hcontent)⟩

/-- Writing a class that was parsed, and parsing it again, loses nothing. -/
theorem exists_rewritten_of_toBytes (hparse : parse bytes = .ok c)
    (hbytes : c.toBytes = .ok written) (hfit : c.LengthsFit) :
    ∃ d, parse written = .ok d ∧ c.Rewritten d := by
  obtain ⟨file₀, file, r, p, zero, h₀, hfile₀, -, h, hcontent, hwritten⟩ :=
    exists_lowering hparse hbytes hfit
  obtain ⟨d, hd, hrewritten, -⟩ := h.exists_lifted h₀ hfile₀ hfit hcontent
  exact ⟨d, (bind_of_eq_ok hwritten _).trans (ofClassFile_of_lifted hd), hrewritten⟩

theorem lengthsFit_smallClass {version : Version} {constants : ConstantTable} {parent : BinaryName}
    {methods : List Method} {carried : List VerbatimAttribute}
    {bootstrapMethods : List BootstrapMethod} {f : SmallFile} {p : Pool}
    (hmethods : ∀ m ∈ methods, m.TablesFit) (hnext : constants.next ≤ 0xFFFF)
    (htexts : ∀ k ∈ f.constants.elements, k.Fits) (hfile : f.stored.Fits)
    (hsize : p.bootstrapMethods.size ≤ 0xFFFF)
    (hrun : (PoolM.classFile (smallClass version constants parent methods carried
      bootstrapMethods)).run (smallClass version constants parent methods carried
        bootstrapMethods).initialPool = (.ok f.stored, p)) :
    (smallClass version constants parent methods carried bootstrapMethods).LengthsFit := by
  refine ⟨hmethods, Nat.zero_le _, fun t ht => ?_, fun file q hrun' => ?_⟩
  · rw [← Option.mem_some.1 ht]
    exact hnext
  · rw [hrun] at hrun'
    cases hrun'
    exact ⟨htexts, hsize, nofun, fun m hm => (hfile.methods m hm).infos, hfile.infos⟩

section Guarded

open PoolM (Finds)

/-- Constants of a class `A` with a method `m`, whose parent is `B`, for guarded code in it. -/
def guardedConstants : ConstantTable := .ofList 1
  [.utf8 "A", .classRef 1, .utf8 "B", .classRef 3, .utf8 "m", .utf8 "()V", .utf8 "Code",
    .utf8 "LineNumberTable", .utf8 "StackMapTable", .utf8 "X"]

/-- A class with guarded code, and with an attribute that is carried along. -/
def guardedClass : Class :=
  smallClass .java8 guardedConstants ⟨"B", isName_B⟩ [codeMethod ⟨"m", isName_m⟩ {} guardedBody]
    [⟨"X", [1]⟩] []

def guardedFile (load : Bytes) : SmallFile where
  constants := guardedConstants
  methods := [codeMember 5 6 7 (guardedCode load 8 9) []]
  carried := [⟨10, [1]⟩]

theorem fits_guardedFile {load : Bytes} (hload : (guardedCode load 8 9).write.length < 2 ^ 32) :
    (guardedFile load).stored.Fits := by
  have hmember : (codeMember 5 6 7 (guardedCode load 8 9) []).Fits :=
    Stored.fits_codeMember hload (Nat.zero_lt_succ _) nofun
  have hinfo : [1].length < 2 ^ 32 := by decide
  exact SmallFile.fits_stored (Nat.le_add_left _ _) (List.forall_mem_singleton.2 hmember)
    (Nat.le_add_left _ _) (List.forall_mem_singleton.2 hinfo) nofun

theorem fits_guardedConstants : guardedConstants.Fits where
  dense := ConstantTable.dense_append _
  next_le := by decide
  constants := by decide

theorem parse_guardedFile : parse (guardedFile wideLoad).stored.write = .ok guardedClass := by
  let r := (guardedFile wideLoad).resolver
  have hname : r.unqualifiedName 5 = .ok ⟨"m", isName_m⟩ := eq_ok_of_toOption (by decide +kernel)
  have hdescriptor : r.methodDescriptor 6 = .ok ⟨[], none⟩ := eq_ok_of_toOption (by decide +kernel)
  have hcode : r.utf8 7 = .ok "Code" := eq_ok_of_toOption (by decide +kernel)
  have hlines : r.utf8 8 = .ok "LineNumberTable" := eq_ok_of_toOption (by decide +kernel)
  have hframes : r.utf8 9 = .ok "StackMapTable" := eq_ok_of_toOption (by decide +kernel)
  have hfits : (guardedCode wideLoad 8 9).Fits :=
    ⟨by decide, by decide, by decide, by decide, by decide⟩
  have hlifted : CodeLifted r (codeContext ⟨"m", isName_m⟩) (guardedCode wideLoad 8 9) guardedParts
      guardedBody :=
    codeLifted_guardedCode hlines hframes (by decide) rfl
  have hparts : (guardedFile wideLoad).Lifted ⟨"B", isName_B⟩
      [codeMethod ⟨"m", isName_m⟩ {} guardedBody] [⟨"X", [1]⟩] [] := {
    name := eq_ok_of_toOption (by decide +kernel)
    parent := eq_ok_of_toOption (by decide +kernel)
    methods := .cons (Resolver.method_codeMember hname hdescriptor hcode hfits rfl hlifted) .nil
    names := by decide
    carried := .cons ⟨eq_ok_of_toOption (by decide +kernel), rfl⟩ .nil
    table := fun h => absurd rfl h
    length := Nat.zero_le _
    arguments := nofun
    bootstrapMethods := rfl }
  exact hparts.parse fits_guardedConstants (fits_guardedFile (by decide))

theorem run_guardedClass : (PoolM.classFile guardedClass).run guardedClass.initialPool
    = (.ok (guardedFile [0x1A]).stored, .ofTable guardedConstants) := by
  have hname : Finds guardedConstants (PoolM.className smallName) 2 :=
    .className (i := 1) (by decide) (by decide)
  have hparent : Finds guardedConstants (PoolM.className ⟨"B", isName_B⟩) 4 :=
    .className (i := 3) (by decide) (by decide)
  have hmethod : Finds guardedConstants
      (PoolM.method smallName (codeMethod ⟨"m", isName_m⟩ {} guardedBody))
      (codeMember 5 6 7 (guardedCode [0x1A] 8 9) []) :=
    .method_codeMember (by decide) (by decide) (by decide)
      (finds_guardedBody (by decide) (by decide) (by decide) rfl) .annotationAttributes_empty
  exact SmallFile.run_smallClass_nil (f := guardedFile [0x1A]) hname hparent (.cons hmethod .nil)
    (.cons (.verbatim (by decide)) .nil) rfl

theorem toBytes_guardedClass : guardedClass.toBytes = .ok (guardedFile [0x1A]).stored.write :=
  toBytes_of_run run_guardedClass

theorem lengthsFit_guardedClass : guardedClass.LengthsFit := by
  refine lengthsFit_smallClass ?_ (by decide) (by decide) (fits_guardedFile (by decide)) (by decide)
    run_guardedClass
  refine List.forall_mem_singleton.2 fun c hc => ?_
  rw [← Option.mem_some.1 hc]
  exact ⟨by decide, by decide, by decide⟩

theorem exists_rewritten_of_guardedFile :
    parse (guardedFile wideLoad).stored.write = .ok guardedClass
      ∧ guardedClass.toBytes = .ok (guardedFile [0x1A]).stored.write
      ∧ ∃ d, parse (guardedFile [0x1A]).stored.write = .ok d ∧ guardedClass.Rewritten d :=
  ⟨parse_guardedFile, toBytes_guardedClass,
    exists_rewritten_of_toBytes parse_guardedFile toBytes_guardedClass lengthsFit_guardedClass⟩

end Guarded

/--
What a class is written as is a class file again, the one that it was lowered to, and describes a
class, if nothing of it is larger than its length field can hold.
-/
theorem exists_parsed_of_lengthsFit (hparse : parse bytes = .ok c)
    (hbytes : c.toBytes = .ok written) (hfit : c.LengthsFit) :
    ∃ file d, c.toClassFile = .ok file ∧ Stored.ClassFile.parse written = .ok file
      ∧ parse written = .ok d := by
  obtain ⟨file₀, file, r, p, zero, h₀, hfile₀, hrun, h, hcontent, hwritten⟩ :=
    exists_lowering hparse hbytes hfit
  obtain ⟨d, hd, -⟩ := h.exists_lifted h₀ hfile₀ hfit hcontent
  exact ⟨file, d, congrArg Prod.fst hrun, hwritten,
    (bind_of_eq_ok hwritten _).trans (ofClassFile_of_lifted hd)⟩

theorem exists_parsed_of_guardedFile :
    ∃ file d, guardedClass.toClassFile = .ok file
      ∧ Stored.ClassFile.parse (guardedFile [0x1A]).stored.write = .ok file
      ∧ parse (guardedFile [0x1A]).stored.write = .ok d :=
  exists_parsed_of_lengthsFit parse_guardedFile toBytes_guardedClass lengthsFit_guardedClass

section LongText

/-- Constants of a class `A` whose parent is `B`. -/
def namedConstants : List Constant := [.utf8 "A", .classRef 1, .utf8 "B", .classRef 3]

/-- Those constants with any text behind them. -/
def constantsWithText (text : String) : ConstantTable :=
  ConstantTable.empty.append (namedConstants ++ [.utf8 text])

def classWithText (text : String) : Class :=
  smallClass .java8 (constantsWithText text) ⟨"B", isName_B⟩ [] [] []

def fileWithText (text : String) : SmallFile where
  constants := constantsWithText text

/-- A constant of text, in whatever encoding. -/
def rawText (raw : Bytes) : Bytes :=
  Writer.u8 1 ++ (Writer.u16 (UInt16.ofNat raw.length) ++ raw)

/-- The bytes of the constants, with a text in whatever encoding. -/
def rawConstants (raw : Bytes) : Bytes :=
  Writer.u16 6 ++ (namedConstants.flatMap Constant.write ++ rawText raw)

/-- The bytes of what follows the constants of such a class. -/
def classBytes : Bytes := [0, 0x20, 0, 2, 0, 4, 0, 0, 0, 0, 0, 0, 0, 0]

def bytesWithText (raw : Bytes) : Bytes :=
  Writer.u32 Stored.ClassFile.magic ++ (Version.java8.write ++ (rawConstants raw ++ classBytes))

theorem write_fileWithText (text : String) :
    (fileWithText text).stored.write = bytesWithText (ModifiedUtf8.encode text) := by
  have htext : Constant.write (.utf8 text) = rawText (ModifiedUtf8.encode text) :=
    List.append_assoc _ _ _
  have helements : (constantsWithText text).elements = namedConstants ++ [.utf8 text] :=
    SlotTable.elements_append _ _
  have hnext : (constantsWithText text).next = 6 := rfl
  unfold Stored.ClassFile.write SmallFile.stored fileWithText ConstantTable.write
  dsimp only
  rw [helements, hnext, List.flatMap_append, List.flatMap_singleton, htext]
  simp only [bytesWithText, rawConstants, List.append_assoc]
  rfl

theorem reads_rawText {raw : Bytes} (h : raw.length ≤ 0xFFFF) :
    Reader.Reads Constant.read (rawText raw) (.utf8 (ModifiedUtf8.decode raw)) := by
  refine (Reader.reads_u8 _).bind ?_
  refine (Reader.reads_u16 _).bind ?_
  rw [UInt16.toNat_ofNat', Nat.mod_eq_of_lt (by omega)]
  exact (Reader.reads_bytes raw).bind_pure fun bs => Constant.utf8 (ModifiedUtf8.decode bs)

theorem reads_rawConstants {raw : Bytes} (h : raw.length ≤ 0xFFFF) :
    Reader.Reads ConstantTable.read (rawConstants raw)
      (constantsWithText (ModifiedUtf8.decode raw)) := by
  have hnamed : ∀ c ∈ namedConstants, c.Fits := by decide
  have hparts : List.Forall₂ (fun c bytes => Reader.Reads Constant.read bytes c) namedConstants
      (namedConstants.map Constant.write) :=
    List.forall₂_map_right_iff.2 (List.forall₂_same.2 fun c hc => Constant.reads (hnamed c hc))
  have hread := ConstantTable.reads_readFrom ConstantTable.empty
    (List.rel_append hparts (.cons (reads_rawText h) .nil))
  rw [List.flatten_append, ← List.flatMap_def, List.flatten_singleton] at hread
  exact (Reader.reads_u16 6).bind hread

theorem storedParse_bytesWithText {raw : Bytes} (h : raw.length ≤ 0xFFFF) :
    Stored.ClassFile.parse (bytesWithText raw)
      = .ok (fileWithText (ModifiedUtf8.decode raw)).stored := by
  have hread : Reader.Reads Stored.ClassFile.read (bytesWithText raw)
      (fileWithText (ModifiedUtf8.decode raw)).stored := by
    unfold bytesWithText Stored.ClassFile.read
    refine (Reader.reads_u32 _).bind ?_
    rw [if_neg (by simp)]
    refine (Version.reads _).bind ?_
    refine (reads_rawConstants h).bind ?_
    intro rest
    rfl
  unfold Stored.ClassFile.parse
  rw [hread.run_eq]

theorem ordered_constantsWithText (text : String) : (constantsWithText text).Ordered :=
  (ConstantTable.dense_append _).ordered

theorem constant_constantsWithText {text : String} {index : ConstantIndex} {k : Constant} (i : Nat)
    (h : (constantsWithText text).entries[i]? = some (index.toNat, k)) :
    (constantsWithText text).constant index = .ok k := by
  have hget := (SlotTable.get?_eq_some_iff (ordered_constantsWithText text)).2
    (Array.mem_of_getElem? h)
  rw [ConstantTable.constant, hget]

theorem ofClassFile_fileWithText (text : String) :
    ofClassFile (fileWithText text).stored = .ok (classWithText text) := by
  let r := (fileWithText text).resolver
  have hutf8 : r.utf8 1 = .ok "A" := Resolver.utf8_of_constant (constant_constantsWithText 0 rfl)
  have hutf8' : r.utf8 3 = .ok "B" := Resolver.utf8_of_constant (constant_constantsWithText 2 rfl)
  have hname : r.className 2 = .ok smallName :=
    Resolver.className_of_constants
      (Resolver.constants_className (constant_constantsWithText 1 rfl) hutf8)
  have hparent : r.className 4 = .ok ⟨"B", isName_B⟩ :=
    Resolver.className_of_constants
      (Resolver.constants_className (constant_constantsWithText 3 rfl) hutf8')
  have hparts : (fileWithText text).Lifted ⟨"B", isName_B⟩ [] [] [] :=
    ⟨hname, hparent, .nil, nofun, .nil, fun h => absurd rfl h, Nat.zero_le _, nofun, rfl⟩
  exact hparts.ofClassFile

theorem run_classWithText (text : String) :
    (PoolM.classFile (classWithText text)).run (classWithText text).initialPool
      = (.ok (fileWithText text).stored, .ofTable (constantsWithText text)) := by
  have hname : PoolM.Finds (constantsWithText text) (PoolM.className smallName) 2 :=
    .className (i := 1) rfl rfl
  have hparent : PoolM.Finds (constantsWithText text) (PoolM.className ⟨"B", isName_B⟩) 4 :=
    .className (i := 3) rfl rfl
  exact SmallFile.run_smallClass_nil (f := fileWithText text) hname hparent .nil .nil rfl

/-- A text that takes twice the bytes when it is written: NUL is read from one byte. -/
def nulText : String := .ofList (List.replicate 0x8000 (Char.ofNat 0))

theorem decode_nul (count : Nat) :
    ModifiedUtf8.decode (List.replicate count 0)
      = .ofList (List.replicate count (Char.ofNat 0)) := by
  have hunits : ModifiedUtf8.decodeUnits (List.replicate count 0) = List.replicate count 0 := by
    induction count with
    | zero => rfl
    | succ count ih =>
      rw [List.replicate_succ, ModifiedUtf8.decodeUnits_cons_ascii (by decide), ih]
      rfl
  have hchars : ModifiedUtf8.ofUnits (List.replicate count 0)
      = List.replicate count (Char.ofNat 0) := by
    clear hunits
    induction count with
    | zero => rfl
    | succ count ih =>
      rw [List.replicate_succ, ModifiedUtf8.ofUnits_cons rfl, ih]
      rfl
  rw [ModifiedUtf8.decode, hunits, hchars]

theorem encode_nul (count : Nat) :
    ModifiedUtf8.encode (.ofList (List.replicate count (Char.ofNat 0)))
      = (List.replicate count [0xC0, 0x80]).flatten := by
  rw [ModifiedUtf8.encode, String.toList_ofList]
  induction count with
  | zero => rfl
  | succ count ih =>
    rw [List.replicate_succ, List.flatMap_cons, List.flatMap_append, ih]
    rfl

theorem exists_of_read {bytes rest : Bytes} {file : Stored.ClassFile}
    (h : Stored.ClassFile.read.run bytes = .ok (file, rest)) :
    ∃ s₁ s₂ s₃ s₄ s₅ s₆ s₇, Reader.u32.run bytes = .ok (Stored.ClassFile.magic, s₁)
      ∧ Version.read.run s₁ = .ok (file.version, s₂)
      ∧ ConstantTable.read.run s₂ = .ok (file.constants, s₃)
      ∧ (∃ flags, Reader.u16.run s₃ = .ok (flags, s₄))
      ∧ Reader.u16.run s₄ = .ok (file.thisClass, s₅)
      ∧ Reader.optionalIndex.run s₅ = .ok (file.superClass, s₆)
      ∧ (Reader.list16 Reader.u16).run s₆ = .ok (file.interfaces, s₇) := by
  unfold Stored.ClassFile.read at h
  obtain ⟨⟨found, s₁⟩, h₁, h⟩ := bind_eq_ok.1 h
  dsimp only at h
  split at h
  · cases h
  next hmagic =>
    obtain ⟨⟨version, s₂⟩, h₂, h⟩ := bind_eq_ok.1 h
    obtain ⟨⟨constants, s₃⟩, h₃, h⟩ := bind_eq_ok.1 h
    obtain ⟨⟨flags, s₄⟩, h₄, h⟩ := bind_eq_ok.1 h
    obtain ⟨⟨thisClass, s₅⟩, h₅, h⟩ := bind_eq_ok.1 h
    obtain ⟨⟨superClass, s₆⟩, h₆, h⟩ := bind_eq_ok.1 h
    obtain ⟨⟨interfaces, s₇⟩, h₇, h⟩ := bind_eq_ok.1 h
    obtain ⟨⟨fields, s₈⟩, h₈, h⟩ := bind_eq_ok.1 h
    obtain ⟨⟨methods, s₉⟩, h₉, h⟩ := bind_eq_ok.1 h
    obtain ⟨⟨attributes, s₁₀⟩, h₁₀, h⟩ := bind_eq_ok.1 h
    cases h
    refine ⟨s₁, s₂, s₃, s₄, s₅, s₆, s₇, ?_, h₂, h₃, ⟨flags, h₄⟩, h₅, h₆, h₇⟩
    rw [← Decidable.not_not.1 hmagic]
    exact h₁

theorem storedParse_of_overflow {raw more : Bytes} {file : Stored.ClassFile}
    (hlength : raw.length = 0x10000)
    (hraw : raw = 0xC0 :: 0x80 :: 0xC0 :: 0x80 :: 0xC0 :: 0x80 :: 0xC0 :: 0x80 :: more) :
    Stored.ClassFile.parse (bytesWithText raw) ≠ .ok file := by
  have hbytes : bytesWithText raw = Writer.u32 Stored.ClassFile.magic ++ (Version.java8.write
      ++ (rawConstants [] ++ (raw ++ classBytes))) := by
    have hwraps : UInt16.ofNat raw.length = UInt16.ofNat ([] : Bytes).length := by
      rw [hlength]
      rfl
    simp only [bytesWithText, rawConstants, rawText, hwraps, List.append_assoc, List.append_nil]
  -- the text is read as empty, and its bytes as the flags and indices of the class
  intro hparse
  unfold Stored.ClassFile.parse at hparse
  split at hparse
  case h_1 => cases hparse
  case h_3 => cases hparse
  case h_2 read hread =>
    obtain ⟨s₁, s₂, s₃, s₄, s₅, s₆, s₇, h₁, h₂, h₃, ⟨flags, h₄⟩, h₅, h₆, h₇⟩ :=
      exists_of_read hread
    rw [hbytes, Reader.reads_u32] at h₁
    obtain ⟨-, rfl⟩ := Prod.mk.inj (Except.ok.inj h₁)
    rw [Version.reads] at h₂
    obtain ⟨-, rfl⟩ := Prod.mk.inj (Except.ok.inj h₂)
    rw [reads_rawConstants (Nat.zero_le _), hraw] at h₃
    obtain ⟨-, rfl⟩ := Prod.mk.inj (Except.ok.inj h₃)
    obtain ⟨-, rfl⟩ := Prod.mk.inj (Except.ok.inj h₄)
    obtain ⟨-, rfl⟩ := Prod.mk.inj (Except.ok.inj h₅)
    obtain ⟨-, rfl⟩ := Prod.mk.inj (Except.ok.inj h₆)
    -- more interfaces are announced than there are bytes left
    obtain ⟨count, s₈, hcount, -, htakes⟩ := Reader.takes_u16.list16 h₇
    obtain ⟨rfl, rfl⟩ := Prod.mk.inj (Except.ok.inj hcount)
    have hmore : (more.append classBytes).length = 0xFFF8 + 14 := by
      rw [hraw] at hlength
      simp only [List.length_cons] at hlength
      rw [List.append_eq, List.length_append, show classBytes.length = 14 from rfl]
      omega
    have hannounced : 2 * (0xC080 : UInt16).toNat + s₇.length = (more.append classBytes).length :=
      htakes
    have hcount : (0xC080 : UInt16).toNat = 0xC080 := rfl
    omega

theorem length_encode_nulText : (ModifiedUtf8.encode nulText).length = 0x10000 := by
  unfold nulText
  rw [encode_nul, List.length_flatten, List.map_replicate, List.sum_replicate_nat]
  rfl

/--
A text can take more bytes when it is written than it was read from. Its length is written modulo
2 ^ 16 then, without an error, and what is written is no class file.
-/
theorem toBytes_nulText :
    parse (bytesWithText (List.replicate 0x8000 0)) = .ok (classWithText nulText)
      ∧ (classWithText nulText).toBytes = .ok (fileWithText nulText).stored.write
      ∧ ∀ d, parse (fileWithText nulText).stored.write ≠ .ok d := by
  refine ⟨?_, ?_, ?_⟩
  · have hlength : (List.replicate 0x8000 (0 : UInt8)).length ≤ 0xFFFF := by
      rw [List.length_replicate]
      decide
    have hstored := storedParse_bytesWithText hlength
    rw [decode_nul] at hstored
    exact (bind_of_eq_ok hstored _).trans (ofClassFile_fileWithText nulText)
  · unfold toBytes toClassFile
    rw [run_classWithText]
    rfl
  · intro d hd
    obtain ⟨file, hfile, -⟩ := bind_eq_ok.1 hd
    have hstarts : ModifiedUtf8.encode nulText = 0xC0 :: 0x80 :: 0xC0 :: 0x80 :: 0xC0 :: 0x80
        :: 0xC0 :: 0x80 :: (List.replicate 0x7FFC [0xC0, 0x80]).flatten := by
      have hcount : 0x8000 = 0x7FFC + 1 + 1 + 1 + 1 := rfl
      unfold nulText
      rw [encode_nul, hcount, List.replicate_succ, List.replicate_succ, List.replicate_succ,
        List.replicate_succ]
      rfl
    rw [write_fileWithText] at hfile
    exact storedParse_of_overflow length_encode_nulText hstarts hfile

end LongText

end ClassPatch.Class
