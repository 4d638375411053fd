import ClassPatch.Proofs.Class.Fixpoint
import ClassPatch.Proofs.Class.Jumps
import ClassPatch.Proofs.Class.Offsets
import ClassPatch.Proofs.Lift.Exact
import ClassPatch.Proofs.Lift.QuietClass

/-!
A class that is written as it was read. If no two entries of its tables are equal and bootstrap
methods refer back, it is lowered without a new constant, and canonical code keeps its bytes.
-/

namespace ClassPatch

namespace ClassLifted

variable {file : Stored.ClassFile} {r : Resolver} {c : Class}

theorem exists_rereading (h : ClassLifted file r c) (hdense : file.constants.Dense)
    (hr : r.Distinct) : ∃ s : Rereading, ¬ s.wellFormed
      ∧ (PoolM.restoreBootstraps c.bootstrapMethods).run c.initialPool = (.ok (), s.pool)
      ∧ s.pool.constants = file.constants ∧ s.pool.bootstrapMethods.toList = r.bootstrapMethods
      ∧ s.pool.Knows r r.bootstrapMethods.length := by
  rw [← h.constants] at hdense
  obtain ⟨p, hrestore, hconstants, hbootstraps, hknows⟩ :=
    PoolM.exists_run_restoreBootstraps_of_distinct hr hdense h.bootstrapMethods
      (Stored.ClassFile.bootstrapMethods_fit h.table).1
  have hzero : p.constants.get? 0 = none := by
    rw [hconstants]
    exact hdense.get?_zero
  rw [← h.initialPool_eq] at hrestore
  exact ⟨⟨p, hzero, False, fun _ => False⟩, not_false, hrestore, hconstants.trans h.constants,
    hbootstraps, hknows⟩

end ClassLifted

namespace Class

/-- The pool that lowering ends with, whether or not there is room for the code. -/
def loweredPool (c : Class) : Pool := ((PoolM.classFile c).run c.initialPool).2

theorem constants_of_toClassFile {c : Class} {file : Stored.ClassFile}
    (h : c.toClassFile = .ok file) : file.constants = c.loweredPool.constants :=
  (PoolM.forall₂_of_classFile c.bootstrapMethods_initialPool (Prod.ext h rfl)).1

theorem parse_write_of_toClassFile {file file₁ : Stored.ClassFile} {r : Resolver} {c : Class}
    (h : ClassLifted file r c) (hdense : file.constants.Dense) (hnext : file.constants.next ≤ 0xFFFF)
    (hfile₁ : c.toClassFile = .ok file₁) (hconstants : file₁.constants = file.constants)
    (hsize : c.loweredPool.bootstrapMethods.size ≤ 0xFFFF) (hfits : file₁.Fits)
    (htexts : ∀ k ∈ file.constants.elements, k.Fits) :
    Stored.ClassFile.parse file₁.write = .ok file₁ := by
  have hpool : c.PoolFits := by
    intro t ht
    rw [h.constantPool, Option.mem_some] at ht
    exact ht ▸ ⟨hdense, hnext⟩
  have hlowered : ∃ zero, ClassLowering False r.Admits c file₁ c.loweredPool zero :=
    classLowering_of_run hpool h.bootstrapMethods_wellFormed h.length_bootstrapMethods_le False.elim
      False.elim (Prod.ext hfile₁ rfl) hsize
  obtain ⟨zero, hlowering⟩ := hlowered
  have hread : file₁.constants.Fits := by
    rw [hconstants]
    exact ⟨hdense, hnext, htexts⟩
  exact Stored.ClassFile.parse_write hfits hread hlowering.superClass_ne

theorem exists_code_of_canonical {file file₁ : Stored.ClassFile} {r : Resolver} {c : Class}
    {s : Rereading} (h : ClassLifted file r c) (hdense : file.constants.Dense)
    (hs : s.pool.Knows r r.bootstrapMethods.length) (hr : r.RefersBack) (hwf : ¬ s.wellFormed)
    (hrestore : (PoolM.restoreBootstraps c.bootstrapMethods).run c.initialPool = (.ok (), s.pool))
    (hfile₁ : c.toClassFile = .ok file₁) {j : Nat} {m : Stored.Member .method} {x : Stored.Code}
    (hm : file.methods[j]? = some m) (hx : file.code? m = .ok (some x)) (hcode : Canonical x.code) :
    (∃ m₁ x₁, file₁.methods[j]? = some m₁ ∧ file₁.HoldsCode m₁ x₁ ∧ x₁.code = x.code)
      ∧ x.code.length ≤ maxCodeLength := by
  obtain ⟨n, code, parts, hn, hncode, hparts⟩ := h.exists_codeLifted_of_code? hm hx
  obtain ⟨m₁, x₁, elements, a, p₀, p₁, p₂, hm₁, hholds, hrestore', hextends, helements, hassemble,
      hx₁⟩ := exists_code_of_toClassFile h.constantPool hdense
    (Stored.ClassFile.exists_utf8_of_code? hx) hfile₁ hn hncode
  rw [hrestore] at hrestore'
  cases hrestore'
  obtain ⟨hbytes, hlength⟩ := hparts.bytes_eq_of_canonical hs hr hwf hcode
    ⟨hextends.indices, hextends.bootstrapIndices⟩ helements hassemble
  exact ⟨⟨m₁, x₁, hm₁, hholds, hx₁.trans hbytes⟩, hlength⟩

/--
A class with distinct tables, whose bootstrap methods refer back, is lowered without any constant or
bootstrap method but those that it was read with. Where it is written, canonical code has the bytes
that it had. If all of its code is canonical, it is written unless some is longer than code can be.
-/
theorem toClassFile_of_distinct {bytes : Bytes} {file : Stored.ClassFile} {c : Class}
    {entries : List BootstrapEntry} (hfile : Stored.ClassFile.parse bytes = .ok file)
    (hparse : parse bytes = .ok c) (htable : file.bootstrapMethods = .ok entries)
    (hnext : file.constants.next ≤ 0xFFFF)
    (hdistinct : Resolver.Distinct ⟨file.constants, entries⟩) :
    c.loweredPool.constants = file.constants
      ∧ c.loweredPool.bootstrapMethods.toList = entries
      ∧ (∀ file₁, c.toClassFile = .ok file₁ → file₁.constants = file.constants
        ∧ (file₁.Fits → (∀ k ∈ file.constants.elements, k.Fits) →
          Stored.ClassFile.parse file₁.write = .ok file₁)
        ∧ ∀ (j : Nat) (m : Stored.Member .method) (x : Stored.Code), file.methods[j]? = some m →
          file.code? m = .ok (some x) → Canonical x.code →
            ∃ m₁ x₁, file₁.methods[j]? = some m₁ ∧ file₁.HoldsCode m₁ x₁ ∧ x₁.code = x.code)
      ∧ ((∀ m ∈ file.methods, ∀ x, file.code? m = .ok (some x) → Canonical x.code) →
        ((∃ file₁, c.toClassFile = .ok file₁) ↔ ∀ m ∈ file.methods, ∀ x,
          file.code? m = .ok (some x) → x.code.length ≤ maxCodeLength)) := by
  have hdense := (Stored.ClassFile.of_parse hfile).2
  rw [parse, hfile, ok_bind] at hparse
  obtain ⟨r, hlifted⟩ := lifted_of_ofClassFile hparse
  obtain rfl : r = ⟨file.constants, entries⟩ := by
    obtain ⟨constants, bootstrapMethods⟩ := r
    obtain rfl := hlifted.constants
    obtain rfl := Except.ok.inj (htable.symm.trans hlifted.table)
    rfl
  obtain ⟨s, hwf, hrestore, hconstants, hbootstraps, hknows⟩ :=
    hlifted.exists_rereading hdense hdistinct
  have hback := hdistinct.refersBack
  obtain ⟨hpool, herror⟩ := hlifted.quiet_classFile hknows hback hwf hbootstraps hrestore
    (P := ¬ ∀ m ∈ file.methods, ∀ x, file.code? m = .ok (some x) → x.Stays) not_not.1
  have hlowered : c.loweredPool = s.pool := hpool
  have hkept {file₁ : Stored.ClassFile} (hfile₁ : c.toClassFile = .ok file₁) :
      file₁.constants = file.constants := by
    rw [constants_of_toClassFile hfile₁, hlowered, hconstants]
  have hsize : c.loweredPool.bootstrapMethods.size ≤ 0xFFFF := by
    rw [hlowered, ← Array.length_toList, hbootstraps]
    exact (Stored.ClassFile.bootstrapMethods_fit htable).1
  refine ⟨hlowered ▸ hconstants, hlowered ▸ hbootstraps,
    fun file₁ hfile₁ => ⟨hkept hfile₁, ?_, ?_⟩, fun hcanonical => ⟨?_, fun hlengths => ?_⟩⟩
  · exact parse_write_of_toClassFile hlifted hdense hnext hfile₁ (hkept hfile₁) hsize
  · exact fun j m x hm hx hcode => (exists_code_of_canonical hlifted hdense hknows hback hwf hrestore
      hfile₁ hm hx hcode).1
  · rintro ⟨file₁, hfile₁⟩ m hm x hx
    obtain ⟨j, hj⟩ := List.getElem?_of_mem hm
    exact (exists_code_of_canonical hlifted hdense hknows hback hwf hrestore hfile₁ hj hx
      (hcanonical m hm x hx)).2
  · cases hresult : c.toClassFile with
    | ok file₁ => exact ⟨file₁, rfl⟩
    | error e =>
      exact absurd (fun m hm x hx => ⟨hcanonical m hm x hx, hlengths m hm x hx⟩)
        (herror e hresult)

section Calling

/-- Constants for a method that loads what a bootstrap method of a bootstrap method computes. -/
def loadConstants : ConstantTable := (callConstants [0]).push (.utf8 "Code")

def loadElements : List BodyElement :=
  [.instruction (.ldc (.dynamic callHandle [] ⟨"f", isName_f⟩ (.base .int))),
    .instruction (.plain .pop), .branch .voidReturn]

def loadMethod : Method := codeMethod ⟨"f", isName_f⟩ {}
  { elements := loadElements, maxStack := some 1, maxLocals := some 1 }

def loadClass : Class :=
  smallClass ⟨55, 0⟩ loadConstants ⟨"B", isName_B⟩ [loadMethod] [] [plainBootstrap, nestedBootstrap]

def loadCode : Bytes := [0x12, 13, 0x57, 0xB1]

def loadMember : Stored.Member .method := codeMember 5 6 14 (bareCode loadCode) []

def loadFile : SmallFile where
  version := ⟨55, 0⟩
  constants := loadConstants
  methods := [loadMember]
  table := 12
  entries := orderedTable

def loadDecoded : List (Nat × Decoded) :=
  [(0, .instruction (.ldc 13)), (2, .instruction (.plain .pop)), (3, .branch .voidReturn)]

theorem decodeCode_loadCode : decodeCode loadCode = .ok loadDecoded :=
  eq_ok_of_toOption (by decide)

theorem storedParse_loadFile : Stored.ClassFile.parse loadFile.stored.write = .ok loadFile.stored :=
  eq_ok_of_toOption (by decide +kernel)

theorem code?_loadFile : loadFile.stored.code? loadMember = .ok (some (bareCode loadCode)) :=
  SmallFile.code?_stored (fits_bareCode (by decide)) (eq_ok_of_toOption (by decide +kernel))

theorem lifted_loadFile : loadFile.Lifted ⟨"B", isName_B⟩ [loadMethod] []
    [plainBootstrap, nestedBootstrap] := by
  let r := loadFile.resolver
  have hload : r.instruction (.ldc 13)
      = .ok (.ldc (.dynamic callHandle [] ⟨"f", isName_f⟩ (.base .int))) :=
    eq_ok_of_toOption (by decide +kernel)
  have helements : List.Forall₂ (fun d e => LiftedStraight r d.2 e) loadDecoded loadElements :=
    .cons (.instruction hload) (.cons (.instruction rfl) (.cons .voidReturn .nil))
  have hname : r.unqualifiedName 5 = .ok ⟨"f", isName_f⟩ := eq_ok_of_toOption (by decide +kernel)
  have hdescriptor : r.methodDescriptor 6 = .ok ⟨[], none⟩ := eq_ok_of_toOption (by decide +kernel)
  have hcode : r.utf8 14 = .ok "Code" := eq_ok_of_toOption (by decide +kernel)
  have hmethod : r.method smallName loadMember = .ok loadMethod := by
    obtain ⟨p, hlifted⟩ := exists_codeLifted_of_straight (x := bareCode loadCode) _
      decodeCode_loadCode helements rfl .nil nofun
    exact Resolver.method_codeMember hname hdescriptor hcode (fits_bareCode (by decide)) rfl hlifted
  exact {
    name := eq_ok_of_toOption (by decide +kernel)
    parent := eq_ok_of_toOption (by decide +kernel)
    methods := .cons hmethod .nil
    names := nofun
    carried := .nil
    table := fun _ => eq_ok_of_toOption (by decide +kernel)
    length := by decide
    arguments := by decide
    bootstrapMethods := eq_ok_of_toOption (by decide +kernel) }

theorem parse_loadFile : parse loadFile.stored.write = .ok loadClass := by
  rw [parse, storedParse_loadFile, ok_bind]
  exact lifted_loadFile.ofClassFile

theorem distinct_loadResolver : loadFile.resolver.Distinct where
  constants := by decide
  bootstraps := by decide
  refersBack := by
    intro j e he k hk b member hb
    match j with
    | 0 =>
      cases he
      cases hk
    | 1 =>
      cases he
      cases List.mem_singleton.1 hk
      have hdynamic : loadConstants.constant 13 = .ok (.dynamic 0 11) :=
        eq_ok_of_toOption (by decide +kernel)
      cases hdynamic.symm.trans hb
      exact Nat.zero_lt_one
    | j + 2 => cases he

theorem canonical_loadCode : Canonical loadCode := ⟨loadDecoded, decodeCode_loadCode, by decide⟩

theorem toClassFile_loadClass : loadClass.loweredPool.constants = loadConstants
    ∧ loadClass.loweredPool.bootstrapMethods.toList = orderedTable
    ∧ ∃ file₁, loadClass.toClassFile = .ok file₁ ∧ file₁.constants = loadConstants
      ∧ (file₁.Fits → Stored.ClassFile.parse file₁.write = .ok file₁)
      ∧ ∃ m₁ x₁, file₁.methods[0]? = some m₁ ∧ file₁.HoldsCode m₁ x₁ ∧ x₁.code = loadCode := by
  have hcode {m : Stored.Member .method} (hm : m ∈ loadFile.methods) {x : Stored.Code}
      (hx : loadFile.stored.code? m = .ok (some x)) : x = bareCode loadCode := by
    rw [List.mem_singleton.1 hm, code?_loadFile] at hx
    exact (Option.some.inj (Except.ok.inj hx)).symm
  have htexts : ∀ k ∈ loadConstants.elements, k.Fits := by decide
  obtain ⟨hconstants, htable, hkept, hwritten⟩ := toClassFile_of_distinct storedParse_loadFile
    parse_loadFile lifted_loadFile.entries_eq (by decide) distinct_loadResolver
  have hcanonical : ∀ m ∈ loadFile.methods, ∀ x, loadFile.stored.code? m = .ok (some x) →
      Canonical x.code := fun m hm x hx => hcode hm hx ▸ canonical_loadCode
  have hlengths : ∀ m ∈ loadFile.methods, ∀ x, loadFile.stored.code? m = .ok (some x) →
      x.code.length ≤ maxCodeLength := fun m hm x hx => hcode hm hx ▸ by decide
  obtain ⟨file₁, hfile₁⟩ := (hwritten hcanonical).2 hlengths
  obtain ⟨hconstants₁, hread, hkept₁⟩ := hkept file₁ hfile₁
  exact ⟨hconstants, htable, file₁, hfile₁, hconstants₁, fun hfits => hread hfits htexts,
    hkept₁ 0 loadMember _ rfl code?_loadFile canonical_loadCode⟩

end Calling

section Overlong

variable {code : Bytes} {jumps : List (Nat × Branch Nat Nat)}

theorem exists_parsed_of_overlong (hjumps : JumpsOf code jumps) (hcode : Canonical code)
    (hlong : maxCodeLength < code.length) (hlength : code.length < 2 ^ 31) :
    ∃ c, parse (jumpFile code).stored.write = .ok c
      ∧ c.toBytes = .error (.codeOverflow code.length) := by
  refine exists_parsed_of_jumps hjumps hlength fun labels elements hlabels h => ?_
  have hcontiguous := contiguous_of_decodeCode hjumps.decoded
  have hdecoded := decodedFrom_of_decodeCode hjumps.decoded
  have hbranch {i o : Nat} {x : StoredInstruction} :
      (decodedJumps jumps)[i]? ≠ some (o, .instruction x) := fun hi => by
    obtain ⟨y, -, hy⟩ := List.mem_map.1 (List.mem_of_getElem? hi)
    cases hy
  have hatBoundaries : BodyLaid.AtBoundaries labels (decodedJumps jumps) code.length := by
    refine ⟨fun o k ho => (List.mem_filter.1 (List.mem_of_getElem? ((hlabels o k).1 ho))).1,
      fun o o' k ho ho' => ?_⟩
    exact Option.some.inj (((hlabels o k).1 ho).symm.trans ((hlabels o' k).1 ho'))
  have htight : Tight code.length (decodedJumps jumps) := by
    obtain ⟨decoded, hsame, hbytes⟩ := hcode
    obtain rfl := Except.ok.inj (hsame.symm.trans hjumps.decoded)
    exact tight_of_canonical hjumps.decoded hbytes
  have hsame := h.placedBoundaries_eq hcontiguous htight fun _ _ _ _ _ hi => absurd hi hbranch
  exact h.assemble_of_overlong hcontiguous hdecoded hatBoundaries hsame hlong

/-- A switch that goes to itself in each of this many cases. -/
def loopSwitch (n : Nat) : StoredBranch := .tableSwitch 3 0 0 (List.replicate n 0)

def loopCode (n : Nat) : Bytes := (loopSwitch n).encode

def loopJumps (n : Nat) : List (Nat × Branch Nat Nat) :=
  [(0, .tableSwitch 3 0 0 (List.replicate n 0))]

variable {n : Nat}

theorem length_loopCode (h : n = 16380) : (loopCode n).length = 65536 := by
  unfold loopCode loopSwitch
  rw [StoredBranch.length_encode]
  change 1 + 3 + 4 * (3 + (List.replicate n _).length) = _
  rw [List.length_replicate, h]

theorem decodeCode_loopCode (h : n = 16380) :
    decodeCode (loopCode n) = .ok (decodedJumps (loopJumps n)) := by
  have hswitch : Decoded.ReadsAs ⟨0, 65536⟩ (loopCode n)
      (.branch (.tableSwitch 3 0 0 (List.replicate n 0))) := by
    have htargets : List.Forall₂ (fun t (d : Int32) => CodePosition.target ⟨0, 65536⟩ d.toInt = .ok t)
        (List.replicate n 0) (List.replicate n 0) :=
      forall₂_replicate (R := fun (t : Nat) (d : Int32) =>
        CodePosition.target ⟨0, 65536⟩ d.toInt = .ok t) rfl n
    refine StoredBranch.reads_encode (.tableSwitch 3 0 rfl htargets) rfl ⟨?_, ?_⟩
    · rw [List.length_replicate, h]
      decide
    · rw [List.length_replicate, h]
      decide
  unfold decodeCode
  rw [length_loopCode h, ← List.append_nil (loopCode n)]
  refine decodeFrom_append hswitch (by rw [length_loopCode h]; decide) ?_
  rw [length_loopCode h]
  rfl

theorem jumpsOf_loopCode (h : n = 16380) : JumpsOf (loopCode n) (loopJumps n) := by
  refine ⟨decodeCode_loopCode h, fun x hx t ht => ?_⟩
  cases List.mem_singleton.1 hx
  have hzero : t = 0 := by
    rcases List.mem_cons.1 ht with rfl | ht
    · rfl
    · exact List.eq_of_mem_replicate ht
  rw [hzero]
  exact List.mem_cons_self

theorem canonical_loopCode (h : n = 16380) : Canonical (loopCode n) := by
  refine ⟨_, decodeCode_loopCode h, ?_⟩
  simp only [decodedJumps, loopJumps, List.map_cons, List.map_nil, List.flatMap_cons,
    List.flatMap_nil, List.append_nil, Decoded.encode, Branch.map, List.map_replicate]
  rfl

/-- A class file without bootstrap methods, whose code is a switch that is one byte too long. -/
def loopFile : Stored.ClassFile := (jumpFile (loopCode 16380)).stored

/-- A class that was parsed from distinct tables and canonical code is not written, since this code
is longer than code can be. -/
theorem toBytes_loopFile : Stored.ClassFile.parse loopFile.write = .ok loopFile
    ∧ loopFile.constants.next ≤ 0xFFFF ∧ loopFile.bootstrapMethods = .ok []
    ∧ Resolver.Distinct ⟨loopFile.constants, []⟩
    ∧ loopFile.methods = [storedMethod (loopCode 16380)]
    ∧ loopFile.code? (storedMethod (loopCode 16380)) = .ok (some (bareCode (loopCode 16380)))
    ∧ Canonical (loopCode 16380)
    ∧ ∃ c, parse loopFile.write = .ok c ∧ c.toBytes = .error (.codeOverflow 65536) := by
  have hlength := length_loopCode (n := 16380) rfl
  have hdistinct : Resolver.Distinct ⟨methodConstants, []⟩ :=
    ⟨by decide, List.nodup_nil, fun j e he => nomatch he⟩
  have hwritten := exists_parsed_of_overlong (jumpsOf_loopCode rfl) (canonical_loopCode rfl)
    (by rw [hlength]; decide) (by rw [hlength]; decide)
  rw [hlength] at hwritten
  exact ⟨storedParse_jumpFile (by rw [hlength]; decide), by decide, rfl, hdistinct, rfl,
    code?_jumpFile (by rw [hlength]; decide), canonical_loopCode rfl, hwritten⟩

end Overlong

end Class

end ClassPatch
