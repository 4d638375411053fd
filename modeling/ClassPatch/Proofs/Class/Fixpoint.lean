import ClassPatch.Proofs.Class.RoundTrip
import ClassPatch.Proofs.Lift.Replay
import ClassPatch.Proofs.Lower.Ordered

/-!
Writing what was parsed from a class that was written. If the bootstrap methods of the class refer
to each other in order, the same bytes are written again: nothing is added to the constants or to
the table of bootstrap methods.
-/

namespace ClassPatch

variable {admits : BootstrapMethod → Prop} {c d : Class} {file : Stored.ClassFile} {p : Pool}
  {zero : p.constants.get? 0 = none}

theorem ClassLowering.madeOf (h : ClassLowering True admits c file p zero)
    (hordered : BootstrapMethod.Ordered c.bootstrapMethods)
    (hlength : c.bootstrapMethods.length ≤ 0xFFFF) (hsize : p.bootstrapMethods.size ≤ 0xFFFF)
    (hfields : ∀ f ∈ c.fields, f.ConstantsWellFormed admits)
    (hmethods : ∀ m ∈ c.methods, m.ConstantsWellFormed admits)
    (hrun : (PoolM.classFile c).run c.initialPool = (.ok file, p))
    (hd : ClassLifted file p.resolver d) : p.MadeOf d.bootstrapMethods := by
  obtain ⟨p₀, hrestore, hgrows⟩ := PoolM.exists_grows_of_run (s := ⟨p, zero, True, admits⟩)
    (fun _ => hfields) (fun _ => hmethods) hrun
  have hrebuilt := PoolM.rebuilt_of_run_restoreBootstraps hordered hlength
    c.bootstrapMethods_initialPool c.bootstrapIndices_initialPool hrestore
  constructor
  case length_eq => exact hd.length_bootstrapMethods
  case indexes => exact hgrows.indexes hrebuilt.indexes_all
  case made =>
    intro k e he
    have hlt : k < p.bootstrapMethods.size := (Array.getElem?_eq_some_iff.1 he).1
    obtain ⟨b, hmade, hb⟩ := hrebuilt.exists_made hgrows trivial h.retains he
    refine ⟨b, ?_, hmade⟩
    rcases hb with hb | ⟨-, -, -, hresolves⟩
    · exact h.bootstrapMethods_of_lifted hd hlength hb
    · exact hd.getElem?_bootstrapMethods (by omega) he hresolves

namespace Class

variable {bytes written : Bytes}

theorem indices_ofTable (h : p.Valid) (k : Constant) :
    (Pool.ofTable p.constants).indices[k]? = p.indices[k]? := by
  have hvalid := Pool.valid_ofTable h.ordered h.start_eq h.next_le
  rw [hvalid.indices_eq, h.indices_eq]
  rfl

/-- The class is lowered without any constant or bootstrap method but those that it has. -/
def AddsNothing (c : Class) : Prop :=
  ∃ file p, (PoolM.classFile c).run c.initialPool = (.ok file, p)
    ∧ c.constantPool = some p.constants ∧ c.bootstrapMethods.length = p.bootstrapMethods.size

theorem AddsNothing.ordered {r : Resolver} (h : c.AddsNothing) (hlifted : ClassLifted file r c)
    (hfits : file.Fits) (hdense : file.constants.Dense) (hnext : file.constants.next ≤ 0xFFFF) :
    BootstrapMethod.Ordered c.bootstrapMethods := by
  obtain ⟨file', p, hrun, -, hsize⟩ := h
  have hlength := hlifted.length_bootstrapMethods_le
  have hpool : c.PoolFits := by
    intro t ht
    rw [hlifted.constantPool] at ht
    rw [← Option.mem_some.1 ht]
    exact ⟨hdense, hnext⟩
  obtain ⟨hfields, hmethods⟩ := constantsWellFormed_of_lifted hlifted hfits
  obtain ⟨zero, hlowering⟩ : ∃ zero, ClassLowering True r.Admits c file' p zero :=
    classLowering_of_run hpool hlifted.bootstrapMethods_wellFormed hlength (fun _ => hfields)
      (fun _ => hmethods) hrun (by omega)
  exact hlowering.ordered_of_size_le hpool hlifted.bootstrapMethods_wellFormed hlength hfields
    hmethods hrun (by omega)

/-- A class lowered to a class file of ordered bootstrap methods is lowered to that file again. -/
theorem run_classFile_of_ordered {admits : BootstrapMethod → Prop}
    {zero : p.constants.get? 0 = none} (h : ClassLowering True admits c file p zero)
    (hordered : BootstrapMethod.Ordered c.bootstrapMethods)
    (hlength : c.bootstrapMethods.length ≤ 0xFFFF) (hsize : p.bootstrapMethods.size ≤ 0xFFFF)
    (hfields : ∀ f ∈ c.fields, f.ConstantsWellFormed admits)
    (hmethods : ∀ m ∈ c.methods, m.ConstantsWellFormed admits)
    (hrun : (PoolM.classFile c).run c.initialPool = (.ok file, p))
    (hd : ClassLifted file p.resolver d) (hrewritten : c.Rewritten d)
    (hsettled : List.Forall₂ (Method.Settled ⟨p, zero, True, admits⟩) c.methods d.methods) :
    ∃ q, (PoolM.classFile d).run d.initialPool = (.ok file, q) ∧ q.constants = p.constants
      ∧ q.bootstrapMethods = p.bootstrapMethods := by
  have hmadeOf := h.madeOf hordered hlength hsize hfields hmethods hrun hd
  have hhead := PoolM.replays_classHead (fun _ => hfields) (fun _ => hmethods) hrewritten hsettled
  have hinitial : d.initialPool = .ofTable p.constants := by
    unfold initialPool
    rw [hd.constantPool, h.constants]
  have hindices : ∀ (k : Constant) (i : ConstantIndex), p.indices[k]? = some i →
      d.initialPool.indices[k]? = some i := by
    intro k i hk
    rw [hinitial, indices_ofTable h.restored.valid]
    exact hk
  obtain ⟨q, hrestore, hconstants, htable, hremembers⟩ :=
    PoolM.run_restoreBootstraps_of_madeOf hmadeOf hsize d.bootstrapMethods_initialPool
      d.bootstrapIndices_initialPool hindices
  rw [hinitial] at hconstants
  exact ⟨q, PoolM.run_classFile_again hrun hhead hrestore hremembers hconstants htable,
    hconstants, htable⟩

/--
A class that was parsed, written and parsed again is written as the same bytes, without anything
being added to its constants or bootstrap methods, if and only if its bootstrap methods refer to
bootstrap methods before them only.
-/
theorem toBytes_again_iff (hparse : parse bytes = .ok c) (hbytes : c.toBytes = .ok written)
    (hfit : c.LengthsFit) : ∃ d, parse written = .ok d
      ∧ (d.toBytes = .ok written ∧ d.AddsNothing ↔ BootstrapMethod.Ordered c.bootstrapMethods) := by
  obtain ⟨file₀, file, r, p, zero, h₀, hfile₀, hrun, h, hcontent, hwritten⟩ :=
    exists_lowering hparse hbytes hfit
  obtain ⟨d, hd, hrewritten, hsettled⟩ := h.exists_lifted h₀ hfile₀ hfit hcontent
  refine ⟨d, (bind_of_eq_ok hwritten _).trans (ofClassFile_of_lifted hd), ?_, ?_⟩
  · rintro ⟨-, hadds⟩
    obtain ⟨hfits, hdense⟩ := Stored.ClassFile.of_parse hwritten
    have hnext : file.constants.next ≤ 0xFFFF := by
      rw [h.constants]
      exact h.restored.valid.next_le
    exact (hadds.ordered hd hfits hdense hnext).of_isPrefix hrewritten.bootstrapMethods
  · intro hordered
    obtain ⟨hfields, hmethods⟩ := constantsWellFormed_of_lifted h₀ hfile₀
    obtain ⟨q, hagain, hconstants, htable⟩ := run_classFile_of_ordered h hordered
      h₀.length_bootstrapMethods_le hcontent.bootstraps hfields hmethods hrun hd hrewritten hsettled
    obtain ⟨file', p', hrun', rfl⟩ := toBytes_eq_ok hbytes
    rw [hrun] at hrun'
    cases hrun'
    refine ⟨?_, file, q, hagain, ?_, ?_⟩
    · unfold toBytes toClassFile
      rw [hagain]
      rfl
    · rw [hd.constantPool, h.constants, hconstants]
    · rw [htable, hd.length_bootstrapMethods]
      rfl

section Nested

open PoolM (Finds)

def callHandle : MethodHandle where
  kind := .invokeStatic
  member := .method ⟨.object ⟨"B", isName_B⟩, ⟨"f", isName_f⟩, ⟨[], none⟩, false⟩

/-- A bootstrap method without arguments. -/
def plainBootstrap : BootstrapMethod := ⟨callHandle, []⟩

/-- A bootstrap method whose argument is computed by the other one. -/
def nestedBootstrap : BootstrapMethod :=
  ⟨callHandle, [.dynamic callHandle [] ⟨"f", isName_f⟩ (.base .int)]⟩

/-- Constants of a class `A` for both bootstrap methods, without the dynamic ones. -/
def callNames : ConstantTable := .ofList 1
  [.utf8 "A", .classRef 1, .utf8 "B", .classRef 3, .utf8 "f", .utf8 "()V", .nameAndType 5 6,
    .methodRef 4 7 false, .methodHandle .invokeStatic 8, .utf8 "I", .nameAndType 5 10,
    .utf8 "BootstrapMethods"]

/-- All constants of the class; the dynamic ones refer to these bootstrap methods. -/
def callConstants (bootstraps : List UInt16) : ConstantTable :=
  callNames.append (bootstraps.map fun i => .dynamic i 11)

def callClass (t : ConstantTable) (bs : List BootstrapMethod) : Class :=
  smallClass ⟨55, 0⟩ t ⟨"B", isName_B⟩ [] [] bs

def callFile (t : ConstantTable) (es : List BootstrapEntry) : SmallFile where
  version := ⟨55, 0⟩
  constants := t
  table := 12
  entries := es

/-- The indices of what the class and its bootstrap methods refer to. -/
structure NamesCall (t : ConstantTable) : Prop where
  name : Finds t (PoolM.className smallName) 2
  superName : Finds t (PoolM.className ⟨"B", isName_B⟩) 4
  handle : Finds t (PoolM.methodHandle callHandle) 9
  member : Finds t (PoolM.nameAndType "f" "I") 11
  table : t.indexOf? (.utf8 "BootstrapMethods") = some 12

theorem namesCall (bootstraps : List UInt16) : NamesCall (callConstants bootstraps) := by
  have hfound : ∀ c i, callNames.indexOf? c = some i →
      (callConstants bootstraps).indexOf? c = some i := fun c i h =>
    ConstantTable.indexOf?_append h _
  have howner : Finds (callConstants bootstraps) (PoolM.refType (.object ⟨"B", isName_B⟩)) 4 :=
    .className (i := 3) (hfound _ _ (by decide)) (hfound _ _ (by decide))
  have hmember : Finds (callConstants bootstraps) (PoolM.nameAndType "f" "()V") 7 :=
    .nameAndType (i := 5) (j := 6) (hfound _ _ (by decide))
      (hfound _ _ (by decide)) (hfound _ _ (by decide))
  constructor
  case name =>
    exact .className (i := 1) (hfound _ _ (by decide)) (hfound _ _ (by decide))
  case superName => exact howner
  case handle =>
    have hmethod : Finds (callConstants bootstraps) (PoolM.handleMember callHandle.member) 8 :=
      howner.bind (hmember.bind (.constant (hfound _ _ (by decide))))
    exact hmethod.bind (.constant (hfound _ _ (by decide)))
  case member =>
    exact .nameAndType (i := 5) (j := 10) (hfound _ _ (by decide))
      (hfound _ _ (by decide)) (hfound _ _ (by decide))
  case table => exact hfound _ _ (by decide)

variable {t : ConstantTable} {p q : Pool} {i : UInt16} {k : ConstantIndex}

theorem NamesCall.plain (h : NamesCall t) : Finds t (PoolM.bootstrapParts plainBootstrap) ⟨9, []⟩ :=
  h.handle.bind (.pure _)

theorem NamesCall.run_nested (h : NamesCall t) (hp : p.FindsAll t) {q' : Pool}
    (hentry : (PoolM.bootstrapEntry ⟨9, []⟩).run p = (.ok i, q)) (hq : q.FindsAll t)
    (hconstant : (PoolM.constant (.dynamic i 11)).run q = (.ok k, q')) :
    (PoolM.bootstrapParts nestedBootstrap).run p = (.ok ⟨9, [k]⟩, q') := by
  have hmethod : (PoolM.bootstrapMethod plainBootstrap).run p = (.ok i, q) :=
    (run_bind_ok (h.plain p hp) _).trans hentry
  have hloadable : (PoolM.loadable (.dynamic callHandle [] ⟨"f", isName_f⟩ (.base .int))).run p
      = (.ok k, q') := by
    rw [PoolM.loadable_dynamic]
    refine (run_bind_ok hmethod _).trans ?_
    exact (run_bind_ok (h.member q hq) _).trans hconstant
  have hloadables : (PoolM.loadables nestedBootstrap.arguments).run p = (.ok [k], q') := by
    unfold nestedBootstrap
    rw [PoolM.loadables]
    exact (run_bind_ok hloadable _).trans rfl
  exact (run_bind_ok (h.handle p hp) _).trans ((run_bind_ok hloadables _).trans rfl)

theorem run_callClass (h : NamesCall t) {p₀ : Pool} {bs : List BootstrapMethod}
    {es : List BootstrapEntry} (hrestore : (PoolM.restoreBootstraps bs).run p₀ = (.ok (), p))
    (hp : p.FindsAll t) (hconstants : p.constants = t) (htable : p.bootstrapMethods.toList = es)
    (t₀ : ConstantTable) :
    (PoolM.classFile (callClass t₀ bs)).run p₀ = (.ok (callFile t es).stored, p) :=
  SmallFile.run_smallClass (f := callFile t es) h.name h.superName .nil .nil hrestore hp hconstants
    htable fun _ => h.table

theorem lengthsFit_callClass {t' : ConstantTable} {bs : List BootstrapMethod}
    {es : List BootstrapEntry} (ht : t.next ≤ 0xFFFF) (htexts : ∀ k ∈ t'.elements, k.Fits)
    (hinfos : ∀ a ∈ tableAttributes 12 es, a.info.length < 2 ^ 32)
    (hlength : p.bootstrapMethods.toList.length ≤ 0xFFFF)
    (hrun : (PoolM.classFile (callClass t bs)).run (callClass t bs).initialPool
      = (.ok (callFile t' es).stored, p)) : (callClass t bs).LengthsFit := by
  have hfile : (callFile t' es).stored.Fits :=
    SmallFile.fits_stored (Nat.zero_le _) nofun (Nat.zero_lt_succ _) nofun hinfos
  exact lengthsFit_smallClass (fun _ h => absurd h List.not_mem_nil) ht htexts hfile
    (Array.length_toList ▸ hlength) hrun

theorem valid_callConstants {bootstraps : List UInt16}
    (hnext : (callConstants bootstraps).next ≤ 0xFFFF) :
    (Pool.ofTable (callConstants bootstraps)).Valid :=
  Pool.valid_ofTable ((ConstantTable.dense_append _).ordered.append fun c _ => c.width_pos)
    (SlotTable.start_append _ _) hnext

theorem run_restoreFrom_cons {b : BootstrapMethod} {bs : List BootstrapMethod} {e : BootstrapEntry}
    {j : Nat} (h : (PoolM.bootstrapParts b).run p = (.ok e, q)) :
    (PoolM.restoreFrom j (b :: bs)).run p
      = (PoolM.restoreFrom (j + 1) bs).run (q.fillBootstrap (UInt16.ofNat j) e) :=
  (run_bind_ok h _).trans ((run_bind_ok rfl _).trans rfl)

section Ordered

def orderedTable : List BootstrapEntry := [⟨9, []⟩, ⟨9, [13]⟩]

def orderedClass : Class := callClass (callConstants [0]) [plainBootstrap, nestedBootstrap]

def orderedFile : SmallFile := callFile (callConstants [0]) orderedTable

theorem parse_orderedFile : parse orderedFile.stored.write = .ok orderedClass :=
  eq_ok_of_toOption (by decide +kernel)

theorem run_orderedClass : ∃ p, p.bootstrapMethods.toList = orderedTable
    ∧ (PoolM.classFile orderedClass).run orderedClass.initialPool = (.ok orderedFile.stored, p) := by
  let p₀ : Pool := .ofTable (callConstants [0])
  let p₁ : Pool := (p₀.reserveBootstraps 2).2.fillBootstrap 0 ⟨9, []⟩
  have hvalid : p₀.Valid := valid_callConstants (by decide)
  have hp : p₁.FindsAll (callConstants [0]) := hvalid.findsAll
  have hindexes : (p₀.reserveBootstraps 2).2.Indexes [] := fun _ => Std.HashMap.getElem?_empty
  have hentry : p₁.bootstrapIndices[(⟨9, []⟩ : BootstrapEntry)]? = some 0 :=
    hindexes.fillBootstrap ⟨9, []⟩ ⟨9, []⟩
  have hnested : (PoolM.bootstrapParts nestedBootstrap).run p₁ = (.ok ⟨9, [13]⟩, p₁) :=
    (namesCall [0]).run_nested hp (PoolM.run_bootstrapEntry_of_some hentry) hp
      (Pool.insert_eq_of_some (hp _ _ (by decide)))
  have hrestore : (PoolM.restoreBootstraps [plainBootstrap, nestedBootstrap]).run p₀
      = (.ok (), p₁.fillBootstrap 1 ⟨9, [13]⟩) := by
    rw [PoolM.run_restoreBootstraps_eq rfl]
    refine (run_restoreFrom_cons ((namesCall [0]).plain (p₀.reserveBootstraps 2).2 hp)).trans ?_
    exact (run_restoreFrom_cons hnested).trans rfl
  have htable : (p₁.fillBootstrap 1 ⟨9, [13]⟩).bootstrapMethods.toList = orderedTable := rfl
  exact ⟨_, htable, run_callClass (namesCall [0]) hrestore hp rfl htable (callConstants [0])⟩

theorem toBytes_again_orderedFile : ∃ d, parse orderedFile.stored.write = .ok d
    ∧ d.toBytes = .ok orderedFile.stored.write ∧ d.AddsNothing := by
  obtain ⟨p, htable, hrun⟩ := run_orderedClass
  have hfit : orderedClass.LengthsFit := lengthsFit_callClass (by decide)
    (by decide) (by decide) (by rw [htable]; decide) hrun
  have hordered : BootstrapMethod.Ordered orderedClass.bootstrapMethods := by decide
  obtain ⟨d, hd, hiff⟩ := toBytes_again_iff parse_orderedFile (toBytes_of_run hrun) hfit
  exact ⟨d, hd, hiff.2 hordered⟩

end Ordered

section Ahead

/-- A table whose first entry refers to a later one, of the given number of equal ones. -/
def aheadTable (k : ConstantIndex) (count : Nat) : List BootstrapEntry :=
  ⟨9, [k]⟩ :: List.replicate count ⟨9, []⟩

def aheadClass (bootstraps : List UInt16) (count : Nat) : Class :=
  callClass (callConstants bootstraps) (nestedBootstrap :: List.replicate count plainBootstrap)

def aheadFile (bootstraps : List UInt16) (k : ConstantIndex) (count : Nat) : SmallFile :=
  callFile (callConstants bootstraps) (aheadTable k count)

/-- The pool with an entry for the bootstrap method that is not found, and its constant. -/
def aheadPool (p : Pool) : Pool :=
  (p.addBootstrap ⟨9, []⟩).addConstant (.dynamic (UInt16.ofNat p.bootstrapMethods.size) 11)

theorem NamesCall.run_nested_of_absent (h : NamesCall p.constants) (hp : p.Valid)
    (hentry : p.bootstrapIndices[(⟨9, []⟩ : BootstrapEntry)]? = none)
    (hconstant : p.constants.indexOf? (.dynamic (UInt16.ofNat p.bootstrapMethods.size) 11) = none)
    (hroom : p.constants.next < 0xFFFF) :
    (PoolM.bootstrapParts nestedBootstrap).run p
        = (.ok ⟨9, [UInt16.ofNat p.constants.next]⟩, aheadPool p) ∧ (aheadPool p).Valid := by
  let dynamic : Constant := .dynamic (UInt16.ofNat p.bootstrapMethods.size) 11
  have habsent : (p.addBootstrap ⟨9, []⟩).indices[dynamic]? = none := by
    rw [← hconstant]
    exact hp.indices_eq dynamic
  have hroom' : (UInt16.ofNat p.constants.next).toNat + width dynamic ≤ 0xFFFF := by
    rw [hp.toNat_ofNat_next]
    exact hroom
  have hadded := Pool.insert_eq_of_none habsent hroom'
  exact ⟨h.run_nested hp.findsAll (PoolM.run_bootstrapEntry_of_none hentry) hp.findsAll hadded,
    hp.addBootstrap.addConstant habsent hroom'⟩

/-- Fill places with the entry of the plain bootstrap method. -/
def fillPlain (p : Pool) (j : Nat) : Nat → Pool
  | 0 => p
  | n + 1 => fillPlain (p.fillBootstrap (UInt16.ofNat j) ⟨9, []⟩) (j + 1) n

theorem constants_fillPlain (p : Pool) (j n : Nat) : (fillPlain p j n).constants = p.constants := by
  induction n generalizing p j with
  | zero => rfl
  | succ n ih => exact ih _ _

theorem findsAll_fillPlain (hp : p.FindsAll t) (j n : Nat) : (fillPlain p j n).FindsAll t := by
  induction n generalizing p j with
  | zero => exact hp
  | succ n ih => exact ih (p := p.fillBootstrap (UInt16.ofNat j) ⟨9, []⟩) hp (j + 1)

theorem run_restoreFrom_plain (h : NamesCall t) (hp : p.FindsAll t) (j n : Nat) :
    (PoolM.restoreFrom j (List.replicate n plainBootstrap)).run p = (.ok (), fillPlain p j n) := by
  induction n generalizing p j with
  | zero => rfl
  | succ n ih =>
    rw [List.replicate_succ, run_restoreFrom_cons (h.plain p hp)]
    exact ih (p := p.fillBootstrap (UInt16.ofNat j) ⟨9, []⟩) hp (j + 1)

theorem callConstants_concat (bootstraps : List UInt16) (i : UInt16) :
    (callConstants bootstraps).push (.dynamic i 11) = callConstants (bootstraps ++ [i]) := by
  unfold callConstants
  rw [List.map_append, SlotTable.append_append]
  rfl

theorem run_aheadClass (bootstraps : List UInt16) (count : Nat)
    (hnext : (callConstants bootstraps).next < 0xFFFF)
    (hconstant : (callConstants bootstraps).indexOf? (.dynamic (.ofNat (count + 1)) 11) = none)
    (hk : UInt16.ofNat (callConstants bootstraps).next = k)
    (htable : (fillPlain ((aheadPool ((Pool.ofTable (callConstants bootstraps)).reserveBootstraps
      (count + 1)).2).fillBootstrap 0 ⟨9, [k]⟩) 1 count).bootstrapMethods.toList
        = aheadTable k (count + 1)) :
    ∃ p, p.bootstrapMethods.toList = aheadTable k (count + 1)
      ∧ (PoolM.classFile (aheadClass bootstraps count)).run
          (aheadClass bootstraps count).initialPool
        = (.ok (aheadFile (bootstraps ++ [UInt16.ofNat (count + 1)]) k (count + 1)).stored, p) := by
  let p₀ : Pool := .ofTable (callConstants bootstraps)
  let p₁ : Pool := (p₀.reserveBootstraps (count + 1)).2
  have hnone : ∀ e : BootstrapEntry, p₀.bootstrapIndices[e]? = none :=
    fun _ => Std.HashMap.getElem?_empty
  have hsize : p₁.bootstrapMethods.size = count + 1 := by
    simp [p₁, p₀, Pool.reserveBootstraps, Pool.ofTable]
  have hvalid : p₁.Valid :=
    PoolM.valid_reserveBootstraps (valid_callConstants (by omega)) hnone _
  -- what the first bootstrap method refers to is not restored yet, so it gets an entry of its own
  obtain ⟨hnested, hvalid'⟩ := (namesCall bootstraps).run_nested_of_absent (p := p₁) hvalid
    (hnone _) (by rw [hsize]; exact hconstant) hnext
  have hconstants : (aheadPool p₁).constants
      = callConstants (bootstraps ++ [UInt16.ofNat (count + 1)]) := by
    rw [← callConstants_concat, ← hsize]
    rfl
  have hfinds : ((aheadPool p₁).fillBootstrap 0 ⟨9, [k]⟩).FindsAll
      (callConstants (bootstraps ++ [UInt16.ofNat (count + 1)])) := by
    rw [← hconstants]
    exact hvalid'.findsAll
  have hnames := namesCall (bootstraps ++ [UInt16.ofNat (count + 1)])
  have hrestore : (PoolM.restoreBootstraps
      (nestedBootstrap :: List.replicate count plainBootstrap)).run p₀
        = (.ok (), fillPlain ((aheadPool p₁).fillBootstrap 0 ⟨9, [k]⟩) 1 count) := by
    rw [PoolM.run_restoreBootstraps_eq rfl, List.length_cons, List.length_replicate]
    refine (run_restoreFrom_cons hnested).trans ?_
    rw [← hk]
    rw [← hk] at hfinds
    exact run_restoreFrom_plain hnames hfinds 1 count
  refine ⟨_, htable, run_callClass hnames hrestore (findsAll_fillPlain hfinds 1 count) ?_ htable _⟩
  rw [constants_fillPlain]
  exact hconstants

theorem parse_aheadFile : parse (aheadFile [1] 13 1).stored.write = .ok (aheadClass [1] 1)
    ∧ parse (aheadFile [1, 2] 14 2).stored.write = .ok (aheadClass [1, 2] 2) :=
  ⟨eq_ok_of_toOption (by decide +kernel), eq_ok_of_toOption (by decide +kernel)⟩

/--
A class whose bootstrap method refers to a later one gets another bootstrap method, and another
constant for it, each time that it is written.
-/
theorem toBytes_ahead :
    parse (aheadFile [1] 13 1).stored.write = .ok (aheadClass [1] 1) ∧ (aheadClass [1] 1).LengthsFit
      ∧ (aheadClass [1] 1).toBytes = .ok (aheadFile [1, 2] 14 2).stored.write
      ∧ parse (aheadFile [1, 2] 14 2).stored.write = .ok (aheadClass [1, 2] 2)
      ∧ (aheadClass [1, 2] 2).LengthsFit
      ∧ (aheadClass [1, 2] 2).toBytes = .ok (aheadFile [1, 2, 3] 15 3).stored.write
      ∧ (aheadFile [1, 2, 3] 15 3).stored.write ≠ (aheadFile [1, 2] 14 2).stored.write := by
  obtain ⟨p, htable, hrun⟩ := run_aheadClass [1] 1 (k := 14)
    (by decide) (by decide) (by decide) rfl
  obtain ⟨p', htable', hrun'⟩ := run_aheadClass [1, 2] 2 (k := 15)
    (by decide) (by decide) (by decide) rfl
  refine ⟨parse_aheadFile.1, ?_, toBytes_of_run hrun, parse_aheadFile.2, ?_, toBytes_of_run hrun',
    by decide⟩
  · exact lengthsFit_callClass (by decide) (by decide) (by decide)
      (by rw [htable]; decide) hrun
  · exact lengthsFit_callClass (by decide) (by decide) (by decide)
      (by rw [htable']; decide) hrun'

end Ahead

end Nested

end Class

end ClassPatch
