import ClassPatch.Proofs.Lift.Member
import ClassPatch.Proofs.Lift.Straight
import ClassPatch.Proofs.Lower.Found
import ClassPatch.Proofs.Lower.Limits

/-!
Small class files: those of a class `A` without interfaces and fields. Such a file is parsed if its
parts are lifted, and a class is lowered to it if its parts are found among the constants.
-/

namespace ClassPatch

/-- A small class file, by what it does not share with the others. -/
structure SmallFile where
  version : Version := .java8
  constants : ConstantTable
  superClass : ConstantIndex := 4
  methods : List (Stored.Member .method) := []
  carried : List Stored.Attribute := []
  /-- The index of the name of the table of bootstrap methods, if there are any. -/
  table : ConstantIndex := 0
  entries : List BootstrapEntry := []

def tableAttributes (name : ConstantIndex) : List BootstrapEntry → List Stored.Attribute
  | [] => []
  | e :: es => [⟨name, Writer.list16 BootstrapEntry.write (e :: es)⟩]

/-- The class that small class files are of. -/
def smallName : BinaryName := ⟨"A", isName_A⟩

def smallClass (version : Version) (constants : ConstantTable) (parent : BinaryName)
    (methods : List Method) (attributes : List VerbatimAttribute)
    (bootstrapMethods : List BootstrapMethod) : Class where
  version
  accessFlags := .truncate _ 0x20
  name := smallName
  superName := some parent
  methods
  attributes
  constantPool := some constants
  bootstrapMethods

/-- A static method without parameters that returns nothing. -/
def codeHead (name : UnqualifiedName) (annotations : Annotations) : Method where
  accessFlags := .truncate _ 0x8
  name
  descriptor := ⟨[], none⟩
  annotations

def codeMethod (name : UnqualifiedName) (annotations : Annotations) (code : Code) : Method :=
  { codeHead name annotations with code := some code }

def codeContext (name : UnqualifiedName) : MethodContext := (codeHead name {}).context smallName

/-- Such a method, by the indices of its name, its descriptor and the name of its code. -/
def codeMember (name descriptor codeName : ConstantIndex) (code : Stored.Code)
    (others : List Stored.Attribute) : Stored.Member .method :=
  ⟨.truncate _ 0x8, name, descriptor, ⟨codeName, code.write⟩ :: others⟩

namespace Stored

theorem Code.length_write {x : Code} (h : x.exceptionTable = []) :
    x.write.length = x.code.length + 12 + (x.attributes.flatMap Attribute.write).length := by
  unfold Code.write Writer.bytes32 Writer.list16
  rw [h]
  simp only [List.length_append, List.flatMap_nil, List.length_nil]
  change 2 + 2 + (4 + x.code.length) + (2 + 0) + (2 + _) = _
  omega

theorem fits_codeMember {i j k : ConstantIndex} {x : Code} {others : List Attribute}
    (hx : x.write.length < 2 ^ 32) (hlength : others.length < 0xFFFF)
    (hothers : ∀ a ∈ others, a.info.length < 2 ^ 32) : (codeMember i j k x others).Fits :=
  ⟨hlength, List.forall_mem_cons.2 ⟨hx, hothers⟩⟩

end Stored

theorem Resolver.method_codeMember {r : Resolver} {i j k : ConstantIndex} {name : UnqualifiedName}
    {annotations : Annotations} {x : Stored.Code} {others : List Stored.Attribute} {p : CodeParts}
    {c : Code} (hname : r.unqualifiedName i = .ok name)
    (hdescriptor : r.methodDescriptor j = .ok ⟨[], none⟩) (hcode : r.utf8 k = .ok "Code")
    (hx : x.Fits)
    (hothers : others.foldlM r.addToMethod (codeHead name {}, some x)
      = .ok (codeHead name annotations, some x))
    (h : CodeLifted r (codeContext name) x p c) :
    r.method smallName (codeMember i j k x others) = .ok (codeMethod name annotations c) := by
  have hstep : r.addToMethod (codeHead name {}, none) ⟨k, x.write⟩
      = .ok (codeHead name {}, some x) :=
    addToMethod_of_methodStep r (.code hcode (AttributeFormat.readsBack_code hx _ rfl))
  exact method_of_parts (codeMember i j k x others) hname hdescriptor
    ((bind_of_eq_ok hstep _).trans hothers) h

theorem PoolM.Finds.method_codeMember {t : ConstantTable} {i j k : ConstantIndex}
    {name : UnqualifiedName} {annotations : Annotations} {x : Stored.Code}
    {others : List Stored.Attribute} {c : Code} (hname : t.indexOf? (.utf8 name.text) = some i)
    (hdescriptor : t.indexOf? (.utf8 (⟨[], none⟩ : MethodDescriptor).render) = some j)
    (hcode : t.indexOf? (.utf8 "Code") = some k) (hx : Finds t (PoolM.code (codeContext name) c) x)
    (hothers : Finds t (PoolM.annotationAttributes annotations) others) :
    Finds t (PoolM.method smallName (codeMethod name annotations c)) (codeMember i j k x others) := by
  have hattribute : Finds t (PoolM.codeAttribute (codeContext name) c) ⟨k, x.write⟩ :=
    hx.bind (.store hcode rfl)
  have hfirst : Finds t (PoolM.utf8 name.text) i := .constant hname
  have hsecond : Finds t (PoolM.utf8 (⟨[], none⟩ : MethodDescriptor).render) j :=
    .constant hdescriptor
  refine hfirst.bind (hsecond.bind ((Finds.ifSome_some hattribute).bind ?_))
  refine (Finds.unlessEmpty_nil _).bind ((Finds.ifSome_none _).bind ?_)
  refine hothers.bind ?_
  refine Finds.bind ((Finds.ifSome_none _).bind ((Finds.ifSome_none _).bind (.pure []))) ?_
  refine (Finds.ifSome_none _).bind ((Finds.mapM .nil).bind ?_)
  have hattributes : codeMember i j k x (others ++ [] ++ [] ++ []) = codeMember i j k x others := by
    rw [List.append_nil, List.append_nil, List.append_nil]
  rw [← hattributes]
  exact .pure _

theorem PoolM.Finds.code_of_layout {t : ConstantTable} {context : MethodContext}
    {elements : List BodyElement} {maxStack : Option UInt16} {limit maxLocals : UInt16}
    {attributes : List VerbatimAttribute} {stored : List Stored.Attribute} {a : AssembledCode}
    (hlayout : Finds t (PoolM.layout elements) a)
    (hlimit : maxStack = some limit ∨ maxStack = none ∧ Code.stackLimit elements [] = .ok limit)
    (hattributes : List.Forall₂ (fun v x => Finds t (PoolM.verbatim v) x) attributes stored) :
    Finds t (PoolM.code context { elements, maxStack, maxLocals := some maxLocals, attributes })
      ⟨limit, maxLocals, a.bytes, [], stored⟩ := by
  rw [PoolM.code_eq]
  refine hlayout.bind ((Finds.mapM .nil).bind ((Finds.unlessEmpty_nil _).bind
    ((Finds.unlessEmpty_nil _).bind ((Finds.unlessEmpty_nil _).bind
      ((Finds.unlessEmpty_nil _).bind ((Finds.mapM hattributes).bind ?_))))))
  rcases hlimit with rfl | ⟨rfl, hlimit⟩
  · exact .pure _
  · exact (Finds.lift hlimit).bind (.pure _)

namespace SmallFile

open PoolM (Finds)

variable {f : SmallFile}

def resolver (f : SmallFile) : Resolver := ⟨f.constants, f.entries⟩

def stored (f : SmallFile) : Stored.ClassFile where
  version := f.version
  constants := f.constants
  accessFlags := .truncate _ 0x20
  thisClass := 2
  superClass := some f.superClass
  interfaces := []
  fields := []
  methods := f.methods
  attributes := f.carried ++ tableAttributes f.table f.entries

theorem fits_stored (hlength : f.methods.length ≤ 0xFFFF) (hmethods : ∀ m ∈ f.methods, m.Fits)
    (hcarried : f.carried.length < 0xFFFF) (hinfos : ∀ a ∈ f.carried, a.info.length < 2 ^ 32)
    (htable : ∀ a ∈ tableAttributes f.table f.entries, a.info.length < 2 ^ 32) :
    f.stored.Fits := by
  have hone : (tableAttributes f.table f.entries).length ≤ 1 := by
    unfold tableAttributes
    split
    · exact Nat.zero_le _
    · exact Nat.le_refl _
  refine ⟨Nat.zero_le _, Nat.zero_le _, nofun, hlength, hmethods, ?_, ?_⟩
  · rw [stored, List.length_append]
    omega
  · exact List.forall_mem_append.2 ⟨hinfos, htable⟩

theorem code?_stored {i j k : ConstantIndex} {x : Stored.Code} (hx : x.Fits)
    (hcode : f.constants.utf8 k = .ok "Code") :
    f.stored.code? (codeMember i j k x []) = .ok (some x) := by
  have hadd : Stored.ClassFile.addCode f.constants none ⟨k, x.write⟩ = .ok (some x) := by
    unfold Stored.ClassFile.addCode
    rw [hcode, ok_bind, if_pos rfl, AttributeFormat.readsBack_code hx _ rfl]
    rfl
  exact bind_of_eq_ok hadd _

/-- What the parts of the file are lifted to. -/
structure Lifted (f : SmallFile) (parent : BinaryName) (methods : List Method)
    (carried : List VerbatimAttribute) (bootstrapMethods : List BootstrapMethod) : Prop where
  name : f.resolver.className 2 = .ok smallName
  parent : f.resolver.className f.superClass = .ok parent
  methods : List.Forall₂ (fun x m => f.resolver.method smallName x = .ok m) f.methods methods
  names : ∀ v ∈ carried, v.name ∉ Resolver.classAttributes
  carried : List.Forall₂ f.resolver.Carries carried f.carried
  table : f.entries ≠ [] → f.resolver.utf8 f.table = .ok "BootstrapMethods"
  length : f.entries.length ≤ 0xFFFF
  arguments : ∀ e ∈ f.entries, e.arguments.length ≤ 0xFFFF
  bootstrapMethods : f.resolver.bootstraps = .ok bootstrapMethods

variable {parent : BinaryName} {methods : List Method} {carried : List VerbatimAttribute}
  {bootstrapMethods : List BootstrapMethod}

namespace Lifted

theorem entries_eq (h : f.Lifted parent methods carried bootstrapMethods) :
    f.stored.bootstrapMethods = .ok f.entries := by
  let step (table : List BootstrapEntry) (a : Stored.Attribute) :
      Except ClassError (List BootstrapEntry) := do
    if (← f.constants.utf8 a.nameIndex) = "BootstrapMethods" then
      AttributeFormat.bootstrapMethods.parse a.info
    else
      return table
  have hcarried : f.carried.foldlM step [] = .ok [] := by
    refine foldlM_eq_of_forall fun a ha => ?_
    obtain ⟨v, hv, hname, -⟩ := exists_of_mem_right h.carried ha
    have hne : v.name ≠ "BootstrapMethods" := fun heq =>
      h.names v hv (heq ▸ by decide)
    exact (bind_of_eq_ok hname _).trans (if_neg hne)
  have htable : (tableAttributes f.table f.entries).foldlM step [] = .ok f.entries := by
    cases hentries : f.entries with
    | nil => rfl
    | cons e es =>
      have hname : f.constants.utf8 f.table = .ok "BootstrapMethods" :=
        h.table (hentries ▸ List.cons_ne_nil e es)
      have hread : AttributeFormat.bootstrapMethods.parse
          (Writer.list16 BootstrapEntry.write (e :: es)) = .ok (e :: es) :=
        AttributeFormat.readsBack_bootstrapMethods (hentries ▸ h.length)
          (hentries ▸ h.arguments) _ rfl
      exact bind_of_eq_ok ((bind_of_eq_ok hname _).trans ((if_pos rfl).trans hread)) _
  exact foldlM_append_eq_ok.2 ⟨[], hcarried, htable⟩

theorem attributes_eq (h : f.Lifted parent methods carried bootstrapMethods) (c : Class) :
    f.stored.attributes.foldlM f.resolver.addToClass c
      = .ok { c with attributes := c.attributes ++ carried } := by
  have hcarried : f.carried.foldlM f.resolver.addToClass c
      = .ok { c with attributes := c.attributes ++ carried } :=
    foldlM_carried h.carried h.names (fun vs => { c with attributes := vs })
      fun us x text htext hnot => Resolver.addToClass_of_classStep _ (.verbatim htext hnot)
  have htable : (tableAttributes f.table f.entries).foldlM f.resolver.addToClass
      { c with attributes := c.attributes ++ carried }
        = .ok { c with attributes := c.attributes ++ carried } := by
    cases hentries : f.entries with
    | nil => rfl
    | cons e es =>
      have hname := h.table (hentries ▸ List.cons_ne_nil e es)
      exact bind_of_eq_ok (Resolver.addToClass_of_classStep _ (.bootstrapMethods hname)) _
  exact foldlM_append_eq_ok.2 ⟨_, hcarried, htable⟩

theorem ofClassFile (h : f.Lifted parent methods carried bootstrapMethods) :
    Class.ofClassFile f.stored
      = .ok (smallClass f.version f.constants parent methods carried bootstrapMethods) := by
  have hsuper : (some f.superClass).mapM f.resolver.className = .ok (some parent) := by
    rw [Option.mapM_some, h.parent]
    rfl
  exact Class.ofClassFile_of_lifted (r := f.resolver) ⟨rfl, h.entries_eq, rfl, rfl, h.name, hsuper,
    rfl, rfl, mapM_eq_ok.2 h.methods, h.bootstrapMethods, rfl, h.attributes_eq _⟩

theorem parse (h : f.Lifted parent methods carried bootstrapMethods) (hconstants : f.constants.Fits)
    (hfile : f.stored.Fits) : Class.parse f.stored.write
      = .ok (smallClass f.version f.constants parent methods carried bootstrapMethods) := by
  have hsuper : f.stored.superClass ≠ some 0 := fun heq =>
    Resolver.className_ne_zero hconstants.dense.get?_zero h.parent (Option.some.inj heq)
  unfold Class.parse
  rw [Stored.ClassFile.parse_write hfile hconstants hsuper, ok_bind]
  exact h.ofClassFile

end Lifted

/-- A class is lowered to the file if its parts are found there. -/
theorem run_smallClass {p₀ p : Pool} {constants : ConstantTable}
    (hname : Finds f.constants (PoolM.className smallName) 2)
    (hparent : Finds f.constants (PoolM.className parent) f.superClass)
    (hmethods : List.Forall₂ (fun m x => Finds f.constants (PoolM.method smallName m) x) methods
      f.methods)
    (hcarried : List.Forall₂ (fun v x => Finds f.constants (PoolM.verbatim v) x) carried f.carried)
    (hrestore : (PoolM.restoreBootstraps bootstrapMethods).run p₀ = (.ok (), p))
    (hp : p.FindsAll f.constants) (hconstants : p.constants = f.constants)
    (hentries : p.bootstrapMethods.toList = f.entries)
    (htable : f.entries ≠ [] → f.constants.indexOf? (.utf8 "BootstrapMethods") = some f.table) :
    (PoolM.classFile (smallClass f.version constants parent methods carried bootstrapMethods)).run p₀
      = (.ok f.stored, p) := by
  have hstored : PoolM.bootstrapTable.run p = (.ok (tableAttributes f.table f.entries), p) := by
    cases hes : f.entries with
    | nil =>
      have hget : (get : PoolM Pool).run p = (.ok p, p) := rfl
      unfold PoolM.bootstrapTable
      refine (run_bind_ok hget _).trans ?_
      rw [hentries, hes]
      rfl
    | cons e es =>
      have hne : p.bootstrapMethods.toList ≠ [] := by
        rw [hentries, hes]
        exact List.cons_ne_nil e es
      have hrun := PoolM.run_bootstrapTable_of_finds hp hne (htable (hes ▸ List.cons_ne_nil e es))
      rw [hentries, hes] at hrun
      exact hrun
  have hrun := PoolM.run_classFile_of_finds
    (c := smallClass f.version constants parent methods carried bootstrapMethods)
    ⟨rfl, rfl, rfl, rfl, rfl, rfl, rfl, rfl, rfl⟩ rfl hmethods rfl hrestore hp hname rfl hparent
    hcarried hstored
  rw [hconstants] at hrun
  exact hrun

theorem run_smallClass_nil (hname : Finds f.constants (PoolM.className smallName) 2)
    (hparent : Finds f.constants (PoolM.className parent) f.superClass)
    (hmethods : List.Forall₂ (fun m x => Finds f.constants (PoolM.method smallName m) x) methods
      f.methods)
    (hcarried : List.Forall₂ (fun v x => Finds f.constants (PoolM.verbatim v) x) carried f.carried)
    (hentries : f.entries = []) :
    (PoolM.classFile (smallClass f.version f.constants parent methods carried [])).run
        (smallClass f.version f.constants parent methods carried []).initialPool
      = (.ok f.stored, .ofTable f.constants) :=
  run_smallClass hname hparent hmethods hcarried rfl (Pool.findsAll_ofTable _) rfl hentries.symm
    fun h => absurd hentries h

theorem withinLimits_smallClass {p : Pool} {version : Version} {constants : ConstantTable}
    (hhandlers : ∀ m ∈ methods, ∀ c ∈ m.code, c.exceptionHandlers.length ≤ 0xFFFF)
    (hattributes : ∀ m ∈ methods, ∀ c ∈ m.code, c.attributeCount ≤ 0xFFFF)
    (hfile : f.stored.Fits) (htexts : ∀ k ∈ f.constants.elements, k.Fits)
    (hsize : p.bootstrapMethods.size ≤ 0xFFFF)
    (harguments : ∀ e ∈ p.bootstrapMethods.toList, e.arguments.length ≤ 0xFFFF)
    (hrun : (PoolM.classFile (smallClass version constants parent methods carried
      bootstrapMethods)).run (smallClass version constants parent methods carried
        bootstrapMethods).initialPool = (.ok f.stored, p)) :
    (smallClass version constants parent methods carried bootstrapMethods).WithinLimits := by
  have hrecord : ∀ cs, cs ∉ (none : Option (List RecordComponent)) :=
    fun cs => Option.not_mem_none cs
  refine ⟨⟨hhandlers, hattributes, fun cs hcs => absurd hcs (hrecord cs),
    fun cs hcs => absurd hcs (hrecord cs)⟩, fun file q hrun' => ?_⟩
  rw [hrun] at hrun'
  cases hrun'
  exact ⟨hfile, htexts, hsize, harguments⟩

end SmallFile

end ClassPatch
