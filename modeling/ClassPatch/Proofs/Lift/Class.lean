import ClassPatch.Proofs.Lift.Attribute
import ClassPatch.Proofs.Lift.Constant
import ClassPatch.Proofs.Stored.Counted

/-!
What a class file is lifted to: each part of the class is the lifted part of the file.
-/

namespace ClassPatch

/-- The class that a file is lifted to before its attributes are taken. -/
def Class.bare (version : Version) (accessFlags : ClassFlags) (name : BinaryName)
    (superName : Option BinaryName) (interfaces : List BinaryName) (fields : List Field)
    (methods : List Method) : Class :=
  { version, accessFlags, name, superName, interfaces, fields, methods }

/-- A class file and the class that it is lifted to. -/
structure ClassLifted (file : Stored.ClassFile) (r : Resolver) (c : Class) : Prop where
  constants : r.constants = file.constants
  table : file.bootstrapMethods = .ok r.bootstrapMethods
  version : c.version = file.version
  accessFlags : c.accessFlags = file.accessFlags
  name : r.className file.thisClass = .ok c.name
  superName : file.superClass.mapM r.className = .ok c.superName
  interfaces : file.interfaces.mapM r.className = .ok c.interfaces
  fields : file.fields.mapM r.field = .ok c.fields
  methods : file.methods.mapM (r.method c.name) = .ok c.methods
  bootstrapMethods : r.bootstraps = .ok c.bootstrapMethods
  constantPool : c.constantPool = some file.constants
  attributes : file.attributes.foldlM r.addToClass
    (.bare c.version c.accessFlags c.name c.superName c.interfaces c.fields c.methods)
      = .ok { c with bootstrapMethods := [], constantPool := none }

namespace Class

/-- What attributes of a class leave alone. -/
structure SameHead (c d : Class) : Prop where
  version : d.version = c.version
  accessFlags : d.accessFlags = c.accessFlags
  name : d.name = c.name
  superName : d.superName = c.superName
  interfaces : d.interfaces = c.interfaces
  fields : d.fields = c.fields
  methods : d.methods = c.methods
  bootstrapMethods : d.bootstrapMethods = c.bootstrapMethods
  constantPool : d.constantPool = c.constantPool

theorem SameHead.refl (c : Class) : SameHead c c := ⟨rfl, rfl, rfl, rfl, rfl, rfl, rfl, rfl, rfl⟩

theorem SameHead.of_step {r : Resolver} {c d e : Class} {a : Stored.Attribute} (h : SameHead c d)
    (hstep : r.ClassStep d a e) : SameHead c e := by
  cases hstep <;>
  exact ⟨h.version, h.accessFlags, h.name, h.superName, h.interfaces, h.fields, h.methods,
    h.bootstrapMethods, h.constantPool⟩

theorem lifted_of_ofClassFile {file : Stored.ClassFile} {c : Class}
    (h : ofClassFile file = .ok c) : ∃ r, ClassLifted file r c := by
  unfold ofClassFile at h
  obtain ⟨entries, hentries, h⟩ := bind_eq_ok.1 h
  obtain ⟨name, hname, h⟩ := bind_eq_ok.1 h
  obtain ⟨superName, hsuper, h⟩ := bind_eq_ok.1 h
  obtain ⟨interfaces, hinterfaces, h⟩ := bind_eq_ok.1 h
  obtain ⟨fields, hfields, h⟩ := bind_eq_ok.1 h
  obtain ⟨methods, hmethods, h⟩ := bind_eq_ok.1 h
  obtain ⟨d, hd, h⟩ := bind_eq_ok.1 h
  obtain ⟨bootstraps, hbootstraps, h⟩ := bind_eq_ok.1 h
  obtain rfl := pure_eq_ok.1 h
  have hhead := foldlM_induction (I := SameHead (.bare file.version file.accessFlags name superName
    interfaces fields methods))
    (fun d a _ e hd hstep => hd.of_step (Resolver.classStep_of_addToClass _ hstep))
    (SameHead.refl _) hd
  obtain ⟨version, accessFlags, hname', hsuper', hinterfaces', hfields', hmethods', hboot,
    hpool⟩ := hhead
  refine ⟨⟨file.constants, entries⟩, ?_⟩
  constructor
  case constants => rfl
  case table => exact hentries
  case version => exact version
  case accessFlags => exact accessFlags
  case name => exact hname' ▸ hname
  case superName => exact hsuper' ▸ hsuper
  case interfaces => exact hinterfaces' ▸ hinterfaces
  case fields => exact hfields' ▸ hfields
  case methods =>
    change file.methods.mapM (Resolver.method _ d.name) = .ok d.methods
    rw [hname', hmethods']
    exact hmethods
  case bootstrapMethods => exact hbootstraps
  case constantPool => rfl
  case attributes =>
    have hsame : { d with bootstrapMethods := [], constantPool := none } = d := by
      obtain ⟨⟩ := d
      cases hboot
      cases hpool
      rfl
    change _ = Except.ok { d with bootstrapMethods := [], constantPool := none }
    rw [hsame]
    simp only [version, accessFlags, hname', hsuper', hinterfaces', hfields', hmethods']
    exact hd

theorem ofClassFile_of_lifted {file : Stored.ClassFile} {r : Resolver} {c : Class}
    (h : ClassLifted file r c) : ofClassFile file = .ok c := by
  have hr : (⟨file.constants, r.bootstrapMethods⟩ : Resolver) = r := by rw [← h.constants]
  simp only [ofClassFile, h.table, ok_bind, hr, h.name, h.superName, h.interfaces, h.fields,
    h.methods, h.bootstrapMethods]
  rw [← h.version, ← h.accessFlags]
  refine (bind_of_eq_ok h.attributes _).trans ?_
  obtain ⟨⟩ := c
  cases h.constantPool
  rfl

theorem lifted_of_parse {bytes : Bytes} {c : Class} (h : parse bytes = .ok c) :
    ∃ file r, file.Fits ∧ file.constants.Dense ∧ ClassLifted file r c := by
  unfold parse at h
  obtain ⟨file, hfile, h⟩ := bind_eq_ok.1 h
  obtain ⟨hfits, hdense⟩ := Stored.ClassFile.of_parse hfile
  obtain ⟨r, hlifted⟩ := lifted_of_ofClassFile h
  exact ⟨file, r, hfits, hdense, hlifted⟩

end Class

theorem BootstrapEntry.ensures_read :
    Reader.Ensures read fun e => e.arguments.length ≤ 0xFFFF :=
  .skip fun _ => (Reader.Ensures.trivial Reader.u16).list16.map fun _ h => h.1

namespace Stored.ClassFile

theorem bootstrapMethods_fit {file : ClassFile} {table : List BootstrapEntry}
    (h : file.bootstrapMethods = .ok table) :
    table.length ≤ 0xFFFF ∧ ∀ e ∈ table, e.arguments.length ≤ 0xFFFF := by
  unfold bootstrapMethods at h
  refine foldlM_induction (I := fun table : List BootstrapEntry =>
    table.length ≤ 0xFFFF ∧ ∀ e ∈ table, e.arguments.length ≤ 0xFFFF) ?_ ?_ h
  · intro table a _ table' htable hstep
    obtain ⟨name, -, hstep⟩ := bind_eq_ok.1 hstep
    split at hstep
    · have hread : AttributeFormat.bootstrapMethods.read.Ensures _ :=
        BootstrapEntry.ensures_read.list16
      exact AttributeFormat.of_parse hread hstep
    · obtain rfl := pure_eq_ok.1 hstep
      exact htable
  · exact ⟨Nat.zero_le _, nofun⟩

end Stored.ClassFile

namespace ClassLifted

variable {file : Stored.ClassFile} {r : Resolver} {c : Class}

theorem argumentsFit (h : ClassLifted file r c) : r.ArgumentsFit :=
  (Stored.ClassFile.bootstrapMethods_fit h.table).2

theorem length_bootstrapMethods (h : ClassLifted file r c) :
    c.bootstrapMethods.length = r.bootstrapMethods.length := by
  rw [length_of_mapM h.bootstrapMethods, List.length_range]

theorem length_bootstrapMethods_le (h : ClassLifted file r c) :
    c.bootstrapMethods.length ≤ 0xFFFF := by
  rw [h.length_bootstrapMethods]
  exact (Stored.ClassFile.bootstrapMethods_fit h.table).1

theorem bootstrapMethods_wellFormed (h : ClassLifted file r c) :
    ∀ b ∈ c.bootstrapMethods, b.WellFormed r.Admits := by
  intro b hb
  obtain ⟨i, -, hi⟩ := exists_of_mem_mapM h.bootstrapMethods hb
  exact Resolver.wellFormed_of_bootstrap h.argumentsFit hi

end ClassLifted

end ClassPatch
