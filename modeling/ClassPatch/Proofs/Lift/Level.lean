import ClassPatch.Lift.Resolver
import ClassPatch.Proofs.Run

/-!
What is resolved on one level, given what the arguments of bootstrap methods stand for. All else that
is said of resolved constants goes by these cases.
-/

namespace ClassPatch.Resolver

variable {r : Resolver} {i : ConstantIndex}

/-- The constant at the index is known before the program runs. -/
inductive StaticAt (r : Resolver) (i : ConstantIndex) : StaticConstant → Prop where
  | string {utf8 : ConstantIndex} {text : String} (h : r.constants.constant i = .ok (.string utf8))
    (htext : r.utf8 utf8 = .ok text) : StaticAt r i (.string text)
  | integer {value : Int32} (h : r.constants.constant i = .ok (.integer value)) :
    StaticAt r i (.integer value)
  | float {value : Float32Bits} (h : r.constants.constant i = .ok (.float value)) :
    StaticAt r i (.float value)
  | long {value : Int64} (h : r.constants.constant i = .ok (.long value)) :
    StaticAt r i (.long value)
  | double {value : Float64Bits} (h : r.constants.constant i = .ok (.double value)) :
    StaticAt r i (.double value)
  | classRef {name : ConstantIndex} {type : RefType}
    (h : r.constants.constant i = .ok (.classRef name)) (htype : r.refType i = .ok type) :
    StaticAt r i (.classRef type)
  | methodType {utf8 : ConstantIndex} {descriptor : MethodDescriptor}
    (h : r.constants.constant i = .ok (.methodType utf8))
    (hdescriptor : r.methodDescriptor utf8 = .ok descriptor) : StaticAt r i (.methodType descriptor)
  | methodHandle {kind : HandleKind} {member : ConstantIndex} {handle : MethodHandle}
    (h : r.constants.constant i = .ok (.methodHandle kind member))
    (hhandle : r.methodHandle i = .ok handle) : StaticAt r i (.methodHandle handle)

/-- The constant at the index is computed by the bootstrap method of the entry. -/
inductive DynamicAt (r : Resolver) (i : ConstantIndex) (e : BootstrapEntry) (name : UnqualifiedName)
    (descriptor : FieldType) : Prop where
  | intro {b : UInt16} {member : ConstantIndex} {nameText descriptorText : String}
    (h : r.constants.constant i = .ok (.dynamic b member))
    (hentry : r.bootstrapMethods[b.toNat]? = some e)
    (hmember : r.constants.nameAndType member = .ok (nameText, descriptorText))
    (hname : parseUnqualifiedName nameText = .ok name)
    (hdescriptor : parseFieldType descriptorText = .ok descriptor)

/-- The call site at the index is computed by the bootstrap method of the entry. -/
inductive CallSiteAt (r : Resolver) (i : ConstantIndex) (e : BootstrapEntry)
    (name : UnqualifiedName) (descriptor : MethodDescriptor) : Prop where
  | intro {b : UInt16} {member : ConstantIndex} {nameText descriptorText : String}
    (h : r.constants.constant i = .ok (.invokeDynamic b member))
    (hentry : r.bootstrapMethods[b.toNat]? = some e)
    (hmember : r.constants.nameAndType member = .ok (nameText, descriptorText))
    (hname : parseUnqualifiedName nameText = .ok name)
    (hdescriptor : parseMethodDescriptor descriptorText = .ok descriptor)

/-- The entry stands for the bootstrap method, if its arguments stand for constants as given. -/
structure EntryUnfoldsBy (r : Resolver) (R : ConstantIndex → LoadableConstant → Prop)
    (e : BootstrapEntry) (b : BootstrapMethod) : Prop where
  handle : r.methodHandle e.handle = .ok b.handle
  arguments : List.Forall₂ R e.arguments b.arguments

/-- The constant stands at the index, if arguments of its entry stand for constants as given. -/
inductive UnfoldsBy (r : Resolver) (R : ConstantIndex → LoadableConstant → Prop) :
    LoadableConstant → ConstantIndex → Prop where
  | static {i : ConstantIndex} {c : StaticConstant} (h : r.StaticAt i c) : UnfoldsBy r R (.static c) i
  | dynamic {i : ConstantIndex} {e : BootstrapEntry} {handle : MethodHandle}
    {cs : List LoadableConstant} {name : UnqualifiedName} {descriptor : FieldType}
    (h : r.DynamicAt i e name descriptor) (hhandle : r.methodHandle e.handle = .ok handle)
    (hcs : List.Forall₂ R e.arguments cs) : UnfoldsBy r R (.dynamic handle cs name descriptor) i

theorem StaticAt.ne_dynamic {c : StaticConstant} (h : r.StaticAt i c) {b : UInt16}
    {member : ConstantIndex} : r.constants.constant i ≠ .ok (.dynamic b member) := by
  intro hdynamic
  cases h with
  | string h | integer h | float h | long h | double h | classRef h | methodType h
  | methodHandle h =>
    rw [h] at hdynamic
    cases hdynamic

theorem EntryUnfoldsBy.imp {R S : ConstantIndex → LoadableConstant → Prop} {e : BootstrapEntry}
    {b : BootstrapMethod} (h : r.EntryUnfoldsBy R e b) (himp : ∀ i c, R i c → S i c) :
    r.EntryUnfoldsBy S e b :=
  ⟨h.handle, h.arguments.imp himp⟩

theorem UnfoldsBy.imp {R S : ConstantIndex → LoadableConstant → Prop} {c : LoadableConstant}
    (h : r.UnfoldsBy R c i) (himp : ∀ i c, R i c → S i c) : r.UnfoldsBy S c i := by
  cases h with
  | static h => exact .static h
  | dynamic h hhandle hcs => exact .dynamic h hhandle (hcs.imp himp)

theorem bootstrapMethod_eq_ok {f : ConstantIndex → Except ClassError LoadableConstant} {b : UInt16}
    {m : BootstrapMethod} : r.bootstrapMethod f b = .ok m
      ↔ ∃ e, r.bootstrapMethods[b.toNat]? = some e
        ∧ r.EntryUnfoldsBy (fun i c => f i = .ok c) e m := by
  constructor
  · intro h
    unfold bootstrapMethod at h
    split at h
    · cases h
    next e he =>
      obtain ⟨cs, hcs, h⟩ := bind_eq_ok.1 h
      obtain ⟨handle, hhandle, h⟩ := bind_eq_ok.1 h
      obtain rfl := pure_eq_ok.1 h
      exact ⟨e, he, hhandle, mapM_eq_ok.1 hcs⟩
  · rintro ⟨e, he, hhandle, hcs⟩
    simp only [bootstrapMethod, he, mapM_eq_ok.2 hcs, ok_bind, hhandle]
    rfl

theorem bootstrapMethod_of_getElem? {argument : ConstantIndex → Except ClassError LoadableConstant}
    {bootstrap : UInt16} {handle : ConstantIndex} {arguments : List ConstantIndex}
    {b : BootstrapMethod} (h : r.bootstrapMethods[bootstrap.toNat]? = some ⟨handle, arguments⟩)
    (hhandle : r.methodHandle handle = .ok b.handle)
    (harguments : List.Forall₂ (fun c i => argument i = .ok c) b.arguments arguments) :
    r.bootstrapMethod argument bootstrap = .ok b :=
  bootstrapMethod_eq_ok.2 ⟨_, h, hhandle, harguments.flip⟩

/-- What one level of resolving does. -/
theorem loadableWithin_succ_eq_ok {levels : Nat} {c : LoadableConstant} :
    r.loadableWithin (levels + 1) i = .ok c
      ↔ r.UnfoldsBy (fun j c => r.loadableWithin levels j = .ok c) c i := by
  constructor
  · intro h
    unfold loadableWithin at h
    obtain ⟨constant, hconstant, h⟩ := bind_eq_ok.1 h
    split at h
    · obtain ⟨text, htext, h⟩ := bind_eq_ok.1 h
      obtain rfl := pure_eq_ok.1 h
      exact .static (.string hconstant htext)
    · obtain rfl := pure_eq_ok.1 h
      exact .static (.integer hconstant)
    · obtain rfl := pure_eq_ok.1 h
      exact .static (.float hconstant)
    · obtain rfl := pure_eq_ok.1 h
      exact .static (.long hconstant)
    · obtain rfl := pure_eq_ok.1 h
      exact .static (.double hconstant)
    · obtain ⟨type, htype, h⟩ := bind_eq_ok.1 h
      obtain rfl := pure_eq_ok.1 h
      exact .static (.classRef hconstant htype)
    · obtain ⟨descriptor, hdescriptor, h⟩ := bind_eq_ok.1 h
      obtain rfl := pure_eq_ok.1 h
      exact .static (.methodType hconstant hdescriptor)
    · obtain ⟨handle, hhandle, h⟩ := bind_eq_ok.1 h
      obtain rfl := pure_eq_ok.1 h
      exact .static (.methodHandle hconstant hhandle)
    · obtain ⟨⟨nameText, descriptorText⟩, hmember, h⟩ := bind_eq_ok.1 h
      obtain ⟨b, hb, h⟩ := bind_eq_ok.1 h
      obtain ⟨name, hname, h⟩ := bind_eq_ok.1 h
      obtain ⟨descriptor, hdescriptor, h⟩ := bind_eq_ok.1 h
      obtain rfl := pure_eq_ok.1 h
      obtain ⟨e, he, hentry⟩ := bootstrapMethod_eq_ok.1 hb
      exact .dynamic (.intro hconstant he hmember hname hdescriptor) hentry.handle hentry.arguments
    · cases h
  · intro h
    unfold loadableWithin
    cases h with
    | static h =>
      cases h with
      | string h htext => simp only [h, htext, ok_bind]; rfl
      | integer h | float h | long h | double h => simp only [h, ok_bind]; rfl
      | classRef h htype => simp only [h, htype, ok_bind]; rfl
      | methodType h hdescriptor => simp only [h, hdescriptor, ok_bind]; rfl
      | methodHandle h hhandle => simp only [h, hhandle, ok_bind]; rfl
    | @dynamic _ e handle cs name descriptor h hhandle hcs =>
      obtain ⟨h, he, hmember, hname, hdescriptor⟩ := h
      have hb := bootstrapMethod_eq_ok.2 ⟨e, he, .mk (b := ⟨handle, cs⟩) hhandle hcs⟩
      simp only [h, hmember, hb, hname, hdescriptor, ok_bind]
      rfl

theorem loadableWithin_mono {levels levels' : Nat} (hle : levels ≤ levels')
    {c : LoadableConstant} (h : r.loadableWithin levels i = .ok c) :
    r.loadableWithin levels' i = .ok c := by
  induction levels generalizing levels' i c with
  | zero => cases h
  | succ levels ih =>
    obtain ⟨levels', rfl⟩ : ∃ n, levels' = n + 1 := ⟨levels' - 1, by omega⟩
    rw [loadableWithin_succ_eq_ok] at h ⊢
    exact h.imp fun i c hc => ih (Nat.le_of_succ_le_succ hle) hc

theorem callSite_eq_ok {s : CallSite} : r.callSite i = .ok s
    ↔ ∃ e, r.CallSiteAt i e s.name s.descriptor
      ∧ r.EntryUnfoldsBy (fun j c => r.loadableWithin maxDynamicNesting j = .ok c) e s.bootstrap := by
  constructor
  · intro h
    unfold callSite at h
    obtain ⟨constant, hconstant, h⟩ := bind_eq_ok.1 h
    split at h
    · obtain ⟨⟨nameText, descriptorText⟩, hmember, h⟩ := bind_eq_ok.1 h
      obtain ⟨b, hb, h⟩ := bind_eq_ok.1 h
      obtain ⟨name, hname, h⟩ := bind_eq_ok.1 h
      obtain ⟨descriptor, hdescriptor, h⟩ := bind_eq_ok.1 h
      obtain rfl := pure_eq_ok.1 h
      obtain ⟨e, he, hentry⟩ := bootstrapMethod_eq_ok.1 hb
      exact ⟨e, .intro hconstant he hmember hname hdescriptor, hentry⟩
    · cases h
  · rintro ⟨e, ⟨h, he, hmember, hname, hdescriptor⟩, hentry⟩
    have hb := bootstrapMethod_eq_ok.2 ⟨e, he, hentry⟩
    simp only [callSite, bootstrap, h, hmember, hb, hname, hdescriptor, ok_bind]
    rfl

end ClassPatch.Resolver
