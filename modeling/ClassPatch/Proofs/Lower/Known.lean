import ClassPatch.Lift.Code
import ClassPatch.Lower.Code
import ClassPatch.Proofs.Descriptor.Canonical
import ClassPatch.Proofs.Lower.Constant

/-!
Lowering what was resolved, in a pool that finds each constant where the resolver holds it. A
constant has one text and one entry, so lowering it gives back the very index that it was resolved
from, and adds nothing.
-/

namespace ClassPatch

/-- The pool finds what the resolver holds where it stands: all constants, and the bootstrap methods
before the given place. -/
structure Pool.Knows (p : Pool) (r : Resolver) (count : Nat) : Prop where
  constants : ∀ (c : Constant) (i : ConstantIndex), r.constants.constant i = .ok c →
    p.indices[c]? = some i
  bootstraps : ∀ (e : BootstrapEntry) (i : UInt16), r.bootstrapMethods[i.toNat]? = some e →
    i.toNat < count → p.bootstrapIndices[e]? = some i

/-- Dynamic constants among the arguments of bootstrap methods refer to bootstrap methods before
them. -/
def Resolver.RefersBack (r : Resolver) : Prop :=
  ∀ (j : Nat) (e : BootstrapEntry), r.bootstrapMethods[j]? = some e → ∀ a ∈ e.arguments,
    ∀ b member, r.constants.constant a = .ok (.dynamic b member) → b.toNat < j

theorem PoolM.Repeats.loadables {p : Pool} {cs : List LoadableConstant} {is : List ConstantIndex}
    (h : List.Forall₂ (fun c i => Repeats p (loadable c) i) cs is) : Repeats p (loadables cs) is := by
  induction h with
  | nil =>
    rw [PoolM.loadables]
    exact .pure p []
  | cons hhead _ ih =>
    rw [PoolM.loadables]
    exact hhead.bind (ih.bind (.pure p _))

namespace Pool.Knows

open PoolM (Repeats)

variable {p : Pool} {r : Resolver} {count : Nat} {i : ConstantIndex}

theorem constant (h : p.Knows r count) {c : Constant} (hi : r.constants.constant i = .ok c) :
    Repeats p (PoolM.constant c) i :=
  fun _ hq => insert_eq_of_some (hq.indices c i (h.constants c i hi))

theorem utf8 (h : p.Knows r count) {text : String} (hi : r.utf8 i = .ok text) :
    Repeats p (PoolM.utf8 text) i :=
  h.constant (ConstantTable.constant_of_utf8 hi)

theorem className (h : p.Knows r count) {name : BinaryName} (hi : r.className i = .ok name) :
    Repeats p (PoolM.className name) i := by
  obtain ⟨text, htext, hi⟩ := bind_eq_ok.1 hi
  obtain ⟨j, hj, hutf8⟩ := ConstantTable.exists_of_className htext
  rw [← text_of_parseBinaryName hi] at hutf8
  exact (h.constant hutf8).bind (h.constant hj)

theorem refType (h : p.Knows r count) {t : RefType} (hi : r.refType i = .ok t) :
    Repeats p (PoolM.refType t) i := by
  obtain ⟨text, htext, hi⟩ := bind_eq_ok.1 hi
  obtain ⟨j, hj, hutf8⟩ := ConstantTable.exists_of_className htext
  rw [← constantName_of_parseRefType hi] at hutf8
  exact (h.constant hutf8).bind (h.constant hj)

theorem nameAndType (h : p.Knows r count) {name descriptor : String}
    (hi : r.constants.nameAndType i = .ok (name, descriptor)) :
    Repeats p (PoolM.nameAndType name descriptor) i := by
  obtain ⟨j, k, hjk, hname, hdescriptor⟩ := ConstantTable.exists_of_nameAndType hi
  exact (h.constant hname).bind ((h.constant hdescriptor).bind (h.constant hjk))

theorem unqualifiedName (h : p.Knows r count) {name : UnqualifiedName}
    (hi : r.unqualifiedName i = .ok name) : Repeats p (PoolM.utf8 name.text) i := by
  obtain ⟨text, htext, hi⟩ := bind_eq_ok.1 hi
  rw [text_of_parseUnqualifiedName hi]
  exact h.utf8 htext

theorem fieldType (h : p.Knows r count) {t : FieldType} (hi : r.fieldType i = .ok t) :
    Repeats p (PoolM.utf8 t.render) i := by
  obtain ⟨text, htext, hi⟩ := bind_eq_ok.1 hi
  rw [render_of_parseFieldType hi]
  exact h.utf8 htext

theorem methodDescriptor (h : p.Knows r count) {d : MethodDescriptor}
    (hi : r.methodDescriptor i = .ok d) : Repeats p (PoolM.utf8 d.render) i := by
  obtain ⟨text, htext, hi⟩ := bind_eq_ok.1 hi
  rw [render_of_parseMethodDescriptor hi]
  exact h.utf8 htext

theorem fieldMember (h : p.Knows r count) {name descriptor : String}
    (hi : r.constants.nameAndType i = .ok (name, descriptor)) {n : UnqualifiedName}
    (hname : parseUnqualifiedName name = .ok n) {t : FieldType}
    (htype : parseFieldType descriptor = .ok t) :
    Repeats p (PoolM.nameAndType n.text t.render) i := by
  rw [text_of_parseUnqualifiedName hname, render_of_parseFieldType htype]
  exact h.nameAndType hi

theorem methodMember (h : p.Knows r count) {name descriptor : String}
    (hi : r.constants.nameAndType i = .ok (name, descriptor)) {n : UnqualifiedName}
    (hname : parseUnqualifiedName name = .ok n) {d : MethodDescriptor}
    (hdescriptor : parseMethodDescriptor descriptor = .ok d) :
    Repeats p (PoolM.nameAndType n.text d.render) i := by
  rw [text_of_parseUnqualifiedName hname, render_of_parseMethodDescriptor hdescriptor]
  exact h.nameAndType hi

theorem fieldRef (h : p.Knows r count) {f : FieldRef} (hi : r.fieldRef i = .ok f) :
    Repeats p (PoolM.fieldRef f) i := by
  unfold Resolver.fieldRef at hi
  obtain ⟨c, hc, hi⟩ := bind_eq_ok.1 hi
  split at hi
  · obtain ⟨⟨name, descriptor⟩, hmember, hi⟩ := bind_eq_ok.1 hi
    obtain ⟨owner, howner, hi⟩ := bind_eq_ok.1 hi
    obtain ⟨name', hname, hi⟩ := bind_eq_ok.1 hi
    obtain ⟨descriptor', hdescriptor, hi⟩ := bind_eq_ok.1 hi
    obtain rfl := pure_eq_ok.1 hi
    have hknown := h.fieldMember hmember hname hdescriptor
    exact (h.className howner).bind (hknown.bind (h.constant hc))
  · cases hi

theorem methodRef (h : p.Knows r count) {m : MethodRef} (hi : r.methodRef i = .ok m) :
    Repeats p (PoolM.methodRef m) i := by
  unfold Resolver.methodRef at hi
  obtain ⟨c, hc, hi⟩ := bind_eq_ok.1 hi
  split at hi
  · obtain ⟨⟨name, descriptor⟩, hmember, hi⟩ := bind_eq_ok.1 hi
    obtain ⟨owner, howner, hi⟩ := bind_eq_ok.1 hi
    obtain ⟨name', hname, hi⟩ := bind_eq_ok.1 hi
    obtain ⟨descriptor', hdescriptor, hi⟩ := bind_eq_ok.1 hi
    obtain rfl := pure_eq_ok.1 hi
    have hknown := h.methodMember hmember hname hdescriptor
    exact (h.refType howner).bind (hknown.bind (h.constant hc))
  · cases hi

theorem handleMember (h : p.Knows r count) {m : HandleMember} (hi : r.HoldsMember i m) :
    Repeats p (PoolM.handleMember m) i := by
  cases m with
  | field f => exact h.fieldRef hi
  | method m => exact h.methodRef hi

theorem methodHandle (h : p.Knows r count) {m : MethodHandle} (hi : r.methodHandle i = .ok m) :
    Repeats p (PoolM.methodHandle m) i := by
  obtain ⟨-, member, hconstant, hmember⟩ := Resolver.exists_of_methodHandle hi
  exact (h.handleMember hmember).bind (h.constant hconstant)

theorem staticConstant (h : p.Knows r count) {c : StaticConstant} (hi : r.StaticAt i c) :
    Repeats p (PoolM.staticConstant c) i := by
  cases hi with
  | string hi htext => exact (h.utf8 htext).bind (h.constant hi)
  | integer hi | float hi | long hi | double hi => exact h.constant hi
  | classRef _ htype => exact h.refType htype
  | methodType hi hdescriptor => exact (h.methodDescriptor hdescriptor).bind (h.constant hi)
  | methodHandle _ hhandle => exact h.methodHandle hhandle

section Bootstrap

variable {R : ConstantIndex → LoadableConstant → Prop} {e : BootstrapEntry} {b : BootstrapMethod}
  {index : UInt16}

theorem bootstrapParts (h : p.Knows r count) (hb : r.EntryUnfoldsBy R e b)
    (harguments : ∀ a ∈ e.arguments, ∀ c, R a c → Repeats p (PoolM.loadable c) a) :
    Repeats p (PoolM.bootstrapParts b) e := by
  have hlowered : Repeats p (PoolM.loadables b.arguments) e.arguments :=
    .loadables (forall₂_imp_of_mem hb.arguments fun a ha c _ hc => harguments a ha c hc).flip
  exact (h.methodHandle hb.handle).bind (hlowered.bind (.pure p _))

theorem bootstrapMethod (h : p.Knows r count) (hb : r.EntryUnfoldsBy R e b)
    (he : r.bootstrapMethods[index.toNat]? = some e) (hindex : index.toNat < count)
    (harguments : ∀ a ∈ e.arguments, ∀ c, R a c → Repeats p (PoolM.loadable c) a) :
    Repeats p (PoolM.bootstrapMethod b) index := by
  refine (h.bootstrapParts hb harguments).bind fun q hq => PoolM.run_bootstrapEntry_of_some ?_
  exact hq.bootstrapIndices e index (h.bootstraps e index he hindex)

end Bootstrap

theorem loadable (h : p.Knows r count) (hr : r.RefersBack) {levels : Nat} {c : LoadableConstant}
    (hi : r.loadableWithin levels i = .ok c)
    (hdynamic : ∀ b member, r.constants.constant i = .ok (.dynamic b member) → b.toNat < count) :
    Repeats p (PoolM.loadable c) i := by
  -- the arguments of a known bootstrap method refer to bootstrap methods before it
  induction levels generalizing i c with
  | zero => cases hi
  | succ levels ih =>
    cases Resolver.loadableWithin_succ_eq_ok.1 hi with
    | static hstatic =>
      rw [PoolM.loadable]
      exact h.staticConstant hstatic
    | @dynamic _ e handle cs name descriptor hat hhandle hcs =>
      obtain ⟨hconstant, he, hmember, hname, hdescriptor⟩ := hat
      have hindex := hdynamic _ _ hconstant
      have hmethod := h.bootstrapMethod (b := ⟨handle, cs⟩) ⟨hhandle, hcs⟩ he hindex
        fun a ha c hc => ih hc fun b' m' hb' => Nat.lt_trans (hr _ e he a ha b' m' hb') hindex
      rw [PoolM.loadable_dynamic]
      exact hmethod.bind ((h.fieldMember hmember hname hdescriptor).bind (h.constant hconstant))

theorem exists_bootstrapParts_next (h : p.Knows r count) (hr : r.RefersBack) {index : UInt16}
    (hindex : index.toNat = count) {b : BootstrapMethod} (hb : r.bootstrap index = .ok b) :
    ∃ e, r.bootstrapMethods[index.toNat]? = some e ∧ Repeats p (PoolM.bootstrapParts b) e := by
  obtain ⟨e, he, hentry⟩ := Resolver.bootstrapMethod_eq_ok.1 hb
  refine ⟨e, he, h.bootstrapParts hentry fun a ha _ hc => h.loadable hr hc ?_⟩
  exact fun b' m' hb' => hindex ▸ hr _ e he a ha b' m' hb'

section All

variable (h : p.Knows r r.bootstrapMethods.length) (hr : r.RefersBack)

include h hr

theorem loadable_of_all {levels : Nat} {c : LoadableConstant}
    (hi : r.loadableWithin levels i = .ok c) : Repeats p (PoolM.loadable c) i := by
  refine h.loadable hr hi fun b member hb => ?_
  cases levels with
  | zero => cases hi
  | succ levels =>
    cases Resolver.loadableWithin_succ_eq_ok.1 hi with
    | static hstatic => exact absurd hb hstatic.ne_dynamic
    | dynamic hat =>
      obtain ⟨hconstant, he, -, -, -⟩ := hat
      rw [hb] at hconstant
      cases hconstant
      exact (List.getElem?_eq_some_iff.1 he).1

theorem callSite {s : CallSite} (hi : r.callSite i = .ok s) : Repeats p (PoolM.callSite s) i := by
  obtain ⟨e, ⟨hconstant, he, hmember, hname, hdescriptor⟩, hentry⟩ := Resolver.callSite_eq_ok.1 hi
  have hmethod := h.bootstrapMethod hentry he (List.getElem?_eq_some_iff.1 he).1
    fun _ _ _ hc => h.loadable_of_all hr hc
  exact hmethod.bind ((h.methodMember hmember hname hdescriptor).bind (h.constant hconstant))

theorem instruction {x : StoredInstruction} {s : SymbolicInstruction}
    (hx : r.instruction x = .ok s) : Repeats p (PoolM.instruction s) x := by
  unfold Resolver.instruction at hx
  unfold PoolM.instruction
  cases x with
  | ldc =>
    obtain ⟨c, hc, hx⟩ := bind_eq_ok.1 hx
    obtain rfl := pure_eq_ok.1 hx
    exact (h.loadable_of_all hr hc).bind (.pure p _)
  | ldc2 =>
    obtain ⟨c, hc, hx⟩ := bind_eq_ok.1 hx
    obtain rfl := pure_eq_ok.1 hx
    exact (h.loadable_of_all hr hc).bind (.pure p _)
  | onField =>
    obtain ⟨f, hf, hx⟩ := bind_eq_ok.1 hx
    obtain rfl := pure_eq_ok.1 hx
    exact (h.fieldRef hf).bind (.pure p _)
  | invoke =>
    obtain ⟨m, hm, hx⟩ := bind_eq_ok.1 hx
    obtain rfl := pure_eq_ok.1 hx
    exact (h.methodRef hm).bind (.pure p _)
  | invokeDynamic =>
    obtain ⟨s, hs, hx⟩ := bind_eq_ok.1 hx
    obtain rfl := pure_eq_ok.1 hx
    exact (h.callSite hr hs).bind (.pure p _)
  | onClass =>
    obtain ⟨t, ht, hx⟩ := bind_eq_ok.1 hx
    obtain rfl := pure_eq_ok.1 hx
    exact (h.refType ht).bind (.pure p _)
  | multiNewArray =>
    obtain ⟨t, ht, hx⟩ := bind_eq_ok.1 hx
    obtain rfl := pure_eq_ok.1 hx
    exact (h.refType ht).bind (.pure p _)
  | _ =>
    obtain rfl := pure_eq_ok.1 hx
    exact .pure p _

end All

end Pool.Knows

end ClassPatch
