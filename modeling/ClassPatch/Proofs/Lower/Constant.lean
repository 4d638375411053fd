import ClassPatch.Lower.Constant
import ClassPatch.Proofs.Descriptor.RoundTrip
import ClassPatch.Proofs.Lift.Level
import ClassPatch.Proofs.Lower.Rereading
import ClassPatch.Proofs.Pool.Lookup

/-!
Constants that were added to a pool resolve to what they were made from.
-/

namespace ClassPatch

/-- The handle does something with a field only if its member is one. -/
def MethodHandle.WellFormed (h : MethodHandle) : Prop :=
  match h.member with
  | .field _ => h.kind.isField = true
  | .method _ => h.kind.isField = false

def StaticConstant.WellFormed : StaticConstant → Prop
  | .methodHandle h => h.WellFormed
  | _ => True

/--
Constants that can be read from a class file: their dynamic constants nest fewer levels than given,
and are computed by bootstrap methods that it admits.
-/
def LoadableConstant.WellFormed (admits : BootstrapMethod → Prop) :
    Nat → LoadableConstant → Prop
  | 0, _ => False
  | _ + 1, .static c => c.WellFormed
  | levels + 1, .dynamic handle arguments _ _ =>
    admits ⟨handle, arguments⟩ ∧ handle.WellFormed ∧ arguments.length ≤ 0xFFFF
      ∧ ∀ c ∈ arguments, WellFormed admits levels c

namespace LoadableConstant

mutual

/-- Levels of arguments in the constant. -/
def nesting : LoadableConstant → Nat
  | .static _ => 0
  | .dynamic _ arguments _ _ => argumentNesting arguments

def argumentNesting : List LoadableConstant → Nat
  | [] => 0
  | c :: cs => max (nesting c + 1) (argumentNesting cs)

end

mutual

/-- The method handles in the constant do something with a field only if their member is one. -/
def HandlesMatch : LoadableConstant → Prop
  | .static c => c.WellFormed
  | .dynamic handle arguments _ _ => handle.WellFormed ∧ AllHandlesMatch arguments

def AllHandlesMatch : List LoadableConstant → Prop
  | [] => True
  | c :: cs => HandlesMatch c ∧ AllHandlesMatch cs

end

end LoadableConstant

/-- Bootstrap methods that can be resolved, of however many arguments. -/
structure BootstrapMethod.Resolvable (b : BootstrapMethod) : Prop where
  handle : b.handle.WellFormed
  arguments : LoadableConstant.AllHandlesMatch b.arguments
  nesting : LoadableConstant.argumentNesting b.arguments ≤ maxDynamicNesting

/-- Bootstrap methods that can be read from a class file. -/
structure BootstrapMethod.WellFormed (admits : BootstrapMethod → Prop) (b : BootstrapMethod) :
    Prop where
  admitted : admits b
  handle : b.handle.WellFormed
  arguments_length : b.arguments.length ≤ 0xFFFF
  arguments : ∀ c ∈ b.arguments, c.WellFormed admits maxDynamicNesting

theorem LoadableConstant.WellFormed.dynamic_inv {admits : BootstrapMethod → Prop} {levels : Nat}
    {handle : MethodHandle} {arguments : List LoadableConstant} {name : UnqualifiedName}
    {descriptor : FieldType}
    (h : WellFormed admits levels (.dynamic handle arguments name descriptor)) :
    levels = levels - 1 + 1 ∧ admits ⟨handle, arguments⟩ ∧ handle.WellFormed
      ∧ arguments.length ≤ 0xFFFF ∧ ∀ c ∈ arguments, c.WellFormed admits (levels - 1) := by
  cases levels with
  | zero => cases h
  | succ levels => exact ⟨rfl, h⟩

theorem LoadableConstant.WellFormed.mono {admits : BootstrapMethod → Prop} {levels levels' : Nat}
    (hle : levels ≤ levels') {c : LoadableConstant} (h : c.WellFormed admits levels) :
    c.WellFormed admits levels' := by
  induction levels generalizing levels' c with
  | zero => cases h
  | succ levels ih =>
    obtain ⟨levels', rfl⟩ : ∃ n, levels' = n + 1 := ⟨levels' - 1, by omega⟩
    cases c with
    | static c => exact h
    | dynamic handle arguments name descriptor =>
      obtain ⟨hadmitted, hhandle, hlength, harguments⟩ := h
      exact ⟨hadmitted, hhandle, hlength, fun c hc => ih (by omega) (harguments c hc)⟩

theorem LoadableConstant.resolvable_of_wellFormed {admits : BootstrapMethod → Prop} {levels : Nat} :
    (∀ c : LoadableConstant, c.WellFormed admits levels → c.HandlesMatch ∧ c.nesting < levels)
      ∧ ∀ cs : List LoadableConstant, (∀ c ∈ cs, c.WellFormed admits levels) →
        AllHandlesMatch cs ∧ argumentNesting cs ≤ levels := by
  induction levels with
  | zero =>
    refine ⟨fun c hc => absurd hc id, fun cs hcs => ?_⟩
    cases cs with
    | nil => exact ⟨trivial, Nat.le_refl 0⟩
    | cons c cs => exact absurd (hcs c List.mem_cons_self) id
  | succ levels ih =>
    have hconstant : ∀ c : LoadableConstant, c.WellFormed admits (levels + 1) →
        c.HandlesMatch ∧ c.nesting < levels + 1 := by
      intro c hc
      cases c with
      | static c => exact ⟨hc, Nat.succ_pos levels⟩
      | dynamic handle arguments name descriptor =>
        obtain ⟨-, hhandle, -, harguments⟩ := hc
        obtain ⟨hmatch, hnesting⟩ := ih.2 arguments harguments
        exact ⟨⟨hhandle, hmatch⟩, Nat.lt_succ_of_le hnesting⟩
    refine ⟨hconstant, fun cs hcs => ?_⟩
    induction cs with
    | nil => exact ⟨trivial, Nat.zero_le _⟩
    | cons c cs ihcs =>
      rw [List.forall_mem_cons] at hcs
      obtain ⟨hmatch, hnesting⟩ := hconstant c hcs.1
      obtain ⟨hmatches, hnestings⟩ := ihcs hcs.2
      exact ⟨⟨hmatch, hmatches⟩, Nat.max_le.2 ⟨hnesting, hnestings⟩⟩

theorem BootstrapMethod.WellFormed.resolvable {admits : BootstrapMethod → Prop}
    {b : BootstrapMethod} (h : b.WellFormed admits) : b.Resolvable := by
  obtain ⟨hmatch, hnesting⟩ := LoadableConstant.resolvable_of_wellFormed.2 b.arguments h.arguments
  exact ⟨h.handle, hmatch, hnesting⟩

namespace Resolver

variable {r : Resolver} {index : ConstantIndex}

theorem utf8_of_constant {text : String} (h : r.constants.constant index = .ok (.utf8 text)) :
    r.utf8 index = .ok text :=
  ConstantTable.utf8_of_constant h

theorem constants_className {name : ConstantIndex} {text : String}
    (h : r.constants.constant index = .ok (.classRef name)) (hname : r.utf8 name = .ok text) :
    r.constants.className index = .ok text := by
  simp only [ConstantTable.className, h, ok_bind]
  exact hname

theorem constants_nameAndType {name descriptor : ConstantIndex} {texts : String × String}
    (h : r.constants.constant index = .ok (.nameAndType name descriptor))
    (hname : r.utf8 name = .ok texts.1) (hdescriptor : r.utf8 descriptor = .ok texts.2) :
    r.constants.nameAndType index = .ok texts := by
  unfold utf8 at hname hdescriptor
  simp only [ConstantTable.nameAndType, h, ok_bind, hname, hdescriptor]
  rfl

theorem className_of_constants {name : BinaryName}
    (h : r.constants.className index = .ok name.text) : r.className index = .ok name := by
  simp only [className, h, ok_bind, parseBinaryName_text]

theorem refType_of_constants {t : RefType}
    (h : r.constants.className index = .ok t.constantName) : r.refType index = .ok t := by
  simp only [refType, h, ok_bind, parseRefType_constantName]

theorem fieldRef_of_constant {f : FieldRef} {owner member : ConstantIndex}
    (h : r.constants.constant index = .ok (.fieldRef owner member))
    (howner : r.className owner = .ok f.owner)
    (hmember : r.constants.nameAndType member = .ok (f.name.text, f.descriptor.render)) :
    r.fieldRef index = .ok f := by
  simp only [fieldRef, h, ok_bind, hmember, howner, parseUnqualifiedName_text,
    parseFieldType_render]
  rfl

theorem methodRef_of_constant {m : MethodRef} {owner member : ConstantIndex}
    (h : r.constants.constant index = .ok (.methodRef owner member m.isInterface))
    (howner : r.refType owner = .ok m.owner)
    (hmember : r.constants.nameAndType member = .ok (m.name.text, m.descriptor.render)) :
    r.methodRef index = .ok m := by
  simp only [methodRef, h, ok_bind, hmember, howner, parseUnqualifiedName_text,
    parseMethodDescriptor_render]
  rfl

/-- What the member of a method handle resolves to. -/
def HoldsMember (r : Resolver) (index : ConstantIndex) : HandleMember → Prop
  | .field f => r.fieldRef index = .ok f
  | .method m => r.methodRef index = .ok m

theorem methodHandle_of_constant {m : MethodHandle} {member : ConstantIndex}
    (h : r.constants.constant index = .ok (.methodHandle m.kind member)) (hm : m.WellFormed)
    (hmember : r.HoldsMember member m.member) : r.methodHandle index = .ok m := by
  obtain ⟨kind, target⟩ := m
  simp only [methodHandle, h, ok_bind]
  cases target with
  | field f =>
    have hkind : kind.isField = true := hm
    have hf : r.fieldRef member = .ok f := hmember
    rw [if_pos hkind, hf]
    rfl
  | method m =>
    have hkind : kind.isField = false := hm
    have hm : r.methodRef member = .ok m := hmember
    rw [if_neg (Bool.eq_false_iff.1 hkind), hm]
    rfl

theorem exists_of_methodHandle {m : MethodHandle} (h : r.methodHandle index = .ok m) :
    m.WellFormed ∧ ∃ member, r.constants.constant index = .ok (.methodHandle m.kind member)
      ∧ r.HoldsMember member m.member := by
  unfold methodHandle at h
  obtain ⟨c, hc, h⟩ := bind_eq_ok.1 h
  split at h
  next kind member =>
    split at h
    next hkind =>
      obtain ⟨f, hf, h⟩ := bind_eq_ok.1 h
      obtain rfl := pure_eq_ok.1 h
      exact ⟨hkind, member, hc, hf⟩
    next hkind =>
      obtain ⟨m, hm, h⟩ := bind_eq_ok.1 h
      obtain rfl := pure_eq_ok.1 h
      exact ⟨Bool.eq_false_iff.2 hkind, member, hc, hm⟩
  · cases h

end Resolver

namespace PoolM

variable {s : Rereading}

theorem yields_utf8 (text : String) :
    Yields s (utf8 text) fun i => s.resolver.utf8 i = .ok text := by
  unfold utf8
  exact (yields_constant _).mono fun _ => Resolver.utf8_of_constant

theorem yields_className (name : BinaryName) :
    Yields s (className name) fun i => s.resolver.className i = .ok name := by
  unfold className
  refine (yields_utf8 _).bind fun text => (yields_constant _).mono ?_
  intro i hi htext
  exact Resolver.className_of_constants (Resolver.constants_className hi htext)

theorem yields_refType (t : RefType) :
    Yields s (refType t) fun i => s.resolver.refType i = .ok t := by
  unfold refType
  refine (yields_utf8 _).bind fun text => (yields_constant _).mono ?_
  intro i hi htext
  exact Resolver.refType_of_constants (Resolver.constants_className hi htext)

theorem yields_nameAndType (name descriptor : String) :
    Yields s (nameAndType name descriptor) fun i =>
      s.resolver.constants.nameAndType i = .ok (name, descriptor) := by
  unfold nameAndType
  refine (yields_utf8 _).bind fun n => ?_
  refine (yields_utf8 _).bind fun d => (yields_constant _).mono ?_
  intro i hi hdescriptor hname
  exact Resolver.constants_nameAndType hi hname hdescriptor

theorem yields_fieldRef (f : FieldRef) :
    Yields s (fieldRef f) fun i => s.resolver.fieldRef i = .ok f := by
  unfold fieldRef
  refine (yields_className _).bind fun owner => ?_
  refine (yields_nameAndType _ _).bind fun member => (yields_constant _).mono ?_
  intro i hi hmember howner
  exact Resolver.fieldRef_of_constant hi howner hmember

theorem yields_methodRef (m : MethodRef) :
    Yields s (methodRef m) fun i => s.resolver.methodRef i = .ok m := by
  unfold methodRef
  refine (yields_refType _).bind fun owner => ?_
  refine (yields_nameAndType _ _).bind fun member => (yields_constant _).mono ?_
  intro i hi hmember howner
  exact Resolver.methodRef_of_constant hi howner hmember

theorem yields_handleMember (m : HandleMember) :
    Yields s (handleMember m) fun i => s.resolver.HoldsMember i m := by
  cases m with
  | field f => exact yields_fieldRef f
  | method m => exact yields_methodRef m

variable {P : Prop}

theorem yields_methodHandle {h : MethodHandle} (hh : P → h.WellFormed) :
    Yields s (methodHandle h) fun i => P → s.resolver.methodHandle i = .ok h := by
  unfold methodHandle
  refine (yields_handleMember _).bind fun member => (yields_constant _).mono ?_
  intro i hi hmember hP
  exact Resolver.methodHandle_of_constant hi (hh hP) hmember

theorem yields_staticConstant {c : StaticConstant} (hc : P → c.WellFormed) :
    Yields s (staticConstant c) fun i => P → s.resolver.StaticAt i c := by
  cases c with
  | string text =>
    refine (yields_utf8 _).bind fun t => (yields_constant _).mono ?_
    exact fun i hi htext _ => .string hi htext
  | integer value => exact (yields_constant _).mono fun i hi _ => .integer hi
  | float value => exact (yields_constant _).mono fun i hi _ => .float hi
  | long value => exact (yields_constant _).mono fun i hi _ => .long hi
  | double value => exact (yields_constant _).mono fun i hi _ => .double hi
  | classRef t =>
    refine (yields_utf8 _).bind fun text => (yields_constant _).mono ?_
    intro i hi htext _
    exact .classRef hi (Resolver.refType_of_constants (Resolver.constants_className hi htext))
  | methodType descriptor =>
    refine (yields_utf8 _).bind fun text => (yields_constant _).mono ?_
    intro i hi htext _
    have hdescriptor := bind_of_eq_ok htext parseMethodDescriptor
    exact .methodType hi (hdescriptor.trans (parseMethodDescriptor_render _))
  | methodHandle h =>
    refine (yields_handleMember _).bind fun member => (yields_constant _).mono ?_
    intro i hi hmember hP
    exact .methodHandle hi (Resolver.methodHandle_of_constant hi (hc hP) hmember)

theorem loadable_dynamic (handle : MethodHandle) (arguments : List LoadableConstant)
    (name : UnqualifiedName) (descriptor : FieldType) :
    loadable (.dynamic handle arguments name descriptor) = (do
      let bootstrap ← bootstrapMethod ⟨handle, arguments⟩
      let member ← nameAndType name.text descriptor.render
      constant (.dynamic bootstrap member)) := by
  rw [loadable]
  simp only [bootstrapMethod, bootstrapParts, bind_assoc, pure_bind]

open LoadableConstant (AllHandlesMatch argumentNesting resolvable_of_wellFormed)

mutual

theorem yields_loadable_of : (c : LoadableConstant) → {levels : Nat} →
    levels ≤ maxDynamicNesting + 1 → (P → c.HandlesMatch ∧ c.nesting < levels) →
      (s.wellFormed → P ∧ c.WellFormed s.admits levels) →
        Yields s (loadable c) fun i => P → s.resolver.loadableWithin levels i = .ok c
  | .static c, levels, _, hc, _ => by
    unfold loadable
    have hc' : P → c.WellFormed := fun hP => (hc hP).1
    refine (yields_staticConstant hc').mono ?_
    intro i hi hP
    have hlevels : levels = levels - 1 + 1 := by
      have := (hc hP).2
      omega
    rw [hlevels]
    exact Resolver.loadableWithin_succ_eq_ok.2 (.static (hi hP))
  | .dynamic handle arguments name descriptor, levels, hlevels, hc, hwf => by
    have hinv : P → handle.WellFormed ∧ AllHandlesMatch arguments
        ∧ argumentNesting arguments ≤ levels - 1 ∧ levels = levels - 1 + 1 := by
      intro hP
      obtain ⟨⟨hhandle, hmatch⟩, hnesting⟩ := hc hP
      have hlt : argumentNesting arguments < levels := hnesting
      exact ⟨hhandle, hmatch, by omega, by omega⟩
    have hparts : Yields s (bootstrapParts ⟨handle, arguments⟩) fun e => P →
        s.resolver.methodHandle e.handle = .ok handle
          ∧ List.Forall₂ (fun c i => s.resolver.loadableWithin (levels - 1) i = .ok c)
            arguments e.arguments := by
      unfold bootstrapParts
      refine (yields_methodHandle fun hP => (hinv hP).1).bind fun h => ?_
      refine (yields_loadables_of arguments (by omega)
        (fun hP => ⟨(hinv hP).2.1, (hinv hP).2.2.1⟩)
        fun h => ⟨(hwf h).1, (hwf h).2.dynamic_inv.2.2.2.2⟩).map ?_
      intro is his hh hP
      exact ⟨hh hP, his hP⟩
    have hentry := hparts.bind_bootstrapEntry fun e he h =>
      ⟨(hwf h).2.dynamic_inv.2.1, (hwf h).2.dynamic_inv.2.2.2.1, (he (hwf h).1).1,
        (he (hwf h).1).2.imp fun _ _ h => Resolver.loadableWithin_mono (by omega) h⟩
    rw [loadable_dynamic]
    refine hentry.bind fun bootstrap => ?_
    refine (yields_nameAndType _ _).bind fun member => (yields_constant _).mono ?_
    rintro i hi hmember ⟨e, he, hresolved⟩ hP
    have hdynamic : s.resolver.DynamicAt i e name descriptor :=
      .intro hi he hmember (parseUnqualifiedName_text _) (parseFieldType_render _)
    rw [(hinv hP).2.2.2]
    exact Resolver.loadableWithin_succ_eq_ok.2
      (.dynamic hdynamic (hresolved hP).1 (hresolved hP).2.flip)

theorem yields_loadables_of : (cs : List LoadableConstant) → {levels : Nat} →
    levels ≤ maxDynamicNesting + 1 → (P → AllHandlesMatch cs ∧ argumentNesting cs ≤ levels) →
      (s.wellFormed → P ∧ ∀ c ∈ cs, c.WellFormed s.admits levels) →
        Yields s (loadables cs) fun is =>
          P → List.Forall₂ (fun c i => s.resolver.loadableWithin levels i = .ok c) cs is
  | [], _, _, _, _ => .pure fun _ => .nil
  | c :: cs, levels, hlevels, hcs, hwf => by
    unfold loadables
    have hnesting (hP : P) : c.nesting < levels ∧ argumentNesting cs ≤ levels :=
      Nat.max_le.1 (hcs hP).2
    refine (yields_loadable_of c hlevels (fun hP => ⟨(hcs hP).1.1, (hnesting hP).1⟩)
      fun h => ⟨(hwf h).1, (hwf h).2 c List.mem_cons_self⟩).bind fun i => ?_
    refine (yields_loadables_of cs hlevels (fun hP => ⟨(hcs hP).1.2, (hnesting hP).2⟩)
      fun h => ⟨(hwf h).1, fun c' hc' => (hwf h).2 c' (List.mem_cons_of_mem _ hc')⟩).bind
        fun is => ?_
    exact .pure fun his hi hP => .cons (hi hP) (his hP)

end

theorem yields_loadable (c : LoadableConstant) {levels : Nat}
    (hlevels : levels ≤ maxDynamicNesting + 1) (hc : s.wellFormed → c.WellFormed s.admits levels) :
    Yields s (loadable c) fun i => s.wellFormed → s.resolver.loadableWithin levels i = .ok c :=
  yields_loadable_of c hlevels (fun h => resolvable_of_wellFormed.1 c (hc h)) fun h => ⟨h, hc h⟩

theorem yields_loadables (cs : List LoadableConstant) {levels : Nat}
    (hlevels : levels ≤ maxDynamicNesting + 1)
    (hcs : s.wellFormed → ∀ c ∈ cs, c.WellFormed s.admits levels) :
    Yields s (loadables cs) fun is => s.wellFormed →
      List.Forall₂ (fun c i => s.resolver.loadableWithin levels i = .ok c) cs is :=
  yields_loadables_of cs hlevels (fun h => resolvable_of_wellFormed.2 cs (hcs h))
    fun h => ⟨h, hcs h⟩

theorem yields_bootstrapParts_of {b : BootstrapMethod} (hb : P → b.Resolvable)
    (hwf : s.wellFormed → P ∧ b.WellFormed s.admits) :
    Yields s (bootstrapParts b) fun e => P → s.Resolves e b := by
  unfold bootstrapParts
  refine (yields_methodHandle fun hP => (hb hP).handle).bind fun handle => ?_
  refine (yields_loadables_of _ (Nat.le_succ _) (fun hP => ⟨(hb hP).arguments, (hb hP).nesting⟩)
    fun h => ⟨(hwf h).1, (hwf h).2.arguments⟩).map ?_
  intro arguments harguments hhandle hP
  exact ⟨hhandle hP, harguments hP⟩

theorem yields_bootstrapParts {b : BootstrapMethod} (hb : s.wellFormed → b.WellFormed s.admits) :
    Yields s (bootstrapParts b) fun e => s.wellFormed → s.Resolves e b :=
  yields_bootstrapParts_of (fun h => (hb h).resolvable) fun h => ⟨h, hb h⟩

theorem yields_bootstrapMethod_of {b : BootstrapMethod} (hb : P → b.Resolvable)
    (hwf : s.wellFormed → P ∧ b.WellFormed s.admits) :
    Yields s (bootstrapMethod b) fun i => P → s.resolver.bootstrap i = .ok b := by
  unfold bootstrapMethod
  refine ((yields_bootstrapParts_of hb hwf).bind_bootstrapEntry fun e he h =>
    ⟨(hwf h).2.admitted, (hwf h).2.arguments_length, he (hwf h).1⟩).mono ?_
  rintro i ⟨e, he, hresolves⟩ hP
  exact Resolver.bootstrapMethod_of_getElem? he (hresolves hP).1 (hresolves hP).2

theorem yields_callSite_of {c : CallSite} (hc : P → c.bootstrap.Resolvable)
    (hwf : s.wellFormed → P ∧ c.bootstrap.WellFormed s.admits) :
    Yields s (callSite c) fun i => P → s.resolver.callSite i = .ok c := by
  unfold callSite
  refine (yields_bootstrapMethod_of hc hwf).bind fun bootstrap => ?_
  refine (yields_nameAndType _ _).bind fun member => (yields_constant _).mono ?_
  intro i hi hmember hbootstrap hP
  obtain ⟨e, he, hentry⟩ := Resolver.bootstrapMethod_eq_ok.1 (hbootstrap hP)
  have hsite : s.resolver.CallSiteAt i e c.name c.descriptor :=
    .intro hi he hmember (parseUnqualifiedName_text _) (parseMethodDescriptor_render _)
  exact Resolver.callSite_eq_ok.2 ⟨e, hsite, hentry⟩

theorem yields_callSite {c : CallSite} (hc : s.wellFormed → c.bootstrap.WellFormed s.admits) :
    Yields s (callSite c) fun i => s.wellFormed → s.resolver.callSite i = .ok c :=
  yields_callSite_of (fun h => (hc h).resolvable) fun h => ⟨h, hc h⟩

end PoolM

end ClassPatch
