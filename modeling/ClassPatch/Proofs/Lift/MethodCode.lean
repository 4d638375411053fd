import ClassPatch.Proofs.Lift.Class
import ClassPatch.Proofs.Lift.Code

/-!
The code of a method as the class file stores it: where it is found, and that nothing else becomes
the code of the lifted method.
-/

namespace ClassPatch

namespace Stored.ClassFile

/-- Take the code of a method from an attribute, if that is what it holds. -/
def addCode (constants : ConstantTable) (code : Option Code) (a : Attribute) :
    Except ClassError (Option Code) := do
  if (← constants.utf8 a.nameIndex) = "Code" then
    return some (← AttributeFormat.code.parse a.info)
  else
    return code

/-- The code of a method, which the last attribute of that name holds. -/
def code? (file : ClassFile) (m : Member .method) : Except ClassError (Option Code) :=
  m.attributes.foldlM (addCode file.constants) none

variable {file : ClassFile} {m : Member .method} {x : Code}

theorem exists_utf8_of_code? (h : file.code? m = .ok (some x)) :
    ∃ i, file.constants.constant i = .ok (.utf8 "Code") := by
  have hfound : (some x).isSome = true → ∃ i, file.constants.constant i = .ok (.utf8 "Code") := by
    refine foldlM_induction (I := fun code : Option Code => code.isSome = true →
      ∃ i, file.constants.constant i = .ok (.utf8 "Code")) ?_ (fun h => by cases h) h
    intro code a _ code' hcode hstep
    unfold addCode at hstep
    obtain ⟨name, hname, hstep⟩ := bind_eq_ok.1 hstep
    split at hstep
    next heq =>
      rw [heq] at hname
      exact fun _ => ⟨_, ConstantTable.constant_of_utf8 hname⟩
    next => exact pure_eq_ok.1 hstep ▸ hcode
  exact hfound rfl

end Stored.ClassFile

namespace Resolver

variable {r : Resolver}

theorem MethodStep.addCode {m n : Method} {code code' : Option Stored.Code} {a : Stored.Attribute}
    (h : r.MethodStep m code a (n, code')) :
    Stored.ClassFile.addCode r.constants code a = .ok code' := by
  have hother {text : String} (name : r.utf8 a.nameIndex = .ok text) (hne : text ≠ "Code") :
      Stored.ClassFile.addCode r.constants code a = .ok code := by
    unfold Stored.ClassFile.addCode
    rw [show r.constants.utf8 a.nameIndex = .ok text from name, ok_bind, if_neg hne]
    rfl
  cases h with
  | code name h =>
    unfold Stored.ClassFile.addCode
    rw [show r.constants.utf8 a.nameIndex = .ok "Code" from name, ok_bind, if_pos rfl, h]
    rfl
  | verbatim name h =>
    refine hother name fun hcode => h ?_
    rw [hcode]
    decide
  | _ => exact hother (by assumption) (by decide)

theorem MethodStep.code_none {m n : Method} {code code' : Option Stored.Code}
    {a : Stored.Attribute} (h : r.MethodStep m code a (n, code')) (hm : m.code = none) :
    n.code = none := by
  cases h <;> exact hm

theorem code_of_method {file : Stored.ClassFile} (hconstants : r.constants = file.constants)
    {owner : BinaryName} {x : Stored.Member .method} {m : Method} (h : r.method owner x = .ok m) :
    ∃ code, file.code? x = .ok code ∧ code.mapM (r.code (m.context owner)) = .ok m.code := by
  unfold method at h
  obtain ⟨name, -, h⟩ := bind_eq_ok.1 h
  obtain ⟨descriptor, -, h⟩ := bind_eq_ok.1 h
  obtain ⟨⟨n, code⟩, hfold, h⟩ := bind_eq_ok.1 h
  have hcode : file.code? x = .ok code := by
    unfold Stored.ClassFile.code?
    rw [← hconstants]
    have hstep (n : PartialMethod) (a : Stored.Attribute) (n' : PartialMethod)
        (hstep : r.addToMethod n a = .ok n') :
        Stored.ClassFile.addCode r.constants n.2 a = .ok n'.2 :=
      (methodStep_of_addToMethod r hstep).addCode
    exact foldlM_of_projection hstep hfold
  have hnone : n.code = none := by
    refine foldlM_induction (I := fun n : PartialMethod => n.1.code = none) ?_ rfl hfold
    rintro ⟨n, code⟩ a - ⟨n', code'⟩ hnone hstep
    exact (methodStep_of_addToMethod r hstep).code_none hnone
  refine ⟨code, hcode, ?_⟩
  cases code with
  | none =>
    obtain rfl := pure_eq_ok.1 h
    rw [hnone]
    rfl
  | some y =>
    obtain ⟨c, hc, h⟩ := bind_eq_ok.1 h
    obtain rfl := pure_eq_ok.1 h
    refine (bind_of_eq_ok hc _).trans ?_
    rfl

end Resolver

namespace ClassLifted

variable {file : Stored.ClassFile} {r : Resolver} {c : Class}

theorem exists_codeLifted (h : ClassLifted file r c) {i : Nat} {m : Method} {code : Code}
    (hm : c.methods[i]? = some m) (hcode : m.code = some code) :
    ∃ m' x p, file.methods[i]? = some m' ∧ file.code? m' = .ok (some x)
      ∧ CodeLifted r (m.context c.name) x p code := by
  obtain ⟨m', hm', hmethod⟩ := exists_rel_of_getElem? (mapM_eq_ok.1 h.methods).flip hm
  obtain ⟨stored, hstored, hcodes⟩ := Resolver.code_of_method h.constants hmethod
  rw [hcode] at hcodes
  cases optionMapM_eq_ok.1 hcodes with
  | @some x _ hx =>
    obtain ⟨p, hp⟩ := codeLifted_of_code hx
    exact ⟨m', x, p, hm', hstored, hp⟩

theorem exists_codeLifted_of_code? (h : ClassLifted file r c) {j : Nat} {m : Stored.Member .method}
    {x : Stored.Code} (hm : file.methods[j]? = some m) (hx : file.code? m = .ok (some x)) :
    ∃ n code p, c.methods[j]? = some n ∧ n.code = some code
      ∧ CodeLifted r (n.context c.name) x p code := by
  obtain ⟨n, hn, hmethod⟩ := exists_rel_of_getElem? (mapM_eq_ok.1 h.methods) hm
  obtain ⟨stored, hstored, hcodes⟩ := Resolver.code_of_method h.constants hmethod
  rw [hx] at hstored
  cases hstored
  cases hcode : n.code with
  | none =>
    rw [hcode] at hcodes
    cases optionMapM_eq_ok.1 hcodes
  | some code =>
    rw [hcode] at hcodes
    cases optionMapM_eq_ok.1 hcodes with
    | some hlifted =>
      obtain ⟨p, hp⟩ := codeLifted_of_code hlifted
      exact ⟨n, code, p, hn, hcode, hp⟩

end ClassLifted

end ClassPatch
