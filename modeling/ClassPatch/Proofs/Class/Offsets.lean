import ClassPatch.Proofs.Lift.MethodCode
import ClassPatch.Proofs.Lift.Tight
import ClassPatch.Proofs.Lower.Extending
import ClassPatch.Proofs.Lower.Found
import ClassPatch.Proofs.Lower.Limits

/-!
The code of a method of a class that keeps its pool, where the class is written again.
-/

namespace ClassPatch

namespace Stored.ClassFile

/-- The method has an attribute that holds the code. -/
def HoldsCode (file : ClassFile) (m : Member .method) (x : Code) : Prop :=
  ∃ a ∈ m.attributes, file.constants.utf8 a.nameIndex = .ok "Code" ∧ a.info = x.write

end Stored.ClassFile

theorem Stored.Code.code_eq_of_write_eq {x y : Stored.Code} (h : x.write = y.write)
    (hlength : y.write.length < 2 ^ 32) : x.code = y.code := by
  let code : Reader Bytes := do
    let _ ← Reader.u16
    let _ ← Reader.u16
    Reader.bytes32
  have hread {z : Stored.Code} (hz : z.write.length < 2 ^ 32) :
      ∃ rest, code.run z.write = .ok (z.code, rest) := by
    have hlt : z.code.length < 2 ^ 32 := Nat.lt_of_le_of_lt z.length_code_le hz
    have hreads : Reader.Reads code
        (Writer.u16 z.maxStack ++ (Writer.u16 z.maxLocals ++ Writer.bytes32 z.code)) z.code :=
      (Reader.reads_u16 _).bind ((Reader.reads_u16 _).bind (Reader.reads_bytes32 hlt))
    have hwrite : z.write = (Writer.u16 z.maxStack ++ (Writer.u16 z.maxLocals
        ++ Writer.bytes32 z.code)) ++ (Writer.list16 ExceptionHandler.write z.exceptionTable
          ++ Writer.list16 Attribute.write z.attributes) := by
      simp only [write, List.append_assoc]
    rw [hwrite]
    exact ⟨_, hreads _⟩
  obtain ⟨rest, hx⟩ := hread (h ▸ hlength)
  obtain ⟨rest', hy⟩ := hread hlength
  rw [h, hy] at hx
  exact (Prod.mk.inj (Except.ok.inj hx)).1.symm

namespace PoolM

variable {p q : Pool}

theorem exists_elements_of_run {context : MethodContext} {c : Code} {x : Stored.Code}
    (h : (code context c).run p = (.ok x, q)) :
    ∃ elements a p', (c.elements.mapM layoutElement).run p = (.ok elements, p')
      ∧ assemble elements = .ok a ∧ x.code = a.bytes := by
  rw [code_eq] at h
  obtain ⟨a, _, hlayout, h⟩ := run_bind_eq_ok.1 h
  obtain ⟨elements, p', helements, hlayout⟩ := run_bind_eq_ok.1 hlayout
  obtain ⟨hassemble, -⟩ := run_lift_eq_ok.1 hlayout
  exact ⟨elements, a, p', helements, hassemble, (parts_of_run_codeAround h).1⟩

theorem exists_code_of_method {owner : BinaryName} {m : Method} {c : Code}
    {y : Stored.Member .method} (hc : m.code = some c)
    (h : (method owner m).run p = (.ok y, q)) :
    ∃ x i p₁ q₁, p.Extends p₁ ∧ (code (m.context owner) c).run p₁ = (.ok x, q₁)
      ∧ ⟨i, x.write⟩ ∈ y.attributes ∧ q.indices[Constant.utf8 "Code"]? = some i := by
  unfold method at h
  obtain ⟨name, p₁, hname, h⟩ := run_bind_eq_ok.1 h
  obtain ⟨descriptor, p₂, hdescriptor, h⟩ := run_bind_eq_ok.1 h
  obtain ⟨codes, p₃, hcodes, h⟩ := run_bind_eq_ok.1 h
  have haround : p₃.Extends q := Extending.extends_of_run (P := True) (.methodAround m) h
  have hmem : ∀ a ∈ codes, a ∈ y.attributes := by
    simp only [run_bind_eq_ok] at h
    obtain ⟨exceptions, _, -, signature, _, -, annotations, _, -, parameters, _, -, default, _, -,
      attributes, _, -, h⟩ := h
    obtain ⟨rfl, -⟩ := run_pure_eq_ok.1 h
    intro a ha
    simp only [List.mem_append, ha, true_or]
  unfold ifSome at hcodes
  rw [hc, Option.mapM_some, map_eq_pure_bind, bind_assoc] at hcodes
  obtain ⟨a, p₄, ha, hcodes⟩ := run_bind_eq_ok.1 hcodes
  obtain ⟨rfl, rfl⟩ := run_pure_eq_ok.1 hcodes
  obtain ⟨x, p₅, hx, hstore⟩ := run_bind_eq_ok.1 ha
  obtain ⟨i, p₆, hi, hstore⟩ := run_bind_eq_ok.1 hstore
  obtain ⟨info, p₇, hinfo, hstore⟩ := run_bind_eq_ok.1 hstore
  obtain ⟨hwrite, rfl⟩ := run_lift_eq_ok.1 hinfo
  obtain ⟨rfl, rfl⟩ := run_pure_eq_ok.1 hstore
  cases hwrite
  have hfirst : p.Extends p₁ := Extending.extends_of_run (P := True) (.utf8 _) hname
  have hsecond : p₁.Extends p₂ := Extending.extends_of_run (P := True) (.utf8 _) hdescriptor
  refine ⟨x, i, p₂, p₅, hfirst.trans hsecond, hx, hmem _ List.mem_cons_self, ?_⟩
  exact haround.indices _ _ (Pool.grows_insert Pool.anyEntry hi).2

theorem forall₂_of_classFile {c : Class} {file : Stored.ClassFile}
    (hempty : p.bootstrapMethods = #[]) (h : (classFile c).run p = (.ok file, q)) :
    file.constants = q.constants
      ∧ ∃ p₀, (restoreBootstraps c.bootstrapMethods).run p = (.ok (), p₀) ∧ p.Extends p₀
        ∧ List.Forall₂ (fun m y => ∃ p₁ q₁, p₀.Extends p₁
          ∧ (method c.name m).run p₁ = (.ok y, q₁) ∧ q₁.Extends q) c.methods file.methods := by
  unfold classFile at h
  obtain ⟨u, p₀, hrestored, h⟩ := run_bind_eq_ok.1 h
  obtain ⟨thisClass, p₁, hthis, h⟩ := run_bind_eq_ok.1 h
  obtain ⟨superClass, p₂, hsuper, h⟩ := run_bind_eq_ok.1 h
  obtain ⟨interfaces, p₃, hinterfaces, h⟩ := run_bind_eq_ok.1 h
  obtain ⟨fields, p₄, hfields, h⟩ := run_bind_eq_ok.1 h
  obtain ⟨methods, p₅, hmethods, h⟩ := run_bind_eq_ok.1 h
  obtain ⟨attributes, p₆, hattributes, h⟩ := run_bind_eq_ok.1 h
  obtain ⟨table, p₇, htable, h⟩ := run_bind_eq_ok.1 h
  obtain ⟨_, _, hget, h⟩ := run_bind_eq_ok.1 h
  cases hget
  obtain ⟨rfl, rfl⟩ := run_pure_eq_ok.1 h
  have hfrom := hrestored
  rw [run_restoreBootstraps_eq hempty] at hfrom
  have h₀ : p.Extends p₀ := (p.extends_answer (.reserve c.bootstrapMethods.length)).trans
    (Extending.extends_of_run (P := True) (.restoreFrom _ _) hfrom)
  have h₁ : p₀.Extends p₁ := Extending.extends_of_run (P := True) (.className _) hthis
  have h₂ : p₁.Extends p₂ :=
    Extending.extends_of_run (P := True) (.optionMapM fun _ _ => .className _) hsuper
  have h₃ : p₂.Extends p₃ :=
    Extending.extends_of_run (P := True) (.mapM fun _ _ => .className _) hinterfaces
  have h₄ : p₃.Extends p₄ := Extending.extends_of_run (P := True) (.mapM fun _ _ => .field _) hfields
  have h₆ : p₅.Extends p₆ := Extending.extends_of_run (P := True) (.classAttributes c) hattributes
  have h₇ : p₆.Extends p₇ := Extending.extends_of_run (P := True) .bootstrapTable htable
  have hbefore := h₁.trans (h₂.trans (h₃.trans h₄))
  refine ⟨rfl, p₀, hrestored, h₀,
    (Extending.forall₂_of_run (fun m _ => .method _ m) hmethods).imp ?_⟩
  rintro m y ⟨p', q', hp', hrun, hq'⟩
  exact ⟨p', q', hbefore.trans hp', hrun, hq'.trans (h₆.trans h₇)⟩

end PoolM

namespace Class

variable {d : Class} {file : Stored.ClassFile} {t : ConstantTable}

/-- Where a class that keeps its pool is lowered, the code of a method is laid out and held by the
attribute that holds code. -/
theorem exists_code_of_toClassFile (hpool : d.constantPool = some t) (hdense : t.Dense)
    (hname : ∃ i, t.constant i = .ok (.utf8 "Code")) (h : d.toClassFile = .ok file) {j : Nat}
    {m : Method} {c : Code} (hm : d.methods[j]? = some m) (hc : m.code = some c) :
    ∃ y x elements a p₀ p₁ p₂, file.methods[j]? = some y ∧ file.HoldsCode y x
      ∧ (PoolM.restoreBootstraps d.bootstrapMethods).run d.initialPool = (.ok (), p₀)
      ∧ p₀.Extends p₁ ∧ (c.elements.mapM PoolM.layoutElement).run p₁ = (.ok elements, p₂)
      ∧ assemble elements = .ok a ∧ x.code = a.bytes := by
  have hinitial : d.initialPool = .ofTable t := by
    unfold initialPool
    rw [hpool]
  obtain ⟨q, hrun⟩ : ∃ q, (PoolM.classFile d).run d.initialPool = (.ok file, q) :=
    ⟨_, Prod.ext h rfl⟩
  obtain ⟨hconstants, p₀, hrestore, hp₀, hmethods⟩ :=
    PoolM.forall₂_of_classFile d.bootstrapMethods_initialPool hrun
  obtain ⟨y, hy, p₁, q₁, hp₁, hmethod, hq₁⟩ := exists_rel_of_getElem? hmethods hm
  obtain ⟨x, i, p₂, q₂, hp₂, hcode, hmem, hi⟩ := PoolM.exists_code_of_method hc hmethod
  obtain ⟨elements, a, p₃, helements, hassemble, hx⟩ := PoolM.exists_elements_of_run hcode
  refine ⟨y, x, elements, a, p₀, p₂, p₃, hy, ⟨_, hmem, ?_, rfl⟩, hrestore, hp₁.trans hp₂, helements,
    hassemble, hx⟩
  -- the name stood in the pool that was kept, and stays where it was found
  obtain ⟨i₀, hi₀⟩ := hname
  obtain ⟨k, hk, hget⟩ := Pool.exists_indexOf? hdense.ordered (ConstantTable.constant_eq_ok.1 hi₀)
  have hextends : (Pool.ofTable t).Extends q := by
    rw [← hinitial]
    exact (hp₀.trans hp₁).trans
      ((PoolM.Extending.extends_of_run (P := True) (.method _ m) hmethod).trans hq₁)
  have hfound := hextends.indices _ _ (Pool.findsAll_ofTable t _ _ hk)
  obtain rfl : k = i := Option.some.inj (hfound.symm.trans (hq₁.indices _ _ hi))
  obtain ⟨cs, hcs⟩ := hextends.constants
  rw [hconstants, hcs]
  exact ConstantTable.utf8_of_constant (ConstantTable.constant_eq_ok.2 (hdense.get?_append hget cs))

end Class

end ClassPatch
