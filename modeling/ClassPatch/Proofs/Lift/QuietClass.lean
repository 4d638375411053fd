import ClassPatch.Proofs.Lift.MethodCode
import ClassPatch.Proofs.Lift.QuietCode
import ClassPatch.Proofs.Lift.Storable
import ClassPatch.Proofs.Lower.Distinct

/-!
A class, read from a class file whose tables have no equal entries. Lowering it leaves the tables as
they are, and fails only where code cannot be laid out.
-/

namespace ClassPatch

open PoolM (Quiet)

/-- The code array is canonical, and no longer than code can be. -/
structure Stored.Code.Stays (x : Stored.Code) : Prop where
  canonical : Canonical x.code
  length_le : x.code.length ≤ maxCodeLength

variable {s : Rereading} {r : Resolver} {P : Prop} {file : Stored.ClassFile}

theorem Pool.Knows.methodOf (h : s.pool.Knows r r.bootstrapMethods.length) (hr : r.RefersBack)
    (hwf : ¬ s.wellFormed) (hconstants : r.constants = file.constants) {owner : BinaryName}
    {x : Stored.Member .method} {m : Method} (hx : r.method owner x = .ok m)
    (hP : ¬ P → ∀ y, file.code? x = .ok (some y) → y.Stays) :
    Quiet s.pool P (PoolM.method owner m) := by
  obtain ⟨stored, hstored, hcodes⟩ := Resolver.code_of_method hconstants hx
  refine h.method hx ?_
  generalize m.code = code at hcodes
  cases optionMapM_eq_ok.1 hcodes with
  | none => exact .ifSome_none _
  | @some y c hy =>
    obtain ⟨i, hi⟩ := Stored.ClassFile.exists_utf8_of_code? hstored
    have hname : r.utf8 i = .ok "Code" := by
      unfold Resolver.utf8
      rw [hconstants]
      exact ConstantTable.utf8_of_constant hi
    have hcode : Quiet s.pool P (PoolM.code (m.context owner) c) :=
      h.code hr hwf hy fun hnot => ⟨(hP hnot y hstored).canonical, (hP hnot y hstored).length_le⟩
    exact .ifSome_some (hcode.bind fun _ _ => .of_repeats (h.storeTotal hname))

namespace ClassLifted

variable {c : Class}

theorem initialPool_eq (h : ClassLifted file r c) : c.initialPool = .ofTable r.constants := by
  unfold Class.initialPool
  rw [h.constantPool, h.constants]

theorem quiet_attributes {p : Pool} (h : ClassLifted file r c)
    (hp : p.Knows r r.bootstrapMethods.length) : c.Quiet p P r := by
  have hfold := foldlM_induction (I := fun c : Class => c.Quiet p P r) ?_ ?_ h.attributes
  · exact { hfold with }
  · exact fun _ _ _ _ hc hstep => hp.classStep hc (Resolver.classStep_of_addToClass r hstep)
  · exact {
      sourceFile := .ifSome_none _
      signature := .ifSome_none _
      innerClasses := List.forall_mem_nil _
      enclosingMethod := .ifSome_none _
      nestHost := .ifSome_none _
      nestMembers := .unlessEmpty_nil _
      permittedSubclasses := .unlessEmpty_nil _
      recordComponents := .ifSome_none _
      annotations := Annotations.quiet_empty
      attributes := List.forall_mem_nil _ }

theorem quiet_bootstrapTable {p : Pool} (h : ClassLifted file r c)
    (hp : p.Knows r r.bootstrapMethods.length)
    (htable : p.bootstrapMethods.toList = r.bootstrapMethods) :
    Quiet p P PoolM.bootstrapTable := by
  refine Quiet.bind .get fun q hq => ?_
  cases hq
  rw [htable]
  refine .unlessEmpty fun e he => ?_
  obtain ⟨a, -, ha⟩ := h.exists_bootstrapMethods (List.ne_nil_of_mem he)
  exact .of_repeats (hp.storeTotal ha)

/-- Once the bootstrap methods are restored, lowering a class adds nothing. -/
theorem quiet_classFile (h : ClassLifted file r c)
    (hs : s.pool.Knows r r.bootstrapMethods.length) (hr : r.RefersBack) (hwf : ¬ s.wellFormed)
    (htable : s.pool.bootstrapMethods.toList = r.bootstrapMethods)
    (hrestore : (PoolM.restoreBootstraps c.bootstrapMethods).run c.initialPool = (.ok (), s.pool))
    (hP : ¬ P → ∀ m ∈ file.methods, ∀ x, file.code? m = .ok (some x) → x.Stays) :
    ((PoolM.classFile c).run c.initialPool).2 = s.pool
      ∧ ∀ e, ((PoolM.classFile c).run c.initialPool).1 = .error e → P := by
  have hsuper : Quiet s.pool P (c.superName.mapM PoolM.className) :=
    .of_repeats (.optionMapM h.superName hs.className)
  have hinterfaces : Quiet s.pool P (c.interfaces.mapM PoolM.className) :=
    .of_repeats (.mapM ((mapM_eq_ok.1 h.interfaces).flip.imp fun _ _ hname => hs.className hname))
  have hfields : Quiet s.pool P (c.fields.mapM PoolM.field) := by
    refine .mapM fun f hf => ?_
    obtain ⟨x, -, hx⟩ := exists_of_mem_mapM h.fields hf
    exact hs.field hr hx
  have hmethods : Quiet s.pool P (c.methods.mapM (PoolM.method c.name)) := by
    refine .mapM fun m hm => ?_
    obtain ⟨x, hx, hlifted⟩ := exists_of_mem_mapM h.methods hm
    exact hs.methodOf hr hwf h.constants hlifted fun hnot => hP hnot x hx
  have hattributes : Quiet s.pool P (PoolM.classAttributes c) :=
    hs.classAttributes (h.quiet_attributes hs)
  unfold PoolM.classFile
  rw [run_bind_ok hrestore]
  exact (Quiet.of_repeats (hs.className h.name)).bind fun _ _ => hsuper.bind fun _ _ =>
    hinterfaces.bind fun _ _ => hfields.bind fun _ _ => hmethods.bind fun _ _ =>
      hattributes.bind fun _ _ => (h.quiet_bootstrapTable hs htable).bind fun _ _ => Quiet.get.map

end ClassLifted

end ClassPatch
