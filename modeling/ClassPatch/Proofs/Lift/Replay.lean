import ClassPatch.Proofs.Lift.Again
import ClassPatch.Proofs.Lower.Rebuilt

/-!
Lowering a class that was lifted from what another was lowered to. Everything that the first run has
added is found, so the second run gives the same class file, and adds nothing.
-/

namespace ClassPatch

variable {s : Rereading}

namespace PoolM

variable {α β : Type}

/--
What runs of the first computation give, the second gives at the end of lowering, where nothing has
to be added for it.
-/
def Replays (s : Rereading) (x y : PoolM α) : Prop :=
  ∀ p a q, x.run p = (.ok a, q) →
    q.Remembers p ∧ (s.pool.Remembers q → Repeats s.pool y a)

theorem Yields.replays {x : PoolM α} {Q : α → Prop} (h : Yields s x Q) : Replays s x x := by
  intro p a q hrun
  obtain ⟨hgrows, hrepeats, -⟩ := h p a q hrun
  exact ⟨hgrows.remembers, hrepeats.mono⟩

namespace Replays

theorem pure (a : α) : Replays s (Pure.pure a) (Pure.pure a) :=
  (Yields.pure (Q := fun _ => True) trivial).replays

theorem bind {x x' : PoolM α} {f f' : α → PoolM β} (hx : Replays s x x')
    (hf : ∀ a, Replays s (f a) (f' a)) : Replays s (x >>= f) (x' >>= f') := by
  intro p b q hrun
  obtain ⟨a, p', hrunx, hrunf⟩ := run_bind_eq_ok.1 hrun
  obtain ⟨hremembers, ha⟩ := hx p a p' hrunx
  obtain ⟨hremembers', hb⟩ := hf a p' b q hrunf
  exact ⟨hremembers'.trans hremembers, fun hq => (ha (hq.trans hremembers')).bind (hb hq)⟩

theorem mapM {f f' : α → PoolM β} {as as' : List α}
    (h : List.Forall₂ (fun a a' => Replays s (f a) (f' a')) as as') :
    Replays s (as.mapM f) (as'.mapM f') := by
  induction h with
  | nil =>
    rw [List.mapM_nil, List.mapM_nil]
    exact pure []
  | cons hhead _ ih =>
    rw [List.mapM_cons, List.mapM_cons]
    exact hhead.bind fun b => ih.bind fun bs => pure (b :: bs)

theorem ifSome {store store' : α → PoolM Stored.Attribute} {a a' : Option α}
    (h : Option.Rel (fun a a' => Replays s (store a) (store' a')) a a') :
    Replays s (ifSome store a) (ifSome store' a') := by
  unfold PoolM.ifSome
  cases h with
  | none => exact pure []
  | some h =>
    simp only [Option.mapM_some, map_eq_pure_bind, bind_assoc, pure_bind]
    exact h.bind fun x => pure [x]

end Replays

theorem replays_layout {es fs : List BodyElement} (h : LaidOutAlike s es fs)
    (hes : s.wellFormed → ∀ e ∈ es, BodyElement.WellFormed s.admits e) :
    Replays s (layout es) (layout fs) := by
  obtain ⟨assembled, hfirst, hsecond⟩ := h
  intro p a q hrun
  obtain ⟨hremembers, ha⟩ := (yields_layout hes).replays p a q hrun
  refine ⟨hremembers, fun hq => ?_⟩
  have hagain := ha hq s.pool (.refl s.pool)
  rw [hfirst s.pool (.refl s.pool)] at hagain
  cases hagain
  exact hsecond

theorem codeAround_elements (context : MethodContext) {c : Code} (hmaxStack : c.maxStack.isSome)
    (hmaxLocals : c.maxLocals.isSome) (elements : List BodyElement) (assembled : AssembledCode) :
    codeAround context { c with elements } assembled = codeAround context c assembled := by
  obtain ⟨maxStack, hmaxStack⟩ := Option.isSome_iff_exists.1 hmaxStack
  obtain ⟨maxLocals, hmaxLocals⟩ := Option.isSome_iff_exists.1 hmaxLocals
  unfold codeAround
  simp only [hmaxStack, hmaxLocals, Option.getD_some]

theorem replays_code (context : MethodContext) {c d : Code}
    (hc : s.wellFormed → ∀ e ∈ c.elements, BodyElement.WellFormed s.admits e)
    (hrewritten : c.Rewritten d) (hsettled : Code.Settled s c d) :
    Replays s (code context c) (code context d) := by
  obtain ⟨elements, -, rfl⟩ := hrewritten
  rw [code_eq, code_eq]
  refine (replays_layout hsettled.laidOut hc).bind fun assembled => ?_
  have heq := codeAround_elements context hsettled.maxStack hsettled.maxLocals elements assembled
  rw [heq]
  exact (yields_codeAround context c assembled).replays

theorem replays_method (owner : BinaryName) {m n : Method}
    (hm : s.wellFormed → m.ConstantsWellFormed s.admits) (hrewritten : m.Rewritten n)
    (hsettled : Method.Settled s m n) : Replays s (method owner m) (method owner n) := by
  have hcode : Option.Rel (fun c d => Replays s (codeAttribute (m.context owner) c)
      (codeAttribute (m.context owner) d)) m.code n.code := by
    refine optionRel_imp_of_mem hrewritten.code hsettled fun c hc d hlowered hsettled => ?_
    exact (replays_code _ (fun hwf => hm hwf c hc) hlowered hsettled).bind fun x =>
      (yields_store _ x).replays
  rw [hrewritten.others]
  unfold method
  refine (yields_utf8 _).replays.bind fun name => ?_
  refine (yields_utf8 _).replays.bind fun descriptor => ?_
  refine (Replays.ifSome hcode).bind fun code => ?_
  refine (yields_unlessEmpty (yields_classesAttribute "Exceptions" m.exceptions)).replays.bind
    fun exceptions => ?_
  refine (yields_ifSome fun text _ => yields_textAttribute "Signature" text).replays.bind
    fun signature => ?_
  refine (yields_annotationAttributes _).replays.bind fun annotations => ?_
  refine (yields_parameterAnnotationAttributes _).replays.bind fun parameters => ?_
  refine (yields_ifSome fun value _ => yields_defaultAttribute value).replays.bind
    fun default => ?_
  exact (Yields.mapM fun v _ => yields_verbatim v).replays.bind fun attributes => .pure _

theorem replays_classHead {c d : Class}
    (hfields : s.wellFormed → ∀ f ∈ c.fields, f.ConstantsWellFormed s.admits)
    (hmethods : s.wellFormed → ∀ m ∈ c.methods, m.ConstantsWellFormed s.admits)
    (hrewritten : c.Rewritten d) (hsettled : List.Forall₂ (Method.Settled s) c.methods d.methods) :
    Replays s (classHead c) (classHead d) := by
  have hmethod : List.Forall₂ (fun m n => Replays s (method c.name m) (method c.name n))
      c.methods d.methods := by
    have hboth := forall₂_and hrewritten.methods hsettled
    refine forall₂_imp_of_mem hboth fun m hm n _ hmn => ?_
    exact replays_method c.name (fun hwf => hmethods hwf m hm) hmn.1 hmn.2
  rw [hrewritten.others]
  unfold classHead
  refine (yields_className _).replays.bind fun thisClass => ?_
  refine (Yields.optionMapM fun n _ => yields_className n).replays.bind fun superClass => ?_
  refine (Yields.mapM fun n _ => yields_className n).replays.bind fun interfaces => ?_
  refine (Yields.mapM fun f hf => yields_field fun hwf => hfields hwf f hf).replays.bind
    fun fields => ?_
  refine (Replays.mapM hmethod).bind fun methods => ?_
  exact (yields_classAttributes c).replays.bind fun attributes => .pure _

theorem run_bootstrapTable_again {p q r : Pool} {table : List Stored.Attribute}
    (h : bootstrapTable.run p = (.ok table, q)) (hr : r.Remembers q)
    (htable : r.bootstrapMethods = q.bootstrapMethods) :
    bootstrapTable.run r = (.ok table, r) := by
  have hsame := bootstrapMethods_of_run h
  obtain ⟨-, hrepeats⟩ := (yields_bootstrapTable _).repeats_of_run h
  rw [run_bootstrapTable_eq, htable, hsame]
  exact hrepeats r hr

/-- Where all is found, a class is lowered to the class file that the first one was lowered to. -/
theorem run_classFile_again {c d : Class} {p₀ r₀ r : Pool} {file : Stored.ClassFile}
    (hrun : (classFile c).run p₀ = (.ok file, s.pool))
    (hhead : Replays s (classHead c) (classHead d))
    (hrestore : (restoreBootstraps d.bootstrapMethods).run r₀ = (.ok (), r))
    (hr : r.Remembers s.pool) (hconstants : r.constants = s.pool.constants)
    (htable : r.bootstrapMethods = s.pool.bootstrapMethods) :
    (classFile d).run r₀ = (.ok file, r) := by
  obtain ⟨p₁, p₂, head, table, -, hrunHead, hrunTable, rfl⟩ := exists_head_of_run hrun
  obtain ⟨hgrows, -⟩ := yields_bootstrapTable (s := s) _ p₂ table s.pool hrunTable
  obtain ⟨-, hrepeats⟩ := hhead p₁ head p₂ hrunHead
  rw [classFile_eq, ← hconstants]
  refine (run_bind_ok hrestore _).trans ?_
  refine (run_bind_ok (hrepeats hgrows.remembers r hr) _).trans ?_
  exact (run_bind_ok (run_bootstrapTable_again hrunTable hr htable) _).trans rfl

end PoolM

end ClassPatch
