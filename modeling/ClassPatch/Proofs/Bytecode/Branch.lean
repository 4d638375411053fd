import ClassPatch.Bytecode.Layout
import ClassPatch.Proofs.Bytecode.Instruction
import ClassPatch.Proofs.Run

/-!
Branches that differ in their targets only, and branches read back from their bytes.
-/

namespace ClassPatch

open CodeReader

variable {N F N' F' N'' F'' : Type}

namespace Branch

/-- The branches differ in their targets only, and these are related as given. -/
inductive Rel (near : N → N' → Prop) (far : F → F' → Prop) : Branch N F → Branch N' F' → Prop where
  | ifZero (c : Comparison) {t : N} {u : N'} (h : near t u) :
    Rel near far (.ifZero c t) (.ifZero c u)
  | ifInts (c : Comparison) {t : N} {u : N'} (h : near t u) :
    Rel near far (.ifInts c t) (.ifInts c u)
  | ifRefs (c : Equality) {t : N} {u : N'} (h : near t u) :
    Rel near far (.ifRefs c t) (.ifRefs c u)
  | ifNull (c : Equality) {t : N} {u : N'} (h : near t u) :
    Rel near far (.ifNull c t) (.ifNull c u)
  | goto {t : N} {u : N'} (h : near t u) : Rel near far (.goto t) (.goto u)
  | gotoWide {t : F} {u : F'} (h : far t u) : Rel near far (.gotoWide t) (.gotoWide u)
  | jsr {t : N} {u : N'} (h : near t u) : Rel near far (.jsr t) (.jsr u)
  | jsrWide {t : F} {u : F'} (h : far t u) : Rel near far (.jsrWide t) (.jsrWide u)
  | ret (slot : UInt16) : Rel near far (.ret slot) (.ret slot)
  | tableSwitch (padding : UInt8) {fallback : F} {fallback' : F'} (low : Int32) {ts : List F}
    {us : List F'} (hfallback : far fallback fallback') (h : List.Forall₂ far ts us) :
    Rel near far (.tableSwitch padding fallback low ts) (.tableSwitch padding fallback' low us)
  | lookupSwitch (padding : UInt8) {fallback : F} {fallback' : F'} {ps : List (Int32 × F)}
    {qs : List (Int32 × F')} (hfallback : far fallback fallback')
    (h : List.Forall₂ (fun p q => p.1 = q.1 ∧ far p.2 q.2) ps qs) :
    Rel near far (.lookupSwitch padding fallback ps) (.lookupSwitch padding fallback' qs)
  | valueReturn (kind : ValueKind) : Rel near far (.valueReturn kind) (.valueReturn kind)
  | voidReturn : Rel near far .voidReturn .voidReturn
  | athrow : Rel near far .athrow .athrow

theorem rel_of_mapM {near : N → Except ClassError N'} {far : F → Except ClassError F'}
    {b : Branch N F} {b' : Branch N' F'} (h : b.mapM near far = .ok b') :
    Rel (fun t u => near t = .ok u) (fun t u => far t = .ok u) b b' := by
  cases b with
  | ifZero c t =>
    obtain ⟨u, hu, h⟩ := bind_eq_ok.1 h
    obtain rfl := pure_eq_ok.1 h
    exact .ifZero c hu
  | ifInts c t =>
    obtain ⟨u, hu, h⟩ := bind_eq_ok.1 h
    obtain rfl := pure_eq_ok.1 h
    exact .ifInts c hu
  | ifRefs c t =>
    obtain ⟨u, hu, h⟩ := bind_eq_ok.1 h
    obtain rfl := pure_eq_ok.1 h
    exact .ifRefs c hu
  | ifNull c t =>
    obtain ⟨u, hu, h⟩ := bind_eq_ok.1 h
    obtain rfl := pure_eq_ok.1 h
    exact .ifNull c hu
  | goto t =>
    obtain ⟨u, hu, h⟩ := bind_eq_ok.1 h
    obtain rfl := pure_eq_ok.1 h
    exact .goto hu
  | gotoWide t =>
    obtain ⟨u, hu, h⟩ := bind_eq_ok.1 h
    obtain rfl := pure_eq_ok.1 h
    exact .gotoWide hu
  | jsr t =>
    obtain ⟨u, hu, h⟩ := bind_eq_ok.1 h
    obtain rfl := pure_eq_ok.1 h
    exact .jsr hu
  | jsrWide t =>
    obtain ⟨u, hu, h⟩ := bind_eq_ok.1 h
    obtain rfl := pure_eq_ok.1 h
    exact .jsrWide hu
  | ret slot =>
    obtain rfl := pure_eq_ok.1 h
    exact .ret slot
  | tableSwitch padding fallback low ts =>
    obtain ⟨fallback', hfallback, h⟩ := bind_eq_ok.1 h
    obtain ⟨us, hus, h⟩ := bind_eq_ok.1 h
    obtain rfl := pure_eq_ok.1 h
    exact .tableSwitch padding low hfallback (mapM_eq_ok.1 hus)
  | lookupSwitch padding fallback ps =>
    obtain ⟨fallback', hfallback, h⟩ := bind_eq_ok.1 h
    obtain ⟨qs, hqs, h⟩ := bind_eq_ok.1 h
    obtain rfl := pure_eq_ok.1 h
    refine .lookupSwitch padding hfallback ((mapM_eq_ok.1 hqs).imp ?_)
    intro p q hq
    obtain ⟨u, hu, hq⟩ := bind_eq_ok.1 hq
    obtain rfl := pure_eq_ok.1 hq
    exact ⟨rfl, hu⟩
  | valueReturn kind =>
    obtain rfl := pure_eq_ok.1 h
    exact .valueReturn kind
  | voidReturn =>
    obtain rfl := pure_eq_ok.1 h
    exact .voidReturn
  | athrow =>
    obtain rfl := pure_eq_ok.1 h
    exact .athrow

theorem mapM_of_rel {near : N → Except ClassError N'} {far : F → Except ClassError F'}
    {b : Branch N F} {b' : Branch N' F'}
    (h : Rel (fun t u => near t = .ok u) (fun t u => far t = .ok u) b b') :
    b.mapM near far = .ok b' := by
  cases h with
  | ret slot => rfl
  | tableSwitch padding low hfallback h =>
    exact (bind_of_eq_ok hfallback _).trans (bind_of_eq_ok (mapM_eq_ok.2 h) _)
  | lookupSwitch padding hfallback h =>
    refine (bind_of_eq_ok hfallback _).trans (bind_of_eq_ok (mapM_eq_ok.2 (h.imp ?_)) _)
    rintro ⟨key, t⟩ ⟨key', u⟩ ⟨rfl, hu⟩
    exact bind_of_eq_ok hu _
  | valueReturn kind => rfl
  | voidReturn => rfl
  | athrow => rfl
  | _ => exact bind_of_eq_ok ‹_› _

namespace Rel

variable {near : N → N' → Prop} {far : F → F' → Prop}

theorem targets {L L' : Type} {R : L → L' → Prop} {b : Branch L L} {b' : Branch L' L'}
    (h : Rel R R b b') : List.Forall₂ R b.targets b'.targets := by
  cases h with
  | ret slot => exact .nil
  | tableSwitch padding low hfallback h => exact .cons hfallback h
  | lookupSwitch padding hfallback h =>
    refine .cons hfallback ?_
    rw [List.forall₂_map_left_iff, List.forall₂_map_right_iff]
    exact h.imp fun _ _ hpq => hpq.2
  | valueReturn kind => exact .nil
  | voidReturn => exact .nil
  | athrow => exact .nil
  | _ => exact .cons ‹_› .nil

theorem width_eq {b : Branch N F} {b' : Branch N' F'} (h : Rel near far b b') :
    b.width = b'.width := by
  cases h with
  | tableSwitch padding low hfallback h =>
    simp only [width]
    rw [h.length_eq]
  | lookupSwitch padding hfallback h =>
    simp only [width]
    rw [h.length_eq]
  | _ => rfl

theorem imp {L : Type} {near near' : L → N' → Prop} {far far' : L → F' → Prop} {b : Branch L L}
    {b' : Branch N' F'} (h : Rel near far b b') (hnear : ∀ t ∈ b.targets, ∀ u, near t u → near' t u)
    (hfar : ∀ t ∈ b.targets, ∀ u, far t u → far' t u) : Rel near' far' b b' := by
  have hself (t : L) : t ∈ [t] := List.mem_singleton_self t
  cases h with
  | ifZero c h => exact .ifZero c (hnear _ (hself _) _ h)
  | ifInts c h => exact .ifInts c (hnear _ (hself _) _ h)
  | ifRefs c h => exact .ifRefs c (hnear _ (hself _) _ h)
  | ifNull c h => exact .ifNull c (hnear _ (hself _) _ h)
  | goto h => exact .goto (hnear _ (hself _) _ h)
  | gotoWide h => exact .gotoWide (hfar _ (hself _) _ h)
  | jsr h => exact .jsr (hnear _ (hself _) _ h)
  | jsrWide h => exact .jsrWide (hfar _ (hself _) _ h)
  | ret slot => exact .ret slot
  | tableSwitch padding low hfallback h =>
    refine .tableSwitch padding low (hfar _ List.mem_cons_self _ hfallback) ?_
    exact forall₂_imp_of_mem h fun t ht u _ => hfar t (List.mem_cons_of_mem _ ht) u
  | lookupSwitch padding hfallback h =>
    refine .lookupSwitch padding (hfar _ List.mem_cons_self _ hfallback) ?_
    refine forall₂_imp_of_mem h fun p hp q _ hpq => ⟨hpq.1, ?_⟩
    exact hfar p.2 (List.mem_cons_of_mem _ (List.mem_map_of_mem hp)) q.2 hpq.2
  | valueReturn kind => exact .valueReturn kind
  | voidReturn => exact .voidReturn
  | athrow => exact .athrow

theorem flip {near : N → N' → Prop} {far : F → F' → Prop} {b : Branch N F} {b' : Branch N' F'}
    (h : Rel near far b b') : Rel (fun u t => near t u) (fun u t => far t u) b' b := by
  cases h with
  | ifZero c h => exact .ifZero c h
  | ifInts c h => exact .ifInts c h
  | ifRefs c h => exact .ifRefs c h
  | ifNull c h => exact .ifNull c h
  | goto h => exact .goto h
  | gotoWide h => exact .gotoWide h
  | jsr h => exact .jsr h
  | jsrWide h => exact .jsrWide h
  | ret slot => exact .ret slot
  | tableSwitch padding low hfallback h => exact .tableSwitch padding low hfallback h.flip
  | lookupSwitch padding hfallback h =>
    exact .lookupSwitch padding hfallback (h.flip.imp fun _ _ hpq => ⟨hpq.1.symm, hpq.2⟩)
  | valueReturn kind => exact .valueReturn kind
  | voidReturn => exact .voidReturn
  | athrow => exact .athrow

theorem exists_between {P : N → N' → Prop} {Q : N' → N'' → Prop} {P' : F → F' → Prop}
    {Q' : F' → F'' → Prop} {b : Branch N F} {d : Branch N'' F''}
    (h : Rel (fun t v => ∃ u, P t u ∧ Q u v) (fun t v => ∃ u, P' t u ∧ Q' u v) b d) :
    ∃ c, Rel P P' b c ∧ Rel Q Q' c d := by
  cases h with
  | ifZero c h =>
    obtain ⟨u, hP, hQ⟩ := h
    exact ⟨_, .ifZero c hP, .ifZero c hQ⟩
  | ifInts c h =>
    obtain ⟨u, hP, hQ⟩ := h
    exact ⟨_, .ifInts c hP, .ifInts c hQ⟩
  | ifRefs c h =>
    obtain ⟨u, hP, hQ⟩ := h
    exact ⟨_, .ifRefs c hP, .ifRefs c hQ⟩
  | ifNull c h =>
    obtain ⟨u, hP, hQ⟩ := h
    exact ⟨_, .ifNull c hP, .ifNull c hQ⟩
  | goto h =>
    obtain ⟨u, hP, hQ⟩ := h
    exact ⟨_, .goto hP, .goto hQ⟩
  | gotoWide h =>
    obtain ⟨u, hP, hQ⟩ := h
    exact ⟨_, .gotoWide hP, .gotoWide hQ⟩
  | jsr h =>
    obtain ⟨u, hP, hQ⟩ := h
    exact ⟨_, .jsr hP, .jsr hQ⟩
  | jsrWide h =>
    obtain ⟨u, hP, hQ⟩ := h
    exact ⟨_, .jsrWide hP, .jsrWide hQ⟩
  | ret slot => exact ⟨_, .ret slot, .ret slot⟩
  | tableSwitch padding low hfallback h =>
    obtain ⟨u, hP, hQ⟩ := hfallback
    obtain ⟨us, hPs, hQs⟩ := ClassPatch.exists_between h
    exact ⟨_, .tableSwitch padding low hP hPs, .tableSwitch padding low hQ hQs⟩
  | lookupSwitch padding hfallback h =>
    obtain ⟨u, hP, hQ⟩ := hfallback
    have hpairs := h.imp (S := fun p r => ∃ q : Int32 × F', (p.1 = q.1 ∧ P' p.2 q.2)
      ∧ q.1 = r.1 ∧ Q' q.2 r.2) fun p r hpr => by
        obtain ⟨hkey, u, hP, hQ⟩ := hpr
        exact ⟨(p.1, u), ⟨rfl, hP⟩, hkey, hQ⟩
    obtain ⟨us, hPs, hQs⟩ := ClassPatch.exists_between hpairs
    exact ⟨_, .lookupSwitch padding hP hPs, .lookupSwitch padding hQ hQs⟩
  | valueReturn kind => exact ⟨_, .valueReturn kind, .valueReturn kind⟩
  | voidReturn => exact ⟨_, .voidReturn, .voidReturn⟩
  | athrow => exact ⟨_, .athrow, .athrow⟩

end Rel

/-- The cases of a switch can be counted in four bytes. -/
def CasesFit : Branch N F → Prop
  | .tableSwitch _ _ low ts => 1 ≤ ts.length ∧ low.toInt + ts.length ≤ 2 ^ 31
  | .lookupSwitch _ _ ps => ps.length < 2 ^ 31
  | _ => True

/-- The keys of a table of jumps can be counted up in four bytes. -/
def TableFits : Branch N F → Prop
  | .tableSwitch _ _ low ts => 1 ≤ ts.length ∧ low.toInt + ts.length ≤ 2 ^ 31
  | _ => True

theorem CasesFit.tableFits {b : Branch N F} (h : b.CasesFit) : b.TableFits := by
  cases b with
  | tableSwitch => exact h
  | _ => exact True.intro

/-- The operands of a switch are aligned at the offset. -/
def Aligned (offset : Nat) (b : Branch N F) : Prop := b.aligned offset = b

theorem aligned_aligned (offset : Nat) (b : Branch N F) : (b.aligned offset).Aligned offset := by
  cases b <;> rfl

end Branch

namespace CodeReader

variable {p : CodePosition}

theorem reads_target {distance : Int} {target : Nat} (h : p.target distance = .ok target) :
    CodeReads (liftM (p.target distance)) [] target := by
  rw [h]
  exact .pure target

theorem reads_nearTarget {distance : Int16} {target : Nat}
    (h : p.target distance.toInt = .ok target) :
    CodeReads (nearTarget p) (Writer.i16 distance) target := by
  have hread : CodeReads (nearTarget p) (Writer.i16 distance ++ []) target :=
    (reads_i16 distance).bind (reads_target h)
  rwa [List.append_nil] at hread

theorem reads_farTarget {distance : Int32} {target : Nat}
    (h : p.target distance.toInt = .ok target) :
    CodeReads (farTarget p) (Writer.i32 distance) target := by
  have hread : CodeReads (farTarget p) (Writer.i32 distance ++ []) target :=
    (reads_i32 distance).bind (reads_target h)
  rwa [List.append_nil] at hread

end CodeReader

namespace StoredBranch

variable {p : CodePosition}

/-- The targets are at the distances from the position. -/
abbrev TargetsAt (p : CodePosition) : Branch Nat Nat → StoredBranch → Prop :=
  Branch.Rel (fun t d => p.target d.toInt = .ok t) (fun t d => p.target d.toInt = .ok t)

theorem toNat_padding (p : CodePosition) : (UInt8.ofNat p.padding).toNat = p.padding := by
  unfold CodePosition.padding
  rw [UInt8.toNat_ofNat', Nat.mod_eq_of_lt (by omega)]

theorem reads_padding (p : CodePosition) :
    CodeReads (skip p.padding) (List.replicate (UInt8.ofNat p.padding).toNat 0) () := by
  have hread := reads_skip (List.replicate p.padding (0 : UInt8))
  rw [List.length_replicate] at hread
  rwa [toNat_padding]

theorem toInt_lastKey {low : Int32} {n : Nat} (hpos : 1 ≤ n) (h : low.toInt + n ≤ 2 ^ 31) :
    (low + Int32.ofNat n - 1).toInt = low.toInt + n - 1 := by
  have hlow := low.le_toInt
  have hone : (1 : Int32).toInt = 1 := rfl
  have hsize : Int32.size = 2 ^ 32 := rfl
  rw [Int32.toInt_sub, Int32.toInt_add, Int32.toInt_ofNat', hone, hsize, Int.add_bmod_bmod,
    Int.bmod_sub_bmod, Int.bmod_eq_of_le (by omega) (by omega)]

theorem reads_tableSwitch {fallback : Nat} {fallback' low : Int32} {ts : List Nat}
    {ds : List Int32} (hfallback : p.target fallback'.toInt = .ok fallback)
    (hts : List.Forall₂ (fun t (d : Int32) => p.target d.toInt = .ok t) ts ds)
    (hpos : 1 ≤ ds.length) (hlow : low.toInt + ds.length ≤ 2 ^ 31) :
    CodeReads (Decoded.readTableSwitch p)
      (List.replicate (UInt8.ofNat p.padding).toNat 0 ++ (Writer.i32 fallback' ++ (Writer.i32 low
        ++ (Writer.i32 (low + Int32.ofNat ds.length - 1) ++ ds.flatMap Writer.i32))))
      (.branch (.tableSwitch (UInt8.ofNat p.padding) fallback low ts)) := by
  have hhigh := toInt_lastKey hpos hlow
  have hcount : ((low + Int32.ofNat ds.length - 1).toInt - low.toInt + 1).toNat = ts.length := by
    rw [hhigh, hts.length_eq]
    omega
  unfold Decoded.readTableSwitch
  refine (reads_padding p).bind ?_
  refine (reads_farTarget hfallback).bind ?_
  refine (reads_i32 low).bind ?_
  refine (reads_i32 _).bind ?_
  rw [if_neg, hcount]
  · exact (CodeReads.many (hts.imp fun t d h => reads_farTarget h)).bind_pure _
  · rw [Int32.lt_iff_toInt_lt, hhigh]
    omega

theorem reads_lookupSwitch {fallback : Nat} {fallback' : Int32} {ps : List (Int32 × Nat)}
    {qs : List (Int32 × Int32)} (hfallback : p.target fallback'.toInt = .ok fallback)
    (hps : List.Forall₂ (fun x y => x.1 = y.1 ∧ p.target y.2.toInt = .ok x.2) ps qs)
    (hcount : qs.length < 2 ^ 31) :
    CodeReads (Decoded.readLookupSwitch p)
      (List.replicate (UInt8.ofNat p.padding).toNat 0 ++ (Writer.i32 fallback'
        ++ (Writer.i32 (Int32.ofNat qs.length)
          ++ qs.flatMap fun (key, t) => Writer.i32 key ++ Writer.i32 t)))
      (.branch (.lookupSwitch (UInt8.ofNat p.padding) fallback ps)) := by
  have hlength : (Int32.ofNat qs.length).toInt = qs.length := Int32.toInt_ofNat_of_lt hcount
  unfold Decoded.readLookupSwitch
  refine (reads_padding p).bind ?_
  refine (reads_farTarget hfallback).bind ?_
  refine (reads_i32 _).bind ?_
  rw [if_neg, hlength, Int.toNat_natCast, ← hps.length_eq]
  · refine (CodeReads.many (hps.imp ?_)).bind_pure _
    rintro ⟨key, t⟩ ⟨key', d⟩ ⟨rfl, htarget⟩
    exact (reads_i32 key).bind ((reads_farTarget htarget).bind_pure _)
  · rw [Int32.lt_iff_toInt_lt, hlength]
    change ¬(qs.length : Int) < 0
    omega

theorem readOperands_ifZero (c : Comparison) : Decoded.readOperands p (0x99 + c.code)
    = do return .branch (.ifZero c (← nearTarget p)) := by
  cases c <;> rfl

theorem readOperands_ifInts (c : Comparison) : Decoded.readOperands p (0x9F + c.code)
    = do return .branch (.ifInts c (← nearTarget p)) := by
  cases c <;> rfl

theorem readOperands_ifRefs (c : Equality) : Decoded.readOperands p (0xA5 + c.code)
    = do return .branch (.ifRefs c (← nearTarget p)) := by
  cases c <;> rfl

theorem readOperands_ifNull (c : Equality) : Decoded.readOperands p (0xC6 + c.code)
    = do return .branch (.ifNull c (← nearTarget p)) := by
  cases c <;> rfl

theorem readOperands_valueReturn (kind : ValueKind) : Decoded.readOperands p kind.returnCode
    = pure (.branch (.valueReturn kind)) := by
  cases kind <;> rfl

theorem reads_ret (slot : UInt16) :
    Decoded.ReadsAs p (encode (.ret slot)) (.branch (.ret slot)) := by
  simp only [encode]
  split
  next h =>
    have hread := (reads_u8 slot.toUInt8).bind_pure fun x => Decoded.branch (.ret x.toUInt16)
    rw [toUInt8_toUInt16 h] at hread
    exact .of_operands 0xA9 rfl hread
  next =>
    rw [List.append_assoc]
    refine .of_wide ((reads_u8 0xA9).bind ?_)
    change CodeReads (do return .branch (.ret (← u16)) : CodeReader Decoded) _ _
    exact (reads_u16 slot).bind_pure _

/-- A branch is read back where its targets are at its distances and its operands are aligned. -/
theorem reads_encode {b : Branch Nat Nat} {x : StoredBranch} (h : TargetsAt p b x)
    (haligned : x.Aligned p.offset) (hcases : x.CasesFit) :
    Decoded.ReadsAs p x.encode (.branch b) := by
  cases h with
  | ifZero c h =>
    exact .of_operands _ (readOperands_ifZero c) ((reads_nearTarget h).bind_pure _)
  | ifInts c h =>
    exact .of_operands _ (readOperands_ifInts c) ((reads_nearTarget h).bind_pure _)
  | ifRefs c h =>
    exact .of_operands _ (readOperands_ifRefs c) ((reads_nearTarget h).bind_pure _)
  | ifNull c h =>
    exact .of_operands _ (readOperands_ifNull c) ((reads_nearTarget h).bind_pure _)
  | goto h => exact .of_operands 0xA7 rfl ((reads_nearTarget h).bind_pure _)
  | gotoWide h => exact .of_operands 0xC8 rfl ((reads_farTarget h).bind_pure _)
  | jsr h => exact .of_operands 0xA8 rfl ((reads_nearTarget h).bind_pure _)
  | jsrWide h => exact .of_operands 0xC9 rfl ((reads_farTarget h).bind_pure _)
  | ret slot => exact reads_ret slot
  | tableSwitch padding low hfallback h =>
    injection haligned with hpadding
    rw [← hpadding]
    simp only [encode, List.append_assoc]
    exact .of_operands 0xAA rfl (reads_tableSwitch hfallback h hcases.1 hcases.2)
  | lookupSwitch padding hfallback h =>
    injection haligned with hpadding
    rw [← hpadding]
    simp only [encode, List.append_assoc]
    exact .of_operands 0xAB rfl (reads_lookupSwitch hfallback h hcases)
  | valueReturn kind => exact .of_pure _ (readOperands_valueReturn kind)
  | voidReturn => exact .of_pure 0xB1 rfl
  | athrow => exact .of_pure 0xBF rfl

theorem length_encode (x : StoredBranch) : x.encode.length = x.width := by
  have hi32 (n : Int32) : (Writer.i32 n).length = 4 := rfl
  cases x with
  | ret slot =>
    simp only [encode, Branch.width]
    split <;> rfl
  | tableSwitch padding fallback low ts =>
    have htargets : (ts.flatMap Writer.i32).length = 4 * ts.length := by
      rw [List.length_flatMap, List.map_congr_left fun n _ => hi32 n, List.map_const',
        List.sum_replicate_nat, Nat.mul_comm]
    simp only [encode, Branch.width, List.length_append, List.length_replicate, htargets, hi32]
    change 1 + _ + 4 + 4 + 4 + _ = _
    omega
  | lookupSwitch padding fallback ps =>
    have hpair (p : Int32 × Int32) : (Writer.i32 p.1 ++ Writer.i32 p.2).length = 8 := rfl
    have hpairs :
        (ps.flatMap fun p => Writer.i32 p.1 ++ Writer.i32 p.2).length = 8 * ps.length := by
      rw [List.length_flatMap, List.map_congr_left fun p _ => hpair p, List.map_const',
        List.sum_replicate_nat, Nat.mul_comm]
    simp only [encode, Branch.width, List.length_append, List.length_replicate, hpairs, hi32]
    change 1 + _ + 4 + 4 + _ = _
    omega
  | _ => rfl

end StoredBranch

end ClassPatch
