import ClassPatch.Proofs.Bytecode.Span

/-!
Code arrays that are made of the written forms of their own instructions. Each instruction has its
shortest form there, and where it stands it is written again as it was.
-/

namespace ClassPatch

namespace Branch

variable {N F N' F' : Type}

def map (near : N → N') (far : F → F') : Branch N F → Branch N' F'
  | .ifZero c t => .ifZero c (near t)
  | .ifInts c t => .ifInts c (near t)
  | .ifRefs c t => .ifRefs c (near t)
  | .ifNull c t => .ifNull c (near t)
  | .goto t => .goto (near t)
  | .gotoWide t => .gotoWide (far t)
  | .jsr t => .jsr (near t)
  | .jsrWide t => .jsrWide (far t)
  | .ret slot => .ret slot
  | .tableSwitch padding fallback low targets =>
    .tableSwitch padding (far fallback) low (targets.map far)
  | .lookupSwitch padding fallback pairs =>
    .lookupSwitch padding (far fallback) (pairs.map fun (key, t) => (key, far t))
  | .valueReturn kind => .valueReturn kind
  | .voidReturn => .voidReturn
  | .athrow => .athrow

theorem width_map (near : N → N') (far : F → F') (b : Branch N F) :
    (b.map near far).width = b.width := by
  cases b with
  | tableSwitch padding fallback low targets => simp only [map, width, List.length_map]
  | lookupSwitch padding fallback pairs => simp only [map, width, List.length_map]
  | _ => rfl

theorem mapM_eq_map {L : Type} {near : L → Except ClassError N'} {far : L → Except ClassError F'}
    {R : Nat → L → Prop} {near' : Nat → N'} {far' : Nat → F'} {jump : Branch Nat Nat}
    {b : Branch L L} (h : Rel R R jump b)
    (hnear : ∀ t ∈ jump.shortTarget?, ∀ k, R t k → near k = .ok (near' t))
    (hfar : ∀ t k, R t k → far k = .ok (far' t)) :
    b.mapM near far = .ok (jump.map near' far') := by
  refine mapM_of_rel ?_
  cases h with
  | ifZero c h => exact .ifZero c (hnear _ rfl _ h)
  | ifInts c h => exact .ifInts c (hnear _ rfl _ h)
  | ifRefs c h => exact .ifRefs c (hnear _ rfl _ h)
  | ifNull c h => exact .ifNull c (hnear _ rfl _ h)
  | goto h => exact .goto (hnear _ rfl _ h)
  | gotoWide h => exact .gotoWide (hfar _ _ h)
  | jsr h => exact .jsr (hnear _ rfl _ h)
  | jsrWide h => exact .jsrWide (hfar _ _ h)
  | ret slot => exact .ret slot
  | tableSwitch padding low hfallback h =>
    refine .tableSwitch padding low (hfar _ _ hfallback) ?_
    rw [List.forall₂_map_right_iff]
    exact h.flip.imp fun k t htk => hfar t k htk
  | lookupSwitch padding hfallback h =>
    refine .lookupSwitch padding (hfar _ _ hfallback) ?_
    rw [List.forall₂_map_right_iff]
    exact h.flip.imp fun q p hpq => ⟨hpq.1.symm, hfar p.2 q.2 hpq.2⟩
  | valueReturn kind => exact .valueReturn kind
  | voidReturn => exact .voidReturn
  | athrow => exact .athrow

end Branch

namespace Decoded

/-- The written form of an instruction that stands at an offset. Its targets are written as their
distances. -/
def encode (offset : Nat) : Decoded → Bytes
  | .instruction i => i.encode
  | .branch b => StoredBranch.encode
    (b.map (fun t : Nat => Int16.ofInt (t - offset)) fun t : Nat => Int32.ofInt (t - offset))

theorem length_encode (offset : Nat) (d : Decoded) : (d.encode offset).length = d.width := by
  cases d with
  | instruction i => exact i.length_encode
  | branch b => exact (StoredBranch.length_encode _).trans (b.width_map _ _)

end Decoded

/-- Offset of the first instruction, or the end of the code. -/
def startOffset (codeLength : Nat) : List (Nat × Decoded) → Nat
  | [] => codeLength
  | (offset, _) :: _ => offset

/-- Every instruction takes as many bytes as its shortest form. -/
def Tight (codeLength : Nat) : List (Nat × Decoded) → Prop
  | [] => True
  | (offset, d) :: decoded =>
    startOffset codeLength decoded = offset + d.width ∧ Tight codeLength decoded

instance decidableTight (codeLength : Nat) :
    (decoded : List (Nat × Decoded)) → Decidable (Tight codeLength decoded)
  | [] => .isTrue True.intro
  | (_, _) :: decoded => @instDecidableAnd _ _ _ (decidableTight codeLength decoded)

/-- The code array is the written form of its own instructions, one after the other. -/
def Canonical (code : Bytes) : Prop :=
  ∃ decoded, decodeCode code = .ok decoded
    ∧ code = decoded.flatMap fun x => x.2.encode x.1

theorem Contiguous.startOffset_eq {codeLength offset : Nat} {decoded : List (Nat × Decoded)}
    (h : Contiguous codeLength offset decoded) : startOffset codeLength decoded = offset := by
  cases h <;> rfl

theorem Contiguous.length_flatMap_le {codeLength offset : Nat} {decoded : List (Nat × Decoded)}
    (h : Contiguous codeLength offset decoded) :
    offset + (decoded.flatMap fun x => x.2.encode x.1).length ≤ codeLength
      ∧ (offset + (decoded.flatMap fun x => x.2.encode x.1).length = codeLength →
        Tight codeLength decoded) := by
  induction h with
  | nil => exact ⟨Nat.le_refl _, fun _ => True.intro⟩
  | @cons offset size d decoded hd hrest ih =>
    have hwidth := hd.width_le
    rw [List.flatMap_cons, List.length_append, Decoded.length_encode]
    dsimp only at hwidth ⊢
    refine ⟨by omega, fun hlength => ⟨?_, ih.2 (by omega)⟩⟩
    rw [hrest.startOffset_eq]
    omega

theorem tight_of_canonical {code : Bytes} {decoded : List (Nat × Decoded)}
    (hdecoded : decodeCode code = .ok decoded)
    (hcode : code = decoded.flatMap fun x => x.2.encode x.1) : Tight code.length decoded := by
  refine (contiguous_of_decodeCode hdecoded).length_flatMap_le.2 ?_
  rw [← hcode, Nat.zero_add]

end ClassPatch
