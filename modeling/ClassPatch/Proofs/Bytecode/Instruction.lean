import ClassPatch.Proofs.Bytecode.Operands

/-!
Instructions are read back from their bytes, and take as many bytes as they are said to.
-/

namespace ClassPatch

open CodeReader

theorem toUInt8_toUInt16 {x : UInt16} (h : x ≤ 0xFF) : x.toUInt8.toUInt16 = x := by
  apply UInt16.toNat_inj.1
  have hx : x.toNat ≤ 0xFF := h
  rw [UInt8.toNat_toUInt16, UInt16.toNat_toUInt8, Nat.mod_eq_of_lt (by omega)]

theorem eq_of_le_three {x : UInt16} (h : x ≤ 3) : x = 0 ∨ x = 1 ∨ x = 2 ∨ x = 3 := by
  have hx : x.toNat ≤ 3 := h
  simp only [← UInt16.toNat_inj]
  change x.toNat = 0 ∨ x.toNat = 1 ∨ x.toNat = 2 ∨ x.toNat = 3
  omega

namespace Decoded

variable {p : CodePosition}

/-- The instruction is read from the bytes. -/
def ReadsAs (p : CodePosition) (bytes : Bytes) (d : Decoded) : Prop :=
  CodeReads (do readOperands p (← u8)) bytes d

theorem ReadsAs.of_operands (code : UInt8) {bytes : Bytes} {d : Decoded}
    {read : CodeReader Decoded} (hcode : readOperands p code = read) (h : CodeReads read bytes d) :
    ReadsAs p (Writer.u8 code ++ bytes) d :=
  (reads_u8 code).bind (hcode ▸ h)

theorem ReadsAs.of_pure (code : UInt8) {d : Decoded} (h : readOperands p code = pure d) :
    ReadsAs p (Writer.u8 code) d := by
  have hread := ReadsAs.of_operands code h (.pure d)
  rwa [List.append_nil] at hread

theorem ReadsAs.of_wide {bytes : Bytes} {d : Decoded} (h : CodeReads (readWide p) bytes d) :
    ReadsAs p (Writer.u8 wideCode ++ bytes) d :=
  of_operands wideCode rfl h

theorem ReadsAs.read {bytes : Bytes} {d : Decoded} (h : ReadsAs p bytes d) :
    CodeReads (Decoded.read p) bytes d := by
  intro count rest
  have hrun : (do readOperands p (← u8) : CodeReader Decoded).run count (bytes ++ rest)
      = .ok ((d, count + bytes.length), rest) := h count rest
  change Decoded.read p count (bytes ++ rest) = _
  unfold Decoded.read
  rw [hrun]

end Decoded

namespace ValueKind

variable {p : CodePosition}

theorem readOperands_load (kind : ValueKind) : Decoded.readOperands p (0x15 + kind.code)
    = do return .instruction (.load kind (← u8).toUInt16) := by
  cases kind <;> rfl

theorem readOperands_store (kind : ValueKind) : Decoded.readOperands p (0x36 + kind.code)
    = do return .instruction (.store kind (← u8).toUInt16) := by
  cases kind <;> rfl

theorem reads_wideLoad (kind : ValueKind) (slot : UInt16) :
    CodeReads (Decoded.readWide p) (Writer.u8 (0x15 + kind.code) ++ Writer.u16 slot)
      (.instruction (.load kind slot)) := by
  unfold Decoded.readWide
  refine (reads_u8 _).bind ?_
  have hread : CodeReads (do return .instruction (.load kind (← u16)) : CodeReader Decoded)
      (Writer.u16 slot) (.instruction (.load kind slot)) := (reads_u16 slot).bind_pure _
  cases kind <;> exact hread

theorem reads_wideStore (kind : ValueKind) (slot : UInt16) :
    CodeReads (Decoded.readWide p) (Writer.u8 (0x36 + kind.code) ++ Writer.u16 slot)
      (.instruction (.store kind slot)) := by
  unfold Decoded.readWide
  refine (reads_u8 _).bind ?_
  have hread : CodeReads (do return .instruction (.store kind (← u16)) : CodeReader Decoded)
      (Writer.u16 slot) (.instruction (.store kind slot)) := (reads_u16 slot).bind_pure _
  cases kind <;> exact hread

theorem readOperands_shortLoad (kind : ValueKind) {slot : UInt16} (h : slot ≤ 3) :
    Decoded.readOperands p (0x1A + 4 * kind.code + slot.toUInt8)
      = pure (.instruction (.load kind slot)) := by
  obtain rfl | rfl | rfl | rfl := eq_of_le_three h <;> cases kind <;> rfl

theorem readOperands_shortStore (kind : ValueKind) {slot : UInt16} (h : slot ≤ 3) :
    Decoded.readOperands p (0x3B + 4 * kind.code + slot.toUInt8)
      = pure (.instruction (.store kind slot)) := by
  obtain rfl | rfl | rfl | rfl := eq_of_le_three h <;> cases kind <;> rfl

theorem reads_load (kind : ValueKind) (slot : UInt16) :
    Decoded.ReadsAs p (encodeSlotAccess 0x1A 0x15 kind slot)
      (.instruction (.load kind slot)) := by
  unfold encodeSlotAccess
  split
  next h => exact .of_pure _ (kind.readOperands_shortLoad h)
  next =>
    split
    next h =>
      have hread := (reads_u8 slot.toUInt8).bind_pure fun x =>
        Decoded.instruction (.load kind x.toUInt16)
      rw [toUInt8_toUInt16 h] at hread
      exact .of_operands _ kind.readOperands_load hread
    next =>
      rw [List.append_assoc]
      exact .of_wide (kind.reads_wideLoad slot)

theorem reads_store (kind : ValueKind) (slot : UInt16) :
    Decoded.ReadsAs p (encodeSlotAccess 0x3B 0x36 kind slot)
      (.instruction (.store kind slot)) := by
  unfold encodeSlotAccess
  split
  next h => exact .of_pure _ (kind.readOperands_shortStore h)
  next =>
    split
    next h =>
      have hread := (reads_u8 slot.toUInt8).bind_pure fun x =>
        Decoded.instruction (.store kind x.toUInt16)
      rw [toUInt8_toUInt16 h] at hread
      exact .of_operands _ kind.readOperands_store hread
    next =>
      rw [List.append_assoc]
      exact .of_wide (kind.reads_wideStore slot)

end ValueKind

namespace StoredInstruction

variable {p : CodePosition}

theorem reads_iinc (slot : UInt16) (amount : Int16) :
    Decoded.ReadsAs p (encode (.iinc slot amount)) (.instruction (.iinc slot amount)) := by
  simp only [encode]
  split
  next h =>
    rw [Bool.and_eq_true, decide_eq_true_iff] at h
    have hamount : amount.toInt8.toInt16 = amount := eq_of_beq h.2
    have hread : CodeReads
        (do return .instruction (.iinc (← u8).toUInt16 (← i8).toInt16) : CodeReader Decoded)
        (Writer.u8 slot.toUInt8 ++ Writer.i8 amount.toInt8)
        (.instruction (.iinc slot.toUInt8.toUInt16 amount.toInt8.toInt16)) :=
      (reads_u8 slot.toUInt8).bind ((reads_i8 amount.toInt8).bind_pure _)
    rw [toUInt8_toUInt16 h.1, hamount] at hread
    rw [List.append_assoc]
    exact .of_operands 0x84 rfl hread
  next =>
    simp only [List.append_assoc]
    refine .of_wide ((reads_u8 0x84).bind ?_)
    change CodeReads (do return .instruction (.iinc (← u16) (← i16)) : CodeReader Decoded) _ _
    exact (reads_u16 slot).bind ((reads_i16 amount).bind_pure _)

theorem reads_ldc (c : ConstantIndex) :
    Decoded.ReadsAs p (encode (.ldc c)) (.instruction (.ldc c)) := by
  simp only [encode]
  split
  next h =>
    have hread := (reads_u8 c.toUInt8).bind_pure fun x => Decoded.instruction (.ldc x.toUInt16)
    rw [toUInt8_toUInt16 h] at hread
    exact .of_operands 0x12 rfl hread
  next => exact .of_operands 0x13 rfl ((reads_u16 c).bind_pure _)

theorem reads_invoke (kind : InvokeKind) (method : ConstantIndex) :
    Decoded.ReadsAs p (kind.encode method) (.instruction (.invoke kind method)) := by
  cases kind with
  | virtual => exact .of_operands 0xB6 rfl ((reads_u16 method).bind_pure _)
  | special => exact .of_operands 0xB7 rfl ((reads_u16 method).bind_pure _)
  | static => exact .of_operands 0xB8 rfl ((reads_u16 method).bind_pure _)
  | interface count =>
    unfold InvokeKind.encode
    simp only [List.append_assoc]
    refine .of_operands 0xB9 rfl ?_
    refine (reads_u16 method).bind ((reads_u8 count).bind ?_)
    exact (reads_skip [0]).bind_pure _

theorem reads_invokeDynamic (site : ConstantIndex) :
    Decoded.ReadsAs p (encode (.invokeDynamic site)) (.instruction (.invokeDynamic site)) := by
  simp only [encode]
  rw [List.append_assoc]
  refine .of_operands 0xBA rfl ((reads_u16 site).bind ?_)
  exact (reads_skip (Writer.u16 0)).bind_pure _

theorem reads_newPrimitiveArray (t : BaseType) :
    Decoded.ReadsAs p (encode (.newPrimitiveArray t)) (.instruction (.newPrimitiveArray t)) := by
  refine .of_operands 0xBC rfl ?_
  rw [← List.append_nil (Writer.u8 t.arrayCode)]
  refine (reads_u8 t.arrayCode).bind ?_
  rw [BaseType.ofArrayCode?_arrayCode]
  exact .pure _

theorem reads_encode (i : StoredInstruction) : Decoded.ReadsAs p i.encode (.instruction i) := by
  cases i with
  | plain op =>
    refine .of_pure op.opcode ?_
    unfold Decoded.readOperands
    rw [PlainOp.ofOpcode?_opcode]
  | bipush value => exact .of_operands 0x10 rfl ((reads_i8 value).bind_pure _)
  | sipush value => exact .of_operands 0x11 rfl ((reads_i16 value).bind_pure _)
  | ldc c => exact reads_ldc c
  | ldc2 c => exact .of_operands 0x14 rfl ((reads_u16 c).bind_pure _)
  | load kind slot => exact kind.reads_load slot
  | store kind slot => exact kind.reads_store slot
  | iinc slot amount => exact reads_iinc slot amount
  | onField access f =>
    have hread : CodeReads (do return .instruction (.onField access (← u16)) : CodeReader Decoded)
      (Writer.u16 f) (.instruction (.onField access f)) := (reads_u16 f).bind_pure _
    cases access with
    | getStatic => exact .of_operands 0xB2 rfl hread
    | putStatic => exact .of_operands 0xB3 rfl hread
    | getField => exact .of_operands 0xB4 rfl hread
    | putField => exact .of_operands 0xB5 rfl hread
  | invoke kind m => exact reads_invoke kind m
  | invokeDynamic s => exact reads_invokeDynamic s
  | onClass op c =>
    have hread : CodeReads (do return .instruction (.onClass op (← u16)) : CodeReader Decoded)
      (Writer.u16 c) (.instruction (.onClass op c)) := (reads_u16 c).bind_pure _
    cases op with
    | new => exact .of_operands 0xBB rfl hread
    | newArray => exact .of_operands 0xBD rfl hread
    | checkCast => exact .of_operands 0xC0 rfl hread
    | instanceOf => exact .of_operands 0xC1 rfl hread
  | newPrimitiveArray t => exact reads_newPrimitiveArray t
  | multiNewArray c n =>
    simp only [encode]
    rw [List.append_assoc]
    refine .of_operands 0xC5 rfl ?_
    exact (reads_u16 c).bind ((reads_u8 n).bind_pure _)

theorem length_encodeSlotAccess (short normal : UInt8) (kind : ValueKind) (slot : UInt16) :
    (encodeSlotAccess short normal kind slot).length = slotAccessWidth slot := by
  unfold encodeSlotAccess slotAccessWidth
  split
  next => rfl
  next => split <;> rfl

theorem length_encode (i : StoredInstruction) : i.encode.length = i.width := by
  cases i with
  | ldc c =>
    simp only [encode, width]
    split <;> rfl
  | load kind slot => exact length_encodeSlotAccess _ _ kind slot
  | store kind slot => exact length_encodeSlotAccess _ _ kind slot
  | iinc slot amount =>
    simp only [encode, width]
    split <;> rfl
  | invoke kind m => cases kind <;> rfl
  | _ => rfl

end StoredInstruction

end ClassPatch
