import ClassPatch.Bytecode.Instruction

/-!
Names of instructions. The operands of an instruction are not part of its name, so that a name leads
to an instruction whose operands are blank.
-/

namespace ClassPatch

namespace Instruction

variable {C K F M S : Type}

def mnemonic : Instruction C K F M S → String
  | .plain op => op.mnemonic
  | .bipush _ => "bipush"
  | .sipush _ => "sipush"
  | .ldc _ => "ldc"
  | .ldc2 _ => "ldc2_w"
  | .load kind _ => kind.letter ++ "load"
  | .store kind _ => kind.letter ++ "store"
  | .iinc .. => "iinc"
  | .onField access _ => access.mnemonic
  | .invoke kind _ => kind.mnemonic
  | .invokeDynamic _ => "invokedynamic"
  | .onClass op _ => op.mnemonic
  | .newPrimitiveArray _ => "newarray"
  | .multiNewArray .. => "multianewarray"

/-- Instructions with blank operands, one for each mnemonic. -/
def forms : List (Instruction Unit Unit Unit Unit Unit) :=
  PlainOp.all.map .plain
    ++ ValueKind.all.flatMap (fun kind => [.load kind 0, .store kind 0])
    ++ FieldAccess.all.map (.onField · ())
    ++ [InvokeKind.virtual, .special, .static, .interface 0].map (.invoke · ())
    ++ ClassOp.all.map (.onClass · ())
    ++ [.bipush 0, .sipush 0, .ldc (), .ldc2 (), .iinc 0 0, .invokeDynamic (),
        .newPrimitiveArray .int, .multiNewArray () 0]

/-- The instruction that a mnemonic stands for. -/
def ofMnemonic? (text : String) : Option (Instruction Unit Unit Unit Unit Unit) :=
  forms.find? (·.mnemonic == text)

theorem mnemonic_of_ofMnemonic? {text : String} {i : Instruction Unit Unit Unit Unit Unit}
    (h : ofMnemonic? text = some i) : i.mnemonic = text := by
  simpa using List.find?_some h

end Instruction

namespace Branch

variable {N F : Type}

def mnemonic : Branch N F → String
  | .ifZero c _ => "if" ++ c.mnemonic
  | .ifInts c _ => "if_icmp" ++ c.mnemonic
  | .ifRefs c _ => "if_acmp" ++ c.mnemonic
  | .ifNull .eq _ => "ifnull"
  | .ifNull .ne _ => "ifnonnull"
  | .goto _ => "goto"
  | .gotoWide _ => "goto_w"
  | .jsr _ => "jsr"
  | .jsrWide _ => "jsr_w"
  | .ret _ => "ret"
  | .tableSwitch .. => "tableswitch"
  | .lookupSwitch .. => "lookupswitch"
  | .valueReturn kind => kind.letter ++ "return"
  | .voidReturn => "return"
  | .athrow => "athrow"

/-- Branches with blank operands, one for each mnemonic. -/
def forms : List (Branch Unit Unit) :=
  Comparison.all.flatMap (fun c => [.ifZero c (), .ifInts c ()])
    ++ Equality.all.flatMap (fun c => [.ifRefs c (), .ifNull c ()])
    ++ ValueKind.all.map .valueReturn
    ++ [.goto (), .gotoWide (), .jsr (), .jsrWide (), .ret 0, .tableSwitch 0 () 0 [],
        .lookupSwitch 0 () [], .voidReturn, .athrow]

/-- The branch that a mnemonic stands for. -/
def ofMnemonic? (text : String) : Option (Branch Unit Unit) :=
  forms.find? (·.mnemonic == text)

theorem mnemonic_of_ofMnemonic? {text : String} {b : Branch Unit Unit}
    (h : ofMnemonic? text = some b) : b.mnemonic = text := by
  simpa using List.find?_some h

end Branch

end ClassPatch
