import ClassPatch.Proofs.Pool.SlotTable
import ClassPatch.Proofs.Stored.Attribute
import ClassPatch.Proofs.Text.ModifiedUtf8
import ClassPatch.Stored.ClassFile

/-!
A class file whose parts fit the fields that count them is read back from its bytes.
-/

namespace ClassPatch

open Reader

namespace Constant

/-- The text of a constant can be counted in two bytes. -/
def Fits : Constant → Prop
  | .utf8 text => (ModifiedUtf8.encode text).length ≤ 0xFFFF
  | _ => True

instance : DecidablePred Fits
  | .utf8 text => inferInstanceAs (Decidable ((ModifiedUtf8.encode text).length ≤ 0xFFFF))
  | .integer _ | .float _ | .long _ | .double _ | .classRef _ | .string _ | .fieldRef ..
  | .methodRef .. | .nameAndType .. | .methodHandle .. | .methodType _ | .dynamic ..
  | .invokeDynamic .. | .moduleRef _ | .packageRef _ => .isTrue trivial

theorem reads_utf8 {text : String} (h : (ModifiedUtf8.encode text).length ≤ 0xFFFF) :
    Reads read (write (.utf8 text)) (.utf8 text) := by
  unfold read write
  simp only [List.append_assoc]
  refine (reads_u8 _).bind ?_
  change Reads (do return .utf8 (ModifiedUtf8.decode (← bytes (← u16).toNat)) : Reader Constant)
    _ _
  refine (reads_u16 _).bind ?_
  rw [UInt16.toNat_ofNat', Nat.mod_eq_of_lt (by omega)]
  have hread := (reads_bytes (ModifiedUtf8.encode text)).bind_pure fun bs =>
    Constant.utf8 (ModifiedUtf8.decode bs)
  rwa [ModifiedUtf8.decode_encode] at hread

theorem reads_methodHandle (kind : HandleKind) (member : ConstantIndex) :
    Reads read (write (.methodHandle kind member)) (.methodHandle kind member) := by
  unfold read write
  simp only [List.append_assoc]
  refine (reads_u8 _).bind ?_
  change Reads (do return .methodHandle (← HandleKind.read) (← u16) : Reader Constant) _ _
  have hkind : Reads HandleKind.read (Writer.u8 kind.code) kind := by
    intro rest
    cases kind <;> rfl
  exact hkind.bind ((reads_u16 member).bind_pure _)

theorem reads_one {tag : UInt8} {i : UInt16} {f : UInt16 → Constant}
    (h : readBody tag = do return f (← u16)) :
    Reads read (Writer.u8 tag ++ Writer.u16 i) (f i) := by
  unfold read
  refine (reads_u8 _).bind ?_
  rw [h]
  exact (reads_u16 i).bind_pure _

theorem reads_two {tag : UInt8} {i j : UInt16} {f : UInt16 → UInt16 → Constant}
    (h : readBody tag = do return f (← u16) (← u16)) :
    Reads read (Writer.u8 tag ++ Writer.u16 i ++ Writer.u16 j) (f i j) := by
  unfold read
  rw [List.append_assoc]
  refine (reads_u8 _).bind ?_
  rw [h]
  exact (reads_u16 i).bind ((reads_u16 j).bind_pure _)

theorem reads {c : Constant} (h : c.Fits) : Reads read (write c) c := by
  cases c with
  | utf8 text => exact reads_utf8 h
  | integer value =>
    refine (reads_u8 _).bind ?_
    exact (reads_i32 value).bind_pure Constant.integer
  | float value =>
    refine (reads_u8 _).bind ?_
    exact (reads_u32 value.bits).bind_pure fun bits => Constant.float ⟨bits⟩
  | long value =>
    refine (reads_u8 _).bind ?_
    exact (reads_i64 value).bind_pure Constant.long
  | double value =>
    refine (reads_u8 _).bind ?_
    exact (reads_u64 value.bits).bind_pure fun bits => Constant.double ⟨bits⟩
  | classRef name => exact reads_one rfl
  | string text => exact reads_one rfl
  | fieldRef owner pair => exact reads_two rfl
  | methodRef owner pair isInterface =>
    cases isInterface with
    | false =>
      have h : readBody 10 = do return .methodRef (← u16) (← u16) false := rfl
      exact reads_two h
    | true =>
      have h : readBody 11 = do return .methodRef (← u16) (← u16) true := rfl
      exact reads_two h
  | nameAndType name descriptor => exact reads_two rfl
  | methodHandle kind member => exact reads_methodHandle kind member
  | methodType descriptor => exact reads_one rfl
  | dynamic bootstrap pair => exact reads_two rfl
  | invokeDynamic bootstrap pair => exact reads_two rfl
  | moduleRef name => exact reads_one rfl
  | packageRef name => exact reads_one rfl

end Constant

namespace ConstantTable

/-- A table that starts at the first index and holds the constants one after the other. -/
def Dense (t : ConstantTable) : Prop := t = empty.append t.elements

theorem dense_append (cs : List Constant) : Dense (empty.append cs) := by
  unfold Dense
  rw [SlotTable.elements_append]
  rfl

theorem Dense.append {t : ConstantTable} (h : t.Dense) (cs : List Constant) :
    Dense (t.append cs) := by
  rw [h, ← SlotTable.append_append]
  exact dense_append _

theorem Dense.ordered {t : ConstantTable} (h : t.Dense) : t.Ordered := by
  rw [h]
  exact (SlotTable.ordered_empty 1).append fun c _ => c.width_pos

theorem Dense.get?_append {t : ConstantTable} (h : t.Dense) {slot : Nat} {c : Constant}
    (hc : t.get? slot = some c) (cs : List Constant) :
    SlotTable.get? (t.append cs) slot = some c := by
  rw [SlotTable.get?_eq_some_iff h.ordered] at hc
  rw [SlotTable.get?_eq_some_iff (h.append cs).ordered]
  exact t.mem_entries_append hc cs

theorem Dense.start_eq {t : ConstantTable} (h : t.Dense) : t.start = 1 := by
  rw [h, SlotTable.start_append]
  rfl

theorem Dense.get?_zero {t : ConstantTable} (h : t.Dense) : t.get? 0 = none := by
  refine h.ordered.get?_of_lt_start ?_
  rw [h.start_eq]
  exact Nat.zero_lt_one

theorem next_lt_append_cons (t : ConstantTable) (c : Constant) (cs : List Constant) :
    t.next < (t.append (c :: cs)).next := by
  have hpush : (t.push c).next = t.next + width c := rfl
  have hle := (t.push c).next_le_append cs
  have hpos := c.width_pos
  rw [SlotTable.append_cons]
  omega

theorem reads_readFrom_append {limit : Nat} {t last : ConstantTable} {cs : List Constant}
    {parts : List Bytes} {bytes : Bytes}
    (h : List.Forall₂ (fun c bytes => Reads Constant.read bytes c) cs parts)
    (hlimit : (t.append cs).next ≤ limit)
    (hlast : Reads (readFrom (t.append cs) limit) bytes last) :
    Reads (readFrom t limit) (parts.flatten ++ bytes) last := by
  induction h generalizing t with
  | nil => exact hlast
  | @cons c part cs parts hc _ ih =>
    unfold readFrom
    rw [if_pos (Nat.lt_of_lt_of_le (next_lt_append_cons t c cs) hlimit), List.flatten_cons,
      List.append_assoc]
    exact hc.bind (ih hlimit hlast)

theorem reads_readFrom_of_le {limit : Nat} {t : ConstantTable} (h : limit ≤ t.next) :
    Reads (readFrom t limit) [] t := by
  unfold readFrom
  rw [if_neg (Nat.not_lt.2 h)]
  exact .pure t

theorem reads_readFrom (t : ConstantTable) {cs : List Constant} {parts : List Bytes}
    (h : List.Forall₂ (fun c bytes => Reads Constant.read bytes c) cs parts) :
    Reads (readFrom t (t.append cs).next) parts.flatten (t.append cs) := by
  rw [← List.append_nil parts.flatten]
  exact reads_readFrom_append h (Nat.le_refl _) (reads_readFrom_of_le (Nat.le_refl _))

theorem forall₂_reads {cs : List Constant} (h : ∀ c ∈ cs, c.Fits) :
    List.Forall₂ (fun c bytes => Reads Constant.read bytes c) cs (cs.map Constant.write) :=
  List.forall₂_map_right_iff.2 (List.forall₂_same.2 fun c hc => Constant.reads (h c hc))

/-- The table is as a class file can hold it. -/
structure Fits (t : ConstantTable) : Prop where
  dense : t.Dense
  next_le : t.next ≤ 0xFFFF
  constants : ∀ c ∈ t.elements, c.Fits

theorem reads {t : ConstantTable} (h : t.Fits) : Reads read (write t) t := by
  have hnext := h.next_le
  unfold read write
  refine (reads_u16 _).bind ?_
  rw [UInt16.toNat_ofNat', Nat.mod_eq_of_lt (by omega)]
  have hread := reads_readFrom empty (forall₂_reads h.constants)
  rwa [← h.dense, ← List.flatMap_def] at hread

end ConstantTable

theorem Version.reads (v : Version) : Reads read v.write v := by
  unfold read write
  refine (reads_u16 _).bind ?_
  exact (reads_u16 _).bind_pure fun major => Version.mk major v.minor

namespace Stored

variable {kind : FlagKind}

/-- The parts of the member fit the fields that count them. -/
structure Member.Fits (m : Member kind) : Prop where
  attributes : m.attributes.length ≤ 0xFFFF
  infos : ∀ a ∈ m.attributes, a.info.length < 2 ^ 32

theorem Member.reads {m : Member kind} (h : m.Fits) : Reads read m.write m := by
  obtain ⟨accessFlags, nameIndex, descriptorIndex, attributes⟩ := m
  unfold read write
  simp only [List.append_assoc]
  refine (reads_u16 _).bind ?_
  refine (reads_u16 _).bind ?_
  refine (reads_u16 _).bind ?_
  rw [AccessFlags.truncate_bits]
  exact (reads_attributes h.attributes h.infos).bind_pure _

namespace ClassFile

/-- The parts of the class file, other than the constants, fit the fields that count them. -/
structure Fits (file : ClassFile) : Prop where
  interfaces : file.interfaces.length ≤ 0xFFFF
  fields_length : file.fields.length ≤ 0xFFFF
  fields : ∀ m ∈ file.fields, m.Fits
  methods_length : file.methods.length ≤ 0xFFFF
  methods : ∀ m ∈ file.methods, m.Fits
  attributes : file.attributes.length ≤ 0xFFFF
  infos : ∀ a ∈ file.attributes, a.info.length < 2 ^ 32

theorem reads {file : ClassFile} (h : file.Fits) (hconstants : file.constants.Fits)
    (hsuper : file.superClass ≠ some 0) : Reads read file.write file := by
  unfold read write
  simp only [List.append_assoc]
  refine (reads_u32 _).bind ?_
  rw [if_neg (by simp)]
  refine (Version.reads _).bind ?_
  refine (ConstantTable.reads hconstants).bind ?_
  refine (reads_u16 _).bind ?_
  refine (reads_u16 _).bind ?_
  refine (reads_optionalIndex hsuper).bind ?_
  refine (reads_list16 (fun i _ => reads_u16 i) h.interfaces).bind ?_
  refine (reads_list16 (fun m hm => Member.reads (h.fields m hm)) h.fields_length).bind ?_
  refine (reads_list16 (fun m hm => Member.reads (h.methods m hm)) h.methods_length).bind ?_
  rw [AccessFlags.truncate_bits]
  exact (reads_attributes h.attributes h.infos).bind_pure _

theorem parse_write {file : ClassFile} (h : file.Fits) (hconstants : file.constants.Fits)
    (hsuper : file.superClass ≠ some 0) : parse file.write = .ok file := by
  unfold parse
  rw [(reads h hconstants hsuper).run_eq]

end ClassFile

end Stored

end ClassPatch
