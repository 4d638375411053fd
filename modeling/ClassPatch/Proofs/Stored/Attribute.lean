import ClassPatch.Proofs.Annotation.Format
import ClassPatch.Proofs.Bytecode.Frame
import ClassPatch.Proofs.Run
import ClassPatch.Stored.Attribute

/-!
The content of attributes is read back from what it is written as, if its parts fit the fields that
count them.
-/

namespace ClassPatch

open Reader

theorem length_le_of_mem_flatMap {α : Type} (write : α → Bytes) {as : List α} {a : α}
    (h : a ∈ as) : (write a).length ≤ (as.flatMap write).length := by
  induction as with
  | nil => cases h
  | cons b as ih =>
    rw [List.flatMap_cons, List.length_append]
    rcases List.mem_cons.1 h with rfl | h
    · omega
    · have := ih h
      omega

namespace Stored

theorem Attribute.reads {a : Attribute} (h : a.info.length < 2 ^ 32) : Reads read a.write a := by
  unfold read write
  refine (reads_u16 _).bind ?_
  exact (reads_bytes32 h).bind_pure _

theorem Attribute.length_info_le (a : Attribute) : a.info.length ≤ a.write.length := by
  simp only [write, Writer.bytes32, List.length_append]
  omega

theorem reads_attributes {as : List Attribute} (hlength : as.length ≤ 0xFFFF)
    (h : ∀ a ∈ as, a.info.length < 2 ^ 32) :
    Reads (list16 Attribute.read) (Writer.list16 Attribute.write as) as :=
  reads_list16 (fun a ha => Attribute.reads (h a ha)) hlength

theorem length_info_le_of_mem {as : List Attribute} {a : Attribute} (h : a ∈ as) :
    a.info.length ≤ (Writer.list16 Attribute.write as).length := by
  have hmem := length_le_of_mem_flatMap Attribute.write h
  have hinfo := a.length_info_le
  rw [Writer.list16, List.length_append]
  omega

theorem ExceptionHandler.reads {h : ExceptionHandler} (hc : h.catchType ≠ some 0) :
    Reads read h.write h := by
  unfold read write
  simp only [List.append_assoc]
  refine (reads_u16 _).bind ?_
  refine (reads_u16 _).bind ?_
  refine (reads_u16 _).bind ?_
  exact (reads_optionalIndex hc).bind_pure _

/-- The parts of the code fit the fields that count them. -/
structure Code.Fits (c : Code) : Prop where
  code : c.code.length < 2 ^ 32
  exceptionTable : c.exceptionTable.length ≤ 0xFFFF
  catchTypes : ∀ h ∈ c.exceptionTable, h.catchType ≠ some 0
  attributes : c.attributes.length ≤ 0xFFFF
  infos : ∀ a ∈ c.attributes, a.info.length < 2 ^ 32

theorem Code.reads {c : Code} (h : c.Fits) : Reads read c.write c := by
  unfold read write
  simp only [List.append_assoc]
  refine (reads_u16 _).bind ?_
  refine (reads_u16 _).bind ?_
  refine (reads_bytes32 h.code).bind ?_
  refine (reads_list16 (fun e he => ExceptionHandler.reads (h.catchTypes e he))
    h.exceptionTable).bind ?_
  exact (reads_attributes h.attributes h.infos).bind_pure _

theorem VerificationType.reads (t : VerificationType) : Reads read (write t) t := by
  cases t with
  | object c =>
    unfold read write
    refine (reads_u8 _).bind ?_
    change Reads (do return .object (← u16) : Reader VerificationType) _ _
    exact (reads_u16 c).bind_pure _
  | uninitialized site =>
    unfold read write
    refine (reads_u8 _).bind ?_
    change Reads (do return .uninitialized (← u16) : Reader VerificationType) _ _
    exact (reads_u16 site).bind_pure _
  | _ =>
    intro rest
    rfl

/-- The types of a full frame can be counted in two bytes. -/
def FrameEntry.Fits (e : FrameEntry) : Prop :=
  ∀ locals stack, e.change = .full locals stack → locals.length ≤ 0xFFFF ∧ stack.length ≤ 0xFFFF

namespace FrameEntry

theorem fits_of_change {e : FrameEntry} (h : e.change.Fits) : e.Fits := by
  intro locals stack hchange
  rw [hchange] at h
  exact h

theorem toUInt16_toUInt8 {delta : UInt16} (h : delta < 64) : delta.toUInt8.toUInt16 = delta := by
  rw [UInt16.lt_iff_toNat_lt] at h
  apply UInt16.toNat_inj.1
  rw [UInt8.toNat_toUInt16, UInt16.toNat_toUInt8]
  change delta.toNat % 256 = _
  have : (64 : UInt16).toNat = 64 := rfl
  omega

theorem toUInt8_lt {delta : UInt16} (h : delta < 64) : delta.toUInt8 < 64 := by
  rw [UInt16.lt_iff_toNat_lt] at h
  rw [UInt8.lt_iff_toNat_lt, UInt16.toNat_toUInt8]
  change delta.toNat % 256 < 64
  have : (64 : UInt16).toNat = 64 := rfl
  omega

theorem reads_same (delta : UInt16) :
    Reads read (if delta < 64 then Writer.u8 delta.toUInt8 else Writer.u8 251 ++ Writer.u16 delta)
      ⟨delta, .same⟩ := by
  unfold read
  split
  next h =>
    have hbody : Reads (readBody delta.toUInt8) [] ⟨delta, .same⟩ := by
      unfold readBody
      rw [if_pos (toUInt8_lt h), toUInt16_toUInt8 h]
      exact .pure _
    have hread := (reads_u8 delta.toUInt8).bind hbody
    rwa [List.append_nil] at hread
  next h =>
    refine (reads_u8 _).bind ?_
    change Reads (do return ⟨← u16, .same⟩ : Reader FrameEntry) _ _
    exact (reads_u16 delta).bind_pure _

theorem reads_sameWithStack (delta : UInt16) (t : VerificationType) :
    Reads read
      ((if delta < 64 then Writer.u8 (64 + delta.toUInt8) else Writer.u8 247 ++ Writer.u16 delta)
        ++ VerificationType.write t)
      ⟨delta, .sameWithStack t⟩ := by
  unfold read
  split
  next h =>
    refine (reads_u8 _).bind ?_
    have hlt := toUInt8_lt h
    have hsub : 64 + delta.toUInt8 - 64 = delta.toUInt8 := by
      rw [UInt8.add_comm, UInt8.add_sub_cancel]
    rw [UInt8.lt_iff_toNat_lt] at hlt
    change delta.toUInt8.toNat < 64 at hlt
    have hnat : (64 + delta.toUInt8).toNat = 64 + delta.toUInt8.toNat := by
      rw [UInt8.toNat_add]
      change (64 + delta.toUInt8.toNat) % 256 = _
      omega
    unfold readBody
    rw [if_neg, if_pos, hsub, toUInt16_toUInt8 h]
    · exact (VerificationType.reads t).bind_pure _
    · rw [UInt8.lt_iff_toNat_lt, hnat]
      change 64 + delta.toUInt8.toNat < 128
      omega
    · rw [UInt8.lt_iff_toNat_lt, hnat]
      change ¬64 + delta.toUInt8.toNat < 64
      omega
  next h =>
    simp only [List.append_assoc]
    refine (reads_u8 _).bind ?_
    change Reads (do return ⟨← u16, .sameWithStack (← VerificationType.read)⟩ : Reader FrameEntry)
      _ _
    refine (reads_u16 delta).bind ?_
    exact (VerificationType.reads t).bind_pure _

theorem reads_chop (delta : UInt16) {count : UInt8} (h : 1 ≤ count ∧ count ≤ 3) :
    Reads read (Writer.u8 (251 - count) ++ Writer.u16 delta) ⟨delta, .chop count⟩ := by
  unfold read
  refine (reads_u8 _).bind ?_
  have hcount : count = 1 ∨ count = 2 ∨ count = 3 := by
    simp only [UInt8.le_iff_toNat_le, ← UInt8.toNat_inj] at h ⊢
    have : (1 : UInt8).toNat = 1 := rfl
    have : (2 : UInt8).toNat = 2 := rfl
    have : (3 : UInt8).toNat = 3 := rfl
    omega
  rcases hcount with rfl | rfl | rfl
  · change Reads (do return ⟨← u16, .chop 1⟩ : Reader FrameEntry) _ _
    exact (reads_u16 delta).bind_pure _
  · change Reads (do return ⟨← u16, .chop 2⟩ : Reader FrameEntry) _ _
    exact (reads_u16 delta).bind_pure _
  · change Reads (do return ⟨← u16, .chop 3⟩ : Reader FrameEntry) _ _
    exact (reads_u16 delta).bind_pure _

theorem reads_append (delta : UInt16) {locals : List VerificationType}
    (h : 1 ≤ locals.length ∧ locals.length ≤ 3) :
    Reads read
      (Writer.u8 (251 + UInt8.ofNat locals.length) ++ Writer.u16 delta
        ++ locals.flatMap VerificationType.write)
      ⟨delta, .append locals⟩ := by
  unfold read
  simp only [List.append_assoc]
  refine (reads_u8 _).bind ?_
  have hread := reads_many fun t (_ : t ∈ locals) => VerificationType.reads t
  have hlength : locals.length = 1 ∨ locals.length = 2 ∨ locals.length = 3 := by omega
  rcases hlength with hlength | hlength | hlength
  · rw [hlength] at hread ⊢
    change Reads (do return ⟨← u16, .append (← many VerificationType.read 1)⟩ : Reader FrameEntry)
      _ _
    exact (reads_u16 delta).bind (hread.bind_pure _)
  · rw [hlength] at hread ⊢
    change Reads (do return ⟨← u16, .append (← many VerificationType.read 2)⟩ : Reader FrameEntry)
      _ _
    exact (reads_u16 delta).bind (hread.bind_pure _)
  · rw [hlength] at hread ⊢
    change Reads (do return ⟨← u16, .append (← many VerificationType.read 3)⟩ : Reader FrameEntry)
      _ _
    exact (reads_u16 delta).bind (hread.bind_pure _)

theorem reads_full (delta : UInt16) {locals stack : List VerificationType}
    (hlocals : locals.length ≤ 0xFFFF) (hstack : stack.length ≤ 0xFFFF) :
    Reads read
      (Writer.u8 255 ++ Writer.u16 delta ++ Writer.list16 VerificationType.write locals
        ++ Writer.list16 VerificationType.write stack)
      ⟨delta, .full locals stack⟩ := by
  unfold read
  simp only [List.append_assoc]
  refine (reads_u8 _).bind ?_
  change Reads (do return ⟨← u16, .full (← list16 VerificationType.read)
    (← list16 VerificationType.read)⟩ : Reader FrameEntry) _ _
  refine (reads_u16 delta).bind ?_
  refine (reads_list16 (fun t _ => VerificationType.reads t) hlocals).bind ?_
  exact (reads_list16 (fun t _ => VerificationType.reads t) hstack).bind_pure _

theorem reads_write {e : FrameEntry} (hfits : e.Fits) {bytes : Bytes} (h : e.write = .ok bytes) :
    Reads read bytes e := by
  obtain ⟨delta, change⟩ := e
  unfold write at h
  cases change with
  | same =>
    cases h
    exact reads_same delta
  | sameWithStack t =>
    cases h
    exact reads_sameWithStack delta t
  | chop count =>
    dsimp only at h
    split at h
    next hcount =>
      cases h
      exact reads_chop delta hcount
    · cases h
  | append locals =>
    dsimp only at h
    split at h
    next hlength =>
      cases h
      exact reads_append delta hlength
    · cases h
  | full locals stack =>
    cases h
    obtain ⟨hlocals, hstack⟩ := hfits locals stack rfl
    exact reads_full delta hlocals hstack

theorem reads_parts {entries : List FrameEntry} {parts : List Bytes}
    (h : List.Forall₂ (fun e part => write e = .ok part) entries parts)
    (hfits : ∀ e ∈ entries, e.Fits) : Reads (many read entries.length) parts.flatten entries := by
  induction h with
  | nil => exact .pure []
  | cons hhead htail ih =>
    rw [List.forall_mem_cons] at hfits
    rw [List.flatten_cons]
    refine (reads_write hfits.1 hhead).bind ?_
    exact (ih hfits.2).bind_pure _

theorem reads_writeTable {entries : List FrameEntry} (hlength : entries.length ≤ 0xFFFF)
    (hfits : ∀ e ∈ entries, e.Fits) {bytes : Bytes} (h : writeTable entries = .ok bytes) :
    Reads (list16 read) bytes entries := by
  unfold writeTable at h
  obtain ⟨parts, hparts, h⟩ := bind_eq_ok.1 h
  obtain rfl := pure_eq_ok.1 h
  unfold list16
  refine (reads_u16 _).bind ?_
  rw [UInt16.toNat_ofNat', Nat.mod_eq_of_lt (by omega)]
  exact reads_parts (mapM_eq_ok.1 hparts) hfits

end FrameEntry

theorem InnerClass.reads {c : InnerClass} (houter : c.outerClass ≠ some 0)
    (hname : c.innerName ≠ some 0) : Reads read c.write c := by
  obtain ⟨innerClass, outerClass, innerName, accessFlags⟩ := c
  unfold read write
  simp only [List.append_assoc]
  refine (reads_u16 _).bind ?_
  refine (reads_optionalIndex houter).bind ?_
  refine (reads_optionalIndex hname).bind ?_
  have hflags := (reads_u16 accessFlags.bits).bind_pure fun bits =>
    InnerClass.mk innerClass outerClass innerName (AccessFlags.truncate _ bits)
  rwa [AccessFlags.truncate_bits] at hflags

theorem EnclosingMethod.reads {e : EnclosingMethod} (h : e.method ≠ some 0) :
    Reads read e.write e := by
  unfold read write
  refine (reads_u16 _).bind ?_
  exact (reads_optionalIndex h).bind_pure _

theorem LineNumber.reads (l : LineNumber) : Reads read l.write l := by
  unfold read write
  refine (reads_u16 _).bind ?_
  exact (reads_u16 _).bind_pure _

theorem LocalVariable.reads (v : LocalVariable) : Reads read v.write v := by
  unfold read write
  simp only [List.append_assoc]
  refine (reads_u16 _).bind ?_
  refine (reads_u16 _).bind ?_
  refine (reads_u16 _).bind ?_
  refine (reads_u16 _).bind ?_
  exact (reads_u16 _).bind_pure _

/-- The parts of the component fit the fields that count them. -/
structure RecordComponent.Fits (c : RecordComponent) : Prop where
  attributes : c.attributes.length ≤ 0xFFFF
  infos : ∀ a ∈ c.attributes, a.info.length < 2 ^ 32

theorem RecordComponent.reads {c : RecordComponent} (h : c.Fits) : Reads read c.write c := by
  unfold read write
  simp only [List.append_assoc]
  refine (reads_u16 _).bind ?_
  refine (reads_u16 _).bind ?_
  exact (reads_attributes h.attributes h.infos).bind_pure _

end Stored

theorem BootstrapEntry.reads {e : BootstrapEntry} (h : e.arguments.length ≤ 0xFFFF) :
    Reads read e.write e := by
  unfold read write
  refine (reads_u16 _).bind ?_
  exact (reads_list16 (fun i _ => reads_u16 i) h).bind_pure _

namespace AttributeFormat

variable {α : Type}

/-- What is written as the content of an attribute is parsed as the same. -/
def ReadsBack (format : AttributeFormat α) (a : α) : Prop :=
  ∀ info, format.write a = .ok info → format.parse info = .ok a

theorem parse_of_run_eq {format : AttributeFormat α} {info : Bytes} {a : α}
    (h : format.read.run info = .ok (a, [])) : format.parse info = .ok a := by
  unfold parse
  rw [h]

theorem readsBack_total {name : String} {read : Reader α} {write : α → Bytes} {a : α}
    (h : Reads read (write a) a) : (total name read write).ReadsBack a := by
  intro info hwrite
  cases hwrite
  exact parse_of_run_eq h.run_eq

theorem readsBack_index (name : String) (i : ConstantIndex) : (index name).ReadsBack i :=
  readsBack_total (reads_u16 i)

theorem readsBack_indices (name : String) {is : List ConstantIndex} (h : is.length ≤ 0xFFFF) :
    (indices name).ReadsBack is :=
  readsBack_total (reads_list16 (fun i _ => reads_u16 i) h)

theorem readsBack_code {c : Stored.Code} (h : c.Fits) : code.ReadsBack c :=
  readsBack_total (Stored.Code.reads h)

theorem readsBack_stackMapTable {entries : List Stored.FrameEntry}
    (hlength : entries.length ≤ 0xFFFF) (hfits : ∀ e ∈ entries, e.Fits) :
    stackMapTable.ReadsBack entries := by
  intro info hwrite
  exact parse_of_run_eq (Stored.FrameEntry.reads_writeTable hlength hfits hwrite).run_eq

theorem readsBack_bootstrapMethods {entries : List BootstrapEntry}
    (hlength : entries.length ≤ 0xFFFF) (h : ∀ e ∈ entries, e.arguments.length ≤ 0xFFFF) :
    bootstrapMethods.ReadsBack entries :=
  readsBack_total (reads_list16 (fun e he => BootstrapEntry.reads (h e he)) hlength)

theorem readsBack_innerClasses {cs : List Stored.InnerClass} (hlength : cs.length ≤ 0xFFFF)
    (h : ∀ c ∈ cs, c.outerClass ≠ some 0 ∧ c.innerName ≠ some 0) : innerClasses.ReadsBack cs :=
  readsBack_total
    (reads_list16 (fun c hc => Stored.InnerClass.reads (h c hc).1 (h c hc).2) hlength)

theorem readsBack_enclosingMethod {e : Stored.EnclosingMethod} (h : e.method ≠ some 0) :
    enclosingMethod.ReadsBack e :=
  readsBack_total (Stored.EnclosingMethod.reads h)

theorem readsBack_lineNumberTable {ls : List Stored.LineNumber} (hlength : ls.length ≤ 0xFFFF) :
    lineNumberTable.ReadsBack ls :=
  readsBack_total (reads_list16 (fun l _ => Stored.LineNumber.reads l) hlength)

theorem readsBack_localVariables (name : String) {vs : List Stored.LocalVariable}
    (hlength : vs.length ≤ 0xFFFF) : (localVariables name).ReadsBack vs :=
  readsBack_total (reads_list16 (fun v _ => Stored.LocalVariable.reads v) hlength)

theorem readsBack_record {cs : List Stored.RecordComponent} (hlength : cs.length ≤ 0xFFFF)
    (h : ∀ c ∈ cs, c.Fits) : record.ReadsBack cs :=
  readsBack_total (reads_list16 (fun c hc => Stored.RecordComponent.reads (h c hc)) hlength)

theorem reads_bounded {read : Nat → Reader α} {bytes : Bytes} {a : α}
    (h : ∀ bound, bytes.length ≤ bound → Reads (read bound) bytes a) :
    Reads (bounded read) bytes a := by
  intro rest
  refine h _ ?_ rest
  rw [List.length_append]
  omega

theorem readsBack_bounded {name : String} {read : Nat → Reader α} {write : α → Bytes} {a : α}
    (h : ∀ bound, (write a).length ≤ bound → Reads (read bound) (write a) a) :
    (total name (bounded read) write).ReadsBack a :=
  readsBack_total (reads_bounded h)

theorem reads_annotationList {as : List Stored.Annotation} (hlength : as.length ≤ 0xFFFF)
    (hfits : ∀ a ∈ as, a.Fits) {bound : Nat}
    (hbound : (Writer.list16 Stored.Annotation.write as).length ≤ bound) :
    Reads (list16 (Stored.Annotation.read bound)) (Writer.list16 Stored.Annotation.write as)
      as := by
  refine reads_list16 ?_ hlength
  intro a ha
  have hmem := length_le_of_mem_flatMap Stored.Annotation.write ha
  rw [Writer.list16, List.length_append] at hbound
  exact Stored.Annotation.reads_annotation (hfits a ha) (by omega)

theorem readsBack_annotations (name : String) {as : List Stored.Annotation}
    (hlength : as.length ≤ 0xFFFF) (hfits : ∀ a ∈ as, a.Fits) :
    (annotations name).ReadsBack as :=
  readsBack_bounded fun _ hbound => reads_annotationList hlength hfits hbound

theorem reads_parameterAnnotationLists {ass : List (List Stored.Annotation)}
    (hlength : ass.length ≤ 0xFF) (hfits : ∀ as ∈ ass, as.length ≤ 0xFFFF ∧ ∀ a ∈ as, a.Fits)
    {bound : Nat}
    (hbound : (Writer.list8 (Writer.list16 Stored.Annotation.write) ass).length ≤ bound) :
    Reads (list8 (list16 (Stored.Annotation.read bound)))
      (Writer.list8 (Writer.list16 Stored.Annotation.write) ass) ass := by
  refine reads_list8 ?_ hlength
  intro as has
  have hmem := length_le_of_mem_flatMap (Writer.list16 Stored.Annotation.write) has
  rw [Writer.list8, List.length_append] at hbound
  exact reads_annotationList (hfits as has).1 (hfits as has).2 (by omega)

theorem readsBack_parameterAnnotations (name : String) {ass : List (List Stored.Annotation)}
    (hlength : ass.length ≤ 0xFF) (hfits : ∀ as ∈ ass, as.length ≤ 0xFFFF ∧ ∀ a ∈ as, a.Fits) :
    (parameterAnnotations name).ReadsBack ass :=
  readsBack_bounded fun _ hbound => reads_parameterAnnotationLists hlength hfits hbound

theorem readsBack_annotationDefault {v : Stored.ElementValue} (h : v.Fits) :
    annotationDefault.ReadsBack v :=
  readsBack_bounded fun bound hbound =>
    Stored.ElementValue.reads_elementValue v h bound hbound

end AttributeFormat

end ClassPatch
