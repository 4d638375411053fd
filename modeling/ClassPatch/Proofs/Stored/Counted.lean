import ClassPatch.Proofs.Binary.Ensures
import ClassPatch.Proofs.Stored.ClassFile

/-!
What is read from bytes fits the fields that counted it.
-/

namespace ClassPatch

namespace Reader.Ensures

theorem bytes (count : Nat) : Ensures (Reader.bytes count) fun bs => bs.length = count := by
  intro input bs rest hrun
  change (if _ then _ else _) = _ at hrun
  split at hrun
  next hlength =>
    cases hrun
    exact hlength
  next => cases hrun

theorem bytes32 : Ensures Reader.bytes32 fun bs => bs.length < 2 ^ 32 := by
  refine skip fun count => (bytes count.toNat).mono ?_
  intro bs hbs
  rw [hbs]
  exact count.toNat_lt

end Reader.Ensures

open Reader

namespace ConstantTable

theorem ensures_readFrom (t : ConstantTable) (limit : Nat) (h : t.Dense) :
    Ensures (readFrom t limit) Dense := by
  induction t using readFrom.induct limit with
  | case1 t hlt ih =>
    unfold readFrom
    rw [if_pos hlt]
    exact .skip fun c => ih c (h.append [c])
  | case2 t hge =>
    unfold readFrom
    rw [if_neg hge]
    exact .pure h

theorem ensures_read : Ensures read Dense :=
  .skip fun limit => ensures_readFrom empty limit.toNat (dense_append [])

end ConstantTable

namespace Stored

namespace ElementValue

theorem ensures_readElements {value : Reader ElementValue}
    (h : value.Ensures ElementTree.Fits) : (readElements value).Ensures fun elements =>
      elements.length ≤ 0xFFFF ∧ ∀ e ∈ elements, e.2.Fits := by
  have helement : Ensures (do return (← u16, ← value) : Reader (ConstantIndex × ElementValue))
      fun e => e.2.Fits :=
    .skip fun _ => h.map fun _ hv => hv
  exact helement.list16

theorem ensures_read (bound : Nat) : (read bound).Ensures ElementTree.Fits := by
  induction bound with
  | zero => exact .throw
  | succ bound ih =>
    unfold read
    refine .skip fun tag => ?_
    split
    · exact .skip fun type => .skip fun name => .pure trivial
    · exact .skip fun descriptor => .pure trivial
    · refine .skip fun type => (ensures_readElements ih).map fun elements h => ?_
      exact ⟨h.1, ElementTree.elementsFit_iff.2 h.2⟩
    · refine ih.list16.map fun values h => ?_
      exact ⟨h.1, ElementTree.valuesFit_iff.2 h.2⟩
    · split
      · exact .skip fun value => .pure trivial
      · exact .throw

end ElementValue

theorem Annotation.ensures_read (bound : Nat) : (read bound).Ensures AnnotationTree.Fits :=
  .skip fun _ => (ElementValue.ensures_readElements (ElementValue.ensures_read bound)).map
    fun _ h => h

theorem Attribute.ensures_read : Ensures read fun a => a.info.length < 2 ^ 32 :=
  .skip fun _ => Ensures.bytes32.map fun _ h => h

theorem ensures_optionalIndex : optionalIndex.Ensures fun i => i ≠ some 0 := by
  refine (Ensures.trivial u16).map fun i _ => ?_
  split
  next => exact nofun
  next hi =>
    intro h
    injection h with h
    exact hi h

theorem ExceptionHandler.ensures_read : Ensures read fun h => h.catchType ≠ some 0 :=
  .skip fun _ => .skip fun _ => .skip fun _ => ensures_optionalIndex.map fun _ h => h

theorem Code.ensures_read : Ensures read Code.Fits := by
  refine .skip fun maxStack => .skip fun maxLocals => ?_
  refine Ensures.bytes32.bind fun code hcode => ?_
  refine ExceptionHandler.ensures_read.list16.bind fun handlers hhandlers => ?_
  refine Attribute.ensures_read.list16.map ?_
  intro attributes hattributes
  exact ⟨hcode, hhandlers.1, hhandlers.2, hattributes.1, hattributes.2⟩

theorem RecordComponent.ensures_read : Ensures read RecordComponent.Fits :=
  .skip fun _ => .skip fun _ => Attribute.ensures_read.list16.map fun _ h => ⟨h.1, h.2⟩

theorem Member.ensures_read {kind : FlagKind} :
    Ensures (read : Reader (Member kind)) Member.Fits := by
  refine .skip fun accessFlags => .skip fun name => .skip fun descriptor => ?_
  refine Attribute.ensures_read.list16.map ?_
  intro attributes h
  exact ⟨h.1, h.2⟩

theorem ClassFile.ensures_read :
    Ensures read fun file => file.Fits ∧ file.constants.Dense := by
  refine .skip fun magic => ?_
  split
  · exact .bind (P := fun _ => False) .throw fun _ h => h.elim
  · refine .skip fun version => ?_
    refine ConstantTable.ensures_read.bind fun constants hconstants => ?_
    refine .skip fun accessFlags => .skip fun thisClass => ?_
    refine .skip fun superClass => ?_
    refine (Ensures.trivial u16).list16.bind fun interfaces hinterfaces => ?_
    refine Member.ensures_read.list16.bind fun fields hfields => ?_
    refine Member.ensures_read.list16.bind fun methods hmethods => ?_
    refine Attribute.ensures_read.list16.map ?_
    intro attributes hattributes
    refine ⟨?_, hconstants⟩
    exact {
      interfaces := hinterfaces.1
      fields_length := hfields.1
      fields := hfields.2
      methods_length := hmethods.1
      methods := hmethods.2
      attributes := hattributes.1
      infos := hattributes.2 }

theorem ClassFile.of_parse {bytes : Bytes} {file : ClassFile} (h : parse bytes = .ok file) :
    file.Fits ∧ file.constants.Dense := by
  unfold parse at h
  split at h
  · cases h
  next hrun =>
    cases h
    exact ensures_read _ _ _ hrun
  · cases h

end Stored

namespace AttributeFormat

theorem ensures_bounded {α : Type} {read : Nat → Reader α} {P : α → Prop}
    (h : ∀ bound, (read bound).Ensures P) : (bounded read).Ensures P :=
  fun input a rest hrun => h input.length input a rest hrun

theorem fits_of_parse_code {info : Bytes} {x : Stored.Code} (h : code.parse info = .ok x) :
    x.Fits :=
  of_parse Stored.Code.ensures_read h

theorem fit_of_parse_record {info : Bytes} {xs : List Stored.RecordComponent}
    (h : record.parse info = .ok xs) : xs.length ≤ 0xFFFF ∧ ∀ x ∈ xs, x.Fits :=
  of_parse (P := fun xs => xs.length ≤ 0xFFFF ∧ ∀ x ∈ xs, x.Fits)
    Stored.RecordComponent.ensures_read.list16 h

theorem length_of_parse_indices {name : String} {info : Bytes} {is : List ConstantIndex}
    (h : (indices name).parse info = .ok is) : is.length ≤ 0xFFFF :=
  (of_parse (Ensures.trivial u16).list16 h).1

theorem fit_of_parse_annotations {name : String} {info : Bytes} {as : List Stored.Annotation}
    (h : (annotations name).parse info = .ok as) : as.length ≤ 0xFFFF ∧ ∀ a ∈ as, a.Fits :=
  of_parse (P := fun as => as.length ≤ 0xFFFF ∧ ∀ a ∈ as, a.Fits)
    (ensures_bounded fun bound => (Stored.Annotation.ensures_read bound).list16) h

theorem fit_of_parse_parameterAnnotations {name : String} {info : Bytes}
    {ass : List (List Stored.Annotation)} (h : (parameterAnnotations name).parse info = .ok ass) :
    ass.length ≤ 0xFF ∧ ∀ as ∈ ass, as.length ≤ 0xFFFF ∧ ∀ a ∈ as, a.Fits :=
  of_parse
    (P := fun ass => ass.length ≤ 0xFF ∧ ∀ as ∈ ass, as.length ≤ 0xFFFF ∧ ∀ a ∈ as, a.Fits)
    (ensures_bounded fun bound => (Stored.Annotation.ensures_read bound).list16.list8) h

theorem fits_of_parse_annotationDefault {info : Bytes} {v : Stored.ElementValue}
    (h : annotationDefault.parse info = .ok v) : v.Fits :=
  of_parse (ensures_bounded Stored.ElementValue.ensures_read) h

end AttributeFormat

end ClassPatch
