import ClassPatch.Proofs.Binary.Local
import ClassPatch.Stored.ClassFile

/-!
Class files are prefix free. Every reader of the format looks at nothing but the bytes that it
takes, also those that follow a tag, a length or a count, so a class file that is cut short ends
before all of it is read, and one with something after it is found to be too long by just that.
-/

namespace ClassPatch

open Reader

theorem HandleKind.local_read : Local read := by
  refine local_u8.bind fun code => ?_
  cases ofCode? code with
  | some kind => exact .pure kind
  | none => exact .throw _

namespace Constant

theorem local_index (f : ConstantIndex → Constant) : Local (do return f (← u16)) :=
  local_u16.bind_pure f

theorem local_indices (f : ConstantIndex → ConstantIndex → Constant) :
    Local (do return f (← u16) (← u16)) :=
  local_u16.bind fun i => local_u16.bind_pure (f i)

theorem local_readBody (tag : UInt8) : Local (readBody tag) := by
  unfold readBody
  split
  next => exact local_u16.bind fun _ => (local_bytes _).bind_pure fun bs =>
    Constant.utf8 (ModifiedUtf8.decode bs)
  next => exact local_i32.bind_pure Constant.integer
  next => exact local_u32.bind_pure fun bits => Constant.float ⟨bits⟩
  next => exact local_i64.bind_pure Constant.long
  next => exact local_u64.bind_pure fun bits => Constant.double ⟨bits⟩
  next => exact local_index Constant.classRef
  next => exact local_index Constant.string
  next => exact local_indices Constant.fieldRef
  next => exact local_indices fun owner pair => Constant.methodRef owner pair false
  next => exact local_indices fun owner pair => Constant.methodRef owner pair true
  next => exact local_indices Constant.nameAndType
  next => exact HandleKind.local_read.bind fun kind => local_index (Constant.methodHandle kind)
  next => exact local_index Constant.methodType
  next => exact local_indices Constant.dynamic
  next => exact local_indices Constant.invokeDynamic
  next => exact local_index Constant.moduleRef
  next => exact local_index Constant.packageRef
  next => exact .throw _

theorem local_read : Local read := local_u8.bind local_readBody

end Constant

namespace ConstantTable

theorem local_readFrom (t : ConstantTable) (limit : Nat) : Local (readFrom t limit) := by
  -- how many constants follow depends on the widths of those that were read
  induction t using readFrom.induct limit with
  | case1 t hlt ih =>
    unfold readFrom
    rw [if_pos hlt]
    exact Constant.local_read.bind ih
  | case2 t hge =>
    unfold readFrom
    rw [if_neg hge]
    exact .pure t

theorem local_read : Local read := local_u16.bind fun _ => local_readFrom _ _

end ConstantTable

theorem Version.local_read : Local read :=
  local_u16.bind fun _ => local_u16.bind_pure _

namespace Stored

theorem Attribute.local_read : Local read :=
  local_u16.bind fun _ => local_bytes32.bind_pure _

theorem Member.local_read {kind : FlagKind} : Local (@read kind) :=
  local_u16.bind fun _ => local_u16.bind fun _ => local_u16.bind fun _ =>
    (local_list16 Attribute.local_read).bind_pure _

namespace ClassFile

theorem local_read : Local read := by
  refine local_u32.bind fun found => ?_
  split
  case isTrue =>
    intro input file rest hrun
    cases hrun
  case isFalse =>
    refine Version.local_read.bind fun version => ?_
    refine ConstantTable.local_read.bind fun constants => ?_
    refine local_u16.bind fun accessFlags => ?_
    refine local_u16.bind fun thisClass => ?_
    refine local_optionalIndex.bind fun superClass => ?_
    refine (local_list16 local_u16).bind fun interfaces => ?_
    refine (local_list16 Member.local_read).bind fun fields => ?_
    refine (local_list16 Member.local_read).bind fun methods => ?_
    exact (local_list16 Attribute.local_read).bind_pure _

variable {bytes : Bytes} {file : ClassFile}

theorem parse_eq_ok_iff : parse bytes = .ok file ↔ read.run bytes = .ok (file, []) := by
  unfold parse
  split
  next e hrun =>
    rw [hrun]
    exact ⟨nofun, nofun⟩
  next file' hrun =>
    rw [hrun]
    exact ⟨fun h => by cases h; rfl, fun h => by cases h; rfl⟩
  next file' rest hrest hrun =>
    rw [hrun]
    refine ⟨nofun, fun h => ?_⟩
    cases h
    exact (hrest rfl).elim

/--
If the bytes are a class file, they are none as soon as they end early, because the input ends
before all parts are read, and none with anything after them, because that is left over.
-/
theorem prefixFree (h : parse bytes = .ok file) :
    (∀ front, front <+: bytes → front ≠ bytes → parse front = .error .endOfInput)
      ∧ ∀ extra, extra ≠ [] → parse (bytes ++ extra)
        = .error (.malformedAttribute "ClassFile" (.trailingBytes extra.length)) := by
  obtain ⟨taken, htaken, hreads, hneeds⟩ := local_read _ _ _ (parse_eq_ok_iff.1 h)
  rw [List.append_nil] at htaken
  subst htaken
  constructor
  · intro front hfront hne
    have hlt : front.length < bytes.length :=
      Nat.lt_of_le_of_ne hfront.length_le fun heq => hne (hfront.eq_of_length heq)
    have hrun := hneeds _ hlt
    rw [← List.prefix_iff_eq_take.1 hfront] at hrun
    unfold parse
    rw [hrun]
  · intro extra hextra
    obtain ⟨b, extra, rfl⟩ := List.exists_cons_of_ne_nil hextra
    unfold parse
    rw [hreads]

/-- A class file with a constant of two slots, an interface and a method that has an attribute. -/
def countedFile : Bytes :=
  [0xCA, 0xFE, 0xBA, 0xBE, 0, 0, 0, 52, 0, 6, 1, 0, 1, 65, 7, 0, 1, 5, 0, 0, 0, 0, 0, 0, 0, 7, 1, 0,
    0, 0, 0x21, 0, 2, 0, 0, 0, 1, 0, 2, 0, 0, 0, 1, 4, 0, 0, 1, 0, 5, 0, 1, 0, 5, 0, 0, 0, 3, 1, 2,
    3, 0, 1, 0, 1, 0, 0, 0, 0]

theorem prefixFree_countedFile : ∃ file, parse countedFile = .ok file
    ∧ (∀ front, front <+: countedFile → front ≠ countedFile → parse front = .error .endOfInput)
    ∧ ∀ extra, extra ≠ [] → parse (countedFile ++ extra)
      = .error (.malformedAttribute "ClassFile" (.trailingBytes extra.length)) := by
  have hparses : (parse countedFile).toOption.isSome = true := by decide +kernel
  obtain ⟨file, hfile⟩ := Option.isSome_iff_exists.1 hparses
  have hparse := eq_ok_of_toOption hfile
  exact ⟨file, hparse, prefixFree hparse⟩

end ClassFile

end Stored

end ClassPatch
