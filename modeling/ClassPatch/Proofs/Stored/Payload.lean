import ClassPatch.Proofs.Bytecode.FrameSize
import ClassPatch.Proofs.Stored.Attribute

/-!
All kinds of attributes whose content is understood, seen as one family. What is written as content
of a kind is parsed as the same content, and is refused if anything stands behind it.
-/

namespace ClassPatch

open Reader

/-- Attributes whose content is understood. -/
inductive AttributeKind where
  | constantValue | code | stackMapTable | bootstrapMethods | nestHost | nestMembers
  | permittedSubclasses | exceptions | sourceFile | innerClasses | enclosingMethod | signature
  | lineNumberTable | localVariableTable | localVariableTypeTable | record
  | visibleAnnotations | invisibleAnnotations
  | visibleParameterAnnotations | invisibleParameterAnnotations
  | annotationDefault
  deriving DecidableEq, Repr

namespace FrameChange

variable {C S : Type}

instance : (change : FrameChange C S) → Decidable change.Writable
  | .same | .sameWithStack _ | .full .. => .isTrue True.intro
  | .chop _ | .append _ => inferInstanceAs (Decidable (_ ∧ _))

instance : (change : FrameChange C S) → Decidable change.Fits
  | .same | .sameWithStack _ => .isTrue True.intro
  | .chop _ => inferInstanceAs (Decidable (_ ≤ _))
  | .append _ => inferInstanceAs (Decidable (_ ≤ _))
  | .full .. => inferInstanceAs (Decidable (_ ∧ _))

end FrameChange

namespace AttributeFormat

variable {α : Type} {format : AttributeFormat α} {a : α} {info : Bytes}

theorem store_of_write (h : format.write a = .ok info) :
    format.store a = do return { nameIndex := ← PoolM.utf8 format.name, info } := by
  unfold store
  rw [h]
  rfl

theorem parse_append_of_reads (h : Reads format.read info a) {suffix : Bytes}
    (hsuffix : suffix ≠ []) : format.parse (info ++ suffix)
      = .error (.malformedAttribute format.name (.trailingBytes suffix.length)) := by
  obtain ⟨b, suffix, rfl⟩ := List.exists_cons_of_ne_nil hsuffix
  unfold parse
  rw [h]

end AttributeFormat

namespace AttributeKind

/-- What attributes of the kind hold. -/
@[reducible]
def Content : AttributeKind → Type
  | .constantValue | .nestHost | .sourceFile | .signature => ConstantIndex
  | .nestMembers | .permittedSubclasses | .exceptions => List ConstantIndex
  | .code => Stored.Code
  | .stackMapTable => List Stored.FrameEntry
  | .bootstrapMethods => List BootstrapEntry
  | .innerClasses => List Stored.InnerClass
  | .enclosingMethod => Stored.EnclosingMethod
  | .lineNumberTable => List Stored.LineNumber
  | .localVariableTable | .localVariableTypeTable => List Stored.LocalVariable
  | .record => List Stored.RecordComponent
  | .visibleAnnotations | .invisibleAnnotations => List Stored.Annotation
  | .visibleParameterAnnotations | .invisibleParameterAnnotations =>
    List (List Stored.Annotation)
  | .annotationDefault => Stored.ElementValue

def format : (k : AttributeKind) → AttributeFormat k.Content
  | .constantValue => .constantValue
  | .code => .code
  | .stackMapTable => .stackMapTable
  | .bootstrapMethods => .bootstrapMethods
  | .nestHost => .nestHost
  | .nestMembers => .nestMembers
  | .permittedSubclasses => .permittedSubclasses
  | .exceptions => .exceptions
  | .sourceFile => .sourceFile
  | .innerClasses => .innerClasses
  | .enclosingMethod => .enclosingMethod
  | .signature => .signature
  | .lineNumberTable => .lineNumberTable
  | .localVariableTable => .localVariableTable
  | .localVariableTypeTable => .localVariableTypeTable
  | .record => .record
  | .visibleAnnotations => .visibleAnnotations
  | .invisibleAnnotations => .invisibleAnnotations
  | .visibleParameterAnnotations => .visibleParameterAnnotations
  | .invisibleParameterAnnotations => .invisibleParameterAnnotations
  | .annotationDefault => .annotationDefault

/--
The lists of the content fit the fields that count them, its changes of frames have entries, and no
index that is there is 0.
-/
def Fits : (k : AttributeKind) → k.Content → Prop
  | .constantValue, _ | .nestHost, _ | .sourceFile, _ | .signature, _ => True
  | .nestMembers, indices | .permittedSubclasses, indices | .exceptions, indices =>
    indices.length ≤ 0xFFFF
  | .code, c => c.Fits
  | .stackMapTable, entries =>
    entries.length ≤ 0xFFFF ∧ ∀ e ∈ entries, e.change.Writable ∧ e.change.Fits
  | .bootstrapMethods, entries =>
    entries.length ≤ 0xFFFF ∧ ∀ e ∈ entries, e.arguments.length ≤ 0xFFFF
  | .innerClasses, classes =>
    classes.length ≤ 0xFFFF ∧ ∀ c ∈ classes, c.outerClass ≠ some 0 ∧ c.innerName ≠ some 0
  | .enclosingMethod, e => e.method ≠ some 0
  | .lineNumberTable, lines => lines.length ≤ 0xFFFF
  | .localVariableTable, locals | .localVariableTypeTable, locals =>
    locals.length ≤ 0xFFFF
  | .record, components => components.length ≤ 0xFFFF ∧ ∀ c ∈ components, c.Fits
  | .visibleAnnotations, as | .invisibleAnnotations, as =>
    as.length ≤ 0xFFFF ∧ ∀ a ∈ as, a.Fits
  | .visibleParameterAnnotations, lists | .invisibleParameterAnnotations, lists =>
    lists.length ≤ 0xFF ∧ ∀ as ∈ lists, as.length ≤ 0xFFFF ∧ ∀ a ∈ as, a.Fits
  | .annotationDefault, v => v.Fits

/-- Content that fits is written, and read from what it is written as, whatever follows. -/
theorem exists_reads {k : AttributeKind} {a : k.Content} (h : k.Fits a) :
    ∃ info, k.format.write a = .ok info ∧ Reads k.format.read info a := by
  cases k with
  | constantValue | nestHost | sourceFile | signature => exact ⟨_, rfl, reads_u16 a⟩
  | nestMembers | permittedSubclasses | exceptions =>
    exact ⟨_, rfl, reads_list16 (fun i _ => reads_u16 i) h⟩
  | code => exact ⟨_, rfl, Stored.Code.reads h⟩
  | stackMapTable =>
    obtain ⟨info, hinfo⟩ := Stored.FrameEntry.exists_writeTable fun e he => (h.2 e he).1
    have hentries : ∀ e ∈ a, e.Fits := fun e he => Stored.FrameEntry.fits_of_change (h.2 e he).2
    exact ⟨info, hinfo, Stored.FrameEntry.reads_writeTable h.1 hentries hinfo⟩
  | bootstrapMethods =>
    exact ⟨_, rfl, reads_list16 (fun e he => BootstrapEntry.reads (h.2 e he)) h.1⟩
  | innerClasses =>
    have hclass (c : Stored.InnerClass) (hc : c ∈ a) :=
      Stored.InnerClass.reads (h.2 c hc).1 (h.2 c hc).2
    exact ⟨_, rfl, reads_list16 hclass h.1⟩
  | enclosingMethod => exact ⟨_, rfl, Stored.EnclosingMethod.reads h⟩
  | lineNumberTable => exact ⟨_, rfl, reads_list16 (fun l _ => Stored.LineNumber.reads l) h⟩
  | localVariableTable | localVariableTypeTable =>
    exact ⟨_, rfl, reads_list16 (fun v _ => Stored.LocalVariable.reads v) h⟩
  | record =>
    exact ⟨_, rfl, reads_list16 (fun c hc => Stored.RecordComponent.reads (h.2 c hc)) h.1⟩
  | visibleAnnotations | invisibleAnnotations =>
    exact ⟨_, rfl, AttributeFormat.reads_bounded fun _ hbound =>
      AttributeFormat.reads_annotationList h.1 h.2 hbound⟩
  | visibleParameterAnnotations | invisibleParameterAnnotations =>
    exact ⟨_, rfl, AttributeFormat.reads_bounded fun _ hbound =>
      AttributeFormat.reads_parameterAnnotationLists h.1 h.2 hbound⟩
  | annotationDefault =>
    exact ⟨_, rfl, AttributeFormat.reads_bounded fun bound hbound =>
      Stored.ElementValue.reads_elementValue a h bound hbound⟩

/--
Content that fits is stored whenever the pool has room for the name of its kind. What is stored is
parsed as the content, and every byte behind it is counted as one too many.
-/
theorem parse_store_of_fits {k : AttributeKind} {a : k.Content} (h : k.Fits a) :
    ∃ info, k.format.store a = (do return { nameIndex := ← PoolM.utf8 k.format.name, info })
      ∧ k.format.parse info = .ok a
      ∧ ∀ suffix ≠ [], k.format.parse (info ++ suffix)
          = .error (.malformedAttribute k.format.name (.trailingBytes suffix.length)) := by
  obtain ⟨info, hwrite, hreads⟩ := exists_reads h
  refine ⟨info, AttributeFormat.store_of_write hwrite, ?_, ?_⟩
  · exact AttributeFormat.parse_of_run_eq hreads.run_eq
  · intro suffix hsuffix
    exact AttributeFormat.parse_append_of_reads hreads hsuffix

/-- A table with every form of entry, at the offsets where the forms change. -/
def entriesOfAllForms : List Stored.FrameEntry :=
  [⟨63, .same⟩, ⟨64, .same⟩, ⟨63, .sameWithStack .int⟩, ⟨64, .sameWithStack (.object 9)⟩,
    ⟨7, .chop 1⟩, ⟨0xFFFF, .chop 3⟩, ⟨0, .append [.long]⟩,
    ⟨0, .append [.top, .null, .uninitialized 12]⟩,
    ⟨2, .full [.float] [.double, .uninitializedThis]⟩]

theorem parse_store_entriesOfAllForms : stackMapTable.Fits entriesOfAllForms
    ∧ ∃ info, stackMapTable.format.store entriesOfAllForms
        = (do return { nameIndex := ← PoolM.utf8 "StackMapTable", info })
      ∧ stackMapTable.format.parse info = .ok entriesOfAllForms
      ∧ ∀ suffix ≠ [], stackMapTable.format.parse (info ++ suffix)
          = .error (.malformedAttribute "StackMapTable" (.trailingBytes suffix.length)) :=
  have hfits : stackMapTable.Fits entriesOfAllForms := ⟨by decide, by decide⟩
  ⟨hfits, parse_store_of_fits (k := .stackMapTable) hfits⟩

end AttributeKind

end ClassPatch
