import ClassPatch.Annotation.Basic
import ClassPatch.Binary.Reader
import ClassPatch.Binary.Writer

/-!
Binary form of annotations.
-/

namespace ClassPatch

open Writer

/-- The byte of an ASCII character. -/
def asciiByte (c : Char) : UInt8 := UInt8.ofNat c.toNat

namespace Stored

namespace LeafValue

def write : LeafValue → Bytes
  | .const tag value => u8 (asciiByte tag.letter) ++ u16 value
  | .enum type name => u8 (asciiByte 'e') ++ u16 type ++ u16 name
  | .classInfo descriptor => u8 (asciiByte 'c') ++ u16 descriptor

end LeafValue

namespace ElementValue

mutual

def write : ElementValue → Bytes
  | .leaf v => v.write
  | .nested type elements =>
    u8 (asciiByte '@') ++ u16 type ++ u16 (UInt16.ofNat elements.length) ++ writeElements elements
  | .array values => u8 (asciiByte '[') ++ u16 (UInt16.ofNat values.length) ++ writeValues values

def writeValues : List ElementValue → Bytes
  | [] => []
  | v :: vs => write v ++ writeValues vs

def writeElements : List (ConstantIndex × ElementValue) → Bytes
  | [] => []
  | (name, v) :: elements => u16 name ++ write v ++ writeElements elements

end

/-- Read named elements after their number. -/
def readElements (value : Reader ElementValue) : Reader (List (ConstantIndex × ElementValue)) :=
  Reader.list16 do return (← Reader.u16, ← value)

/-- Read a value. Each level of nesting takes a byte, so their number is bounded by the input. -/
def read : Nat → Reader ElementValue
  | 0 => throw .endOfInput
  | bound + 1 => do
    let tag ← Reader.u8
    match Char.ofNat tag.toNat with
    | 'e' => return .leaf (.enum (← Reader.u16) (← Reader.u16))
    | 'c' => return .leaf (.classInfo (← Reader.u16))
    | '@' => return .nested (← Reader.u16) (← readElements (read bound))
    | '[' => return .array (← Reader.list16 (read bound))
    | c =>
      match ElementTag.ofLetter? c with
      | some t => return .leaf (.const t (← Reader.u16))
      | none => throw (.malformedAttribute "RuntimeVisibleAnnotations" (.unknownElementTag tag))

end ElementValue

namespace Annotation

def write (a : Annotation) : Bytes :=
  u16 a.type ++ u16 (UInt16.ofNat a.elements.length) ++ ElementValue.writeElements a.elements

/-- Read an annotation whose values nest at most so deep. -/
def read (bound : Nat) : Reader Annotation := do
  return { type := ← Reader.u16, elements := ← ElementValue.readElements (ElementValue.read bound) }

end Annotation

end Stored

end ClassPatch
