import ClassPatch.Stored.Attribute
import ClassPatch.Version

/-!
Class files, with the references between their parts as indices into the constant pool.
-/

namespace ClassPatch

open Writer

namespace Version

def read : Reader Version := do
  let minor ← Reader.u16
  return { major := ← Reader.u16, minor }

def write (v : Version) : Bytes := u16 v.minor ++ u16 v.major

end Version

namespace Stored

/-- A field or a method. -/
structure Member (kind : FlagKind) where
  accessFlags : AccessFlags kind
  nameIndex : ConstantIndex
  descriptorIndex : ConstantIndex
  attributes : List Attribute
  deriving DecidableEq

namespace Member

variable {kind : FlagKind}

def read : Reader (Member kind) := do
  return {
    accessFlags := AccessFlags.truncate _ (← Reader.u16)
    nameIndex := ← Reader.u16
    descriptorIndex := ← Reader.u16
    attributes := ← Reader.list16 Attribute.read }

def write (m : Member kind) : Bytes :=
  u16 m.accessFlags.bits ++ u16 m.nameIndex ++ u16 m.descriptorIndex
    ++ list16 Attribute.write m.attributes

end Member

/-- A class file. -/
structure ClassFile where
  version : Version
  constants : ConstantTable
  accessFlags : ClassFlags
  thisClass : ConstantIndex
  superClass : Option ConstantIndex
  interfaces : List ConstantIndex
  fields : List (Member .field)
  methods : List (Member .method)
  attributes : List Attribute
  deriving DecidableEq

namespace ClassFile

/-- The number that every class file starts with. -/
def magic : UInt32 := 0xCAFEBABE

def read : Reader ClassFile := do
  let found ← Reader.u32
  if found ≠ magic then
    throw (.badMagic found)
  return {
    version := ← Version.read
    constants := ← ConstantTable.read
    accessFlags := AccessFlags.truncate _ (← Reader.u16)
    thisClass := ← Reader.u16
    superClass := ← Reader.optionalIndex
    interfaces := ← Reader.list16 Reader.u16
    fields := ← Reader.list16 Member.read
    methods := ← Reader.list16 Member.read
    attributes := ← Reader.list16 Attribute.read }

/-- The class file that the bytes hold. Nothing may follow it. -/
def parse (bytes : Bytes) : Except ClassError ClassFile :=
  match read.run bytes with
  | .error e => .error e
  | .ok (file, []) => .ok file
  | .ok (_, rest) => .error (.malformedAttribute "ClassFile" (.trailingBytes rest.length))

def write (file : ClassFile) : Bytes :=
  u32 magic ++ file.version.write ++ file.constants.write ++ u16 file.accessFlags.bits
    ++ u16 file.thisClass ++ optionalIndex file.superClass ++ list16 u16 file.interfaces
    ++ list16 Member.write file.fields ++ list16 Member.write file.methods
    ++ list16 Attribute.write file.attributes

end ClassFile

end Stored

end ClassPatch
