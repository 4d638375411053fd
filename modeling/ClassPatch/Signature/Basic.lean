import ClassPatch.Rename.Basic

/-!
Generic signatures of classes, methods and fields. A signature is kept as text in a class; this is
its syntax tree, in the grammar that the renaming of signatures follows. It is somewhat wider than
that of class files: `void` is a type like the primitive ones, and type arguments can be empty or
repeated.
-/

namespace ClassPatch

/-- Types that name no class. -/
inductive SimpleType where
  | base (type : BaseType)
  | void
  deriving DecidableEq, Repr

namespace SimpleType

def letter : SimpleType → Char
  | .base t => t.letter
  | .void => 'V'

def ofLetter? : Char → Option SimpleType
  | 'V' => some .void
  | c => (BaseType.ofLetter? c).map .base

end SimpleType

/-- How a type bounds a type argument. -/
inductive ArgumentBound where
  /-- The argument is the type itself. -/
  | exact
  | upper | lower
  deriving DecidableEq, Repr

def ArgumentBound.chars : ArgumentBound → List Char
  | .exact => []
  | .upper => ['+']
  | .lower => ['-']

mutual

/-- Types of references. -/
inductive ReferenceSignature where
  | classType (name : String) (suffixes : ClassSuffixes)
  | typeVariable (name : String)
  | array (element : ReferenceSignature)
  | simpleArray (element : SimpleType)

/-- What follows the name of a class. -/
inductive ClassSuffixes where
  | done
  | arguments (arguments : TypeArguments) (rest : ClassSuffixes)
  /-- A class that is a member of the one before. -/
  | inner (name : String) (rest : ClassSuffixes)

inductive TypeArguments where
  | done
  | wildcard (rest : TypeArguments)
  | type (bound : ArgumentBound) (type : ReferenceSignature) (rest : TypeArguments)

end

/-- Types of values, or `void`. -/
inductive TypeSignature where
  | simple (type : SimpleType)
  | reference (type : ReferenceSignature)

/-- A type parameter with its bounds. -/
structure TypeParameter where
  name : String
  classBound : Option ReferenceSignature
  interfaceBounds : List ReferenceSignature

/-- A signature after its type parameters. -/
inductive SignatureBody where
  | method (parameters : List TypeSignature) (result : TypeSignature)
      (thrown : List ReferenceSignature)
  /-- The type of a field, or the superclass and the interfaces of a class. -/
  | types (types : List ReferenceSignature)

structure Signature where
  /-- Type parameters; a list without any is not the same as no list. -/
  typeParameters : Option (List TypeParameter)
  body : SignatureBody

/-- The name by which a class file knows a class that is a member of another. -/
def innerClassName (outer inner : String) : String := outer ++ "$" ++ inner

/-- The part of a name after the last `$`, or all of it. -/
def afterLastDollar (name : List Char) : List Char :=
  (name.reverse.takeWhile (· ≠ '$')).reverse

/--
What stands for the member `inner` of `outer` after renaming. If the new name of the member starts
with that of `outer` and a `$`, it is the rest of it.
-/
def renameInner (r : Renaming) (outer inner : String) : String :=
  match r (innerClassName outer inner) with
  | none => inner
  | some renamed =>
    match (innerClassName (r.applyText outer) "").toList.isPrefixOf? renamed.text.toList with
    | some suffix => String.ofList suffix
    | none => String.ofList (afterLastDollar renamed.text.toList)

mutual

def ReferenceSignature.chars : ReferenceSignature → List Char
  | .classType name suffixes => 'L' :: name.toList ++ suffixes.chars
  | .typeVariable name => 'T' :: name.toList ++ [';']
  | .array element => '[' :: element.chars
  | .simpleArray element => ['[', element.letter]

def ClassSuffixes.chars : ClassSuffixes → List Char
  | .done => [';']
  | .arguments arguments rest => '<' :: arguments.chars ++ rest.chars
  | .inner name rest => '.' :: name.toList ++ rest.chars

def TypeArguments.chars : TypeArguments → List Char
  | .done => ['>']
  | .wildcard rest => '*' :: rest.chars
  | .type bound type rest => bound.chars ++ type.chars ++ rest.chars

end

mutual

def ReferenceSignature.rename (r : Renaming) : ReferenceSignature → ReferenceSignature
  | .classType name suffixes => .classType (r.applyText name) (suffixes.rename r name)
  | .typeVariable name => .typeVariable name
  | .array element => .array (element.rename r)
  | .simpleArray element => .simpleArray element

/-- Rename what follows the class `outer`, whose name is the one before renaming. -/
def ClassSuffixes.rename (r : Renaming) (outer : String) : ClassSuffixes → ClassSuffixes
  | .done => .done
  | .arguments arguments rest => .arguments (arguments.rename r) (rest.rename r outer)
  | .inner name rest =>
    .inner (renameInner r outer name) (rest.rename r (innerClassName outer name))

def TypeArguments.rename (r : Renaming) : TypeArguments → TypeArguments
  | .done => .done
  | .wildcard rest => .wildcard (rest.rename r)
  | .type bound type rest => .type bound (type.rename r) (rest.rename r)

end

mutual

def ReferenceSignature.names : ReferenceSignature → List String
  | .classType name suffixes => name :: suffixes.names name
  | .typeVariable _ => []
  | .array element => element.names
  | .simpleArray _ => []

/-- Names in what follows the class `outer`. -/
def ClassSuffixes.names (outer : String) : ClassSuffixes → List String
  | .done => []
  | .arguments arguments rest => arguments.names ++ rest.names outer
  | .inner name rest =>
    innerClassName outer name :: rest.names (innerClassName outer name)

def TypeArguments.names : TypeArguments → List String
  | .done => []
  | .wildcard rest => rest.names
  | .type _ type rest => type.names ++ rest.names

end

namespace TypeSignature

def chars : TypeSignature → List Char
  | .simple t => [t.letter]
  | .reference t => t.chars

def rename (r : Renaming) : TypeSignature → TypeSignature
  | .simple t => .simple t
  | .reference t => .reference (t.rename r)

def names : TypeSignature → List String
  | .simple _ => []
  | .reference t => t.names

end TypeSignature

namespace TypeParameter

def chars (p : TypeParameter) : List Char :=
  p.name.toList ++ ':' :: p.classBound.elim [] ReferenceSignature.chars
    ++ p.interfaceBounds.flatMap (':' :: ·.chars)

def rename (r : Renaming) (p : TypeParameter) : TypeParameter where
  name := p.name
  classBound := p.classBound.map (·.rename r)
  interfaceBounds := p.interfaceBounds.map (·.rename r)

def names (p : TypeParameter) : List String :=
  p.classBound.elim [] ReferenceSignature.names
    ++ p.interfaceBounds.flatMap ReferenceSignature.names

end TypeParameter

namespace SignatureBody

def chars : SignatureBody → List Char
  | .method parameters result thrown =>
    '(' :: parameters.flatMap TypeSignature.chars ++ ')' :: result.chars
      ++ thrown.flatMap ('^' :: ·.chars)
  | .types ts => ts.flatMap ReferenceSignature.chars

def rename (r : Renaming) : SignatureBody → SignatureBody
  | .method parameters result thrown =>
    .method (parameters.map (·.rename r)) (result.rename r) (thrown.map (·.rename r))
  | .types ts => .types (ts.map (·.rename r))

def names : SignatureBody → List String
  | .method parameters result thrown =>
    parameters.flatMap TypeSignature.names ++ result.names
      ++ thrown.flatMap ReferenceSignature.names
  | .types ts => ts.flatMap ReferenceSignature.names

end SignatureBody

namespace Signature

def chars (s : Signature) : List Char :=
  s.typeParameters.elim [] (fun ps => '<' :: ps.flatMap TypeParameter.chars ++ ['>'])
    ++ s.body.chars

def render (s : Signature) : String := String.ofList s.chars

def rename (r : Renaming) (s : Signature) : Signature where
  typeParameters := s.typeParameters.map (·.map (·.rename r))
  body := s.body.rename r

def names (s : Signature) : List String :=
  s.typeParameters.elim [] (·.flatMap TypeParameter.names) ++ s.body.names

end Signature

end ClassPatch
