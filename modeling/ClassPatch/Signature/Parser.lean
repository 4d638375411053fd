import ClassPatch.Signature.Basic

/-!
Reading signatures. The names that a signature mentions are noted as they are read, and those read
before a fault count as well.
-/

namespace ClassPatch

/-- A signature that is being read. -/
structure SignatureScan where
  rest : List Char
  /-- Names that were read, the last one first. -/
  names : List String

/-- Readers of signatures, which fail where the signature is malformed. -/
abbrev SignatureReader := OptionT (StateM SignatureScan)

namespace SignatureReader

/-- The next character, or nothing at the end. -/
def peek? : SignatureReader (Option Char) := do
  return (← get).rest.head?

/-- The next character, which is not the end. -/
def peek : SignatureReader Char := do
  match ← peek? with
  | some c => return c
  | none => failure

/-- Pass the next character. -/
def skip : SignatureReader Unit :=
  modify fun s => { s with rest := s.rest.tail }

/-- Pass the next character, which is the given one. -/
def expect (c : Char) : SignatureReader Unit := do
  if (← peek) = c then skip else failure

/-- Note a name. -/
def mention (name : String) : SignatureReader Unit :=
  modify fun s => { s with names := name :: s.names }

/-- Characters that end an identifier of any kind. -/
def endsName (c : Char) : Bool :=
  c == '.' || c == ';' || c == '[' || c == '<' || c == '>' || c == ':'

/-- A nonempty run of characters up to one that ends it. -/
def identifierUntil (ends : Char → Bool) : SignatureReader String := do
  let s ← get
  let name := s.rest.takeWhile (!ends ·)
  if name.isEmpty then
    failure
  set { s with rest := s.rest.drop name.length }
  return String.ofList name

/-- The name of a class, which may contain slashes. -/
def className : SignatureReader String := identifierUntil endsName

def identifier : SignatureReader String := identifierUntil fun c => endsName c || c == '/'

mutual

/-- Read a type of references. The depth is bounded by the fuel. -/
def reference : Nat → SignatureReader ReferenceSignature
  | 0 => failure
  | fuel + 1 => do
    match ← peek with
    | 'L' =>
      skip
      let name ← className
      mention name
      return .classType name (← suffixes name fuel)
    | 'T' =>
      skip
      let name ← identifier
      expect ';'
      return .typeVariable name
    | '[' =>
      skip
      match SimpleType.ofLetter? (← peek) with
      | some t =>
        skip
        return .simpleArray t
      | none => return .array (← reference fuel)
    | _ => failure

/-- Read what follows the class `outer`. -/
def suffixes (outer : String) : Nat → SignatureReader ClassSuffixes
  | 0 => failure
  | fuel + 1 => do
    match ← peek with
    | '<' =>
      skip
      let arguments ← arguments fuel
      return .arguments arguments (← suffixes outer fuel)
    | '.' =>
      skip
      let name ← identifier
      mention (innerClassName outer name)
      return .inner name (← suffixes (innerClassName outer name) fuel)
    | ';' =>
      skip
      return .done
    | _ => failure

/-- Read type arguments up to their end. -/
def arguments : Nat → SignatureReader TypeArguments
  | 0 => failure
  | fuel + 1 => do
    match ← peek with
    | '>' =>
      skip
      return .done
    | '*' =>
      skip
      return .wildcard (← arguments fuel)
    | '+' =>
      skip
      let type ← reference fuel
      return .type .upper type (← arguments fuel)
    | '-' =>
      skip
      let type ← reference fuel
      return .type .lower type (← arguments fuel)
    | _ =>
      let type ← reference fuel
      return .type .exact type (← arguments fuel)

end

def type (fuel : Nat) : SignatureReader TypeSignature := do
  match SimpleType.ofLetter? (← peek) with
  | some t =>
    skip
    return .simple t
  | none => return .reference (← reference fuel)

/-- Read items as long as the reader before them says so. -/
def whileTrue {α : Type} (more : SignatureReader Bool) (item : SignatureReader α) :
    Nat → SignatureReader (List α)
  | 0 => failure
  | fuel + 1 => do
    if ← more then
      let a ← item
      return a :: (← whileTrue more item fuel)
    else
      return []

/-- Read a type parameter. Its first bound, which is that by a class, may be left out. -/
def typeParameter (fuel : Nat) : SignatureReader TypeParameter := do
  let name ← identifier
  expect ':'
  let c ← peek
  let classBound ←
    if c = 'L' ∨ c = 'T' ∨ c = '[' then some <$> reference fuel else pure none
  let interfaceBounds ← whileTrue (return (← peek) = ':')
    (do skip; reference fuel) fuel
  return { name, classBound, interfaceBounds }

def typeParameters (fuel : Nat) : SignatureReader (List TypeParameter) := do
  skip
  let parameters ← whileTrue (return (← peek) ≠ '>') (typeParameter fuel) fuel
  skip
  return parameters

def method (fuel : Nat) : SignatureReader SignatureBody := do
  skip
  let parameters ← whileTrue (return (← peek) ≠ ')') (type fuel) fuel
  skip
  let result ← type fuel
  let thrown ← whileTrue (return (← peek?) = some '^') (do skip; reference fuel) fuel
  return .method parameters result thrown

/-- Read a signature, which ends with the text. -/
def signature (fuel : Nat) : SignatureReader Signature := do
  let typeParameters ←
    if (← peek) = '<' then some <$> typeParameters fuel else pure none
  let body ←
    if (← peek) = '(' then method fuel
    else .types <$> whileTrue (return (← peek?).isSome) (reference fuel) fuel
  if (← peek?).isSome then
    failure
  return { typeParameters, body }

end SignatureReader

/-- A signature as text, which may be malformed. -/
abbrev SignatureText := String

namespace SignatureText

/--
The signature, unless it is malformed, and the names that were read. Every reader that calls another
has passed a character or is a loop over one that does, so the fuel is not used up.
-/
def scan (text : SignatureText) : Option Signature × SignatureScan :=
  (SignatureReader.signature (2 * text.length + 2)).run ⟨text.toList, []⟩

/-- A malformed signature stays as it is. -/
def rename (r : Renaming) (text : SignatureText) : SignatureText :=
  match text.scan.1 with
  | some s => (s.rename r).render
  | none => text

/-- Names that are looked up for the signature. -/
def names (text : SignatureText) : List String := text.scan.2.names

end SignatureText

end ClassPatch
