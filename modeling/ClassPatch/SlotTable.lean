/-!
Tables whose elements take up one or more slots. An element is addressed by the slot where it
starts, which is the first slot of the table plus the widths of the elements before it. The constant
pool is such a table: it starts at slot 1, and some constants take two slots.
-/

namespace ClassPatch

/-- Things that take up slots. -/
class HasWidth (α : Type) where
  width : α → Nat

export HasWidth (width)

/-- Elements with the slot where each starts. -/
structure SlotTable (α : Type) where
  /-- Slot of the first element. -/
  start : Nat
  entries : Array (Nat × α)
  /-- Slot of the next element to be added. -/
  next : Nat
  deriving DecidableEq

/-- What a table holds at a slot. -/
inductive SlotLookup (α : Type) where
  /-- An element starts there. -/
  | found (index : Nat) (element : α)
  /-- None starts there; the element with this index is the next one to start. -/
  | invalid (index : Nat)
  /-- No element starts there or later. -/
  | tooLarge
  deriving DecidableEq, Repr

namespace SlotTable

variable {α : Type}

/-- The table without elements, whose first slot is given. -/
def empty (start : Nat) : SlotTable α where
  start := start
  entries := #[]
  next := start

instance : Inhabited (SlotTable α) := ⟨empty 0⟩

/-- Add an element at the end. It starts at the slot `t.next`. -/
def push [HasWidth α] (t : SlotTable α) (a : α) : SlotTable α where
  start := t.start
  entries := t.entries.push (t.next, a)
  next := t.next + width a

/-- The table of the given elements. -/
def ofList [HasWidth α] (start : Nat) (elements : List α) : SlotTable α :=
  elements.foldl push (empty start)

def size (t : SlotTable α) : Nat := t.entries.size

def elements (t : SlotTable α) : List α := t.entries.toList.map (·.2)

/-- First index between `low` and `high` whose element starts at the slot or later, else `high`. -/
def search (entries : Array (Nat × α)) (slot low high : Nat) (h : high ≤ entries.size) : Nat :=
  if _ : low < high then
    if entries[(low + high) / 2].1 < slot then
      search entries slot ((low + high) / 2 + 1) high h
    else
      search entries slot low ((low + high) / 2) (by omega)
  else
    low
termination_by high - low

/-- What the table holds at a slot. -/
def lookup (t : SlotTable α) (slot : Nat) : SlotLookup α :=
  let index := search t.entries slot 0 t.entries.size (Nat.le_refl _)
  match t.entries[index]? with
  | none => .tooLarge
  | some (s, a) => if s = slot then .found index a else .invalid index

/-- The element that starts at a slot. -/
def get? (t : SlotTable α) (slot : Nat) : Option α :=
  match t.lookup slot with
  | .found _ a => some a
  | _ => none

end SlotTable

end ClassPatch
