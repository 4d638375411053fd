import ClassPatch.Pool.Format
import Std.Data.HashMap

/-!
Building a constant pool. A pool only grows at its end, so an index that was handed out keeps its
constant. A constant that the pool holds is not added again: the first one equal to it is found.

The table of bootstrap methods grows along with the pool, because dynamic constants refer to it.
-/

namespace ClassPatch

/-- Entry of the table of bootstrap methods. -/
structure BootstrapEntry where
  handle : ConstantIndex
  arguments : List ConstantIndex
  deriving DecidableEq, Hashable, Repr

/-- A constant pool under construction. -/
structure Pool where
  constants : ConstantTable
  /-- Index of the first constant equal to the given one. -/
  indices : Std.HashMap Constant ConstantIndex
  bootstrapMethods : Array BootstrapEntry
  /-- Index of the bootstrap method that is found for the given one. -/
  bootstrapIndices : Std.HashMap BootstrapEntry UInt16

namespace Pool

/-- The pool that starts with the constants of an existing class, without bootstrap methods. -/
def ofTable (table : ConstantTable) : Pool where
  constants := table
  indices := table.entries.foldl
    (fun indices (slot, c) => indices.insertIfNew c (UInt16.ofNat slot)) ∅
  bootstrapMethods := #[]
  bootstrapIndices := ∅

def empty : Pool := ofTable ConstantTable.empty

/--
Index of a constant, which is added unless the pool holds it. A constant has room if the slot after
it is at most 65535; without room the pool stays as it is.
-/
def insert (pool : Pool) (c : Constant) : Except ClassError ConstantIndex × Pool :=
  match pool.indices[c]? with
  | some index => (.ok index, pool)
  | none =>
    let offset := UInt16.ofNat pool.constants.next
    if offset.toNat + width c ≤ 0xFFFF then
      (.ok offset,
        { pool with
          constants := pool.constants.push c
          indices := pool.indices.insert c offset })
    else
      (.error (.poolOverflow c offset), pool)

/-- Index of a bootstrap method, which is added unless the table holds it. -/
def insertBootstrap (pool : Pool) (entry : BootstrapEntry) : UInt16 × Pool :=
  match pool.bootstrapIndices[entry]? with
  | some index => (index, pool)
  | none =>
    let index := UInt16.ofNat pool.bootstrapMethods.size
    (index,
      { pool with
        bootstrapMethods := pool.bootstrapMethods.push entry
        bootstrapIndices := pool.bootstrapIndices.insert entry index })

/--
Add entries to be filled later, which are not found until then. Returns the index of the first.
-/
def reserveBootstraps (pool : Pool) (count : Nat) : UInt16 × Pool :=
  (UInt16.ofNat pool.bootstrapMethods.size,
    { pool with bootstrapMethods := pool.bootstrapMethods ++ Array.replicate count ⟨0, []⟩ })

/-- Fill a reserved entry. -/
def fillBootstrap (pool : Pool) (index : UInt16) (entry : BootstrapEntry) : Pool :=
  { pool with
    bootstrapMethods := pool.bootstrapMethods.setIfInBounds index.toNat entry
    bootstrapIndices := pool.bootstrapIndices.insertIfNew entry index }

end Pool

/-- Computations that add to a pool. What was added before a failure stays. -/
abbrev PoolM := ExceptT ClassError (StateM Pool)

namespace PoolM

/-- Index of a constant. -/
def constant (c : Constant) : PoolM ConstantIndex :=
  fun pool => pool.insert c

def utf8 (text : String) : PoolM ConstantIndex := constant (.utf8 text)

/-- Index of an entry of the table of bootstrap methods. -/
def bootstrapEntry (entry : BootstrapEntry) : PoolM UInt16 :=
  fun pool =>
    let (index, pool) := pool.insertBootstrap entry
    (.ok index, pool)

def reserveBootstraps (count : Nat) : PoolM UInt16 :=
  fun pool =>
    let (index, pool) := pool.reserveBootstraps count
    (.ok index, pool)

def fillBootstrap (index : UInt16) (entry : BootstrapEntry) : PoolM Unit :=
  fun pool => (.ok (), pool.fillBootstrap index entry)

end PoolM

end ClassPatch
