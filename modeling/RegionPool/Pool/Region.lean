import RegionPool.Raw.Buffer

/-!
# Regions

A `Region` says where one allocation of a pool lives and how long it is. It is a plain value: a copy
of it denotes the same memory, and it also carries the generation of the pool it was handed out in,
by which a pool tells regions from before its last reset from live ones.
-/

namespace RegionPool

/-- The number of a pool. -/
structure PoolId where
  number : Nat
  deriving Repr, DecidableEq

/-- How the number of a pool is shown. -/
def PoolId.text (id : PoolId) : String := "pool#" ++ toString id.number

/-- Where a region lives. -/
inductive Place where
  /-- In the block of this index, from this offset on. -/
  | block (index offset : Nat)
  /-- In a large buffer of its own. -/
  | large (id : BufferId)
  deriving Repr, DecidableEq

/-- The location and length of one allocation. -/
structure Region where
  pool : PoolId
  generation : Nat
  length : Nat
  place : Place
  deriving Repr, DecidableEq

namespace Region

/-- Whether the region has no bytes. -/
def isEmpty (region : Region) : Bool := region.length == 0

/-- Whether the region has a large buffer of its own. -/
def isLarge (region : Region) : Bool :=
  match region.place with
  | .large _ => true
  | .block .. => false

/-- A region that has no buffer of its own is in a block. -/
theorem isLarge_eq_false_iff {region : Region} :
    region.isLarge = false ↔ ∃ index offset, region.place = .block index offset := by
  rw [isLarge]
  cases region.place <;> simp

/-- How a region is shown. -/
def text (region : Region) : String :=
  let place := match region.place with
    | .block index offset => "block=" ++ toString index ++ ", off=" ++ toString offset
    | .large id => id.text
  region.pool.text ++ "[gen=" ++ toString region.generation ++ ", " ++ place ++ ", len="
    ++ toString region.length ++ "]"

end Region

/-- How an attempt to give a region back early ends. -/
inductive FreeStatus where
  /-- Its large buffer was given back. -/
  | freed
  /-- The pool holds no large buffer for it; nothing changed. -/
  | notFound
  deriving Repr, DecidableEq

end RegionPool
