import RegionPool.Pool.Alloc

/-!
# Slots

A container hands out a slot for the elements it appends: a part of the region that holds them. The
slot shows what the memory held before, and the caller writes the elements to it.
-/

namespace RegionPool

/-- A part of a region. -/
structure Slot where
  region : Region
  /-- Where the slot starts in the region. -/
  start : Nat
  length : Nat
  deriving Repr, DecidableEq

namespace Slot

/-- The bytes of the slot. -/
def bytes (slot : Slot) (pool : Pool) : Except Failure Bytes :=
  pool.bytesIn slot.region slot.start slot.length

/-- Let the caller write to the slot. -/
def writeContent (slot : Slot) (pool : Pool) (content : Content) : Except Failure Pool := do
  pool.write slot.region slot.start (content.apply (← slot.bytes pool))

/-- Let the caller write to the slot: the bytes it held before. -/
def fill (slot : Slot) (content : Content) : PoolM Bytes := do
  let before ← PoolM.ofPool slot.bytes
  PoolM.onPool fun pool => return ((), ← slot.writeContent pool content)
  return before

end Slot

/-- The number of bytes in `count` elements, if it is a machine word. -/
def byteLength (count elementSize : Nat) : Except Failure Nat :=
  if count * elementSize < wordLimit then .ok (count * elementSize)
  else .error (.refused .sizeOverflow)

/-- A number of elements, if it is a machine word. -/
def checkedCount (count : Nat) : Except Failure Nat :=
  if count < wordLimit then .ok count else .error (.refused .sizeOverflow)

/-- The element of `elementSize` bytes at `index` in a run of elements. -/
def elementOf (bytes : Bytes) (elementSize index : Nat) : Bytes :=
  (bytes.drop (index * elementSize)).take elementSize

end RegionPool
