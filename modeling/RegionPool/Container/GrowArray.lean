import RegionPool.Container.Slot

/-!
# Growable arrays

A `GrowArray` keeps elements of one size in one region of a pool. When the region is full it is
lengthened where it is, which works while nothing was claimed behind it; otherwise the elements move
to a region with twice the room, and the old one is left to the next reset.

* `GrowArray.create` and `GrowArray.init` make an array, with and without a reserved header;
* `GrowArray.push` and `GrowArray.pushMany` append elements and return their slot;
* `GrowArray.destroy` gives back what was claimed last;
* `GrowArray.bytes`, `GrowArray.get?` and `GrowArray.toList` read the elements.
-/

namespace RegionPool

/-- A growable array in a pool. -/
structure GrowArray where
  /-- Reserved by `create`. -/
  header : Option Region
  elements : Region
  /-- The number of elements. -/
  count : Nat
  elementSize : Nat
  /-- The number of elements there is room for. -/
  capacity : Nat
  deriving Repr, DecidableEq

namespace GrowArray

open PoolM

/-! ### Making -/

/-- Make an array without a header. -/
def init (capacity elementSize : Nat) : PoolM GrowArray := do
  let size ← ofPool fun _ => byteLength capacity elementSize
  let elements ← Pool.alloc size
  return { header := none, elements, count := 0, elementSize, capacity }

/-- Make an array. Its header is reserved first, and stays reserved if there is no room for the
elements. -/
def create (capacity elementSize : Nat) : PoolM GrowArray := do
  let header ← Pool.alloc Layout.arrayHeaderSize
  let array ← init capacity elementSize
  return { array with header := some header }

/-! ### Appending -/

/-- Move the elements to a new region with room for `capacity` of them. -/
def relocate (array : GrowArray) (capacity : Nat) : PoolM GrowArray := do
  let size ← ofPool fun _ => byteLength capacity array.elementSize
  let elements ← Pool.alloc size
  -- Only what the elements fill is copied; the old region is left as it is.
  onPool fun pool =>
    return ((), ← pool.copy array.elements elements (array.count * array.elementSize))
  log (.arrayRelocated array.capacity capacity)
  return { array with elements, capacity }

/-- Make room for `additional` more elements, which have `size` bytes together: where the array is,
or else by moving it to room for `moved` elements. -/
def growBy (array : GrowArray) (additional size : Nat) (moved : Except Failure Nat) :
    PoolM GrowArray := do
  match ← onPool (·.extend array.elements size) with
  | some elements => return { array with elements, capacity := array.capacity + additional }
  | none => array.relocate (← ofPool fun _ => moved)

/-- Count `n` more elements and return their slot. -/
def claim (array : GrowArray) (n : Nat) : PoolM (Slot × GrowArray) := do
  let slot : Slot :=
    { region := array.elements, start := array.count * array.elementSize,
      length := n * array.elementSize }
  discard <| ofPool slot.bytes
  return (slot, { array with count := array.count + n })

/-- Append one element. -/
def push (array : GrowArray) : PoolM (Slot × GrowArray) := do
  if array.count = array.capacity then
    let moved := (max 1) <$> checkedCount (array.capacity * 2)
    (← array.growBy 1 array.elementSize moved).claim 1
  else array.claim 1

/-- Append `n` elements. An array that is too small gets room for `n` more where it is, or else for
twice the larger of `n` and its capacity. -/
def pushMany (array : GrowArray) (n : Nat) : PoolM (Slot × GrowArray) := do
  let needed ← ofPool fun _ => checkedCount (array.count + n)
  if array.capacity < needed then
    let size ← ofPool fun _ => byteLength n array.elementSize
    let moved := checkedCount (max n array.capacity * 2)
    (← array.growBy n size moved).claim n
  else array.claim n

/-! ### Destroying -/

/-- Give a region back if it was claimed last: the number of bytes given back. A region the pool
does not know stays. -/
def giveBack (region : Region) : PoolM Nat := fun s =>
  match s.pool.reclaim region with
  | .ok (true, pool) => .ok region.length { s with pool }
  | .ok (false, _) | .error (.refused _) => .ok 0 s
  | .error (.fault fault) => .error (.fault fault) s

/-- Give the elements and then the header back, as far as they were claimed last: the number of
bytes given back. -/
def destroy (array : GrowArray) : PoolM Nat := do
  -- The elements lie behind the header, so they go first.
  let elements ← giveBack array.elements
  let header ← match array.header with
    | some header => giveBack header
    | none => pure 0
  log (.arrayDestroyed (elements + header))
  return elements + header

/-! ### Reading -/

/-- Whether there is no element. -/
def isEmpty (array : GrowArray) : Bool := array.count == 0

/-- The number of the pool the array lives in. -/
def pool (array : GrowArray) : PoolId := array.elements.pool

/-- The slot of the element at `index`, if there is one. -/
def slot? (array : GrowArray) (index : Nat) : Option Slot :=
  if index < array.count then
    some
      { region := array.elements, start := index * array.elementSize,
        length := array.elementSize }
  else none

/-- The bytes of all elements. -/
def bytes (array : GrowArray) (pool : Pool) : Except Failure Bytes :=
  Slot.bytes
    { region := array.elements, start := 0, length := array.count * array.elementSize } pool

/-- The element at `index`, or nothing past the end. -/
def get? (array : GrowArray) (pool : Pool) (index : Nat) : Except Failure (Option Bytes) := do
  let bytes ← array.bytes pool
  if index < array.count then return some (elementOf bytes array.elementSize index)
  else return none

/-- The first `limit` elements, in the order in which they were appended. -/
def take (array : GrowArray) (pool : Pool) (limit : Nat) : Except Failure (List Bytes) := do
  let bytes ← array.bytes pool
  return (List.range (min limit array.count)).map (elementOf bytes array.elementSize)

/-- The elements, in the order in which they were appended. -/
def toList (array : GrowArray) (pool : Pool) : Except Failure (List Bytes) :=
  array.take pool array.count

/-- Let the caller write to the element at `index`: its bytes after, or nothing past the end. The
elements are resolved in either case. -/
def set? (array : GrowArray) (index : Nat) (content : Content) (pool : Pool) :
    Except Failure (Option Bytes × Pool) := do
  discard <| pool.locate array.elements
  match array.slot? index with
  | none => return (none, pool)
  | some slot =>
    let pool ← slot.writeContent pool content
    return (some (← slot.bytes pool), pool)

end GrowArray

end RegionPool
