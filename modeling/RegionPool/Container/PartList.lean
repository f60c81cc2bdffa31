import RegionPool.Container.Slot

/-!
# Lists in parts

A `PartList` keeps elements of one size in parts of equal capacity, each a region of its own. It
appends to its last part, and starts a new one when that is full. Parts never move, so an element
stays where it was appended.

* `PartList.create` and `PartList.init` make a list, with and without a reserved header;
* `PartList.push` appends an element and returns its slot;
* `PartList.views` and `PartList.toList` read the elements, part by part and all together.
-/

namespace RegionPool

/-- The number of elements in every part of a list: at least one. -/
abbrev PartCapacity := { capacity : Nat // 0 < capacity }

/-- One part of a list. -/
structure Part where
  /-- Reserved for every part but the first. -/
  header : Option Region
  elements : Region
  /-- The number of elements in the part. -/
  count : Nat
  deriving Repr, DecidableEq

/-- What a part holds. -/
structure PartView where
  count : Nat
  capacity : Nat
  elementSize : Nat
  /-- The bytes of the elements. -/
  bytes : Bytes
  deriving Repr, DecidableEq

/-- The elements of a part, in the order in which they were appended. -/
def PartView.toList (view : PartView) : List Bytes :=
  (List.range view.count).map (elementOf view.bytes view.elementSize)

/-- A list in parts in a pool. -/
structure PartList where
  /-- Reserved by `create`. -/
  header : Option Region
  /-- The parts before the last one. -/
  earlier : List Part
  last : Part
  partCapacity : PartCapacity
  elementSize : Nat
  deriving Repr, DecidableEq

namespace PartList

open PoolM

/-! ### Making -/

/-- Make a list without a header. -/
def init (partCapacity : PartCapacity) (elementSize : Nat) : PoolM PartList := do
  let size ← ofPool fun _ => byteLength partCapacity elementSize
  let elements ← Pool.alloc size
  let last : Part := { header := none, elements, count := 0 }
  return { header := none, earlier := [], last, partCapacity, elementSize }

/-- Make a list. Its header is reserved first, and stays reserved if there is no room for the first
part. -/
def create (partCapacity : PartCapacity) (elementSize : Nat) : PoolM PartList := do
  let header ← Pool.alloc Layout.listHeaderSize
  let list ← init partCapacity elementSize
  return { list with header := some header }

/-! ### Shape -/

/-- The parts, in order. -/
def parts (list : PartList) : List Part := list.earlier ++ [list.last]

/-- The first part. -/
def first (list : PartList) : Part := list.earlier.headD list.last

/-- The number of parts. -/
def partCount (list : PartList) : Nat := list.parts.length

/-- The number of elements. -/
def count (list : PartList) : Nat := (list.parts.map Part.count).sum

/-- Whether there is no element. -/
def isEmpty (list : PartList) : Bool := list.first.count == 0

/-- The number of the pool the list lives in. -/
def pool (list : PartList) : PoolId := list.first.elements.pool

/-- The number of bytes reserved for headers and parts. -/
def reserved (list : PartList) : Nat :=
  let headers := list.header.toList ++ list.parts.filterMap Part.header
  (headers.map Region.length).sum + (list.parts.map fun part => part.elements.length).sum

/-! ### Appending -/

/-- Start a new part. The last part must still be there. The header of the new part is reserved
before its elements, and stays reserved if there is no room for them. -/
def appendPart (list : PartList) : PoolM PartList := do
  -- A list from before a reset, or of another pool, claims nothing.
  discard <| ofPool (·.locate list.last.elements)
  let header ← Pool.alloc Layout.listPartHeaderSize
  let size ← ofPool fun _ => byteLength list.partCapacity list.elementSize
  let elements ← Pool.alloc size
  let list :=
    { list with earlier := list.parts, last := { header := some header, elements, count := 0 } }
  log (.listPartAppended list.partCount)
  return list

/-- Count one more element in the last part and return its slot. -/
def claim (list : PartList) : PoolM (Slot × PartList) := do
  let slot : Slot :=
    { region := list.last.elements, start := list.last.count * list.elementSize,
      length := list.elementSize }
  discard <| ofPool slot.bytes
  return (slot, { list with last := { list.last with count := list.last.count + 1 } })

/-- Append one element. -/
def push (list : PartList) : PoolM (Slot × PartList) := do
  if list.last.count = list.partCapacity then (← list.appendPart).claim else list.claim

/-! ### Reading -/

/-- What a part holds. The whole part is resolved. -/
def view (list : PartList) (pool : Pool) (part : Part) : Except Failure PartView := do
  let bytes ← Slot.bytes
    { region := part.elements, start := 0, length := part.count * list.elementSize } pool
  return { count := part.count, capacity := list.partCapacity, elementSize := list.elementSize,
           bytes }

/-- What the parts hold, in order. -/
def views (list : PartList) (pool : Pool) : Except Failure (List PartView) :=
  list.parts.mapM (list.view pool)

/-- The elements, in the order in which they were appended. -/
def toList (list : PartList) (pool : Pool) : Except Failure (List Bytes) := do
  return (← list.views pool).flatMap PartView.toList

end PartList

end RegionPool
