import RegionPool.Pool.Alloc
import RegionPool.Random.ChaCha

/-!
# Workloads

A workload is a list of request sizes: mostly small, now and then a large one (`requestSizes`). To
serve it (`Pool.serve`) is to allocate every size in order and to touch the first byte of each
region.
-/

namespace RegionPool

open ChaCha PoolM

/-! ### Sizes -/

/-- One size in this many is large. -/
def largeOneIn : Nat := 64

/-- The largest small size. -/
def largestSmall : Nat := 256

/-- The next size of a workload. Large sizes start at `largeFloor` and are less than twice that. -/
def nextSize (largeFloor : Nat) (stream : Stream) : Nat × Stream :=
  let (dice, stream) := stream.next32
  if dice.toNat % largeOneIn < 1 then
    let (offset, stream) := stream.next64
    (largeFloor + offset.toNat % max largeFloor 1, stream)
  else
    let (offset, stream) := stream.next32
    (1 + offset.toNat % largestSmall, stream)

/-- The sizes of a workload from a place in the stream on. -/
def sizesFrom (largeFloor : Nat) : Nat → Stream → List Nat
  | 0, _ => []
  | count + 1, stream =>
    let (size, stream) := nextSize largeFloor stream
    size :: sizesFrom largeFloor count stream

/-- The sizes of the workload of a seed. -/
def requestSizes (seed : UInt64) (count largeFloor : Nat) : List Nat :=
  sizesFrom largeFloor count (Stream.ofSeed seed)

@[simp] theorem length_requestSizes (seed : UInt64) (count largeFloor : Nat) :
    (requestSizes seed count largeFloor).length = count := by
  have h : ∀ (n : Nat) (stream : Stream), (sizesFrom largeFloor n stream).length = n := by
    intro n
    induction n with
    | zero => intro _; rfl
    | succ n ih => intro stream; simp [sizesFrom, ih]
  exact h count _

/-! ### Serving -/

namespace Pool

/-- Set the first byte of a region to 1, if it has one. -/
def touch (pool : Pool) (region : Region) : Except Failure Pool :=
  pool.write region 0 ([1].take region.length)

/-- Allocate every size in order and touch each region: the sum of the sizes. -/
def serve : List Nat → PoolM Nat
  | [] => return 0
  | size :: sizes => do
    let region ← alloc size
    onPool fun pool => return ((), ← pool.touch region)
    return size + (← serve sizes)

end Pool

end RegionPool
