import RegionPool.Pool.Chain
import RegionPool.Pool.Cleanup
import RegionPool.Pool.Config
import RegionPool.Pool.LargeTable
import RegionPool.World

/-!
# Pools

A pool owns a chain of blocks, a table of large buffers and a stack of cleanup records. It names the
raw allocator its memory comes from and goes back to. `Pool.create` makes one with its first block.
-/

namespace RegionPool

/-- A pool. -/
structure Pool where
  id : PoolId
  /-- How often the pool was reset, as a 32-bit number. -/
  generation : Nat
  chain : Chain
  /-- The size of every block. -/
  blockSize : Nat
  /-- The largest request served from blocks. -/
  max : Nat
  large : LargeTable := {}
  cleanups : CleanupStack := {}
  allocator : AllocatorId
  name : Option String
  deriving Repr, DecidableEq

namespace Pool

/-- The label of the pool in the log. -/
def label (pool : Pool) : String := pool.name.getD "-"

/-- The number of blocks. -/
def blockCount (pool : Pool) : Nat := pool.chain.blocks.length

/-- The region of this pool, in its present generation, at a place. -/
def regionAt (pool : Pool) (length : Nat) (place : Place) : Region :=
  { pool := pool.id, generation := pool.generation, length, place }

/-- The pool as a record: sizes of its parts, not the parts. -/
def debugText (pool : Pool) : String :=
  Text.record "Pool"
    [("id", "PoolId(" ++ toString pool.id.number ++ ")"),
      ("name", Text.optional (pool.name.map Text.quoted)),
      ("generation", toString pool.generation), ("blocks", toString pool.blockCount),
      ("current", toString pool.chain.current), ("max", toString pool.max),
      ("large", toString pool.large.count), ("cleanup", toString pool.cleanups.count)]

/-- Make a pool whose memory comes from the given raw allocator. The configuration is checked first,
then the first block is requested; the pool gets its number once it has both. -/
def create (config : PoolConfig) (allocator : AllocatorId) (w : World) :
    Except PoolError Pool × World :=
  match config.validate with
  | .error error => (.error (.config error), w)
  | .ok () =>
    match w.request allocator (.memalign Layout.poolAlignment config.size) with
    | (.error error, w) => (.error (.alloc error), w)
    | (.ok buffer, w) =>
      let pool : Pool :=
        { id := ⟨w.nextPool⟩
          generation := 0
          chain := { blocks := [Block.ofBuffer buffer Layout.poolHeaderSize] }
          blockSize := config.size
          max := config.threshold
          allocator
          name := config.name }
      (.ok pool,
        { w with nextPool := w.nextPool + 1 }.log
          (.createPool pool.label pool.id.text pool.blockSize pool.max))

end Pool

end RegionPool
