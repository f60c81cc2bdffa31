import RegionPool.Pool.Action
import RegionPool.Pool.Memory

/-!
# Allocation

Requests up to the pool's threshold are small and served from the chain of blocks; larger ones get a
buffer of their own, for which a record is reserved in the chain unless an empty slot is taken.

* `Pool.alloc` and `Pool.allocUnaligned` choose between the two ways by size alone;
* `Pool.allocZeroed` also clears the region;
* `Pool.allocAlignedTo` always takes a buffer of its own, at any power of two;
* `Pool.free` gives the buffer of a large region back early.
-/

namespace RegionPool.Pool

open PoolM

/-! ### Small requests -/

/-- Append a block and claim `size` bytes at its start. -/
def growFor (size : Nat) : PoolM Region := do
  let buffer ← request (.memalign Layout.poolAlignment (← getPool).blockSize)
  -- The block joins the chain only once it has served the request.
  match (Block.ofBuffer buffer Layout.blockHeaderSize).bump? size .aligned with
  | none => refuse .sizeOverflow
  | some (offset, block) =>
    let pool ← getPool
    let pool := { pool with chain := pool.chain.grow block }
    setPool pool
    log (.growBlockChain pool.label pool.blockCount pool.chain.current size)
    return pool.regionAt size (.block (pool.blockCount - 1) offset)

/-- Serve a request from the chain: in the first block with room, else in a new one. -/
def allocSmall (size : Nat) (packing : Packing) : PoolM Region := do
  let pool ← getPool
  match pool.chain.claim? size packing with
  | some (index, offset, chain) =>
    setPool { pool with chain }
    return pool.regionAt size (.block index offset)
  | none => growFor size

/-! ### Large requests -/

/-- Reserve a record for a large buffer and enter it in a new slot. The buffer is given back if no
record can be reserved. -/
def enterLarge (buffer : Buffer) : PoolM Unit := do
  discard <| orRelease buffer (allocSmall Layout.largeRecordSize .aligned)
  let pool ← getPool
  setPool { pool with large := pool.large.push buffer }

/-- Serve a request with a buffer of its own. -/
def allocLarge (size : Nat) : PoolM Region := do
  let buffer ← request (.malloc size)
  let pool ← getPool
  -- A slot that is reused has its record already.
  match pool.large.reuse? buffer with
  | some large => setPool { pool with large }
  | none => enterLarge buffer
  let pool ← getPool
  log (.largeAllocation pool.label buffer.id size)
  return pool.regionAt size (.large buffer.id)

/-! ### Requests of any size -/

/-- Serve a request of any size. -/
def allocWith (packing : Packing) (size : Nat) : PoolM Region := do
  if size ≤ (← getPool).max then allocSmall size packing else allocLarge size

/-- Allocate `size` bytes at the word alignment. -/
def alloc (size : Nat) : PoolM Region := allocWith .aligned size

/-- Allocate `size` bytes; small requests are packed without padding. -/
def allocUnaligned (size : Nat) : PoolM Region := allocWith .packed size

/-- Allocate `size` bytes at the word alignment and clear them. -/
def allocZeroed (size : Nat) : PoolM Region := do
  let region ← alloc size
  onPool fun pool => return ((), ← pool.write region 0 (List.replicate region.length 0))
  return region

/-- Allocate `size` bytes at the alignment `align`, in a buffer of their own. -/
def allocAlignedTo (size align : Nat) : PoolM Region := do
  if Layout.isPowerOfTwo align then
    let buffer ← request (.memalign align size)
    enterLarge buffer
    return (← getPool).regionAt size (.large buffer.id)
  else refuse (.invalidAlignment align)

/-! ### Giving back early -/

/-- Give the buffer of a large region back. Regions in blocks, of other pools, and those whose
buffer is no longer held are not found, and nothing changes. -/
def free (region : Region) : PoolM FreeStatus := do
  let pool ← getPool
  -- The generation plays no part: a buffer that is still held was handed out since the last reset.
  match region.place with
  | .block .. => return .notFound
  | .large id =>
    if region.pool = pool.id then
      match pool.large.take? id with
      | none => return .notFound
      | some (buffer, large) =>
        setPool { pool with large }
        log (.freeLarge pool.label id)
        release buffer
        return .freed
    else return .notFound

end RegionPool.Pool
