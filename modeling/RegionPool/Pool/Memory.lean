import RegionPool.Pool.Basic

/-!
# The memory behind a region

A region is resolved before its bytes are touched: it must have been handed out by this pool, in its
present generation, and if it is large its buffer must still be held. The order of these checks is
the order of the errors (`Pool.resolve`).

* `Pool.locate` finds a region that is to be touched; `Pool.bytes` and `Pool.bytesIn` read it and a
  part of it, `Pool.write` writes to it, and `Pool.address` tells where it starts;
* `Pool.extend` and `Pool.reclaim` lengthen and give back the region claimed last in its block;
* `Pool.copy` copies the start of one region to another, within one store or between two
  (`Pool.transfer?`).

None of these touches the world outside the pool.
-/

namespace RegionPool

/-- One of the stores of a pool: a block, or a slot for large buffers. -/
inductive Store where
  | block (index : Nat)
  | slot (index : Nat)
  deriving Repr, DecidableEq

namespace Pool

/-! ### Stores -/

/-- The buffer behind a store. -/
def storeBuffer? (pool : Pool) : Store → Option Buffer
  | .block index => pool.chain.blocks[index]?.map Block.buffer
  | .slot index => pool.large.get? index

/-- The pool with the bytes of one store replaced from `offset` on. -/
def overwrite (pool : Pool) (store : Store) (offset : Nat) (data : Bytes) : Pool :=
  match store with
  | .block index => { pool with chain := pool.chain.overwrite index offset data }
  | .slot index => { pool with large := pool.large.overwrite index offset data }

/-- Whether a store has `length` bytes from `offset` on. -/
def spans (pool : Pool) (store : Store) (offset length : Nat) : Bool :=
  match pool.storeBuffer? store with
  | some buffer => offset + length ≤ buffer.length
  | none => false

/-- The `length` bytes of a store from `offset` on. -/
def load (pool : Pool) (store : Store) (offset length : Nat) : Except Failure Bytes :=
  match (pool.storeBuffer? store).bind fun buffer => buffer.slice? offset length with
  | some bytes => .ok bytes
  | none => .error (.fault .outOfRange)

/-! ### Resolving -/

/-- The store a region lives in and its offset there. -/
def resolve (pool : Pool) (region : Region) : Except PoolError (Store × Nat) :=
  if region.pool ≠ pool.id then .error .foreignAllocation
  else if region.generation ≠ pool.generation then
    .error (.staleAllocation region.generation pool.generation)
  else
    match region.place with
    | .block index offset => .ok (.block index, offset)
    | .large id =>
      match pool.large.position? id with
      | some index => .ok (.slot index, 0)
      | none => .error .unknownAllocation

/-- `resolve` with its errors as refusals. -/
def resolved (pool : Pool) (region : Region) : Except Failure (Store × Nat) :=
  (pool.resolve region).mapError .refused

/-- `resolved` for a region that lies wholly inside its store. -/
def locate (pool : Pool) (region : Region) : Except Failure (Store × Nat) := do
  let (store, offset) ← pool.resolved region
  if pool.spans store offset region.length then return (store, offset)
  else throw (.fault .outOfRange)

/-! ### Reading and writing -/

/-- The bytes of a region. -/
def bytes (pool : Pool) (region : Region) : Except Failure Bytes := do
  let (store, offset) ← pool.resolved region
  pool.load store offset region.length

/-- The `length` bytes of a region from its byte `start` on. The whole region is looked up first. -/
def bytesIn (pool : Pool) (region : Region) (start length : Nat) : Except Failure Bytes := do
  let (store, offset) ← pool.locate region
  if start + length ≤ region.length then pool.load store (offset + start) length
  else throw (.fault .outOfRange)

/-- Write `data` to a region, from its byte `start` on. -/
def write (pool : Pool) (region : Region) (start : Nat) (data : Bytes) : Except Failure Pool := do
  let (store, offset) ← pool.locate region
  if start + data.length ≤ region.length then return pool.overwrite store (offset + start) data
  else throw (.fault .outOfRange)

/-- Let the caller write to a whole region. -/
def writeContent (pool : Pool) (region : Region) (content : Content) : Except Failure Pool := do
  pool.write region 0 (content.apply (← pool.bytes region))

/-- The address of the first byte of a region. -/
def address (pool : Pool) (region : Region) : Except Failure Nat := do
  let (store, offset) ← pool.resolved region
  match pool.storeBuffer? store with
  | some buffer => return buffer.base + offset
  | none => throw (.fault .outOfRange)

/-- The bytes of a region even if the pool was reset since it was handed out: those of its place in
its block, or of its large buffer if that is still held. -/
def bytesAnyGeneration? (pool : Pool) (region : Region) : Option (Store × Nat × Bytes) :=
  match region.place with
  | .block index offset =>
    (pool.storeBuffer? (.block index)).bind fun buffer =>
      (buffer.slice? offset region.length).map fun bytes => (.block index, offset, bytes)
  | .large id =>
    (pool.large.position? id).bind fun index =>
      (pool.storeBuffer? (.slot index)).bind fun buffer =>
        (buffer.slice? 0 region.length).map fun bytes => (.slot index, 0, bytes)

/-! ### The region claimed last -/

/-- Lengthen a region by `additional` bytes where it is: the longer region if that was possible.
Large regions never are. -/
def extend (pool : Pool) (region : Region) (additional : Nat) :
    Except Failure (Option Region × Pool) := do
  match ← pool.resolved region with
  | (.slot _, _) => return (none, pool)
  | (.block index, offset) =>
    match pool.chain.blocks[index]? with
    | none => throw (.fault .outOfRange)
    | some block =>
      match block.extend? (offset + region.length) additional with
      | none => return (none, pool)
      | some block =>
        return (some { region with length := region.length + additional },
          { pool with chain := pool.chain.setBlock index block })

/-- Give the bytes of a region back to its block, if nothing was claimed behind it: whether that was
done. Large regions are not given back this way. -/
def reclaim (pool : Pool) (region : Region) : Except Failure (Bool × Pool) := do
  match ← pool.resolved region with
  | (.slot _, _) => return (false, pool)
  | (.block index, offset) =>
    match pool.chain.blocks[index]? with
    | none => throw (.fault .outOfRange)
    | some block =>
      match block.reclaim? offset (offset + region.length) with
      | none => return (false, pool)
      | some block => return (true, { pool with chain := pool.chain.setBlock index block })

/-! ### Copying -/

/-- Two items of a list, at different places, of which the second one may be replaced: both items,
and the list with another item in place of the second one. The list is split at the greater place,
so that each item comes out of a part of its own. -/
def pairAt? {α : Type} (items : List α) (source target : Nat) : Option (α × α × (α → List α)) :=
  if source < target then
    let (low, high) := items.splitAt target
    match low[source]?, high with
    | some read, written :: rest => some (read, written, fun item => low ++ item :: rest)
    | _, _ => none
  else
    let (low, high) := items.splitAt source
    match high, low[target]? with
    | read :: _, some written => some (read, written, fun item => low.set target item ++ high)
    | _, _ => none

/-- The pool with the buffer of a store replaced. -/
def setBuffer (pool : Pool) (store : Store) (buffer : Buffer) : Pool :=
  match store with
  | .block index =>
    { pool with
      chain := { pool.chain with
        blocks := pool.chain.blocks.modify index fun block => { block with buffer } } }
  | .slot index => { pool with large := pool.large.set index (some buffer) }

/-- Copy `length` bytes of one store, from `start` on, to another one or to the same, from `offset`
on. -/
def transfer? (pool : Pool) (source target : Store) (start offset length : Nat) : Option Pool :=
  if source = target then do
    let buffer ← pool.storeBuffer? target
    (buffer.copyFrom? buffer start offset length).map (pool.setBuffer target)
  else
    match source, target with
    | .block source, .block target => do
      let (read, written, put) ← pairAt? pool.chain.blocks source target
      (written.buffer.copyFrom? read.buffer start offset length).map fun buffer =>
        { pool with chain := { pool.chain with blocks := put { written with buffer } } }
    | .slot source, .slot target => do
      let (read?, written?, put) ← pairAt? pool.large.slots source target
      let read ← read?
      let written ← written?
      (written.copyFrom? read start offset length).map fun buffer =>
        { pool with large := { slots := put (some buffer) } }
    | .block source, .slot target => do
      let read ← pool.chain.blocks[source]?
      let written ← pool.large.get? target
      (written.copyFrom? read.buffer start offset length).map (pool.setBuffer (.slot target))
    | .slot source, .block target => do
      let read ← pool.large.get? source
      let written ← pool.chain.blocks[target]?
      (written.buffer.copyFrom? read start offset length).map (pool.setBuffer (.block target))

/-- `transfer?`, where a store that is not there or too short is a fault. -/
def transfer (pool : Pool) (source target : Store) (start offset length : Nat) :
    Except Failure Pool :=
  match pool.transfer? source target start offset length with
  | some pool => .ok pool
  | none => .error (.fault .outOfRange)

/-- Copy the first `length` bytes of `source` to the start of `target`. Both must be that long; this
is checked before either is resolved. -/
def copy (pool : Pool) (source target : Region) (length : Nat) : Except Failure Pool := do
  if length ≤ source.length ∧ length ≤ target.length then
    let (sourceStore, start) ← pool.resolved source
    let (targetStore, offset) ← pool.resolved target
    pool.transfer sourceStore targetStore start offset length
  else throw (.fault (.copyTooLong length source.length target.length))

end Pool

end RegionPool
