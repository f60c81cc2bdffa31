import RegionPool.Pool.Block

/-!
# The chain of blocks

Small requests are served from a chain of blocks. A request goes to the first block with room for
it, and the search starts at the block `current`. Where no block has room, the chain grows by one
block; every block the search went past, the old last one apart, then counts a failure, and blocks
that keep failing are left out of later searches.

* `Chain.claim?` is the search, first fit from `current` on;
* `Chain.grow` appends a block and moves the start of the search;
* `Chain.reset` frees all blocks and lets the search start at the first one again.
-/

namespace RegionPool

/-- The blocks of a pool, in the order in which they were appended, and where searches start. -/
structure Chain where
  blocks : List Block
  current : Nat := 0
  deriving Repr, DecidableEq

namespace Chain

/-- A block that had failed more often than this when the chain grows past it is left out of later
searches, with all blocks before it. -/
def failureThreshold : Nat := 4

/-! ### Searching -/

/-- Claim `size` bytes in the first block with room: its position, the offset in it, and the blocks
after. -/
def claimIn (size : Nat) (packing : Packing) : List Block → Option (Nat × Nat × List Block)
  | [] => none
  | block :: rest =>
    match block.bump? size packing with
    | some (offset, block) => some (0, offset, block :: rest)
    | none =>
      -- A block without room stays as it was, its cursor included.
      (claimIn size packing rest).map fun (position, offset, rest) =>
        (position + 1, offset, block :: rest)

/-- Claim `size` bytes in the first block from `current` on that has room: the index of the block,
the offset in it, and the chain after. -/
def claim? (chain : Chain) (size : Nat) (packing : Packing) : Option (Nat × Nat × Chain) :=
  (claimIn size packing (chain.blocks.drop chain.current)).map fun (position, offset, rest) =>
    (chain.current + position, offset,
      { chain with blocks := chain.blocks.take chain.current ++ rest })

/-! ### Growing -/

/-- Whether the search that makes the chain grow counts as a failure of block `index`: it went past
the block, and the block is not the last one. -/
def isPassed (chain : Chain) (index : Nat) : Bool :=
  chain.current ≤ index && index + 1 < chain.blocks.length

/-- Whether block `index` has failed more often than is tolerated. -/
def isExhausted (chain : Chain) (index : Nat) : Bool :=
  match chain.blocks[index]? with
  | some block => failureThreshold < block.failed
  | none => false

/-- Where searches start once the chain has grown: behind the last exhausted block it went past. -/
def nextStart (chain : Chain) : Nat :=
  -- The fold goes from the first block to the last, so the last exhausted one decides.
  (List.range chain.blocks.length).foldl
    (fun start index =>
      if chain.isPassed index && chain.isExhausted index then index + 1 else start)
    chain.current

/-- The chain with one more block, after a search that found no room. -/
def grow (chain : Chain) (block : Block) : Chain where
  blocks := chain.blocks.mapIdx
      (fun index old => if chain.isPassed index then old.noteFailure else old) ++ [block]
  current := chain.nextStart

/-! ### Other operations -/

/-- The chain with block `index` replaced. -/
def setBlock (chain : Chain) (index : Nat) (block : Block) : Chain :=
  { chain with blocks := chain.blocks.set index block }

/-- The chain with the bytes of block `index` replaced from `offset` on. -/
def overwrite (chain : Chain) (index offset : Nat) (data : Bytes) : Chain :=
  { chain with blocks := chain.blocks.modify index fun block => block.overwrite offset data }

/-- Free every block. -/
def reset (chain : Chain) : Chain where
  blocks := chain.blocks.map Block.reset
  current := 0

/-- What a pool tells about its blocks, in order. -/
def stats (chain : Chain) : List BlockStats := chain.blocks.map Block.stats

@[simp] theorem length_blocks_grow (chain : Chain) (block : Block) :
    (chain.grow block).blocks.length = chain.blocks.length + 1 := by
  simp [grow]

@[simp] theorem length_blocks_setBlock (chain : Chain) (index : Nat) (block : Block) :
    (chain.setBlock index block).blocks.length = chain.blocks.length := by
  simp [setBlock]

@[simp] theorem current_setBlock (chain : Chain) (index : Nat) (block : Block) :
    (chain.setBlock index block).current = chain.current := rfl

@[simp] theorem length_blocks_overwrite (chain : Chain) (index offset : Nat) (data : Bytes) :
    (chain.overwrite index offset data).blocks.length = chain.blocks.length := by
  simp [overwrite]

@[simp] theorem current_overwrite (chain : Chain) (index offset : Nat) (data : Bytes) :
    (chain.overwrite index offset data).current = chain.current := rfl

@[simp] theorem length_blocks_reset (chain : Chain) :
    chain.reset.blocks.length = chain.blocks.length := by
  simp [reset]

end Chain

end RegionPool
