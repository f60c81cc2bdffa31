import RegionPool.Proofs.Courses
import RegionPool.Proofs.Sites

/-!
# Blocks without what they hold

Where memory is found in a chain depends on the cursors and failures of its blocks, and on how long
they are. It does not depend on the bytes in them, on their addresses or on their numbers. A chain
is laid bare by exchanging every buffer for a plain one of the same length; whatever a chain does,
it does bare as well.

The blocks of a pool are all of one size, and only the first one has a longer header. So the bare
chain of a pool that was just reset tells no more than the size of its blocks and how many there
are.

* `Chain.recast`, `Chain.claim?_recast`, `Chain.recast_grow` — a chain whose buffers are exchanged
  for others of the same lengths, and that it does the same;
* `Block.bare`, `Chain.bare` — blocks without what they hold;
* `Chain.claim?_bare`, `Chain.bare_grow` and their like — what a chain does, laid bare;
* `Pool.Uniform`, `Pool.Uniform.bare_rewound` — all blocks of a pool are of one size.
-/

namespace RegionPool

open PoolM Relation

/-! ### Laying bare -/

/-- A buffer of which nothing is known but its length. -/
def Buffer.plain (size : Nat) : Buffer :=
  { id := ⟨0⟩, base := 0, align := 1, memory := Memory.zeroed size }

@[simp] theorem Buffer.length_plain (size : Nat) : (plain size).length = size :=
  Memory.size_zeroed size

namespace Block

variable {block : Block} {size offset stop additional : Nat} {packing : Packing}
  {f : Buffer → Buffer}

/-- A block with another buffer, made of the one it has. -/
def recast (f : Buffer → Buffer) (block : Block) : Block := { block with buffer := f block.buffer }

/-- **A block whose buffer was exchanged** for one of the same length serves a request in the same
way. -/
theorem bump?_recast (hf : ∀ buffer, (f buffer).length = buffer.length) :
    (block.recast f).bump? size packing =
      (block.bump? size packing).map fun found => (found.1, found.2.recast f) := by
  have htarget : (block.recast f).target? packing = block.target? packing := by
    cases packing <;> rfl
  have hlimit : (block.recast f).limit = block.limit := hf block.buffer
  rw [bump?, bump?, htarget, hlimit]
  split
  · rfl
  · split <;> rfl

/-- **A block without what it holds.** -/
def bare (block : Block) : Block := { block with buffer := Buffer.plain block.buffer.length }

@[simp] theorem limit_bare : block.bare.limit = block.limit := Buffer.length_plain _

@[simp] theorem bare_overwrite {data : Bytes} :
    (block.overwrite offset data).bare = block.bare := by
  simp only [bare, overwrite, Buffer.length_overwrite_any]

@[simp] theorem stats_bare : block.bare.stats = block.stats := by
  simp only [stats, limit_bare]
  rfl

/-- A new block shows how long its buffer is and how long its header, and no more. -/
theorem bare_ofBuffer (buffer : Buffer) (header : Nat) :
    (ofBuffer buffer header).bare = ofBuffer (Buffer.plain buffer.length) header := rfl

/-- **A bare block** serves a request in the same way. -/
theorem bump?_bare : block.bare.bump? size packing =
    (block.bump? size packing).map fun found => (found.1, found.2.bare) :=
  bump?_recast fun _ => Buffer.length_plain _

theorem extend?_bare : block.bare.extend? stop additional =
    (block.extend? stop additional).map bare := by
  rw [extend?, extend?, limit_bare]
  change (if stop = block.cursor ∧ additional ≤ block.limit - block.cursor then _ else _) = _
  split <;> rfl

theorem reclaim?_bare : block.bare.reclaim? offset stop =
    (block.reclaim? offset stop).map bare := by
  rw [reclaim?, reclaim?]
  change (if stop = block.cursor then _ else _) = _
  split <;> rfl

end Block

namespace Chain

variable {chain : Chain} {block : Block} {size index : Nat} {packing : Packing}
  {f : Buffer → Buffer}

/-- A chain with other buffers, each made of the one there was. -/
def recast (f : Buffer → Buffer) (chain : Chain) : Chain :=
  { chain with blocks := chain.blocks.map (Block.recast f) }

/-- The search finds the same place. -/
private theorem claimIn_recast (hf : ∀ buffer, (f buffer).length = buffer.length)
    (blocks : List Block) : claimIn size packing (blocks.map (Block.recast f)) =
      (claimIn size packing blocks).map fun (position, offset, rest) =>
        (position, offset, rest.map (Block.recast f)) := by
  induction blocks with
  | nil => rfl
  | cons block rest ih =>
    rw [List.map_cons, claimIn, claimIn, Block.bump?_recast hf]
    -- the first block has room in both, or in neither
    cases block.bump? size packing with
    | some found => rfl
    | none =>
      simp only [Option.map_none, ih, Option.map_map]
      rfl

/-- **Claiming** finds the same place in a chain whose buffers were exchanged for ones of the same
lengths. -/
theorem claim?_recast (hf : ∀ buffer, (f buffer).length = buffer.length) :
    (chain.recast f).claim? size packing =
      (chain.claim? size packing).map fun found => (found.1, found.2.1, found.2.2.recast f) := by
  rw [claim?, claim?]
  change (claimIn size packing ((chain.blocks.map (Block.recast f)).drop chain.current)).map _ = _
  rw [← List.map_drop, claimIn_recast hf, Option.map_map, Option.map_map]
  refine congrArg (Option.map · _) (funext fun found => ?_)
  simp only [Function.comp_apply, recast, List.map_append, List.map_take]

/-- The same blocks count as passed and as exhausted. -/
private theorem isPassed_recast (index : Nat) :
    (chain.recast f).isPassed index = chain.isPassed index := by
  rw [isPassed, isPassed, recast, List.length_map]

private theorem isExhausted_recast (index : Nat) :
    (chain.recast f).isExhausted index = chain.isExhausted index := by
  rw [isExhausted, isExhausted, recast, List.getElem?_map]
  cases chain.blocks[index]? <;> rfl

/-- **Growth** counts the same failures whatever the buffers are, and searches start at the same
block. -/
theorem recast_grow :
    (chain.grow block).recast f = (chain.recast f).grow (block.recast f) := by
  have hcurrent : ((chain.recast f).grow (block.recast f)).current =
      (chain.grow block).current := by
    change (chain.recast f).nextStart = chain.nextStart
    have hlength : (chain.recast f).blocks.length = chain.blocks.length := List.length_map _
    simp only [nextStart, hlength, isExhausted_recast, isPassed_recast]
    rfl
  -- block by block: whether a search passed it does not depend on its buffer
  have hblocks : ((chain.recast f).grow (block.recast f)).blocks =
      (chain.grow block).blocks.map (Block.recast f) := by
    simp only [grow, List.map_append, List.map_singleton]
    refine congrArg (· ++ _) ?_
    ext1 index
    simp only [recast, List.getElem?_mapIdx, List.getElem?_map, Option.map_map]
    refine congrArg (Option.map · chain.blocks[index]?) ?_
    funext old
    have hpassed : (chain.recast f).isPassed index = chain.isPassed index := isPassed_recast index
    rw [recast] at hpassed
    simp only [Function.comp_apply, hpassed]
    split <;> rfl
  exact (congrArg₂ Chain.mk hblocks hcurrent).symm

/-- **A chain without what its blocks hold.** -/
def bare (chain : Chain) : Chain := { chain with blocks := chain.blocks.map Block.bare }

@[simp] theorem length_blocks_bare : chain.bare.blocks.length = chain.blocks.length :=
  List.length_map _

@[simp] theorem stats_bare : chain.bare.stats = chain.stats := by
  rw [stats, bare, List.map_map]
  exact List.map_congr_left fun block _ => block.stats_bare

@[simp] theorem bare_reset : chain.reset.bare = chain.bare.reset := by
  simp only [bare, reset, List.map_map]
  rfl

@[simp] theorem bare_setBlock : (chain.setBlock index block).bare =
    chain.bare.setBlock index block.bare := by
  simp only [bare, setBlock, List.map_set]

/-- **Claiming** finds the same place in a bare chain. -/
theorem claim?_bare : chain.bare.claim? size packing =
    (chain.claim? size packing).map fun found => (found.1, found.2.1, found.2.2.bare) :=
  claim?_recast fun _ => Buffer.length_plain _

/-- **Growth** counts the same failures in a bare chain, and searches start at the same block. -/
@[simp] theorem bare_grow : (chain.grow block).bare = chain.bare.grow block.bare :=
  recast_grow (f := fun buffer => Buffer.plain buffer.length)

end Chain

/-! ### Blocks of one size -/

/-- **The blocks of a pool are uniform**: cleared and laid bare, the first one and all others look
like new blocks of the size that the pool was made for. -/
def Pool.Uniform (pool : Pool) : Prop :=
  ∃ more, pool.chain.blocks.map (fun block => block.reset.bare) =
    Block.ofBuffer (Buffer.plain pool.blockSize) Layout.poolHeaderSize ::
      List.replicate more (Block.ofBuffer (Buffer.plain pool.blockSize) Layout.blockHeaderSize)

namespace Pool.Uniform

variable {pool other : Pool}

/-- The blocks are the same ones, but for cursors, failures and bytes. -/
private theorem congr (h : pool.Uniform) (hsize : other.blockSize = pool.blockSize)
    (hblocks : other.chain.blocks.map (fun block => block.reset.bare) =
      pool.chain.blocks.map fun block => block.reset.bare) : other.Uniform := by
  obtain ⟨more, hmore⟩ := h
  exact ⟨more, by rw [hblocks, hmore, hsize]⟩

/-- **The blocks of every pool are uniform.** -/
theorem lasting (heap : Heap) : Lasting heap fun pool _ => pool.Uniform where
  created config id w pool w' _ hcreate := by
    obtain ⟨-, buffer, opens⟩ := create_ok hcreate
    refine ⟨0, ?_⟩
    rw [opens.chain, ← opens.length]
    rfl
  move a b _ h uniform := by
    cases h with
    | @grown buffer hand block size offset request inHand bump length align =>
      -- the new block is one more of the same size, and a reset leaves nothing else of it
      obtain ⟨more, hmore⟩ := uniform
      refine ⟨more + 1, ?_⟩
      have hblocks : (a.pool.chain.grow block).blocks.map (fun block => block.reset.bare) =
          a.pool.chain.blocks.map (fun block => block.reset.bare) ++ [block.reset.bare] :=
        Chain.map_blocks_grow (fun block : Block => block.reset.bare) fun _ => rfl
      rw [hblocks, hmore, Block.eq_of_bump? bump, List.replicate_succ', ← length]
      rfl
    | moved cursor get =>
      exact uniform.congr rfl
        (Chain.map_blocks_setBlock (fun block : Block => block.reset.bare) get rfl)
    | wrote store offset data =>
      cases store with
      | block index =>
        exact uniform.congr rfl (Chain.map_blocks_overwrite
          (fun block : Block => block.reset.bare) fun block => block.reset.bare_overwrite)
      | slot index => exact uniform
    | _ => exact uniform
  lost _ _ uniform := uniform
  rewound pool uniform :=
    uniform.congr rfl (Chain.map_blocks_reset (fun block : Block => block.reset.bare) fun _ => rfl)

/-- **The bare chain of a pool that was reset** depends on the size and number of its blocks
only. -/
theorem bare_rewound (uniform : pool.Uniform) (uniform' : other.Uniform)
    (hsize : other.blockSize = pool.blockSize) (hcount : other.blockCount = pool.blockCount) :
    other.rewound.chain.bare = pool.rewound.chain.bare := by
  have hbare : ∀ pool : Pool, pool.rewound.chain.bare =
      { blocks := pool.chain.blocks.map fun block => block.reset.bare } := by
    intro pool
    show Chain.mk ((pool.chain.blocks.map Block.reset).map Block.bare) 0 = _
    rw [List.map_map]
    rfl
  obtain ⟨more, hmore⟩ := uniform
  obtain ⟨more', hmore'⟩ := uniform'
  -- there are as many blocks as there are entries in the lists
  have hlength := congrArg List.length hmore
  have hlength' := congrArg List.length hmore'
  rw [List.length_map, List.length_cons, List.length_replicate] at hlength hlength'
  obtain rfl : more' = more := by
    rw [blockCount, blockCount] at hcount
    omega
  rw [hbare, hbare, hmore, hmore', hsize]

end Pool.Uniform

/-- **The blocks of a pool are uniform** after every history. -/
theorem Session.run_uniform (heap : Heap) (history : List Command) {slot : Nat} {pool : Pool}
    (here : ((Session.ofHeap heap).run history).2.pool? slot = some pool) : pool.Uniform := by
  have hnone : ∀ pool, some pool ∉ (Session.ofHeap heap).pools := fun _ => List.not_mem_nil
  exact (Pool.Uniform.lasting _).run (fun pool hmem => absurd hmem (hnone pool))
    (fun pool hmem => absurd hmem (hnone pool)) pool (mem_pools_of_pool? here)

end RegionPool
