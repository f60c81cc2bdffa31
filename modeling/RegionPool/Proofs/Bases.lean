import RegionPool.Proofs.Courses

/-!
# Where buffers begin

A pool rounds offsets, not addresses: it takes it for granted that a buffer begins at a boundary
that is coarse enough. All that stands behind this is the heap. A heap is asked for an alignment,
which for the blocks of a pool is twice the word, and it is expected to keep to it.

A buffer keeps its address for as long as there is the buffer, so what the heap did once need only
be remembered. The same goes for the alignment that a block was asked for.

* `Heap.Aligns` — what is expected of a heap;
* `Pool.Based` — every buffer begins at a multiple of its alignment, and blocks have that of a pool;
* `PoolState.Based.ends` — every orderly action leaves it so, and `Session.Based.run` every history.
-/

namespace RegionPool

open PoolM Relation

/-! ### What is expected of a heap -/

/-- **A heap aligns** what it places: a buffer begins at a multiple of the alignment asked for. -/
def Heap.Aligns (heap : Heap) : Prop :=
  ∀ request size align base, isLayout size align = true →
    heap.place request size align = some base → align ∣ base

/-- **A buffer is aligned** as it was asked for. -/
def Buffer.IsAligned (buffer : Buffer) : Prop := buffer.align ∣ buffer.base

/-- Where the heap aligns, a granted buffer is aligned. -/
theorem World.aligned_of_request {w w' : World} {id : AllocatorId} {request : Request}
    {buffer : Buffer} (aligns : w.heap.Aligns) (h : w.request id request = (.ok buffer, w')) :
    buffer.IsAligned := by
  obtain ⟨hlayout, halign, hplace⟩ := placed_of_request h
  unfold Buffer.IsAligned
  rw [halign]
  exact aligns _ _ _ _ hlayout hplace

/-! ### Pools -/

/-- **A pool is based**: its buffers, and those in hand, are aligned, and its blocks are so at the
alignment of a pool. -/
structure Pool.Based (pool : Pool) (hand : List Buffer) : Prop where
  aligned : ∀ buffer ∈ pool.buffers ++ hand, buffer.IsAligned
  blocks : ∀ block ∈ pool.chain.blocks, block.buffer.align = Layout.poolAlignment

namespace Pool.Based

variable {pool : Pool} {hand : List Buffer} {heap : Heap} {block : Block} {buffer : Buffer}

/-- **A block begins** at a boundary of a pool. -/
theorem dvd_block (based : pool.Based hand) (hmem : block ∈ pool.chain.blocks) :
    Layout.poolAlignment ∣ block.buffer.base := by
  have hbuffer : block.buffer ∈ pool.buffers := List.mem_append_right _ (List.mem_map_of_mem hmem)
  have haligned := based.aligned block.buffer (List.mem_append_left _ hbuffer)
  unfold Buffer.IsAligned at haligned
  rwa [based.blocks block hmem] at haligned

/-- **A large buffer begins** at a multiple of its alignment. -/
theorem dvd_large (based : pool.Based hand) (hfind : pool.large.find? buffer.id = some buffer) :
    buffer.align ∣ buffer.base := by
  obtain ⟨hmem, -⟩ := LargeTable.mem_of_find? hfind
  exact based.aligned buffer (List.mem_append_left _ (List.mem_append_left _ hmem))

/-- The blocks have the alignments that they had. -/
private theorem blocks_congr {after : Pool}
    (halign : after.chain.blocks.map (fun block => block.buffer.align) =
      pool.chain.blocks.map fun block => block.buffer.align)
    (hblocks : ∀ block ∈ pool.chain.blocks, block.buffer.align = Layout.poolAlignment) :
    ∀ block ∈ after.chain.blocks, block.buffer.align = Layout.poolAlignment := by
  rw [← List.forall_mem_map (P := (· = Layout.poolAlignment)), halign]
  exact List.forall_mem_map.mpr hblocks

/-- **A move** asks for new blocks at the alignment of a pool, and leaves that of the old ones. -/
private theorem blocks_move {a b : Stage} (h : Move a b)
    (hblocks : ∀ block ∈ a.pool.chain.blocks, block.buffer.align = Layout.poolAlignment) :
    ∀ block ∈ b.pool.chain.blocks, block.buffer.align = Layout.poolAlignment := by
  cases h with
  | @grown buffer hand block size offset request inHand bump length align =>
    have hgrown : (a.pool.chain.grow block).blocks.map (fun block => block.buffer.align) =
        a.pool.chain.blocks.map (fun block => block.buffer.align) ++ [block.buffer.align] :=
      Chain.map_blocks_grow (fun block : Block => block.buffer.align) fun _ => rfl
    -- the block that was added is the only one that the pool did not have
    rw [← List.forall_mem_map (P := (· = Layout.poolAlignment)), hgrown]
    intro align' hmem
    rcases List.mem_append.mp hmem with hold | hnew
    · exact (List.forall_mem_map (P := (· = Layout.poolAlignment))).mpr hblocks align' hold
    · obtain rfl := List.mem_singleton.mp hnew
      rw [Block.eq_of_bump? bump]
      exact align
  | moved cursor get =>
    exact blocks_congr
      (Chain.map_blocks_setBlock (fun block : Block => block.buffer.align) get rfl) hblocks
  | wrote store offset data =>
    -- what is written goes to the bytes of a block, or to a large buffer
    cases store with
    | block index =>
      exact blocks_congr (Chain.map_blocks_overwrite
        (fun block : Block => block.buffer.align) fun _ => rfl) hblocks
    | slot index => exact hblocks
  | _ => exact hblocks

/-- A new pool asks for its first block like for any other. -/
private theorem blocks_create {config : PoolConfig} {id : AllocatorId} {w w' : World}
    (h : create config id w = (.ok pool, w')) :
    ∀ block ∈ pool.chain.blocks, block.buffer.align = Layout.poolAlignment := by
  unfold create at h
  split at h
  · cases h
  · split at h
    · cases h
    -- the one block of a new pool is in the buffer that was granted for it
    · next buffer world hrequest =>
      obtain ⟨hpool, -⟩ := Prod.mk.inj h
      obtain rfl := Except.ok.inj hpool
      intro block hmem
      obtain rfl := List.mem_singleton.mp hmem
      exact (World.placed_of_request hrequest).2.1

/-- **Over a heap that aligns** every pool is based, and stays so. -/
theorem lasting (aligns : heap.Aligns) : Lasting heap Based := by
  -- being aligned is a matter of single buffers, whatever pool they are in
  have hbuffers : Lasting heap fun pool hand => ∀ buffer ∈ pool.buffers ++ hand,
      buffer.IsAligned := by
    refine .of_buffers (fun _ _ _ => Iff.rfl) ?_
    intro w id request buffer w' hheap call
    have haligns : w.heap.Aligns := hheap ▸ aligns
    exact World.aligned_of_request haligns call
  exact {
    created := fun config id w pool w' hheap h =>
      ⟨hbuffers.created config id w pool w' hheap h, blocks_create h⟩
    move := fun a b hheap h based =>
      ⟨hbuffers.move a b hheap h based.aligned, blocks_move h based.blocks⟩
    lost := fun pool hand based => ⟨hbuffers.lost pool hand based.aligned, based.blocks⟩
    rewound := fun pool based => ⟨hbuffers.rewound pool based.aligned, blocks_congr
      (Chain.map_blocks_reset (fun block : Block => block.buffer.align) fun _ => rfl)
      based.blocks⟩ }

end Pool.Based

/-! ### Actions and commands -/

/-- **A pool is based in its world**: the heap is one that aligns. -/
structure PoolState.Based (s : PoolState) : Prop where
  aligns : s.world.heap.Aligns
  pool : s.pool.Based []

/-- **An orderly action** leaves the pool based. -/
theorem PoolState.Based.ends {α : Type} {action : PoolM α} {s : PoolState} (based : s.Based)
    (sized : s.pool.Sized) (orderly : Orderly action) :
    Ends action s (fun _ t => t.Based) (fun _ _ => True) := by
  refine (orderly s [] sized).mono (fun _ t moves => ?_) fun _ _ _ => trivial
  have lasting := Pool.Based.lasting based.aligns
  exact ⟨moves.heap ▸ based.aligns, lasting.moves moves based.pool⟩

namespace Session

variable {s : Session} {slot : Nat} {pool : Pool} {command : Command} {history : List Command}

/-- **The pools of a session are based.** -/
structure Based (s : Session) : Prop where
  aligns : s.world.heap.Aligns
  pools : ∀ pool, some pool ∈ s.pools → pool.Based []

namespace Based

theorem state (based : s.Based) (here : s.pool? slot = some pool) :
    PoolState.Based ⟨pool, s.world⟩ :=
  ⟨based.aligns, based.pools pool (mem_pools_of_pool? here)⟩

/-- **Every command** leaves the pools based. -/
theorem exec (based : s.Based) (sized : s.Sized) : (s.exec command).2.Based where
  aligns := by
    rw [heap_exec sized]
    exact based.aligns
  pools := (Pool.Based.lasting based.aligns).exec sized based.pools

/-- **Every history** does. -/
theorem run (based : s.Based) (sized : s.Sized) : (s.run history).2.Based := by
  induction history generalizing s with
  | nil => exact based
  | cons command history ih => exact ih (based.exec sized) sized.exec

/-- A caller who holds nothing yet. -/
theorem ofHeap {heap : Heap} (aligns : heap.Aligns) : (Session.ofHeap heap).Based :=
  ⟨aligns, fun _ hmem => (List.not_mem_nil hmem).elim⟩

end Based

end Session

end RegionPool
