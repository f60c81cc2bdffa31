import Mathlib.Order.Nat
import RegionPool.Proofs.Lengths
import RegionPool.Proofs.Operations
import RegionPool.Proofs.Resolution

/-!
# Where requests are placed

A request that is not above the threshold of a pool goes to the first block with room, from the
start of searches on, and only if there is none does the chain grow. Which blocks have room is told
here by arithmetic alone: a request is put at the cursor, or at the first word boundary from there
on, and has to end before the block does. No bound of machine words comes into it, for blocks are
shorter than half their range.

* `Block.spot`, `Block.HasRoom`, `Chain.roomy` — where a request would go, and the blocks that have
  room for it;
* `PoolState.Placed` — a request has been placed, in the first such block or in a new one, and
  nothing else has happened to the pool;
* `Pool.allocSmall_placed` — small requests are placed, and served wherever a block has room;
* `Session.run_places` — so it is in every pool of every history, with the threshold between the
  blocks and the large buffers.
-/

namespace RegionPool

open PoolM

/-! ### First fit -/

namespace Block

variable {block : Block} {packing : Packing} {size : Nat}

/-- **The spot of a request** in a block: the cursor, or the first word boundary that is not before
it. -/
def spot (block : Block) : Packing → Nat
  | .aligned => (block.cursor + 7) / 8 * 8
  | .packed => block.cursor

/-- Whether a request that is put at its spot ends before the block does. -/
def HasRoom (block : Block) (packing : Packing) (size : Nat) : Prop :=
  block.spot packing + size ≤ block.limit

/-- The block once the request is at its spot. -/
def filled (block : Block) (packing : Packing) (size : Nat) : Block :=
  { block with cursor := block.spot packing + size }

/-- **A block is regular**: its cursor is inside, and it is no longer than a buffer can be. -/
structure Regular (block : Block) : Prop extends block.Sound where
  measured : block.buffer.IsMeasured

namespace Regular

/-- **In a regular block** no rounding leaves the range of a machine word. -/
theorem target?_eq (regular : block.Regular) :
    block.target? packing = some (block.spot packing) := by
  cases packing with
  -- rounding up needs seven bytes above the cursor, and a word has room for them
  | aligned =>
    have hcursor : block.cursor < lengthLimit :=
      Nat.lt_of_le_of_lt regular.cursor_le_limit regular.measured
    have hword : block.cursor + (Layout.alignment - 1) < wordLimit := by
      change block.cursor + 7 < 2 ^ (64 : Nat)
      change block.cursor < 2 ^ (63 : Nat) at hcursor
      omega
    rw [target?, Layout.checkedAlignUp?, if_pos hword, Layout.alignUp_alignment, Nat.mul_comm]
    rfl
  | packed => rfl

theorem bump?_of_hasRoom (regular : block.Regular) (room : block.HasRoom packing size) :
    block.bump? size packing = some (block.spot packing, block.filled packing size) :=
  bump?_eq_some_iff.mpr ⟨regular.target?_eq, room, rfl⟩

theorem bump?_eq_none_iff (regular : block.Regular) :
    block.bump? size packing = none ↔ ¬ block.HasRoom packing size := by
  constructor
  · intro hnone room
    rw [regular.bump?_of_hasRoom room] at hnone
    cases hnone
  · intro full
    rw [bump?, regular.target?_eq]
    exact if_neg full

end Regular

end Block

namespace Chain

variable {chain : Chain} {packing : Packing} {size index : Nat} {block : Block}

/-- **The blocks with room** for a request, by their indices, from the start of searches on. -/
def roomy (chain : Chain) (packing : Packing) (size : Nat) : Set Nat :=
  { index | chain.current ≤ index ∧
    ∃ block, chain.blocks[index]? = some block ∧ block.HasRoom packing size }

/-- **The search finds the first block with room.** -/
theorem claim?_of_isLeast (regular : ∀ block ∈ chain.blocks, block.Regular)
    (first : IsLeast (chain.roomy packing size) index) (get : chain.blocks[index]? = some block) :
    chain.claim? size packing =
      some (index, block.spot packing, chain.setBlock index (block.filled packing size)) := by
  obtain ⟨⟨hcurrent, found, hfound, room⟩, hleast⟩ := first
  obtain rfl : block = found := Option.some.inj (get.symm.trans hfound)
  have hbump := (regular block (List.mem_of_getElem? get)).bump?_of_hasRoom room
  refine claim?_eq_some_iff.mpr ⟨hcurrent, block, _, get, hbump, rfl, ?_⟩
  intro earlier other hle hlt hother
  rw [(regular other (List.mem_of_getElem? hother)).bump?_eq_none_iff]
  -- a block before the first one with room has none
  exact fun room => Nat.not_le_of_lt hlt (hleast ⟨hle, other, hother, room⟩)

/-- It finds nothing if there is none. -/
theorem claim?_of_roomy_eq_empty (regular : ∀ block ∈ chain.blocks, block.Regular)
    (full : chain.roomy packing size = ∅) : chain.claim? size packing = none := by
  rw [claim?_eq_none_iff]
  intro index block hle get
  rw [(regular block (List.mem_of_getElem? get)).bump?_eq_none_iff]
  intro room
  have hmem : index ∈ chain.roomy packing size := ⟨hle, block, get, room⟩
  rw [full] at hmem
  exact hmem

/-- Either no block has room, or there is a first one. -/
theorem roomy_eq_empty_or_exists_isLeast (chain : Chain) (packing : Packing) (size : Nat) :
    chain.roomy packing size = ∅ ∨ ∃ index block,
      IsLeast (chain.roomy packing size) index ∧ chain.blocks[index]? = some block := by
  classical
  rcases (chain.roomy packing size).eq_empty_or_nonempty with hempty | hsome
  · exact .inl hempty
  · have hfirst := hsome.isLeast_natFind
    obtain ⟨-, block, get, -⟩ := hfirst.1
    exact .inr ⟨_, block, hfirst, get⟩

end Chain

/-! ### Placing a request -/

/-- **A block is appended** for a request, which is put behind its header. The new block has the
size that is configured; of the others only how often they failed may change, and of the pool only
the chain. -/
structure PoolState.Appends (s : PoolState) (size : Nat) (t : PoolState) : Prop where
  rest : t.pool = { s.pool with chain := t.pool.chain }
  count : t.pool.blockCount = s.pool.blockCount + 1
  old : ∀ (index : Nat) (block : Block), s.pool.chain.blocks[index]? = some block →
    ∃ failed, t.pool.chain.blocks[index]? = some { block with failed }
  new : ∃ buffer world,
    s.world.request s.pool.allocator (.memalign Layout.poolAlignment s.pool.blockSize) =
      (.ok buffer, world) ∧
    buffer.length = s.pool.blockSize ∧
    t.pool.chain.blocks[s.pool.blockCount]? = some
      { buffer, start := Layout.blockHeaderSize, cursor := Layout.blockHeaderSize + size
        failed := 0 }

/-- **A request is placed**: at its spot in the first block with room, where it moves the cursor and
changes nothing else; or, if no block has room, in a block that is appended. -/
inductive PoolState.Placed (s : PoolState) (packing : Packing) (size : Nat) :
    Region → PoolState → Prop
  | fitted {index block} (first : IsLeast (s.pool.chain.roomy packing size) index)
      (get : s.pool.chain.blocks[index]? = some block) :
      Placed s packing size (s.pool.regionAt size (.block index (block.spot packing)))
        { s with pool := { s.pool with
          chain := s.pool.chain.setBlock index
            { block with cursor := block.spot packing + size } } }
  | appended {t} (full : s.pool.chain.roomy packing size = ∅) (appends : s.Appends size t) :
      Placed s packing size
        (s.pool.regionAt size (.block s.pool.blockCount Layout.blockHeaderSize)) t

namespace Pool

variable {s t : PoolState} {packing : Packing} {size : Nat} {region : Region}

/-- The blocks of a pool are regular. -/
def Regular (pool : Pool) : Prop := ∀ block ∈ pool.chain.blocks, block.Regular

/-- **Growing** puts the request behind the header of the new block. -/
theorem growFor_appends : Ends (growFor size) s
    (fun region t => s.Appends size t ∧
      region = s.pool.regionAt size (.block s.pool.blockCount Layout.blockHeaderSize))
    (fun _ _ => True) := by
  simp only [growFor, ends_bind, ends_getPool]
  rw [ends_request]
  refine ⟨fun buffer world call => ?_, fun _ _ _ => trivial⟩
  cases hbump : (Block.ofBuffer buffer Layout.blockHeaderSize).bump? size .aligned with
  | none => exact trivial
  | some claimed =>
    obtain ⟨offset, block⟩ := claimed
    obtain ⟨htarget, -, rfl⟩ := Block.bump?_eq_some_iff.mp hbump
    -- the header of a block ends at a word boundary
    obtain rfl : Layout.blockHeaderSize = offset :=
      Option.some.inj ((Block.target?_ofBuffer buffer).symm.trans htarget)
    simp only [ends_bind, ends_getPool, ends_setPool, ends_log, ends_pure]
    let made : Block :=
      { buffer, start := Layout.blockHeaderSize, cursor := Layout.blockHeaderSize + size,
        failed := 0 }
    have hcount : (s.pool.chain.grow made).blocks.length = s.pool.blockCount + 1 :=
      Chain.length_blocks_grow _ _
    refine ⟨⟨rfl, hcount, fun index old get => ?_, buffer, world, call, ?_, ?_⟩, ?_⟩
    · -- past the search or not, a block keeps everything but its failures
      have hlt : index < s.pool.chain.blocks.length := (List.getElem?_eq_some_iff.mp get).1
      have hold : (s.pool.chain.grow made).blocks[index]? =
          some (if s.pool.chain.isPassed index then old.noteFailure else old) := by
        rw [Chain.getElem?_blocks_grow, if_neg (Nat.ne_of_lt hlt), get, Option.map_some]
      by_cases hpassed : s.pool.chain.isPassed index
      · rw [if_pos hpassed] at hold
        exact ⟨old.failed + 1, hold⟩
      · rw [if_neg hpassed] at hold
        exact ⟨old.failed, hold⟩
    · exact World.length_of_request call
    · exact Chain.getElem?_blocks_grow_self
    · change s.pool.regionAt size (.block ((s.pool.chain.grow made).blocks.length - 1) _) = _
      rw [hcount, Nat.add_sub_cancel]

/-- **A request for which a block has room** is served from the first such block. -/
theorem allocSmall_of_isLeast {index : Nat} {block : Block} (regular : s.pool.Regular)
    (first : IsLeast (s.pool.chain.roomy packing size) index)
    (get : s.pool.chain.blocks[index]? = some block) :
    allocSmall size packing s =
      .ok (s.pool.regionAt size (.block index (block.spot packing)))
        { s with pool := { s.pool with
          chain := s.pool.chain.setBlock index (block.filled packing size) } } := by
  have hpool : getPool s = .ok s.pool s := rfl
  rw [allocSmall, bind_of_ok hpool, Chain.claim?_of_isLeast regular first get]
  rfl

/-- **A small request is placed.** -/
theorem allocSmall_placed (regular : s.pool.Regular) :
    Ends (allocSmall size packing) s (fun region t => s.Placed packing size region t)
      (fun _ _ => s.pool.chain.roomy packing size = ∅) := by
  rcases s.pool.chain.roomy_eq_empty_or_exists_isLeast packing size with
    full | ⟨index, block, first, get⟩
  -- no block has room, so one is appended
  · simp only [allocSmall, ends_bind, ends_getPool]
    rw [Chain.claim?_of_roomy_eq_empty regular full]
    refine growFor_appends.mono (fun region t hgrown => ?_) fun _ _ _ => full
    obtain ⟨appends, hregion⟩ := hgrown
    rw [hregion]
    exact .appended full appends
  · rw [ends_of_ok (allocSmall_of_isLeast regular first get)]
    exact .fitted first get

/-- **A large request** gets a region in a buffer of its own. -/
theorem allocLarge_isLarge :
    Ends (allocLarge size) s (fun region _ => region.isLarge = true) (fun _ _ => True) := by
  -- wherever the buffer is registered, the region names it by its number
  have hregion : ∀ (t : PoolState) (buffer : Buffer),
      (t.pool.regionAt size (.large buffer.id)).isLarge = true := fun _ _ => rfl
  simp only [allocLarge, ends_bind, ends_getPool]
  rw [ends_request]
  refine ⟨fun buffer world _ => ?_, fun _ _ _ => trivial⟩
  split
  · simp only [ends_bind, ends_setPool, ends_getPool, ends_log, ends_pure]
    exact hregion _ buffer
  · simp only [ends_bind, ends_getPool, ends_log, ends_pure]
    exact .of_forall (fun _ t => hregion t buffer) fun _ _ => trivial

end Pool

/-! ### Requests of a caller -/

/-- The command by which a caller asks the pool in a slot for `size` bytes. -/
def Packing.command (slot size : Nat) : Packing → Command
  | .aligned => .alloc slot size
  | .packed => .allocUnaligned slot size

namespace Session

variable {s : Session} {slot size index : Nat} {packing : Packing} {pool : Pool}

theorem exec_packing (s : Session) (slot size : Nat) (packing : Packing) :
    s.exec (packing.command slot size) = s.allocate slot (Pool.allocWith packing size) := by
  cases packing <;> rfl

/-- **An allocation that was served**: its region has a slot of its own. -/
theorem exists_of_allocate {action : PoolM Region}
    (served : (s.allocate slot action).1 = .region index) :
    ∃ pool region t, s.pool? slot = some pool ∧ action ⟨pool, s.world⟩ = .ok region t ∧
      index = s.regions.length ∧ (s.allocate slot action).2 =
        { s.settle slot t with regions := s.regions ++ [region] } := by
  unfold allocate perform at served ⊢
  -- without a region in the answer there is nothing to show
  cases here : s.pool? slot with
  | none =>
    rw [here] at served
    cases served
  | some pool =>
    rw [here] at served
    simp only [withFound] at served ⊢
    cases run : action ⟨pool, s.world⟩ with
    | error failure t =>
      rw [run] at served
      cases served
    | ok region t =>
      rw [run] at served
      exact ⟨pool, region, t, rfl, run, (Reply.region.inj served).symm, rfl⟩

/-- **A request that was served** by a pool that is there. -/
theorem exec_claimed (here : s.pool? slot = some pool)
    (claimed : (s.exec (packing.command slot size)).1 = .region index) :
    ∃ region t, Pool.allocWith packing size ⟨pool, s.world⟩ = .ok region t ∧
      (s.exec (packing.command slot size)).2 =
        { s.settle slot t with regions := s.regions ++ [region] } := by
  rw [exec_packing] at claimed ⊢
  obtain ⟨found, region, t, hfound, run, -, hafter⟩ := exists_of_allocate claimed
  obtain rfl : pool = found := Option.some.inj (here.symm.trans hfound)
  exact ⟨region, t, run, hafter⟩

end Session

/-! ### In every history -/

/-- **How a pool serves requests** under one packing: with a region in a large buffer if and only if
the request is above the threshold; all others are placed, and wherever a block has room for one it
is served. -/
structure PoolState.Routes (s : PoolState) (packing : Packing) (alloc : Nat → PoolM Region) :
    Prop where
  isLarge_iff : ∀ size region t, alloc size s = .ok region t →
    (region.isLarge = true ↔ s.pool.max < size)
  placed : ∀ size region t, size ≤ s.pool.max → alloc size s = .ok region t →
    s.Placed packing size region t
  served : ∀ size, size ≤ s.pool.max → (s.pool.chain.roomy packing size).Nonempty →
    ∃ region t, alloc size s = .ok region t

namespace Pool

variable {s : PoolState} {packing : Packing}

/-- **The threshold** decides between the blocks and a large buffer. -/
theorem allocWith_routes (regular : s.pool.Regular) : s.Routes packing (allocWith packing) := by
  have hplaced : ∀ size region t, size ≤ s.pool.max → allocWith packing size s = .ok region t →
      s.Placed packing size region t := fun size region t hle run =>
    (allocSmall_placed regular).ok_of ((allocWith_of_le hle).symm.trans run)
  refine ⟨fun size region t run => ?_, hplaced, fun size hle hroom => ?_⟩
  -- within the threshold the region is in a block, beyond it the request is large
  · by_cases hle : size ≤ s.pool.max
    · have hblock : region.isLarge = false := by
        cases hplaced size region t hle run <;> rfl
      rw [hblock]
      exact iff_of_false Bool.false_ne_true (Nat.not_lt_of_le hle)
    · rw [Nat.not_le] at hle
      exact iff_of_true (allocLarge_isLarge.ok_of ((allocWith_of_lt hle).symm.trans run)) hle
  -- where a block has room, the first of them serves the request without a call
  · rcases s.pool.chain.roomy_eq_empty_or_exists_isLeast packing size with
      full | ⟨index, block, first, get⟩
    · exact absurd full hroom.ne_empty
    · exact ⟨_, _, (allocWith_of_le hle).trans (allocSmall_of_isLeast regular first get)⟩

end Pool

namespace Session

variable {s : Session} {slot : Nat} {pool : Pool}

/-- The blocks of every pool are regular. -/
theorem Measured.regular (measured : s.Measured) (vouched : s.Vouched)
    (here : s.pool? slot = some pool) : pool.Regular := by
  intro block hmem
  have hbuffer : block.buffer ∈ pool.buffers :=
    List.mem_append_right _ (List.mem_map_of_mem hmem)
  exact ⟨(vouched.fit slot pool here).sound block hmem, measured slot pool here _ hbuffer⟩

/-- **Where requests are placed**, in every pool of every history. -/
theorem run_places {heap : Heap} {history : List Command}
    (here : ((Session.ofHeap heap).run history).2.pool? slot = some pool) :
    let s : PoolState := ⟨pool, ((Session.ofHeap heap).run history).2.world⟩
    s.Routes .aligned Pool.alloc ∧ s.Routes .packed Pool.allocUnaligned := by
  have regular : pool.Regular :=
    ((Measured.ofHeap heap).run (.ofHeap heap)).regular (Vouched.ofHeap heap).run here
  exact ⟨Pool.allocWith_routes regular, Pool.allocWith_routes regular⟩

/-- Blocks that end inside a word, one of them with its cursor inside the last word, and searches
that start behind a block with room. -/
def raggedHistory : List Command :=
  [.createPool { size := 117 } none, .allocUnaligned 0 3] ++ List.replicate 20 (.alloc 0 33) ++
    [.allocUnaligned 0 19, .allocUnaligned 0 11, .alloc 0 0]

theorem run_places_raggedHistory : ∃ pool,
    ((Session.ofHeap roomyHeap).run raggedHistory).2.pool? 0 = some pool ∧
      pool.chain.current = 5 ∧
      pool.chain.blocks.map (fun block => (block.cursor, block.limit)) = [(83, 117), (105, 117),
        (105, 117), (105, 117), (105, 117), (116, 117), (112, 117), (105, 117), (105, 117),
        (105, 117), (105, 117), (51, 117)] ∧
      let s : PoolState := ⟨pool, ((Session.ofHeap roomyHeap).run raggedHistory).2.world⟩
      s.Routes .aligned Pool.alloc ∧ s.Routes .packed Pool.allocUnaligned := by
  have present : (((Session.ofHeap roomyHeap).run raggedHistory).2.pool? 0).map
      (fun pool => (pool.chain.current,
        pool.chain.blocks.map fun block => (block.cursor, block.limit))) =
      some (5, [(83, 117), (105, 117), (105, 117), (105, 117), (105, 117), (116, 117), (112, 117),
        (105, 117), (105, 117), (105, 117), (105, 117), (51, 117)]) := by
    decide +kernel
  obtain ⟨pool, here, hchain⟩ := Option.map_eq_some_iff.mp present
  obtain ⟨hcurrent, hblocks⟩ := Prod.mk.inj hchain
  exact ⟨pool, here, hcurrent, hblocks, run_places here⟩

end Session

end RegionPool
