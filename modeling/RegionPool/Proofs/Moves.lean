import Mathlib.Logic.Relation
import RegionPool.Pool.Release
import RegionPool.Proofs.Books
import RegionPool.Proofs.Memory

/-!
# What an operation consists of

Whatever an operation does to a pool, it does in a few kinds of steps: a buffer comes from the raw
allocator or goes back to it, a buffer that is in hand joins the pool, or leaves it, a cursor moves,
bytes are written, or something happens that has nothing to do with memory. `Move` lists these
kinds, and `Carries` says of an action that it consists of them. What holds of every move holds of
every operation.

* `Stage` — a pool in its world, and the buffers that are in hand on the way;
* `Move.holdings` — where buffers are after a move: it exchanges holders, or takes a new buffer from
  the allocator, or gives one back; `Move.forall_buffers` — what is true of all of them;
* `Fails` — how an operation ends that fails: what it had in hand was given back, unless the raw
  allocator did not take it;
* `Orderly` — an action that ends with nothing in hand; `Carries.bind` and its like put actions
  together;
* `PoolState.Ordered`, `Carries.onward` — a pool in order stays in order.

Resetting a pool and destroying it are not made of moves alone.
-/

namespace RegionPool

open PoolM Relation

/-- **A pool in its world, and buffers in hand**: those that came from the raw allocator, or from
the pool, and are not yet anywhere else. -/
structure Stage extends PoolState where
  hand : List Buffer

namespace Stage

/-- All buffers on a stage, as holdings: those of the pool, and those in hand. -/
def holdings (a : Stage) : List Holding := (a.pool.buffers ++ a.hand).map a.pool.holding

/-- Of a buffer, only its number counts. -/
theorem holdings_eq (a : Stage) : a.holdings =
    ((a.pool.buffers ++ a.hand).map Buffer.id).map (Holding.mk a.pool.allocator) := by
  rw [List.map_map]
  rfl

end Stage

/-- **One step of an operation.** -/
inductive Move : Stage → Stage → Prop
  /-- Something happens that does not concern memory. -/
  | told {a world} (quiet : a.world.Quiet world) : Move a { a with world }
  /-- The raw allocator grants a request. -/
  | granted {a request buffer world}
      (call : a.world.request a.pool.allocator request = (.ok buffer, world)) :
      Move a { a with world, hand := buffer :: a.hand }
  /-- The raw allocator takes a buffer back. -/
  | returned {a : Stage} {buffer hand world} (inHand : a.hand = buffer :: hand)
      (call : a.world.release a.pool.allocator buffer = (.ok (), world)) :
      Move a { a with world, hand }
  /-- The chain grows by a block that is in hand. -/
  | grown {a : Stage} {buffer hand block size offset request} (inHand : a.hand = buffer :: hand)
      (bump : (Block.ofBuffer buffer Layout.blockHeaderSize).bump? size .aligned =
        some (offset, block)) (length : buffer.length = a.pool.blockSize)
      (align : buffer.align = Layout.poolAlignment) :
      Move a
        { pool := { a.pool with chain := a.pool.chain.grow block }
          world := a.world.log (.growBlockChain a.pool.label
            (a.pool.chain.grow block).blocks.length (a.pool.chain.grow block).current request)
          hand }
  /-- A large buffer that is in hand gets a slot. -/
  | stored {a : Stage} {buffer hand large} (inHand : a.hand = buffer :: hand)
      (slot : large = a.pool.large.push buffer ∨ a.pool.large.reuse? buffer = some large) :
      Move a { a with pool := { a.pool with large }, hand }
  /-- A large buffer leaves its slot. -/
  | withdrawn {a : Stage} {id buffer large} (slot : a.pool.large.take? id = some (buffer, large)) :
      Move a { a with pool := { a.pool with large }, hand := buffer :: a.hand }
  /-- All large buffers leave their slots. -/
  | emptied {a : Stage} :
      Move a { a with
        pool := { a.pool with large := a.pool.large.emptied }
        hand := a.pool.large.buffers ++ a.hand }
  /-- A cursor moves. -/
  | moved {a : Stage} {index block} (cursor : Nat)
      (get : a.pool.chain.blocks[index]? = some block) :
      Move a { a with
        pool := { a.pool with chain := a.pool.chain.setBlock index { block with cursor } } }
  /-- Bytes are written. -/
  | wrote {a : Stage} (store : Store) (offset : Nat) (data : Bytes) :
      Move a { a with pool := a.pool.overwrite store offset data }
  /-- The cleanup records change. -/
  | recorded {a : Stage} (cleanups : CleanupStack) :
      Move a { a with pool := { a.pool with cleanups } }

/-- An entry of the log that does not tell of a growth. -/
theorem Move.logged {a : Stage} {entry : LogEntry} (h : entry.isGrowth = false) :
    Move a { a with world := a.world.log entry } :=
  .told (.log _ h)

/-- Steps of an operation, one after the other. -/
abbrev Moves : Stage → Stage → Prop := ReflTransGen Move

/-! ### What a move leaves alone -/

/-- **The traits of a pool**, which last as long as the pool does. -/
structure Pool.SameTraits (pool after : Pool) : Prop where
  id : after.id = pool.id
  generation : after.generation = pool.generation
  blockSize : after.blockSize = pool.blockSize
  max : after.max = pool.max
  allocator : after.allocator = pool.allocator
  name : after.name = pool.name

theorem Move.sameTraits {a b : Stage} (h : Move a b) : a.pool.SameTraits b.pool := by
  cases h with
  | wrote store offset data => cases store <;> exact ⟨rfl, rfl, rfl, rfl, rfl, rfl⟩
  | _ => exact ⟨rfl, rfl, rfl, rfl, rfl, rfl⟩

theorem Moves.sameTraits {a b : Stage} (h : Moves a b) : a.pool.SameTraits b.pool := by
  induction h with
  | refl => exact ⟨rfl, rfl, rfl, rfl, rfl, rfl⟩
  | tail _ hmove ih =>
    have hlast := hmove.sameTraits
    exact ⟨hlast.id.trans ih.id, hlast.generation.trans ih.generation,
      hlast.blockSize.trans ih.blockSize, hlast.max.trans ih.max,
      hlast.allocator.trans ih.allocator, hlast.name.trans ih.name⟩

theorem Move.heap {a b : Stage} (h : Move a b) : b.world.heap = a.world.heap := by
  cases h with
  | told quiet => exact quiet.heap
  | granted call => exact (congrArg (·.2.heap) call).symm.trans (World.heap_request ..)
  | returned inHand call => exact (congrArg (·.2.heap) call).symm.trans (World.heap_release ..)
  | _ => rfl

/-- The heap is the same one for as long as there is a world. -/
theorem Moves.heap {a b : Stage} (h : Moves a b) : b.world.heap = a.world.heap := by
  induction h with
  | refl => rfl
  | tail _ hmove ih => exact hmove.heap.trans ih

/-! ### Where the buffers are -/

/-- Writing to a pool changes bytes, and nothing else is different about its buffers. -/
theorem Pool.map_buffers_overwrite {β : Type} (f : Buffer → β) (pool : Pool) (store : Store)
    (offset : Nat) (data : Bytes)
    (hf : ∀ buffer : Buffer, f (buffer.overwrite offset data) = f buffer) :
    (pool.overwrite store offset data).buffers.map f = pool.buffers.map f := by
  -- whichever table the store is in, the other one is not touched
  cases store with
  | block index =>
    have hblocks : (pool.chain.overwrite index offset data).blocks.map (fun b => f b.buffer) =
        pool.chain.blocks.map (fun b => f b.buffer) :=
      Chain.map_blocks_overwrite (fun b : Block => f b.buffer) fun b => hf b.buffer
    change (pool.large.buffers ++
      (pool.chain.overwrite index offset data).blocks.map Block.buffer).map f = _
    rw [Pool.buffers, List.map_append, List.map_append, List.map_map, List.map_map]
    exact congrArg (_ ++ ·) hblocks
  | slot index =>
    change ((pool.large.overwrite index offset data).buffers ++
      pool.chain.blocks.map Block.buffer).map f = _
    rw [Pool.buffers, List.map_append, List.map_append, LargeTable.map_buffers_overwrite f hf]

/-- Writing to a pool does not change which buffers it holds. -/
theorem Pool.ids_overwrite (pool : Pool) (store : Store) (offset : Nat) (data : Bytes) :
    (pool.overwrite store offset data).buffers.map Buffer.id = pool.buffers.map Buffer.id :=
  pool.map_buffers_overwrite Buffer.id store offset data fun _ => rfl

/-- **Where the buffers are after a move.** Either none came or went; or one was granted; or one was
taken back. -/
theorem Move.holdings {a b : Stage} (h : Move a b) :
    (b.holdings.Perm a.holdings ∧ a.world.SameBooks b.world) ∨
      (∃ buffer, b.holdings.Perm (a.pool.holding buffer :: a.holdings) ∧
        a.world.Grants a.pool.allocator buffer b.world) ∨
      ∃ buffer, a.holdings.Perm (a.pool.holding buffer :: b.holdings) ∧
        a.world.TakesBack a.pool.allocator buffer b.world := by
  -- most moves do not reach the world: the same buffers are held, by others or in another order
  have hsame : ∀ w : World, w.SameBooks w := fun w => (World.Quiet.refl w).toSameBooks
  cases h with
  | told quiet => exact .inl ⟨.refl _, quiet.toSameBooks⟩
  | @granted request buffer world call =>
    exact .inr (.inl ⟨buffer, List.perm_middle.map _, World.request_ok call⟩)
  | @returned buffer hand world inHand call =>
    refine .inr (.inr ⟨buffer, ?_, World.release_ok call⟩)
    -- the buffer was in hand, and is nowhere now
    rw [Stage.holdings, inHand]
    exact List.perm_middle.map _
  | @grown buffer hand block size offset request inHand bump length align =>
    -- from the hand to the end of the chain
    have hbuffer : block.buffer = buffer := by rw [Block.eq_of_bump? bump]; rfl
    have hblocks : (a.pool.chain.grow block).blocks.map Block.buffer =
        a.pool.chain.blocks.map Block.buffer ++ [block.buffer] :=
      Chain.map_blocks_grow Block.buffer fun _ => rfl
    refine .inl ⟨List.Perm.of_eq ?_, Nat.le_refl _, rfl, fun _ => rfl, World.freed_log _ _⟩
    rw [Stage.holdings, Stage.holdings, inHand, Pool.buffers, Pool.buffers, hblocks, hbuffer]
    simp only [List.append_assoc, List.singleton_append]
    rfl
  | @stored buffer hand large inHand slot =>
    -- from the hand to a slot
    have hlarge : large.buffers.Perm (buffer :: a.pool.large.buffers) := by
      rcases slot with rfl | hreuse
      · rw [LargeTable.buffers_push]
      · exact LargeTable.buffers_reuse? hreuse
    refine .inl ⟨?_, hsame _⟩
    rw [Stage.holdings, Stage.holdings, inHand]
    refine List.Perm.map _ ?_
    calc large.buffers ++ a.pool.chain.blocks.map Block.buffer ++ hand
      _ |>.Perm (buffer :: a.pool.large.buffers ++ a.pool.chain.blocks.map Block.buffer ++ hand) :=
        (hlarge.append_right _).append_right _
      _ |>.Perm (a.pool.buffers ++ buffer :: hand) := List.perm_middle.symm
  | @withdrawn id buffer large slot =>
    -- from a slot to the hand
    have hlarge := LargeTable.buffers_take? slot
    refine .inl ⟨?_, hsame _⟩
    refine List.Perm.map _ ?_
    calc large.buffers ++ a.pool.chain.blocks.map Block.buffer ++ buffer :: a.hand
      _ |>.Perm (buffer :: (large.buffers ++ a.pool.chain.blocks.map Block.buffer ++ a.hand)) :=
        List.perm_middle
      _ |>.Perm (a.pool.buffers ++ a.hand) := ((hlarge.append_right _).append_right _).symm
  | emptied =>
    refine .inl ⟨List.Perm.map _ ?_, hsame _⟩
    rw [Pool.buffers, LargeTable.buffers_emptied, List.nil_append, Pool.buffers, List.append_assoc]
    exact List.perm_append_comm_assoc _ _ _
  | @moved index block cursor get =>
    -- a cursor is no buffer
    have hblocks : (a.pool.chain.setBlock index { block with cursor }).blocks.map Block.buffer =
        a.pool.chain.blocks.map Block.buffer := Chain.map_blocks_setBlock Block.buffer get rfl
    refine .inl ⟨List.Perm.of_eq ?_, hsame _⟩
    rw [Stage.holdings, Stage.holdings, Pool.buffers, Pool.buffers, hblocks]
    rfl
  | @wrote store offset data =>
    refine .inl ⟨List.Perm.of_eq ?_, hsame _⟩
    have hids : ((a.pool.overwrite store offset data).buffers ++ a.hand).map Buffer.id =
        (a.pool.buffers ++ a.hand).map Buffer.id := by
      rw [List.map_append, List.map_append, Pool.ids_overwrite]
    have hallocator : (a.pool.overwrite store offset data).allocator = a.pool.allocator := by
      cases store <;> rfl
    rw [Stage.holdings_eq, Stage.holdings_eq]
    dsimp only
    rw [hids, hallocator]
  | recorded cleanups => exact .inl ⟨.refl _, hsame _⟩

/-- **What can be said of every buffer on a stage** can be said of them after a move, if it can be
said of every buffer that is granted and has nothing to do with bytes. -/
theorem Move.forall_buffers {P : Buffer → Prop} {a b : Stage} (h : Move a b)
    (written : ∀ buffer offset data, P (Buffer.overwrite buffer offset data) ↔ P buffer)
    (granted : ∀ request buffer world,
      a.world.request a.pool.allocator request = (.ok buffer, world) → P buffer)
    (every : ∀ buffer ∈ a.pool.buffers ++ a.hand, P buffer) :
    ∀ buffer ∈ b.pool.buffers ++ b.hand, P buffer := by
  -- most moves only take buffers from one place to another
  have hmoved : ∀ {c : Stage}, (∀ buffer ∈ c.pool.buffers ++ c.hand,
      buffer ∈ a.pool.buffers ++ a.hand) → ∀ buffer ∈ c.pool.buffers ++ c.hand, P buffer :=
    fun hsub buffer hmem => every buffer (hsub buffer hmem)
  cases h with
  | told quiet => exact hmoved fun _ hmem => hmem
  | @granted request buffer world call =>
    intro other hmem
    rcases List.mem_cons.mp (List.perm_middle.mem_iff.mp hmem) with rfl | hold
    · exact granted _ _ _ call
    · exact every other hold
  | @returned buffer hand world inHand call =>
    refine hmoved fun other hmem => ?_
    rw [inHand]
    exact List.perm_middle.mem_iff.mpr (List.mem_cons_of_mem _ hmem)
  | @grown buffer hand block size offset request inHand bump length align =>
    have hbuffer : block.buffer = buffer := by rw [Block.eq_of_bump? bump]; rfl
    have hblocks : (a.pool.chain.grow block).blocks.map Block.buffer =
        a.pool.chain.blocks.map Block.buffer ++ [block.buffer] :=
      Chain.map_blocks_grow Block.buffer fun _ => rfl
    refine hmoved fun other hmem => ?_
    rw [inHand]
    rwa [Pool.buffers, hblocks, hbuffer, List.append_assoc, List.append_assoc,
      List.singleton_append, ← List.append_assoc] at hmem
  | @stored buffer hand large inHand slot =>
    have hlarge : large.buffers.Perm (buffer :: a.pool.large.buffers) := by
      rcases slot with rfl | hreuse
      · rw [LargeTable.buffers_push]
      · exact LargeTable.buffers_reuse? hreuse
    refine hmoved fun other hmem => ?_
    rw [inHand]
    refine List.perm_middle.mem_iff.mpr ?_
    exact ((hlarge.append_right _).append_right hand).mem_iff.mp hmem
  | @withdrawn id buffer large slot =>
    refine hmoved fun other hmem => ?_
    have hlarge := LargeTable.buffers_take? slot
    exact (((hlarge.append_right _).append_right a.hand).mem_iff.mpr
      (List.perm_middle.mem_iff.mp hmem))
  | emptied =>
    refine hmoved fun other hmem => ?_
    rw [Pool.buffers, LargeTable.buffers_emptied, List.nil_append] at hmem
    rw [Pool.buffers, List.append_assoc]
    exact (List.perm_append_comm_assoc _ _ _).mem_iff.mp hmem
  | @moved index block cursor get =>
    have hblocks : (a.pool.chain.setBlock index { block with cursor }).blocks.map Block.buffer =
        a.pool.chain.blocks.map Block.buffer := Chain.map_blocks_setBlock Block.buffer get rfl
    refine hmoved fun other hmem => ?_
    rw [Pool.buffers, hblocks] at hmem
    exact hmem
  | @wrote store offset data =>
    intro other hmem
    rcases List.mem_append.mp hmem with hpool | hhand
    · -- the same can be said of the buffers before and after
      have hholds : P other ∈ (a.pool.overwrite store offset data).buffers.map P :=
        List.mem_map_of_mem hpool
      rw [Pool.map_buffers_overwrite P _ _ _ _ fun buffer => propext (written buffer offset data)]
        at hholds
      obtain ⟨before, hbefore, heq⟩ := List.mem_map.mp hholds
      exact heq.mp (every before (List.mem_append_left _ hbefore))
    · exact every other (List.mem_append_right _ hhand)
  | recorded cleanups => exact hmoved fun _ hmem => hmem

/-! ### The books -/

section Books

variable {a b : Stage} {others : List Holding} {rest : AllocatorId → List BufferId}

/-- **A move keeps the books in order**, beside whatever others hold. -/
theorem Move.books (h : Move a b) (books : Books a.world (a.holdings ++ others) rest) :
    Books b.world (b.holdings ++ others) rest := by
  rcases h.holdings with ⟨hperm, hworld⟩ | ⟨buffer, hperm, hworld⟩ | ⟨buffer, hperm, hworld⟩
  · exact (books.same hworld).perm (hperm.symm.append_right _)
  · exact (books.granted hworld).perm (hperm.symm.append_right others)
  · exact (books.perm (hperm.append_right others)).released hworld

theorem Moves.books (h : Moves a b) (books : Books a.world (a.holdings ++ others) rest) :
    Books b.world (b.holdings ++ others) rest := by
  induction h with
  | refl => exact books
  | tail _ hmove ih => exact hmove.books ih

/-- Numbers are given in order. -/
theorem Moves.nextBuffer_le (h : Moves a b) : a.world.nextBuffer ≤ b.world.nextBuffer := by
  induction h with
  | refl => exact Nat.le_refl _
  | tail _ hmove ih =>
    refine Nat.le_trans ih ?_
    rcases hmove.holdings with ⟨-, hworld⟩ | ⟨buffer, -, hworld⟩ | ⟨buffer, -, hworld⟩
    · exact Nat.le_of_eq hworld.nextBuffer.symm
    · exact hworld.nextBuffer ▸ Nat.le_succ _
    · exact Nat.le_of_eq hworld.nextBuffer.symm

/-- **A number that nobody holds** and that was given before is never given again. -/
theorem Moves.gone (h : Moves a b) {id : BufferId} (hnumber : id.number < a.world.nextBuffer)
    (hgone : ∀ holding ∈ a.holdings, holding.id ≠ id) :
    id.number < b.world.nextBuffer ∧ ∀ holding ∈ b.holdings, holding.id ≠ id := by
  induction h with
  | refl => exact ⟨hnumber, hgone⟩
  | tail _ hmove ih =>
    obtain ⟨hlt, hnot⟩ := ih
    rcases hmove.holdings with ⟨hperm, hworld⟩ | ⟨buffer, hperm, hworld⟩ | ⟨buffer, hperm, hworld⟩
    · exact ⟨hworld.nextBuffer ▸ hlt, fun holding hmem => hnot holding (hperm.mem_iff.mp hmem)⟩
    · refine ⟨by rw [hworld.nextBuffer]; exact Nat.lt_succ_of_lt hlt, fun holding hmem => ?_⟩
      rcases List.mem_cons.mp (hperm.mem_iff.mp hmem) with rfl | hold
      · -- a granted buffer gets the next number, which is above the one that is gone
        rintro rfl
        change buffer.id.number < _ at hlt
        rw [hworld.number] at hlt
        exact Nat.lt_irrefl _ hlt
      · exact hnot holding hold
    · exact ⟨hworld.nextBuffer ▸ hlt,
        fun holding hmem => hnot holding (hperm.mem_iff.mpr (List.mem_cons_of_mem _ hmem))⟩

end Books

/-! ### Actions made of moves -/

/-- **The size of blocks**: a block has room for every request the pool serves from blocks, and for
every record it keeps there. Configurations are checked for it. -/
structure Pool.Sized (pool : Pool) : Prop where
  min : Layout.minPoolSize ≤ pool.blockSize
  max : pool.max + Layout.poolHeaderSize ≤ pool.blockSize

theorem Pool.Sized.of_sameTraits {pool after : Pool} (h : pool.Sized)
    (same : pool.SameTraits after) : after.Sized where
  min := same.blockSize ▸ h.min
  max := same.blockSize ▸ same.max ▸ h.max

/-- **How an operation gets stuck**: a buffer in hand is not taken back by the raw allocator. -/
def Stuck (a : Stage) (failure : Failure) (t : PoolState) : Prop :=
  ∃ b : Stage, Moves a b ∧ b.pool = t.pool ∧ ∃ buffer ∈ b.hand, ∃ fault,
    failure = .fault fault ∧ b.world.release b.pool.allocator buffer = (.error fault, t.world)

theorem Stuck.heap {a : Stage} {failure : Failure} {t : PoolState} (h : Stuck a failure t) :
    t.world.heap = a.world.heap := by
  obtain ⟨b, moves, -, buffer, -, fault, -, call⟩ := h
  exact ((congrArg (·.2.heap) call).symm.trans (World.heap_release ..)).trans moves.heap

/-- **How an operation ends that fails.** The buffers in hand are again those it started with, or it
got stuck. -/
def Fails (a : Stage) (hand : List Buffer) (failure : Failure) (t : PoolState) : Prop :=
  ((∀ id, failure ≠ .fault (.untrackedFree id)) ∧ Moves a ⟨t, hand⟩) ∨ Stuck a failure t

/-- **An action made of moves.** It starts with buffers in hand and ends with others, beside those
that are in hand for somebody else. -/
def Carries {α : Type} (action : PoolM α) (given kept : List Buffer) : Prop :=
  ∀ s hand, s.pool.Sized → Ends action s (fun _ t => Moves ⟨s, given ++ hand⟩ ⟨t, kept ++ hand⟩)
    (fun failure t => Fails ⟨s, given ++ hand⟩ hand failure t)

/-- **An orderly action** is made of moves, and all buffers that came into hand on the way have
found their places in the end. -/
abbrev Orderly {α : Type} (action : PoolM α) : Prop := Carries action [] []

section Orderly

variable {α β : Type} {action : PoolM α} {next : α → PoolM β} {given kept left : List Buffer}

/-- What gets stuck after some moves gets stuck. -/
theorem Stuck.of_moves {a b : Stage} {failure : Failure} {t : PoolState} (h : Stuck b failure t)
    (moves : Moves a b) : Stuck a failure t := by
  obtain ⟨stuck, hmoves, hstuck⟩ := h
  exact ⟨stuck, moves.trans hmoves, hstuck⟩

/-- What fails after some moves fails. -/
theorem Fails.of_moves {a b : Stage} {hand : List Buffer} {failure : Failure} {t : PoolState}
    (h : Fails b hand failure t) (moves : Moves a b) : Fails a hand failure t := by
  rcases h with ⟨hfailure, hmoves⟩ | hstuck
  · exact .inl ⟨hfailure, moves.trans hmoves⟩
  · exact .inr (hstuck.of_moves moves)

/-- **Nothing gets stuck while the books are in order.** -/
theorem Stuck.false_of_books {a : Stage} {failure : Failure} {t : PoolState} {others : List Holding}
    {rest : AllocatorId → List BufferId} (h : Stuck a failure t)
    (books : Books a.world (a.holdings ++ others) rest) : False := by
  obtain ⟨b, moves, -, buffer, hmem, fault, -, call⟩ := h
  -- what is in hand is held, and what is held is taken back
  have hheld : b.pool.holding buffer ∈ b.holdings :=
    List.mem_map_of_mem (List.mem_append_right _ hmem)
  have hperm := List.perm_cons_erase (List.mem_append_left others hheld)
  exact ((moves.books books).perm hperm).accepts call

/-- A refusal with nothing left in hand. -/
theorem Fails.of_refused {a : Stage} {hand : List Buffer} {t : PoolState} {error : PoolError}
    (moves : Moves a ⟨t, hand⟩) : Fails a hand (.refused error) t :=
  .inl ⟨fun _ h => (nomatch h), moves⟩

/-- Actions one after the other. -/
theorem Carries.bind (h : Carries action given kept) (hnext : ∀ a, Carries (next a) kept left) :
    Carries (action >>= next) given left := by
  intro s hand sized
  rw [ends_bind]
  refine (h s hand sized).mono (fun a t moves => ?_) fun _ _ hfails => hfails
  -- the size of blocks lasts, so the second part may rely on it as well
  have sized' := sized.of_sameTraits moves.sameTraits
  exact (hnext a t hand sized').mono (fun _ _ moves' => moves.trans moves')
    fun _ _ hfails => hfails.of_moves moves

theorem Carries.pure {a : α} : Carries (pure a : PoolM α) given given :=
  fun _ _ _ => ReflTransGen.refl

theorem Carries.map {f : α → β} (h : Carries action given kept) :
    Carries (f <$> action) given kept := by
  intro s hand sized
  rw [ends_map]
  exact h s hand sized

theorem Carries.discard (h : Carries action given kept) :
    Carries (discard action) given kept := by
  intro s hand sized
  rw [ends_discard]
  exact h s hand sized

theorem Carries.refuse {error : PoolError} : Orderly (refuse error : PoolM α) :=
  fun _ _ _ => .of_refused ReflTransGen.refl

/-- An entry of the log, unless it tells of a growth. -/
theorem Carries.log {entry : LogEntry} (h : entry.isGrowth = false) :
    Carries (log entry) given given := by
  intro s hand _
  rw [ends_log]
  exact ReflTransGen.single (.logged h)

/-- A change of the world that does not concern memory. -/
theorem Carries.modifyWorld {f : World → World} (h : ∀ w : World, w.Quiet (f w)) :
    Carries (modifyWorld f) given given := by
  intro s hand _
  rw [ends_modifyWorld]
  exact ReflTransGen.single (.told (h _))

/-- A function that changes nothing, and whose faults are not those of an allocator. -/
theorem Carries.ofPool {f : Pool → Except Failure α}
    (h : ∀ pool failure, f pool = .error failure → ∀ id, failure ≠ .fault (.untrackedFree id)) :
    Orderly (ofPool f) := by
  intro s hand _
  rw [ends_ofPool]
  refine ⟨fun _ _ => ReflTransGen.refl, fun failure hrun => ?_⟩
  exact .inl ⟨h _ failure hrun, ReflTransGen.refl⟩

/-- A function of the pool that does no more to it than some moves. -/
theorem Carries.onPool {f : Pool → Except Failure (α × Pool)}
    (h : ∀ pool failure, f pool = .error failure → ∀ id, failure ≠ .fault (.untrackedFree id))
    (hmoves : ∀ s : PoolState, ∀ a pool hand, f s.pool = .ok (a, pool) →
      Moves ⟨s, hand⟩ ⟨{ s with pool }, hand⟩) : Orderly (onPool f) := by
  intro s hand _
  rw [ends_onPool]
  exact ⟨fun a pool hrun => hmoves s a pool hand hrun,
    fun failure hrun => .inl ⟨h _ failure hrun, ReflTransGen.refl⟩⟩

end Orderly

/-! ### A pool between two operations -/

namespace PoolState

/-- **A pool is in order**: its blocks are large enough, and the books are right about its
buffers. -/
structure Ordered (s : PoolState) : Prop where
  sized : s.pool.Sized
  books : ∃ rest, Books s.world (Stage.holdings ⟨s, []⟩) rest

/-- **A pool moves on**, and is in order afterwards. -/
structure Onward (s t : PoolState) : Prop where
  moves : Moves ⟨s, []⟩ ⟨t, []⟩
  ordered : t.Ordered

/-- **A buffer is gone**: its number was given once, and the pool does not hold it. -/
structure Gone (s : PoolState) (id : BufferId) : Prop where
  given : id.number < s.world.nextBuffer
  absent : ∀ buffer ∈ s.pool.buffers, buffer.id ≠ id

variable {s t : PoolState}

theorem Onward.of_moves (ordered : s.Ordered) (moves : Moves ⟨s, []⟩ ⟨t, []⟩) : s.Onward t := by
  obtain ⟨rest, books⟩ := ordered.books
  rw [← List.append_nil (Stage.holdings _)] at books
  have hbooks := moves.books books
  rw [List.append_nil] at hbooks
  exact ⟨moves, ordered.sized.of_sameTraits moves.sameTraits, rest, hbooks⟩

/-- What is gone stays gone. -/
theorem Onward.gone (h : s.Onward t) {id : BufferId} (gone : s.Gone id) : t.Gone id := by
  have hholdings : ∀ u : PoolState, (Stage.holdings ⟨u, []⟩).map Holding.id =
      u.pool.buffers.map Buffer.id := by
    intro u
    rw [Stage.holdings, List.append_nil, List.map_map]
    rfl
  -- between two operations nothing is in hand: the holdings are the buffers of the pool
  have habsent : ∀ holding ∈ Stage.holdings ⟨s, []⟩, holding.id ≠ id := by
    intro holding hmem
    have hid := List.mem_map_of_mem (f := Holding.id) hmem
    rw [hholdings] at hid
    obtain ⟨buffer, hbuffer, heq⟩ := List.mem_map.mp hid
    exact heq ▸ gone.absent buffer hbuffer
  obtain ⟨hgiven, hafter⟩ := h.moves.gone gone.given habsent
  refine ⟨hgiven, fun buffer hmem => ?_⟩
  have hid := List.mem_map_of_mem (f := Buffer.id) hmem
  rw [← hholdings] at hid
  obtain ⟨holding, hholding, heq⟩ := List.mem_map.mp hid
  exact heq ▸ hafter holding hholding

/-- No buffer is held twice. -/
theorem Ordered.nodup (h : s.Ordered) : (s.pool.buffers.map Buffer.id).Nodup := by
  obtain ⟨rest, books⟩ := h.books
  have hnodup := books.nodup
  rw [Stage.holdings, List.append_nil, List.map_map] at hnodup
  exact hnodup

/-- The number of a buffer that is held was given. -/
theorem Ordered.given (h : s.Ordered) {buffer : Buffer} (hmem : buffer ∈ s.pool.buffers) :
    buffer.id.number < s.world.nextBuffer := by
  obtain ⟨rest, books⟩ := h.books
  exact books.known (s.pool.holding buffer)
    (List.mem_map_of_mem (List.mem_append_left [] hmem))

end PoolState

/-- **An orderly action keeps a pool in order**, and the raw allocator takes back whatever it is
given. -/
theorem Carries.onward {α : Type} {action : PoolM α} {s : PoolState} (h : Orderly action)
    (ordered : s.Ordered) : Ends action s (fun _ t => s.Onward t)
      (fun failure t => s.Onward t ∧ ∀ id, failure ≠ .fault (.untrackedFree id)) := by
  refine (h s [] ordered.sized).mono (fun _ t moves => .of_moves ordered moves)
    fun failure t hfails => ?_
  rcases hfails with ⟨hfailure, moves⟩ | hstuck
  · exact ⟨.of_moves ordered moves, hfailure⟩
  · obtain ⟨rest, books⟩ := ordered.books
    rw [← List.append_nil (Stage.holdings _)] at books
    exact (hstuck.false_of_books books).elim

end RegionPool
