import RegionPool.Proofs.Operations

/-!
# How a pool begins, is reset and ends

A pool begins with one block. A reset and a destruction give buffers back one after the other. As
long as the raw allocator takes each of them back, which it does while the books are in order,
nothing else can go wrong, and every buffer is given back exactly once.

* `Pool.Opens`, `create_ok`, `create_error` — a new pool, and a failure to make one;
* `GivesBack` — an action that gives buffers back and no more; `GivesBack.all` for a list of them;
* `reset_ends`, `reset_onward` — a reset gives the large buffers back and then frees every block;
* `destroy_ends` — a destruction gives everything back that the pool holds when it starts.
-/

namespace RegionPool

open PoolM Relation

/-! ### Creation -/

/-- **A pool opens** with one block, for which the raw allocator granted a buffer. Nothing is handed
out yet, and the block has room for what a pool keeps there. -/
structure Pool.Opens (pool : Pool) (w : World) (buffer : Buffer) (w' : World) : Prop where
  granted : w.Grants pool.allocator buffer w'
  chain : pool.chain = { blocks := [Block.ofBuffer buffer Layout.poolHeaderSize] }
  large : pool.large = {}
  generation : pool.generation = 0
  sized : pool.Sized
  length : buffer.length = pool.blockSize

namespace Pool

variable {config : PoolConfig} {allocator : AllocatorId} {w w' : World} {pool : Pool}

theorem create_ok (h : create config allocator w = (.ok pool, w')) :
    pool.allocator = allocator ∧ ∃ buffer, pool.Opens w buffer w' := by
  unfold create at h
  split at h
  · cases h
  next hvalid =>
  obtain ⟨hsize, hmax⟩ := (config.validate_eq_ok_iff).mp hvalid
  split at h
  · cases h
  next buffer world hrequest =>
  obtain ⟨hpool, rfl⟩ := Prod.mk.inj h
  obtain rfl := Except.ok.inj hpool
  have hgranted := World.request_ok hrequest
  have hheader : Layout.poolHeaderSize ≤ Layout.minPoolSize := by decide
  -- the threshold is cut down to what the first block has room for
  have hsized : config.threshold + Layout.poolHeaderSize ≤ config.size := by
    rw [PoolConfig.threshold]
    omega
  exact ⟨rfl, buffer,
    ⟨hgranted.number, hgranted.allocators, hgranted.nextBuffer, hgranted.ledger,
      (World.freed_log _ _).trans hgranted.freed, (World.growths_log _ _).trans hgranted.growths⟩,
    rfl, rfl, rfl, ⟨hsize, hsized⟩, World.length_of_request hrequest⟩

namespace Opens

variable {buffer : Buffer}

/-- What a new pool holds. -/
theorem buffers (h : pool.Opens w buffer w') : pool.buffers = [buffer] := by
  rw [Pool.buffers, h.chain, h.large]
  rfl

/-- The books stay in order when a pool opens, and it holds one buffer. -/
theorem books {held : List Holding} {rest : AllocatorId → List BufferId}
    (h : pool.Opens w buffer w') (books : Books w held rest) :
    Books w' (Stage.holdings ⟨⟨pool, w'⟩, []⟩ ++ held) rest := by
  have hholdings : Stage.holdings ⟨⟨pool, w'⟩, []⟩ = [⟨pool.allocator, buffer.id⟩] := by
    rw [Stage.holdings, h.buffers]
    rfl
  rw [hholdings]
  exact books.granted h.granted

/-- **A new pool is in order.** -/
theorem ordered (h : pool.Opens w buffer w') : (⟨pool, w'⟩ : PoolState).Ordered := by
  have hbooks := h.books (.opening w)
  rw [List.append_nil] at hbooks
  exact ⟨h.sized, _, hbooks⟩

/-- The block of a new pool is sound. -/
theorem sound (h : pool.Opens w buffer w') : ∀ block ∈ pool.chain.blocks, block.Sound := by
  intro block hmem
  rw [h.chain] at hmem
  obtain rfl := List.mem_singleton.mp hmem
  have hheader : Layout.alignUp Layout.poolHeaderSize Layout.alignment ≤ Layout.minPoolSize := by
    decide
  refine ⟨Nat.le_refl _, ?_⟩
  calc (Block.ofBuffer buffer Layout.poolHeaderSize).cursor
    _ ≤ Layout.minPoolSize := hheader
    _ ≤ buffer.length := h.length ▸ h.sized.min

end Opens

theorem create_error {error : PoolError} (h : create config allocator w = (.error error, w')) :
    w.Quiet w' := by
  unfold create at h
  split at h
  · obtain ⟨-, rfl⟩ := Prod.mk.inj h
    exact .refl w
  · split at h
    · next hrequest =>
      obtain ⟨-, rfl⟩ := Prod.mk.inj h
      exact World.request_error hrequest
    · cases h

end Pool

/-- Making a pool leaves the heap. -/
theorem Pool.heap_create {config : PoolConfig} {allocator : AllocatorId} {w w' : World}
    {pool : Pool} (h : create config allocator w = (.ok pool, w')) : w'.heap = w.heap := by
  unfold create at h
  split at h
  · cases h
  · split at h
    · cases h
    · next hrequest =>
      obtain ⟨-, rfl⟩ := Prod.mk.inj h
      exact (congrArg (·.2.heap) hrequest).symm.trans (World.heap_request ..)

variable {s : PoolState} (hand : List Buffer)

/-! ### Giving back -/

/-- **An action that gives buffers back.** It has them in hand when it starts and leaves the pool
alone; the raw allocator gets each of them, in order. It fails only if it gets stuck. -/
def GivesBack (action : PoolM Unit) (buffers : List Buffer) : Prop :=
  ∀ (s : PoolState) (hand : List Buffer), Ends action s
    (fun _ t => Moves ⟨s, buffers ++ hand⟩ ⟨t, hand⟩ ∧ t.pool = s.pool ∧
      t.world.freed = s.world.freed ++ buffers.map Buffer.id)
    (fun failure t => Stuck ⟨s, buffers ++ hand⟩ failure t)

namespace GivesBack

theorem release (buffer : Buffer) : GivesBack (release buffer) [buffer] := by
  intro s hand
  rw [ends_release]
  constructor
  · intro world call
    exact ⟨ReflTransGen.single (.returned rfl call), rfl, (World.release_ok call).freed⟩
  · intro fault world call
    exact ⟨_, .refl, rfl, buffer, List.mem_cons_self, fault, rfl, call⟩

/-- An entry of the log may come first. -/
theorem logged {action : PoolM Unit} {buffers : List Buffer} (h : GivesBack action buffers)
    (entry : LogEntry) (hentry : entry.isGrowth = false) :
    GivesBack (do log entry; action) buffers := by
  intro s hand
  let before : PoolState := { s with world := s.world.log entry }
  have hlogged : Move ⟨s, buffers ++ hand⟩ ⟨before, buffers ++ hand⟩ := .logged hentry
  rw [ends_bind, ends_log]
  refine (h before hand).mono (fun _ t ht => ?_) fun _ _ hstuck =>
    hstuck.of_moves (ReflTransGen.single hlogged)
  obtain ⟨moves, hpool, hfreed⟩ := ht
  exact ⟨(ReflTransGen.single hlogged).trans moves, hpool, hfreed.trans (by rw [World.freed_log])⟩

/-- **A list of buffers**, one after the other. -/
theorem all {ι : Type} {act : ι → PoolM Unit} {buffer : ι → Buffer}
    (hact : ∀ i, GivesBack (act i) [buffer i]) (items : List ι) :
    GivesBack (items.forM act) (items.map buffer) := by
  induction items with
  | nil => exact fun s hand => ⟨.refl, rfl, (List.append_nil _).symm⟩
  | cons i items ih =>
    intro s hand
    change Ends (act i >>= fun _ => items.forM act) _ _ _
    rw [ends_bind]
    -- the rest of the list is in hand as well while the first buffer is given back
    refine (hact i s (items.map buffer ++ hand)).mono (fun _ t ht => ?_) fun _ _ hstuck => hstuck
    obtain ⟨moves, hpool, hfreed⟩ := ht
    refine (ih t hand).mono (fun _ u hu => ?_) fun _ _ hstuck => hstuck.of_moves moves
    obtain ⟨moves', hpool', hfreed'⟩ := hu
    refine ⟨moves.trans moves', hpool'.trans hpool, ?_⟩
    rw [hfreed', hfreed, List.append_assoc]
    rfl

/-- **The large buffers** leave their slots all at once, and are then given back, newest first. -/
theorem large {act : Buffer → PoolM Unit} (hact : ∀ buffer, GivesBack (act buffer) [buffer]) :
    Ends (s.pool.large.buffers.forM act)
      { s with pool := { s.pool with large := s.pool.large.emptied } }
      (fun _ t => Moves ⟨s, hand⟩ ⟨t, hand⟩ ∧
        t.pool = { s.pool with large := s.pool.large.emptied } ∧
        t.world.freed = s.world.freed ++ s.pool.large.buffers.map Buffer.id)
      (fun failure t => Stuck ⟨s, hand⟩ failure t) := by
  let emptied : PoolState := { s with pool := { s.pool with large := s.pool.large.emptied } }
  -- the table is emptied in one step, so all its buffers are in hand meanwhile
  have hemptied : Move ⟨s, hand⟩ ⟨emptied, s.pool.large.buffers ++ hand⟩ := .emptied
  have hall := all hact s.pool.large.buffers
  rw [List.map_id'] at hall
  refine (hall emptied hand).mono (fun _ t ht => ?_) fun _ _ hstuck =>
    hstuck.of_moves (ReflTransGen.single hemptied)
  obtain ⟨moves, hpool, hfreed⟩ := ht
  exact ⟨(ReflTransGen.single hemptied).trans moves, hpool, hfreed⟩

end GivesBack

/-! ### Reset -/

namespace Pool

/-- The pool after a reset: no large buffer, every block free, and the next generation. -/
def rewound (pool : Pool) : Pool :=
  { pool with
    large := pool.large.emptied
    chain := pool.chain.reset
    generation := (pool.generation + 1) % 2 ^ (32 : Nat) }

/-- A reset pool holds its blocks, and no large buffer. -/
theorem buffers_rewound (pool : Pool) :
    pool.rewound.buffers = { pool with large := pool.large.emptied }.buffers :=
  congrArg (pool.large.emptied.buffers ++ ·)
    (Chain.map_blocks_reset Block.buffer fun _ => rfl)

/-- **A reset** gives the large buffers back, newest first. It fails only if it gets stuck. -/
theorem reset_ends :
    Ends reset s
      (fun _ t => ∃ world,
        Moves ⟨s, hand⟩ ⟨⟨{ s.pool with large := s.pool.large.emptied }, world⟩, hand⟩ ∧
          world.freed = s.world.freed ++ s.pool.large.buffers.map Buffer.id ∧
          t.pool = s.pool.rewound ∧ world.Quiet t.world)
      (fun failure t => Stuck ⟨s, hand⟩ failure t) := by
  simp only [reset, ends_bind, ends_getPool, ends_setPool, ends_log]
  refine (GivesBack.large hand .release).mono (fun _ t ht => ?_) fun _ _ hstuck => hstuck
  obtain ⟨moves, hpool, hfreed⟩ := ht
  -- all buffers are gone, and rewinding is done to the pool alone
  obtain ⟨pool, world⟩ := t
  obtain rfl : pool = _ := hpool
  exact ⟨world, moves, hfreed, rfl, .log _ rfl⟩

/-- **A reset of a pool in order** leaves it in order and cannot fail. What was gone stays gone, and
so are the large buffers. -/
theorem reset_onward (ordered : s.Ordered) :
    Ends reset s
      (fun _ t => t.Ordered ∧ t.pool = s.pool.rewound ∧ (∀ id, s.Gone id → t.Gone id) ∧
        ∀ buffer ∈ s.pool.large.buffers, t.Gone buffer.id)
      (fun _ _ => False) := by
  refine (reset_ends []).mono (fun _ t ht => ?_) fun failure t hstuck => ?_
  · obtain ⟨world, moves, -, hpool, hquiet⟩ := ht
    have onward := PoolState.Onward.of_moves ordered moves
    obtain ⟨sized, rest, books⟩ := onward.ordered
    have hbuffers : t.pool.buffers = { s.pool with large := s.pool.large.emptied }.buffers := by
      rw [hpool, buffers_rewound]
    -- what a reset pool holds are its blocks
    have hkept : t.pool.buffers = s.pool.chain.blocks.map Block.buffer := by
      rw [hbuffers, buffers, LargeTable.buffers_emptied, List.nil_append]
    refine ⟨⟨?_, rest, ?_⟩, hpool, fun id gone => ?_, fun buffer hmem => ⟨?_, ?_⟩⟩
    · exact hpool ▸ ⟨sized.min, sized.max⟩
    · have hholdings : Stage.holdings ⟨t, []⟩ =
          Stage.holdings ⟨⟨{ s.pool with large := s.pool.large.emptied }, world⟩, []⟩ := by
        rw [Stage.holdings, hbuffers, hpool]
        rfl
      rw [hholdings]
      exact books.same hquiet.toSameBooks
    · obtain ⟨hgiven, habsent⟩ := onward.gone gone
      exact ⟨hquiet.nextBuffer ▸ hgiven, hbuffers ▸ habsent⟩
    · have hgiven := ordered.given (List.mem_append_left _ hmem)
      rw [hquiet.nextBuffer]
      exact Nat.lt_of_lt_of_le hgiven moves.nextBuffer_le
    · intro other hother heq
      -- a large buffer is no block, for no buffer is held twice
      have hnodup := ordered.nodup
      rw [buffers, List.map_append] at hnodup
      exact (List.nodup_append.mp hnodup).2.2 _ (List.mem_map_of_mem hmem) _
        (List.mem_map_of_mem (hkept ▸ hother)) heq.symm
  · obtain ⟨rest, books⟩ := ordered.books
    rw [← List.append_nil (Stage.holdings _)] at books
    exact hstuck.false_of_books books

/-! ### Destruction -/

section Destroy

/-- What running cleanup records does: it is made of moves, and gives no buffer back. -/
structure Cleans (s t : PoolState) (hand : List Buffer) : Prop where
  moves : Moves ⟨s, hand⟩ ⟨t, hand⟩
  freed : t.world.freed = s.world.freed
  ids : t.pool.buffers.map Buffer.id = s.pool.buffers.map Buffer.id

variable {hand}

namespace Cleans

variable {t u : PoolState}

theorem refl (s : PoolState) : Cleans s s hand := ⟨.refl, rfl, rfl⟩

theorem trans (h : Cleans s t hand) (h' : Cleans t u hand) : Cleans s u hand :=
  ⟨h.moves.trans h'.moves, h'.freed.trans h.freed, h'.ids.trans h.ids⟩

/-- Something happens that does not concern memory. -/
theorem told {world : World} (quiet : s.world.Quiet world) : Cleans s { s with world } hand :=
  ⟨ReflTransGen.single (.told quiet), quiet.freed, rfl⟩

/-- An action writes to the bytes of its record. -/
theorem wrote (store : Store) (offset : Nat) (data : Bytes) :
    Cleans s { s with pool := s.pool.overwrite store offset data } hand :=
  ⟨ReflTransGen.single (.wrote store offset data), rfl, ids_overwrite _ _ _ _⟩

end Cleans

/-- **Running an action** does not fail. -/
theorem runAction_ends (data : Option Region) (action : CleanupAction) :
    Ends (runAction data action) s (fun _ t => Cleans s t hand) (fun _ _ => False) := by
  have htold : ∀ bytes tag, s.world.Quiet (s.world.emit (.ranWithData tag bytes)) :=
    fun _ _ => .emit _ nofun nofun
  cases action with
  | custom tag =>
    have hquiet : s.world.Quiet (s.world.emit (.ranCustom tag)) := .emit _ nofun nofun
    exact Cleans.told hquiet
  | file file => exact Cleans.told (World.quiet_releaseFile _ file)
  | withData tag content =>
    simp only [runAction, ends_bind, ends_getPool]
    -- an action whose data is gone is told of no bytes, and nothing is written
    split
    · exact Cleans.told (htold _ _)
    · next store offset bytes _ =>
      simp only [ends_bind, ends_modifyWorld, ends_setPool]
      exact (Cleans.told (htold bytes tag)).trans (.wrote _ _ _)

variable (hand)

/-- **Running the cleanup records** does not fail. -/
theorem runCleanups_ends :
    Ends runCleanups s (fun _ t => Cleans s t hand) (fun _ _ => False) := by
  -- records without an action are passed by
  have hrecord : ∀ (record : CleanupRecord) s,
      Ends (runRecord record) s (fun _ t => Cleans s t hand) (fun _ _ => False) := by
    intro record s
    rw [runRecord]
    split
    · exact .refl s
    · simp only [ends_bind, ends_getPool, ends_log]
      exact (runAction_ends _ _).mono (fun _ t ht => (Cleans.told (.log _ rfl)).trans ht)
        fun _ _ h => h
  -- the state is general, for each record finds what the ones before it have left
  have hall : ∀ (records : List CleanupRecord) s,
      Ends (records.forM runRecord) s (fun _ t => Cleans s t hand) (fun _ _ => False) := by
    intro records
    induction records with
    | nil => exact fun s => .refl s
    | cons record records ih =>
      intro s
      change Ends (runRecord record >>= fun _ => records.forM runRecord) _ _ _
      rw [ends_bind]
      exact (hrecord record s).mono (fun _ t ht => (ih t).mono (fun _ _ hu => ht.trans hu)
        fun _ _ h => h) fun _ _ h => h
  have hfirst : Cleans s { s with pool := { s.pool with cleanups := {} } } hand :=
    ⟨ReflTransGen.single (.recorded {}), rfl, rfl⟩
  simp only [runCleanups, ends_bind, ends_getPool, ends_setPool]
  exact (hall _ _).mono (fun _ _ ht => hfirst.trans ht) fun _ _ h => h

/-- The large buffers are given back, newest first. -/
theorem releaseLarge_ends :
    Ends releaseLarge s
      (fun _ t => Moves ⟨s, hand⟩ ⟨t, hand⟩ ∧
        t.pool = { s.pool with large := s.pool.large.emptied } ∧
        t.world.freed = s.world.freed ++ s.pool.large.buffers.map Buffer.id)
      (fun failure t => Stuck ⟨s, hand⟩ failure t) := by
  simp only [releaseLarge, ends_bind, ends_getPool, ends_setPool]
  exact GivesBack.large hand fun buffer =>
    (GivesBack.release buffer).logged (.freeLarge s.pool.label buffer.id) rfl

/-- A stage on which the blocks have left the pool and are in hand. -/
def dismantled (s : PoolState) (hand : List Buffer) : Stage where
  pool := { s.pool with chain := { blocks := [] } }
  world := s.world
  hand := s.pool.chain.blocks.map Block.buffer ++ hand

/-- A buffer that leaves the pool is in hand. -/
theorem holdings_dismantled (s : PoolState) (hand : List Buffer) :
    (dismantled s hand).holdings = Stage.holdings ⟨s, hand⟩ := by
  refine congrArg (List.map s.pool.holding) ?_
  calc s.pool.large.buffers ++ [] ++ (s.pool.chain.blocks.map Block.buffer ++ hand)
    _ = s.pool.buffers ++ hand := by rw [List.append_nil, ← List.append_assoc, ← buffers]

/-- The blocks are given back, oldest first. -/
theorem releaseBlocks_ends :
    Ends releaseBlocks s
      (fun _ t => Moves (dismantled s hand) ⟨t, hand⟩ ∧
        t.pool = { s.pool with chain := { blocks := [] } } ∧
        t.world.freed = s.world.freed ++ s.pool.chain.blocks.map fun block => block.buffer.id)
      (fun failure t => Stuck (dismantled s hand) failure t) := by
  simp only [releaseBlocks, ends_bind, ends_getPool, ends_setPool]
  have hblock : ∀ block : Block, GivesBack
      (do log (.freeBlock s.pool.label block.stats.unused); release block.buffer)
      [block.buffer] := fun block => (GivesBack.release block.buffer).logged _ rfl
  have hall := GivesBack.all hblock s.pool.chain.blocks
    { s with pool := { s.pool with chain := { blocks := [] } } } hand
  rw [List.map_map] at hall
  exact hall

/-- **A destruction** gives every buffer back that the pool holds when it starts, each once: the
large ones, newest first, and then those of the blocks. It fails only if it gets stuck. -/
theorem destroy_ends :
    Ends destroy s
      (fun _ t => ∃ u : PoolState, Moves ⟨s, hand⟩ ⟨u, hand⟩ ∧ Moves (dismantled u hand) ⟨t, hand⟩ ∧
        t.pool.buffers = [] ∧ t.world.freed = s.world.freed ++ s.pool.buffers.map Buffer.id)
      (fun failure t => Stuck ⟨s, hand⟩ failure t ∨
        ∃ u : PoolState, Moves ⟨s, hand⟩ ⟨u, hand⟩ ∧ Stuck (dismantled u hand) failure t) := by
  simp only [destroy, ends_bind, ends_getPool, ends_log]
  let entry : LogEntry := .destroyPool s.pool.label s.pool.id.text
  have hlogged : Move ⟨s, hand⟩ ⟨{ s with world := s.world.log entry }, hand⟩ := .logged rfl
  refine (runCleanups_ends hand).mono (fun _ t₁ h₁ => ?_) fun _ _ h => h.elim
  have moves₁ := (ReflTransGen.single hlogged).trans h₁.moves
  refine (releaseLarge_ends hand).mono (fun _ t₂ h₂ => ?_) fun _ _ hstuck =>
    .inl (hstuck.of_moves moves₁)
  obtain ⟨moves₂, hpool₂, hfreed₂⟩ := h₂
  refine (releaseBlocks_ends hand).mono (fun _ t₃ h₃ => ?_) fun _ _ hstuck =>
    .inr ⟨t₂, moves₁.trans moves₂, hstuck⟩
  obtain ⟨moves₃, hpool₃, hfreed₃⟩ := h₃
  refine ⟨t₂, moves₁.trans moves₂, moves₃, ?_, ?_⟩
  · rw [hpool₃, hpool₂]
    exact congrArg (· ++ []) (LargeTable.buffers_emptied _)
  · -- The cleanup actions leave the numbers of the buffers alone.
    have hblocks : t₂.pool.chain.blocks.map (fun block => block.buffer.id) =
        (t₁.pool.chain.blocks.map Block.buffer).map Buffer.id := by
      rw [hpool₂, List.map_map]
      rfl
    have hfreed₁ : t₁.world.freed = s.world.freed := h₁.freed.trans (World.freed_log _ _)
    rw [hfreed₃, hfreed₂, hfreed₁, hblocks, List.append_assoc, ← List.map_append, ← Pool.buffers,
      h₁.ids]

end Destroy

end Pool

end RegionPool
