import RegionPool.Proofs.Marks

/-!
# A little at a time, or all at once

A caller who does not know yet how much it needs may ask for a little and lengthen the region where
it is, again and again. While every lengthening succeeds, it is left with what it would have got by
asking for the whole amount at once: the same region in the same pool.

The two ways run through different code, and meet because more bytes never fit where fewer do not.
A block that had no room for the small request has none for the large one, so the search passes the
same blocks. The block it stopped at has room for the large request as well, for the lengthenings
succeeded there. And if no block had room for the small request, the chain grows either way, by a
block of the same size, with the same failures counted. Only the log can tell: it says how much was
asked for when a chain grew.

* `World.unsized`, `Session.unsized` — all there is, but for these amounts in the log;
* `Chain.isLeast_roomy_add` — the search for more ends at the same block;
* `Pool.growFor_of_call` — growing, as an equation;
* `Pool.allocWith_of_extend` — one lengthening less, and a larger request instead;
* `Session.AllAtOnce`, `Session.run_lengthens` — any number of them, after any history.
-/

namespace RegionPool

open PoolM

/-! ### What the log says of amounts -/

/-- An entry of the log without the amount that a chain grew for. -/
def LogEntry.unsized : LogEntry → LogEntry
  | growBlockChain label blocks current _ => growBlockChain label blocks current 0
  | entry => entry

/-- An event without the amount that a chain grew for. -/
def Event.unsized : Event → Event
  | logged entry => logged entry.unsized
  | event => event

/-- **A world without the amounts in its log.** Everything else is there: the heap and the raw
allocators, the counters, the files, and all events in their order. -/
def World.unsized (w : World) : World := { w with events := w.events.map Event.unsized }

/-- **A session without the amounts in the log of its world.** -/
def Session.unsized (s : Session) : Session := { s with world := s.world.unsized }

/-- Calls to raw allocators do not depend on the log. -/
theorem World.rawCalls_unsized (w : World) : w.unsized.rawCalls = w.rawCalls := by
  have hcall : ∀ event : Event, event.unsized.isRawCall = event.isRawCall := by
    intro event
    cases event <;> rfl
  -- only entries of the log are stripped of anything, and they are no calls
  have hsame : ∀ event ∈ w.rawCalls, event.unsized = event := by
    intro event hmem
    obtain ⟨-, hraw⟩ := List.mem_filter.mp hmem
    cases event with
    | logged entry => cases hraw
    | _ => rfl
  calc w.unsized.rawCalls
      = (w.events.filter (Event.isRawCall ∘ Event.unsized)).map Event.unsized := List.filter_map
    _ = w.rawCalls.map Event.unsized := by
        rw [show Event.isRawCall ∘ Event.unsized = Event.isRawCall from funext hcall]
        rfl
    _ = w.rawCalls := List.map_congr_left hsame |>.trans (List.map_id _)

/-! ### First fit for more -/

namespace Chain

variable {chain : Chain} {packing : Packing} {size n index : Nat} {block : Block}

/-- A block with room for more has room for less. -/
theorem roomy_add_subset : chain.roomy packing (size + n) ⊆ chain.roomy packing size := by
  rintro index ⟨hle, block, get, room⟩
  unfold Block.HasRoom at room
  refine ⟨hle, block, get, ?_⟩
  unfold Block.HasRoom
  omega

/-- **The search for more ends at the same block** if that has room for it. -/
theorem isLeast_roomy_add (first : IsLeast (chain.roomy packing size) index)
    (get : chain.blocks[index]? = some block) (room : block.HasRoom packing (size + n)) :
    IsLeast (chain.roomy packing (size + n)) index := by
  obtain ⟨⟨hle, -⟩, hleast⟩ := first
  exact ⟨⟨hle, block, get, room⟩, fun _ hmem => hleast (roomy_add_subset hmem)⟩

/-- Replacing a block twice. -/
theorem setBlock_setBlock (chain : Chain) (index : Nat) (moved moved' : Block) :
    (chain.setBlock index moved).setBlock index moved' = chain.setBlock index moved' := by
  unfold setBlock
  rw [List.set_set]

/-- Replacing the block that a chain grew by. -/
theorem setBlock_grow (chain : Chain) (block moved : Block) :
    (chain.grow block).setBlock chain.blocks.length moved = chain.grow moved := by
  unfold setBlock grow
  refine congrArg (fun blocks => ({ blocks, current := chain.nextStart } : Chain)) ?_
  rw [List.set_append_right _ _ (by rw [List.length_mapIdx]), List.length_mapIdx, Nat.sub_self]
  rfl

end Chain

/-! ### Growing for more -/

/-- A new block in which the first `size` bytes behind the header are handed out. -/
def Block.opened (buffer : Buffer) (size : Nat) : Block where
  buffer := buffer
  start := Layout.blockHeaderSize
  cursor := Layout.blockHeaderSize + size
  failed := 0

/-- **The chain has grown** by a buffer, for a request of `size` bytes. -/
def PoolState.grown (s : PoolState) (buffer : Buffer) (world : World) (size : Nat) : PoolState where
  pool := { s.pool with chain := s.pool.chain.grow (.opened buffer size) }
  world := world.log
    (.growBlockChain s.pool.label (s.pool.blockCount + 1) s.pool.chain.nextStart size)

/-- What grew for different amounts differs in one log entry. -/
theorem PoolState.unsized_grown (s : PoolState) (buffer : Buffer) (world : World) (size n : Nat) :
    (s.grown buffer world size).world.unsized = (s.grown buffer world n).world.unsized := by
  refine congrArg (fun events => ({ world with events } : World)) ?_
  change (world.events ++ [_]).map Event.unsized = (world.events ++ [_]).map Event.unsized
  rw [List.map_append, List.map_append]
  rfl

namespace Pool

variable {s t : PoolState} {packing : Packing} {size n : Nat} {region longer : Region}
  {buffer : Buffer} {world : World} {after : Pool}

/-- **Growing** by a block that is granted goes through if the request has room in it. -/
theorem growFor_of_call
    (call : s.world.request s.pool.allocator (.memalign Layout.poolAlignment s.pool.blockSize) =
      (.ok buffer, world)) :
    growFor size s =
      if Layout.blockHeaderSize + size ≤ buffer.length then
        .ok (s.pool.regionAt size (.block s.pool.blockCount Layout.blockHeaderSize))
          (s.grown buffer world size)
      else .error (.refused .sizeOverflow) { s with world } := by
  have hget : getPool s = .ok s.pool s := rfl
  have hrequest : request (.memalign Layout.poolAlignment s.pool.blockSize) s =
      .ok buffer { s with world } := by
    rw [request, call]
  rw [growFor, bind_of_ok hget, bind_of_ok hrequest]
  split
  · next room =>
    have hbump : (Block.ofBuffer buffer Layout.blockHeaderSize).bump? size .aligned =
        some (Layout.blockHeaderSize, .opened buffer size) :=
      Block.bump?_eq_some_iff.mpr ⟨Block.target?_ofBuffer buffer, room, rfl⟩
    -- the new block is the last one, and that is where the region lies
    have hcount : (s.pool.chain.grow (.opened buffer size)).blocks.length =
        s.pool.blockCount + 1 := Chain.length_blocks_grow _ _
    rw [hbump]
    unfold PoolState.grown
    rw [← hcount, ← Nat.add_sub_cancel (n := s.pool.blockCount) (m := 1), ← hcount]
    rfl
  · next full =>
    have hbump : (Block.ofBuffer buffer Layout.blockHeaderSize).bump? size .aligned = none := by
      rw [Block.bump?, Block.target?_ofBuffer]
      exact if_neg full
    rw [hbump]
    rfl

/-- If no block has room, the chain grows. -/
theorem allocSmall_of_roomy_eq_empty (regular : s.pool.Regular)
    (full : s.pool.chain.roomy packing size = ∅) :
    allocSmall size packing s = growFor size s := by
  have hget : getPool s = .ok s.pool s := rfl
  rw [allocSmall, bind_of_ok hget, Chain.claim?_of_roomy_eq_empty regular full]

/-! ### One lengthening less -/

/-- **A region in the first block with room**, lengthened there, is what a larger request claims. -/
private theorem allocSmall_of_extend_fitted {index : Nat} {block : Block} (regular : s.pool.Regular)
    (first : IsLeast (s.pool.chain.roomy packing size) index)
    (get : s.pool.chain.blocks[index]? = some block)
    (run : allocSmall size packing s = .ok region t)
    (lengthened : t.pool.extend region n = .ok (some longer, after)) :
    allocSmall (size + n) packing s = .ok longer ⟨after, t.world⟩ := by
  obtain ⟨rfl, rfl⟩ := EStateM.Result.ok.inj
    (run.symm.trans (allocSmall_of_isLeast regular first get))
  rcases extend_eq_ok lengthened with ⟨hnone, -⟩ | ⟨other, found, place, hfound, -, hmore, hlonger,
    rfl⟩
  · cases hnone
  obtain ⟨rfl, -⟩ := Place.block.inj place
  -- the block that was claimed from, with its cursor behind the region
  obtain rfl : block.filled packing size = found := by
    have hset : (s.pool.chain.setBlock index (block.filled packing size)).blocks[index]? =
        some (block.filled packing size) :=
      (Chain.getElem?_blocks_setBlock get index).trans (if_pos rfl)
    exact Option.some.inj (hset.symm.trans hfound)
  have room : block.HasRoom packing (size + n) := by
    obtain ⟨⟨-, same, hsame, hroom⟩, -⟩ := first
    obtain rfl := Option.some.inj (get.symm.trans hsame)
    change block.spot packing + size ≤ block.limit at hroom
    change n ≤ block.limit - (block.spot packing + size) at hmore
    change block.spot packing + (size + n) ≤ block.limit
    omega
  have hmoved : { block.filled packing size with
      cursor := (block.filled packing size).cursor + n } = block.filled packing (size + n) := by
    unfold Block.filled
    rw [Nat.add_assoc]
  rw [allocSmall_of_isLeast regular (Chain.isLeast_roomy_add first get room) get, hmoved,
    Chain.setBlock_setBlock, Option.some.inj hlonger]
  rfl

/-- **A region in a block that the chain grew by**, lengthened there, is what a larger request
grows the chain for. -/
private theorem growFor_of_extend (run : growFor size s = .ok region t)
    (lengthened : t.pool.extend region n = .ok (some longer, after)) :
    ∃ world, growFor (size + n) s = .ok longer ⟨after, world⟩ ∧
      world.unsized = t.world.unsized := by
  -- both requests get the same buffer, since all blocks are of one size
  obtain ⟨⟨-, -, -, buffer, world, call, -, -⟩, -⟩ := growFor_appends.ok_of run
  rw [growFor_of_call call] at run
  split at run
  · next hroom =>
    obtain ⟨rfl, rfl⟩ := EStateM.Result.ok.inj run
    rcases extend_eq_ok lengthened with ⟨hnone, -⟩ | ⟨other, found, place, hfound, -, hmore,
      hlonger, rfl⟩
    · cases hnone
    obtain ⟨rfl, -⟩ := Place.block.inj place
    obtain rfl : Block.opened buffer size = found :=
      Option.some.inj (Chain.getElem?_blocks_grow_self.symm.trans hfound)
    have room : Layout.blockHeaderSize + (size + n) ≤ buffer.length := by
      change n ≤ buffer.length - (Layout.blockHeaderSize + size) at hmore
      omega
    have hmoved : { Block.opened buffer size with
        cursor := (Block.opened buffer size).cursor + n } = Block.opened buffer (size + n) := by
      unfold Block.opened
      rw [Nat.add_assoc]
    refine ⟨(s.grown buffer world (size + n)).world, ?_, s.unsized_grown ..⟩
    have hchain : (s.grown buffer world size).pool.chain.setBlock s.pool.blockCount
        (.opened buffer (size + n)) = s.pool.chain.grow (.opened buffer (size + n)) :=
      Chain.setBlock_grow ..
    rw [growFor_of_call call, if_pos room, hmoved, hchain, Option.some.inj hlonger]
    rfl
  · cases run

/-- **One lengthening less, and a larger request instead.** -/
theorem allocWith_of_extend (regular : s.pool.Regular) (small : size + n ≤ s.pool.max)
    (run : allocWith packing size s = .ok region t)
    (lengthened : t.pool.extend region n = .ok (some longer, after)) :
    ∃ world, allocWith packing (size + n) s = .ok longer ⟨after, world⟩ ∧
      world.unsized = t.world.unsized := by
  have hsmall : size ≤ s.pool.max := Nat.le_trans (Nat.le_add_right size n) small
  rw [allocWith_of_le hsmall] at run
  rw [allocWith_of_le small]
  rcases s.pool.chain.roomy_eq_empty_or_exists_isLeast packing size with
    full | ⟨index, block, first, get⟩
  · -- no room for less, so none for more
    have hfull : s.pool.chain.roomy packing (size + n) = ∅ :=
      Set.subset_eq_empty Chain.roomy_add_subset full
    rw [allocSmall_of_roomy_eq_empty regular full] at run
    rw [allocSmall_of_roomy_eq_empty regular hfull]
    exact growFor_of_extend run lengthened
  · exact ⟨t.world, allocSmall_of_extend_fitted regular first get run lengthened, rfl⟩

end Pool

/-! ### In every history -/

namespace Session

/-- **A little at a time**: once a request has been served, its region is lengthened by one amount
after the other. -/
def piecemeal (s : Session) (slot : Nat) (packing : Packing) (size : Nat) (increments : List Nat) :
    List Reply × Session :=
  (s.exec (packing.command slot size)).2.run (increments.map (.extend slot s.regions.length))

/-- **All at once**: a single request for all the bytes is served and leads to the same session, but
for the amounts in the log, with the same calls to the raw allocators. -/
structure AllAtOnce (s : Session) (slot : Nat) (packing : Packing) (size : Nat)
    (increments : List Nat) : Prop where
  served : (s.exec (packing.command slot (size + increments.sum))).1 = .region s.regions.length
  same : (s.exec (packing.command slot (size + increments.sum))).2.unsized =
    (s.piecemeal slot packing size increments).2.unsized
  calls : (s.exec (packing.command slot (size + increments.sum))).2.world.rawCalls =
    (s.piecemeal slot packing size increments).2.world.rawCalls

variable {s : Session} {slot size index n : Nat} {packing : Packing} {pool : Pool}
  {increments : List Nat}

/-- **Lengthening a region** has nothing to do with the log. -/
theorem exec_extend_unsized (s : Session) (slot index n : Nat) :
    s.unsized.exec (.extend slot index n) =
      ((s.exec (.extend slot index n)).1, (s.exec (.extend slot index n)).2.unsized) := by
  change s.unsized.extend slot index n =
    ((s.extend slot index n).1, (s.extend slot index n).2.unsized)
  have hregion : s.unsized.region? index = s.region? index := rfl
  have hpool : s.unsized.pool? slot = s.pool? slot := rfl
  -- nothing on the way to the reply looks at the log
  unfold extend perform
  rw [hregion, hpool]
  cases s.region? index with
  | none => rfl
  | some region =>
    cases s.pool? slot with
    | none => rfl
    | some pool =>
      simp only [withFound, onPool]
      cases pool.extend region n with
      | error failure => rfl
      | ok result =>
        obtain ⟨extended, after⟩ := result
        cases extended <;> rfl

/-- Nor has doing so again and again. -/
theorem run_extends_unsized (s : Session) (slot index : Nat) (increments : List Nat) :
    s.unsized.run (increments.map (.extend slot index)) =
      ((s.run (increments.map (.extend slot index))).1,
        (s.run (increments.map (.extend slot index))).2.unsized) := by
  induction increments generalizing s with
  | nil => rfl
  | cons n increments ih =>
    rw [List.map_cons, run_cons, run_cons, exec_extend_unsized, ih]

/-- **A region that was lengthened**, with the longer one in its slot. -/
theorem exec_lengthened {region : Region} {length : Nat} (here : s.pool? slot = some pool)
    (held : s.region? index = some region)
    (lengthened : (s.exec (.extend slot index n)).1 = .extended true length) :
    ∃ longer after, pool.extend region n = .ok (some longer, after) ∧
      (s.exec (.extend slot index n)).2 =
        (s.settle slot ⟨after, s.world⟩).setRegion index longer := by
  change (s.extend slot index n).1 = _ at lengthened
  change ∃ longer after, _ ∧ (s.extend slot index n).2 = _
  unfold extend perform at lengthened ⊢
  rw [held, here] at lengthened ⊢
  simp only [withFound, onPool] at lengthened ⊢
  cases run : pool.extend region n with
  | error failure =>
    rw [run] at lengthened
    cases lengthened
  | ok result =>
    obtain ⟨extended, after⟩ := result
    rw [run] at lengthened
    cases extended with
    | none => cases lengthened
    | some longer => exact ⟨longer, after, rfl, rfl⟩

/-- **One lengthening less**: the request is larger instead, and what comes of it is the same but
for the log. -/
theorem exec_packing_add {length : Nat} (here : s.pool? slot = some pool) (regular : pool.Regular)
    (small : size + n ≤ pool.max)
    (claimed : (s.exec (packing.command slot size)).1 = .region s.regions.length)
    (lengthened : ((s.exec (packing.command slot size)).2.exec
      (.extend slot s.regions.length n)).1 = .extended true length) :
    (s.exec (packing.command slot (size + n))).1 = .region s.regions.length ∧
      (s.exec (packing.command slot (size + n))).2.unsized =
        ((s.exec (packing.command slot size)).2.exec
          (.extend slot s.regions.length n)).2.unsized := by
  obtain ⟨region, t, run, hsession⟩ := exec_claimed here claimed
  rw [hsession] at lengthened ⊢
  have hthere : ({ s.settle slot t with regions := s.regions ++ [region] } : Session).pool? slot =
      some t.pool := pool?_settle_self here t
  have hheld : ({ s.settle slot t with regions := s.regions ++ [region] } : Session).region?
      s.regions.length = some region := List.getElem?_concat_length
  obtain ⟨longer, after, hextend, hlonger⟩ := exec_lengthened hthere hheld lengthened
  obtain ⟨world, run', hworld⟩ := Pool.allocWith_of_extend regular small run hextend
  have hexec : s.exec (packing.command slot (size + n)) =
      (.region s.regions.length,
        { s.settle slot ⟨after, world⟩ with regions := s.regions ++ [longer] }) := by
    rw [exec_packing]
    unfold allocate perform
    rw [here]
    simp only [withFound, run']
    rfl
  refine ⟨by rw [hexec], ?_⟩
  -- the longer region took the slot of the shorter one
  have hregions : (s.regions ++ [region]).set s.regions.length longer = s.regions ++ [longer] := by
    rw [List.set_append_right _ _ (Nat.le_refl _), Nat.sub_self]
    rfl
  have hpools : (s.pools.set slot (some t.pool)).set slot (some after) =
      s.pools.set slot (some after) := List.set_set ..
  rw [hexec, hlonger]
  unfold setRegion settle setPool unsized
  dsimp only
  rw [hregions, hpools, hworld]

/-- **Any number of lengthenings**, one after the other. -/
theorem allAtOnce (here : s.pool? slot = some pool) (regular : pool.Regular)
    (small : size + increments.sum ≤ pool.max)
    (claimed : (s.exec (packing.command slot size)).1 = .region s.regions.length)
    (lengthened : ∀ reply ∈ (s.piecemeal slot packing size increments).1,
      ∃ length, reply = .extended true length) :
    s.AllAtOnce slot packing size increments := by
  have hboth : (s.exec (packing.command slot (size + increments.sum))).1 =
        .region s.regions.length ∧
      (s.exec (packing.command slot (size + increments.sum))).2.unsized =
        (s.piecemeal slot packing size increments).2.unsized := by
    unfold piecemeal at lengthened ⊢
    -- one increment after the other moves from the lengthenings to the request
    induction increments generalizing size with
    | nil => exact ⟨claimed, rfl⟩
    | cons n increments ih =>
      rw [List.sum_cons, ← Nat.add_assoc] at small ⊢
      rw [List.map_cons, run_cons] at lengthened ⊢
      obtain ⟨⟨length, hlength⟩, hrest⟩ := List.forall_mem_cons.mp lengthened
      have hsmall : size + n ≤ pool.max := Nat.le_trans (Nat.le_add_right _ _) small
      obtain ⟨hclaimed, hsame⟩ := exec_packing_add here regular hsmall claimed hlength
      -- from here on the two sessions differ in the log only, which lengthening does not look at
      have hruns := congrArg
        (fun session => session.run (increments.map (.extend slot s.regions.length))) hsame
      simp only [run_extends_unsized] at hruns
      obtain ⟨hreplies, hafter⟩ := Prod.mk.inj hruns
      obtain ⟨hreply, hend⟩ := ih small hclaimed (hreplies ▸ hrest)
      exact ⟨hreply, hend.trans hafter⟩
  obtain ⟨hreply, hsame⟩ := hboth
  refine ⟨hreply, hsame, ?_⟩
  have hcalls := congrArg (fun session => session.world.rawCalls) hsame
  change World.rawCalls (World.unsized _) = World.rawCalls (World.unsized _) at hcalls
  rwa [World.rawCalls_unsized, World.rawCalls_unsized] at hcalls

/-- **A little at a time, or all at once**, in every pool of every history: if a request is served
and its region is lengthened at once, any number of times, never in vain and not above the threshold
altogether, then a single request does as well. -/
theorem run_lengthens {heap : Heap} {history : List Command}
    (here : ((Session.ofHeap heap).run history).2.pool? slot = some pool)
    (small : size + increments.sum ≤ pool.max)
    (claimed : (((Session.ofHeap heap).run history).2.exec (packing.command slot size)).1 =
      .region ((Session.ofHeap heap).run history).2.regions.length)
    (lengthened :
      ∀ reply ∈ (((Session.ofHeap heap).run history).2.piecemeal slot packing size increments).1,
        ∃ length, reply = .extended true length) :
    ((Session.ofHeap heap).run history).2.AllAtOnce slot packing size increments := by
  have regular : pool.Regular :=
    ((Measured.ofHeap heap).run (.ofHeap heap)).regular (Vouched.ofHeap heap).run here
  exact allAtOnce here regular small claimed lengthened

/-- The first block of a pool ends inside a word and has little room left. -/
def tightHistory : List Command :=
  [.createPool { size := 251 } none, .alloc 0 100, .allocUnaligned 0 21]

/-- One region grows in the first block, one in a block that the chain grew by for it. -/
theorem run_lengthens_tightHistory :
    ((Session.ofHeap roomyHeap).run tightHistory).2.AllAtOnce 0 .packed 2 [3, 0, 20] ∧
      ((Session.ofHeap roomyHeap).run tightHistory).2.AllAtOnce 0 .aligned 60 [1, 8] := by
  have present : (((Session.ofHeap roomyHeap).run tightHistory).2.pool? 0).isSome := by
    decide +kernel
  obtain ⟨pool, here⟩ := Option.isSome_iff_exists.mp present
  -- both regions are small in their longest form
  have threshold : ∀ pool ∈ ((Session.ofHeap roomyHeap).run tightHistory).2.pool? 0,
      2 + [3, 0, 20].sum ≤ pool.max ∧ 60 + [1, 8].sum ≤ pool.max := by
    decide +kernel
  obtain ⟨hpacked, haligned⟩ := threshold pool here
  constructor
  · refine run_lengthens here hpacked (by decide +kernel) fun reply hreply => ?_
    have hreplies : (((Session.ofHeap roomyHeap).run tightHistory).2.piecemeal 0 .packed 2
        [3, 0, 20]).1 = [.extended true 5, .extended true 5, .extended true 25] := by
      decide +kernel
    rw [hreplies] at hreply
    simp only [List.mem_cons, List.not_mem_nil, or_false] at hreply
    rcases hreply with rfl | rfl | rfl <;> exact ⟨_, rfl⟩
  · refine run_lengthens here haligned (by decide +kernel) fun reply hreply => ?_
    have hreplies : (((Session.ofHeap roomyHeap).run tightHistory).2.piecemeal 0 .aligned 60
        [1, 8]).1 = [.extended true 61, .extended true 69] := by
      decide +kernel
    rw [hreplies] at hreply
    simp only [List.mem_cons, List.not_mem_nil, or_false] at hreply
    rcases hreply with rfl | rfl <;> exact ⟨_, rfl⟩

end Session

end RegionPool
