import RegionPool.Proofs.Calls
import RegionPool.Proofs.Operations
import RegionPool.Proofs.Sites

/-!
# What comes of a request for memory

A request to a pool is served or refused. If it is served, the pool houses the region that it hands
out, and every site is where it was. If it is refused, it is for want of memory: the pool is the one
it was before, what was granted on the way was given back, and the reason is one that the raw
allocator gave. Nothing else can come of a request, since a new block has room for what it is made
for (`Pool.exists_bump?`) and a buffer in hand is one that the ledger lists.

* `PoolState.Supplies`, `PoolState.Declines` — the two outcomes, with the calls to the raw allocator
  that were made;
* `allocSmall_ends`, `enterLarge_ends`, `allocLarge_ends` — the ways of allocation;
* `allocWith_ends`, `allocZeroed_ends`, `allocAlignedTo_ends` — the allocations of a caller;
* `addCleanup_ends` — a cleanup record and its bytes.
-/

namespace RegionPool

open PoolM

namespace PoolState

/-- **A request is served**, with these calls to the raw allocator. -/
structure Supplies (s : PoolState) (region : Region) (calls : List RawCall) (t : PoolState) :
    Prop where
  made : World.Calls s.pool.allocator s.world calls t.world
  spares : s.Spares t
  houses : t.pool.Houses region

/-- **A request falls short**: of the calls that were made, one was refused for the same reason. -/
structure FallsShort (s : PoolState) (failure : Failure) (calls : List RawCall) (t : PoolState) :
    Prop where
  made : World.Calls s.pool.allocator s.world calls t.world
  reason : ∃ error, failure = .refused (.alloc error) ∧ RawCall.Refused calls error

/-- **A request is declined.** It falls short, the pool is as it was, and what was in hand or
granted was given back. -/
structure Declines (s : PoolState) (hand : List BufferId) (failure : Failure)
    (calls : List RawCall) (t : PoolState) : Prop extends FallsShort s failure calls t where
  pool : t.pool = s.pool
  balanced : (hand ++ RawCall.granted calls).Perm (RawCall.returned calls)

variable {s t : PoolState} {hand : List BufferId} {failure : Failure} {calls : List RawCall}

/-- A request that is declined spares every site. -/
theorem Declines.spares (h : s.Declines hand failure calls t) (fit : s.Fit) : s.Spares t := by
  obtain ⟨pool, world⟩ := t
  obtain rfl : pool = s.pool := h.pool
  exact .ofCalm fit h.made.calm

/-- Where what was granted was given back, a ledger lists what it listed. -/
theorem Declines.mem_ledger (h : s.Declines [] failure calls t) {ledger : Ledger} {id : BufferId}
    (hledger : t.world.ledger? s.pool.allocator = some ledger)
    (listed : ∀ before, s.world.ledger? s.pool.allocator = some before → id ∈ before.ids) :
    id ∈ ledger.ids := by
  cases hbefore : s.world.ledger? s.pool.allocator with
  | none =>
    -- an allocator without a ledger does not get one
    rw [h.made.ledger?_eq_none hbefore] at hledger
    cases hledger
  | some before =>
    obtain ⟨after, hafter, hperm⟩ := h.made.ledger.1 before hbefore
    obtain rfl := Option.some.inj (hafter.symm.trans hledger)
    have hbalanced : (RawCall.granted calls).Perm (RawCall.returned calls) := h.balanced
    have hids : after.ids.Perm before.ids :=
      (List.perm_append_right_iff _).mp (hperm.trans (hbalanced.append_left _))
    exact hids.mem_iff.mpr (listed before hbefore)

end PoolState

namespace Pool

variable {s : PoolState} {size : Nat} {packing : Packing}

/-! ### Small requests -/

/-- **Growth** is one call, and fails only if that is refused. -/
theorem growFor_ends (fit : s.Fit) (serves : s.pool.Serves size) :
    Ends (growFor size) s
      (fun region t => ∃ calls, s.Supplies region calls t ∧ calls.length ≤ 1 ∧
        t.pool.large = s.pool.large)
      (fun failure t => ∃ calls, s.Declines [] failure calls t ∧ calls.length ≤ 1) := by
  simp only [growFor, ends_bind, ends_getPool]
  rw [ends_request]
  constructor
  · intro buffer world call
    obtain ⟨offset, block, hbump⟩ := exists_bump? serves (World.length_of_request call)
    rw [hbump]
    simp only [ends_bind, ends_getPool, ends_setPool, ends_log, ends_pure]
    have hasked := PoolState.Spares.ofCalm fit (.request call)
    have hgrown := PoolState.Spares.grow hasked.fit (Block.sound_of_bump? (Nat.le_refl _) hbump)
    let grown := s.pool.chain.grow block
    let entry : LogEntry := .growBlockChain s.pool.label grown.blocks.length grown.current size
    have hquiet : (Event.logged entry).ran? = none := rfl
    have hspares := hasked.trans (hgrown.trans (.ofCalm hgrown.fit (.log world hquiet)))
    refine ⟨[.asked _ (.ok buffer)], ⟨(World.Calls.one_request call).logged hquiet, hspares, rfl,
      rfl, block.site, ?_, fitsIn_of_bump? _ (Nat.le_refl _) hbump⟩, Nat.le_refl _, trivial⟩
    -- the new block is the last one
    have hlast : (s.pool.chain.grow block).blocks.length - 1 = s.pool.chain.blocks.length := by
      rw [Chain.length_blocks_grow, Nat.add_sub_cancel]
    refine siteOf?_block ?_
    rw [blockCount, hlast]
    exact Chain.getElem?_blocks_grow_self
  · intro error world call
    exact ⟨[.asked _ (.error error)],
      ⟨⟨.one_request call, error, rfl, _, List.mem_singleton_self _⟩, rfl, .refl _⟩,
      Nat.le_refl _⟩

/-- **A small request** makes at most one call, and fails only if that is refused. -/
theorem allocSmall_ends (fit : s.Fit) (serves : s.pool.Serves size) :
    Ends (allocSmall size packing) s
      (fun region t => ∃ calls, s.Supplies region calls t ∧ calls.length ≤ 1 ∧
        t.pool.large = s.pool.large)
      (fun failure t => ∃ calls, s.Declines [] failure calls t ∧ calls.length ≤ 1) := by
  simp only [allocSmall, ends_bind, ends_getPool]
  split
  · next index offset chain hclaim =>
    simp only [ends_bind, ends_setPool, ends_pure]
    -- the block had the room, so only its cursor moves and no call is made
    obtain ⟨block, moved, hblock, hbump, rfl⟩ := Chain.exists_of_claim? hclaim
    have hsound := fit.sound block (List.mem_of_getElem? hblock)
    have hfits : (s.pool.regionAt size (.block index offset)).FitsIn moved.site :=
      s.pool.fitsIn_of_bump? hsound.start_le_cursor hbump
    obtain rfl := Block.eq_of_bump? hbump
    refine ⟨[], ⟨.nil _, .setCursor fit hblock (hsound.bump? hbump), rfl, rfl, _, ?_, hfits⟩,
      Nat.zero_le _, trivial⟩
    refine siteOf?_block ?_
    rw [Chain.getElem?_blocks_setBlock hblock, if_pos rfl]
  · exact growFor_ends fit serves

/-! ### Large requests -/

section Large

variable {buffer : Buffer}

/-- A buffer that was just granted is new to the pool and listed. -/
private theorem fresh_of_request {request : Request} {world : World} (fit : s.Fit)
    (call : s.world.request s.pool.allocator request = (.ok buffer, world)) :
    buffer.id.number < world.nextBuffer ∧
      (∀ held ∈ s.pool.large.buffers, held.id ≠ buffer.id) ∧
      ∀ ledger, world.ledger? s.pool.allocator = some ledger → buffer.id ∈ ledger.ids := by
  have hgrants := World.request_ok call
  -- it has the next number, and whatever the pool has is numbered below that
  refine ⟨?_, fun held hmem heq => ?_, fun ledger hledger => ?_⟩
  · rw [hgrants.number, hgrants.nextBuffer]
    exact Nat.lt_succ_self _
  · have hlt := fit.numbered held hmem
    rw [heq, hgrants.number] at hlt
    exact Nat.lt_irrefl _ hlt
  · rw [hgrants.ledger, if_pos rfl] at hledger
    obtain ⟨before, -, rfl⟩ := Option.map_eq_some_iff.mp hledger
    rw [Ledger.ids_record]
    exact List.mem_append_right _ List.mem_cons_self

/-- **A large buffer is entered**, or given back if no record can be reserved for it. -/
theorem enterLarge_ends (fit : s.Fit) (hnumber : buffer.id.number < s.world.nextBuffer)
    (hfresh : ∀ held ∈ s.pool.large.buffers, held.id ≠ buffer.id)
    (listed : ∀ ledger, s.world.ledger? s.pool.allocator = some ledger →
      buffer.id ∈ ledger.ids) :
    Ends (enterLarge buffer) s
      (fun _ t => ∃ calls, World.Calls s.pool.allocator s.world calls t.world ∧ s.Spares t ∧
        t.pool.large.find? buffer.id = some buffer)
      (fun failure t => ∃ calls, s.Declines [buffer.id] failure calls t) := by
  have hrecord : Layout.largeRecordSize ≤ Layout.minMaxAlloc := by decide
  simp only [enterLarge, ends_bind, ends_discard, ends_getPool, ends_setPool]
  rw [ends_orRelease]
  refine (allocSmall_ends fit (fit.sized.serves_record hrecord)).mono (fun region t ht => ?_)
    fun failure t ht => ?_
  · obtain ⟨calls, hsupplied, -, hlarge⟩ := ht
    have hspares := hsupplied.spares
    obtain ⟨hentered, hfind⟩ := PoolState.Spares.enter hspares.fit (.inl rfl)
      (Nat.lt_of_lt_of_le hnumber hspares.calm.nextBuffer) (by rw [hlarge]; exact hfresh)
    exact ⟨calls, hsupplied.made, hspares.trans hentered, hfind⟩
  · obtain ⟨calls, hdeclined, -⟩ := ht
    obtain ⟨error, rfl, hrefused⟩ := hdeclined.reason
    dsimp only
    rw [ends_release, hdeclined.pool]
    -- the buffer is still listed, so it is taken back
    have htaken : ∃ world, t.world.release s.pool.allocator buffer = (.ok (), world) :=
      World.release_of_listed fun ledger hledger => hdeclined.mem_ledger hledger listed
    obtain ⟨world, hback⟩ := htaken
    constructor
    · intro world' call
      -- the calls for the record cancel out, so only this buffer is returned besides
      refine ⟨calls ++ [.gaveBack buffer],
        ⟨⟨hdeclined.made.append (.one_release call), error, rfl, ?_⟩, rfl, ?_⟩⟩
      · obtain ⟨request, hmem⟩ := hrefused
        exact ⟨request, List.mem_append_left _ hmem⟩
      · rw [RawCall.granted_append, RawCall.returned_append]
        have hgranted : RawCall.granted [.gaveBack buffer] = [] := rfl
        have hreturned : RawCall.returned [.gaveBack buffer] = [buffer.id] := rfl
        rw [hgranted, hreturned, List.append_nil]
        exact (List.Perm.append_left _ hdeclined.balanced).trans List.perm_append_comm
    · intro fault world' call
      rw [hback] at call
      cases call

/-- A region that has a buffer of its own is housed. -/
theorem houses_large {pool : Pool} (hfind : pool.large.find? buffer.id = some buffer)
    (hlength : buffer.length = size) : pool.Houses (pool.regionAt size (.large buffer.id)) := by
  refine ⟨rfl, rfl, buffer.site 0, ?_, Nat.le_refl _, ?_⟩
  · change (pool.large.find? buffer.id).map _ = _
    rw [hfind, Option.map_some]
  · change 0 + size ≤ buffer.length
    omega

/-- A buffer that is not entered is not kept: the request for it is declined. -/
theorem declines_of_enterLarge {request : Request} {world : World} {failure : Failure}
    {t : PoolState} {calls : List RawCall}
    (call : s.world.request s.pool.allocator request = (.ok buffer, world))
    (h : PoolState.Declines { s with world } [buffer.id] failure calls t) :
    s.Declines [] failure (.asked request (.ok buffer) :: calls) t := by
  obtain ⟨error, rfl, request', hmem⟩ := h.reason
  exact ⟨⟨.ask call h.made, error, rfl, request', List.mem_cons_of_mem _ hmem⟩, h.pool, h.balanced⟩

/-- A buffer that is not granted is not entered. -/
theorem declines_of_request {request : Request} {world : World} {error : AllocError}
    (call : s.world.request s.pool.allocator request = (.error error, world)) :
    s.Declines [] (.refused (.alloc error)) [.asked request (.error error)] { s with world } :=
  ⟨⟨.one_request call, error, rfl, request, List.mem_singleton_self _⟩, rfl, .refl _⟩

/-- **A large request** takes an old slot or a new one, or is declined. -/
theorem allocLarge_ends (fit : s.Fit) :
    Ends (allocLarge size) s (fun region t => ∃ calls, s.Supplies region calls t)
      (fun failure t => ∃ calls, s.Declines [] failure calls t) := by
  simp only [allocLarge, ends_bind, ends_getPool]
  rw [ends_request]
  constructor
  · intro buffer world call
    obtain ⟨hnumber, hfresh, listed⟩ := fresh_of_request fit call
    have hlength := World.length_of_request call
    have hasked := PoolState.Spares.ofCalm fit (.request call)
    have hquiet : ∀ label, (Event.logged (.largeAllocation label buffer.id size)).ran? = none :=
      fun _ => rfl
    split
    · next large hreuse =>
      simp only [ends_bind, ends_getPool, ends_setPool, ends_log, ends_pure]
      obtain ⟨hentered, hfind⟩ := PoolState.Spares.enter hasked.fit (.inr hreuse) hnumber hfresh
      have hlogged := PoolState.Spares.ofCalm hentered.fit (.log world (hquiet s.pool.label))
      exact ⟨_, (World.Calls.one_request call).logged (hquiet _),
        hasked.trans (hentered.trans hlogged), houses_large hfind hlength⟩
    · -- no slot is empty, so room for a record is needed, and that may be refused
      simp only [ends_bind, ends_getPool, ends_log, ends_pure]
      refine (enterLarge_ends hasked.fit hnumber hfresh listed).mono (fun _ t ht => ?_)
        fun failure t ht => ?_
      · obtain ⟨calls, hmade, hentered, hfind⟩ := ht
        have hlogged := PoolState.Spares.ofCalm hentered.fit (.log t.world (hquiet t.pool.label))
        exact ⟨_, (World.Calls.ask call hmade).logged (hquiet _),
          hasked.trans (hentered.trans hlogged), houses_large hfind hlength⟩
      · obtain ⟨calls, hdeclined⟩ := ht
        exact ⟨_, declines_of_enterLarge call hdeclined⟩
  · intro error world call
    exact ⟨_, declines_of_request call⟩

/-- **A request at an alignment** always takes a new slot. -/
theorem allocAlignedTo_ends {align : Nat} (fit : s.Fit) :
    Ends (allocAlignedTo size align) s (fun region t => ∃ calls, s.Supplies region calls t)
      (fun failure t => (Layout.isPowerOfTwo align = false ∧ t = s ∧
          failure = .refused (.invalidAlignment align)) ∨
        ∃ calls, s.Declines [] failure calls t) := by
  unfold allocAlignedTo
  split
  · simp only [ends_bind, ends_getPool, ends_pure]
    rw [ends_request]
    constructor
    · intro buffer world call
      obtain ⟨hnumber, hfresh, listed⟩ := fresh_of_request fit call
      have hasked := PoolState.Spares.ofCalm fit (.request call)
      refine (enterLarge_ends hasked.fit hnumber hfresh listed).mono (fun _ t ht => ?_)
        fun failure t ht => ?_
      -- the call for the buffer, and then what the slot for it took
      · obtain ⟨calls, hmade, hentered, hfind⟩ := ht
        exact ⟨_, .ask call hmade, hasked.trans hentered,
          houses_large hfind (World.length_of_request call)⟩
      · obtain ⟨calls, hdeclined⟩ := ht
        exact .inr ⟨_, declines_of_enterLarge call hdeclined⟩
    · intro error world call
      exact .inr ⟨_, declines_of_request call⟩
  -- no power of two: refused before any call
  · next hpower =>
    rw [ends_refuse]
    exact .inl ⟨Bool.eq_false_of_not_eq_true hpower, rfl, rfl⟩

end Large

/-! ### Requests of any size -/

/-- **A request of any size**: up to the threshold it makes at most one call. -/
theorem allocWith_ends (fit : s.Fit) :
    Ends (allocWith packing size) s
      (fun region t => ∃ calls, s.Supplies region calls t ∧
        (size ≤ s.pool.max → calls.length ≤ 1))
      (fun failure t => ∃ calls, s.Declines [] failure calls t ∧
        (size ≤ s.pool.max → calls.length ≤ 1)) := by
  simp only [allocWith, ends_bind, ends_getPool]
  split
  -- the threshold decides which of the two it is, and only small requests are bounded
  · next hle =>
    refine (allocSmall_ends fit (fit.sized.serves_of_le_max hle)).mono (fun region t ht => ?_)
      fun failure t ht => ?_
    · obtain ⟨calls, hsupplied, hlength, -⟩ := ht
      exact ⟨calls, hsupplied, fun _ => hlength⟩
    · obtain ⟨calls, hdeclined, hlength⟩ := ht
      exact ⟨calls, hdeclined, fun _ => hlength⟩
  · next hlarge =>
    refine (allocLarge_ends fit).mono (fun region t ht => ?_) fun failure t ht => ?_
    · obtain ⟨calls, hsupplied⟩ := ht
      exact ⟨calls, hsupplied, fun hle => absurd hle hlarge⟩
    · obtain ⟨calls, hdeclined⟩ := ht
      exact ⟨calls, hdeclined, fun hle => absurd hle hlarge⟩

/-- **Clearing what was allocated** cannot fail. -/
theorem allocZeroed_ends (fit : s.Fit) :
    Ends (allocZeroed size) s
      (fun region t => ∃ calls, s.Supplies region calls t ∧
        (size ≤ s.pool.max → calls.length ≤ 1))
      (fun failure t => ∃ calls, s.Declines [] failure calls t ∧
        (size ≤ s.pool.max → calls.length ≤ 1)) := by
  simp only [allocZeroed, ends_bind, ends_pure]
  refine (allocWith_ends fit).mono (fun region t ht => ?_) fun failure t ht => ht
  obtain ⟨calls, hsupplied, hlength⟩ := ht
  -- the zeros are as many as the region has bytes, so writing them succeeds
  have hinside : 0 + (List.replicate region.length (0 : UInt8)).length ≤ region.length := by
    rw [List.length_replicate, Nat.zero_add]
  obtain ⟨after, hwrite⟩ := hsupplied.houses.exists_write hinside
  rw [ends_onPool]
  constructor
  · intro _ pool hrun
    obtain ⟨after', hafter, hpure⟩ := bind_eq_ok_iff.mp hrun
    obtain ⟨-, rfl⟩ := Prod.mk.inj (pure_eq_ok_iff.mp hpure)
    obtain ⟨-, store, -, -, rfl⟩ := write_eq_ok hafter
    have hwritten := PoolState.Spares.overwrite hsupplied.spares.fit store
      (region.place.offset + 0) (List.replicate region.length 0)
    exact ⟨calls, ⟨hsupplied.made, hsupplied.spares.trans hwritten,
      hwritten.houses hsupplied.houses⟩, hlength⟩
  · intro failure hrun
    rw [hwrite] at hrun
    cases hrun

/-! ### Cleanup records -/

/-- **Registering a cleanup record.** If there is no room for its bytes, the room of the record
stays claimed. -/
theorem addCleanup_ends {dataSize : Nat} (fit : s.Fit) :
    Ends (addCleanup dataSize) s
      (fun ticket t => ∃ u calls, World.Calls s.pool.allocator s.world calls t.world ∧
        s.Spares u ∧ u.world.Calm t.world ∧
        t.pool = { u.pool with cleanups := u.pool.cleanups.push ticket.data } ∧
        ticket.pool = s.pool.id ∧ ticket.index = s.pool.cleanups.count ∧
        ∀ region ∈ ticket.data, u.pool.Houses region)
      (fun failure t => s.Spares t ∧ ∃ calls, s.FallsShort failure calls t) := by
  have hrecord : Layout.cleanupRecordSize ≤ Layout.minMaxAlloc := by decide
  simp only [addCleanup, ends_bind, ends_discard]
  refine (allocSmall_ends fit (fit.sized.serves_record hrecord)).mono (fun _ t ht => ?_)
    fun failure t ht => ?_
  · obtain ⟨calls, hroom, -, -⟩ := ht
    have hspares := hroom.spares
    have hquiet : ∀ label, (Event.logged (.addCleanup label t.pool.cleanups.count dataSize)).ran? =
        none := fun _ => rfl
    split
    · simp only [ends_bind, ends_pure, ends_getPool, ends_setPool, ends_log]
      refine ⟨t, calls, hroom.made.logged (hquiet _), hspares, .log _ (hquiet _), rfl,
        hspares.traits.id, ?_, fun _ hmem => (Option.not_mem_none _ hmem).elim⟩
      rw [hspares.cleanups]
    · simp only [ends_map, ends_bind, ends_pure, ends_getPool, ends_setPool, ends_log]
      refine (allocWith_ends hspares.fit).mono (fun region u hu => ?_) fun failure u hu => ?_
      · obtain ⟨more, hdata, -⟩ := hu
        have hboth := hspares.trans hdata.spares
        have hmade := hdata.made
        rw [hspares.traits.allocator] at hmade
        refine ⟨u, calls ++ more, (hroom.made.append hmade).logged rfl, hboth, .log _ rfl, rfl,
          hboth.traits.id, ?_, fun _ hmem => Option.some.inj hmem ▸ hdata.houses⟩
        rw [hboth.cleanups]
      · obtain ⟨more, hdeclined, -⟩ := hu
        obtain ⟨error, rfl, hrefused⟩ := hdeclined.reason
        have hmade := hdeclined.made
        rw [hspares.traits.allocator] at hmade
        -- the record's own room was claimed before, and that is not undone
        exact ⟨hspares.trans (hdeclined.spares hspares.fit), calls ++ more,
          hroom.made.append hmade, error, rfl, hrefused.append_right calls⟩
  · obtain ⟨calls, hdeclined, -⟩ := ht
    exact ⟨hdeclined.spares fit, calls, hdeclined.toFallsShort⟩

end Pool

end RegionPool
