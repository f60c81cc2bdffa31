import RegionPool.Proofs.Refusals

/-!
# What a request leaves alone

A request that is refused leaves the pool as it was, and one that is served leaves the bytes of the
pool where they are: it moves a cursor, appends a block or fills a slot, and writes to none of them.

* `Withdraws` — an action that leaves the pool as it was when it fails;
* `Pool.Houses.bytesIn_eq`, `Pool.Houses.exists_copy` — what is housed can be read and copied;
* `PoolState.Retains` — every buffer stays where it is, with what it holds, and a number under which
  there is none stays without;
* `allocWith_retains` — what comes of a request; `GrowArray.init_withdraws`,
  `PartList.init_withdraws`.
-/

namespace RegionPool

open PoolM

/-! ### Withdrawing -/

/-- **An action withdraws** if it fails: it leaves the pool as it was. -/
def Withdraws {α : Type} (action : PoolM α) (s : PoolState) : Prop :=
  Ends action s (fun _ _ => True) fun _ t => t.pool = s.pool

/-- **An action goes through**: it does not fail, and this holds of its result. -/
def Succeeds {α : Type} (action : PoolM α) (s : PoolState) (ok : α → PoolState → Prop) : Prop :=
  Ends action s ok fun _ _ => False

section Sequencing

variable {α β : Type} {action : PoolM α} {next : α → PoolM β} {s : PoolState}
  {ok : α → PoolState → Prop}

/-- A function of the pool leaves it alone. -/
theorem Withdraws.ofPool {f : Pool → Except Failure α} : Withdraws (ofPool f) s :=
  ends_ofPool.mpr ⟨fun _ _ => trivial, fun _ _ => rfl⟩

/-- A first part that changes nothing, and a second one that withdraws. -/
theorem Withdraws.after {f : Pool → Except Failure α}
    (hnext : ∀ a, f s.pool = .ok a → Withdraws (next a) s) :
    Withdraws (PoolM.ofPool f >>= next) s := by
  rw [Withdraws, ends_bind, ends_ofPool]
  exact ⟨fun a ha => hnext a ha, fun _ _ => rfl⟩

/-- A first part that withdraws, and a second one that goes through. -/
theorem Withdraws.before (h : Ends action s ok fun _ t => t.pool = s.pool)
    (hnext : ∀ a t, ok a t → Succeeds (next a) t fun _ _ => True) :
    Withdraws (action >>= next) s := by
  rw [Withdraws, ends_bind]
  refine h.mono (fun a t ht => ?_) fun _ _ h => h
  exact Ends.mono (hnext a t ht) (fun _ _ h => h) fun _ _ h => h.elim

end Sequencing

/-! ### Regions that are housed -/

/-- **The bytes of a part of a region** are there if the region is, for nothing else is looked at
but whether the part is inside. -/
theorem Pool.exists_bytesIn {pool : Pool} {region : Region} {found : Store × Nat}
    {start length : Nat} (h : pool.locate region = .ok found)
    (inside : start + length ≤ region.length) :
    ∃ bytes, pool.bytesIn region start length = .ok bytes := by
  obtain ⟨-, hspans⟩ := locate_eq_ok_iff.mp h
  obtain ⟨buffer, hstore, hlength⟩ := spans_eq_true_iff.mp hspans
  -- the region is inside its buffer, and the part is inside the region
  have hslice : buffer.slice? (found.2 + start) length =
      some ((buffer.bytes.drop (found.2 + start)).take length) := by
    rw [Buffer.slice?_eq]
    exact Bytes.slice?_eq_some_iff.mpr ⟨by rw [Buffer.length_bytes]; omega, rfl⟩
  exact ⟨_, bind_eq_ok_iff.mpr ⟨found, h, guard_eq_ok_iff.mpr ⟨inside,
    load_eq_ok_iff.mpr ⟨buffer, hstore, hslice⟩⟩⟩⟩

namespace Pool.Houses

variable {pool : Pool} {region source target : Region} {buffer : Buffer} {start length : Nat}

/-- A region that is housed has a buffer, and lies in it. -/
theorem exists_buffer (h : pool.Houses region) : ∃ buffer,
    pool.bufferAt? region.place = some buffer ∧
      region.place.offset + region.length ≤ buffer.length := by
  obtain ⟨site, hsite, fits⟩ := h.site
  obtain ⟨buffer, hbuffer, -, -, hlength⟩ := exists_bufferAt? hsite
  exact ⟨buffer, hbuffer, hlength ▸ fits.2⟩

/-- **A part of a region that is housed** reads what its buffer holds there. -/
theorem bytesIn_eq (h : pool.Houses region) (hbuffer : pool.bufferAt? region.place = some buffer)
    (inside : start + length ≤ region.length) : pool.bytesIn region start length =
      .ok ((buffer.bytes.drop (region.place.offset + start)).take length) := by
  obtain ⟨buffer', hbuffer', hlength⟩ := h.exists_buffer
  obtain rfl := Option.some.inj (hbuffer.symm.trans hbuffer')
  obtain ⟨store, hresolve, hstore⟩ := exists_resolve h.owner h.generation hbuffer
  have hlocate : pool.locate region = .ok (store, region.place.offset) :=
    locate_eq_ok_iff.mpr ⟨hresolve, spans_eq_true_iff.mpr ⟨buffer, hstore, hlength⟩⟩
  -- there are that many bytes, so the slice is those
  have hslice : buffer.slice? (region.place.offset + start) length =
      some ((buffer.bytes.drop (region.place.offset + start)).take length) := by
    rw [Buffer.slice?_eq]
    exact Bytes.slice?_eq_some_iff.mpr ⟨by rw [Buffer.length_bytes]; omega, rfl⟩
  have hload := load_eq_ok_iff.mpr ⟨buffer, hstore, hslice⟩
  exact bind_eq_ok_iff.mpr ⟨_, hlocate, guard_eq_ok_iff.mpr ⟨inside, hload⟩⟩

/-- **Copying** from one region that is housed to another goes through. -/
theorem exists_copy (hsource : pool.Houses source) (htarget : pool.Houses target)
    (inside : length ≤ source.length ∧ length ≤ target.length) :
    ∃ after, pool.copy source target length = .ok after := by
  obtain ⟨buffer, hbuffer, hlength⟩ := hsource.exists_buffer
  obtain ⟨buffer', hbuffer', hlength'⟩ := htarget.exists_buffer
  obtain ⟨store, hresolve, hstore⟩ := exists_resolve hsource.owner hsource.generation hbuffer
  obtain ⟨store', hresolve', hstore'⟩ := exists_resolve htarget.owner htarget.generation hbuffer'
  -- what is read first, as the target may overlap the source
  let data := (buffer.bytes.drop source.place.offset).take length
  have hslice : buffer.slice? source.place.offset length = some data := by
    rw [Buffer.slice?_eq]
    exact Bytes.slice?_eq_some_iff.mpr ⟨by rw [Buffer.length_bytes]; omega, rfl⟩
  have hdata : data.length ≤ length := List.length_take_le _ _
  have hspans : pool.spans store' target.place.offset data.length = true :=
    spans_eq_true_iff.mpr ⟨buffer', hstore', by omega⟩
  have hsave : pool.save store' target.place.offset data =
      .ok (pool.overwrite store' target.place.offset data) := if_pos hspans
  have htransfer : pool.transfer store store' source.place.offset target.place.offset length =
      .ok (pool.overwrite store' target.place.offset data) := by
    rw [transfer_eq, bind_eq_ok_iff]
    exact ⟨data, load_eq_ok_iff.mpr ⟨buffer, hstore, hslice⟩, hsave⟩
  exact ⟨_, guard_eq_ok_iff.mpr ⟨inside, bind_eq_ok_iff.mpr ⟨_, resolved_eq_ok_iff.mpr hresolve,
    bind_eq_ok_iff.mpr ⟨_, resolved_eq_ok_iff.mpr hresolve', htransfer⟩⟩⟩⟩

end Pool.Houses

/-! ### Requests that are served -/

/-- **A pool moves on and retains its bytes.** Every site is spared, the buffers of the chain stay
what they are, and what is found under a number that was given before is what was found. -/
structure PoolState.Retains (s t : PoolState) : Prop extends s.Spares t where
  chain : ∀ (index : Nat) (block : Block), s.pool.chain.blocks[index]? = some block →
    ∃ after : Block, t.pool.chain.blocks[index]? = some after ∧ after.buffer = block.buffer
  large : ∀ id : BufferId, id.number < s.world.nextBuffer →
    t.pool.large.find? id = s.pool.large.find? id

namespace PoolState.Retains

variable {s t u : PoolState} {region : Region} {start length : Nat}

/-- The pool is as it was. -/
theorem of_eq (spares : s.Spares t) (h : t.pool = s.pool) : s.Retains t where
  toSpares := spares
  chain _ block hblock := ⟨block, h ▸ hblock, rfl⟩
  large _ _ := by rw [h]

theorem trans (h : s.Retains t) (h' : t.Retains u) : s.Retains u where
  toSpares := h.toSpares.trans h'.toSpares
  chain index block hblock := by
    obtain ⟨after, hafter, heq⟩ := h.chain index block hblock
    obtain ⟨last, hlast, heq'⟩ := h'.chain index after hafter
    exact ⟨last, hlast, heq'.trans heq⟩
  large id hlt := by
    have hle : s.world.nextBuffer ≤ t.world.nextBuffer := h.calm.nextBuffer
    exact (h'.large id (Nat.lt_of_lt_of_le hlt hle)).trans (h.large id hlt)

/-- Every buffer stays where it is. -/
theorem bufferAt?_eq (h : s.Retains t) (fit : s.Fit) {place : Place} {buffer : Buffer}
    (hbuffer : s.pool.bufferAt? place = some buffer) : t.pool.bufferAt? place = some buffer := by
  cases place with
  | block index offset =>
    obtain ⟨block, hblock, rfl⟩ := Option.map_eq_some_iff.mp hbuffer
    obtain ⟨after, hafter, heq⟩ := h.chain index block hblock
    exact Option.map_eq_some_iff.mpr ⟨after, hafter, heq⟩
  | large id =>
    rw [Pool.bufferAt?_large] at hbuffer ⊢
    obtain ⟨hmem, rfl⟩ := LargeTable.mem_of_find? hbuffer
    rw [h.large _ (fit.numbered buffer hmem), hbuffer]

/-- **What a region reads** stays the same. -/
theorem bytesIn_eq (h : s.Retains t) (fit : s.Fit) (housed : s.pool.Houses region)
    (inside : start + length ≤ region.length) :
    t.pool.bytesIn region start length = s.pool.bytesIn region start length := by
  obtain ⟨buffer, hbuffer, -⟩ := housed.exists_buffer
  rw [housed.bytesIn_eq hbuffer inside,
    (h.houses housed).bytesIn_eq (h.bufferAt?_eq fit hbuffer) inside]

end PoolState.Retains

namespace Pool

variable {s : PoolState} {size : Nat} {packing : Packing}

/-- A small request moves a cursor or appends a block. -/
theorem allocSmall_keeps : Ends (allocSmall size packing) s
    (fun _ t => t.pool.large = s.pool.large ∧
      ∀ (index : Nat) (block : Block), s.pool.chain.blocks[index]? = some block →
        ∃ after : Block, t.pool.chain.blocks[index]? = some after ∧ after.buffer = block.buffer)
    fun _ _ => True := by
  simp only [allocSmall, ends_bind, ends_getPool]
  split
  · next position offset chain hclaim =>
    obtain ⟨claimed, moved, hclaimed, hbump, rfl⟩ := Chain.exists_of_claim? hclaim
    refine ⟨rfl, fun index block hblock => ?_⟩
    -- the buffers along the chain are the same list before and after
    have hmap : (s.pool.chain.setBlock position moved).blocks.map Block.buffer =
        s.pool.chain.blocks.map Block.buffer :=
      Chain.map_blocks_setBlock Block.buffer hclaimed (by rw [Block.eq_of_bump? hbump])
    have hget := congrArg (·[index]?) hmap
    simp only [List.getElem?_map, hblock] at hget
    exact Option.map_eq_some_iff.mp hget
  · simp only [growFor, ends_bind, ends_getPool]
    rw [ends_request]
    refine ⟨fun buffer world _ => ?_, fun _ _ _ => trivial⟩
    split
    · trivial
    · refine ⟨rfl, fun index block hblock => ?_⟩
      obtain ⟨noted, hnoted, heq, -⟩ := Chain.exists_of_getElem?_grow hblock
      exact ⟨noted, hnoted, heq⟩

/-- A large request fills a slot, under the next number. -/
private theorem allocLarge_keeps : Ends (allocLarge size) s
    (fun _ t => (∀ id : BufferId, id.number < s.world.nextBuffer →
        t.pool.large.find? id = s.pool.large.find? id) ∧
      ∀ (index : Nat) (block : Block), s.pool.chain.blocks[index]? = some block →
        ∃ after : Block, t.pool.chain.blocks[index]? = some after ∧ after.buffer = block.buffer)
    fun _ _ => True := by
  simp only [allocLarge, ends_bind, ends_getPool]
  rw [ends_request]
  refine ⟨fun buffer world call => ?_, fun _ _ _ => trivial⟩
  -- whatever was asked for before has another number than the new buffer
  have hne : ∀ id : BufferId, id.number < s.world.nextBuffer → buffer.id ≠ id := by
    rintro id hlt rfl
    rw [(World.request_ok call).number] at hlt
    exact Nat.lt_irrefl _ hlt
  split
  · next large hreuse =>
    exact ⟨fun id hlt => LargeTable.find?_reuse?_of_ne hreuse (hne id hlt),
      fun index block hblock => ⟨block, hblock, rfl⟩⟩
  · simp only [enterLarge, ends_bind, ends_discard, ends_orRelease, ends_getPool, ends_setPool,
      ends_log, ends_pure]
    refine allocSmall_keeps.mono (fun _ t ht => ?_) fun failure t _ => ?_
    · obtain ⟨hlarge, hchain⟩ := ht
      refine ⟨fun id hlt => (LargeTable.find?_push_of_ne (hne id hlt)).trans ?_, hchain⟩
      -- the record of a new slot is in a block, so the search among the large ones is as before
      rw [hlarge]
    -- the buffer is given back when there is no room for its record
    · cases failure with
      | fault fault => trivial
      | refused error => exact ends_release.mpr ⟨fun _ _ => trivial, fun _ _ _ => trivial⟩

/-- **What comes of a request.** If it is served, a region of the length asked for is handed out,
and no byte of the pool changes. If it is refused, the pool is what it was. -/
theorem allocWith_retains (fit : s.Fit) : Ends (allocWith packing size) s
    (fun region t => s.Retains t ∧ region.length = size ∧ t.pool.Houses region)
    (fun failure t => s.Retains t ∧ t.pool = s.pool ∧ failure.IsRefusal) := by
  have hkeeps : Ends (allocWith packing size) s
      (fun _ t => (∀ id : BufferId, id.number < s.world.nextBuffer →
          t.pool.large.find? id = s.pool.large.find? id) ∧
        ∀ (index : Nat) (block : Block), s.pool.chain.blocks[index]? = some block →
          ∃ after : Block, t.pool.chain.blocks[index]? = some after ∧ after.buffer = block.buffer)
      fun _ _ => True := by
    simp only [allocWith, ends_bind, ends_getPool]
    split
    -- small requests do not touch the large buffers at all
    · refine allocSmall_keeps.mono (fun _ t ht => ⟨fun id _ => ?_, ht.2⟩) fun _ _ h => h
      rw [ht.1]
    · exact allocLarge_keeps
  refine (((allocWith_ends fit).and length_of_allocWith).and hkeeps).mono (fun region t ht => ?_)
    fun failure t ht => ?_
  · obtain ⟨⟨⟨calls, hsupplied, -⟩, hlength⟩, hlarge, hchain⟩ := ht
    exact ⟨⟨hsupplied.spares, hchain, hlarge⟩, hlength, hsupplied.houses⟩
  · obtain ⟨⟨⟨calls, hdeclined, -⟩, -⟩, -⟩ := ht
    obtain ⟨error, hrefused, -⟩ := hdeclined.reason
    exact ⟨.of_eq (hdeclined.spares fit) hdeclined.pool, hdeclined.pool, _, hrefused⟩

theorem alloc_retains (fit : s.Fit) : Ends (alloc size) s
    (fun region t => s.Retains t ∧ region.length = size ∧ t.pool.Houses region)
    (fun failure t => s.Retains t ∧ t.pool = s.pool ∧ failure.IsRefusal) := allocWith_retains fit

/-- A request that is refused withdraws. -/
theorem alloc_withdraws (fit : s.Fit) : Ends (alloc size) s
    (fun region t => s.Retains t ∧ region.length = size ∧ t.pool.Houses region)
    fun _ t => t.pool = s.pool :=
  (alloc_retains fit).mono (fun _ _ ht => ht) fun _ _ ht => ht.2.1

end Pool

section Init

variable {s : PoolState}

/-- A request for the first elements of an array. -/
theorem GrowArray.init_withdraws {capacity elementSize : Nat} (fit : s.Fit) :
    Withdraws (init capacity elementSize) s :=
  .after fun _ _ => .before (Pool.alloc_withdraws fit) fun _ _ _ => trivial

/-- A request for the first part of a list. -/
theorem PartList.init_withdraws {partCapacity : PartCapacity} {elementSize : Nat} (fit : s.Fit) :
    Withdraws (init partCapacity elementSize) s :=
  .after fun _ _ => .before (Pool.alloc_withdraws fit) fun _ _ _ => trivial

end Init

/-! ### Slots -/

/-- **Handing out a slot** goes through if it is inside a region that is housed. -/
theorem Slot.handOut_succeeds {α : Type} {a : α} {slot : Slot} {s : PoolState}
    (housed : s.pool.Houses slot.region)
    (inside : slot.start + slot.length ≤ slot.region.length) :
    Succeeds (do discard <| ofPool slot.bytes; return a) s fun _ _ => True := by
  obtain ⟨found, hlocate⟩ := housed.exists_locate
  obtain ⟨bytes, hbytes⟩ := Pool.exists_bytesIn hlocate inside
  simp only [Succeeds, ends_bind, ends_discard, ends_pure]
  rw [ends_ofPool]
  refine ⟨fun _ _ => trivial, fun failure hrun => ?_⟩
  rw [Slot.bytes, hbytes] at hrun
  cases hrun

/-- Counting elements goes through. -/
theorem GrowArray.claim_succeeds {s : PoolState} {array : GrowArray} {n : Nat}
    (housed : s.pool.Houses array.elements)
    (inside : array.count * array.elementSize + n * array.elementSize ≤ array.elements.length) :
    Succeeds (array.claim n) s fun _ _ => True := Slot.handOut_succeeds housed inside

/-- So does counting one more in the last part of a list. -/
theorem PartList.claim_succeeds {s : PoolState} {list : PartList}
    (housed : s.pool.Houses list.last.elements) (inside : list.last.count * list.elementSize +
      list.elementSize ≤ list.last.elements.length) :
    Succeeds list.claim s fun _ _ => True := Slot.handOut_succeeds housed inside

end RegionPool
