import RegionPool.Proofs.Copying

/-!
# Memory that is cleared

What a pool hands out is dirty in every way it can be: a range of a block holds what was written
there before it was given back, and the raw allocator may fill new blocks and large buffers with
anything. `Pool.allocZeroed` therefore allocates first and then writes zeros over the whole region.

The write is the only difference from `Pool.alloc`, and it cannot fail: the region was handed out
just now, so the pool houses it. It stays inside the region, and the allocation before it writes
nothing. The one thing that takes an argument is that an allocation leaves every store where it is
(`Pool.Holds`): a slot that is filled again was empty.

* `Pool.Holds` — a pool still holds every buffer of an earlier one, in the same store;
  `allocWith_holds`;
* `Pool.Houses.exists_filled` — a region that is housed and written all over reads what was written;
* `Pool.Clears` — a region is cleared and nothing else;
* `PoolState.Zeroes` — a request for cleared memory against the plain request;
* `Session.run_zeroes` — in every pool of every history, over whatever raw allocator.
-/

namespace RegionPool

open PoolM

/-! ### Stores that stay -/

/-- **A pool still holds what an earlier one held**: every block and every occupied slot has the
buffer it had, with the same bytes. -/
def Pool.Holds (before after : Pool) : Prop :=
  ∀ store buffer, before.storeBuffer? store = some buffer → after.storeBuffer? store = some buffer

namespace Pool

variable {pool after : Pool} {s : PoolState} {size : Nat} {packing : Packing} {region : Region}
  {data : Bytes}

/-- Told apart by chain and table. -/
theorem Holds.of_parts
    (hblocks : ∀ (index : Nat) (block : Block), pool.chain.blocks[index]? = some block →
      ∃ moved : Block, after.chain.blocks[index]? = some moved ∧ moved.buffer = block.buffer)
    (hslots : ∀ index buffer, pool.large.get? index = some buffer →
      after.large.get? index = some buffer) : pool.Holds after := by
  intro store buffer hbuffer
  -- a block may have another cursor, as long as its buffer is the same
  cases store with
  | block index =>
    obtain ⟨block, hblock, rfl⟩ := Option.map_eq_some_iff.mp hbuffer
    obtain ⟨moved, hmoved, heq⟩ := hblocks index block hblock
    exact Option.map_eq_some_iff.mpr ⟨moved, hmoved, heq⟩
  | slot index => exact hslots index buffer hbuffer

/-- A large request takes a slot that was empty, or a new one. -/
private theorem allocLarge_holds : Ends (allocLarge size) s
    (fun _ t => s.pool.Holds t.pool) fun _ _ => True := by
  simp only [allocLarge, ends_bind, ends_getPool]
  rw [ends_request]
  refine ⟨fun buffer world _ => ?_, fun _ _ _ => trivial⟩
  split
  · next large hreuse =>
    -- an empty slot is filled again, and every other one stays
    exact .of_parts (fun _ block hblock => ⟨block, hblock, rfl⟩)
      fun _ _ hheld => LargeTable.get?_reuse?_of_some hreuse hheld
  · simp only [enterLarge, ends_bind, ends_discard, ends_orRelease, ends_getPool, ends_setPool,
      ends_log, ends_pure]
    refine allocSmall_keeps.mono (fun _ t ht => ?_) fun failure t _ => ?_
    · -- the record of the buffer is claimed first, and then the table has one more slot
      obtain ⟨hlarge, hblocks⟩ := ht
      refine .of_parts hblocks fun index held hheld => ?_
      change (t.pool.large.push buffer).get? index = some held
      rw [hlarge]
      exact LargeTable.get?_push_of_some hheld
    · -- the buffer goes back, and that is no longer of interest
      cases failure with
      | fault fault => trivial
      | refused error => exact ends_release.mpr ⟨fun _ _ => trivial, fun _ _ _ => trivial⟩

/-- **A request that is served** leaves every buffer in its store, and every byte in its buffer. -/
theorem allocWith_holds : Ends (allocWith packing size) s
    (fun _ t => s.pool.Holds t.pool) fun _ _ => True := by
  simp only [allocWith, ends_bind, ends_getPool]
  split
  · refine allocSmall_keeps.mono (fun _ t ht => .of_parts ht.2 fun index buffer hbuffer => ?_)
      fun _ _ h => h
    rw [ht.1]
    exact hbuffer
  · exact allocLarge_holds

/-! ### Writing all over a region -/

/-- **A region that is housed can be written all over**, and then reads what was written. -/
theorem Houses.exists_filled (housed : pool.Houses region) (hlength : data.length = region.length) :
    ∃ store buffer, pool.storeOf? region.place = some store ∧
      pool.storeBuffer? store = some buffer ∧
      region.place.offset + data.length ≤ buffer.length ∧
      pool.write region 0 data = .ok (pool.overwrite store region.place.offset data) ∧
      (pool.overwrite store region.place.offset data).bytes region = .ok data := by
  have hinside : 0 + data.length ≤ region.length := by omega
  obtain ⟨after, hwrite⟩ := housed.exists_write hinside
  obtain ⟨-, store, hstore, -, rfl⟩ := write_eq_ok hwrite
  obtain ⟨buffer, hbuffer, hroom⟩ := housed.exists_buffer
  have hheld : pool.storeBuffer? store = some buffer := by
    rwa [bufferAt?, hstore, Option.bind_some] at hbuffer
  have hfits : region.place.offset + data.length ≤ buffer.length := by omega
  refine ⟨store, buffer, hstore, hheld, hfits, hwrite, ?_⟩
  -- the region lies in the same place of the buffer that was written to
  have hafter : (pool.overwrite store region.place.offset data).Houses region := by
    refine housed.of_siteOf? ?_ ?_ fun site hsite => (siteOf?_overwrite ..).trans hsite
    · cases store <;> rfl
    · cases store <;> rfl
  have hwritten : (pool.overwrite store region.place.offset data).bufferAt? region.place =
      some (buffer.overwrite region.place.offset data) := by
    rw [bufferAt?_overwrite, if_pos hstore, hbuffer, Option.map_some]
  have hself : Bytes.slice? (Bytes.overwrite buffer.bytes region.place.offset data)
      region.place.offset data.length = some data :=
    Bytes.slice?_overwrite_self (by rw [Buffer.length_bytes]; exact hfits)
  rw [(hafter.bytes_eq hwritten).1, Buffer.bytes_overwrite hfits, ← hlength]
  exact congrArg Except.ok (Bytes.slice?_eq_some_iff.mp hself).2

/-! ### Clearing -/

/-- **A region is cleared, and nothing else.** The pool was `before`, and is `after`; `plain` is what
it would be if the region were handed out as it is. The pool differs from that in the bytes of the
region at most, also in a block or a large buffer that is new. -/
structure Clears (before plain after : Pool) (region : Region) : Prop where
  zero : after.bytes region = .ok (List.replicate region.length 0)
  /-- Every block and every large buffer is there as before, but for its bytes. -/
  stores : ∀ store buffer, before.storeBuffer? store = some buffer →
    ∃ kept, after.storeBuffer? store = some kept ∧ kept.filled 0 = buffer.filled 0
  /-- Its bytes outside the region are those it had. -/
  outside : ∀ store index byte, before.byteAt? store index = some byte →
    (after.storeOf? region.place = some store →
      index < region.place.offset ∨ region.place.offset + region.length ≤ index) →
    after.byteAt? store index = some byte
  /-- Every store holds outside the region what it would hold if the region were not cleared. -/
  beside : ∀ store index, (after.storeOf? region.place = some store →
      index < region.place.offset ∨ region.place.offset + region.length ≤ index) →
    after.byteAt? store index = plain.byteAt? store index
  rest : after.blank = plain.blank

/-- Writing zeros over a region that was handed out clears it. -/
theorem exists_clears {before : Pool} (holds : before.Holds pool) (housed : pool.Houses region) :
    ∃ after, pool.write region 0 (List.replicate region.length 0) = .ok after ∧
      before.Clears pool after region := by
  have hlength : (List.replicate region.length (0 : UInt8)).length = region.length :=
    List.length_replicate
  obtain ⟨store, buffer, hstore, hbuffer, hfits, hwrite, hread⟩ := housed.exists_filled hlength
  -- writing to the region leaves every other byte of the pool
  have beside : ∀ other index,
      ((pool.overwrite store region.place.offset (List.replicate region.length 0)).storeOf?
        region.place = some other →
          index < region.place.offset ∨ region.place.offset + region.length ≤ index) →
      (pool.overwrite store region.place.offset (List.replicate region.length 0)).byteAt? other
        index = pool.byteAt? other index := by
    intro other index apart
    refine byteAt?_overwrite hbuffer hfits other fun heq => ?_
    rw [hlength]
    refine apart ?_
    rw [storeOf?_overwrite, heq]
    exact hstore
  refine ⟨_, hwrite, hread, fun other held hheld => ?_, fun other index byte hbyte apart => ?_,
    beside, blank_overwrite⟩
  · -- one buffer was written to, and differs in its bytes only
    rw [storeBuffer?_overwrite, holds other held hheld]
    split
    · exact ⟨_, rfl, Buffer.filled_overwrite held _ _ 0⟩
    · exact ⟨held, rfl, rfl⟩
  · -- what the pool held before, it still holds after the plain request
    rw [beside other index apart]
    obtain ⟨held, hheld, hget⟩ := Option.bind_eq_some_iff.mp hbyte
    exact Option.bind_eq_some_iff.mpr ⟨held, holds other held hheld, hget⟩

end Pool

/-! ### Requests for cleared memory -/

/-- **A request for cleared memory** ends as the plain request for as many bytes does: with the same
region, the same world and the same pool, but for the bytes of the region, which are zero, or with
the same failure. -/
structure PoolState.Zeroes (s : PoolState) (size : Nat) : Prop where
  served : ∀ region t, Pool.alloc size s = .ok region t → region.length = size ∧
    ∃ after, Pool.allocZeroed size s = .ok region { t with pool := after } ∧
      s.pool.Clears t.pool after region
  refused : ∀ failure t,
    Pool.allocZeroed size s = .error failure t ↔ Pool.alloc size s = .error failure t

/-- A pool that is fit clears what is asked for. -/
theorem PoolState.Fit.zeroes {s : PoolState} (fit : s.Fit) (size : Nat) : s.Zeroes size := by
  have hserved : ∀ region t, Pool.alloc size s = .ok region t → region.length = size ∧
      ∃ after, Pool.allocZeroed size s = .ok region { t with pool := after } ∧
        s.pool.Clears t.pool after region := by
    intro region t run
    obtain ⟨-, hlength, housed⟩ := (Pool.alloc_retains fit).ok_of run
    obtain ⟨after, hwrite, clears⟩ := Pool.exists_clears (Pool.allocWith_holds.ok_of run) housed
    refine ⟨hlength, after, ?_, clears⟩
    unfold Pool.allocZeroed
    rw [bind_of_ok run]
    have hclear : onPool (fun pool => return ((),
        ← pool.write region 0 (List.replicate region.length 0))) t =
        .ok () { t with pool := after } := by
      rw [onPool, hwrite]
      rfl
    rw [bind_of_ok hclear]
    rfl
  refine ⟨hserved, fun failure t => ⟨fun run => ?_, fun run => bind_of_error run⟩⟩
  -- had the plain request been served, so would this one
  cases hplain : Pool.alloc size s with
  | ok region u =>
    obtain ⟨-, after, hzeroed, -⟩ := hserved region u hplain
    rw [hzeroed] at run
    cases run
  | error other u =>
    have hzeroed : Pool.allocZeroed size s = .error other u := bind_of_error hplain
    exact hzeroed.symm.trans run

namespace Session

variable {heap : Heap} {history : List Command} {slot : Nat} {pool : Pool}

/-- **Cleared memory is clear, and clearing changes nothing else**, in every pool of every history. -/
theorem run_zeroes (here : ((Session.ofHeap heap).run history).2.pool? slot = some pool)
    (size : Nat) : PoolState.Zeroes ⟨pool, ((Session.ofHeap heap).run history).2.world⟩ size := by
  have vouched : ((Session.ofHeap heap).run history).2.Vouched := (Vouched.ofHeap heap).run
  exact (vouched.fit slot pool here).zeroes size

/-- A pool whose raw allocator hands out dirty memory has written to a range of its block and given
it back, and has written to a large buffer that it still holds. -/
def soiledHistory : List Command :=
  [.addAllocator .dirty, .createPool { size := 256 } (some ⟨0⟩), .alloc 0 5, .alloc 0 40,
    .write 0 0 (.fill 7), .write 0 1 (.fill 9), .reclaim 0 1, .alloc 0 500, .write 0 2 (.fill 3)]

/-- From the range that was given back, from a new block and from a new large buffer. -/
theorem run_zeroes_soiledHistory : ∃ pool,
    ((Session.ofHeap roomyHeap).run soiledHistory).2.pool? 0 = some pool ∧
      ∀ size ∈ [40, 150, 700],
        (((Session.ofHeap roomyHeap).run soiledHistory).2.exec (.allocZeroed 0 size)).1 =
          .region 3 ∧
        PoolState.Zeroes ⟨pool, ((Session.ofHeap roomyHeap).run soiledHistory).2.world⟩ size := by
  have present : (((Session.ofHeap roomyHeap).run soiledHistory).2.pool? 0).isSome := by
    decide +kernel
  obtain ⟨pool, here⟩ := Option.isSome_iff_exists.mp present
  have served : ∀ size ∈ [40, 150, 700],
      (((Session.ofHeap roomyHeap).run soiledHistory).2.exec (.allocZeroed 0 size)).1 =
        .region 3 := by
    decide +kernel
  exact ⟨pool, here, fun size hmem => ⟨served size hmem, run_zeroes here size⟩⟩

/-- Where a region was written to and given back, the next one reads zero. -/
example : (((Session.ofHeap roomyHeap).run
    (soiledHistory ++ [.allocZeroed 0 40])).2.exec (.copy 0 3 3 40)).1 =
      .bytes (List.replicate 40 0) := by
  decide +kernel

end Session

end RegionPool
