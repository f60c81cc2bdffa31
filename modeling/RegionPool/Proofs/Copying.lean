import RegionPool.Proofs.Bounds
import RegionPool.Proofs.Withdrawals

/-!
# What a copy moves

Bytes are copied within a block or a large buffer, between two blocks, between two large buffers,
from a block to a large buffer or the other way, and the regions may overlap in any way. All of this
is one operation to whoever looks at the bytes (`Pool.transfer_eq`): the start of the target then
holds what the start of the source held before, and nothing else changes. What is left to show is
that two regions that resolve are long enough for it, and that the checks come in their order.

* `Pool.byteAt?`, `Pool.blank` — a pool byte by byte, and all of it but the bytes;
* `Pool.Copies` — an exact copy, and `Pool.exists_copies`;
* `Pool.copy_of_rejects_source`, `Pool.copy_of_rejects_target` — the order of objections;
* `PoolState.Transcribes` — whatever comes of copying: a copy, or the first objection there is;
* `Session.run_copies` — in every pool of every history, for whatever regions the caller held.
-/

namespace RegionPool

open PoolM

/-! ### Bytes, and all the rest -/

/-- Setting all bytes of a buffer to one byte leaves no trace of what was written to it. -/
theorem Buffer.filled_overwrite (buffer : Buffer) (offset : Nat) (data : Bytes) (byte : UInt8) :
    (buffer.overwrite offset data).filled byte = buffer.filled byte := by
  have hchunks : ((Chunk.write buffer.memory.chunks offset data).map Chunk.size).map
      (Chunk.fill byte) = (buffer.memory.chunks.map Chunk.size).map (Chunk.fill byte) := by
    rw [Chunk.sizes_write]
  rw [List.map_map, List.map_map] at hchunks
  exact congrArg (fun chunks => { buffer with memory := { chunks } }) hchunks

/-- A block without its bytes: every one of them is cleared. -/
def Block.blank (block : Block) : Block := { block with buffer := block.buffer.filled 0 }

namespace Pool

variable {pool after : Pool} {source target region : Region} {store : Store} {buffer : Buffer}
  {length offset : Nat} {data bytes : Bytes} {error : PoolError}

/-- **One byte** of a store. -/
def byteAt? (pool : Pool) (store : Store) (index : Nat) : Option UInt8 :=
  (pool.storeBuffer? store).bind (·.bytes[index]?)

/-- **All of a pool but its bytes**: the blocks with their cursors and counters, the slots, and
everything that is no memory. -/
def blank (pool : Pool) : Pool :=
  { pool with
    chain := { pool.chain with blocks := pool.chain.blocks.map Block.blank }
    large := { slots := pool.large.slots.map (·.map (·.filled 0)) } }

/-- **A copy is exact**: the first bytes of the target are those that the source had, and nothing
else is another than it was. -/
structure Copies (pool : Pool) (source target : Region) (length : Nat) (after : Pool) : Prop where
  moved : ∃ read written, pool.bytes source = .ok read ∧ after.bytes target = .ok written ∧
    read.length = source.length ∧ written.length = target.length ∧
    written.take length = read.take length
  /-- Every other byte of every block and every large buffer. -/
  others : ∀ store index,
    (pool.storeOf? target.place = some store →
      index < target.place.offset ∨ target.place.offset + length ≤ index) →
    after.byteAt? store index = pool.byteAt? store index
  rest : after.blank = pool.blank

/-- A write goes no farther than what is written. -/
theorem byteAt?_overwrite {index : Nat} (hstore : pool.storeBuffer? store = some buffer)
    (inside : offset + data.length ≤ buffer.length) (other : Store)
    (apart : other = store → index < offset ∨ offset + data.length ≤ index) :
    (pool.overwrite store offset data).byteAt? other index = pool.byteAt? other index := by
  rw [byteAt?, byteAt?, storeBuffer?_overwrite]
  split
  · next heq =>
    subst heq
    rw [hstore, Option.map_some, Option.bind_some, Option.bind_some, Buffer.bytes_overwrite inside,
      Bytes.getElem?_overwrite (by rw [Buffer.length_bytes]; exact inside)]
    -- the same store was written to, but not at this index
    have houtside := apart rfl
    exact if_neg (by omega)
  · rfl

/-- A write changes bytes only. -/
theorem blank_overwrite : (pool.overwrite store offset data).blank = pool.blank := by
  cases store with
  | block index =>
    have hblocks : (pool.chain.overwrite index offset data).blocks.map Block.blank =
        pool.chain.blocks.map Block.blank :=
      Chain.map_blocks_overwrite Block.blank fun block => by
        rw [Block.blank, Block.overwrite, Buffer.filled_overwrite, Block.blank]
    exact congrArg (fun blocks => { pool.blank with chain := { pool.chain with blocks } }) hblocks
  | slot index =>
    have hslots : (pool.large.overwrite index offset data).slots.map (·.map (·.filled 0)) =
        pool.large.slots.map (·.map (·.filled 0)) :=
      LargeTable.map_slots_overwrite _ fun buffer => Buffer.filled_overwrite buffer offset data 0
    exact congrArg (fun slots => { pool.blank with large := { slots } }) hslots

/-! ### An exact copy -/

/-- **A region that is housed** reads what its buffer holds at its place. -/
theorem Houses.bytes_eq (housed : pool.Houses region)
    (hbuffer : pool.bufferAt? region.place = some buffer) :
    pool.bytes region = .ok ((buffer.bytes.drop region.place.offset).take region.length) ∧
      ((buffer.bytes.drop region.place.offset).take region.length).length = region.length := by
  obtain ⟨other, hother, hinside⟩ := housed.exists_buffer
  obtain rfl := Option.some.inj (hbuffer.symm.trans hother)
  constructor
  · exact bytes_eq_ok_iff.mpr ⟨housed.owner, housed.generation,
      content?_eq_some_iff.mpr ⟨buffer, hbuffer, hinside, rfl⟩⟩
  · rw [List.length_take, List.length_drop, Buffer.length_bytes]
    omega

/-- **Copying between regions that are housed** comes to an end, and the copy is exact. -/
theorem exists_copies (hsource : pool.Houses source) (htarget : pool.Houses target)
    (inside : length ≤ source.length ∧ length ≤ target.length) :
    ∃ after, pool.copy source target length = .ok after ∧
      pool.Copies source target length after := by
  obtain ⟨after, hrun⟩ := Houses.exists_copy hsource htarget inside
  refine ⟨after, hrun, ?_⟩
  obtain ⟨-, store, data, hdata, hlength, hstore, -, rfl⟩ := copy_eq_ok hrun
  obtain ⟨buffer, hbuffer, -⟩ := hsource.exists_buffer
  obtain ⟨buffer', hbuffer', hinside'⟩ := htarget.exists_buffer
  have hstore' : pool.storeBuffer? store = some buffer' := by
    rwa [bufferAt?, hstore, Option.bind_some] at hbuffer'
  have hroom : target.place.offset + data.length ≤ buffer'.length := by omega
  refine ⟨?_, fun other index apart => ?_, blank_overwrite⟩
  · obtain ⟨hread, hreadLength⟩ := hsource.bytes_eq hbuffer
    -- the start of the source is what was read before anything was written
    have hstart :
        ((buffer.bytes.drop source.place.offset).take source.length).take length = data := by
      obtain ⟨-, -, hcontent⟩ := bytes_eq_ok_iff.mp hdata
      obtain ⟨other, hother, -, heq⟩ := content?_eq_some_iff.mp hcontent
      obtain rfl := Option.some.inj (hbuffer.symm.trans hother)
      rw [List.take_take, Nat.min_eq_left inside.1]
      exact heq
    have housed : (pool.overwrite store target.place.offset data).Houses target := by
      refine htarget.of_siteOf? ?_ ?_ fun site hsite => (siteOf?_overwrite ..).trans hsite
      · cases store <;> rfl
      · cases store <;> rfl
    have hwritten : (pool.overwrite store target.place.offset data).bufferAt? target.place =
        some (buffer'.overwrite target.place.offset data) := by
      rw [bufferAt?_overwrite, if_pos hstore, hbuffer', Option.map_some]
    obtain ⟨hread', hreadLength'⟩ := housed.bytes_eq hwritten
    refine ⟨_, _, hread, hread', hreadLength, hreadLength', ?_⟩
    rw [hstart, List.take_take, Nat.min_eq_left inside.2, Buffer.bytes_overwrite hroom]
    have hself : Bytes.slice? (Bytes.overwrite buffer'.bytes target.place.offset data)
        target.place.offset length = some data := by
      rw [← hlength]
      exact Bytes.slice?_overwrite_self (by rw [Buffer.length_bytes]; exact hroom)
    exact (Bytes.slice?_eq_some_iff.mp hself).2
  · refine byteAt?_overwrite hstore' hroom other fun heq => ?_
    rw [hlength]
    exact apart (heq ▸ hstore)

/-! ### Objections -/

/-- An objection to the source comes first. -/
theorem copy_of_rejects_source (inside : length ≤ source.length ∧ length ≤ target.length)
    (rejects : pool.Rejects source error) :
    pool.copy source target length = .error (.refused error) := by
  rw [copy, if_pos inside, resolved, resolve_eq_error_iff.mpr rejects]
  rfl

/-- If there is none, one to the target comes next. -/
theorem copy_of_rejects_target (inside : length ≤ source.length ∧ length ≤ target.length)
    (knows : pool.Knows source) (rejects : pool.Rejects target error) :
    pool.copy source target length = .error (.refused error) := by
  obtain ⟨found, hfound⟩ := knows
  rw [copy, if_pos inside, resolved, hfound, resolved, resolve_eq_error_iff.mpr rejects]
  rfl

end Pool

/-! ### In every history -/

/-- **Whatever comes of copying**: an exact copy if both regions resolve, and nothing but the
objection to the source or else to the target if not. The world has no part in it. -/
structure PoolState.Transcribes (s : PoolState) (source target : Region) (length : Nat) :
    Prop where
  copied : s.pool.Knows source → s.pool.Knows target → ∃ after,
    onPool (fun pool => return ((), ← pool.copy source target length)) s =
      .ok () { s with pool := after } ∧ s.pool.Copies source target length after
  sourceRejected : ∀ error, s.pool.Rejects source error →
    onPool (fun pool => return ((), ← pool.copy source target length)) s =
      .error (.refused error) s
  targetRejected : ∀ error, s.pool.Knows source → s.pool.Rejects target error →
    onPool (fun pool => return ((), ← pool.copy source target length)) s =
      .error (.refused error) s

/-- Regions that are guarded are copied between. -/
theorem PoolState.transcribes {s : PoolState} {source target : Region} {length : Nat}
    (hsource : s.pool.Guards source) (htarget : s.pool.Guards target)
    (inside : length ≤ source.length ∧ length ≤ target.length) :
    s.Transcribes source target length := by
  -- both are known, the source is not, or the target is not while the source is
  refine ⟨fun knows knows' => ?_, fun error rejects => ?_, fun error knows rejects => ?_⟩
  · obtain ⟨after, hrun, copies⟩ :=
      Pool.exists_copies (hsource knows) (htarget knows') inside
    refine ⟨after, ?_, copies⟩
    rw [onPool, hrun]
    rfl
  · rw [onPool, Pool.copy_of_rejects_source inside rejects]
    rfl
  · rw [onPool, Pool.copy_of_rejects_target inside knows rejects]
    rfl

namespace Session

variable {slot : Nat} {pool : Pool}

/-- **Every copy is exact**, in every pool of every history, between whatever regions were held at
any time. -/
theorem run_copies {heap : Heap} {history : List Command}
    (admitted : (Session.ofHeap heap).AdmitsAll history)
    (here : ((Session.ofHeap heap).run history).2.pool? slot = some pool) (source target : Region)
    (hsource : (Session.ofHeap heap).HeldIn history source)
    (htarget : (Session.ofHeap heap).HeldIn history target) (length : Nat)
    (inside : length ≤ source.length ∧ length ≤ target.length) :
    PoolState.Transcribes ⟨pool, ((Session.ofHeap heap).run history).2.world⟩ source target
      length :=
  PoolState.transcribes (hsource.guards admitted here) (htarget.guards admitted here) inside

/-- Regions that overlap, since one of them was given back and its bytes were handed out again, and
one that is large. -/
def overlappingHistory : List Command :=
  [.createPool { size := 256 } none, .alloc 0 40, .reclaim 0 0, .alloc 0 8, .alloc 0 40,
    .write 0 1 (.fill 5), .write 0 2 (.fill 9), .alloc 0 500]

/-- The first region is copied to the third one, which starts inside it. -/
theorem run_copies_overlappingHistory : ∃ pool source target,
    (Session.ofHeap roomyHeap).AdmitsAll overlappingHistory ∧
      ((Session.ofHeap roomyHeap).run overlappingHistory).2.pool? 0 = some pool ∧
      (Session.ofHeap roomyHeap).HeldIn overlappingHistory source ∧
      (Session.ofHeap roomyHeap).HeldIn overlappingHistory target ∧
      source.place = .block 0 80 ∧ target.place = .block 0 88 ∧
      40 ≤ source.length ∧ 40 ≤ target.length ∧
      PoolState.Transcribes ⟨pool, ((Session.ofHeap roomyHeap).run overlappingHistory).2.world⟩
        source target 40 := by
  have admitted : (Session.ofHeap roomyHeap).AdmitsAll overlappingHistory := by decide +kernel
  have present : (((Session.ofHeap roomyHeap).run overlappingHistory).2.pool? 0).isSome := by
    decide +kernel
  obtain ⟨pool, here⟩ := Option.isSome_iff_exists.mp present
  -- the target starts eight bytes behind the source, so the two overlap
  let source : Region := ⟨⟨1⟩, 0, 40, .block 0 80⟩
  let target : Region := ⟨⟨1⟩, 0, 40, .block 0 88⟩
  have hsource : (Session.ofHeap roomyHeap).HeldIn overlappingHistory source :=
    ⟨overlappingHistory, [], rfl, by decide +kernel⟩
  have htarget : (Session.ofHeap roomyHeap).HeldIn overlappingHistory target :=
    ⟨overlappingHistory, [], rfl, by decide +kernel⟩
  have inside : 40 ≤ source.length ∧ 40 ≤ target.length := ⟨Nat.le_refl 40, Nat.le_refl 40⟩
  exact ⟨pool, source, target, admitted, here, hsource, htarget, rfl, rfl, inside.1, inside.2,
    run_copies admitted here source target hsource htarget 40 inside⟩

/-- What the source held before is found in the target, also where they overlap. -/
example : (((Session.ofHeap roomyHeap).run overlappingHistory).2.exec (.copy 0 0 2 40)).1 =
    .bytes (List.replicate 8 5 ++ List.replicate 32 9) := by
  decide +kernel

end Session

end RegionPool
