import RegionPool.Pool.Release
import RegionPool.Proofs.Books
import RegionPool.Proofs.Leases

/-!
# What allocation leases

An allocation that ends with a region has leased the region, and whether it ends with a region or
not, the leases from before are still honoured. What an operation does to raw memory on its way does
not matter here, except that the number of a new large buffer is new.

* `growFor_leases`, `allocSmall_leases` — small requests, with or without a new block;
* `enterLarge_leases`, `allocLarge_leases`, `allocAlignedTo_leases` — requests with a buffer of
  their own;
* `write_leases`, `copy_leases`, `extend_leases`, `reclaim_leases`, `free_leases` — what is done
  with a region;
* `alloc_leases`, `allocUnaligned_leases`, `allocZeroed_leases`, `addCleanup_leases`.
-/

namespace RegionPool

/-- **A pool honours leases in its world**: and no large buffer it holds has a number that is yet to
be given. -/
structure PoolState.Honours (s : PoolState) (leases : List Lease) : Prop where
  pool : s.pool.Honours leases
  numbered : ∀ held ∈ s.pool.large.buffers, held.id.number < s.world.nextBuffer

/-- **A region is leased**, beside other leases. -/
def PoolState.Leases (s : PoolState) (size : Nat) (region : Region) (leases : List Lease) : Prop :=
  region.length = size ∧ ∃ bytes, s.Honours (⟨region, bytes⟩ :: leases)

namespace PoolState.Honours

variable {s : PoolState} {leases leases' : List Lease} {lease : Lease}

theorem perm (h : s.Honours leases) (hperm : leases.Perm leases') : s.Honours leases' :=
  ⟨h.pool.perm hperm, h.numbered⟩

theorem sublist (h : s.Honours leases) (hsub : leases'.Sublist leases) : s.Honours leases' :=
  ⟨h.pool.sublist hsub, h.numbered⟩

theorem tail (h : s.Honours (lease :: leases)) : s.Honours leases :=
  h.sublist (List.sublist_cons_self lease leases)

/-- The world may change in any way that does not give numbers again. -/
theorem setWorld (h : s.Honours leases) {world : World}
    (hnext : s.world.nextBuffer ≤ world.nextBuffer) : { s with world }.Honours leases :=
  ⟨h.pool, fun held hmem => Nat.lt_of_lt_of_le (h.numbered held hmem) hnext⟩

end PoolState.Honours

namespace Pool

open PoolM

variable {s : PoolState} {leases : List Lease} {size : Nat} {packing : Packing}

/-! ### Small requests -/

/-- **A new block** leases what it was made for. -/
theorem growFor_leases (h : s.Honours leases) :
    Ends (growFor size) s
      (fun region t => t.Leases size region leases ∧ t.pool.large = s.pool.large ∧
        s.world.nextBuffer ≤ t.world.nextBuffer)
      (fun _ t => t.Honours leases) := by
  simp only [growFor, ends_bind, ends_getPool]
  rw [ends_request]
  constructor
  · intro buffer world hgranted
    have hworld : s.world.nextBuffer ≤ world.nextBuffer := by
      rw [(World.request_ok hgranted).nextBuffer]
      exact Nat.le_succ _
    -- a block without room is not entered in the chain, and the leases are as before
    cases hbump : (Block.ofBuffer buffer Layout.blockHeaderSize).bump? size .aligned with
    | none =>
      simp only [ends_refuse]
      exact h.setWorld hworld
    | some claimed =>
      obtain ⟨offset, block⟩ := claimed
      obtain ⟨bytes, hhonours⟩ := h.pool.grow hbump
      simp only [ends_bind, ends_getPool, ends_setPool, ends_log, ends_pure]
      -- the new block is the last one, under the number of blocks there were before
      have hindex : (Chain.grow s.pool.chain block).blocks.length - 1 = s.pool.blockCount := by
        rw [Chain.length_blocks_grow, Nat.add_sub_cancel]
        rfl
      refine ⟨⟨rfl, bytes, ?_, ?_⟩, trivial, hworld⟩
      · rw [blockCount, hindex]
        exact hhonours
      · exact (h.setWorld hworld).numbered
  · intro error world hrefused
    refine h.setWorld (Nat.le_of_eq ?_)
    exact (World.request_error hrefused).nextBuffer.symm

/-- **A small request** leases what it claimed, in an old block or a new one. -/
theorem allocSmall_leases (h : s.Honours leases) :
    Ends (allocSmall size packing) s
      (fun region t => t.Leases size region leases ∧ t.pool.large = s.pool.large ∧
        s.world.nextBuffer ≤ t.world.nextBuffer)
      (fun _ t => t.Honours leases) := by
  simp only [allocSmall, ends_bind, ends_getPool]
  split
  · next index offset chain hclaim =>
    obtain ⟨bytes, hhonours⟩ := h.pool.claim hclaim
    simp only [ends_bind, ends_setPool, ends_pure]
    exact ⟨⟨rfl, bytes, hhonours, h.numbered⟩, trivial, Nat.le_refl _⟩
  · exact growFor_leases h

/-! ### Large requests -/

/-- Giving a buffer back leaves the leases, in whatever way it ends. -/
theorem release_honours {buffer : Buffer} (h : s.Honours leases) :
    Ends (release buffer) s (fun _ t => t.Honours leases) (fun _ t => t.Honours leases) := by
  rw [ends_release]
  constructor
  · intro world hreleased
    refine h.setWorld (Nat.le_of_eq ?_)
    exact (World.release_ok hreleased).nextBuffer.symm
  · intro fault world hreleased
    obtain ⟨-, rfl, -⟩ := World.release_error hreleased
    exact h.setWorld (Nat.le_refl _)

/-- A buffer with a new number is leased once it has a slot. -/
private theorem honours_of_slot {buffer : Buffer} {large : LargeTable} (h : s.Honours leases)
    (hself : large.find? buffer.id = some buffer)
    (hothers : ∀ id, buffer.id ≠ id → large.find? id = s.pool.large.find? id)
    (hmem : ∀ held, held ∈ large.buffers ↔ held = buffer ∨ held ∈ s.pool.large.buffers)
    (hfresh : ∀ held ∈ s.pool.large.buffers, held.id ≠ buffer.id)
    (hnumber : buffer.id.number < s.world.nextBuffer) :
    { s with pool := { s.pool with large } }.Honours
      (⟨s.pool.regionAt buffer.length (.large buffer.id), buffer.bytes⟩ :: leases) where
  pool := h.pool.enter hself hothers hfresh
  numbered held hheld := by
    rcases (hmem held).mp hheld with rfl | hold
    · exact hnumber
    · exact h.numbered held hold

/-- **A record for a large buffer**: the buffer is leased, or given back. -/
theorem enterLarge_leases {buffer : Buffer} (h : s.Honours leases)
    (hfresh : ∀ held ∈ s.pool.large.buffers, held.id ≠ buffer.id)
    (hnumber : buffer.id.number < s.world.nextBuffer) :
    Ends (enterLarge buffer) s
      (fun _ t => t.Honours
        (⟨t.pool.regionAt buffer.length (.large buffer.id), buffer.bytes⟩ :: leases))
      (fun _ t => t.Honours leases) := by
  simp only [enterLarge, ends_bind, ends_discard, ends_getPool, ends_setPool]
  rw [ends_orRelease]
  refine (allocSmall_leases h).mono ?_ ?_
  · rintro region t ⟨⟨-, bytes, hleased⟩, hlarge, hnext⟩
    -- the record itself is nobody's to read: its lease is given up
    have ht : t.Honours leases := hleased.tail
    refine honours_of_slot ht LargeTable.find?_push_self (fun id => LargeTable.find?_push_of_ne)
      (fun held => ?_) (fun held hheld => hfresh held (hlarge ▸ hheld))
      (Nat.lt_of_lt_of_le hnumber hnext)
    rw [LargeTable.buffers_push, List.mem_cons]
  · intro failure t ht
    cases failure with
    -- a refused record gives the buffer back, which no lease is about
    | fault fault => exact ht
    | refused error => exact release_honours ht

/-- A granted buffer is new to the table. -/
private theorem fresh_of_granted {buffer : Buffer} {world : World} {id : AllocatorId}
    (h : s.Honours leases) (hgranted : s.world.Grants id buffer world) :
    (∀ held ∈ s.pool.large.buffers, held.id ≠ buffer.id) ∧
      buffer.id.number < world.nextBuffer ∧ { s with world }.Honours leases := by
  refine ⟨fun held hmem heq => ?_, ?_, h.setWorld ?_⟩
  · -- a buffer that is held was given its number before
    have hlt := h.numbered held hmem
    rw [heq, hgranted.number] at hlt
    exact Nat.lt_irrefl _ hlt
  · rw [hgranted.number, hgranted.nextBuffer]
    exact Nat.lt_succ_self _
  · rw [hgranted.nextBuffer]
    exact Nat.le_succ _

/-- **A large request** leases a whole buffer. -/
theorem allocLarge_leases (h : s.Honours leases) :
    Ends (allocLarge size) s (fun region t => t.Leases size region leases)
      (fun _ t => t.Honours leases) := by
  simp only [allocLarge, ends_bind, ends_getPool]
  rw [ends_request]
  constructor
  · intro buffer world hgranted
    obtain ⟨hfresh, hnumber, ht⟩ := fresh_of_granted h (World.request_ok hgranted)
    obtain rfl : buffer.length = size := World.length_of_request hgranted
    split
    · next large hreuse =>
      simp only [ends_bind, ends_setPool, ends_getPool, ends_log, ends_pure]
      -- an empty slot takes the buffer; otherwise a new slot does, once it has a record
      have hslot := honours_of_slot ht (LargeTable.find?_reuse?_self hreuse hfresh)
        (fun id => LargeTable.find?_reuse?_of_ne hreuse)
        (fun held => by rw [(LargeTable.buffers_reuse? hreuse).mem_iff, List.mem_cons])
        hfresh hnumber
      exact ⟨rfl, buffer.bytes, hslot.setWorld (Nat.le_refl _)⟩
    · simp only [ends_bind, ends_getPool, ends_log, ends_pure]
      refine (enterLarge_leases ht hfresh hnumber).mono (fun _ t ht' => ?_) fun _ _ ht' => ht'
      exact ⟨rfl, buffer.bytes, ht'.setWorld (Nat.le_refl _)⟩
  · intro error world hrefused
    refine h.setWorld (Nat.le_of_eq ?_)
    exact (World.request_error hrefused).nextBuffer.symm

/-- **A request at an alignment** leases a whole buffer. -/
theorem allocAlignedTo_leases {align : Nat} (h : s.Honours leases) :
    Ends (allocAlignedTo size align) s (fun region t => t.Leases size region leases)
      (fun _ t => t.Honours leases) := by
  rw [allocAlignedTo]
  split
  · simp only [ends_bind, ends_getPool, ends_pure]
    rw [ends_request]
    constructor
    · intro buffer world hgranted
      -- a buffer that was granted just now is leased to nobody yet
      obtain ⟨hfresh, hnumber, ht⟩ := fresh_of_granted h (World.request_ok hgranted)
      obtain rfl : buffer.length = size := World.length_of_request hgranted
      refine (enterLarge_leases ht hfresh hnumber).mono (fun _ t ht' => ?_) fun _ _ ht' => ht'
      exact ⟨rfl, buffer.bytes, ht'⟩
    · intro error world hrefused
      refine h.setWorld (Nat.le_of_eq ?_)
      exact (World.request_error hrefused).nextBuffer.symm
  · exact h

/-! ### Requests of any size -/

theorem allocWith_leases (h : s.Honours leases) :
    Ends (allocWith packing size) s (fun region t => t.Leases size region leases)
      (fun _ t => t.Honours leases) := by
  simp only [allocWith, ends_bind, ends_getPool]
  split
  · exact (allocSmall_leases h).mono (fun _ _ ht => ht.1) fun _ _ ht => ht
  · exact allocLarge_leases h

/-- **An allocation** of any size leases what it returns. -/
theorem alloc_leases (h : s.Honours leases) :
    Ends (alloc size) s (fun region t => t.Leases size region leases)
      (fun _ t => t.Honours leases) :=
  allocWith_leases h

theorem allocUnaligned_leases (h : s.Honours leases) :
    Ends (allocUnaligned size) s (fun region t => t.Leases size region leases)
      (fun _ t => t.Honours leases) :=
  allocWith_leases h

/-! ### Access -/

/-- A change to the pool that leaves the numbers of its large buffers. -/
theorem honours_setPool {after : Pool} {leases' : List Lease} (h : s.Honours leases)
    (hafter : after.Honours leases')
    (hids : after.large.buffers.map Buffer.id = s.pool.large.buffers.map Buffer.id) :
    { s with pool := after }.Honours leases' where
  pool := hafter
  numbered held hmem := by
    have hheld : held.id ∈ s.pool.large.buffers.map Buffer.id := hids ▸ List.mem_map_of_mem hmem
    obtain ⟨old, hold, heq⟩ := List.mem_map.mp hheld
    exact heq ▸ h.numbered old hold

section Access

variable {lease : Lease}

/-- **A write** inside a leased region changes the bytes of its lease, and it does not fail. -/
theorem write_leases {start : Nat} {data : Bytes} (h : s.Honours (lease :: leases))
    (hfits : start + data.length ≤ lease.region.length) :
    Ends (onPool fun pool => return ((), ← pool.write lease.region start data)) s
      (fun _ t => t.Honours (⟨lease.region, lease.bytes.overwrite start data⟩ :: leases))
      (fun _ _ => False) := by
  obtain ⟨after, hrun, hafter⟩ := h.pool.write hfits
  obtain ⟨-, store, -, -, rfl⟩ := write_eq_ok hrun
  rw [ends_onPool, hrun]
  constructor
  -- what comes back is determined, so there is only one result to look at
  · intro a pool heq
    obtain ⟨-, rfl⟩ := Prod.mk.inj (Except.ok.inj heq)
    exact honours_setPool h hafter ids_large_overwrite
  · intro failure heq
    cases heq

/-- **A copy** to a leased region writes what the start of the source reads. -/
theorem copy_leases {source : Region} {length : Nat} (h : s.Honours (lease :: leases)) :
    Ends (onPool fun pool => return ((), ← pool.copy source lease.region length)) s
      (fun _ t => ∃ data, s.pool.bytes { source with length } = .ok data ∧ data.length = length ∧
        t.Honours (⟨lease.region, lease.bytes.overwrite 0 data⟩ :: leases))
      (fun _ t => t = s) := by
  rw [ends_onPool]
  refine ⟨fun a pool heq => ?_, fun _ _ => rfl⟩
  obtain ⟨after, hrun, hpure⟩ := bind_eq_ok_iff.mp heq
  obtain ⟨-, rfl⟩ := Prod.mk.inj (pure_eq_ok_iff.mp hpure)
  obtain ⟨data, hdata, hlength, hafter⟩ := h.pool.copy hrun
  obtain ⟨-, store, bytes, -, -, -, -, rfl⟩ := copy_eq_ok hrun
  exact ⟨data, hdata, hlength, honours_setPool h hafter ids_large_overwrite⟩

/-- **An extension** lengthens a lease, or does nothing. -/
theorem extend_leases {additional : Nat} (h : s.Honours (lease :: leases)) :
    Ends (onPool (·.extend lease.region additional)) s
      (fun extended t => match extended with
        | some longer =>
          longer = { lease.region with length := lease.region.length + additional } ∧
            ∃ tail, tail.length = additional ∧ t.Honours (⟨longer, lease.bytes ++ tail⟩ :: leases)
        | none => t = s)
      (fun _ t => t = s) := by
  rw [ends_onPool]
  refine ⟨fun extended pool hrun => ?_, fun _ _ => rfl⟩
  cases extended with
  | none => rw [eq_of_extend_none hrun]
  | some longer =>
    obtain ⟨hlonger, tail, htail, hafter⟩ := h.pool.extend hrun
    refine ⟨hlonger, tail, htail, honours_setPool h hafter ?_⟩
    -- either way the large buffers are not touched
    rcases extend_eq_ok hrun with ⟨-, rfl⟩ | ⟨index, block, -, -, -, -, -, rfl⟩ <;> rfl

/-- **Giving back** what was claimed last ends a lease. Large regions stay. -/
theorem reclaim_leases (h : s.Honours (lease :: leases)) :
    Ends (onPool (·.reclaim lease.region)) s
      (fun done t => t.Honours leases ∧ (done = false → t = s) ∧
        (done = true → ∃ index offset, lease.region.place = .block index offset))
      (fun _ t => t = s) := by
  rw [ends_onPool]
  refine ⟨fun done pool hrun => ?_, fun _ _ => rfl⟩
  have hafter := h.pool.reclaim hrun
  rcases reclaim_eq_ok hrun with ⟨rfl, rfl⟩ | ⟨index, block, hplace, -, -, rfl, rfl⟩
  · exact ⟨h.tail, fun _ => rfl, nofun⟩
  · exact ⟨honours_setPool h hafter rfl, nofun, fun _ => ⟨index, _, hplace⟩⟩

end Access

/-! ### Giving back early -/

/-- **A large buffer given back** is not held any more, and a lease of another region is honoured as
before. A region that is not found leaves everything as it is, and only the raw allocator can make
this fail. -/
theorem free_leases {region : Region} :
    Ends (free region) s
      (fun status t => match status with
        | .freed => ∃ id, region.place = .large id ∧
            (s.pool.buffers.map Buffer.id).Perm (id :: t.pool.buffers.map Buffer.id) ∧
            t.world.nextBuffer = s.world.nextBuffer ∧
            ∀ leases, s.Honours leases → (∀ lease ∈ leases, lease.region.place ≠ .large id) →
              t.Honours leases
        | .notFound => t = s)
      (fun failure _ => ∃ id, failure = .fault (.untrackedFree id)) := by
  simp only [free, ends_bind, ends_getPool]
  split
  · rfl
  next id hplace =>
  split
  · split
    · rfl
    next buffer large htake =>
    simp only [ends_bind, ends_setPool, ends_log, ends_pure]
    rw [ends_release]
    refine ⟨fun world call => ⟨id, hplace, ?_, ?_, fun leases h hothers => ⟨?_, ?_⟩⟩,
      fun fault world call => ⟨buffer.id, congrArg _ (World.release_error call).1⟩⟩
    · have hheld := LargeTable.buffers_take? htake
      -- the buffers of the pool are the large ones and then those of the blocks
      have hids := (hheld.append_right (s.pool.chain.blocks.map Block.buffer)).map Buffer.id
      rw [List.cons_append, List.map_cons, LargeTable.id_of_take? htake] at hids
      exact hids
    · exact (World.release_ok call).nextBuffer
    · exact h.pool.withdraw htake hothers
    · intro held hmem
      rw [(World.release_ok call).nextBuffer]
      refine h.numbered held ((LargeTable.buffers_take? htake).mem_iff.mpr ?_)
      exact List.mem_cons_of_mem _ hmem
  · rfl

/-- **A zeroed allocation** leases bytes that are zero. -/
theorem allocZeroed_leases (h : s.Honours leases) :
    Ends (allocZeroed size) s
      (fun region t => region.length = size ∧ t.Honours (⟨region, List.replicate size 0⟩ :: leases))
      (fun _ t => t.Honours leases) := by
  simp only [allocZeroed, ends_bind, ends_pure]
  refine (alloc_leases h).mono (fun region t ht => ?_) fun _ _ ht => ht
  obtain ⟨rfl, bytes, hleased⟩ := ht
  have hfits : 0 + (List.replicate region.length (0 : UInt8)).length ≤ region.length := by
    rw [List.length_replicate, Nat.zero_add]
  refine (write_leases hleased hfits).mono (fun _ u hu => ⟨rfl, ?_⟩) fun _ _ hu => hu.elim
  -- the write covers the region, so nothing is left of what was there
  have hbytes : bytes.length = region.length := hleased.pool.head.length_bytes
  have hwhole : bytes.overwrite 0 (List.replicate region.length 0) =
      List.replicate region.length 0 := by
    rw [Bytes.overwrite, List.take_zero, List.nil_append, List.drop_of_length_le (by simp; omega),
      List.append_nil]
  rwa [hwhole] at hu

/-- The cleanup records of a pool do not concern its leases. -/
theorem Honours.setCleanups {pool : Pool} (h : pool.Honours leases) (cleanups : CleanupStack) :
    { pool with cleanups }.Honours leases :=
  ⟨h.sound, fun lease hmem => (h.keeps lease hmem).frame rfl rfl (fun _ hbuffer => hbuffer)
    fun _ _ block _ _ hget hle => ⟨block, hget, rfl, hle⟩, h.apart⟩

/-- **A cleanup record** leases its data, if it has any. -/
theorem addCleanup_leases {dataSize : Nat} (h : s.Honours leases) :
    Ends (addCleanup dataSize) s
      (fun ticket t => match ticket.data with
        | some region => t.Leases dataSize region leases
        | none => t.Honours leases)
      (fun _ t => t.Honours leases) := by
  simp only [addCleanup, ends_bind, ends_discard]
  refine (allocSmall_leases h).mono (fun _ t ht => ?_) fun _ _ ht => ht
  -- the record comes first; it is nobody's to read, so only the data is leased
  obtain ⟨⟨-, bytes, hrecord⟩, -⟩ := ht
  split
  · simp only [ends_bind, ends_pure, ends_getPool, ends_setPool, ends_log]
    exact ⟨hrecord.tail.pool.setCleanups _, hrecord.numbered⟩
  · simp only [ends_bind, ends_map, ends_pure, ends_getPool, ends_setPool, ends_log]
    refine (alloc_leases hrecord.tail).mono (fun region u hu => ?_) fun _ _ hu => hu
    obtain ⟨hlength, data, hdata⟩ := hu
    exact ⟨hlength, data, hdata.pool.setCleanups _, hdata.numbered⟩

end Pool

end RegionPool
