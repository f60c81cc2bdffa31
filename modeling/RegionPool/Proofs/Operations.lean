import RegionPool.Container.GrowArray
import RegionPool.Container.PartList
import RegionPool.Proofs.Moves
import RegionPool.Workload

/-!
# Every operation is orderly

The operations of a pool and of its containers are made of moves, and end with nothing in hand
(`Orderly`), in whatever way they end. Allocation is where buffers come into hand: a block joins the
chain only once it has served its request, and a large buffer for which no record can be reserved is
given back (`enterLarge_carries`).

* `alloc_orderly` and its like, `free_orderly` — allocation;
* `addCleanup_orderly`, `setCleanup_orderly` and their like — cleanup records;
* `write_orderly`, `copy_orderly`, `extend_orderly`, `reclaim_orderly` — memory;
* `GrowArray.push_orderly`, `PartList.push_orderly` and their like — containers.
-/

namespace RegionPool

open PoolM Relation

/-! ### Failures that are not the allocator's -/

/-- **A function whose failures are its own**: none of them is that a buffer was not taken back. -/
def Contained {α : Type} (x : Except Failure α) : Prop :=
  ∀ failure, x = .error failure → ∀ id, failure ≠ .fault (.untrackedFree id)

namespace Contained

variable {α β : Type} {x : Except Failure α}

theorem ok (a : α) : Contained (.ok a : Except Failure α) := nofun

theorem pure (a : α) : Contained (Pure.pure a : Except Failure α) := nofun

theorem refused (error : PoolError) : Contained (.error (.refused error) : Except Failure α) := by
  rintro _ ⟨⟩ id h
  cases h

theorem outOfRange : Contained (.error (.fault .outOfRange) : Except Failure α) := by
  rintro _ ⟨⟩ id h
  cases h

theorem bind (h : Contained x) {next : α → Except Failure β} (hnext : ∀ a, Contained (next a)) :
    Contained (x >>= next) := by
  intro failure heq
  cases hx : x with
  | error failure' =>
    rw [hx] at heq
    cases heq
    exact h _ hx
  | ok a =>
    rw [hx] at heq
    exact hnext a failure heq

theorem map {f : α → β} (h : Contained x) : Contained (f <$> x) := by
  cases x with
  | error failure =>
    intro failure' heq
    cases heq
    exact h failure rfl
  | ok a => exact .ok (f a)

theorem ite {c : Prop} [Decidable c] {y : Except Failure α} (hx : Contained x) (hy : Contained y) :
    Contained (if c then x else y) := by
  split
  · exact hx
  · exact hy

end Contained

namespace Pool

variable {pool : Pool} {region : Region}

theorem resolved_contained : Contained (pool.resolved region) := by
  unfold resolved
  cases pool.resolve region with
  | ok found => exact .ok found
  | error error => exact .refused error

theorem load_contained {store : Store} {offset length : Nat} :
    Contained (pool.load store offset length) := by
  rw [load]
  split
  · exact .ok _
  · exact .outOfRange

theorem bytes_contained : Contained (pool.bytes region) :=
  resolved_contained.bind fun _ => load_contained

theorem locate_contained : Contained (pool.locate region) :=
  resolved_contained.bind fun _ => .ite (.pure _) .outOfRange

theorem bytesIn_contained {start length : Nat} : Contained (pool.bytesIn region start length) :=
  locate_contained.bind fun _ => .ite load_contained .outOfRange

theorem write_contained {start : Nat} {data : Bytes} : Contained (pool.write region start data) :=
  locate_contained.bind fun _ => .ite (.pure _) .outOfRange

theorem writeContent_contained {content : Content} : Contained (pool.writeContent region content) :=
  bytes_contained.bind fun _ => write_contained

theorem transfer_contained {source target : Store} {start offset length : Nat} :
    Contained (pool.transfer source target start offset length) := by
  rw [transfer_eq]
  exact load_contained.bind fun _ => .ite (.ok _) .outOfRange

theorem copy_contained {source target : Region} {length : Nat} :
    Contained (pool.copy source target length) := by
  refine .ite ?_ ?_
  · exact resolved_contained.bind fun _ => resolved_contained.bind fun _ => transfer_contained
  · rintro _ ⟨⟩ id h
    cases h

theorem extend_contained {additional : Nat} : Contained (pool.extend region additional) := by
  refine resolved_contained.bind fun ⟨store, offset⟩ => ?_
  cases store with
  | slot index => exact .pure _
  | block index =>
    dsimp only
    split
    · exact .outOfRange
    · split <;> exact .pure _

theorem reclaim_contained : Contained (pool.reclaim region) := by
  refine resolved_contained.bind fun ⟨store, offset⟩ => ?_
  cases store with
  | slot index => exact .pure _
  | block index =>
    dsimp only
    split
    · exact .outOfRange
    · split <;> exact .pure _

/-! ### Allocation -/

/-- **A new block has room** for a request of this size. -/
def Serves (pool : Pool) (size : Nat) : Prop := Layout.blockHeaderSize + size ≤ pool.blockSize

namespace Sized

variable {size : Nat}

/-- Requests up to the threshold are served by a new block. -/
theorem serves_of_le_max (sized : pool.Sized) (h : size ≤ pool.max) : pool.Serves size := by
  have hheader : Layout.blockHeaderSize ≤ Layout.poolHeaderSize := by decide
  have := sized.max
  rw [Serves]
  omega

/-- The records of the pool itself are served by a new block. -/
theorem serves_record (sized : pool.Sized) (h : size ≤ Layout.minMaxAlloc) : pool.Serves size := by
  have hroom : Layout.blockHeaderSize + Layout.minMaxAlloc ≤ Layout.minPoolSize := by decide
  have := sized.min
  rw [Serves]
  omega

end Sized

/-- A new block serves the request it was made for. -/
theorem exists_bump? {buffer : Buffer} {size : Nat} (h : pool.Serves size)
    (hlength : buffer.length = pool.blockSize) :
    ∃ offset block, (Block.ofBuffer buffer Layout.blockHeaderSize).bump? size .aligned =
      some (offset, block) := by
  refine ⟨_, _, Block.bump?_eq_some_iff.mpr ⟨Block.target?_ofBuffer buffer, ?_, rfl⟩⟩
  change _ ≤ buffer.length
  rw [hlength]
  exact h

section Alloc

variable {s : PoolState} (hand : List Buffer) {size : Nat} {packing : Packing}

/-- **Growth** takes a buffer in hand and makes it a block. It fails only if it is refused one. -/
theorem growFor_moves (serves : s.pool.Serves size) :
    Ends (growFor size) s (fun _ t => Moves ⟨s, hand⟩ ⟨t, hand⟩)
      (fun failure t => (∃ error, failure = .refused error) ∧ Moves ⟨s, hand⟩ ⟨t, hand⟩) := by
  simp only [growFor, ends_bind, ends_getPool]
  rw [ends_request]
  constructor
  · intro buffer world hgranted
    obtain ⟨offset, block, hbump⟩ := exists_bump? serves (World.length_of_request hgranted)
    rw [hbump]
    simp only [ends_bind, ends_getPool, ends_setPool, ends_log, ends_pure]
    -- into the hand, and from there into the chain
    have hfirst : Move ⟨s, hand⟩ ⟨{ s with world }, buffer :: hand⟩ := .granted hgranted
    exact (ReflTransGen.single hfirst).tail (.grown rfl hbump (World.length_of_request hgranted)
      (World.placed_of_request hgranted).2.1)
  · intro error world hrefused
    exact ⟨⟨_, rfl⟩, ReflTransGen.single (.told (World.request_error hrefused))⟩

/-- **A small request** moves a cursor, or grows the chain. -/
theorem allocSmall_moves (serves : s.pool.Serves size) :
    Ends (allocSmall size packing) s (fun _ t => Moves ⟨s, hand⟩ ⟨t, hand⟩)
      (fun failure t => (∃ error, failure = .refused error) ∧ Moves ⟨s, hand⟩ ⟨t, hand⟩) := by
  simp only [allocSmall, ends_bind, ends_getPool]
  split
  · next index offset chain hclaim =>
    simp only [ends_bind, ends_setPool, ends_pure]
    obtain ⟨block, moved, hget, hbump, rfl⟩ := Chain.exists_of_claim? hclaim
    -- the block is the same but for its cursor
    rw [Block.eq_of_bump? hbump]
    exact ReflTransGen.single (.moved _ hget)
  · exact growFor_moves hand serves

variable {hand} in
/-- What is refused with the hand as it was fails. -/
private theorem fails_of_refused {failure : Failure} {t : PoolState}
    (h : (∃ error, failure = .refused error) ∧ Moves ⟨s, hand⟩ ⟨t, hand⟩) :
    Fails ⟨s, hand⟩ hand failure t := by
  obtain ⟨⟨error, rfl⟩, moves⟩ := h
  exact .of_refused moves

/-- A record of the pool is a small request. -/
theorem allocRecord_orderly (h : size ≤ Layout.minMaxAlloc) : Orderly (allocSmall size packing) :=
  fun _ hand sized => (allocSmall_moves hand (sized.serves_record h)).mono (fun _ _ moves => moves)
    fun _ _ => fails_of_refused

/-- **Entering a large buffer** ends with the buffer in a slot, or gives it back. -/
theorem enterLarge_carries {buffer : Buffer} : Carries (enterLarge buffer) [buffer] [] := by
  intro s hand sized
  simp only [enterLarge, ends_bind, ends_discard, ends_getPool, ends_setPool]
  rw [ends_orRelease]
  -- the buffer stays in hand while room for its record is made
  have hrecord : Layout.largeRecordSize ≤ Layout.minMaxAlloc := by decide
  refine (allocSmall_moves ([buffer] ++ hand) (sized.serves_record hrecord)).mono
    (fun _ t moves => ?_) fun failure t hfails => ?_
  · exact moves.tail (.stored rfl (.inl rfl))
  · -- the buffer is still in hand: it is given back, or that is where things get stuck
    obtain ⟨⟨error, rfl⟩, moves⟩ := hfails
    dsimp only
    rw [ends_release]
    exact ⟨fun world call => .of_refused (moves.tail (.returned rfl call)),
      fun fault world call => .inr ⟨_, moves, rfl, buffer, List.mem_cons_self, fault, rfl, call⟩⟩

/-- **A large request** enters a buffer, in an old slot or a new one. -/
theorem allocLarge_orderly : Orderly (allocLarge size) := by
  intro s hand sized
  simp only [allocLarge, ends_bind, ends_getPool]
  rw [ends_request]
  constructor
  · intro buffer world hgranted
    have hfirst : Move ⟨s, hand⟩ ⟨{ s with world }, buffer :: hand⟩ := .granted hgranted
    -- an empty slot takes the buffer, or else a new one does
    split
    · next large hreuse =>
      simp only [ends_bind, ends_setPool, ends_getPool, ends_log, ends_pure]
      exact ((ReflTransGen.single hfirst).tail (.stored rfl (.inr hreuse))).tail (.logged rfl)
    · simp only [ends_bind, ends_getPool, ends_log, ends_pure]
      refine (enterLarge_carries { s with world } hand sized).mono (fun _ t moves => ?_)
        fun _ _ hfails => ?_
      · exact ((ReflTransGen.single hfirst).trans moves).tail (.logged rfl)
      · exact hfails.of_moves (ReflTransGen.single hfirst)
  · intro error world hrefused
    exact .of_refused (ReflTransGen.single (.told (World.request_error hrefused)))

/-- **A request at an alignment** enters a buffer. -/
theorem allocAlignedTo_orderly {align : Nat} : Orderly (allocAlignedTo size align) := by
  rw [allocAlignedTo]
  split
  · intro s hand sized
    simp only [ends_bind, ends_getPool, ends_pure]
    rw [ends_request]
    constructor
    · intro buffer world hgranted
      -- the buffer is in hand until the table takes it, or refuses and gives it back
      have hfirst : Move ⟨s, hand⟩ ⟨{ s with world }, buffer :: hand⟩ := .granted hgranted
      refine (enterLarge_carries { s with world } hand sized).mono (fun _ t moves => ?_)
        fun _ _ hfails => ?_
      · exact (ReflTransGen.single hfirst).trans moves
      · exact hfails.of_moves (ReflTransGen.single hfirst)
    · intro error world hrefused
      exact .of_refused (ReflTransGen.single (.told (World.request_error hrefused)))
  -- an alignment that is no power of two is refused before anything happens
  · exact .refuse

/-- A request up to the threshold is a small one. -/
theorem allocWith_of_le (h : size ≤ s.pool.max) :
    allocWith packing size s = allocSmall size packing s := by
  have hget : getPool s = .ok s.pool s := rfl
  rw [allocWith, bind_of_ok hget, if_pos h]

/-- A request above it is a large one. -/
theorem allocWith_of_lt (h : s.pool.max < size) :
    allocWith packing size s = allocLarge size s := by
  have hget : getPool s = .ok s.pool s := rfl
  rw [allocWith, bind_of_ok hget, if_neg (Nat.not_le_of_lt h)]

theorem allocWith_orderly : Orderly (allocWith packing size) := by
  intro s hand sized
  simp only [allocWith, ends_bind, ends_getPool]
  split
  · next hle =>
    exact (allocSmall_moves hand (sized.serves_of_le_max hle)).mono (fun _ _ moves => moves)
      fun _ _ => fails_of_refused
  · exact allocLarge_orderly s hand sized

/-- **Allocation** of any size is orderly. -/
theorem alloc_orderly : Orderly (alloc size) := allocWith_orderly

theorem allocUnaligned_orderly : Orderly (allocUnaligned size) := allocWith_orderly

end Alloc

/-! ### Memory -/

section Memory

variable {start additional length : Nat} {data : Bytes} {source target : Region} {content : Content}

/-- **A function that writes to a store**, if it succeeds, and has no other failures than its
own. -/
theorem overwrite_orderly {f : Pool → Except Failure Pool} (h : ∀ pool, Contained (f pool))
    (hwrites : ∀ pool after, f pool = .ok after →
      ∃ store offset data, after = pool.overwrite store offset data) :
    Orderly (onPool fun pool => return ((), ← f pool)) := by
  refine .onPool (fun pool => (h pool).bind fun _ => .pure _) fun s a pool hand hrun => ?_
  obtain ⟨after, hafter, hpure⟩ := bind_eq_ok_iff.mp hrun
  obtain ⟨-, rfl⟩ := Prod.mk.inj (pure_eq_ok_iff.mp hpure)
  obtain ⟨store, offset, data, rfl⟩ := hwrites _ _ hafter
  exact ReflTransGen.single (.wrote store offset data)

theorem write_orderly :
    Orderly (onPool fun pool => return ((), ← pool.write region start data)) := by
  refine overwrite_orderly (fun _ => write_contained) fun pool after hwrite => ?_
  obtain ⟨-, store, -, -, hafter⟩ := write_eq_ok hwrite
  exact ⟨store, _, _, hafter⟩

theorem writeContent_orderly :
    Orderly (onPool fun pool => return ((), ← pool.writeContent source content)) := by
  refine overwrite_orderly (fun _ => writeContent_contained) fun pool after hrun => ?_
  obtain ⟨bytes, -, hwrite⟩ := bind_eq_ok_iff.mp hrun
  obtain ⟨-, store, -, -, hafter⟩ := write_eq_ok hwrite
  exact ⟨store, _, _, hafter⟩

theorem copy_orderly :
    Orderly (onPool fun pool => return ((), ← pool.copy source target length)) := by
  refine overwrite_orderly (fun _ => copy_contained) fun pool after hcopy => ?_
  obtain ⟨-, store, bytes, -, -, -, -, hafter⟩ := copy_eq_ok hcopy
  exact ⟨store, _, _, hafter⟩

theorem extend_orderly : Orderly (onPool (·.extend source additional)) := by
  refine .onPool (fun _ => extend_contained) fun s extended pool hand hrun => ?_
  rcases extend_eq_ok hrun with ⟨-, rfl⟩ | ⟨index, block, -, hget, -, -, -, rfl⟩
  · exact .refl
  · exact ReflTransGen.single (.moved _ hget)

theorem reclaim_orderly : Orderly (onPool (·.reclaim source)) := by
  refine .onPool (fun _ => reclaim_contained) fun s done pool hand hrun => ?_
  rcases reclaim_eq_ok hrun with ⟨-, rfl⟩ | ⟨index, block, -, hget, -, -, rfl⟩
  · exact .refl
  · exact ReflTransGen.single (.moved _ hget)

end Memory

theorem allocZeroed_orderly {size : Nat} : Orderly (allocZeroed size) :=
  alloc_orderly.bind fun _ => write_orderly.bind fun _ => .pure

/-! ### Giving back early -/

theorem free_orderly : Orderly (free region) := by
  intro s hand sized
  simp only [free, ends_bind, ends_getPool]
  split
  · exact .refl
  · next id hplace =>
    split
    · split
      · exact .refl
      · next buffer large htake =>
        simp only [ends_bind, ends_setPool, ends_log, ends_pure]
        rw [ends_release]
        -- out of its slot into the hand, and from there to the raw allocator
        have hfirst : Move ⟨s, hand⟩ ⟨{ s with pool := { s.pool with large } }, buffer :: hand⟩ :=
          .withdrawn htake
        let entry : LogEntry := .freeLarge s.pool.label id
        have hentry : entry.isGrowth = false := rfl
        have hlogged := (ReflTransGen.single hfirst).tail (.logged hentry)
        exact ⟨fun world call => hlogged.tail (.returned rfl call), fun fault world call =>
          .inr ⟨_, hlogged, rfl, buffer, List.mem_cons_self, fault, rfl, call⟩⟩
    · exact .refl

end Pool

/-! ### Files -/

namespace World

variable (w : World) (file : FileRelease)

theorem quiet_closeFile : w.Quiet (w.closeFile file) := by
  have hfiles : w.Quiet { w with files := w.files.close file.descriptor } :=
    ⟨⟨Nat.le_refl _, rfl, fun _ => rfl, rfl⟩, rfl, rfl⟩
  exact hfiles.trans (.emit _ nofun nofun)

theorem quiet_removeFile : w.Quiet (w.removeFile file) := by
  unfold removeFile
  split
  · next files _ =>
    have hfiles : w.Quiet { w with files } := ⟨⟨Nat.le_refl _, rfl, fun _ => rfl, rfl⟩, rfl, rfl⟩
    exact hfiles.trans (.emit _ nofun nofun)
  · exact .refl w
  · exact .log w rfl

theorem quiet_releaseFile : w.Quiet (w.releaseFile file) := by
  have hlogged : w.Quiet (w.log (.fileCleanup file.descriptor file.path file.delete)) := .log w rfl
  unfold releaseFile
  split
  · exact (hlogged.trans (quiet_removeFile _ file)).trans (quiet_closeFile _ file)
  · exact hlogged.trans (quiet_closeFile _ file)

theorem quiet_dropAction (action : Option CleanupAction) : w.Quiet (Pool.dropAction action w) := by
  unfold Pool.dropAction
  split
  · exact quiet_closeFile w _
  · exact .refl w

end World

/-! ### Cleanup records -/

namespace Pool

section Cleanup

variable {pool : Pool} {dataSize : Nat} {ticket : CleanupTicket} {action : CleanupAction}
  {tag : String}

theorem cleanupRecord_contained : Contained (pool.cleanupRecord ticket) := by
  rw [cleanupRecord]
  refine .ite (.refused _) ?_
  split
  · exact .ok _
  · exact .refused _

theorem cleanupBytes_contained : Contained (pool.cleanupBytes ticket) := by
  rw [cleanupBytes]
  refine .ite (.refused _) ?_
  split
  · exact bytes_contained
  · exact .ok _

theorem addCleanup_orderly : Orderly (addCleanup dataSize) := by
  -- with or without data, the record is entered in the same way
  have hregistered : ∀ data, Orderly (do
      let pool ← getPool
      setPool { pool with cleanups := pool.cleanups.push data }
      log (.addCleanup pool.label pool.cleanups.count dataSize)
      return ({ pool := pool.id, index := pool.cleanups.count, data } : CleanupTicket)) := by
    intro data s hand _
    simp only [ends_bind, ends_getPool, ends_setPool, ends_log, ends_pure]
    exact (ReflTransGen.single (.recorded (s.pool.cleanups.push data))).tail (.logged rfl)
  refine .bind (.discard (allocRecord_orderly (by decide))) fun _ => ?_
  split
  · exact .bind .pure hregistered
  · exact .bind (.map alloc_orderly) hregistered

theorem setCleanup_orderly : Orderly (setCleanup ticket action) := by
  intro s hand _
  simp only [setCleanup, ends_bind, ends_getPool]
  split
  · next record _ =>
    simp only [ends_bind, ends_setPool, ends_modifyWorld]
    exact (ReflTransGen.single (.recorded _)).tail (.told (World.quiet_dropAction _ _))
  · next failure hrecord =>
    simp only [ends_bind, ends_modifyWorld, ends_throw]
    exact .inl ⟨cleanupRecord_contained _ hrecord,
      ReflTransGen.single (.told (World.quiet_dropAction _ _))⟩

theorem disableCleanup_orderly : Orderly (disableCleanup ticket) := by
  refine .bind (.ofPool fun _ => cleanupRecord_contained) fun record => ?_
  intro s hand _
  simp only [ends_bind, ends_getPool, ends_setPool, ends_pure]
  exact ReflTransGen.single (.recorded _)

theorem onDestroy_orderly : Orderly (onDestroy tag) :=
  addCleanup_orderly.bind fun _ => setCleanup_orderly.bind fun _ => .pure

theorem runFileCleanup_orderly {descriptor : Int} : Orderly (runFileCleanup descriptor) := by
  intro s hand _
  simp only [runFileCleanup, ends_bind, ends_getPool]
  split
  · exact .refl
  · simp only [ends_bind, ends_setPool, ends_modifyWorld, ends_pure]
    exact (ReflTransGen.single (.recorded _)).tail (.told (World.quiet_releaseFile _ _))

end Cleanup

/-! ### Workloads -/

theorem serve_orderly (sizes : List Nat) : Orderly (serve sizes) := by
  induction sizes with
  | nil => exact .pure
  | cons size sizes ih =>
    refine alloc_orderly.bind fun region => ?_
    exact write_orderly.bind fun _ => ih.bind fun _ => .pure

end Pool

/-! ### Containers -/

theorem byteLength_contained {count elementSize : Nat} : Contained (byteLength count elementSize) :=
  .ite (.ok _) (.refused _)

theorem checkedCount_contained {count : Nat} : Contained (checkedCount count) :=
  .ite (.ok _) (.refused _)

namespace Slot

variable {slot : Slot} {pool : Pool} {content : Content}

theorem bytes_contained : Contained (slot.bytes pool) := Pool.bytesIn_contained

theorem writeContent_contained : Contained (slot.writeContent pool content) :=
  bytes_contained.bind fun _ => Pool.write_contained

/-- Writing to a slot writes to the store of its region. -/
theorem writeContent_eq_ok {after : Pool} (h : slot.writeContent pool content = .ok after) :
    ∃ bytes store, slot.bytes pool = .ok bytes ∧
      after = pool.overwrite store (slot.region.place.offset + slot.start)
        (content.apply bytes) := by
  obtain ⟨bytes, hbytes, hwrite⟩ := bind_eq_ok_iff.mp h
  obtain ⟨-, store, -, -, rfl⟩ := Pool.write_eq_ok hwrite
  exact ⟨bytes, store, hbytes, rfl⟩

theorem fill_orderly : Orderly (slot.fill content) := by
  refine .bind (.ofPool fun _ => bytes_contained) fun _ => .bind ?_ fun _ => .pure
  refine Pool.overwrite_orderly (fun _ => writeContent_contained) fun pool after hwrite => ?_
  obtain ⟨bytes, store, -, hafter⟩ := writeContent_eq_ok hwrite
  exact ⟨store, _, _, hafter⟩

end Slot

namespace GrowArray

variable {array : GrowArray} {capacity elementSize additional size n index : Nat}
  {moved : Except Failure Nat} {content : Content}

theorem init_orderly : Orderly (init capacity elementSize) :=
  .bind (.ofPool fun _ => byteLength_contained) fun _ =>
    Pool.alloc_orderly.bind fun _ => .pure

theorem create_orderly : Orderly (create capacity elementSize) :=
  Pool.alloc_orderly.bind fun _ => init_orderly.bind fun _ => .pure

theorem relocate_orderly : Orderly (array.relocate capacity) :=
  .bind (.ofPool fun _ => byteLength_contained) fun _ =>
    Pool.alloc_orderly.bind fun _ => Pool.copy_orderly.bind fun _ =>
      .bind (.log rfl) fun _ => .pure

theorem growBy_orderly (h : Contained moved) : Orderly (array.growBy additional size moved) := by
  refine Pool.extend_orderly.bind fun extended => ?_
  cases extended with
  | some elements => exact .pure
  | none => exact .bind (.ofPool fun _ => h) fun _ => relocate_orderly

theorem claim_orderly : Orderly (array.claim n) :=
  .bind (.discard (.ofPool fun _ => Slot.bytes_contained)) fun _ => .pure

theorem push_orderly : Orderly array.push := by
  rw [push]
  split
  · exact .bind (growBy_orderly (.map checkedCount_contained)) fun _ => claim_orderly
  · exact claim_orderly

theorem pushMany_orderly : Orderly (array.pushMany n) := by
  refine .bind (.ofPool fun _ => checkedCount_contained) fun needed => ?_
  split
  · exact .bind (.ofPool fun _ => byteLength_contained) fun _ =>
      .bind (growBy_orderly checkedCount_contained) fun _ => claim_orderly
  · exact claim_orderly

theorem giveBack_orderly {region : Region} : Orderly (giveBack region) := by
  intro s hand _
  -- only an answer of true changes the pool; a region that is not on top is let be
  have hfinal : Ends (giveBack region) s
      (fun _ t => t = s ∨ ∃ pool, s.pool.reclaim region = .ok (true, pool) ∧ t = { s with pool })
      (fun failure t => t = s ∧ s.pool.reclaim region = .error failure) := by
    unfold Ends giveBack
    rcases s.pool.reclaim region with (_ | fault) | ⟨_ | _, pool⟩
    · exact .inl rfl
    · exact ⟨rfl, rfl⟩
    · exact .inl rfl
    · exact .inr ⟨pool, rfl, rfl⟩
  refine hfinal.mono (fun _ t ht => ?_) fun failure t ht => ?_
  · rcases ht with rfl | ⟨pool, hrun, rfl⟩
    · exact .refl
    · rcases Pool.reclaim_eq_ok hrun with ⟨-, rfl⟩ | ⟨index, block, -, hget, -, -, rfl⟩
      · exact .refl
      · exact ReflTransGen.single (.moved _ hget)
  -- `destroy` goes on after an error, but a fault ends it as well
  · obtain ⟨rfl, hrun⟩ := ht
    exact .inl ⟨Pool.reclaim_contained _ hrun, .refl⟩

theorem destroy_orderly : Orderly array.destroy := by
  -- what was given back is only counted
  have hlogged : ∀ elements header : Nat, Orderly (do
      log (.arrayDestroyed (elements + header))
      return elements + header) := fun _ _ => .bind (.log rfl) fun _ => .pure
  refine giveBack_orderly.bind fun elements => ?_
  split
  · exact giveBack_orderly.bind fun _ => hlogged _ _
  · exact Carries.pure.bind fun _ => hlogged _ _

theorem set?_contained {pool : Pool} : Contained (array.set? index content pool) := by
  refine .bind ?_ fun _ => ?_
  · exact Pool.locate_contained.bind fun _ => .pure _
  · split
    · exact .pure _
    · exact Slot.writeContent_contained.bind fun _ => Slot.bytes_contained.bind fun _ => .pure _

theorem setElement_orderly : Orderly (onPool (array.set? index content)) := by
  refine .onPool (fun _ => set?_contained) fun s a pool hand hrun => ?_
  obtain ⟨-, -, hset⟩ := bind_eq_ok_iff.mp hrun
  split at hset
  · obtain ⟨-, rfl⟩ := Prod.mk.inj (pure_eq_ok_iff.mp hset)
    exact .refl
  · obtain ⟨after, hwrite, hread⟩ := bind_eq_ok_iff.mp hset
    obtain ⟨bytes, -, hpure⟩ := bind_eq_ok_iff.mp hread
    obtain ⟨-, rfl⟩ := Prod.mk.inj (pure_eq_ok_iff.mp hpure)
    obtain ⟨-, store, -, rfl⟩ := Slot.writeContent_eq_ok hwrite
    exact ReflTransGen.single (.wrote store _ _)

end GrowArray

namespace PartList

variable {list : PartList} {partCapacity : PartCapacity} {elementSize : Nat}

theorem init_orderly : Orderly (init partCapacity elementSize) :=
  .bind (.ofPool fun _ => byteLength_contained) fun _ =>
    Pool.alloc_orderly.bind fun _ => .pure

theorem create_orderly : Orderly (create partCapacity elementSize) :=
  Pool.alloc_orderly.bind fun _ => init_orderly.bind fun _ => .pure

theorem appendPart_orderly : Orderly list.appendPart :=
  .bind (.discard (.ofPool fun _ => Pool.locate_contained)) fun _ =>
    Pool.alloc_orderly.bind fun _ => .bind (.ofPool fun _ => byteLength_contained) fun _ =>
      Pool.alloc_orderly.bind fun _ => .bind (.log rfl) fun _ => .pure

theorem claim_orderly : Orderly list.claim :=
  .bind (.discard (.ofPool fun _ => Slot.bytes_contained)) fun _ => .pure

theorem push_orderly : Orderly list.push := by
  rw [push]
  split
  · exact appendPart_orderly.bind fun _ => claim_orderly
  · exact claim_orderly

end PartList

end RegionPool
