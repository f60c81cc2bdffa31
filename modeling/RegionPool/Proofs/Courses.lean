import RegionPool.Proofs.Lifecycle
import RegionPool.Session.Exec

/-!
# How a command goes

Most commands are routine: they do nothing that concerns memory, or they carry out an orderly action
on the pool they name, and keep the result. This module says so once for all of them; what is left
are the commands that make a pool, reset or destroy it, and those by which the caller deals with the
raw allocators itself.

* `Command.pool?` — the slot of the pool that a command names;
* `Command.Routine`, `Session.Course` — routine commands, and how they go;
* `Session.exec_course` — every routine command takes such a course;
* `Session.Fate`, `Session.exec_fate` — what becomes of the pools, whatever the command;
* `Session.heap_exec` — no command exchanges the heap;
* `Pool.Lasting`, `Pool.Lasting.run` — what lasts in every pool, whatever a caller does;
  `Lasting.of_buffers` — what is true of every buffer.
-/

namespace RegionPool

open PoolM Relation

namespace Command

/-- The slot of the pool that a command names. -/
def pool? : Command → Option Nat
  | .serve pool _ | .reset pool | .destroy pool | .alloc pool _ | .allocUnaligned pool _
  | .allocZeroed pool _ | .allocAlignedTo pool _ _ | .free pool _ | .write pool _ _
  | .extend pool _ _ | .reclaim pool _ | .copy pool _ _ _ | .addCleanup pool _ | .onDestroy pool _
  | .setCustom pool _ _ | .setWithData pool _ _ _ | .setFile pool _ _ _ _ | .disableCleanup pool _
  | .writeCleanup pool _ _ | .runFileCleanup pool _ | .createArray pool _ _ | .initArray pool _ _
  | .pushArray pool _ _ | .pushManyArray pool _ _ _ | .setArray pool _ _ _ | .destroyArray pool _
  | .createList pool _ _ | .initList pool _ _ | .pushList pool _ _ => some pool
  | .addAllocator _ | .refill _ _ | .newBuffer _ _ | .requestBuffer _ _ | .writeBuffer _ _
  | .freeBuffer _ _ | .createPool _ _ | .keepCopy _ | .holdCleanupRegion _ | .unlink _
  | .cloneArray _ | .cloneList _ => none

/-- **A routine command** neither makes, resets nor destroys a pool, and hands no raw memory to
anybody. -/
def Routine : Command → Prop
  | .addAllocator _ | .newBuffer _ _ | .requestBuffer _ _ | .freeBuffer _ _ | .createPool _ _
  | .reset _ | .destroy _ => False
  | _ => True

end Command

namespace Session

/-- The numbers of the raw buffers that the caller keeps. -/
def owned (s : Session) : List BufferId := s.buffers.filterMap (Option.map Buffer.id)

/-- **Two sessions are alike** as far as memory is concerned. -/
structure Alike (s t : Session) : Prop where
  world : t.world = s.world
  pools : t.pools = s.pools
  owned : t.owned = s.owned

/-- **The pools of a session are sized.** -/
def Sized (s : Session) : Prop := ∀ pool, some pool ∈ s.pools → pool.Sized

/-- **How a command goes** that names the pool in this slot, if any. -/
inductive Course (s : Session) (slot? : Option Nat) : Reply → Session → Prop
  /-- Nothing is done that concerns memory. -/
  | idle {reply after} (quiet : s.world.Quiet after.world) (pools : after.pools = s.pools)
      (owned : after.owned = s.owned) (succeeds : ∀ failure, reply ≠ .failed failure) :
      Course s slot? reply after
  /-- The pool makes some moves. -/
  | ended {slot pool t reply after} (named : slot? = some slot) (here : s.pool? slot = some pool)
      (moves : Moves ⟨⟨pool, s.world⟩, []⟩ ⟨t, []⟩) (settled : (s.settle slot t).Alike after)
      (contained : ∀ id, reply ≠ .failed (.fault (.untrackedFree id))) : Course s slot? reply after
  /-- The pool gets stuck. -/
  | stuck {slot pool failure t after} (named : slot? = some slot) (here : s.pool? slot = some pool)
      (stuck : Stuck ⟨⟨pool, s.world⟩, []⟩ failure t) (settled : (s.settle slot t).Alike after) :
      Course s slot? (.failed failure) after

section Course

variable {α : Type} {s s' after : Session} {slot? : Option Nat} {slot : Nat} {reply : Reply}

/-- A pool that is found stands in its slot. -/
theorem pool?_eq_some_iff {pool : Pool} :
    s.pool? slot = some pool ↔ s.pools[slot]? = some (some pool) := by
  rw [pool?]
  cases s.pools[slot]? with
  | none => exact ⟨fun h => (by cases h), fun h => (by cases h)⟩
  | some entry => exact ⟨congrArg some, Option.some.inj⟩

theorem mem_pools_of_pool? {pool : Pool} (h : s.pool? slot = some pool) : some pool ∈ s.pools :=
  List.mem_of_getElem? (pool?_eq_some_iff.mp h)

/-- What a slot holds after another was set, or the same one. -/
theorem pool?_of_set {pool : Pool} {entry : Option Pool} (here : s.pool? slot = some pool)
    (hpools : after.pools = s.pools.set slot entry) (other : Nat) :
    after.pool? other = if other = slot then entry else s.pool? other := by
  obtain ⟨hlt, -⟩ := List.getElem?_eq_some_iff.mp (pool?_eq_some_iff.mp here)
  rw [pool?, hpools, List.getElem?_set]
  split
  · next heq =>
    subst heq
    rw [if_pos rfl]
    rfl
  · next hne => rw [if_neg (Ne.symm hne)]; rfl

/-- A pool that is found has a slot. -/
theorem lt_of_pool? {pool : Pool} (here : s.pool? slot = some pool) : slot < s.pools.length :=
  (List.getElem?_eq_some_iff.mp (pool?_eq_some_iff.mp here)).1

/-- A pool that has not changed is put back in its place. -/
theorem settle_same {pool : Pool} (here : s.pool? slot = some pool) (world : World) :
    s.settle slot ⟨pool, world⟩ = { s with world } := by
  obtain ⟨hlt, hget⟩ := List.getElem?_eq_some_iff.mp (pool?_eq_some_iff.mp here)
  have hpools : s.pools.set slot (some pool) = s.pools := by
    rw [← hget]
    exact List.set_getElem_self hlt
  rw [settle, setPool, hpools]

/-- What the slots hold after a pool was made. -/
theorem pool?_of_append {pool : Pool} (hpools : after.pools = s.pools ++ [some pool])
    (other : Nat) :
    after.pool? other = if other = s.pools.length then some pool else s.pool? other := by
  rw [pool?, hpools]
  split
  · next heq => rw [heq, List.getElem?_concat_length]; rfl
  · next hne =>
    rcases Nat.lt_or_gt_of_ne hne with hlt | hgt
    · rw [List.getElem?_append_left hlt]
      rfl
    -- past the new pool there was no slot before and there is none now
    · have hnone : s.pools[other]? = none := List.getElem?_eq_none (Nat.le_of_lt hgt)
      have hnone' : (s.pools ++ [some pool])[other]? = none :=
        List.getElem?_eq_none (by rw [List.length_append, List.length_singleton]; omega)
      rw [pool?, hnone, hnone']

namespace Alike

theorem refl (s : Session) : s.Alike s := ⟨rfl, rfl, rfl⟩

theorem trans {u : Session} (h : s.Alike s') (h' : s'.Alike u) : s.Alike u :=
  ⟨h'.world.trans h.world, h'.pools.trans h.pools, h'.owned.trans h.owned⟩

end Alike

namespace Course

/-- Something else may be done before that does not concern memory. -/
theorem of_quiet (s' : Session) (quiet : s.world.Quiet s'.world) (pools : s'.pools = s.pools)
    (owned : s'.owned = s.owned) (h : s'.Course slot? reply after) :
    s.Course slot? reply after := by
  -- What was done before is one more move of the pool that is named.
  have htold : ∀ pool, Move ⟨⟨pool, s.world⟩, []⟩ ⟨⟨pool, s'.world⟩, []⟩ := fun _ => .told quiet
  have hsettle : ∀ slot t, (s.settle slot t).Alike (s'.settle slot t) := fun slot t =>
    ⟨rfl, congrArg (·.set slot (some t.pool)) pools, owned⟩
  have hpool : ∀ slot, s'.pool? slot = s.pool? slot := fun slot => by rw [pool?, pool?, pools]
  cases h with
  | idle quiet' pools' owned' succeeds =>
    exact .idle (quiet.trans quiet') (pools'.trans pools) (owned'.trans owned) succeeds
  | ended named here moves settled contained =>
    exact .ended named (hpool _ ▸ here) (.head (htold _) moves) ((hsettle _ _).trans settled)
      contained
  | stuck named here stuck settled =>
    exact .stuck named (hpool _ ▸ here) (stuck.of_moves (.single (htold _)))
      ((hsettle _ _).trans settled)

/-- Nothing is done, and something is kept that is not a pool or a raw buffer. -/
theorem keep (h : s.Alike after) (succeeds : ∀ failure, reply ≠ .failed failure) :
    s.Course slot? reply after :=
  .idle (h.world ▸ .refl _) h.pools h.owned succeeds

/-- What a command names may not be there. -/
theorem withFound {found : Option α} {next : α → Reply × Session}
    (h : ∀ a, found = some a → s.Course slot? (next a).1 (next a).2) :
    s.Course slot? (s.withFound found next).1 (s.withFound found next).2 := by
  cases found with
  | none => exact .keep (.refl s) nofun
  | some a => exact h a rfl

/-- **An orderly action** on the pool that is named, and keeping what it came back with. -/
theorem perform {action : PoolM α} {next : α → Session → Reply × Session}
    (sized : s.Sized) (orderly : Orderly action)
    (hnext : ∀ a u, u.Alike (next a u).2 ∧ ∀ failure, (next a u).1 ≠ .failed failure) :
    s.Course (some slot) (s.perform slot action next).1 (s.perform slot action next).2 := by
  refine .withFound fun pool here => ?_
  -- The action ends well, fails in order, or gets stuck: one case of a course each.
  have hends := orderly ⟨pool, s.world⟩ [] (sized pool (mem_pools_of_pool? here))
  split
  · next a t run =>
    obtain ⟨halike, hsucceeds⟩ := hnext a (s.settle slot t)
    exact .ended rfl here (hends.ok_of run) halike fun _ => hsucceeds _
  · next failure t run =>
    rcases hends.fail_of run with ⟨hfailure, moves⟩ | hstuck
    · exact .ended rfl here moves (.refl _) fun id heq => hfailure id (Reply.failed.inj heq)
    · exact .stuck rfl here hstuck (.refl _)

end Course

/-! ### Routine commands -/

/-- An allocation whose region is kept. -/
theorem allocate_course {action : PoolM Region} (sized : s.Sized) (orderly : Orderly action) :
    s.Course (some slot) (s.allocate slot action).1 (s.allocate slot action).2 :=
  .perform sized orderly fun _ _ => ⟨⟨rfl, rfl, rfl⟩, nofun⟩

/-- Writing to a region. -/
theorem write_course {region : Nat} {content : Content} (sized : s.Sized) :
    s.Course (some slot) (s.write slot region content).1 (s.write slot region content).2 :=
  .withFound fun _ _ => .perform sized Pool.writeContent_orderly fun _ u => ⟨.refl u, nofun⟩

/-- Lengthening a region. -/
theorem extend_course {region additional : Nat} (sized : s.Sized) :
    s.Course (some slot) (s.extend slot region additional).1
      (s.extend slot region additional).2 := by
  refine .withFound fun _ _ => .perform sized Pool.extend_orderly fun extended u => ?_
  cases extended with
  | none => exact ⟨.refl u, nofun⟩
  | some longer => exact ⟨⟨rfl, rfl, rfl⟩, nofun⟩

/-- Copying from a region to another. -/
theorem copy_course {source target length : Nat} (sized : s.Sized) :
    s.Course (some slot) (s.copy slot source target length).1
      (s.copy slot source target length).2 :=
  .withFound fun _ _ => .withFound fun _ _ => .perform sized
    (Pool.copy_orderly.bind fun _ => .ofPool fun _ => Pool.bytes_contained)
    fun _ u => ⟨.refl u, nofun⟩

/-- Giving a record an action. -/
theorem setCleanup_course {ticket : Nat} {action : CleanupAction} (sized : s.Sized) :
    s.Course (some slot) (s.setCleanup slot ticket action).1 (s.setCleanup slot ticket action).2 :=
  .withFound fun _ _ => .perform sized Pool.setCleanup_orderly fun _ u => ⟨.refl u, nofun⟩

/-- Making a file does not concern memory. -/
theorem setFile_course {ticket : Nat} {name : String} {kind : EntryKind} {delete : Bool}
    (sized : s.Sized) : s.Course (some slot) (s.setFile slot ticket name kind delete).1
      (s.setFile slot ticket name kind delete).2 := by
  refine .withFound fun _ _ => ?_
  split
  · refine .withFound fun _ _ => ?_
    have hfiles : ∀ files, s.world.Quiet { s.world with files } := fun _ =>
      ⟨⟨Nat.le_refl _, rfl, fun _ => rfl, rfl⟩, rfl, rfl⟩
    -- The file is made before the pool does anything.
    let made := s.world.files.create name kind
    exact .of_quiet { s with world := { s.world with files := made.2 } } (hfiles _) rfl rfl
      (.perform sized Pool.setCleanup_orderly fun _ u => ⟨.refl u, nofun⟩)
  · exact .keep (.refl s) nofun

/-- Taking the action of a record away. -/
theorem disableCleanup_course {ticket : Nat} (sized : s.Sized) :
    s.Course (some slot) (s.disableCleanup slot ticket).1 (s.disableCleanup slot ticket).2 :=
  .withFound fun _ _ => .perform sized
    (Pool.disableCleanup_orderly.bind fun action =>
      .bind (.modifyWorld fun w => w.quiet_dropAction action) fun _ => .pure)
    fun _ u => ⟨.refl u, nofun⟩

/-- Writing to the bytes of a record. -/
theorem writeCleanup_course {ticket : Nat} {content : Content} (sized : s.Sized) :
    s.Course (some slot) (s.writeCleanup slot ticket content).1
      (s.writeCleanup slot ticket content).2 := by
  refine .withFound fun ticket _ => .perform sized ?_ fun _ u => ⟨.refl u, nofun⟩
  refine .bind (.ofPool fun _ => Pool.cleanupBytes_contained) fun before => ?_
  split
  · exact .bind Pool.writeContent_orderly fun _ => .pure
  · exact .bind .pure fun _ => .pure

/-- Keeping the region of a record. -/
theorem holdCleanupRegion_course {ticket : Nat} :
    s.Course slot? (s.holdCleanupRegion ticket).1 (s.holdCleanupRegion ticket).2 := by
  refine .withFound fun ticket _ => ?_
  split
  · exact .keep ⟨rfl, rfl, rfl⟩ nofun
  · exact .keep (.refl s) nofun

/-- Appending to an array. -/
theorem pushArray_course {array : Nat} {push : GrowArray → PoolM (Slot × GrowArray)}
    {content : Content} (sized : s.Sized) (orderly : ∀ array, Orderly (push array)) :
    s.Course (some slot) (s.pushArray slot array push content).1
      (s.pushArray slot array push content).2 :=
  .withFound fun array _ => .perform sized
    ((orderly array).bind fun _ => Slot.fill_orderly.bind fun _ => .pure)
    fun _ _ => ⟨⟨rfl, rfl, rfl⟩, nofun⟩

/-- Appending to a list. -/
theorem pushList_course {list : Nat} {content : Content} (sized : s.Sized) :
    s.Course (some slot) (s.pushList slot list content).1 (s.pushList slot list content).2 :=
  .withFound fun _ _ => .perform sized
    (PartList.push_orderly.bind fun _ => Slot.fill_orderly.bind fun _ => .pure)
    fun _ _ => ⟨⟨rfl, rfl, rfl⟩, nofun⟩

/-- Destroying an array. -/
theorem destroyArray_course {array : Nat} (sized : s.Sized) :
    s.Course (some slot) (s.destroyArray slot array).1 (s.destroyArray slot array).2 := by
  refine .withFound fun _ _ => .withFound fun _ _ => ?_
  exact .of_quiet (s.setArray array none) (.refl _) rfl rfl
    (.perform sized GrowArray.destroy_orderly fun _ u => ⟨.refl u, nofun⟩)

/-- Giving a raw allocator a new budget leaves its ledger. -/
theorem refill_course {allocator : AllocatorId} {budget : Nat} :
    s.Course slot? (s.refill allocator budget).1 (s.refill allocator budget).2 := by
  refine .withFound fun refilled hfound => ?_
  refine .idle ⟨⟨?_, rfl, fun id => ?_, rfl⟩, rfl, rfl⟩ rfl rfl nofun
  · exact Nat.le_of_eq (World.length_allocators_setAllocator _ _ _).symm
  · -- Only an allocator with a budget can be given a new one.
    have hledger : refilled.ledger? = s.world.ledger? allocator := by
      rw [World.ledger?]
      cases hkind : s.world.allocator allocator with
      | failing before ledger =>
        rw [hkind] at hfound
        obtain rfl := Option.some.inj hfound
        rfl
      | _ => rw [hkind] at hfound; cases hfound
    -- An allocator that does not exist counts as the system's, and that one has no budget.
    have hdangling : s.world.allocators.length ≤ allocator.index → refilled = .system := by
      intro hle
      rw [World.allocator_of_length_le _ _ hle] at hfound
      cases hfound
    rw [World.ledger?_setAllocator _ _ _ hdangling, hledger]
    split
    · next heq => rw [heq]
    · rfl

/-- A raw buffer that is found stands in its place. -/
private theorem buffer?_eq_some {index : Nat} {buffer : Buffer}
    (h : s.buffer? index = some buffer) : s.buffers[index]? = some (some buffer) := by
  cases hentry : s.buffers[index]? with
  | none => rw [buffer?, hentry] at h; cases h
  | some entry =>
    rw [buffer?, hentry] at h
    exact congrArg some h

/-- The caller keeps the raw buffers that can be found. -/
theorem mem_owned_of_buffer? {index : Nat} {buffer : Buffer} (h : s.buffer? index = some buffer) :
    buffer.id ∈ s.owned :=
  List.mem_filterMap.mpr ⟨some buffer, List.mem_of_getElem? (buffer?_eq_some h), rfl⟩

/-- Putting a raw buffer in the place of one of the same number. -/
theorem owned_setBuffer_of_id {index : Nat} {found buffer : Buffer}
    (h : s.buffer? index = some found) (hid : buffer.id = found.id) :
    (s.setBuffer index (some buffer)).owned = s.owned := by
  -- the numbers are those of the entries that are not empty, and the entry keeps its own
  have hids : ∀ buffers : List (Option Buffer), buffers.filterMap (Option.map Buffer.id) =
      (buffers.map (Option.map Buffer.id)).reduceOption := by
    intro buffers
    rw [List.reduceOption, List.filterMap_map]
    rfl
  have hsame : (s.buffers.map (Option.map Buffer.id))[index]? = some (some buffer.id) := by
    rw [List.getElem?_map, buffer?_eq_some h, hid]
    rfl
  obtain ⟨hlt, hget⟩ := List.getElem?_eq_some_iff.mp hsame
  rw [owned, owned, hids, hids]
  refine congrArg List.reduceOption ?_
  calc (s.buffers.set index (some buffer)).map (Option.map Buffer.id)
      = (s.buffers.map (Option.map Buffer.id)).set index (some buffer.id) := List.map_set
    _ = (s.buffers.map (Option.map Buffer.id)).set index
        (s.buffers.map (Option.map Buffer.id))[index] := by rw [hget]
    _ = s.buffers.map (Option.map Buffer.id) := List.set_getElem_self hlt

/-- A raw buffer that is given away is all that the caller keeps no longer. -/
theorem mem_owned_of_setBuffer_none {index : Nat} {id : BufferId}
    (h : id ∈ (s.setBuffer index none).owned) : id ∈ s.owned := by
  obtain ⟨entry, hentry, hid⟩ := List.mem_filterMap.mp h
  rcases List.mem_or_eq_of_mem_set hentry with hold | rfl
  · exact List.mem_filterMap.mpr ⟨entry, hold, hid⟩
  · cases hid

/-- Writing to a raw buffer leaves its number. -/
theorem writeBuffer_course {buffer : Nat} {content : Content} :
    s.Course slot? (s.writeBuffer buffer content).1 (s.writeBuffer buffer content).2 :=
  .withFound fun _ hfound => .keep ⟨rfl, rfl, owned_setBuffer_of_id hfound rfl⟩ nofun

/-- **Every routine command** does nothing that concerns memory, or has the pool it names make some
moves, or gets stuck. -/
theorem exec_course {command : Command} (sized : s.Sized) (routine : command.Routine) :
    s.Course command.pool? (s.exec command).1 (s.exec command).2 := by
  cases command with
  | addAllocator _ | newBuffer _ _ | requestBuffer _ _ | freeBuffer _ _ | createPool _ _ | reset _
  | destroy _ => exact routine.elim
  -- filling up a raw allocator, or writing to a raw buffer, concerns the memory of no pool
  | refill allocator budget => exact refill_course
  | writeBuffer buffer content => exact writeBuffer_course
  -- every action is orderly: it makes some moves, or gets stuck
  | serve slot sizes =>
    exact .perform sized (Pool.serve_orderly sizes) fun _ u => ⟨.refl u, nofun⟩
  | alloc slot size => exact allocate_course sized Pool.alloc_orderly
  | allocUnaligned slot size => exact allocate_course sized Pool.allocUnaligned_orderly
  | allocZeroed slot size => exact allocate_course sized Pool.allocZeroed_orderly
  | allocAlignedTo slot size align => exact allocate_course sized Pool.allocAlignedTo_orderly
  | free slot region =>
    exact .withFound fun _ _ => .perform sized Pool.free_orderly fun _ u => ⟨.refl u, nofun⟩
  | keepCopy region => exact .withFound fun _ _ => .keep ⟨rfl, rfl, rfl⟩ nofun
  | write slot region content => exact write_course sized
  | extend slot region additional => exact extend_course sized
  | reclaim slot region =>
    exact .withFound fun _ _ => .perform sized Pool.reclaim_orderly fun _ u => ⟨.refl u, nofun⟩
  | copy slot source target length => exact copy_course sized
  | addCleanup slot dataSize =>
    exact .perform sized Pool.addCleanup_orderly fun _ _ => ⟨⟨rfl, rfl, rfl⟩, nofun⟩
  | onDestroy slot tag =>
    exact .perform sized Pool.onDestroy_orderly fun _ _ => ⟨⟨rfl, rfl, rfl⟩, nofun⟩
  | setCustom slot ticket tag => exact setCleanup_course sized
  | setWithData slot ticket tag content => exact setCleanup_course sized
  | setFile slot ticket name kind delete => exact setFile_course sized
  | disableCleanup slot ticket => exact disableCleanup_course sized
  | writeCleanup slot ticket content => exact writeCleanup_course sized
  | holdCleanupRegion ticket => exact holdCleanupRegion_course
  | runFileCleanup slot descriptor =>
    exact .perform sized Pool.runFileCleanup_orderly fun _ u => ⟨.refl u, nofun⟩
  | unlink path =>
    exact .idle ⟨⟨Nat.le_refl _, rfl, fun _ => rfl, rfl⟩, rfl, rfl⟩ rfl rfl nofun
  | createArray slot capacity elementSize =>
    exact .perform sized GrowArray.create_orderly fun _ _ => ⟨⟨rfl, rfl, rfl⟩, nofun⟩
  | initArray slot capacity elementSize =>
    exact .perform sized GrowArray.init_orderly fun _ _ => ⟨⟨rfl, rfl, rfl⟩, nofun⟩
  | pushArray slot array content => exact pushArray_course sized fun _ => GrowArray.push_orderly
  | pushManyArray slot array n content =>
    exact pushArray_course sized fun _ => GrowArray.pushMany_orderly
  | setArray slot array index content =>
    exact .withFound fun _ _ => .perform sized GrowArray.setElement_orderly fun _ u =>
      ⟨.refl u, nofun⟩
  | cloneArray array => exact .withFound fun _ _ => .keep ⟨rfl, rfl, rfl⟩ nofun
  | destroyArray slot array => exact destroyArray_course sized
  | createList slot partCapacity elementSize =>
    exact .perform sized PartList.create_orderly fun _ _ => ⟨⟨rfl, rfl, rfl⟩, nofun⟩
  | initList slot partCapacity elementSize =>
    exact .perform sized PartList.init_orderly fun _ _ => ⟨⟨rfl, rfl, rfl⟩, nofun⟩
  | pushList slot list content => exact pushList_course sized
  | cloneList list => exact .withFound fun _ _ => .keep ⟨rfl, rfl, rfl⟩ nofun

/-! ### The other commands -/

/-- The system's allocator keeps no ledger, and one more leaves those of the others. -/
private theorem quiet_addAllocator (w : World) : w.Quiet (w.addAllocator .system).2 := by
  refine ⟨⟨?_, rfl, fun id => ?_, rfl⟩, rfl, rfl⟩
  · exact (List.length_append ▸ Nat.le_add_right _ _ :
      w.allocators.length ≤ (w.allocators ++ [Allocator.system]).length)
  · refine congrArg Allocator.ledger? ?_
    change (w.allocators ++ [Allocator.system]).getD id.index .system =
      w.allocators.getD id.index .system
    simp only [List.getD_eq_getElem?_getD, List.getElem?_append]
    split
    · rfl
    · next hle =>
      -- Behind the old ones stands the new one, and then nothing: both read as the system's.
      rw [List.getElem?_eq_none (Nat.le_of_not_lt hle)]
      cases id.index - w.allocators.length <;> rfl

/-- **Making a pool.** Only a new pool is added, and nothing if none could be made. -/
theorem createPool_ends {config : PoolConfig} {allocator : Option AllocatorId} :
    (∃ w w' pool buffer, s.world.Quiet w ∧ pool.Opens w buffer w' ∧
      (∃ id, Pool.create config id w = (.ok pool, w')) ∧
      (∀ id, allocator = some id → pool.allocator = id) ∧
      (allocator = none → pool.allocator.index < w.allocators.length) ∧
      s.createPool config allocator =
        (.pool s.pools.length, { s with world := w', pools := s.pools ++ [some pool] })) ∨
    ∃ w error, s.world.Quiet w ∧
      s.createPool config allocator = (.failed (.refused error), { s with world := w }) := by
  -- From here on it does not matter whose allocator the pool is over.
  obtain ⟨id, w, hquiet, hid, hnone, hmade, hfailed⟩ : ∃ id w, s.world.Quiet w ∧
      (∀ given, allocator = some given → id = given) ∧
      (allocator = none → id.index < w.allocators.length) ∧
      (∀ pool world, Pool.create config id w = (.ok pool, world) →
        s.createPool config allocator = { s with world }.keepPool pool) ∧
      ∀ error world, Pool.create config id w = (.error error, world) →
        s.createPool config allocator = (.failed (.refused error), { s with world }) := by
    cases allocator with
    | some id =>
      exact ⟨id, s.world, .refl _, fun _ heq => Option.some.inj heq, fun heq => (by cases heq),
        fun _ _ h => (by simp only [Session.createPool, h]),
        fun _ _ h => (by simp only [Session.createPool, h])⟩
    | none =>
      refine ⟨(s.world.addAllocator .system).1, _, quiet_addAllocator _,
        fun _ heq => (by cases heq), fun _ => ?_,
        fun _ _ h => (by simp only [Session.createPool, h]),
        fun _ _ h => (by simp only [Session.createPool, h])⟩
      change s.world.allocators.length < (s.world.allocators ++ [Allocator.system]).length
      rw [List.length_append]
      exact Nat.lt_succ_self _
  rcases hrun : Pool.create config id w with ⟨error | pool, world⟩
  · exact .inr ⟨world, error, hquiet.trans (Pool.create_error hrun), hfailed error world hrun⟩
  · obtain ⟨rfl, buffer, opens⟩ := Pool.create_ok hrun
    exact .inl ⟨w, world, pool, buffer, hquiet, opens, ⟨_, hrun⟩, hid, hnone,
      hmade pool world hrun⟩

/-- **Resetting a pool** rewinds it, unless it gets stuck. -/
theorem reset_ends (slot : Nat) :
    (s.Course (some slot) (s.exec (.reset slot)).1 (s.exec (.reset slot)).2 ∧
        (s.exec (.reset slot)).1 ≠ .done) ∨
      ∃ pool world t, s.pool? slot = some pool ∧
        Moves ⟨⟨pool, s.world⟩, []⟩ ⟨⟨{ pool with large := pool.large.emptied }, world⟩, []⟩ ∧
        world.freed = s.world.freed ++ pool.large.buffers.map Buffer.id ∧
        t.pool = pool.rewound ∧ world.Quiet t.world ∧
        s.exec (.reset slot) = (.done, s.settle slot t) := by
  rw [exec, Session.perform]
  cases here : s.pool? slot with
  | none => exact .inl ⟨.keep (.refl s) nofun, nofun⟩
  | some pool =>
    rw [Session.withFound]
    -- a reset goes through, or gets stuck at a buffer that was never listed
    have hends := Pool.reset_ends (s := ⟨pool, s.world⟩) []
    cases run : Pool.reset { pool, world := s.world } with
    | ok a t =>
      obtain ⟨world, moves, hfreed, hpool, hquiet⟩ := hends.ok_of run
      exact .inr ⟨pool, world, t, rfl, moves, hfreed, hpool, hquiet, rfl⟩
    | error failure t =>
      exact .inl ⟨.stuck rfl here (hends.fail_of run) (.refl _), nofun⟩

/-- Emptying a slot where no pool is changes nothing. -/
private theorem setPool_none_of_absent (h : s.pool? slot = none) : s.setPool slot none = s := by
  have hsame : s.pools.set slot none = s.pools := by
    cases hentry : s.pools[slot]? with
    | none => exact List.set_eq_of_length_le (List.getElem?_eq_none_iff.mp hentry)
    | some entry =>
      obtain ⟨hlt, hget⟩ := List.getElem?_eq_some_iff.mp hentry
      rw [pool?, hentry] at h
      obtain rfl : entry = none := h
      rw [← hget]
      exact List.set_getElem_self hlt
  rw [setPool, hsame]

/-- **Destroying a pool** empties its slot. It gives everything back that the pool holds, unless it
gets stuck. -/
theorem destroy_ends (slot : Nat) :
    (s.pool? slot = none ∧ s.exec (.destroy slot) = (.unavailable, s)) ∨
      ∃ pool reply t, s.pool? slot = some pool ∧
        s.exec (.destroy slot) = (reply, { s.setPool slot none with world := t.world }) ∧
        Ends Pool.destroy ⟨pool, s.world⟩ (fun _ u => u = t ∧ reply = .done)
          (fun failure u => u = t ∧ reply = .failed failure) := by
  rw [exec, Session.destroy, Session.perform]
  cases here : s.pool? slot with
  | none =>
    exact .inl ⟨rfl, congrArg (Prod.mk _) (setPool_none_of_absent here)⟩
  | some pool =>
    -- The pool is kept for a moment and is gone in the end.
    have hset : ∀ t : PoolState,
        (s.settle slot t).setPool slot none = { s.setPool slot none with world := t.world } := by
      intro t
      simp only [settle, setPool, List.set_set]
    rw [Session.withFound]
    cases run : Pool.destroy { pool, world := s.world } with
    | ok a t =>
      refine .inr ⟨pool, .done, t, rfl, ?_, (ends_of_ok run).mpr ⟨rfl, rfl⟩⟩
      exact congrArg (Prod.mk _) (hset t)
    | error failure t =>
      refine .inr ⟨pool, .failed failure, t, rfl, ?_, (ends_of_error run).mpr ⟨rfl, rfl⟩⟩
      exact congrArg (Prod.mk _) (hset t)

/-! ### What becomes of the pools -/

/-- **What becomes of the pools** when a command is carried out. A pool goes its course; or the
command names no pool that is there, and all of them stay as they are; or a pool is made, rewound or
destroyed. Nobody exchanges the heap. -/
inductive Fate (s : Session) : Command → Reply → Session → Prop
  | ran {command reply after} (course : s.Course (Command.pool? command) reply after) :
    Fate s command reply after
  | spared {command reply after} (pools : after.pools = s.pools)
      (absent : ∀ slot, Command.pool? command = some slot → s.pool? slot = none)
      (heap : after.world.heap = s.world.heap) : Fate s command reply after
  | opened {config allocator id w pool w'} (create : Pool.create config id w = (.ok pool, w'))
      (heap : w.heap = s.world.heap) :
    Fate s (.createPool config allocator) (.pool s.pools.length)
      { s with world := w', pools := s.pools ++ [some pool] }
  | rewound {slot pool t} (here : s.pool? slot = some pool) (rewinds : t.pool = pool.rewound)
      (heap : t.world.heap = s.world.heap) : Fate s (.reset slot) .done (s.settle slot t)
  | destroyed {slot pool reply w} (here : s.pool? slot = some pool)
      (heap : w.heap = s.world.heap) :
    Fate s (.destroy slot) reply { s.setPool slot none with world := w }

/-- A raw buffer that is asked for comes from the heap that is there. -/
private theorem receiveBuffer_fate {command : Command} {received : Except AllocError Buffer × World}
    (unnamed : command.pool? = none) (heap : received.2.heap = s.world.heap) :
    s.Fate command (s.receiveBuffer received).1 (s.receiveBuffer received).2 := by
  rcases received with ⟨_ | _, _⟩ <;>
    exact .spared rfl (fun slot named => (by rw [unnamed] at named; cases named)) heap

private theorem freeBuffer_fate {allocator : AllocatorId} {index : Nat} :
    s.Fate (.freeBuffer allocator index) (s.freeBuffer allocator index).1
      (s.freeBuffer allocator index).2 := by
  rw [freeBuffer]
  unfold Session.withFound
  split
  -- a buffer of the caller is no pool's, so all pools are spared
  · next buffer _ =>
    have hrelease := World.heap_release (s.setBuffer index none).world allocator buffer
    dsimp only
    split
    all_goals
      next hrun =>
      rw [hrun] at hrelease
      exact .spared rfl nofun hrelease
  · exact .spared rfl nofun rfl

private theorem createPool_fate {config : PoolConfig} {allocator : Option AllocatorId} :
    s.Fate (.createPool config allocator) (s.createPool config allocator).1
      (s.createPool config allocator).2 := by
  rcases s.createPool_ends with ⟨w, w', pool, buffer, hquiet, -, ⟨id, hcreate⟩, -, -, hrun⟩ |
    ⟨w, error, hquiet, hrun⟩
  · rw [hrun]
    exact .opened hcreate hquiet.heap
  · rw [hrun]
    exact .spared rfl nofun hquiet.heap

private theorem reset_fate : s.Fate (.reset slot) (s.exec (.reset slot)).1
    (s.exec (.reset slot)).2 := by
  rcases s.reset_ends slot with ⟨course, -⟩ | ⟨pool, world, t, here, moves, -, hpool, hquiet, hrun⟩
  · exact .ran course
  · rw [hrun]
    exact .rewound here hpool (hquiet.heap.trans moves.heap)

private theorem destroy_fate : s.Fate (.destroy slot) (s.exec (.destroy slot)).1
    (s.exec (.destroy slot)).2 := by
  rcases s.destroy_ends slot with ⟨hnone, hrun⟩ | ⟨pool, reply, t, here, hrun, hends⟩
  · rw [hrun]
    refine .spared rfl (fun other named => ?_) rfl
    obtain rfl := Option.some.inj named
    exact hnone
  · rw [hrun]
    refine .destroyed here ?_
    -- the heap is the same in the end, however far the destruction came
    have hdestroyed := Pool.destroy_ends [] (s := ⟨pool, s.world⟩)
    cases run : Pool.destroy ⟨pool, s.world⟩ with
    | ok a u =>
      obtain ⟨rfl, -⟩ := hends.ok_of run
      obtain ⟨v, moves, moves', -, -⟩ := hdestroyed.ok_of run
      exact moves'.heap.trans moves.heap
    | error failure u =>
      obtain ⟨rfl, -⟩ := hends.fail_of run
      rcases hdestroyed.fail_of run with stuck | ⟨v, moves, stuck⟩
      · exact stuck.heap
      · exact stuck.heap.trans moves.heap

/-- **Every command** brings one of these about. -/
theorem exec_fate (sized : s.Sized) (command : Command) :
    s.Fate command (s.exec command).1 (s.exec command).2 := by
  cases command with
  | addAllocator _ => exact .spared rfl nofun rfl
  | newBuffer size align => exact receiveBuffer_fate rfl (World.heap_newBuffer ..)
  | requestBuffer allocator request => exact receiveBuffer_fate rfl (World.heap_request ..)
  | freeBuffer _ _ => exact freeBuffer_fate
  | createPool _ _ => exact createPool_fate
  | reset _ => exact reset_fate
  | destroy _ => exact destroy_fate
  | _ => exact .ran (exec_course sized trivial)

/-! ### The heap -/

/-- The heap is the same one, however a command goes. -/
theorem Course.heap (h : s.Course slot? reply after) : after.world.heap = s.world.heap := by
  cases h with
  | idle quiet _ _ _ => exact quiet.heap
  | ended _ _ moves settled _ => exact (congrArg World.heap settled.world).trans moves.heap
  | stuck _ _ stuck settled => exact (congrArg World.heap settled.world).trans stuck.heap

/-- **Every command** leaves the heap. -/
theorem heap_exec (sized : s.Sized) (command : Command) :
    (s.exec command).2.world.heap = s.world.heap := by
  have hfate := exec_fate sized command
  generalize (s.exec command).1 = reply, (s.exec command).2 = after at hfate
  cases hfate with
  | ran course => exact course.heap
  | spared _ _ heap | rewound _ _ heap | destroyed _ heap => exact heap
  | opened create heap => exact (Pool.heap_create create).trans heap

end Course

end Session

/-! ### What lasts in every pool -/

/-- **A property of pools lasts** over a heap: every new pool has it, and no move and no reset takes
it away. It may concern buffers that are in hand on the way; where a command gets stuck they are
lost. -/
structure Pool.Lasting (heap : Heap) (holds : Pool → List Buffer → Prop) : Prop where
  created : ∀ config id w pool w', w.heap = heap → Pool.create config id w = (.ok pool, w') →
    holds pool []
  move : ∀ a b : Stage, a.world.heap = heap → Move a b → holds a.pool a.hand → holds b.pool b.hand
  lost : ∀ pool hand, holds pool hand → holds pool []
  rewound : ∀ pool, holds pool [] → holds pool.rewound []

/-- **What can be said of every buffer** lasts, if it can be said of every buffer that is granted and
has nothing to do with bytes. -/
theorem Pool.Lasting.of_buffers {heap : Heap} {P : Buffer → Prop}
    (written : ∀ buffer offset data, P (Buffer.overwrite buffer offset data) ↔ P buffer)
    (granted : ∀ (w : World) id request buffer w', w.heap = heap →
      w.request id request = (.ok buffer, w') → P buffer) :
    Lasting heap fun pool hand => ∀ buffer ∈ pool.buffers ++ hand, P buffer where
  created config id w pool w' hheap hcreate buffer hmem := by
    rw [List.append_nil] at hmem
    -- a new pool has one buffer, which was granted
    unfold Pool.create at hcreate
    split at hcreate
    · cases hcreate
    · split at hcreate
      · cases hcreate
      · next made world hrequest =>
        obtain ⟨hpool, -⟩ := Prod.mk.inj hcreate
        obtain rfl := Except.ok.inj hpool
        obtain rfl : buffer = made := List.mem_singleton.mp hmem
        exact granted _ _ _ _ _ hheap hrequest
  move a b hheap hmove every :=
    hmove.forall_buffers written (fun _ _ _ call => granted _ _ _ _ _ hheap call) every
  lost pool hand every buffer hmem :=
    every buffer (List.mem_append_left _ (by rwa [List.append_nil] at hmem))
  rewound pool every buffer hmem := by
    rw [List.append_nil, Pool.buffers_rewound, Pool.buffers, LargeTable.buffers_emptied] at hmem
    refine every buffer ?_
    rw [List.append_nil]
    exact List.mem_append_right _ hmem

namespace Pool.Lasting

variable {holds : Pool → List Buffer → Prop} {s after : Session} {command : Command}

theorem moves {a b : Stage} (lasting : Lasting a.world.heap holds) (h : Moves a b)
    (start : holds a.pool a.hand) : holds b.pool b.hand := by
  induction h with
  | refl => exact start
  | tail before hmove ih => exact lasting.move _ _ (Moves.heap before) hmove ih

/-- The pool in a slot is exchanged for one that has the property, or for none. -/
private theorem set (every : ∀ pool, some pool ∈ s.pools → holds pool []) {slot : Nat}
    {entry : Option Pool} (h : ∀ pool ∈ entry, holds pool [])
    (hpools : after.pools = s.pools.set slot entry) :
    ∀ pool, some pool ∈ after.pools → holds pool [] := by
  intro pool hmem
  rw [hpools] at hmem
  rcases List.mem_or_eq_of_mem_set hmem with hold | rfl
  · exact every pool hold
  · exact h pool rfl

/-- However a command goes, every pool keeps the property. -/
theorem course {slot? : Option Nat} {reply : Reply} (lasting : Lasting s.world.heap holds)
    (every : ∀ pool, some pool ∈ s.pools → holds pool []) (h : s.Course slot? reply after) :
    ∀ pool, some pool ∈ after.pools → holds pool [] := by
  cases h with
  | idle _ pools _ _ => exact pools ▸ every
  | ended _ here moves settled _ =>
    refine set every (fun pool heq => ?_) settled.pools
    obtain rfl := Option.some.inj heq
    exact lasting.moves moves (every _ (Session.mem_pools_of_pool? here))
  -- a fault loses what was in hand, and `lost` covers that
  | stuck _ here stuck settled =>
    obtain ⟨b, moves, hpool, -⟩ := stuck
    refine set every (fun pool heq => ?_) settled.pools
    obtain rfl := Option.some.inj heq
    rw [← hpool]
    exact lasting.lost _ _ (lasting.moves moves (every _ (Session.mem_pools_of_pool? here)))

/-- **Every command** leaves the property to every pool. -/
theorem exec (lasting : Lasting s.world.heap holds) (sized : s.Sized)
    (every : ∀ pool, some pool ∈ s.pools → holds pool []) :
    ∀ pool, some pool ∈ (s.exec command).2.pools → holds pool [] := by
  have hfate := Session.exec_fate sized command
  generalize (s.exec command).1 = reply, (s.exec command).2 = after at hfate ⊢
  cases hfate with
  | ran course => exact lasting.course every course
  | spared pools _ _ => exact pools ▸ every
  | @opened config _ id w pool w' create heap =>
    intro other hmem
    rcases List.mem_append.mp hmem with hold | hnew
    · exact every other hold
    -- the only new pool is the one that was just made
    · rw [Option.some.inj (List.mem_singleton.mp hnew)]
      exact lasting.created config id w pool w' heap create
  | @rewound _ pool _ here rewinds _ =>
    refine set every (fun after heq => ?_) rfl
    obtain rfl := Option.some.inj heq
    exact rewinds ▸ lasting.rewound pool (every pool (Session.mem_pools_of_pool? here))
  | destroyed _ _ => exact set every (fun pool hmem => (Option.not_mem_none pool hmem).elim) rfl

end Pool.Lasting

/-- **To be sized lasts**: the sizes of a pool are settled when it is made. -/
theorem Pool.Lasting.sized (heap : Heap) : Lasting heap fun pool _ => pool.Sized where
  created _ _ _ _ _ _ hcreate := by
    obtain ⟨rfl, buffer, opens⟩ := Pool.create_ok hcreate
    exact opens.sized
  move _ _ _ hmove hsized := hsized.of_sameTraits hmove.sameTraits
  lost _ _ hsized := hsized
  rewound _ hsized := ⟨hsized.min, hsized.max⟩

namespace Session.Sized

variable {s after : Session}

/-- One pool may be replaced by another that is sized, or be gone. -/
theorem set {slot : Nat} {entry : Option Pool} (sized : s.Sized) (h : ∀ pool ∈ entry, pool.Sized)
    (hpools : after.pools = s.pools.set slot entry) : after.Sized := by
  intro pool hmem
  rw [hpools] at hmem
  rcases List.mem_or_eq_of_mem_set hmem with hold | rfl
  · exact sized pool hold
  · exact h pool rfl

/-- Pools stay sized, however a command goes. -/
theorem course {slot? : Option Nat} {reply : Reply} (sized : s.Sized)
    (h : s.Course slot? reply after) : after.Sized :=
  (Pool.Lasting.sized s.world.heap).course sized h

/-- **Every command** keeps the pools sized. -/
theorem exec {command : Command} (sized : s.Sized) : (s.exec command).2.Sized :=
  (Pool.Lasting.sized s.world.heap).exec sized sized

/-- **Every history** leaves the pools sized. -/
theorem run {history : List Command} (sized : s.Sized) : (s.run history).2.Sized := by
  induction history generalizing s with
  | nil => exact sized
  | cons command history ih => exact ih sized.exec

/-- A caller who holds nothing yet. -/
theorem ofHeap (heap : Heap) : (Session.ofHeap heap).Sized :=
  fun _ hmem => (List.not_mem_nil hmem).elim

end Session.Sized

namespace Pool.Lasting

variable {holds : Pool → List Buffer → Prop} {s : Session}

/-- **Every history** does. -/
theorem run {history : List Command} (lasting : Lasting s.world.heap holds) (sized : s.Sized)
    (every : ∀ pool, some pool ∈ s.pools → holds pool []) :
    ∀ pool, some pool ∈ (s.run history).2.pools → holds pool [] := by
  induction history generalizing s with
  | nil => exact every
  | cons command history ih =>
    have hlasting : Lasting (s.exec command).2.world.heap holds := by
      rw [Session.heap_exec sized]
      exact lasting
    exact ih hlasting sized.exec (lasting.exec sized every)

end Pool.Lasting

end RegionPool
