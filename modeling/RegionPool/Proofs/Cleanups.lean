import RegionPool.Proofs.Attachments

/-!
# What becomes of cleanup actions

Whatever a caller does with the records of a pool, and however often the pool is reset, the actions
that are attached in the end run when the pool is destroyed: each once, newest record first, and
before any buffer is given back. No other action runs, and none runs before, except that of a file
if the caller asks for it.

* `Session.exec_calm` — a command that neither destroys a pool nor runs the cleanup of a file runs
  no action;
* `Attached.minds` — the bytes of the records are where they were handed out, or were given back;
* `Session.Destroys`, `Attached.destroy` — what a destruction runs;
* `Session.run_attends` — after every history.
-/

namespace RegionPool

open PoolM

namespace Session

variable {s : Session} {slot index : Nat} {pool : Pool} {command : Command}
  {roster : List Attachment} {taken : List Holding} {ticket : CleanupTicket}

/-! ### Nothing runs before -/

/-- Nothing runs while a pool rests. -/
theorem Turn.ran {slot? : Option Nat} {after : Session} (h : s.Turn PoolState.Rests slot? after) :
    after.world.ran = s.world.ran := by
  cases h with
  | idle calm _ _ _ => exact calm.ran
  | acted _ _ goes _ world _ _ => exact (congrArg World.ran world).trans goes.calm.ran

/-- **No cleanup action runs** but by a command that destroys a pool or runs that of a file. -/
theorem exec_calm (vouched : s.Vouched) (restful : ∀ other, command ≠ .destroy other ∧
    ∀ descriptor, command ≠ .runFileCleanup other descriptor) :
    (s.exec command).2.world.ran = s.world.ran := by
  cases command with
  | destroy slot => exact absurd rfl (restful slot).1
  | runFileCleanup slot descriptor => exact absurd rfl ((restful slot).2 descriptor)
  | createPool config allocator =>
    have hstep : s.Step (.createPool config allocator) _ _ := exec_step vouched
    cases hstep with
    | turned turn _ =>
      cases turn with
      | idle calm _ _ _ => exact calm.ran
      | acted named _ _ _ _ _ _ => cases named
    | began begins _ _ _ _ => exact begins.ran
    | reset named _ _ _ _ _ => cases named
    | destroyed named _ _ _ _ _ => cases named
  | reset slot =>
    -- records outlive a reset, and none of them is run by it
    cases here : s.pool? slot with
    | none => rw [exec_absent here rfl]
    | some pool =>
      refine perform_ends (Q := fun result => result.2.world.ran = s.world.ran) here
        ((Pool.reset_endures (vouched.fit slot pool here)).mono (fun _ _ ht => ?_) fun _ _ ht => ?_)
      · exact ht.2.2.1.ran
      · exact ht.2.2.1.ran
  | _ => exact Turn.ran (exec_rests vouched trivial)

/-! ### What is attached to a ticket -/

/-- **The newest action for a file runs early**, if the caller asks for it and there is one. -/
def RunsEarly (s : Session) (roster : List Attachment) (descriptor : Int)
    (result : Reply × Session) : Prop :=
  (roster.reverse.find? (Attachment.releases descriptor) = none ∧ result.1 = .flag false ∧
      result.2.world.ran = s.world.ran) ∨
    ∃ a file, roster.reverse.find? (Attachment.releases descriptor) = some a ∧
      a.action = some (.file file) ∧ result.1 = .flag true ∧
        result.2.world.ran = s.world.ran ++ [.file file]

namespace Attached

/-- **The record of a ticket** is there, with the action that is attached. -/
theorem exists_record (attached : s.Attached slot roster) (here : s.pool? slot = some pool)
    (vouched : s.Vouched) (held : s.ticket? index = some ticket) (owner : ticket.pool = pool.id) :
    ∃ record, pool.cleanupRecord ticket = .ok record ∧ ⟨index, record.action⟩ ∈ roster := by
  have hslot : ticket.pool = ⟨slot + 1⟩ := owner.trans (vouched.numbered slot pool here)
  -- the roster names the ticket at the place of its record
  have hnamed := (attached.places ticket.index index).mpr ⟨ticket, held, hslot, rfl⟩
  rw [List.getElem?_map] at hnamed
  obtain ⟨a, hplace, rfl⟩ := Option.map_eq_some_iff.mp hnamed
  refine ⟨a.record s, ?_, List.mem_of_getElem? hplace⟩
  rw [Pool.cleanupRecord, if_neg (not_not_intro owner), attached.records pool here,
    List.getElem?_map, hplace]
  rfl

/-- To change the record of a ticket is to attach another action to it. -/
private theorem setAction (attached : s.Attached slot roster) (here : s.pool? slot = some pool)
    (vouched : s.Vouched) (held : s.ticket? index = some ticket) (owner : ticket.pool = pool.id)
    (action : Option CleanupAction) : pool.cleanups.setAction ticket.index action =
      { records := (attach roster index action).map (Attachment.record s) } := by
  have hslot : ticket.pool = ⟨slot + 1⟩ := owner.trans (vouched.numbered slot pool here)
  rw [attached.places.map_record_attach held hslot, ← attached.records pool here]
  rfl

/-- **An action can be attached** to every ticket of the pool, and no other record changes. -/
theorem setCleanup (attached : s.Attached slot roster) (here : s.pool? slot = some pool)
    (vouched : s.Vouched) (held : s.ticket? index = some ticket) (owner : ticket.pool = pool.id)
    (action : CleanupAction) : ∃ world, Pool.setCleanup ticket action ⟨pool, s.world⟩ =
      .ok () ⟨{ pool with cleanups :=
        ⟨(attach roster index (some action)).map (Attachment.record s)⟩ }, world⟩ := by
  cases run : Pool.setCleanup ticket action ⟨pool, s.world⟩ with
  | ok done t =>
    obtain ⟨-, hpool, -⟩ := Pool.setCleanup_ends.ok_of run
    obtain ⟨after, world⟩ := t
    obtain rfl : after = _ := hpool
    rw [attached.setAction here vouched held owner]
    exact ⟨world, rfl⟩
  | error failure t =>
    -- the record of a ticket that was issued is still there
    obtain ⟨hfailed, -⟩ := Pool.setCleanup_ends.fail_of run
    obtain ⟨record, hrecord, -⟩ := attached.exists_record here vouched held owner
    rw [hrecord] at hfailed
    cases hfailed

/-- **What is attached can be taken away**, and no other record changes. -/
theorem disableCleanup (attached : s.Attached slot roster) (here : s.pool? slot = some pool)
    (vouched : s.Vouched) (held : s.ticket? index = some ticket) (owner : ticket.pool = pool.id) :
    ∃ action, ⟨index, action⟩ ∈ roster ∧ Pool.disableCleanup ticket ⟨pool, s.world⟩ =
      .ok action ⟨{ pool with cleanups :=
        ⟨(attach roster index none).map (Attachment.record s)⟩ }, s.world⟩ := by
  obtain ⟨record, hrecord, hmem⟩ := attached.exists_record here vouched held owner
  cases run : Pool.disableCleanup ticket ⟨pool, s.world⟩ with
  | ok action t =>
    obtain ⟨⟨found, hfound, rfl⟩, rfl⟩ := Pool.disableCleanup_ends.ok_of run
    -- the record that is found is the one that the roster tells of
    obtain rfl := Except.ok.inj (hrecord.symm.trans hfound)
    rw [attached.setAction here vouched held owner]
    exact ⟨_, hmem, rfl⟩
  | error failure t =>
    obtain ⟨hfailed, -⟩ := Pool.disableCleanup_ends.fail_of run
    rw [hrecord] at hfailed
    cases hfailed

/-- The cleanup of a file runs early. -/
theorem runFileCleanup (attached : s.Attached slot roster) (here : s.pool? slot = some pool)
    (descriptor : Int) :
    s.RunsEarly roster descriptor (s.exec (.runFileCleanup slot descriptor)) := by
  have hrecords := attached.records pool here
  refine perform_ends (Q := s.RunsEarly roster descriptor) here
    (Pool.runFileCleanup_ends.mono (fun done t ht => ?_) fun _ _ h => h.elim)
  rcases ht with ⟨hnone, rfl, rfl⟩ | ⟨file, cleanups, htake, rfl, rfl⟩
  · exact .inl ⟨takeFile?_eq_none hrecords hnone, rfl, rfl⟩
  · obtain ⟨-, a, hfind, haction⟩ := takeFile?_eq_some attached.places hrecords htake
    exact .inr ⟨a, file, hfind, haction, rfl, (World.releaseFile_later s.world file).2⟩

end Attached

/-! ### What a destruction runs -/

/-- **What a destruction runs**: every action that is attached, once, newest first. These events
come `first`, and no buffer is given back among them; nothing runs in those that come `last`. -/
structure Destroys (s : Session) (slot : Nat) (pool : Pool) (roster : List Attachment)
    (runs : List Ran) (first last : List Event) : Prop where
  done : (s.exec (.destroy slot)).1 = .done
  unwound : Pool.Runs s.world.freed { pool with cleanups := {} }
    (roster.reverse.map (Attachment.record s)) runs
  actions : List.Forall₂ Ran.Of runs (roster.reverse.filterMap Attachment.action)
  events : (s.exec (.destroy slot)).2.world.events = s.world.events ++ (first ++ last)
  kept : ∀ id, .freed id ∉ first
  ran : first.filterMap Event.ran? = runs
  calm : last.filterMap Event.ran? = []

/-- What was given back has no site in a pool. -/
theorem Retired.siteOf? {id : BufferId} (retired : s.Retired) (here : s.pool? slot = some pool)
    (hfreed : id ∈ s.world.freed) : pool.siteOf? (.large id) = none := by
  cases hsite : pool.siteOf? (.large id) with
  | none => rfl
  | some site =>
    obtain ⟨buffer, hfind, -⟩ := Option.map_eq_some_iff.mp hsite
    obtain ⟨hmem, hid⟩ := LargeTable.mem_of_find? hfind
    exact absurd hid (retired.absent here hfreed buffer hmem)

/-- A region that is tracked is minded: its bytes are there, or were given back. -/
theorem Tracks.minds {region : Region} {home : Site} {count : Nat}
    (tracks : s.Tracks slot region home count) (retired : s.Retired)
    (here : s.pool? slot = some pool) : pool.Minds s.world.freed region := by
  rcases tracks.site pool here with hsite | ⟨id, hplace, hfreed⟩
  · refine .inl ⟨⟨home, hsite, tracks.fits⟩, fun id hfreed hplace => ?_⟩
    rw [hplace, retired.siteOf? here hfreed] at hsite
    cases hsite
  · exact .inr ⟨⟨id, hfreed, hplace⟩, hplace ▸ retired.siteOf? here hfreed⟩

namespace Attached

/-- **The bytes of every record** are minded. -/
theorem minds (attached : s.Attached slot roster) (retired : s.Retired)
    (here : s.pool? slot = some pool) : ∀ record ∈ pool.cleanups.records,
      ∀ region ∈ record.data, pool.Minds s.world.freed region := by
  intro record hrecord region hdata
  rw [attached.records pool here] at hrecord
  obtain ⟨a, hmem, rfl⟩ := List.mem_map.mp hrecord
  obtain ⟨ticket, held, hregion⟩ := Option.bind_eq_some_iff.mp hdata
  obtain ⟨place, hplace⟩ := List.mem_iff_getElem?.mp hmem
  -- what the record hands its action are the bytes of its ticket, which are tracked
  obtain ⟨other, hother, owner, -⟩ := attached.places.exists_ticket hplace
  obtain rfl := Option.some.inj (held.symm.trans hother)
  obtain ⟨home, count, tracks⟩ := attached.tracked a.ticket ticket held owner region hregion
  exact tracks.minds retired here

/-- **A destruction runs what is attached**, newest first, and then gives the buffers back. -/
theorem destroy (attached : s.Attached slot roster) (accounted : s.Accounted taken)
    (retired : s.Retired) (here : s.pool? slot = some pool) :
    ∃ runs first last, s.Destroys slot pool roster runs first last := by
  rcases s.destroy_ends slot with ⟨absent, -⟩ | ⟨other, reply, t, hother, hrun, hends⟩
  · rw [here] at absent
    cases absent
  obtain rfl := Option.some.inj (here.symm.trans hother)
  -- a destruction cannot get stuck, for the books list every buffer that it gives back
  obtain ⟨rfl, -⟩ := accounted.destruction here hends
  obtain ⟨runs, u, unwinds, calm, hruns⟩ : ∃ runs u, Pool.Unwinds ⟨pool, s.world⟩ runs u ∧
      u.world.Calm t.world ∧ Pool.Runs s.world.freed { pool with cleanups := {} }
        pool.cleanups.records.reverse runs := by
    have hboth := (Pool.destroy_unwinds s.world.freed).and hends
    unfold Ends at hboth
    split at hboth
    · obtain ⟨⟨runs, u, unwinds, calm, hruns⟩, rfl, -⟩ := hboth
      exact ⟨runs, u, unwinds, calm, hruns (attached.minds retired here)⟩
    · obtain ⟨-, -, hfailed⟩ := hboth
      cases hfailed
  -- the log grows by what the unwinding writes, and then by what the calls for the buffers do
  obtain ⟨first, hfirst⟩ := unwinds.later.events
  obtain ⟨last, hlast⟩ := calm.events
  refine ⟨runs, first, last, congrArg Prod.fst hrun, ?_, ?_, ?_, fun id hmem => ?_, ?_, ?_⟩
  · rw [List.map_reverse, ← attached.records pool here]
    exact hruns
  · have hactions : pool.cleanups.records.reverse.filterMap CleanupRecord.action =
        roster.reverse.filterMap Attachment.action := by
      rw [attached.records pool here, ← List.map_reverse, List.filterMap_map]
      rfl
    exact hactions ▸ hruns.actions
  · rw [hrun, ← List.append_assoc]
    exact hlast.symm.trans (congrArg (· ++ last) hfirst.symm)
  · have hfreed := unwinds.freed
    rw [World.freed, World.freed, ← hfirst, List.filterMap_append] at hfreed
    -- the unwinding gives no buffer back, so none of its events tells of one
    have hnone := List.filterMap_eq_nil_iff.mp (List.append_right_eq_self.mp hfreed) _ hmem
    cases hnone
  · have hran := unwinds.ran
    rw [World.ran, World.ran, ← hfirst, List.filterMap_append] at hran
    exact List.append_cancel_left hran
  · have hran := calm.ran
    rw [World.ran, World.ran, ← hlast, List.filterMap_append] at hran
    exact List.append_right_eq_self.mp hran

end Attached

/-! ### After every history -/

/-- **A slot that is empty once stays so**: no pool is made in the place of another. -/
theorem run_absent {history : List Command} (vouched : s.Vouched) (absent : s.pool? slot = none)
    (made : slot < s.pools.length) : (s.run history).2.pool? slot = none := by
  induction history generalizing s with
  | nil => exact absent
  | cons command history ih =>
    have hstep : s.Step command (s.exec command).1 (s.exec command).2 := exec_step vouched
    have hnone : (s.exec command).2.pool? slot = none := by
      by_cases named : command.pool? = some slot
      · rw [exec_absent absent named]
        exact absent
      · refine Option.eq_none_iff_forall_ne_some.mpr fun pool here => ?_
        -- a pool that was made just now would be in a new slot
        rcases exec_others vouched named here with hold | ⟨hle, -⟩
        · rw [absent] at hold
          cases hold
        · exact absurd made (Nat.not_lt.mpr hle)
    exact ih (vouched.step hstep) hnone (Nat.lt_of_lt_of_le made hstep.length_le)

/-- **The cleanup actions of a pool are attended to.** The roster names the tickets of the pool in
the order of their records, and no other has a record. No command runs an action before the pool is
destroyed, except that the newest one for a file runs if the caller asks for it. An action can be
attached to every ticket in place of the one that was, and taken away; and nothing else changes. A
destruction runs exactly what is attached then, newest first, before it gives any buffer back, and
ends the pool for good. -/
structure Attends (s : Session) (slot : Nat) (pool : Pool) (roster : List Attachment) : Prop where
  places : s.Places slot (roster.map Attachment.ticket)
  records : pool.cleanups.records = roster.map (Attachment.record s)
  calm : ∀ command, (∀ other, command ≠ .destroy other ∧
      ∀ descriptor, command ≠ .runFileCleanup other descriptor) →
    (s.exec command).2.world.ran = s.world.ran
  early : ∀ descriptor,
    s.RunsEarly roster descriptor (s.exec (.runFileCleanup slot descriptor))
  replaced : ∀ index ticket, s.ticket? index = some ticket → ticket.pool = pool.id →
    ∀ action, ∃ world, Pool.setCleanup ticket action ⟨pool, s.world⟩ =
      .ok () ⟨{ pool with cleanups :=
        ⟨(attach roster index (some action)).map (Attachment.record s)⟩ }, world⟩
  disabled : ∀ index ticket, s.ticket? index = some ticket → ticket.pool = pool.id →
    ∃ action, ⟨index, action⟩ ∈ roster ∧ Pool.disableCleanup ticket ⟨pool, s.world⟩ =
      .ok action ⟨{ pool with cleanups :=
        ⟨(attach roster index none).map (Attachment.record s)⟩ }, s.world⟩
  destroyed : ∃ runs first last, s.Destroys slot pool roster runs first last
  ended : ∀ history, ((s.exec (.destroy slot)).2.run history).2.pool? slot = none

/-- **What is attached is attended to.** -/
theorem Attached.attends (attached : s.Attached slot roster) (vouched : s.Vouched)
    (accounted : s.Accounted taken) (retired : s.Retired) (here : s.pool? slot = some pool) :
    s.Attends slot pool roster where
  places := attached.places
  records := attached.records pool here
  calm _ := exec_calm vouched
  early := attached.runFileCleanup here
  replaced _ _ := attached.setCleanup here vouched
  disabled _ _ := attached.disableCleanup here vouched
  destroyed := attached.destroy accounted retired here
  -- the slot of a pool that was destroyed is not used again
  ended history := by
    have hstep : s.Step (.destroy slot) _ _ := exec_step vouched
    exact run_absent (vouched.step hstep) (exec_destroy s slot)
      (Nat.lt_of_lt_of_le (lt_of_pool? here) hstep.length_le)

/-- **After every history**, the cleanup actions of every pool are attended to, with the roster that
is told from the history. -/
theorem run_attends (heap : Heap) (history : List Command) {slot : Nat} {pool : Pool}
    (admitted : (Session.ofHeap heap).AdmitsAll history)
    (here : ((Session.ofHeap heap).run history).2.pool? slot = some pool) :
    ((Session.ofHeap heap).run history).2.Attends slot pool
      ((Session.ofHeap heap).roster slot [] history) := by
  have vouched := Vouched.ofHeap heap
  have accounted := Accounted.ofHeap heap
  exact ((Attached.ofHeap heap slot).run vouched accounted admitted).attends vouched.run
    (accounted.run admitted) (accounted.retired_run admitted nofun) here

/-- Records with small and large bytes, actions replaced, taken away and run early, a ticket of
another pool, and a reset, after which a record gets the place of an older one. -/
def filedHistory : List Command :=
  [.createPool { size := 256 } none, .createPool { size := 112 } none, .addCleanup 0 8,
    .addCleanup 0 500, .onDestroy 0 "leave", .addCleanup 1 8, .addCleanup 0 0,
    .setWithData 0 0 "flush" (.fill 1), .setWithData 0 1 "drop" (.fill 2), .setCustom 0 3 "foreign",
    .setFile 0 4 "first" .file true, .runFileCleanup 0 500, .reset 0, .runFileCleanup 0 500,
    .setFile 0 4 "second" .file false, .disableCleanup 0 2, .addCleanup 0 8, .setCustom 0 5 "brief",
    .setWithData 0 5 "again" (.fill 7)]

theorem run_attends_filedHistory : (Session.ofHeap roomyHeap).AdmitsAll filedHistory ∧
    ∃ pool, ((Session.ofHeap roomyHeap).run filedHistory).2.pool? 0 = some pool ∧
      ((Session.ofHeap roomyHeap).run filedHistory).2.Attends 0 pool
        ((Session.ofHeap roomyHeap).roster 0 [] filedHistory) := by
  have admitted : (Session.ofHeap roomyHeap).AdmitsAll filedHistory := by decide +kernel
  have hsome : (((Session.ofHeap roomyHeap).run filedHistory).2.pool? 0).isSome := by
    decide +kernel
  obtain ⟨pool, here⟩ := Option.isSome_iff_exists.mp hsome
  exact ⟨admitted, pool, here, run_attends roomyHeap filedHistory admitted here⟩

/-- The action of the older record is given what the newer one wrote. -/
example : (((Session.ofHeap roomyHeap).run filedHistory).2.exec (.destroy 0)).2.world.ran =
    [.file ⟨500, "first", true⟩, .withData "again" [0, 0, 0, 0, 0, 0, 0, 0],
      .file ⟨501, "second", false⟩, .withData "drop" [],
      .withData "flush" [7, 7, 7, 7, 7, 7, 7, 7]] := by
  decide +kernel

end Session

end RegionPool
