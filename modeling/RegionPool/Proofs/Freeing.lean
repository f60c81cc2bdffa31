import RegionPool.Proofs.Attachments
import RegionPool.Proofs.Resolution

/-!
# What can be freed

A region may be shown to a pool for freeing at any time: when it lies in a block, when it is one of
another pool, when its buffer is long gone and the slot of the buffer is taken by another. The pool
does not ask for the generation of the region. It need not: a large buffer goes in two ways only, by
a reset or by being freed, and its number is given to no other.

* `PoolState.Yields` — a large buffer is given back, and what that leaves alone;
* `Pool.Possesses` — what can be freed, told from the pool, and `Pool.free_yields`;
* `Session.Relinquished` — whether a large buffer is gone, told from the history alone;
* `Session.Holds` — the pool in a slot holds a large buffer; no other command takes it away
  (`Holds.exec`);
* `Session.run_frees` — a pool frees exactly what it handed out and still holds.
-/

namespace RegionPool

open PoolM

/-! ### One call -/

/-- **A pool possesses the large buffer of a region**: the region is one of this pool, of whatever
generation, and one of the slots holds a buffer of its number. -/
structure Pool.Possesses (pool : Pool) (region : Region) (id : BufferId) : Prop where
  owner : region.pool = pool.id
  place : region.place = .large id
  held : ∃ buffer ∈ pool.large.buffers, buffer.id = id

namespace PoolState

variable {s t : PoolState} {id other : BufferId}

/-- **A pool yields a large buffer**: the slot of the buffer is empty, the raw allocator of the pool
has the buffer back, and nothing else changes. -/
structure Yields (s : PoolState) (id : BufferId) (t : PoolState) : Prop where
  /-- No slot is added or lost, and blocks, generation and cleanup records stay. -/
  emptied : ∃ index buffer, s.pool.large.slots[index]? = some (some buffer) ∧ buffer.id = id ∧
    t.pool = { s.pool with large := s.pool.large.set index none } ∧
    (s.world.log (.freeLarge s.pool.label id)).release s.pool.allocator buffer = (.ok (), t.world) ∧
    s.world.TakesBack s.pool.allocator buffer t.world
  /-- All other regions are read as before. -/
  bytes : ∀ region bytes, region.place ≠ .large id →
    (t.pool.bytes region = .ok bytes ↔ s.pool.bytes region = .ok bytes)

/-- **A pool frees a region exactly if it is live**, and otherwise does not find it, and nothing at
all happens. -/
structure Frees (s : PoolState) (region : Region) (live : Prop) : Prop where
  freed : live → ∃ id t, region.place = .large id ∧ Pool.free region s = .ok .freed t ∧
    s.Yields id t
  notFound : ¬ live → Pool.free region s = .ok .notFound s

namespace Yields

/-- A buffer that was yielded is among those given back. -/
theorem freed (yields : s.Yields id t) : id ∈ t.world.freed := by
  obtain ⟨index, buffer, -, rfl, -, -, back⟩ := yields.emptied
  rw [back.freed]
  exact List.mem_append_right _ List.mem_cons_self

/-- The other large buffers stay where they are. -/
theorem siteOf?_of_ne (yields : s.Yields id t) (hne : id ≠ other) :
    t.pool.siteOf? (.large other) = s.pool.siteOf? (.large other) := by
  obtain ⟨index, buffer, hslot, rfl, hpool, -, -⟩ := yields.emptied
  have hfind : t.pool.large.find? other = s.pool.large.find? other := by
    rw [hpool]
    exact LargeTable.find?_set_none_of_ne hslot hne
  exact congrArg (Option.map (·.site 0)) hfind

end Yields

end PoolState

namespace Pool

variable {s : PoolState}

/-- Emptying the slot of a large buffer leaves the bytes of all other regions. -/
private theorem bytes_withdrawn {pool : Pool} {region : Region} {index : Nat} {buffer : Buffer}
    {bytes : Bytes} (hslot : pool.large.slots[index]? = some (some buffer))
    (hplace : region.place ≠ .large buffer.id) :
    ({ pool with large := pool.large.set index none } : Pool).bytes region = .ok bytes ↔
      pool.bytes region = .ok bytes := by
  let after : Pool := { pool with large := pool.large.set index none }
  -- a slot is looked up by number, and no other slot has this one
  have hbuffer : after.bufferAt? region.place = pool.bufferAt? region.place := by
    cases hregion : region.place with
    | block index offset => rfl
    | large other =>
      rw [bufferAt?_large, bufferAt?_large]
      exact LargeTable.find?_set_none_of_ne hslot fun heq => hplace (heq ▸ hregion)
  have hcontent : after.content? region = pool.content? region := by
    rw [content?, content?, hbuffer]
  change after.bytes region = .ok bytes ↔ _
  rw [bytes_eq_ok_iff, bytes_eq_ok_iff, hcontent]

/-- **Freeing a region** succeeds if the pool possesses its buffer, and then the pool yields it. All
that may go wrong is that the raw allocator does not know the buffer. -/
theorem free_yields (region : Region) :
    Ends (free region) s
      (fun status t => (status = .freed ∧ ∃ id, s.pool.Possesses region id ∧ s.Yields id t) ∨
        (status = .notFound ∧ t = s ∧ ∀ id, ¬ s.pool.Possesses region id))
      (fun failure _ => ∃ id, failure = .fault (.untrackedFree id)) := by
  simp only [free, ends_bind, ends_getPool]
  -- nothing is freed for a region in a block, for that of another pool or for one that is gone
  split
  · next index offset hplace =>
    refine .inr ⟨rfl, rfl, fun id possesses => ?_⟩
    cases hplace.symm.trans possesses.place
  next id hplace =>
  split
  · next howner =>
    split
    · next hnone =>
      refine .inr ⟨rfl, rfl, fun other possesses => ?_⟩
      obtain rfl := Place.large.inj (hplace.symm.trans possesses.place)
      obtain ⟨buffer, hmem, hid⟩ := possesses.held
      exact LargeTable.take?_eq_none_iff.mp hnone buffer hmem hid
    · next buffer large htake =>
      obtain ⟨index, hslot, rfl, rfl⟩ := LargeTable.exists_of_take? htake
      have hmem : buffer ∈ s.pool.large.buffers :=
        LargeTable.mem_buffers_iff.mpr (List.mem_of_getElem? hslot)
      simp only [ends_bind, ends_setPool, ends_log, ends_pure]
      rw [ends_release]
      constructor
      · intro world call
        refine .inl ⟨trivial, buffer.id, ⟨howner, hplace, buffer, hmem, rfl⟩, ?_⟩
        have back := (World.release_ok call).of_log rfl
        exact ⟨⟨index, buffer, hslot, rfl, rfl, call, back⟩, fun _ _ => bytes_withdrawn hslot⟩
      · intro fault world call
        exact ⟨buffer.id, congrArg Failure.fault (World.release_error call).1⟩
  · next hforeign => exact .inr ⟨rfl, rfl, fun _ possesses => hforeign possesses.owner⟩

end Pool

namespace Session

variable {s : Session} {slot index : Nat} {id : BufferId} {pool : Pool} {region : Region}
  {command : Command} {history : List Command} {taken : List Holding}

/-- **While the accounts are kept**, a pool frees what it possesses, and finds nothing else. -/
theorem Accounted.frees (accounted : s.Accounted taken) (here : s.pool? slot = some pool)
    (region : Region) :
    PoolState.Frees ⟨pool, s.world⟩ region (∃ id, pool.Possesses region id) := by
  have hends := Pool.free_yields (s := ⟨pool, s.world⟩) region
  cases run : Pool.free region ⟨pool, s.world⟩ with
  | ok status t =>
    rcases hends.ok_of run with ⟨rfl, id, possesses, yields⟩ | ⟨rfl, rfl, lacks⟩
    · exact ⟨fun _ => ⟨id, t, possesses.place, run, yields⟩, absurd ⟨id, possesses⟩⟩
    · exact ⟨fun ⟨id, possesses⟩ => (lacks id possesses).elim, fun _ => run⟩
  | error failure t =>
    -- a buffer that a pool holds is known to its raw allocator
    obtain ⟨id, rfl⟩ := hends.fail_of run
    have sized : pool.Sized := accounted.sized pool (mem_pools_of_pool? here)
    rcases (Pool.free_orderly _ [] sized).fail_of run with ⟨hother, -⟩ | stuck
    · exact absurd rfl (hother id)
    · exact (stuck.false_of_books (accounted.stage_books here)).elim

/-! ### Along a history -/

/-- **A command relinquishes a large buffer** of the pool in a slot: it resets the pool, or shows it
a region with the number of the buffer and is told that it was freed. -/
def Relinquishes (s : Session) (slot : Nat) (id : BufferId) (command : Command) : Prop :=
  (command = .reset slot ∧ (s.exec command).1 = .done) ∨
    ∃ index region, command = .free slot index ∧ s.region? index = some region ∧
      region.place = .large id ∧ (s.exec command).1 = .status .freed

/-- **A large buffer is relinquished** along a history. -/
def Relinquished (s : Session) (slot : Nat) (id : BufferId) : List Command → Prop
  | [] => False
  | command :: history =>
    s.Relinquishes slot id command ∨ (s.exec command).2.Relinquished slot id history

/-- **The pool in a slot holds a large buffer**, as long as there is the pool. -/
structure Holds (s : Session) (slot : Nat) (id : BufferId) : Prop where
  issued : slot < s.pools.length
  held : ∀ pool, s.pool? slot = some pool → ∃ site, pool.siteOf? (.large id) = some site

/-- Freeing a region that is there, told from what the pool makes of it. -/
theorem exec_free {status : FreeStatus} {t : PoolState} (here : s.pool? slot = some pool)
    (hregion : s.region? index = some region)
    (run : Pool.free region ⟨pool, s.world⟩ = .ok status t) :
    s.exec (.free slot index) = (.status status, s.settle slot t) := by
  rw [exec, hregion, withFound, perform, here, withFound]
  simp only [run]

/-- **Resetting a pool that is there** cannot fail while the accounts are kept. -/
theorem Accounted.reset_done (accounted : s.Accounted taken) (vouched : s.Vouched)
    (here : s.pool? slot = some pool) : (s.exec (.reset slot)).1 = .done := by
  have admitted : s.Admits (.reset slot) := trivial
  have htracked := (accounted.exec admitted).2 nofun
  revert htracked
  refine perform_ends (Q := fun result =>
    (∀ id, result.1 ≠ .failed (.fault (.untrackedFree id))) → result.1 = .done) here ?_
  refine (Pool.reset_endures (vouched.fit slot pool here)).mono (fun _ _ _ _ => rfl)
    fun failure t ht htracked => ?_
  obtain ⟨-, -, -, id, rfl⟩ := ht
  exact absurd rfl (htracked id)

/-- A pool that lets its large buffers stay still holds them. -/
private theorem Turn.held {after : Session} {slot? : Option Nat} {site : Site} {pool' : Pool}
    (turn : s.Turn PoolState.Stays slot? after) (named : slot? = some slot)
    (here : s.pool? slot = some pool) (hsite : pool.siteOf? (.large id) = some site)
    (here' : after.pool? slot = some pool') :
    pool'.siteOf? (.large id) = some site := by
  -- a pool that was not named stays, and one that was named has let its buffers stay
  cases turn with
  | idle _ pools _ _ =>
    rw [pool?, pools] at here'
    obtain rfl := Option.some.inj (here.symm.trans here')
    exact hsite
  | @acted acting other t named' there stays pools _ _ _ =>
    obtain rfl := Option.some.inj (named.symm.trans named')
    obtain rfl := Option.some.inj (here.symm.trans there)
    rw [pool?_of_set here pools, if_pos rfl] at here'
    obtain rfl := Option.some.inj here'
    exact stays.keeps id site hsite

/-- **A command on a pool** that does not relinquish a large buffer leaves it to the pool. -/
private theorem exec_held {site : Site} {pool' : Pool} (vouched : s.Vouched)
    (accounted : s.Accounted taken) (kept : ¬ s.Relinquishes slot id command)
    (named : command.pool? = some slot) (here : s.pool? slot = some pool)
    (hsite : pool.siteOf? (.large id) = some site)
    (here' : (s.exec command).2.pool? slot = some pool') :
    pool'.siteOf? (.large id) = some site := by
  cases command with
  | createPool _ _ => cases named
  | reset _ =>
    obtain rfl := Option.some.inj named
    exact absurd (.inl ⟨rfl, accounted.reset_done vouched here⟩) kept
  | destroy _ =>
    obtain rfl := Option.some.inj named
    rw [exec_destroy] at here'
    cases here'
  | free _ index =>
    obtain rfl := Option.some.inj named
    cases hregion : s.region? index with
    | none =>
      rw [exec, hregion, withFound] at here'
      obtain rfl := Option.some.inj (here.symm.trans here')
      exact hsite
    | some region =>
      have frees := accounted.frees here region
      by_cases live : ∃ other, pool.Possesses region other
      · obtain ⟨other, t, hplace, run, yields⟩ := frees.freed live
        have hexec := exec_free here hregion run
        rw [hexec, pool?_settle_self here] at here'
        obtain rfl := Option.some.inj here'
        -- what is freed is another buffer: this one is not relinquished
        have hne : other ≠ id := by
          rintro rfl
          exact kept (.inr ⟨index, region, rfl, hregion, hplace, by rw [hexec]⟩)
        exact (yields.siteOf?_of_ne hne).trans hsite
      · rw [exec_free here hregion (frees.notFound live), pool?_settle_self here] at here'
        obtain rfl := Option.some.inj here'
        exact hsite
  | runFileCleanup _ descriptor =>
    obtain rfl := Option.some.inj named
    revert here'
    refine perform_ends (Q := fun result => result.2.pool? _ = some pool' → _) here ?_
    refine Pool.runFileCleanup_ends.mono (fun done t ht here' => ?_) fun _ _ h => h.elim
    rw [pool?_settle_self here] at here'
    obtain rfl := Option.some.inj here'
    rcases ht with ⟨-, -, rfl⟩ | ⟨file, cleanups, -, -, rfl⟩
    · exact hsite
    · exact hsite
  | _ =>
    refine Turn.held ?_ named here hsite here'
    exact exec_stays vouched trivial (by simp)

namespace Holds

/-- **Every command** that does not relinquish a large buffer leaves it where it is held. -/
theorem exec (holds : s.Holds slot id) (vouched : s.Vouched) (accounted : s.Accounted taken)
    (kept : ¬ s.Relinquishes slot id command) : (s.exec command).2.Holds slot id := by
  have hstep : s.Step command (s.exec command).1 (s.exec command).2 := exec_step vouched
  refine ⟨Nat.lt_of_lt_of_le holds.issued hstep.length_le, fun pool' here' => ?_⟩
  by_cases named : command.pool? = some slot
  · cases here : s.pool? slot with
    | none =>
      rw [exec_absent here named, here] at here'
      cases here'
    | some pool =>
      obtain ⟨site, hsite⟩ := holds.held pool here
      exact ⟨site, exec_held vouched accounted kept named here hsite here'⟩
  -- a command for another pool, and no new one takes a slot that is issued
  · rcases exec_others vouched named here' with hsame | ⟨hnew, -⟩
    · exact holds.held pool' hsame
    · exact absurd holds.issued (Nat.not_lt.mpr hnew)

/-- **Every history** that does not relinquish it does. -/
theorem run (holds : s.Holds slot id) (vouched : s.Vouched) (accounted : s.Accounted taken)
    (admitted : s.AdmitsAll history) (kept : ¬ s.Relinquished slot id history) :
    (s.run history).2.Holds slot id := by
  induction history generalizing s taken with
  | nil => exact holds
  | cons command history ih =>
    obtain ⟨hcommand, hhistory⟩ := admitted
    obtain ⟨hnow, hlater⟩ := not_or.mp kept
    exact ih (holds.exec vouched accounted hnow) (vouched.exec command) (accounted.exec hcommand).1
      hhistory hlater

end Holds

/-! ### What is gone -/

/-- **A region that is freed** had a large buffer, and that was given back. -/
theorem Accounted.freed_of_free (accounted : s.Accounted taken)
    (hregion : s.region? index = some region)
    (hreply : (s.exec (.free slot index)).1 = .status .freed) :
    ∃ id, region.place = .large id ∧ id ∈ (s.exec (.free slot index)).2.world.freed := by
  cases here : s.pool? slot with
  | none =>
    rw [exec_absent here rfl] at hreply
    cases hreply
  | some pool =>
    have frees := accounted.frees here region
    -- the pool answers so only if the buffer was still there
    by_cases live : ∃ id, pool.Possesses region id
    · obtain ⟨id, t, hplace, run, yields⟩ := frees.freed live
      rw [exec_free here hregion run]
      exact ⟨id, hplace, yields.freed⟩
    · rw [exec_free here hregion (frees.notFound live)] at hreply
      cases hreply

/-- **A large buffer that is relinquished** was given back. -/
theorem Holds.freed_of_relinquishes (holds : s.Holds slot id) (vouched : s.Vouched)
    (accounted : s.Accounted taken) (gone : s.Relinquishes slot id command) :
    id ∈ (s.exec command).2.world.freed := by
  rcases gone with ⟨rfl, hreply⟩ | ⟨index, region, rfl, hregion, hplace, hreply⟩
  · cases here : s.pool? slot with
    | none =>
      rw [exec_absent here rfl] at hreply
      cases hreply
    | some pool =>
      obtain ⟨site, hsite⟩ := holds.held pool here
      obtain ⟨buffer, hfind, -⟩ := Option.map_eq_some_iff.mp hsite
      obtain ⟨hmem, rfl⟩ := LargeTable.mem_of_find? hfind
      -- a reset that is done has given back every large buffer
      revert hreply
      refine perform_ends (Q := fun result => result.1 = .done →
        buffer.id ∈ result.2.world.freed) here ?_
      exact (Pool.reset_endures (vouched.fit slot pool here)).mono
        (fun _ t ht _ => ht.2.2.2 buffer hmem) fun _ _ _ => nofun
  · obtain ⟨other, hother, hfreed⟩ := accounted.freed_of_free hregion hreply
    obtain rfl := Place.large.inj (hplace.symm.trans hother)
    exact hfreed

/-- **What was given back stays so.** -/
theorem freed_run (history : List Command) (vouched : s.Vouched) (hfreed : id ∈ s.world.freed) :
    id ∈ (s.run history).2.world.freed := by
  induction history generalizing s with
  | nil => exact hfreed
  | cons command history ih =>
    have hstep : s.Step command (s.exec command).1 (s.exec command).2 := exec_step vouched
    exact ih (vouched.exec command) (hstep.freed hfreed)

theorem Holds.freed_of_relinquished (holds : s.Holds slot id) (vouched : s.Vouched)
    (accounted : s.Accounted taken) (admitted : s.AdmitsAll history)
    (gone : s.Relinquished slot id history) : id ∈ (s.run history).2.world.freed := by
  induction history generalizing s taken with
  | nil => exact gone.elim
  | cons command history ih =>
    obtain ⟨hcommand, hhistory⟩ := admitted
    have hvouched := vouched.exec command
    change id ∈ ((s.exec command).2.run history).2.world.freed
    -- the first command that relinquishes the buffer frees it, and freed is freed
    by_cases now : s.Relinquishes slot id command
    · exact freed_run history hvouched (holds.freed_of_relinquishes vouched accounted now)
    · exact ih (holds.exec vouched accounted now) hvouched (accounted.exec hcommand).1 hhistory
        (gone.resolve_left now)

/-! ### In every history -/

/-- **What a pool possesses**, told from a history: the regions that it handed out itself and whose
large buffers were not relinquished since. -/
theorem possesses_iff {issuer : Nat} {first : Pool} (vouched : s.Vouched)
    (accounted : s.Accounted taken) (admitted : s.AdmitsAll history)
    (retired : (s.run history).2.Retired) (there : s.pool? issuer = some first)
    (housed : first.Houses region) (here : (s.run history).2.pool? slot = some pool) :
    (∃ id, pool.Possesses region id) ↔
      slot = issuer ∧ ∃ id, region.place = .large id ∧ ¬ s.Relinquished issuer id history := by
  have hid : pool.id = ⟨slot + 1⟩ := vouched.run.numbered slot pool here
  have howner : region.pool = ⟨issuer + 1⟩ :=
    housed.owner.trans (vouched.numbered issuer first there)
  have holds : ∀ id, region.place = .large id → s.Holds issuer id := by
    intro id hplace
    refine ⟨lt_of_pool? there, fun other hother => ?_⟩
    obtain rfl := Option.some.inj (there.symm.trans hother)
    obtain ⟨site, hsite, -⟩ := housed.site
    exact ⟨site, hplace ▸ hsite⟩
  constructor
  · rintro ⟨id, possesses⟩
    have hslot : slot = issuer :=
      Nat.succ.inj (PoolId.mk.inj (hid.symm.trans (possesses.owner.symm.trans howner)))
    refine ⟨hslot, id, possesses.place, fun gone => ?_⟩
    -- what was given back is in no pool, whatever its slot holds by now
    have hfreed := (holds id possesses.place).freed_of_relinquished vouched accounted admitted gone
    obtain ⟨buffer, hmem, hbuffer⟩ := possesses.held
    exact retired.absent here hfreed buffer hmem hbuffer
  · rintro ⟨rfl, id, hplace, kept⟩
    obtain ⟨site, hsite⟩ := ((holds id hplace).run vouched accounted admitted kept).held pool here
    obtain ⟨buffer, hfind, -⟩ := Option.map_eq_some_iff.mp hsite
    obtain ⟨hmem, hbuffer⟩ := LargeTable.mem_of_find? hfind
    exact ⟨id, howner.trans hid.symm, hplace, buffer, hmem, hbuffer⟩

/-- **Regions are freed exactly while they are live**, from the start of a history to its end.
Whatever region the caller came to hold, a pool frees it if it issued it, in a large buffer that was
not relinquished since; and what was freed once is found by no pool again. -/
structure Frees (start : Session) (history : List Command) : Prop where
  live : ∀ earlier command later, history = earlier ++ command :: later →
    ∀ region ∈ ((start.run earlier).2.exec command).2.handles,
      region ∉ (start.run earlier).2.handles → ∃ issuer, command.pool? = some issuer ∧
        ∀ slot pool, (start.run history).2.pool? slot = some pool →
          PoolState.Frees ⟨pool, (start.run history).2.world⟩ region
            (slot = issuer ∧ ∃ id, region.place = .large id ∧
              ¬ ((start.run earlier).2.exec command).2.Relinquished issuer id later)
  once : ∀ earlier freeing index region later, history = earlier ++ .free freeing index :: later →
    (start.run earlier).2.region? index = some region →
      ((start.run earlier).2.exec (.free freeing index)).1 = .status .freed →
        ∀ slot pool (copy : Region), (start.run history).2.pool? slot = some pool →
          copy.place = region.place →
            Pool.free copy ⟨pool, (start.run history).2.world⟩ =
              .ok .notFound ⟨pool, (start.run history).2.world⟩

/-- **Every history frees regions exactly while they are live.** -/
theorem run_frees (heap : Heap) (history : List Command)
    (admitted : (Session.ofHeap heap).AdmitsAll history) :
    (Session.ofHeap heap).Frees history := by
  have vouched := Vouched.ofHeap heap
  have accounted := Accounted.ofHeap heap
  have retired : ((Session.ofHeap heap).run history).2.Retired :=
    accounted.retired_run admitted nofun
  have frees : ∀ slot pool, ((Session.ofHeap heap).run history).2.pool? slot = some pool → ∀ region,
      PoolState.Frees ⟨pool, ((Session.ofHeap heap).run history).2.world⟩ region
        (∃ id, pool.Possesses region id) :=
    fun slot pool here => (accounted.run admitted).frees here
  refine ⟨fun earlier command later hsplit region held fresh => ?_,
    fun earlier freeing index region later hsplit hregion hreply slot pool copy here hcopy =>
      (frees slot pool here copy).notFound ?_⟩
  · -- what is new in the hands of the caller is housed by the pool that the command names
    obtain ⟨issuer, first, named, there, housed⟩ := houses_of_new vouched.run held fresh
    refine ⟨issuer, named, fun slot pool here => ?_⟩
    have hfrees := frees slot pool here region
    subst hsplit
    obtain ⟨hearlier, hcommand, hlater⟩ := admitsAll_append.mp admitted
    rw [run_append] at here retired hfrees ⊢
    have hvouched : ((Session.ofHeap heap).run earlier).2.Vouched := vouched.run
    have haccounted := ((accounted.run hearlier).exec hcommand).1
    have hiff :=
      possesses_iff (hvouched.exec command) haccounted hlater retired there housed here
    rwa [hiff] at hfrees
  · -- the buffer of a region that was freed is gone for good, from this pool and from all others
    rintro ⟨id, possesses⟩
    subst hsplit
    obtain ⟨hearlier, -, -⟩ := admitsAll_append.mp admitted
    obtain ⟨freed, hplace, hfreed⟩ := (accounted.run hearlier).freed_of_free hregion hreply
    obtain rfl := Place.large.inj ((hcopy.trans hplace).symm.trans possesses.place)
    rw [run_append] at here retired
    have hvouched : ((Session.ofHeap heap).run earlier).2.Vouched := vouched.run
    have hgone := freed_run later (hvouched.exec _) hfreed
    obtain ⟨buffer, hmem, hbuffer⟩ := possesses.held
    exact retired.absent here hgone buffer hmem hbuffer

/-- A region that is freed by a copy of it, after a pool that did not issue it was asked; a slot
that is filled again; a region whose buffer a reset gave back; and one that is still live. -/
def recyclingHistory : List Command :=
  [.createPool { size := 112 } none, .createPool { size := 256 } none, .alloc 0 500, .alloc 0 600,
    .alloc 0 8, .keepCopy 0, .free 1 0, .free 0 3, .alloc 0 700, .free 0 0, .free 0 2, .reset 0,
    .alloc 0 500, .free 0 1]

theorem run_frees_recyclingHistory :
    (Session.ofHeap roomyHeap).AdmitsAll recyclingHistory ∧
      (Session.ofHeap roomyHeap).Frees recyclingHistory := by
  have admitted : (Session.ofHeap roomyHeap).AdmitsAll recyclingHistory := by decide +kernel
  exact ⟨admitted, run_frees roomyHeap recyclingHistory admitted⟩

end Session

end RegionPool
