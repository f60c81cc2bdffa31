import RegionPool.Proofs.Cleanups
import RegionPool.Proofs.Lengths
import RegionPool.Proofs.Refusals
import RegionPool.Proofs.Search

/-!
# No access leaves the memory it is meant for

A caller may keep a region for as long as it likes, copy it, lengthen it and use the shorter one,
use it after it was given back or after a reset, and show it to any pool. It can lead a pool astray
with none of that: every block has its cursor inside, every region lies in its block, and whatever
is done with a region ends well or with a refusal.

* `Session.Issued` — a region that some pool handed out at some time, whoever holds it now;
  `Issued.run` along a history, and `Issued.guards`: it is safe to show it to any pool;
* `Session.Shaped` — the containers of a caller have their shape;
* `Session.Faults`, `Session.exec_fault_iff` — the two ways in which a caller can break a rule;
* `Session.run_confined` — after every history, everything stays inside.
-/

namespace RegionPool

open PoolM

/-- **Commands that have no rule**: no length of the caller's is copied, and no buffer goes back to
a raw allocator. -/
def Command.RuleFree : Command → Prop
  | .copy .. | .freeBuffer .. | .free .. | .reset _ | .destroy _ => False
  | _ => True

/-- **A reply that tells of no fault.** -/
def Reply.Faultless : Reply → Prop
  | .failed (.fault _) => False
  | _ => True

theorem Reply.Faultless.ne {reply : Reply} (h : reply.Faultless) (fault : Fault) :
    reply ≠ .failed (.fault fault) := by
  rintro rfl
  exact h

namespace Session

variable {s after : Session} {slot count : Nat} {region : Region} {pool : Pool} {command : Command}
  {taken : List Holding} {history : List Command}

/-! ### Regions that were handed out -/

/-- **A region was issued** by the pool in one of the slots, at some time. -/
def Issued (s : Session) (region : Region) : Prop :=
  ∃ slot home count, s.Tracks slot region home count

namespace Issued

/-- A region stays issued. -/
theorem run (issued : s.Issued region) (vouched : s.Vouched) (accounted : s.Accounted taken)
    (admitted : s.AdmitsAll history) : (s.run history).2.Issued region := by
  obtain ⟨slot, home, count, tracks⟩ := issued
  exact ⟨slot, home, _, tracks.run vouched accounted admitted⟩

/-- What a caller comes to hold is issued. -/
theorem exec (issued : ∀ region ∈ s.handles, s.Issued region) (vouched : s.Vouched)
    (accounted : s.Accounted taken) (admitted : s.Admits command) :
    ∀ region ∈ (s.exec command).2.handles, (s.exec command).2.Issued region := by
  intro region held
  by_cases hold : region ∈ s.handles
  · have hadmitted : s.AdmitsAll [command] := ⟨admitted, trivial⟩
    exact (issued region hold).run vouched accounted hadmitted
  · -- a new region is housed where it was handed out
    obtain ⟨slot, pool, -, here, housed⟩ := houses_of_new vouched held hold
    obtain ⟨home, hsite, -⟩ := housed.site
    exact ⟨slot, home, 0, .of_houses (vouched.step (exec_step vouched)) here housed hsite⟩

/-- **Everything that a caller ever held** is issued. -/
theorem of_history (issued : ∀ region ∈ s.handles, s.Issued region) (vouched : s.Vouched)
    (accounted : s.Accounted taken) (admitted : s.AdmitsAll history) :
    ∀ earlier later, history = earlier ++ later → ∀ region ∈ (s.run earlier).2.handles,
      (s.run history).2.Issued region := by
  induction history generalizing s taken with
  | nil =>
    intro earlier later hsplit region held
    obtain ⟨rfl, rfl⟩ := List.nil_eq_append_iff.mp hsplit
    exact issued region held
  | cons command history ih =>
    intro earlier later hsplit region held
    obtain ⟨hcommand, hhistory⟩ := admitted
    cases earlier with
    | nil => exact (issued region held).run vouched accounted ⟨hcommand, hhistory⟩
    | cons first earlier =>
      -- the first command is over, and the rest of the history starts in order
      obtain ⟨rfl, rfl⟩ := List.cons.inj hsplit
      exact ih (exec issued vouched accounted hcommand) (vouched.step (exec_step vouched))
        (accounted.exec hcommand).1 hhistory earlier later rfl region held

/-- **A region that was issued is safe to show to any pool**: a pool that resolves it houses it. -/
theorem guards (issued : s.Issued region) (vouched : s.Vouched) (retired : s.Retired)
    (here : s.pool? slot = some pool) : pool.Guards region := by
  intro knows
  obtain ⟨issuer, home, count, tracks⟩ := issued
  obtain ⟨⟨store, offset⟩, hresolve⟩ := id knows
  obtain ⟨howner, hgeneration, -, -⟩ := Pool.resolve_eq_ok_iff.mp hresolve
  obtain rfl : issuer = slot := vouched.slot_eq here (howner.symm.trans tracks.owner)
  rcases tracks.site pool here with hsite | ⟨id, hplace, hfreed⟩
  · exact ⟨howner, hgeneration, home, hsite, tracks.fits⟩
  · -- a large buffer that was given back is not found any more
    obtain ⟨buffer, hmem, hid⟩ := Pool.mem_buffers_of_knows knows hplace
    exact absurd hid (retired.absent here hfreed buffer hmem)

/-- **A region lies in its block**, whatever its generation. -/
theorem inside {index offset : Nat} (issued : s.Issued region) (vouched : s.Vouched)
    (here : s.pool? slot = some pool) (howner : region.pool = pool.id)
    (hplace : region.place = .block index offset) : ∃ block,
      pool.chain.blocks[index]? = some block ∧ block.start ≤ offset ∧
        offset + region.length ≤ block.limit := by
  -- the pool that issued the region is the one it names, and that is this one
  obtain ⟨issuer, home, count, tracks⟩ := issued
  obtain rfl : issuer = slot := vouched.slot_eq here (howner.symm.trans tracks.owner)
  have hfits := tracks.fits
  rcases tracks.site pool here with hsite | ⟨id, hlarge, -⟩
  · rw [hplace] at hsite
    obtain ⟨block, hblock, rfl⟩ := Option.map_eq_some_iff.mp hsite
    rw [Region.FitsIn, hplace] at hfits
    exact ⟨block, hblock, hfits.1, hfits.2⟩
  · rw [hplace] at hlarge
    cases hlarge

end Issued

/-! ### The shape of containers -/

/-- **The containers of a caller have their shape.** -/
structure Shaped (s : Session) : Prop where
  arrays : ∀ array, some array ∈ s.arrays → array.Shaped
  lists : ∀ list ∈ s.lists, list.Shaped

/-- **A command breaks no rule**: it does not end with a fault, and containers keep their shape. -/
def Obeys (result : Reply × Session) : Prop :=
  result.1.Faultless ∧ result.2.Shaped

section Obeys

variable {α : Type} {reply : Reply}

/-- What a command names may not be there. -/
theorem Shaped.withFound {found : Option α} {next : α → Reply × Session} (shaped : s.Shaped)
    (h : ∀ a, found = some a → Obeys (next a)) : Obeys (s.withFound found next) :=
  withFound_ends (Q := Obeys) ⟨trivial, shaped⟩ h

/-- **An action that fails with refusals only** breaks no rule, if what it comes back with is kept
in shape. -/
theorem Shaped.perform {action : PoolM α} {next : α → Session → Reply × Session}
    {P : α → PoolState → Prop} (shaped : s.Shaped)
    (hends : ∀ pool, s.pool? slot = some pool → Ends action ⟨pool, s.world⟩ P
      fun failure _ => failure.IsRefusal)
    (hnext : ∀ a t u, P a t → u.Shaped → Obeys (next a u)) :
    Obeys (s.perform slot action next) := by
  have hsettle : ∀ t, (s.settle slot t).Shaped := fun t => ⟨shaped.arrays, shaped.lists⟩
  refine shaped.withFound fun pool here => ?_
  have hends' := hends pool here
  split
  · next a t run => exact hnext a t _ (hends'.ok_of run) (hsettle t)
  -- a refusal is no fault, and it leaves the containers alone
  · next failure t run =>
    obtain ⟨error, rfl⟩ := hends'.fail_of run
    exact ⟨trivial, hsettle t⟩

/-- An action after which no container is kept. -/
theorem Shaped.performPlain {action : PoolM α} {next : α → Session → Reply × Session}
    (shaped : s.Shaped)
    (hends : ∀ pool, s.pool? slot = some pool → Ends action ⟨pool, s.world⟩ (fun _ _ => True)
      fun failure _ => failure.IsRefusal)
    (hnext : ∀ a (u : Session), (next a u).1.Faultless ∧
      (next a u).2.arrays = u.arrays ∧ (next a u).2.lists = u.lists) :
    Obeys (s.perform slot action next) := by
  refine shaped.perform hends fun a t u _ hu => ⟨(hnext a u).1, ?_, ?_⟩
  · rw [(hnext a u).2.1]
    exact hu.arrays
  · rw [(hnext a u).2.2]
    exact hu.lists

theorem Shaped.keepArray {array : GrowArray} (shaped : s.Shaped) (h : array.Shaped) :
    Obeys (s.keepArray array) := by
  refine ⟨trivial, fun other hmem => ?_, shaped.lists⟩
  rcases List.mem_append.mp hmem with hold | hnew
  · exact shaped.arrays other hold
  · exact Option.some.inj (List.mem_singleton.mp hnew) ▸ h

theorem Shaped.keepList {list : PartList} (shaped : s.Shaped) (h : list.Shaped) :
    Obeys (s.keepList list) := by
  refine ⟨trivial, shaped.arrays, fun other hmem => ?_⟩
  rcases List.mem_append.mp hmem with hold | hnew
  · exact shaped.lists other hold
  · exact List.mem_singleton.mp hnew ▸ h

theorem Shaped.setArray {index : Nat} {entry : Option GrowArray} (shaped : s.Shaped)
    (h : ∀ array ∈ entry, array.Shaped) : (s.setArray index entry).Shaped := by
  refine ⟨fun other hmem => ?_, shaped.lists⟩
  rcases List.mem_or_eq_of_mem_set hmem with hold | hnew
  · exact shaped.arrays other hold
  · exact h other hnew.symm

theorem Shaped.setList {index : Nat} {list : PartList} (shaped : s.Shaped) (h : list.Shaped) :
    (s.setList index list).Shaped := by
  refine ⟨shaped.arrays, fun other hmem => ?_⟩
  rcases List.mem_or_eq_of_mem_set hmem with hold | rfl
  · exact shaped.lists other hold
  · exact h

/-- Nothing is done to containers, and there is no fault. -/
theorem Shaped.same {result : Reply × Session} (shaped : s.Shaped)
    (hreply : result.1.Faultless) (harrays : result.2.arrays = s.arrays)
    (hlists : result.2.lists = s.lists) : Obeys result :=
  ⟨hreply, fun array hmem => shaped.arrays array (harrays ▸ hmem),
    fun list hmem => shaped.lists list (hlists ▸ hmem)⟩

end Obeys

/-! ### Commands -/

/-- **A caller can rely on the pools**: they are fit, and guard whatever it holds. -/
structure Guarded (s : Session) : Prop where
  fit : ∀ slot pool, s.pool? slot = some pool → PoolState.Fit ⟨pool, s.world⟩
  guards : ∀ slot pool, s.pool? slot = some pool → ∀ region ∈ s.handles, pool.Guards region

section Commands

variable {index : Nat} {content : Content}

/-- An allocation is refused, if it fails. -/
private theorem allocate_obeys {action : PoolM Region} (guarded : s.Guarded) (shaped : s.Shaped)
    (h : ∀ start : PoolState, start.Fit → Ends action start (fun _ _ => True)
      fun failure _ => failure.IsRefusal) : Obeys (s.allocate slot action) :=
  shaped.performPlain (fun pool here => h _ (guarded.fit slot pool here))
    fun _ _ => ⟨trivial, rfl, rfl⟩

/-- A request that is declined is refused. -/
private theorem isRefusal_of_fallsShort {s t : PoolState} {failure : Failure}
    {calls : List RawCall} (h : s.FallsShort failure calls t) : failure.IsRefusal := by
  obtain ⟨error, rfl, -⟩ := h.reason
  exact ⟨_, rfl⟩

/-- **Allocation of any size.** -/
theorem allocWith_obeys {size : Nat} {packing : Packing} (guarded : s.Guarded)
    (shaped : s.Shaped) : Obeys (s.allocate slot (Pool.allocWith packing size)) := by
  refine allocate_obeys guarded shaped fun start fit => ?_
  refine (Pool.allocWith_ends fit).mono (fun _ _ _ => trivial) fun failure t ht => ?_
  obtain ⟨calls, hdeclined, -⟩ := ht
  exact isRefusal_of_fallsShort hdeclined.toFallsShort

theorem allocZeroed_obeys {size : Nat} (guarded : s.Guarded) (shaped : s.Shaped) :
    Obeys (s.allocate slot (Pool.allocZeroed size)) := by
  refine allocate_obeys guarded shaped fun start fit => ?_
  refine (Pool.allocZeroed_ends fit).mono (fun _ _ _ => trivial) fun failure t ht => ?_
  obtain ⟨calls, hdeclined, -⟩ := ht
  exact isRefusal_of_fallsShort hdeclined.toFallsShort

theorem allocAlignedTo_obeys {size align : Nat} (guarded : s.Guarded) (shaped : s.Shaped) :
    Obeys (s.allocate slot (Pool.allocAlignedTo size align)) := by
  refine allocate_obeys guarded shaped fun start fit => ?_
  refine (Pool.allocAlignedTo_ends fit).mono (fun _ _ _ => trivial) fun failure t ht => ?_
  rcases ht with ⟨-, -, rfl⟩ | ⟨calls, hdeclined⟩
  · exact ⟨_, rfl⟩
  · exact isRefusal_of_fallsShort hdeclined.toFallsShort

/-- **Lengthening a region**, by whatever number of bytes. -/
theorem extend_obeys {additional : Nat} (guarded : s.Guarded) (shaped : s.Shaped) :
    Obeys (s.extend slot index additional) := by
  refine shaped.withFound fun region hregion => shaped.performPlain (fun pool here => ?_)
    fun extended u => ?_
  · exact (Pool.extend_abides (guarded.fit slot pool here)
      (guarded.guards slot pool here region (mem_handles_of_region? hregion))).refusal
  · cases extended with
    | none => exact ⟨trivial, rfl, rfl⟩
    | some longer => exact ⟨trivial, rfl, rfl⟩

/-- **Registering an action** of the caller's own. -/
private theorem onDestroy_refusal {start : PoolState} {tag : String} (fit : start.Fit) :
    Ends (Pool.onDestroy tag) start (fun _ _ => True) fun failure _ => failure.IsRefusal := by
  simp only [Pool.onDestroy, ends_bind, ends_pure]
  refine (Pool.addCleanup_ends fit).mono (fun ticket t _ => ?_) fun failure t ht => ?_
  · exact Pool.setCleanup_ends.mono (fun _ _ _ => trivial)
      fun failure u hu => Pool.cleanupRecord_lawful _ _ failure hu.1
  · obtain ⟨-, calls, hshort⟩ := ht
    exact isRefusal_of_fallsShort hshort

/-- **Giving a record an action.** -/
theorem setCleanup_obeys {ticket : CleanupTicket} {action : CleanupAction} {reply : Reply}
    (shaped : s.Shaped) (hreply : reply.Faultless) :
    Obeys (s.perform slot (Pool.setCleanup ticket action) fun _ u => (reply, u)) := by
  refine shaped.performPlain (fun pool here => ?_) fun _ _ => ⟨hreply, rfl, rfl⟩
  exact Pool.setCleanup_ends.mono (fun _ _ _ => trivial)
    fun failure t ht => Pool.cleanupRecord_lawful _ _ failure ht.1

theorem setFile_obeys {name : String} {kind : EntryKind} {delete : Bool} (shaped : s.Shaped) :
    Obeys (s.setFile slot index name kind delete) := by
  refine shaped.withFound fun ticket _ => ?_
  split
  · refine shaped.withFound fun _ _ => ?_
    have shaped' : ({ s with world := { s.world with
        files := (s.world.files.create name kind).2 } } : Session).Shaped :=
      ⟨shaped.arrays, shaped.lists⟩
    exact setCleanup_obeys shaped' trivial
  · exact ⟨trivial, shaped⟩

theorem disableCleanup_obeys (shaped : s.Shaped) : Obeys (s.disableCleanup slot index) := by
  refine shaped.withFound fun ticket _ => shaped.performPlain (fun pool here => ?_)
    fun _ _ => ⟨trivial, rfl, rfl⟩
  simp only [ends_bind, ends_modifyWorld, ends_pure]
  exact Pool.disableCleanup_ends.mono (fun _ _ _ => trivial)
    fun failure t ht => Pool.cleanupRecord_lawful _ _ failure ht.1

/-- **Writing to the bytes of a record.** -/
theorem writeCleanup_obeys (guarded : s.Guarded) (shaped : s.Shaped) :
    Obeys (s.writeCleanup slot index content) := by
  refine shaped.withFound fun ticket hticket => shaped.performPlain (fun pool here => ?_)
    fun _ _ => ⟨trivial, rfl, rfl⟩
  have fit := guarded.fit slot pool here
  have guards : ∀ region ∈ ticket.data, pool.Guards region := fun region hdata =>
    guarded.guards slot pool here region (mem_handles_of_ticket? hticket hdata)
  refine Abides.refusal (show Abides _ _ fun _ _ => True from ?_)
  refine (Abides.ofPool fit (Pool.cleanupBytes_lawful guards)).bind fun before t _ ht => ?_
  obtain ⟨rfl, -⟩ := ht
  split
  · next region hdata =>
    exact (Pool.writeContent_abides fit (guards region hdata)).bind
      fun _ _ hspares _ => .pure hspares.fit trivial
  -- without data there is nothing to write to
  · have hnone : Abides (pure ()) ⟨pool, s.world⟩ fun _ _ => True := .pure fit trivial
    exact hnone.bind fun _ _ hspares _ => .pure hspares.fit trivial

/-- **Appending to an array** and writing what was appended. -/
theorem pushArray_obeys {push : GrowArray → PoolM (Slot × GrowArray)} (guarded : s.Guarded)
    (shaped : s.Shaped) (habides : ∀ array (start : PoolState), start.Fit → array.Shaped →
      start.pool.Guards array.elements → Abides (push array) start fun pushed t =>
        pushed.2.Shaped ∧ t.pool.Houses pushed.1.region ∧
          pushed.1.start + pushed.1.length ≤ pushed.1.region.length) :
    Obeys (s.pushArray slot index push content) := by
  refine shaped.withFound fun array harray => ?_
  have hmem : some array ∈ s.arrays := List.mem_of_getElem? (Option.join_eq_some_iff.mp harray)
  refine shaped.perform (P := fun pushed _ => pushed.2.Shaped) (fun pool here => ?_)
    fun pushed t u hpushed hu => ⟨trivial, hu.setArray ?_⟩
  · have hguards := guarded.guards slot pool here array.elements
      (handles_of_array? harray _ List.mem_cons_self)
    have haction : Abides (push array >>= fun pushed => pushed.1.fill content >>= fun before =>
        pure (before, pushed.2)) ⟨pool, s.world⟩ fun pushed _ => pushed.2.Shaped := by
      -- what was made room for is housed, so writing to it stays inside
      refine (habides array _ (guarded.fit slot pool here) (shaped.arrays array hmem)
        hguards).bind fun pushed t hspares ht => ?_
      exact (Slot.fill_abides hspares.fit ht.2.1 ht.2.2).bind
        fun _ _ hspares' _ => .pure hspares'.fit ht.1
    exact haction.ends
  · rintro _ ⟨⟩
    exact hpushed

/-- **Appending to a list** and writing what was appended. -/
theorem pushList_obeys (guarded : s.Guarded) (shaped : s.Shaped) :
    Obeys (s.pushList slot index content) := by
  refine shaped.withFound fun list hlist => ?_
  refine shaped.perform (P := fun pushed _ => pushed.2.Shaped) (fun pool here => ?_)
    fun pushed t u hpushed hu => ⟨trivial, hu.setList hpushed⟩
  have hlast : list.last.elements ∈ list.handles :=
    List.mem_append_right _ (List.mem_flatMap.mpr
      ⟨list.last, List.mem_append_right _ (List.mem_singleton_self _), List.mem_cons_self⟩)
  have hguards := guarded.guards slot pool here _ (handles_of_list? hlist _ hlast)
  have haction : Abides (list.push >>= fun pushed => pushed.1.fill content >>= fun before =>
      pure (before, pushed.2)) ⟨pool, s.world⟩ fun pushed _ => pushed.2.Shaped := by
    -- the part that was appended to is housed, so writing to it stays inside
    refine (PartList.push_abides (guarded.fit slot pool here)
      (shaped.lists list (List.mem_of_getElem? hlist)) hguards).bind fun pushed t hspares ht => ?_
    exact (Slot.fill_abides hspares.fit ht.2.1 ht.2.2).bind
      fun _ _ hspares' _ => .pure hspares'.fit ht.1
  exact haction.ends

/-- **Destroying an array**, in whatever pool. -/
theorem destroyArray_obeys (guarded : s.Guarded) (shaped : s.Shaped) :
    Obeys (s.destroyArray slot index) := by
  refine shaped.withFound fun _ _ => shaped.withFound fun array harray => ?_
  have shaped' : (s.setArray index none).Shaped := shaped.setArray nofun
  refine shaped'.performPlain (fun pool here => ?_) fun _ _ => ⟨trivial, rfl, rfl⟩
  exact (GrowArray.destroy_abides (guarded.fit slot pool here) fun region hof =>
    (guarded.guards slot pool here region (handles_of_array? harray region hof)).trusts).refusal

/-- **Every command** but those that have a rule breaks none. -/
theorem exec_obeys (guarded : s.Guarded) (shaped : s.Shaped) (free : command.RuleFree) :
    Obeys (s.exec command) := by
  have haction : ∀ {slot pool region}, s.pool? slot = some pool → region ∈ s.handles →
      PoolState.Fit ⟨pool, s.world⟩ ∧ pool.Guards region := fun here held =>
    ⟨guarded.fit _ _ here, guarded.guards _ _ here _ held⟩
  cases command with
  -- a command that has a rule may break it, and is not considered here
  | copy _ _ _ _ | freeBuffer _ _ | free _ _ | reset _ | destroy _ => exact free.elim
  -- the caller and the raw allocators: no pool acts
  | addAllocator allocator => exact shaped.same trivial rfl rfl
  | refill allocator budget => exact shaped.withFound fun _ _ => shaped.same trivial rfl rfl
  | newBuffer size align =>
    rw [exec]
    rcases s.world.newBuffer size align with ⟨_ | _, world⟩ <;> exact shaped.same trivial rfl rfl
  | requestBuffer allocator request =>
    rw [exec]
    rcases s.world.request allocator request with ⟨_ | _, world⟩ <;>
      exact shaped.same trivial rfl rfl
  | writeBuffer buffer content => exact shaped.withFound fun _ _ => shaped.same trivial rfl rfl
  | createPool config allocator =>
    rcases s.createPool_ends with ⟨w, w', pool, buffer, -, -, -, -, -, hrun⟩ |
      ⟨w, error, -, hrun⟩
    · rw [exec, hrun]
      exact shaped.same trivial rfl rfl
    · rw [exec, hrun]
      exact shaped.same trivial rfl rfl
  -- regions: what the caller holds is guarded by the pool that it names
  | serve slot sizes =>
    exact shaped.performPlain (fun pool here =>
      (Pool.serve_abides sizes (guarded.fit slot pool here)).refusal) fun _ _ => ⟨trivial, rfl, rfl⟩
  | alloc slot size => exact allocWith_obeys guarded shaped
  | allocUnaligned slot size => exact allocWith_obeys guarded shaped
  | allocZeroed slot size => exact allocZeroed_obeys guarded shaped
  | allocAlignedTo slot size align => exact allocAlignedTo_obeys guarded shaped
  | keepCopy index => exact shaped.withFound fun _ _ => shaped.same trivial rfl rfl
  | write slot index content =>
    refine shaped.withFound fun region hregion => shaped.performPlain (fun pool here => ?_)
      fun _ _ => ⟨trivial, rfl, rfl⟩
    obtain ⟨fit, guards⟩ := haction here (mem_handles_of_region? hregion)
    exact (Pool.writeContent_abides fit guards).refusal
  | extend slot index additional => exact extend_obeys guarded shaped
  | reclaim slot index =>
    refine shaped.withFound fun region hregion => shaped.performPlain (fun pool here => ?_)
      fun _ _ => ⟨trivial, rfl, rfl⟩
    obtain ⟨fit, guards⟩ := haction here (mem_handles_of_region? hregion)
    exact (Pool.reclaim_abides fit guards.trusts).refusal
  -- records: a ticket that does not fit is refused, as is one that there is no memory for
  | addCleanup slot dataSize =>
    refine shaped.performPlain (fun pool here => ?_) fun _ _ => ⟨trivial, rfl, rfl⟩
    refine (Pool.addCleanup_ends (guarded.fit slot pool here)).mono (fun _ _ _ => trivial)
      fun failure t ht => ?_
    obtain ⟨-, calls, hshort⟩ := ht
    exact isRefusal_of_fallsShort hshort
  | onDestroy slot tag =>
    refine shaped.performPlain (fun pool here => ?_) fun _ _ => ⟨trivial, rfl, rfl⟩
    exact onDestroy_refusal (guarded.fit slot pool here)
  | setCustom slot index tag => exact shaped.withFound fun _ _ => setCleanup_obeys shaped trivial
  | setWithData slot index tag content =>
    exact shaped.withFound fun _ _ => setCleanup_obeys shaped trivial
  | setFile slot index name kind delete => exact setFile_obeys shaped
  | disableCleanup slot index => exact disableCleanup_obeys shaped
  | writeCleanup slot index content => exact writeCleanup_obeys guarded shaped
  | holdCleanupRegion index =>
    refine shaped.withFound fun ticket _ => ?_
    split <;> exact shaped.same trivial rfl rfl
  | runFileCleanup slot descriptor =>
    refine shaped.performPlain (fun pool here => ?_) fun _ _ => ⟨trivial, rfl, rfl⟩
    exact Pool.runFileCleanup_ends.mono (fun _ _ _ => trivial) fun _ _ h => h.elim
  | unlink path => exact shaped.same trivial rfl rfl
  -- containers: they keep their shape, which is what appending relies on
  | createArray slot capacity elementSize =>
    exact shaped.perform (fun pool here =>
      (GrowArray.create_abides (guarded.fit slot pool here)).ends)
      fun _ _ _ harray hu => hu.keepArray harray
  | initArray slot capacity elementSize =>
    exact shaped.perform (fun pool here =>
      (GrowArray.init_abides (guarded.fit slot pool here)).ends)
      fun _ _ _ harray hu => hu.keepArray harray
  | pushArray slot index content =>
    exact pushArray_obeys guarded shaped fun _ _ => GrowArray.push_abides
  | pushManyArray slot index n content =>
    exact pushArray_obeys guarded shaped fun _ _ => GrowArray.pushMany_abides
  | setArray slot index position content =>
    refine shaped.withFound fun array harray => shaped.performPlain (fun pool here => ?_)
      fun _ _ => ⟨trivial, rfl, rfl⟩
    have hmem : some array ∈ s.arrays := List.mem_of_getElem? (Option.join_eq_some_iff.mp harray)
    obtain ⟨fit, guards⟩ := haction here (handles_of_array? harray _ List.mem_cons_self)
    exact (GrowArray.set?_abides fit (shaped.arrays array hmem) guards).refusal
  | cloneArray index =>
    refine shaped.withFound fun array harray => shaped.keepArray ?_
    exact shaped.arrays array (List.mem_of_getElem? (Option.join_eq_some_iff.mp harray))
  | destroyArray slot index => exact destroyArray_obeys guarded shaped
  | createList slot partCapacity elementSize =>
    exact shaped.perform (fun pool here =>
      (PartList.create_abides (guarded.fit slot pool here)).ends)
      fun _ _ _ hlist hu => hu.keepList hlist
  | initList slot partCapacity elementSize =>
    exact shaped.perform (fun pool here =>
      (PartList.init_abides (guarded.fit slot pool here)).ends)
      fun _ _ _ hlist hu => hu.keepList hlist
  | pushList slot index content => exact pushList_obeys guarded shaped
  | cloneList index =>
    exact shaped.withFound fun list hlist =>
      shaped.keepList (shaped.lists list (List.mem_of_getElem? hlist))

/-- **Every command** leaves containers in their shape. -/
theorem exec_shaped (guarded : s.Guarded) (shaped : s.Shaped) : (s.exec command).2.Shaped := by
  have hfree : command.RuleFree → (s.exec command).2.Shaped := fun free =>
    (exec_obeys guarded shaped free).2
  -- what an action does to a pool has nothing to do with containers
  have hperform : ∀ {α : Type} (slot : Nat) (action : PoolM α) (reply : α → Reply),
      (s.perform slot action fun a u => (reply a, u)).2.Shaped := by
    intro α slot action reply
    refine withFound_ends (Q := fun result => result.2.Shaped) shaped fun pool _ => ?_
    split <;> exact ⟨shaped.arrays, shaped.lists⟩
  have hfound : ∀ {α : Type} (found : Option α) (next : α → Reply × Session),
      (∀ a, (next a).2.Shaped) → (s.withFound found next).2.Shaped := fun found next h =>
    withFound_ends (Q := fun result => result.2.Shaped) shaped fun a _ => h a
  cases command with
  | copy slot source target length =>
    exact hfound _ _ fun _ => hfound _ _ fun _ => hperform _ _ _
  | freeBuffer allocator index =>
    refine hfound _ _ fun buffer => ?_
    dsimp only
    split <;> exact ⟨shaped.arrays, shaped.lists⟩
  | free slot index => exact hfound _ _ fun _ => hperform _ _ _
  | reset slot => exact hperform _ _ _
  | destroy slot =>
    have h := hperform slot Pool.destroy fun _ => .done
    exact ⟨h.arrays, h.lists⟩
  | _ => exact hfree trivial

/-! ### Faults -/

/-- **The faults that a caller brings about**: more bytes are to be copied than one of the regions
has, or a raw buffer is given to an allocator whose ledger does not list it. -/
inductive Faults (s : Session) : Command → Fault → Prop
  | copied {slot pool index index' source target length} (here : s.pool? slot = some pool)
      (found : s.region? index = some source) (found' : s.region? index' = some target)
      (long : source.length < length ∨ target.length < length) :
    Faults s (.copy slot index index' length) (.copyTooLong length source.length target.length)
  | unlisted {allocator index buffer ledger} (found : s.buffer? index = some buffer)
      (kept : s.world.ledger? allocator = some ledger) (absent : buffer.id ∉ ledger.ids) :
    Faults s (.freeBuffer allocator index) (.untrackedFree buffer.id)

theorem Faults.not_ruleFree {fault : Fault} (h : s.Faults command fault) : ¬command.RuleFree := by
  cases h <;> exact id

/-- What is not there does not fail. -/
private theorem withFound_none {α : Type} {found : Option α} {next : α → Reply × Session}
    {failure : Failure} (h : (s.withFound found next).1 = .failed failure) :
    ∃ a, found = some a ∧ s.withFound found next = next a := by
  cases found with
  | none => cases h
  | some a => exact ⟨a, rfl, rfl⟩

/-- **Copying ends with a fault** exactly if more bytes are asked for than one of the regions
has. -/
private theorem copy_fault {pool : Pool} {source target : Region} {length : Nat} {fault : Fault}
    (guarded : s.Guarded) (here : s.pool? slot = some pool) (hsource : source ∈ s.handles)
    (htarget : target ∈ s.handles) :
    (s.perform slot (onPool (fun pool => return ((), ← pool.copy source target length)) >>=
        fun _ => ofPool (·.bytes target)) fun bytes u => (.bytes bytes, u)).1 =
      .failed (.fault fault) ↔ (source.length < length ∨ target.length < length) ∧
        fault = .copyTooLong length source.length target.length := by
  have guards := guarded.guards slot pool here
  have hiff : pool.copy source target length = .error (.fault fault) ↔ _ :=
    Pool.copy_fault_iff (guards source hsource) (guards target htarget)
  refine perform_ends (Q := fun result => result.1 = .failed (.fault fault) ↔ _) here ?_
  rw [ends_bind, ends_onPool]
  constructor
  · intro _ after hrun
    obtain ⟨copied, hcopy, hpure⟩ := bind_eq_ok_iff.mp hrun
    obtain ⟨-, rfl⟩ := Prod.mk.inj (pure_eq_ok_iff.mp hpure)
    -- what was copied to is read afterwards, which cannot fail with a fault either
    have hnot : ¬((source.length < length ∨ target.length < length) ∧
        fault = .copyTooLong length source.length target.length) := fun h => by
      rw [← hiff, hcopy] at h
      cases h
    obtain ⟨-, store, bytes, -, -, -, -, rfl⟩ := Pool.copy_eq_ok hcopy
    have hspares := PoolState.Spares.overwrite (guarded.fit slot pool here) store
      target.place.offset bytes
    have housed := hspares.houses (guards target htarget (Pool.knows_of_copy hcopy))
    rw [ends_ofPool]
    constructor
    · intro bytes _
      exact iff_of_false (by rintro ⟨⟩) hnot
    · intro failure hfailure
      obtain ⟨error, rfl⟩ := Pool.bytes_lawful housed.guards failure hfailure
      exact iff_of_false (by rintro ⟨⟩) hnot
  · intro failure hrun
    have hcopy : pool.copy source target length = .error failure := by
      cases hcopied : pool.copy source target length with
      | error other =>
        rw [hcopied] at hrun
        exact congrArg Except.error (Except.error.inj hrun)
      | ok after =>
        rw [hcopied] at hrun
        cases hrun
    rw [hcopy] at hiff
    rw [← hiff]
    exact ⟨fun h => congrArg Except.error (Reply.failed.inj h),
      fun h => congrArg Reply.failed (Except.error.inj h)⟩

/-- A raw allocator does not take a buffer that its ledger does not list. -/
private theorem release_unlisted {w : World} {id : AllocatorId} {buffer : Buffer} {ledger : Ledger}
    (kept : w.ledger? id = some ledger) (absent : buffer.id ∉ ledger.ids) :
    ∃ w', w.release id buffer = (.error (.untrackedFree buffer.id), w') := by
  rcases hrun : w.release id buffer with ⟨fault | done, w'⟩
  · obtain ⟨rfl, -⟩ := World.release_error hrun
    exact ⟨w', rfl⟩
  · obtain ⟨after, hreleased, -⟩ := (World.release_ok hrun).struck ledger kept
    exact absurd (Ledger.release?_isSome_iff.mp (by rw [hreleased]; rfl)) absent

/-- Giving a region back early fails, if it does, with a buffer that is not listed. -/
private theorem free_fault {index : Nat} {fault : Fault}
    (h : (s.exec (.free slot index)).1 = .failed (.fault fault)) :
    ∃ id, fault = .untrackedFree id := by
  obtain ⟨region, -, heq⟩ := withFound_none h
  rw [exec, heq] at h
  obtain ⟨pool, here, -⟩ := withFound_none h
  revert h
  refine perform_ends (Q := fun result => result.1 = .failed (.fault fault) →
    ∃ id, fault = .untrackedFree id) here ?_
  simp only [Pool.free, ends_bind, ends_getPool]
  -- only a buffer that the pool holds goes to the allocator, and nothing else can fail
  split
  · rintro ⟨⟩
  · split
    · split
      · rintro ⟨⟩
      · simp only [ends_bind, ends_setPool, ends_log, ends_pure]
        rw [ends_release]
        refine ⟨fun _ _ h => ?_, fun failed world hrun h => ?_⟩
        · cases h
        · obtain ⟨rfl, -⟩ := World.release_error hrun
          exact ⟨_, (Failure.fault.inj (Reply.failed.inj h)).symm⟩
    · rintro ⟨⟩

/-- So does a reset. -/
private theorem reset_fault {fault : Fault} (guarded : s.Guarded)
    (h : (s.exec (.reset slot)).1 = .failed (.fault fault)) : ∃ id, fault = .untrackedFree id := by
  obtain ⟨pool, here, -⟩ := withFound_none h
  revert h
  refine perform_ends (Q := fun result => result.1 = .failed (.fault fault) →
    ∃ id, fault = .untrackedFree id) here ?_
  refine (Pool.reset_endures (guarded.fit slot pool here)).mono (fun _ _ _ h => ?_)
    fun failure t ht h => ?_
  · cases h
  · obtain ⟨-, -, -, id, rfl⟩ := ht
    exact ⟨id, (Failure.fault.inj (Reply.failed.inj h)).symm⟩

/-- **A command ends with a fault** exactly if its caller breaks a rule. -/
theorem exec_fault_iff {fault : Fault} (guarded : s.Guarded) (shaped : s.Shaped)
    (accounted : s.Accounted taken) (admitted : s.Admits command) :
    (s.exec command).1 = .failed (.fault fault) ↔ s.Faults command fault := by
  have hfree : command.RuleFree →
      ((s.exec command).1 = .failed (.fault fault) ↔ s.Faults command fault) := fun free =>
    iff_of_false ((exec_obeys guarded shaped free).1.ne fault)
      fun faults => faults.not_ruleFree free
  -- what a pool gives back is listed, so no ledger objects to it
  have hlisted : (∀ allocator index, command ≠ .freeBuffer allocator index) →
      (∃ id, fault = .untrackedFree id) → (s.exec command).1 ≠ .failed (.fault fault) := by
    rintro hne ⟨id, rfl⟩
    exact (accounted.exec admitted).2 hne id
  cases command with
  | copy slot index index' length =>
    constructor
    · intro h
      obtain ⟨source, hsource, heq⟩ := withFound_none h
      rw [exec, Session.copy, heq] at h
      obtain ⟨target, htarget, heq'⟩ := withFound_none h
      rw [heq'] at h
      obtain ⟨pool, here, -⟩ := withFound_none h
      obtain ⟨long, rfl⟩ := (copy_fault guarded here (mem_handles_of_region? hsource)
        (mem_handles_of_region? htarget)).mp h
      exact .copied here hsource htarget long
    · rintro ⟨here, hsource, htarget, long⟩
      rw [exec, Session.copy, hsource, htarget]
      exact (copy_fault guarded here (mem_handles_of_region? hsource)
        (mem_handles_of_region? htarget)).mpr ⟨long, rfl⟩
  | freeBuffer allocator index =>
    constructor
    · intro h
      obtain ⟨buffer, hbuffer, heq⟩ := withFound_none h
      rw [exec, Session.freeBuffer, heq] at h
      dsimp only at h
      split at h
      · cases h
      · next failed world hrun =>
        obtain ⟨rfl, -, ledger, kept, absent⟩ := World.release_error hrun
        obtain rfl := Failure.fault.inj (Reply.failed.inj h)
        exact .unlisted hbuffer kept absent
    · rintro (_ | ⟨hbuffer, kept, absent⟩)
      rw [exec, Session.freeBuffer, hbuffer, withFound]
      obtain ⟨w', hrun⟩ := release_unlisted (w := (s.setBuffer index none).world) kept absent
      simp only [hrun]
  | free slot index =>
    refine iff_of_false (fun h => hlisted ?_ (free_fault h) h) ?_
    · rintro _ _ ⟨⟩
    · rintro ⟨⟩
  | reset slot =>
    refine iff_of_false (fun h => hlisted ?_ (reset_fault guarded h) h) ?_
    · rintro _ _ ⟨⟩
    · rintro ⟨⟩
  | destroy slot =>
    refine iff_of_false (fun h => ?_) (by rintro ⟨⟩)
    obtain ⟨-, -, hdone⟩ := accounted.destroy slot
    cases here : s.pool? slot with
    | none => rw [exec_absent here rfl] at h; cases h
    | some pool => rw [(hdone pool here).1] at h; cases h
  | _ => exact hfree trivial

end Commands

/-! ### What keeps a caller inside -/

/-- **A caller is sheltered**: the pools know what they handed out, and what they hold. -/
structure Sheltered (s : Session) (taken : List Holding) : Prop where
  vouched : s.Vouched
  accounted : s.Accounted taken
  retired : s.Retired
  measured : s.Measured
  issued : ∀ region ∈ s.handles, s.Issued region
  shaped : s.Shaped

namespace Sheltered

theorem guarded (sheltered : s.Sheltered taken) : s.Guarded where
  fit := sheltered.vouched.fit
  guards _ _ here region held :=
    (sheltered.issued region held).guards sheltered.vouched sheltered.retired here

/-- **Every command** keeps its caller sheltered. -/
theorem exec (sheltered : s.Sheltered taken) (admitted : s.Admits command) :
    (s.exec command).2.Sheltered (s.takes taken command) where
  vouched := sheltered.vouched.step (exec_step sheltered.vouched)
  accounted := (sheltered.accounted.exec admitted).1
  retired := sheltered.accounted.retired_exec sheltered.retired
  measured := sheltered.measured.exec sheltered.accounted.sized
  issued := Issued.exec sheltered.issued sheltered.vouched sheltered.accounted admitted
  shaped := exec_shaped sheltered.guarded sheltered.shaped

/-- **Every history** keeps its caller sheltered. -/
theorem run (sheltered : s.Sheltered taken) (admitted : s.AdmitsAll history) :
    (s.run history).2.Sheltered (s.takenBy taken history) := by
  induction history generalizing s taken with
  | nil => exact sheltered
  | cons command history ih =>
    obtain ⟨hcommand, hhistory⟩ := admitted
    exact ih (sheltered.exec hcommand) hhistory

/-- A caller who holds nothing yet. -/
theorem ofHeap (heap : Heap) : (Session.ofHeap heap).Sheltered [] where
  vouched := .ofHeap heap
  accounted := .ofHeap heap
  retired := nofun
  measured := .ofHeap heap
  issued := nofun
  shaped := ⟨nofun, nofun⟩

end Sheltered

end Session

/-! ### After every history -/

/-- **A pool confines a region**: whatever is done with the region ends well or with a refusal. If
it has an address, its bytes from there on are those of one buffer of the pool. Lengthening it or
giving it back leaves every cursor in its block, and what it was lengthened to is inside. -/
structure Pool.Confines (pool : Pool) (w : World) (region : Region) : Prop where
  bytes : Lawful (pool.bytes region)
  bytesIn : ∀ start length, start + length ≤ region.length →
    Lawful (pool.bytesIn region start length)
  write : ∀ start (data : Bytes), start + data.length ≤ region.length →
    Lawful (pool.write region start data)
  address : Lawful (pool.address region)
  addressed : ∀ address, pool.address region = .ok address → ∃ buffer ∈ pool.buffers,
    buffer.base ≤ address ∧ address + region.length ≤ buffer.base + buffer.length
  extend : ∀ additional, Abides (onPool (·.extend region additional)) ⟨pool, w⟩ fun extended t =>
    (∀ block ∈ t.pool.chain.blocks, block.Sound) ∧ ∀ longer ∈ extended,
      longer.length = region.length + additional ∧ t.pool.Houses longer
  reclaim : Abides (onPool (·.reclaim region)) ⟨pool, w⟩ fun _ t =>
    ∀ block ∈ t.pool.chain.blocks, block.Sound

/-- The buffer of a store is one of the pool. -/
theorem Pool.mem_buffers_of_storeBuffer? {pool : Pool} {store : Store} {buffer : Buffer}
    (h : pool.storeBuffer? store = some buffer) : buffer ∈ pool.buffers := by
  cases store with
  | block index =>
    obtain ⟨block, hblock, rfl⟩ := Option.map_eq_some_iff.mp h
    exact List.mem_append_right _ (List.mem_map_of_mem (List.mem_of_getElem? hblock))
  | slot index =>
    exact List.mem_append_left _ (LargeTable.mem_buffers_iff.mpr
      (List.mem_of_getElem? (Option.join_eq_some_iff.mp h)))

/-- **What a pool guards it confines.** -/
theorem Pool.Guards.confines {pool : Pool} {w : World} {region : Region}
    (guards : pool.Guards region) (fit : PoolState.Fit ⟨pool, w⟩) : pool.Confines w region where
  bytes := bytes_lawful guards
  bytesIn _ _ := bytesIn_lawful guards
  write _ _ := write_lawful guards
  address := address_lawful guards
  -- an address is the base of the buffer and the offset in it
  addressed address h := by
    obtain ⟨⟨store, offset⟩, hfound, hbase⟩ := bind_eq_ok_iff.mp h
    obtain ⟨-, buffer, hbuffer, hinside⟩ := guards.exists_buffer hfound
    dsimp only at hbase
    rw [hbuffer] at hbase
    obtain rfl := pure_eq_ok_iff.mp hbase
    exact ⟨buffer, mem_buffers_of_storeBuffer? hbuffer, Nat.le_add_right _ _, by omega⟩
  extend _ := (extend_abides fit guards).mono fun _ _ hspares h => ⟨hspares.fit.sound, h.2⟩
  reclaim := (reclaim_abides fit guards.trusts).mono fun _ _ hspares _ => hspares.fit.sound

namespace Session

variable {s : Session} {slot : Nat} {pool : Pool} {history : List Command} {taken : List Holding}

/-- **A region that a caller held** at some time of a history. -/
def HeldIn (s : Session) (history : List Command) (region : Region) : Prop :=
  ∃ earlier later, history = earlier ++ later ∧ region ∈ (s.run earlier).2.handles

/-- **Every pool guards what was held** at any time of a history. -/
theorem HeldIn.guards {heap : Heap} {region : Region}
    (held : (Session.ofHeap heap).HeldIn history region)
    (admitted : (Session.ofHeap heap).AdmitsAll history)
    (here : ((Session.ofHeap heap).run history).2.pool? slot = some pool) :
    pool.Guards region := by
  obtain ⟨earlier, later, hsplit, held⟩ := held
  have opening := Sheltered.ofHeap heap
  have sheltered := opening.run admitted
  have issued := Issued.of_history opening.issued opening.vouched opening.accounted admitted
    earlier later hsplit region held
  exact issued.guards sheltered.vouched sheltered.retired here

/-- **A pool keeps everything inside**, after a history. Searches start at a block, every cursor
lies between the start and the end of its block, and no sum of two lengths leaves the range of a
word. A region that was held at any time lies in its block, whatever became of it, and each pool
confines it; so it does with the bytes of its records, and those that a destruction looks for are
there or were given back. Copying ends with a fault exactly if it is asked for more than there is,
and no other command of a pool ends with one. -/
structure Confined (s : Session) (history : List Command) (pool : Pool) : Prop where
  current : pool.chain.current < pool.blockCount
  sound : ∀ block ∈ pool.chain.blocks, block.Sound
  measured : ∀ buffer ∈ pool.buffers, buffer.length + buffer.length < wordLimit
  inside : ∀ region, s.HeldIn history region → region.pool = pool.id →
    ∀ index offset, region.place = .block index offset → ∃ block,
      pool.chain.blocks[index]? = some block ∧ block.start ≤ offset ∧
        offset + region.length ≤ block.limit
  confines : ∀ region, s.HeldIn history region → pool.Confines (s.run history).2.world region
  copied : ∀ source target, s.HeldIn history source → s.HeldIn history target →
    ∀ length fault, pool.copy source target length = .error (.fault fault) ↔
      (source.length < length ∨ target.length < length) ∧
        fault = .copyTooLong length source.length target.length
  tickets : ∀ ticket ∈ (s.run history).2.tickets, Lawful (pool.cleanupBytes ticket)
  records : ∀ record ∈ pool.cleanups.records, ∀ region ∈ record.data,
    pool.Minds (s.run history).2.world.freed region
  faults : ∀ command fault, (s.run history).2.Admits command →
    (((s.run history).2.exec command).1 = .failed (.fault fault) ↔
      (s.run history).2.Faults command fault)

/-- **After every history**, every pool keeps everything inside. -/
theorem run_confined (heap : Heap) (history : List Command)
    (admitted : (Session.ofHeap heap).AdmitsAll history)
    (here : ((Session.ofHeap heap).run history).2.pool? slot = some pool) :
    (Session.ofHeap heap).Confined history pool := by
  have opening := Sheltered.ofHeap heap
  have sheltered := opening.run admitted
  have fit := sheltered.vouched.fit slot pool here
  -- whatever was held at any time can be traced to the pool that issued it
  have issued : ∀ region, (Session.ofHeap heap).HeldIn history region →
      ((Session.ofHeap heap).run history).2.Issued region := by
    rintro region ⟨earlier, later, hsplit, held⟩
    exact Issued.of_history opening.issued opening.vouched opening.accounted admitted earlier later
      hsplit region held
  have guards : ∀ region, (Session.ofHeap heap).HeldIn history region → pool.Guards region :=
    fun region held => held.guards admitted here
  exact {
    current := ((Counts.ofHeap heap slot).run.follows pool here).current_lt
    sound := fit.sound
    measured := fun buffer hmem => by
      have hlength := sheltered.measured slot pool here buffer hmem
      exact Nat.add_lt_add hlength hlength
    inside := fun region held howner index offset hplace =>
      (issued region held).inside sheltered.vouched here howner hplace
    confines := fun region held => (guards region held).confines fit
    copied := fun source target hsource htarget length fault =>
      Pool.copy_fault_iff (guards source hsource) (guards target htarget)
    tickets := fun ticket hmem => Pool.cleanupBytes_lawful fun region hdata =>
      guards region ⟨history, [], (List.append_nil history).symm,
        mem_handles_iff.mpr (.inr (.inl ⟨ticket, hmem, hdata⟩))⟩
    records := ((Attached.ofHeap heap slot).run opening.vouched opening.accounted admitted).minds
      sheltered.retired here
    faults := fun command fault hcommand =>
      exec_fault_iff sheltered.guarded sheltered.shaped sheltered.accounted hcommand }

/-- Regions that were copied, lengthened, given back twice, freed or left behind by a reset, and
shown to pools that did not hand them out. -/
def roamingHistory : List Command :=
  [.createPool { size := 112 } none, .createPool { size := 256 } none, .alloc 0 16, .keepCopy 0,
    .extend 0 0 8, .reclaim 0 1, .reclaim 0 0, .reclaim 0 0, .alloc 0 500, .free 0 2, .write 0 2
    (.fill 1), .addCleanup 1 24, .holdCleanupRegion 0, .reset 1, .extend 1 3 18446744073709551615,
    .initArray 1 2 8, .pushArray 1 0 (.fill 2), .cloneArray 0, .destroyArray 1 0, .pushArray 1 1
    (.fill 3), .write 1 0 (.fill 4), .alloc 0 8]

theorem run_confined_roamingHistory : (Session.ofHeap roomyHeap).AdmitsAll roamingHistory ∧
    ∃ pool, ((Session.ofHeap roomyHeap).run roamingHistory).2.pool? 1 = some pool ∧
      (Session.ofHeap roomyHeap).Confined roamingHistory pool := by
  have admitted : (Session.ofHeap roomyHeap).AdmitsAll roamingHistory := by decide +kernel
  have hsome : (((Session.ofHeap roomyHeap).run roamingHistory).2.pool? 1).isSome := by
    decide +kernel
  obtain ⟨pool, here⟩ := Option.isSome_iff_exists.mp hsome
  exact ⟨admitted, pool, here, run_confined roomyHeap roamingHistory admitted here⟩

/-- More is copied than the source has, between regions that another pool handed out. -/
example : (((Session.ofHeap roomyHeap).run roamingHistory).2.exec (.copy 1 1 0 17)).1 =
    .failed (.fault (.copyTooLong 17 16 24)) := by
  decide +kernel

end Session

end RegionPool
