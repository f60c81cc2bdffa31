import RegionPool.Pool.Release
import RegionPool.Proofs.Books

/-!
# How a world moves on

What pools do leaves traces in the world that nothing takes back: numbers are given to buffers and
pools, buffers are given back, and cleanup actions run.

* `World.request_tells`, `World.release_tells` — the events of a call to a raw allocator;
* `World.ran` — the cleanup actions that ran, as the events tell it;
* `World.Later` — a later world: no number is given again, and what was given back stays so;
* `World.Calm` — a later world in which no cleanup action ran in between;
* `Calm.newBuffer`, `Calm.request`, `Calm.release`, `Calm.log`, `Calm.dropAction` — what keeps a
  world calm;
* `World.releaseFile_later` — releasing a file, which is one action that runs.
-/

namespace RegionPool

/-- Whether an event is an entry of a raw allocator in the log. -/
def Event.isRawEntry : Event → Bool
  | .logged (.rawAllocate ..) | .logged (.rawAllocationFailed ..) | .logged (.rawFree ..) => true
  | _ => false

/-- **A cleanup action that ran**, with the bytes it was given. -/
inductive Ran where
  | custom (tag : String)
  | withData (tag : String) (bytes : Bytes)
  | file (file : FileRelease)
  deriving Repr, DecidableEq

/-- The action whose run an event tells. A file is released with an entry in the log; when its
action is dropped there is none. -/
def Event.ran? : Event → Option Ran
  | .ranCustom tag => some (.custom tag)
  | .ranWithData tag bytes => some (.withData tag bytes)
  | .logged (.fileCleanup descriptor path delete) => some (.file { descriptor, path, delete })
  | _ => none

namespace World

/-! ### What is told of a call -/

section Tells

variable {w w₁ w' : World} {id : AllocatorId} {request : Request}
  {answer : Except AllocError Buffer} {buffer : Buffer} {told more : List Event}

/-- **A world tells events**, and no pool gets a number. -/
structure Tells (w : World) (told : List Event) (w' : World) : Prop where
  events : w'.events = w.events ++ told
  nextPool : w'.nextPool = w.nextPool

namespace Tells

theorem refl (w : World) : w.Tells [] w := ⟨(List.append_nil _).symm, rfl⟩

theorem trans (h : w.Tells told w₁) (h' : w₁.Tells more w') : w.Tells (told ++ more) w' where
  events := by rw [h'.events, h.events, List.append_assoc]
  nextPool := h'.nextPool.trans h.nextPool

theorem emit (w : World) (event : Event) : w.Tells [event] (w.emit event) := ⟨rfl, rfl⟩

/-- What is gathered from the events grows by what is gathered from those that are told. -/
theorem filterMap_events {β : Type} (f : Event → Option β) (h : w.Tells told w') :
    w'.events.filterMap f = w.events.filterMap f ++ told.filterMap f := by
  rw [h.events, List.filterMap_append]

end Tells

/-- The heap tells nothing. -/
private theorem newBuffer_tells (w : World) (size align : Nat) :
    w.Tells [] (w.newBuffer size align).2 := by
  unfold newBuffer
  split
  · dsimp only
    split <;> exact ⟨(List.append_nil _).symm, rfl⟩
  · exact .refl w

private theorem systemRequest_tells (w : World) (request : Request) :
    ∃ told, w.Tells told (w.systemRequest request).2 ∧ ∀ event ∈ told, event.isRawEntry := by
  have hnew := newBuffer_tells w request.size request.align
  unfold systemRequest
  split
  · next hcall =>
    rw [hcall] at hnew
    exact ⟨_, hnew.trans (.emit _ _), by simp [Event.isRawEntry]⟩
  · next hcall =>
    rw [hcall] at hnew
    exact ⟨_, hnew.trans (.emit _ _), by simp [Event.isRawEntry]⟩

private theorem countedRequest_tells (w : World) (ledger : Ledger) (request : Request) :
    ∃ told, w.Tells told (w.countedRequest ledger request).2.2 ∧
      ∀ event ∈ told, event.isRawEntry := by
  have hsystem := systemRequest_tells w request.unzeroed
  unfold countedRequest
  split
  · next hcall => rwa [hcall] at hsystem
  · next hcall => rwa [hcall] at hsystem

private theorem serve_tells (w : World) (request : Request) (allocator : Allocator) :
    ∃ told, w.Tells told (w.serve request allocator).2.2 ∧
      ∀ event ∈ told, event.isRawEntry := by
  have hnone : ∀ event ∈ ([] : List Event), event.isRawEntry := nofun
  cases allocator with
  | system => exact systemRequest_tells w request
  -- only a counting allocator tells anything, and what it tells is of raw buffers
  | counting ledger => exact countedRequest_tells w ledger request
  | failing budget ledger =>
    cases budget with
    | zero => exact ⟨[], .refl w, hnone⟩
    | succ budget => exact countedRequest_tells w ledger request
  | dirty =>
    have hnew := newBuffer_tells w request.size request.align
    rw [serve]
    split
    · next hcall =>
      rw [hcall] at hnew
      exact ⟨[], hnew, hnone⟩
    · next hcall =>
      rw [hcall] at hnew
      exact ⟨[], hnew, hnone⟩

/-- **What is told of a request**, after entries of the allocator in the log. -/
theorem request_tells (h : w.request id request = (answer, w')) :
    ∃ told, w.Tells (told ++ [.requested request (answer.toOption.map Buffer.id)]) w' ∧
      ∀ event ∈ told, event.isRawEntry := by
  obtain ⟨told, htells, hraw⟩ := serve_tells w request (w.allocator id)
  unfold World.request at h
  rcases hserve : w.serve request (w.allocator id) with ⟨result, allocator', w₁⟩
  rw [hserve] at h htells
  obtain ⟨rfl, rfl⟩ := h
  -- writing the allocator back tells nothing
  have hserved : w.Tells told (w₁.setAllocator id allocator') := ⟨htells.events, htells.nextPool⟩
  refine ⟨told, ?_, hraw⟩
  rcases answer with error | buffer
  · exact hserved.trans (.emit _ _)
  · exact hserved.trans (.emit _ _)

/-- **What is told of a buffer given back**, before entries of the allocator in the log. -/
theorem release_tells (h : w.release id buffer = (.ok (), w')) :
    ∃ told, w.Tells (.freed buffer.id :: told) w' ∧
      ∀ event ∈ told, event.isRawEntry := by
  -- The entry in the log is the same for all kinds of allocators that make one.
  have hlogged : ∀ w₁ : World, w.Tells [.freed buffer.id] w₁ → ∃ told,
      w.Tells (.freed buffer.id :: told) (w₁.log (.rawFree buffer.id buffer.length)) ∧
        ∀ event ∈ told, event.isRawEntry := fun w₁ h₁ =>
    ⟨_, h₁.trans (.emit _ _), by simp [Event.isRawEntry]⟩
  unfold release at h
  dsimp only at h
  split at h
  · obtain ⟨-, rfl⟩ := h
    exact hlogged _ (.emit _ _)
  · split at h
    · obtain ⟨-, rfl⟩ := h
      exact hlogged _ ⟨rfl, rfl⟩
    · cases h
  · split at h
    · obtain ⟨-, rfl⟩ := h
      exact hlogged _ ⟨rfl, rfl⟩
    · cases h
  · obtain ⟨-, rfl⟩ := h
    exact ⟨[], .emit _ _, nofun⟩

end Tells

/-! ### Later worlds -/

/-- The cleanup actions that ran so far, in order. -/
def ran (w : World) : List Ran := w.events.filterMap Event.ran?

/-- **A later world.** No pool got a number in between. -/
structure Later (w w' : World) : Prop where
  nextPool : w'.nextPool = w.nextPool
  nextBuffer : w.nextBuffer ≤ w'.nextBuffer
  events : w.events <+: w'.events

/-- **A later world, and no cleanup action ran** in between. -/
structure Calm (w w' : World) : Prop extends Later w w' where
  ran : w'.ran = w.ran

variable {w w₁ w' : World} {id : AllocatorId} {buffer : Buffer} {told : List Event}

namespace Later

theorem refl (w : World) : w.Later w := ⟨rfl, Nat.le_refl _, List.prefix_rfl⟩

theorem trans (h : w.Later w₁) (h' : w₁.Later w') : w.Later w' :=
  ⟨h'.nextPool.trans h.nextPool, Nat.le_trans h.nextBuffer h'.nextBuffer,
    h.events.trans h'.events⟩

/-- What was given back stays given back. -/
theorem freed (h : w.Later w') : w.freed <+: w'.freed := h.events.filterMap _

/-- A world that tells events is a later one. -/
theorem of_tells (h : w.Tells told w') (hnext : w.nextBuffer ≤ w'.nextBuffer) : w.Later w' :=
  ⟨h.nextPool, hnext, ⟨_, h.events.symm⟩⟩

end Later

/-- The actions that ran by the time some events were told. -/
theorem ran_of_tells (h : w.Tells told w') : w'.ran = w.ran ++ told.filterMap Event.ran? :=
  h.filterMap_events _

namespace Calm

theorem refl (w : World) : w.Calm w := ⟨.refl w, rfl⟩

theorem trans (h : w.Calm w₁) (h' : w₁.Calm w') : w.Calm w' :=
  ⟨h.toLater.trans h'.toLater, h'.ran.trans h.ran⟩

/-- A world is calm while it tells of other things. -/
theorem of_tells (h : w.Tells told w') (hnext : w.nextBuffer ≤ w'.nextBuffer)
    (hran : told.filterMap Event.ran? = []) : w.Calm w' :=
  ⟨.of_tells h hnext, by rw [ran_of_tells h, hran, List.append_nil]⟩

theorem emit {event : Event} (w : World) (h : event.ran? = none) : w.Calm (w.emit event) :=
  .of_tells (.emit w event) (Nat.le_refl _) (by simp [h])

theorem log {entry : LogEntry} (w : World) (h : (Event.logged entry).ran? = none) :
    w.Calm (w.log entry) :=
  emit w h

/-- The entries of raw allocators tell of no action. -/
private theorem filterMap_ran?_of_isRawEntry (h : ∀ event ∈ told, event.isRawEntry) :
    told.filterMap Event.ran? = [] := by
  refine List.filterMap_eq_nil_iff.mpr fun event hmem => ?_
  have hentry := h event hmem
  unfold Event.isRawEntry at hentry
  split at hentry <;> first | rfl | cases hentry

/-- A buffer straight from the heap. -/
theorem newBuffer {size align : Nat} {answer : Except AllocError Buffer}
    (call : w.newBuffer size align = (answer, w')) : w.Calm w' := by
  have htells := newBuffer_tells w size align
  rw [call] at htells
  refine .of_tells htells ?_ rfl
  rcases answer with error | buffer
  · exact Nat.le_of_eq (newBuffer_error call).1.symm
  · exact (newBuffer_ok call).2.1 ▸ Nat.le_succ _

/-- The file system has no part in it. -/
theorem setFiles (w : World) (files : FileSystem) : w.Calm { w with files } :=
  .of_tells ⟨(List.append_nil _).symm, rfl⟩ (Nat.le_refl _) rfl

/-- **A request.** -/
theorem request {request : Request} {answer : Except AllocError Buffer}
    (call : w.request id request = (answer, w')) : w.Calm w' := by
  obtain ⟨told, htells, hraw⟩ := request_tells call
  rcases answer with error | buffer
  · refine .of_tells htells (Nat.le_of_eq (request_error call).nextBuffer.symm) ?_
    rw [List.filterMap_append, filterMap_ran?_of_isRawEntry hraw]
    rfl
  · refine .of_tells htells ((request_ok call).nextBuffer ▸ Nat.le_succ _) ?_
    rw [List.filterMap_append, filterMap_ran?_of_isRawEntry hraw]
    rfl

/-- **A buffer given back**, whether it is taken or not. -/
theorem release {result : Except Fault Unit} (call : w.release id buffer = (result, w')) :
    w.Calm w' := by
  rcases result with fault | ⟨⟩
  · obtain ⟨-, rfl, -⟩ := release_error call
    exact emit w rfl
  · obtain ⟨told, htells, hraw⟩ := release_tells call
    refine .of_tells htells (Nat.le_of_eq (release_ok call).nextBuffer.symm) ?_
    rw [List.filterMap_cons_none rfl, filterMap_ran?_of_isRawEntry hraw]

/-- Closing a file runs no action. -/
theorem closeFile (w : World) (file : FileRelease) : w.Calm (w.closeFile file) := by
  have htells : w.Tells [.closed file.descriptor] (w.closeFile file) := ⟨rfl, rfl⟩
  exact .of_tells htells (Nat.le_refl _) rfl

theorem dropAction (w : World) (action : Option CleanupAction) :
    w.Calm (Pool.dropAction action w) := by
  unfold Pool.dropAction
  split
  · exact closeFile w _
  · exact .refl w

/-- Removing the path of a file runs no action. -/
theorem removeFile (w : World) (file : FileRelease) : w.Calm (w.removeFile file) := by
  unfold World.removeFile
  split
  · next files _ =>
    have htells : w.Tells [.removed file.path] ({ w with files }.emit (.removed file.path)) :=
      ⟨rfl, rfl⟩
    exact .of_tells htells (Nat.le_refl _) rfl
  · exact .refl w
  · exact log w rfl

end Calm

/-- **Releasing a file** is one action that runs. -/
theorem releaseFile_later (w : World) (file : FileRelease) :
    w.Later (w.releaseFile file) ∧ (w.releaseFile file).ran = w.ran ++ [.file file] := by
  let entry : LogEntry := .fileCleanup file.descriptor file.path file.delete
  have hlogged : w.Tells [.logged entry] (w.log entry) := .emit w _
  have hlater : w.Later (w.log entry) := .of_tells hlogged (Nat.le_refl _)
  have hran : (w.log entry).ran = w.ran ++ [.file file] := ran_of_tells hlogged
  unfold releaseFile
  split
  -- the path goes first and the descriptor after it; neither runs an action
  · have hcalm := (Calm.removeFile (w.log entry) file).trans (.closeFile _ file)
    exact ⟨hlater.trans hcalm.toLater, hcalm.ran.trans hran⟩
  · have hcalm := Calm.closeFile (w.log entry) file
    exact ⟨hlater.trans hcalm.toLater, hcalm.ran.trans hran⟩

end World

end RegionPool
