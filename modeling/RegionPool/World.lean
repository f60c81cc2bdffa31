import RegionPool.Error
import RegionPool.Event
import RegionPool.Files
import RegionPool.Raw.Allocator

/-!
# The world around pools

A `World` is what pools share: the heap, the raw allocators built on it, the counters from which
buffers and pools get their numbers, the files, and the events so far, in order.

* `Heap` decides about requests. It may refuse any of them; nothing here depends on which.
* `World.newBuffer` gets a buffer straight from the heap: fresh, zero, of exactly the length asked
  for (`World.length_of_newBuffer`), under a new number.
* `World.request` and `World.release` go through a raw allocator and are events.
-/

namespace RegionPool

/-! ### The heap -/

/-- Where the heap puts a buffer: the answer to the request of this number, for `size` bytes at
alignment `align`. `none` refuses it. -/
structure Heap where
  place : (request size align : Nat) → Option Nat

/-- The sizes and alignments for which a memory layout exists: the alignment is a power of two, and
the size, rounded up to it, does not leave the addresses that a pointer difference can span. -/
def isLayout (size align : Nat) : Bool :=
  Layout.isPowerOfTwo align && max size 1 ≤ 2 ^ (63 : Nat) - align

/-! ### The world -/

/-- What pools share. -/
structure World where
  heap : Heap
  /-- The number of requests the heap has answered. -/
  requests : Nat := 0
  /-- The number of the next buffer. -/
  nextBuffer : Nat := 1
  /-- The number of the next pool. -/
  nextPool : Nat := 1
  /-- The raw allocators. A number beyond them denotes a plain allocator. -/
  allocators : List Allocator := []
  files : FileSystem := {}
  /-- Oldest first. -/
  events : List Event := []

namespace World

/-! ### Events -/

/-- The world with one more event. -/
def emit (w : World) (event : Event) : World := { w with events := w.events ++ [event] }

/-- The world with one more log entry. -/
def log (w : World) (entry : LogEntry) : World := w.emit (.logged entry)

/-- The requests and frees so far, in order. -/
def rawCalls (w : World) : List Event := w.events.filter Event.isRawCall

@[simp] theorem rawCalls_log (w : World) (entry : LogEntry) :
    (w.log entry).rawCalls = w.rawCalls := by
  simp [rawCalls, log, emit, Event.isRawCall]

/-! ### Memory from the heap -/

/-- A fresh buffer. It reads zero and has the length asked for. -/
def newBuffer (w : World) (size align : Nat) : Except AllocError Buffer × World :=
  if isLayout size align then
    let w' := { w with requests := w.requests + 1 }
    match w.heap.place w.requests size align with
    | none => (.error (.outOfMemory size align), w')
    | some base =>
      (.ok { id := ⟨w.nextBuffer⟩, base, align, memory := Memory.zeroed size },
        { w' with nextBuffer := w.nextBuffer + 1 })
  else (.error (.invalidLayout size align), w)

theorem length_of_newBuffer {w after : World} {size align : Nat} {buffer : Buffer}
    (h : w.newBuffer size align = (.ok buffer, after)) : buffer.length = size := by
  unfold newBuffer at h
  split at h
  · dsimp only at h
    split at h <;> cases h
    exact Memory.size_zeroed size
  · cases h

/-! ### Raw allocators -/

/-- The raw allocator of this number. -/
def allocator (w : World) (id : AllocatorId) : Allocator := w.allocators.getD id.index .system

/-- The world with the state of one raw allocator replaced. -/
def setAllocator (w : World) (id : AllocatorId) (allocator : Allocator) : World :=
  { w with allocators := w.allocators.set id.index allocator }

/-- The world with one more raw allocator, and its number. -/
def addAllocator (w : World) (allocator : Allocator) : AllocatorId × World :=
  (⟨w.allocators.length⟩, { w with allocators := w.allocators ++ [allocator] })

/-- A request to the plain allocator: the heap's answer, logged. -/
def systemRequest (w : World) (request : Request) : Except AllocError Buffer × World :=
  match w.newBuffer request.size request.align with
  | (.ok buffer, w) =>
    (.ok buffer, w.log (.rawAllocate request.operation buffer.id request.size request.align))
  | (.error error, w) =>
    (.error error,
      w.log (.rawAllocationFailed request.operation request.size request.align error.message))

/-- A request through a ledger: passed on to the plain allocator, zeroed memory being got as plain
memory and cleared, and entered if it is granted. -/
def countedRequest (w : World) (ledger : Ledger) (request : Request) :
    Except AllocError Buffer × Ledger × World :=
  match w.systemRequest request.unzeroed with
  | (.ok buffer, w) =>
    (.ok (if request.zeroed then buffer.filled 0 else buffer), ledger.record buffer, w)
  | (.error error, w) => (.error error, ledger, w)

/-- The answer of a raw allocator in a given state, and the state it is left in. A budget is spent
before the heap is asked, so a request the heap then refuses has used it up as well. -/
def serve (w : World) (request : Request) :
    Allocator → Except AllocError Buffer × Allocator × World
  | .system =>
    let (result, w) := w.systemRequest request
    (result, .system, w)
  | .counting ledger =>
    let (result, ledger, w) := w.countedRequest ledger request
    (result, .counting ledger, w)
  | .failing 0 ledger => (.error (.outOfMemory request.size request.align), .failing 0 ledger, w)
  | .failing (budget + 1) ledger =>
    let (result, ledger, w) := w.countedRequest ledger request
    (result, .failing budget ledger, w)
  | .dirty =>
    match w.newBuffer request.size request.align with
    | (.ok buffer, w) =>
      (.ok (buffer.filled (if request.zeroed then 0 else Allocator.dirt)), .dirty, w)
    | (.error error, w) => (.error error, .dirty, w)

/-- A request to one of the raw allocators. -/
def request (w : World) (id : AllocatorId) (request : Request) : Except AllocError Buffer × World :=
  let (result, allocator, w) := w.serve request (w.allocator id)
  let granted := match result with
    | .ok buffer => some buffer.id
    | .error _ => none
  (result, (w.setAllocator id allocator).emit (.requested request granted))

/-- Give a buffer back to one of the raw allocators. One that keeps a ledger only takes buffers its
ledger holds. -/
def release (w : World) (id : AllocatorId) (buffer : Buffer) : Except Fault Unit × World :=
  -- The attempt is an event even if the allocator then refuses the buffer.
  let w := w.emit (.freed buffer.id)
  let logFree (w : World) := w.log (.rawFree buffer.id buffer.length)
  match w.allocator id with
  | .system => (.ok (), logFree w)
  | .counting ledger =>
    match ledger.release? buffer.id with
    | some ledger => (.ok (), logFree (w.setAllocator id (.counting ledger)))
    | none => (.error (.untrackedFree buffer.id), w)
  | .failing budget ledger =>
    match ledger.release? buffer.id with
    | some ledger => (.ok (), logFree (w.setAllocator id (.failing budget ledger)))
    | none => (.error (.untrackedFree buffer.id), w)
  | .dirty => (.ok (), w)

/-! ### Files -/

/-- Close the descriptor of a file that is being released. -/
def closeFile (w : World) (file : FileRelease) : World :=
  { w with files := w.files.close file.descriptor }.emit (.closed file.descriptor)

/-- Remove the path of a file. That it does not exist is fine; any other failure is logged. -/
def removeFile (w : World) (file : FileRelease) : World :=
  match w.files.remove file.path with
  | (.removed, files) => { w with files }.emit (.removed file.path)
  | (.notFound, _) => w
  | (.failed reason, _) => w.log (.deleteFailed file.descriptor file.path reason)

/-- Release a file: remove its path if it is to be deleted, then close it. -/
def releaseFile (w : World) (file : FileRelease) : World :=
  -- The path goes while the descriptor is still open, and the descriptor in any case.
  let w := w.log (.fileCleanup file.descriptor file.path file.delete)
  (if file.delete then w.removeFile file else w).closeFile file

end World

end RegionPool
