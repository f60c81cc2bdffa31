import Mathlib.Data.List.Perm.Basic
import RegionPool.Pool.Basic

/-!
# Who holds which buffer

A raw buffer is, at every moment, with exactly one holder: a pool has it as a block or in a slot for
large buffers, or somebody has it in hand. An allocator with a ledger knows the buffers it handed
out, not who holds them; the two accounts are kept apart by the program, and this module states what
it means that they agree.

* `Holding` — a buffer with the allocator it came from, and `Pool.holdings`, those of a pool;
* `World.request_ok`, `World.request_error`, `World.release_ok`, `World.release_error` — what a call
  to a raw allocator does to the ledgers and to the number of the next buffer;
* `World.answer_request`, `World.length_of_request`, `World.placed_of_request` — the answer to a
  request comes from the heap, and a granted buffer has the length asked for, at the alignment asked
  for;
* `Books` — the accounts agree: every ledger lists exactly the buffers that are held from its
  allocator, no buffer is held twice, and the number of the next buffer is new;
* `Books.granted`, `Books.released` — a call to an allocator keeps the books in order, and a buffer
  that is held is taken back (`Books.accepts`).

A ledger may list more than what is accounted for: `rest` collects the buffers that were live before
the account starts.
-/

namespace RegionPool

/-! ### Ledgers of a world -/

/-- Whether an entry of the log tells that a chain grew. -/
def LogEntry.isGrowth : LogEntry → Bool
  | .growBlockChain .. => true
  | _ => false

namespace World

/-- The ledger of a raw allocator, if it keeps one. -/
def ledger? (w : World) (id : AllocatorId) : Option Ledger := (w.allocator id).ledger?

/-- The number of times a pool's chain grew, as the log tells it. -/
def growths (w : World) : Nat :=
  w.events.countP fun event =>
    match event with
    | .logged entry => entry.isGrowth
    | _ => false

/-- The buffers given back so far, in order. -/
def freed (w : World) : List BufferId :=
  w.events.filterMap fun event =>
    match event with
    | .freed id => some id
    | _ => none

section Fields

variable (w : World) (event : Event) (entry : LogEntry) (id other : AllocatorId)

@[simp] theorem allocators_emit : (w.emit event).allocators = w.allocators := rfl

@[simp] theorem allocators_log : (w.log entry).allocators = w.allocators := rfl

@[simp] theorem nextBuffer_emit : (w.emit event).nextBuffer = w.nextBuffer := rfl

@[simp] theorem nextBuffer_log : (w.log entry).nextBuffer = w.nextBuffer := rfl

@[simp] theorem length_allocators_setAllocator (allocator : Allocator) :
    (w.setAllocator id allocator).allocators.length = w.allocators.length :=
  List.length_set

@[simp] theorem nextBuffer_setAllocator (allocator : Allocator) :
    (w.setAllocator id allocator).nextBuffer = w.nextBuffer := rfl

@[simp] theorem events_setAllocator (allocator : Allocator) :
    (w.setAllocator id allocator).events = w.events := rfl

@[simp] theorem ledger?_emit : (w.emit event).ledger? id = w.ledger? id := rfl

@[simp] theorem ledger?_log : (w.log entry).ledger? id = w.ledger? id := rfl

@[simp] theorem growths_setAllocator (allocator : Allocator) :
    (w.setAllocator id allocator).growths = w.growths := rfl

@[simp] theorem freed_setAllocator (allocator : Allocator) :
    (w.setAllocator id allocator).freed = w.freed := rfl

@[simp] theorem growths_emit_requested (request : Request) (granted : Option BufferId) :
    (w.emit (.requested request granted)).growths = w.growths := by
  simp [growths, emit]

@[simp] theorem freed_emit_requested (request : Request) (granted : Option BufferId) :
    (w.emit (.requested request granted)).freed = w.freed := by
  simp [freed, emit]

@[simp] theorem growths_emit_freed (buffer : BufferId) :
    (w.emit (.freed buffer)).growths = w.growths := by
  simp [growths, emit]

@[simp] theorem freed_emit_freed (buffer : BufferId) :
    (w.emit (.freed buffer)).freed = w.freed ++ [buffer] := by
  simp [freed, emit]

@[simp] theorem freed_log : (w.log entry).freed = w.freed := by
  simp [freed, log, emit]

theorem growths_log : (w.log entry).growths = w.growths + if entry.isGrowth then 1 else 0 := by
  simp [growths, log, emit, List.countP_cons]

/-- Where a world has no allocator of a number, that number denotes a plain one. -/
theorem allocator_of_length_le (h : w.allocators.length ≤ id.index) : w.allocator id = .system := by
  rw [allocator, List.getD_eq_getElem?_getD, List.getElem?_eq_none h, Option.getD_none]

/-- Replacing the state of one allocator replaces its ledger and no other. -/
theorem ledger?_setAllocator {allocator : Allocator}
    (h : w.allocators.length ≤ id.index → allocator = .system) :
    (w.setAllocator id allocator).ledger? other =
      if other = id then allocator.ledger? else w.ledger? other := by
  unfold ledger? World.allocator setAllocator
  by_cases heq : other = id
  · subst heq
    rw [if_pos rfl]
    -- past the end nothing is replaced, and what stands for the allocator there is plain
    by_cases hlt : other.index < w.allocators.length
    · simp [List.getD_eq_getElem?_getD, hlt]
    · rw [h (by omega), List.getD_eq_getElem?_getD, List.getElem?_eq_none (by simp; omega)]
      rfl
  · have hne : id.index ≠ other.index := fun h => heq (by cases id; cases other; simp_all)
    simp [List.getD_eq_getElem?_getD, List.getElem?_set_ne hne, heq]

end Fields

/-! ### Calls to raw allocators -/

/-- **Nothing happened to raw memory**: the ledgers, the number of the next buffer and what was
given back are as they were. -/
structure SameBooks (w w' : World) : Prop where
  allocators : w.allocators.length ≤ w'.allocators.length
  nextBuffer : w'.nextBuffer = w.nextBuffer
  ledger : ∀ id, w'.ledger? id = w.ledger? id
  freed : w'.freed = w.freed

/-- **Nothing happened to memory**: not to raw memory, no chain grew, and the heap is the same
one. -/
structure Quiet (w w' : World) : Prop extends SameBooks w w' where
  growths : w'.growths = w.growths
  heap : w'.heap = w.heap

/-- **A buffer was granted** by an allocator: it is new, and entered in the ledger if there is
one. -/
structure Grants (w : World) (id : AllocatorId) (buffer : Buffer) (w' : World) : Prop where
  number : buffer.id = ⟨w.nextBuffer⟩
  allocators : w.allocators.length ≤ w'.allocators.length
  nextBuffer : w'.nextBuffer = w.nextBuffer + 1
  ledger : ∀ other, w'.ledger? other =
    if other = id then (w.ledger? id).map (·.record buffer) else w.ledger? other
  freed : w'.freed = w.freed
  growths : w'.growths = w.growths

/-- **A buffer was taken back** by an allocator: it is struck out of the ledger if there is one. -/
structure TakesBack (w : World) (id : AllocatorId) (buffer : Buffer) (w' : World) : Prop where
  allocators : w.allocators.length ≤ w'.allocators.length
  nextBuffer : w'.nextBuffer = w.nextBuffer
  struck : ∀ ledger, w.ledger? id = some ledger → ∃ after, ledger.release? buffer.id = some after ∧
    w'.ledger? id = some after
  unkept : w.ledger? id = none → w'.ledger? id = none
  ledger : ∀ other, other ≠ id → w'.ledger? other = w.ledger? other
  freed : w'.freed = w.freed ++ [buffer.id]
  growths : w'.growths = w.growths

namespace Quiet

variable {w₁ w₂ w₃ : World}

theorem refl (w : World) : w.Quiet w := ⟨⟨Nat.le_refl _, rfl, fun _ => rfl, rfl⟩, rfl, rfl⟩

theorem trans (h : w₁.Quiet w₂) (h' : w₂.Quiet w₃) : w₁.Quiet w₃ where
  allocators := Nat.le_trans h.allocators h'.allocators
  nextBuffer := h'.nextBuffer.trans h.nextBuffer
  ledger id := (h'.ledger id).trans (h.ledger id)
  freed := h'.freed.trans h.freed
  growths := h'.growths.trans h.growths
  heap := h'.heap.trans h.heap

/-- An event that gives no buffer back and is not the entry of a growth. -/
theorem emit {event : Event} (w : World) (hfreed : ∀ id, event ≠ .freed id)
    (hentry : ∀ entry, event = .logged entry → entry.isGrowth = false) :
    w.Quiet (w.emit event) := by
  refine ⟨⟨Nat.le_refl _, rfl, fun _ => rfl, ?_⟩, ?_, rfl⟩
  · change List.filterMap _ (w.events ++ [event]) = _
    rw [List.filterMap_append]
    cases event with
    | freed id => exact absurd rfl (hfreed id)
    | _ => exact List.append_nil _
  -- growths are counted by their own entries in the log, and this is none
  · change List.countP _ (w.events ++ [event]) = _
    rw [List.countP_append]
    cases event with
    | logged entry =>
      simp only [List.countP_singleton, hentry entry rfl, Bool.false_eq_true, if_false,
        Nat.add_zero]
      rfl
    | _ => rfl

/-- An entry of the log, unless it is that of a growth. -/
theorem log {entry : LogEntry} (w : World) (h : entry.isGrowth = false) : w.Quiet (w.log entry) :=
  emit w nofun fun _ heq => Event.logged.inj heq ▸ h

end Quiet

section Calls

variable {w w' : World} {id : AllocatorId} {request : Request} {buffer : Buffer}
  {error : AllocError} {fault : Fault}

theorem newBuffer_ok {size align : Nat} (h : w.newBuffer size align = (.ok buffer, w')) :
    buffer.id = ⟨w.nextBuffer⟩ ∧ w'.nextBuffer = w.nextBuffer + 1 ∧
      w'.allocators = w.allocators ∧ w'.events = w.events := by
  unfold newBuffer at h
  split at h
  · dsimp only at h
    split at h
    · cases h
    · obtain ⟨rfl, rfl⟩ := h
      exact ⟨rfl, rfl, rfl, rfl⟩
  · cases h

theorem newBuffer_error {size align : Nat} (h : w.newBuffer size align = (.error error, w')) :
    w'.nextBuffer = w.nextBuffer ∧ w'.allocators = w.allocators ∧ w'.events = w.events := by
  unfold newBuffer at h
  split at h
  · dsimp only at h
    split at h
    · obtain ⟨-, rfl⟩ := h
      exact ⟨rfl, rfl, rfl⟩
    · cases h
  · obtain ⟨-, rfl⟩ := h
    exact ⟨rfl, rfl, rfl⟩

/-- The plain allocator's answer, apart from its log entry, is the heap's. -/
theorem systemRequest_ok (h : w.systemRequest request = (.ok buffer, w')) :
    buffer.id = ⟨w.nextBuffer⟩ ∧ w'.nextBuffer = w.nextBuffer + 1 ∧
      w'.allocators = w.allocators ∧ w'.freed = w.freed ∧ w'.growths = w.growths := by
  unfold systemRequest at h
  split at h
  · rename_i hnew
    obtain ⟨rfl, rfl⟩ := h
    obtain ⟨hid, hnext, hallocators, hevents⟩ := newBuffer_ok hnew
    refine ⟨hid, hnext, hallocators, ?_, ?_⟩
    · simp [freed, log, emit, hevents]
    · rw [growths_log, growths, growths, hevents]
      rfl
  · cases h

theorem systemRequest_error (h : w.systemRequest request = (.error error, w')) :
    w'.nextBuffer = w.nextBuffer ∧ w'.allocators = w.allocators ∧ w'.freed = w.freed ∧
      w'.growths = w.growths := by
  unfold systemRequest at h
  split at h
  · cases h
  · rename_i hnew
    obtain ⟨rfl, rfl⟩ := h
    obtain ⟨hnext, hallocators, hevents⟩ := newBuffer_error hnew
    refine ⟨hnext, hallocators, ?_, ?_⟩
    · simp [freed, log, emit, hevents]
    · rw [growths_log, growths, growths, hevents]
      rfl

/-- A ledger enters a buffer under its number and length, so clearing the bytes makes no
difference. -/
theorem countedRequest_ok {ledger ledger' : Ledger}
    (h : w.countedRequest ledger request = (.ok buffer, ledger', w')) :
    ledger' = ledger.record buffer ∧ buffer.id = ⟨w.nextBuffer⟩ ∧
      w'.nextBuffer = w.nextBuffer + 1 ∧ w'.allocators = w.allocators ∧ w'.freed = w.freed ∧
      w'.growths = w.growths := by
  unfold countedRequest at h
  split at h
  · rename_i hsystem
    obtain ⟨rfl, rfl, rfl⟩ := h
    -- clearing the bytes keeps number and length, and the ledger enters no more than these
    have hw := systemRequest_ok hsystem
    split
    · exact ⟨by simp [Ledger.record], hw⟩
    · exact ⟨rfl, hw⟩
  · cases h

theorem countedRequest_error {ledger ledger' : Ledger}
    (h : w.countedRequest ledger request = (.error error, ledger', w')) :
    ledger' = ledger ∧ w'.nextBuffer = w.nextBuffer ∧ w'.allocators = w.allocators ∧
      w'.freed = w.freed ∧ w'.growths = w.growths := by
  unfold countedRequest at h
  split at h
  · cases h
  · rename_i hsystem
    obtain ⟨-, rfl, rfl⟩ := h
    exact ⟨rfl, systemRequest_error hsystem⟩

/-- What an allocator in a given state does with a request it grants. -/
theorem serve_ok {allocator allocator' : Allocator}
    (h : w.serve request allocator = (.ok buffer, allocator', w')) :
    allocator'.ledger? = allocator.ledger?.map (·.record buffer) ∧
      (allocator = .system → allocator' = .system) ∧ buffer.id = ⟨w.nextBuffer⟩ ∧
      w'.nextBuffer = w.nextBuffer + 1 ∧ w'.allocators = w.allocators ∧ w'.freed = w.freed ∧
      w'.growths = w.growths := by
  cases allocator with
  | system =>
    rcases hcall : w.systemRequest request with ⟨result, w₁⟩
    simp only [serve, hcall] at h
    obtain ⟨rfl, rfl, rfl⟩ := h
    exact ⟨rfl, fun _ => rfl, systemRequest_ok hcall⟩
  | counting ledger =>
    rcases hcall : w.countedRequest ledger request with ⟨result, ledger', w₁⟩
    simp only [serve, hcall] at h
    obtain ⟨rfl, rfl, rfl⟩ := h
    obtain ⟨hledger, hw⟩ := countedRequest_ok hcall
    exact ⟨congrArg some hledger, nofun, hw⟩
  | failing budget ledger =>
    cases budget with
    | zero => cases h
    | succ budget =>
      -- within its budget it does what a counting allocator does
      rcases hcall : w.countedRequest ledger request with ⟨result, ledger', w₁⟩
      simp only [serve, hcall] at h
      obtain ⟨rfl, rfl, rfl⟩ := h
      obtain ⟨hledger, hw⟩ := countedRequest_ok hcall
      exact ⟨congrArg some hledger, nofun, hw⟩
  | dirty =>
    -- a dirty allocator asks the heap itself and fills what it gets
    rw [serve] at h
    split at h
    · rename_i hnew
      obtain ⟨rfl, rfl, rfl⟩ := h
      obtain ⟨hid, hnext, hallocators, hevents⟩ := newBuffer_ok hnew
      exact ⟨rfl, nofun, hid, hnext, hallocators, by rw [freed, hevents]; rfl,
        by rw [growths, hevents]; rfl⟩
    · cases h

theorem serve_error {allocator allocator' : Allocator}
    (h : w.serve request allocator = (.error error, allocator', w')) :
    allocator'.ledger? = allocator.ledger? ∧ (allocator = .system → allocator' = .system) ∧
      w'.nextBuffer = w.nextBuffer ∧ w'.allocators = w.allocators ∧ w'.freed = w.freed ∧
      w'.growths = w.growths := by
  cases allocator with
  | system =>
    rcases hcall : w.systemRequest request with ⟨result, w₁⟩
    simp only [serve, hcall] at h
    obtain ⟨rfl, rfl, rfl⟩ := h
    exact ⟨rfl, fun _ => rfl, systemRequest_error hcall⟩
  | counting ledger =>
    rcases hcall : w.countedRequest ledger request with ⟨result, ledger', w₁⟩
    simp only [serve, hcall] at h
    obtain ⟨rfl, rfl, rfl⟩ := h
    obtain ⟨hledger, hw⟩ := countedRequest_error hcall
    exact ⟨congrArg some hledger, nofun, hw⟩
  | failing budget ledger =>
    cases budget with
    | zero =>
      -- a budget that is used up refuses before the heap is asked
      obtain ⟨-, rfl, rfl⟩ := h
      exact ⟨rfl, nofun, rfl, rfl, rfl, rfl⟩
    | succ budget =>
      rcases hcall : w.countedRequest ledger request with ⟨result, ledger', w₁⟩
      simp only [serve, hcall] at h
      obtain ⟨rfl, rfl, rfl⟩ := h
      obtain ⟨hledger, hw⟩ := countedRequest_error hcall
      exact ⟨congrArg some hledger, nofun, hw⟩
  | dirty =>
    rw [serve] at h
    split at h
    · cases h
    · rename_i hnew
      obtain ⟨-, rfl, rfl⟩ := h
      obtain ⟨hnext, hallocators, hevents⟩ := newBuffer_error hnew
      exact ⟨rfl, nofun, hnext, hallocators, by rw [freed, hevents]; rfl,
        by rw [growths, hevents]; rfl⟩

/-- The plain allocator answers as the heap does. -/
theorem answer_systemRequest (w : World) (request : Request) :
    (w.systemRequest request).1 = (w.newBuffer request.size request.align).1 := by
  unfold systemRequest
  split <;> next hnew => rw [hnew]

section Answers

variable {β : Type} {f : Buffer → β}

/-- Through a ledger, only the bytes may differ from what the heap gives. -/
theorem answer_countedRequest (hf : ∀ buffer byte, f (buffer.filled byte) = f buffer) (w : World)
    (ledger : Ledger) (request : Request) :
    (w.countedRequest ledger request).1.map f =
      (w.newBuffer request.size request.align).1.map f := by
  -- zeroed memory is asked for as plain memory, of the same layout
  have hsystem := w.answer_systemRequest request.unzeroed
  rw [Request.size_unzeroed, Request.align_unzeroed] at hsystem
  rw [← hsystem]
  unfold countedRequest
  split
  · next hgranted =>
    rw [hgranted]
    refine congrArg Except.ok ?_
    split
    · exact hf _ _
    · rfl
  · next hrefused => rw [hrefused]

/-- **The answer to a request comes from the heap**, of whatever kind the allocator is, unless a
budget is used up: then the refusal is the one of a full heap. -/
theorem answer_request (hf : ∀ buffer byte, f (buffer.filled byte) = f buffer) (w : World)
    (id : AllocatorId) (request : Request) :
    (w.request id request).1 = .error (.outOfMemory request.size request.align) ∨
      (w.request id request).1.map f = (w.newBuffer request.size request.align).1.map f := by
  change (w.serve request (w.allocator id)).1 = _ ∨ (w.serve request (w.allocator id)).1.map f = _
  cases w.allocator id with
  | system => exact .inr (congrArg _ (w.answer_systemRequest request))
  | counting ledger => exact .inr (answer_countedRequest hf w ledger request)
  | failing budget ledger =>
    cases budget with
    | zero => exact .inl rfl
    | succ budget => exact .inr (answer_countedRequest hf w ledger request)
  | dirty =>
    -- a dirty buffer is that of the heap but for its bytes
    refine .inr ?_
    rw [serve]
    split
    · next hnew => rw [hnew]; exact congrArg Except.ok (hf _ _)
    · next hnew => rw [hnew]

/-- A granted buffer is like one that the heap made, but for its bytes. -/
theorem exists_newBuffer (hf : ∀ buffer byte, f (buffer.filled byte) = f buffer)
    (h : w.request id request = (.ok buffer, w')) :
    ∃ made w₁, w.newBuffer request.size request.align = (.ok made, w₁) ∧ f buffer = f made := by
  have hanswer := answer_request hf w id request
  rw [h] at hanswer
  obtain hfull | hheap := hanswer
  · cases hfull
  · rcases hnew : w.newBuffer request.size request.align with ⟨_ | made, w₁⟩ <;> rw [hnew] at hheap
    · cases hheap
    · exact ⟨made, w₁, rfl, Except.ok.inj hheap⟩

end Answers

/-- **A granted buffer has the length asked for.** -/
theorem length_of_request (h : w.request id request = (.ok buffer, w')) :
    buffer.length = request.size := by
  obtain ⟨made, w₁, hnew, hlength⟩ := exists_newBuffer Buffer.length_filled h
  exact hlength.trans (length_of_newBuffer hnew)

/-- **A granted buffer is where the heap put it**, at the alignment asked for. -/
theorem placed_of_request (h : w.request id request = (.ok buffer, w')) :
    isLayout request.size request.align = true ∧ buffer.align = request.align ∧
      w.heap.place w.requests request.size request.align = some buffer.base := by
  obtain ⟨made, w₁, hnew, hsame⟩ :=
    exists_newBuffer (f := fun buffer => (buffer.align, buffer.base)) (fun _ _ => rfl) h
  obtain ⟨halign, hbase⟩ := Prod.mk.inj hsame
  rw [halign, hbase]
  -- whatever the allocator did to the bytes, the heap placed the buffer
  unfold newBuffer at hnew
  split at hnew
  · next hlayout =>
    dsimp only at hnew
    split at hnew
    · cases hnew
    · next base hplace =>
      obtain rfl := Except.ok.inj (Prod.mk.inj hnew).1
      exact ⟨hlayout, rfl, hplace⟩
  · cases hnew

/-- The reason for a refusal is the heap's, or the one of a full heap. -/
theorem reason_of_request (h : w.request id request = (.error error, w')) :
    error = .outOfMemory request.size request.align ∨
      ∃ w₁, w.newBuffer request.size request.align = (.error error, w₁) := by
  have hanswer := answer_request Buffer.length_filled w id request
  rw [h] at hanswer
  obtain hfull | hheap := hanswer
  · exact .inl (Except.error.inj hfull)
  · rcases hnew : w.newBuffer request.size request.align with ⟨_ | made, w₁⟩ <;> rw [hnew] at hheap
    · cases hheap
      exact .inr ⟨w₁, rfl⟩
    · cases hheap

/-! The heap is the same one after every call. -/

theorem heap_newBuffer (w : World) (size align : Nat) :
    (w.newBuffer size align).2.heap = w.heap := by
  unfold newBuffer
  split
  · dsimp only
    split <;> rfl
  · rfl

private theorem heap_systemRequest (w : World) (request : Request) :
    (w.systemRequest request).2.heap = w.heap := by
  have hheap := heap_newBuffer w request.size request.align
  unfold systemRequest
  split <;> next hnew => rwa [hnew] at hheap

private theorem heap_countedRequest (w : World) (ledger : Ledger) (request : Request) :
    (w.countedRequest ledger request).2.2.heap = w.heap := by
  have hheap := heap_systemRequest w request.unzeroed
  unfold countedRequest
  split <;> next hsystem => rwa [hsystem] at hheap

private theorem heap_serve (w : World) (request : Request) (allocator : Allocator) :
    (w.serve request allocator).2.2.heap = w.heap := by
  cases allocator with
  | system => exact heap_systemRequest w request
  | counting ledger => exact heap_countedRequest w ledger request
  | failing budget ledger =>
    cases budget with
    | zero => rfl
    | succ budget => exact heap_countedRequest w ledger request
  | dirty =>
    have hheap := heap_newBuffer w request.size request.align
    rw [serve]
    split <;> next hnew => rwa [hnew] at hheap

theorem heap_request (w : World) (id : AllocatorId) (request : Request) :
    (w.request id request).2.heap = w.heap :=
  heap_serve w request (w.allocator id)

theorem heap_release (w : World) (id : AllocatorId) (buffer : Buffer) :
    (w.release id buffer).2.heap = w.heap := by
  unfold World.release
  dsimp only
  split
  · rfl
  · split <;> rfl
  · split <;> rfl
  · rfl

/-- Serving a request changes the ledger of the allocator that served it and no other. -/
private theorem ledger?_served {w₁ : World} {allocator : Allocator} (event : Event)
    (hallocators : w₁.allocators = w.allocators)
    (hsystem : w.allocator id = .system → allocator = .system) (other : AllocatorId) :
    ((w₁.setAllocator id allocator).emit event).ledger? other =
      if other = id then allocator.ledger? else w.ledger? other := by
  -- an allocator that the world does not have is a plain one, and stays one
  have hdangling : w₁.allocators.length ≤ id.index → allocator = .system := fun hle =>
    hsystem (w.allocator_of_length_le id (hallocators ▸ hle))
  rw [ledger?_emit, ledger?_setAllocator _ _ _ hdangling]
  split
  · rfl
  · rw [ledger?, ledger?, World.allocator, World.allocator, hallocators]

/-- **A granted request.** -/
theorem request_ok (h : w.request id request = (.ok buffer, w')) : w.Grants id buffer w' := by
  unfold World.request at h
  rcases hserve : w.serve request (w.allocator id) with ⟨result, allocator', w₁⟩
  rw [hserve] at h
  obtain ⟨rfl, rfl⟩ := h
  -- whichever allocator it is, what it tells of its ledger is what `serve_ok` says
  obtain ⟨hledger, hsystem, hid, hnext, hallocators, hfreed, hgrowths⟩ := serve_ok hserve
  have hlength : w.allocators.length ≤ (w₁.setAllocator id allocator').allocators.length :=
    Nat.le_of_eq (by rw [length_allocators_setAllocator, hallocators])
  refine ⟨hid, hlength, by simpa using hnext, fun other => ?_, by simpa using hfreed,
    by simpa using hgrowths⟩
  rw [ledger?_served _ hallocators hsystem, hledger]
  rfl

/-- **A refused request.** -/
theorem request_error (h : w.request id request = (.error error, w')) : w.Quiet w' := by
  have hheap : w'.heap = w.heap := by rw [← heap_request w id request, h]
  unfold World.request at h
  rcases hserve : w.serve request (w.allocator id) with ⟨result, allocator', w₁⟩
  rw [hserve] at h
  obtain ⟨rfl, rfl⟩ := h
  obtain ⟨hledger, hsystem, hnext, hallocators, hfreed, hgrowths⟩ := serve_error hserve
  have hlength : w.allocators.length ≤ (w₁.setAllocator id allocator').allocators.length :=
    Nat.le_of_eq (by rw [length_allocators_setAllocator, hallocators])
  refine ⟨⟨hlength, by simpa using hnext, fun other => ?_, by simpa using hfreed⟩,
    by simpa using hgrowths, hheap⟩
  rw [ledger?_served _ hallocators hsystem, hledger]
  -- only the allocator that was asked is written back, with the ledger that it had
  split
  · next heq => rw [heq, ledger?]
  · rfl

/-- An allocator that keeps a ledger is one of those of the world. -/
theorem index_lt_of_ledger? {ledger : Ledger} (h : w.ledger? id = some ledger) :
    id.index < w.allocators.length := by
  refine Nat.lt_of_not_le fun hle => ?_
  rw [ledger?, w.allocator_of_length_le id hle] at h
  cases h

/-- **A ledger that is there after a buffer was taken back** had the buffer struck out, or is another
allocator's and as it was. -/
theorem TakesBack.of_ledger? {other : AllocatorId} {after : Ledger} (h : w.TakesBack id buffer w')
    (hledger : w'.ledger? other = some after) :
    (other = id ∧ ∃ before, w.ledger? other = some before ∧
      before.release? buffer.id = some after) ∨
    (other ≠ id ∧ w.ledger? other = some after) := by
  by_cases heq : other = id
  · subst heq
    -- whoever keeps a ledger now kept one before
    cases hbefore : w.ledger? other with
    | none =>
      rw [h.unkept hbefore] at hledger
      cases hledger
    | some before =>
      obtain ⟨struck, hstruck, hkept⟩ := h.struck before hbefore
      obtain rfl := Option.some.inj (hkept.symm.trans hledger)
      exact .inl ⟨rfl, before, rfl, hstruck⟩
  · exact .inr ⟨heq, h.ledger other heq ▸ hledger⟩

/-- Without a ledger, taking a buffer back leaves a trace in the events only. -/
private theorem takesBack_of_unkept (h : w.ledger? id = none) :
    w.TakesBack id buffer (w.emit (.freed buffer.id)) where
  allocators := Nat.le_refl _
  nextBuffer := rfl
  struck _ hledger := by rw [h] at hledger; cases hledger
  unkept h := h
  ledger _ _ := rfl
  freed := freed_emit_freed _ _
  growths := growths_emit_freed _ _

/-- With a ledger, the buffer is struck out of it. -/
private theorem takesBack_of_kept {ledger after : Ledger} {allocator : Allocator}
    (h : w.ledger? id = some ledger) (hstruck : ledger.release? buffer.id = some after)
    (hafter : allocator.ledger? = some after) :
    w.TakesBack id buffer ((w.emit (.freed buffer.id)).setAllocator id allocator) := by
  -- an allocator with a ledger is in the world, so its state is really replaced
  have hlt := index_lt_of_ledger? h
  have hledger : ∀ other, ((w.emit (.freed buffer.id)).setAllocator id allocator).ledger? other =
      if other = id then allocator.ledger? else (w.emit (.freed buffer.id)).ledger? other :=
    fun other => ledger?_setAllocator _ _ _ fun hle => absurd hlt (Nat.not_lt.mpr hle)
  refine ⟨Nat.le_of_eq (length_allocators_setAllocator _ _ _).symm, rfl,
    fun ledger' h' => ⟨after, ?_, ?_⟩, fun h' => ?_, fun other hne => ?_, ?_, ?_⟩
  · rw [h] at h'
    obtain rfl := Option.some.inj h'
    exact hstruck
  · rw [hledger id, if_pos rfl, hafter]
  · rw [h] at h'
    cases h'
  · rw [hledger other, if_neg hne]
    rfl
  · simp
  · simp

/-- The log entry after a buffer is given back does not concern memory. -/
private theorem TakesBack.log_rawFree (h : w.TakesBack id buffer w') (size : Nat) :
    w.TakesBack id buffer (w'.log (.rawFree buffer.id size)) where
  allocators := h.allocators
  nextBuffer := h.nextBuffer
  struck := h.struck
  unkept := h.unkept
  ledger := h.ledger
  freed := (freed_log _ _).trans h.freed
  growths := (growths_log _ _).trans h.growths

/-- Nor does an entry before, unless it tells of a growth. -/
theorem TakesBack.of_log {entry : LogEntry} (h : (w.log entry).TakesBack id buffer w')
    (hentry : entry.isGrowth = false) : w.TakesBack id buffer w' where
  allocators := h.allocators
  nextBuffer := h.nextBuffer
  struck := h.struck
  unkept := h.unkept
  ledger := h.ledger
  freed := by rw [h.freed, freed_log]
  growths := by rw [h.growths, growths_log, hentry]; rfl

/-- **A buffer given back.** -/
theorem release_ok (h : w.release id buffer = (.ok (), w')) : w.TakesBack id buffer w' := by
  -- without a ledger anything is taken back, with one only what it lists
  have hunkept : ∀ kind, w.allocator id = kind → kind.ledger? = none →
      w.TakesBack id buffer (w.emit (.freed buffer.id)) := fun kind hkind hnone =>
    takesBack_of_unkept (by rw [ledger?, hkind, hnone])
  have hkept : ∀ kind ledger, w.allocator id = kind → kind.ledger? = some ledger →
      w.ledger? id = some ledger := fun kind ledger hkind hsome => by rw [ledger?, hkind, hsome]
  unfold World.release at h
  dsimp only at h
  split at h
  · next hkind =>
    obtain ⟨-, rfl⟩ := h
    exact (hunkept _ hkind rfl).log_rawFree _
  · next ledger hkind =>
    split at h
    · next after hstruck =>
      obtain ⟨-, rfl⟩ := h
      exact (takesBack_of_kept (hkept _ _ hkind rfl) hstruck rfl).log_rawFree _
    · cases h
  · next budget ledger hkind =>
    split at h
    · next after hstruck =>
      obtain ⟨-, rfl⟩ := h
      exact (takesBack_of_kept (hkept _ _ hkind rfl) hstruck rfl).log_rawFree _
    · cases h
  · next hkind =>
    obtain ⟨-, rfl⟩ := h
    exact hunkept _ hkind rfl

/-- **A buffer that is not taken back** is one that the ledger does not list. -/
theorem release_error (h : w.release id buffer = (.error fault, w')) :
    fault = .untrackedFree buffer.id ∧ w' = w.emit (.freed buffer.id) ∧
      ∃ ledger, w.ledger? id = some ledger ∧ buffer.id ∉ ledger.ids := by
  have hlisted : ∀ ledger : Ledger, ledger.release? buffer.id = none → buffer.id ∉ ledger.ids :=
    fun ledger hnone hmem => by
      -- a ledger strikes out whatever it lists
      have hsome := Ledger.release?_isSome_iff.mpr hmem
      rw [hnone] at hsome
      cases hsome
  unfold World.release at h
  dsimp only at h
  split at h
  · cases h
  · next ledger hkind =>
    split at h
    · cases h
    · next hnone =>
      obtain ⟨rfl, rfl⟩ := h
      refine ⟨rfl, rfl, ledger, ?_, hlisted ledger hnone⟩
      exact congrArg Allocator.ledger? hkind
  · next budget ledger hkind =>
    split at h
    · cases h
    · next hnone =>
      obtain ⟨rfl, rfl⟩ := h
      refine ⟨rfl, rfl, ledger, ?_, hlisted ledger hnone⟩
      exact congrArg Allocator.ledger? hkind
  · cases h

end Calls

end World

/-! ### Holders -/

/-- A buffer that somebody holds, with the allocator it came from. -/
structure Holding where
  allocator : AllocatorId
  id : BufferId
  deriving Repr, DecidableEq

/-- The numbers of the buffers that are held from one allocator. -/
def heldFrom (id : AllocatorId) (held : List Holding) : List BufferId :=
  (held.filter (·.allocator = id)).map Holding.id

section HeldFrom

variable (id : AllocatorId) (holding : Holding) (held more : List Holding)

@[simp] theorem heldFrom_nil : heldFrom id [] = [] := rfl

theorem heldFrom_cons_self (buffer : BufferId) :
    heldFrom id (⟨id, buffer⟩ :: held) = buffer :: heldFrom id held := by
  simp [heldFrom]

theorem heldFrom_cons_of_ne (h : holding.allocator ≠ id) :
    heldFrom id (holding :: held) = heldFrom id held := by
  simp [heldFrom, h]

theorem mem_heldFrom {buffer : BufferId} : buffer ∈ heldFrom id held ↔ ⟨id, buffer⟩ ∈ held := by
  rw [heldFrom, List.mem_map]
  constructor
  · rintro ⟨holding, hmem, rfl⟩
    obtain ⟨hheld, heq⟩ := List.mem_filter.mp hmem
    exact of_decide_eq_true heq ▸ hheld
  · exact fun hmem => ⟨_, List.mem_filter.mpr ⟨hmem, decide_eq_true rfl⟩, rfl⟩

@[simp] theorem heldFrom_append :
    heldFrom id (held ++ more) = heldFrom id held ++ heldFrom id more := by
  simp [heldFrom]

variable {held more} in
theorem heldFrom_perm (h : held.Perm more) : (heldFrom id held).Perm (heldFrom id more) :=
  (h.filter _).map _

end HeldFrom

namespace Pool

/-- The buffers of a pool, in the order in which its destruction gives them back: the large ones,
newest first, and then those of its blocks. -/
def buffers (pool : Pool) : List Buffer :=
  pool.large.buffers ++ pool.chain.blocks.map Block.buffer

/-- A buffer of the pool's allocator, as somebody's holding. -/
def holding (pool : Pool) (buffer : Buffer) : Holding :=
  { allocator := pool.allocator, id := buffer.id }

end Pool

/-! ### Books in order -/

/-- **The books are in order.** Every ledger lists exactly what is held from its allocator, beside
the `rest`; no buffer is held twice; and the number of the next buffer is above all of them. -/
structure Books (w : World) (held : List Holding) (rest : AllocatorId → List BufferId) : Prop where
  listed : ∀ id ledger, w.ledger? id = some ledger → ledger.ids.Perm (heldFrom id held ++ rest id)
  nodup : (held.map Holding.id).Nodup
  known : ∀ holding ∈ held, holding.id.number < w.nextBuffer

namespace Books

variable {w w' : World} {held held' : List Holding} {rest : AllocatorId → List BufferId}
  {id : AllocatorId} {buffer : Buffer}

/-- **Every world has its books in order** before anybody holds a buffer: what its ledgers list is
the rest. -/
theorem opening (w : World) : Books w [] fun id => ((w.ledger? id).map Ledger.ids).getD [] where
  listed id ledger hledger := by
    rw [hledger]
    exact .refl _
  nodup := List.nodup_nil
  known _ hmem := (List.not_mem_nil hmem).elim

/-- The order in which the account is kept does not matter. -/
theorem perm (books : Books w held rest) (h : held.Perm held') : Books w held' rest where
  listed other ledger hledger :=
    (books.listed other ledger hledger).trans ((heldFrom_perm other h).append_right _)
  nodup := (h.map Holding.id).nodup_iff.mp books.nodup
  known holding hmem := books.known holding (h.mem_iff.mpr hmem)

/-- Nothing happened to raw memory. -/
theorem same (books : Books w held rest) (h : w.SameBooks w') : Books w' held rest where
  listed other ledger hledger := books.listed other ledger (h.ledger other ▸ hledger)
  nodup := books.nodup
  known holding hmem := h.nextBuffer ▸ books.known holding hmem

/-- A granted buffer is a new one. -/
theorem not_mem_of_grants (books : Books w held rest) (h : w.Grants id buffer w') :
    ∀ holding ∈ held, holding.id ≠ buffer.id := by
  intro holding hmem heq
  have hlt := books.known holding hmem
  -- its number would be below itself
  rw [heq, h.number] at hlt
  exact Nat.lt_irrefl _ hlt

/-- **Granting keeps the books in order**, with one more buffer held. -/
theorem granted (books : Books w held rest) (h : w.Grants id buffer w') :
    Books w' (⟨id, buffer.id⟩ :: held) rest where
  listed other ledger hledger := by
    rw [h.ledger other] at hledger
    split at hledger
    · next heq =>
      subst heq
      -- the allocator that grants enters the buffer at the end, and it is held in front
      obtain ⟨before, hbefore, rfl⟩ := Option.map_eq_some_iff.mp hledger
      rw [Ledger.ids_record, heldFrom_cons_self]
      calc before.ids ++ [buffer.id]
        _ |>.Perm (buffer.id :: before.ids) := List.perm_append_singleton _ _
        _ |>.Perm _ := (books.listed other before hbefore).cons _
    · next hne =>
      rw [heldFrom_cons_of_ne _ _ _ (Ne.symm hne)]
      exact books.listed other ledger hledger
  nodup := by
    refine List.nodup_cons.mpr ⟨fun hmem => ?_, books.nodup⟩
    obtain ⟨holding, hheld, heq⟩ := List.mem_map.mp hmem
    exact books.not_mem_of_grants h holding hheld heq
  known holding hmem := by
    rw [h.nextBuffer]
    rcases List.mem_cons.mp hmem with rfl | hheld
    · rw [h.number]
      exact Nat.lt_succ_self _
    · exact Nat.lt_succ_of_lt (books.known holding hheld)

/-- **Taking back keeps the books in order**, with one buffer less held. -/
theorem released (books : Books w (⟨id, buffer.id⟩ :: held) rest) (h : w.TakesBack id buffer w') :
    Books w' held rest where
  listed other ledger hledger := by
    rcases h.of_ledger? hledger with ⟨rfl, before, hbefore, hstruck⟩ | ⟨hne, hsame⟩
    · rw [Ledger.ids_of_release? hstruck]
      -- the ledger strikes out the same number that stops being held
      have hlisted := (books.listed other before hbefore).erase buffer.id
      rw [heldFrom_cons_self, List.cons_append, List.erase_cons_head] at hlisted
      exact hlisted
    · have hlisted := books.listed other ledger hsame
      rwa [heldFrom_cons_of_ne _ _ _ (Ne.symm hne)] at hlisted
  nodup := (List.nodup_cons.mp books.nodup).2
  known holding hmem := h.nextBuffer ▸ books.known holding (List.mem_cons_of_mem _ hmem)

/-- **A buffer that is held is taken back.** -/
theorem accepts (books : Books w (⟨id, buffer.id⟩ :: held) rest) {fault : Fault}
    (h : w.release id buffer = (.error fault, w')) : False := by
  obtain ⟨-, -, ledger, hledger, hnot⟩ := World.release_error h
  refine hnot ((books.listed id ledger hledger).mem_iff.mpr ?_)
  rw [heldFrom_cons_self]
  exact List.mem_cons_self

end Books

end RegionPool
