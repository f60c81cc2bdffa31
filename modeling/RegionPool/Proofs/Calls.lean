import RegionPool.Proofs.Worlds

/-!
# Calls to a raw allocator, with their answers

An event tells that a raw allocator was asked and which buffer it granted, but not why it refused.
A `RawCall` keeps the whole answer, and `World.Calls` says that one world came from another by these
calls to one allocator, in this order, and by nothing else but entries in the log.

* `Calls.append`, `Calls.calm` — calls one after the other, which run no cleanup action;
* `Calls.rawCalls` — the events of a stretch of calls are those of the calls;
* `Calls.ledger` — a ledger lists afterwards what it listed before and what was granted, except for
  what was given back; ledgers of other allocators are not concerned;
* `World.release_of_listed` — a buffer that the ledger lists is taken back.
-/

namespace RegionPool

/-- **A call to a raw allocator**, with its answer. -/
inductive RawCall where
  /-- The allocator was asked for memory. -/
  | asked (request : Request) (answer : Except AllocError Buffer)
  /-- The allocator took a buffer back. -/
  | gaveBack (buffer : Buffer)
  deriving Repr, DecidableEq

namespace RawCall

/-- The event that a call leaves. -/
def event : RawCall → Event
  | .asked request (.ok buffer) => .requested request (some buffer.id)
  | .asked request (.error _) => .requested request none
  | .gaveBack buffer => .freed buffer.id

/-- The buffer that a call granted. -/
def granted? : RawCall → Option BufferId
  | .asked _ (.ok buffer) => some buffer.id
  | _ => none

/-- The buffer that a call gave back. -/
def returned? : RawCall → Option BufferId
  | .gaveBack buffer => some buffer.id
  | _ => none

/-- The buffers that were granted, in order. -/
def granted (calls : List RawCall) : List BufferId := calls.filterMap granted?

/-- The buffers that were given back, in order. -/
def returned (calls : List RawCall) : List BufferId := calls.filterMap returned?

/-- Whether one of the calls was refused for this reason. -/
def Refused (calls : List RawCall) (error : AllocError) : Prop :=
  ∃ request, .asked request (.error error) ∈ calls

@[simp] theorem granted_append (calls more : List RawCall) :
    granted (calls ++ more) = granted calls ++ granted more := List.filterMap_append

@[simp] theorem returned_append (calls more : List RawCall) :
    returned (calls ++ more) = returned calls ++ returned more := List.filterMap_append

theorem Refused.append_right {calls : List RawCall} {error : AllocError} (h : Refused calls error)
    (before : List RawCall) : Refused (before ++ calls) error := by
  obtain ⟨request, hmem⟩ := h
  exact ⟨request, List.mem_append_right _ hmem⟩

end RawCall

namespace World

section Events

variable {w w' : World} {id : AllocatorId} {request : Request}
  {answer : Except AllocError Buffer} {buffer : Buffer} {told : List Event}

/-- Entries in the log are no calls. -/
private theorem filter_isRawCall_of_isRawEntry (h : ∀ event ∈ told, event.isRawEntry) :
    told.filter Event.isRawCall = [] := by
  refine List.filter_eq_nil_iff.mpr fun event hmem hcall => ?_
  have hentry := h event hmem
  cases event <;> simp_all [Event.isRawEntry, Event.isRawCall]

/-- A request is one call, whatever comes of it. -/
theorem rawCalls_request (h : w.request id request = (answer, w')) :
    w'.rawCalls = w.rawCalls ++ [(RawCall.asked request answer).event] := by
  obtain ⟨told, htells, hraw⟩ := request_tells h
  rw [rawCalls, htells.events, List.filter_append, List.filter_append,
    filter_isRawCall_of_isRawEntry hraw, List.nil_append, rawCalls]
  rcases answer with error | buffer <;> rfl

/-- So is giving a buffer back. -/
theorem rawCalls_release (h : w.release id buffer = (.ok (), w')) :
    w'.rawCalls = w.rawCalls ++ [(RawCall.gaveBack buffer).event] := by
  obtain ⟨told, htells, hraw⟩ := release_tells h
  rw [rawCalls, htells.events, List.filter_append, List.filter_cons_of_pos rfl,
    filter_isRawCall_of_isRawEntry hraw, rawCalls]
  rfl

end Events

/-! ### Calls one after the other -/

/-- **One world came from another by calls** to the raw allocator of this number. Entries in the log
come in between and do not count, unless they tell of a cleanup action. -/
inductive Calls (id : AllocatorId) : World → List RawCall → World → Prop
  | nil (w : World) : Calls id w [] w
  | log {w w' calls} {entry : LogEntry} (quiet : (Event.logged entry).ran? = none)
      (rest : Calls id (w.log entry) calls w') : Calls id w calls w'
  | ask {w w₁ w' request answer calls} (call : w.request id request = (answer, w₁))
      (rest : Calls id w₁ calls w') : Calls id w (.asked request answer :: calls) w'
  | giveBack {w w₁ w' buffer calls} (call : w.release id buffer = (.ok (), w₁))
      (rest : Calls id w₁ calls w') : Calls id w (.gaveBack buffer :: calls) w'

namespace Calls

variable {id : AllocatorId} {w w₁ w' : World} {calls more : List RawCall} {request : Request}
  {answer : Except AllocError Buffer} {buffer : Buffer}

/-- **Calls one after the other.** -/
theorem append (h : Calls id w calls w₁) (h' : Calls id w₁ more w') :
    Calls id w (calls ++ more) w' := by
  induction h with
  | nil => exact h'
  | log quiet _ ih => exact .log quiet (ih h')
  | ask call _ ih => exact .ask call (ih h')
  | giveBack call _ ih => exact .giveBack call (ih h')

/-- One request. -/
theorem one_request (call : w.request id request = (answer, w')) :
    Calls id w [.asked request answer] w' :=
  .ask call (.nil w')

/-- One buffer given back. -/
theorem one_release (call : w.release id buffer = (.ok (), w')) :
    Calls id w [.gaveBack buffer] w' :=
  .giveBack call (.nil w')

/-- An entry in the log afterwards. -/
theorem logged {entry : LogEntry} (h : Calls id w calls w')
    (quiet : (Event.logged entry).ran? = none) : Calls id w calls (w'.log entry) := by
  have h' := h.append (.log quiet (.nil (w'.log entry)))
  rwa [List.append_nil] at h'

/-- **Calls leave a world calm.** -/
theorem calm (h : Calls id w calls w') : w.Calm w' := by
  induction h with
  | nil w => exact .refl w
  | log quiet _ ih => exact (Calm.log _ quiet).trans ih
  | ask call _ ih => exact (Calm.request call).trans ih
  | giveBack call _ ih => exact (Calm.release call).trans ih

/-- **The events of a stretch of calls** are those of the calls. -/
theorem rawCalls (h : Calls id w calls w') :
    w'.rawCalls = w.rawCalls ++ calls.map RawCall.event := by
  induction h with
  | nil => exact (List.append_nil _).symm
  | log _ _ ih => rw [ih, rawCalls_log]
  | ask call _ ih => rw [ih, rawCalls_request call, List.append_assoc]; rfl
  | giveBack call _ ih => rw [ih, rawCalls_release call, List.append_assoc]; rfl

/-- **What a ledger lists after a stretch of calls**: what it listed, and what was granted, except
for what was given back. -/
theorem ledger (h : Calls id w calls w') :
    (∀ before, w.ledger? id = some before → ∃ after, w'.ledger? id = some after ∧
      (after.ids ++ RawCall.returned calls).Perm (before.ids ++ RawCall.granted calls)) ∧
      ∀ other, other ≠ id → w'.ledger? other = w.ledger? other := by
  induction h with
  | nil w => exact ⟨fun before hbefore => ⟨before, hbefore, .refl _⟩, fun _ _ => rfl⟩
  | log _ _ ih => exact ih
  | @ask w w₁ w' request answer calls call _ ih =>
    obtain ⟨ihself, ihothers⟩ := ih
    cases answer with
    | error error =>
      -- a refusal leaves every ledger as it is
      have hquiet := request_error call
      exact ⟨fun before hbefore => ihself before ((hquiet.ledger id).trans hbefore),
        fun other hne => (ihothers other hne).trans (hquiet.ledger other)⟩
    | ok buffer =>
      have hgrants := request_ok call
      refine ⟨fun before hbefore => ?_, fun other hne => ?_⟩
      · have hrecorded : w₁.ledger? id = some (before.record buffer) := by
          rw [hgrants.ledger id, if_pos rfl, hbefore]
          rfl
        obtain ⟨after, hafter, hperm⟩ := ihself _ hrecorded
        refine ⟨after, hafter, hperm.trans ?_⟩
        rw [Ledger.ids_record, List.append_assoc]
        rfl
      · rw [ihothers other hne, hgrants.ledger other, if_neg hne]
  | @giveBack w w₁ w' buffer calls call _ ih =>
    obtain ⟨ihself, ihothers⟩ := ih
    have hback := release_ok call
    refine ⟨fun before hbefore => ?_, fun other hne => ?_⟩
    · -- the buffer is struck out, so it was listed
      obtain ⟨struck, hstruck, hledger⟩ := hback.struck before hbefore
      obtain ⟨after, hafter, hperm⟩ := ihself struck hledger
      refine ⟨after, hafter, ?_⟩
      have hlisted := Ledger.mem_ids_of_release? hstruck
      rw [Ledger.ids_of_release? hstruck] at hperm
      calc after.ids ++ RawCall.returned (.gaveBack buffer :: calls)
        _ |>.Perm (buffer.id :: (after.ids ++ RawCall.returned calls)) := List.perm_middle
        _ |>.Perm (buffer.id :: (before.ids.erase buffer.id ++ RawCall.granted calls)) :=
          hperm.cons _
        _ |>.Perm (before.ids ++ RawCall.granted calls) :=
          ((List.perm_cons_erase hlisted).symm).append_right _
    · exact (ihothers other hne).trans (hback.ledger other hne)

/-- An allocator that keeps no ledger does not begin one. -/
theorem ledger?_eq_none (h : Calls id w calls w') (hnone : w.ledger? id = none) :
    w'.ledger? id = none := by
  induction h with
  | nil => exact hnone
  | log _ _ ih => exact ih hnone
  | @ask w w₁ w' request answer calls call _ ih =>
    refine ih ?_
    cases answer with
    | error error => rw [(request_error call).ledger, hnone]
    | ok buffer => rw [(request_ok call).ledger, if_pos rfl, hnone, Option.map_none]
  | giveBack call _ ih => exact ih ((release_ok call).unkept hnone)

end Calls

/-- **A buffer that is listed is taken back.** -/
theorem release_of_listed {w : World} {id : AllocatorId} {buffer : Buffer}
    (h : ∀ ledger, w.ledger? id = some ledger → buffer.id ∈ ledger.ids) :
    ∃ w', w.release id buffer = (.ok (), w') := by
  rcases hcall : w.release id buffer with ⟨fault | ⟨⟩, w'⟩
  · obtain ⟨-, -, ledger, hledger, hnot⟩ := release_error hcall
    exact absurd (h ledger hledger) hnot
  · exact ⟨w', rfl⟩

end World

end RegionPool
