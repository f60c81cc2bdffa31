import RegionPool.Raw.Buffer

/-!
# Ledgers of live buffers

A ledger keeps the buffers an allocator has handed out and not yet got back, in the order in which
they were handed out, and counts both events.

* `record` enters a buffer, `release?` strikes one out, if it is there;
* `ids_record` and `ids_of_release?` say what they do to the numbers of the live buffers, and
  `counts_of_release?` what striking out does to the counts.
-/

namespace RegionPool

/-- The live buffers of an allocator, with their lengths, and how many were handed out and got back
so far. -/
structure Ledger where
  /-- Oldest first. -/
  live : List (BufferId × Nat) := []
  allocations : Nat := 0
  frees : Nat := 0
  deriving Repr, DecidableEq

namespace Ledger

/-- The numbers of the live buffers, oldest first. -/
def ids (ledger : Ledger) : List BufferId := ledger.live.map (·.1)

/-- The lengths of the live buffers, oldest first. -/
def sizes (ledger : Ledger) : List Nat := ledger.live.map (·.2)

/-- The number of bytes in live buffers. -/
def bytes (ledger : Ledger) : Nat := ledger.sizes.sum

/-- Whether the buffer of this number is live. -/
def isLive (ledger : Ledger) (id : BufferId) : Bool := ledger.ids.contains id

/-- Enter a buffer that was handed out. -/
def record (ledger : Ledger) (buffer : Buffer) : Ledger :=
  { ledger with
    live := ledger.live ++ [(buffer.id, buffer.length)]
    allocations := ledger.allocations + 1 }

/-- Strike out a buffer that was got back; nothing if the ledger does not hold it. -/
def release? (ledger : Ledger) (id : BufferId) : Option Ledger :=
  if ledger.isLive id then
    some { ledger with
      live := ledger.live.eraseP (fun entry => entry.1 == id)
      frees := ledger.frees + 1 }
  else none

@[simp] theorem ids_record (ledger : Ledger) (buffer : Buffer) :
    (ledger.record buffer).ids = ledger.ids ++ [buffer.id] := by
  simp [ids, record]

theorem release?_isSome_iff {ledger : Ledger} {id : BufferId} :
    (ledger.release? id).isSome ↔ id ∈ ledger.ids := by
  unfold release? isLive
  split <;> simp_all

theorem ids_of_release? {ledger after : Ledger} {id : BufferId}
    (h : ledger.release? id = some after) : after.ids = ledger.ids.erase id := by
  unfold release? at h
  split at h
  · cases h
    have hp : (fun entry : BufferId × Nat => entry.1 == id) = (id == ·) ∘ (·.1) :=
      funext fun entry => Bool.beq_comm
    rw [ids, ids, List.erase_eq_eraseP, List.eraseP_map, ← hp]
  · cases h

/-- What is struck out was listed. -/
theorem mem_ids_of_release? {ledger after : Ledger} {id : BufferId}
    (h : ledger.release? id = some after) : id ∈ ledger.ids :=
  release?_isSome_iff.mp (Option.isSome_iff_exists.mpr ⟨after, h⟩)

/-- Striking a buffer out is counted, and one buffer less is live. -/
theorem counts_of_release? {ledger after : Ledger} {id : BufferId}
    (h : ledger.release? id = some after) : after.allocations = ledger.allocations ∧
      after.frees = ledger.frees + 1 ∧ ledger.live.length = after.live.length + 1 := by
  -- erasing one of the numbers makes the list one shorter
  have hlength : after.live.length + 1 = ledger.live.length := by
    have hids := congrArg List.length (ids_of_release? h)
    have hmem := mem_ids_of_release? h
    have hpos := List.length_pos_of_mem hmem
    rw [List.length_erase_of_mem hmem] at hids
    simp only [ids, List.length_map] at hids hpos
    omega
  unfold release? at h
  split at h
  · cases h
    exact ⟨rfl, rfl, hlength.symm⟩
  · cases h

end Ledger

end RegionPool
