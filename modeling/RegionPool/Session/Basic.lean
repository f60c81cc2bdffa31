import RegionPool.Session.Command

/-!
# Sessions

A `Session` is a world together with what one caller holds in it: pools, regions, cleanup tickets,
containers and raw buffers. Each kind is kept in a table to which new objects are appended, so that
a slot, once given out, always denotes the same object; objects that are used up leave an empty
slot.

* `Session.perform` runs an action on one of the pools and keeps what it did, also if it failed;
* `Session.keepRegion` and its like append to the tables.
-/

namespace RegionPool

/-- A world and what one caller holds in it. -/
structure Session where
  world : World
  /-- The slot of a destroyed pool is empty. -/
  pools : List (Option Pool) := []
  regions : List Region := []
  tickets : List CleanupTicket := []
  /-- The slot of a destroyed array is empty. -/
  arrays : List (Option GrowArray) := []
  lists : List PartList := []
  /-- The slot of a buffer that was freed is empty. -/
  buffers : List (Option Buffer) := []

namespace Session

variable {α : Type}

/-- The session of a caller who holds nothing yet. -/
def ofHeap (heap : Heap) : Session := { world := { heap } }

/-! ### Looking things up -/

/-- The pool in a slot. -/
def pool? (s : Session) (slot : Nat) : Option Pool := s.pools[slot]?.join

/-- The region in a slot. -/
def region? (s : Session) (slot : Nat) : Option Region := s.regions[slot]?

/-- The cleanup ticket in a slot. -/
def ticket? (s : Session) (slot : Nat) : Option CleanupTicket := s.tickets[slot]?

/-- The array in a slot. -/
def array? (s : Session) (slot : Nat) : Option GrowArray := s.arrays[slot]?.join

/-- The list in a slot. -/
def list? (s : Session) (slot : Nat) : Option PartList := s.lists[slot]?

/-- The raw buffer in a slot. -/
def buffer? (s : Session) (slot : Nat) : Option Buffer := s.buffers[slot]?.join

/-- Go on with what was found; if nothing was, nothing is done. -/
def withFound (s : Session) (found : Option α) (next : α → Reply × Session) : Reply × Session :=
  match found with
  | some a => next a
  | none => (.unavailable, s)

/-! ### Keeping things -/

/-- Keep a pool in a new slot. -/
def keepPool (s : Session) (pool : Pool) : Reply × Session :=
  (.pool s.pools.length, { s with pools := s.pools ++ [some pool] })

/-- Keep a region in a new slot. -/
def keepRegion (s : Session) (region : Region) : Reply × Session :=
  (.region s.regions.length, { s with regions := s.regions ++ [region] })

/-- Keep a cleanup ticket in a new slot. -/
def keepTicket (s : Session) (ticket : CleanupTicket) : Reply × Session :=
  (.ticket s.tickets.length, { s with tickets := s.tickets ++ [ticket] })

/-- Keep an array in a new slot. -/
def keepArray (s : Session) (array : GrowArray) : Reply × Session :=
  (.array s.arrays.length, { s with arrays := s.arrays ++ [some array] })

/-- Keep a list in a new slot. -/
def keepList (s : Session) (list : PartList) : Reply × Session :=
  (.list s.lists.length, { s with lists := s.lists ++ [list] })

/-- Keep a raw buffer in a new slot. -/
def keepBuffer (s : Session) (buffer : Buffer) : Reply × Session :=
  (.buffer s.buffers.length, { s with buffers := s.buffers ++ [some buffer] })

/-- The session with the pool in a slot replaced. -/
def setPool (s : Session) (slot : Nat) (pool : Option Pool) : Session :=
  { s with pools := s.pools.set slot pool }

/-- The session with the region in a slot replaced. -/
def setRegion (s : Session) (slot : Nat) (region : Region) : Session :=
  { s with regions := s.regions.set slot region }

/-- The session with the array in a slot replaced. -/
def setArray (s : Session) (slot : Nat) (array : Option GrowArray) : Session :=
  { s with arrays := s.arrays.set slot array }

/-- The session with the list in a slot replaced. -/
def setList (s : Session) (slot : Nat) (list : PartList) : Session :=
  { s with lists := s.lists.set slot list }

/-- The session with the raw buffer in a slot replaced. -/
def setBuffer (s : Session) (slot : Nat) (buffer : Option Buffer) : Session :=
  { s with buffers := s.buffers.set slot buffer }

/-! ### Acting on a pool -/

/-- The session after an action on the pool in a slot left it and the world in this state. -/
def settle (s : Session) (slot : Nat) (state : PoolState) : Session :=
  { s.setPool slot (some state.pool) with world := state.world }

/-- Run an action on the pool in a slot. What it did to the pool and to the world stays done, even
if it failed; `next` uses its result. -/
def perform (s : Session) (slot : Nat) (action : PoolM α) (next : α → Session → Reply × Session) :
    Reply × Session :=
  s.withFound (s.pool? slot) fun pool =>
    match action { pool, world := s.world } with
    | .ok a state => next a (s.settle slot state)
    | .error failure state => (.failed failure, s.settle slot state)

/-! ### Events -/

/-- The events since they were last taken, and the session without them. -/
def takeEvents (s : Session) : List Event × Session :=
  (s.world.events, { s with world := { s.world with events := [] } })

@[simp] theorem length_pools_settle (s : Session) (slot : Nat) (state : PoolState) :
    (s.settle slot state).pools.length = s.pools.length := by
  simp [settle, setPool]

/-- After an action on the pool in a slot, the slot holds the pool the action left. -/
theorem pool?_settle_self {s : Session} {slot : Nat} {pool : Pool} (h : s.pool? slot = some pool)
    (state : PoolState) : (s.settle slot state).pool? slot = some state.pool := by
  have hlt : slot < s.pools.length := Nat.lt_of_not_le fun hge => by
    simp [pool?, List.getElem?_eq_none hge] at h
  simp [pool?, settle, setPool, hlt]

/-- An action on the pool in one slot leaves the pools in the other slots alone. -/
theorem pool?_settle_of_ne (s : Session) {slot other : Nat} (h : slot ≠ other) (state : PoolState) :
    (s.settle slot state).pool? other = s.pool? other := by
  simp [pool?, settle, setPool, h]

end Session

end RegionPool
