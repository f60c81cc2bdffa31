import RegionPool.Raw.Buffer

/-!
# Large buffers

Requests that no block is meant to serve get a raw buffer of their own. The pool keeps one slot for
each. Giving a buffer back empties its slot; a later buffer may take an empty slot if it is among
the few newest ones, so that a pool under a steady load does not collect slots.

* `LargeTable.reuse?` puts a buffer into the newest empty slot within reach;
* `LargeTable.push` makes a new slot for it;
* `LargeTable.find?` and `LargeTable.take?` look a buffer up by its number and take it out.
-/

namespace RegionPool

/-- The slots for large buffers, oldest first. -/
structure LargeTable where
  slots : List (Option Buffer) := []
  deriving Repr, DecidableEq

namespace LargeTable

/-- How many slots, from the newest on, are looked at for an empty one. -/
def scanLimit : Nat := 4

/-- The indices of the slots within reach for reuse, newest first. -/
def reach (table : LargeTable) : List Nat := (List.range table.slots.length).reverse.take scanLimit

/-- Put a buffer into the newest empty slot within reach, if there is one. -/
def reuse? (table : LargeTable) (buffer : Buffer) : Option LargeTable :=
  (table.reach.find? fun index => table.slots[index]? == some none).map fun index =>
    { slots := table.slots.set index (some buffer) }

/-- Make a new slot for a buffer. -/
def push (table : LargeTable) (buffer : Buffer) : LargeTable :=
  { slots := table.slots ++ [some buffer] }

/-- Whether slot `index` holds the buffer of this number. -/
def holds (table : LargeTable) (id : BufferId) (index : Nat) : Bool :=
  match table.slots[index]? with
  | some (some buffer) => buffer.id == id
  | _ => false

/-- The newest slot that holds the buffer of this number. -/
def position? (table : LargeTable) (id : BufferId) : Option Nat :=
  (List.range table.slots.length).reverse.find? (table.holds id)

/-- The buffer in slot `index`. -/
def get? (table : LargeTable) (index : Nat) : Option Buffer := table.slots[index]?.join

/-- The buffer of this number. -/
def find? (table : LargeTable) (id : BufferId) : Option Buffer :=
  (table.position? id).bind table.get?

/-- The table with slot `index` replaced. -/
def set (table : LargeTable) (index : Nat) (buffer : Option Buffer) : LargeTable :=
  { slots := table.slots.set index buffer }

/-- The table with the bytes of the buffer in slot `index` replaced from `offset` on. -/
def overwrite (table : LargeTable) (index offset : Nat) (data : Bytes) : LargeTable :=
  { slots := table.slots.modify index (·.map (·.overwrite offset data)) }

/-- Take the buffer of this number out of its slot, which stays and is empty. -/
def take? (table : LargeTable) (id : BufferId) : Option (Buffer × LargeTable) :=
  match table.position? id with
  | none => none
  | some index => (table.get? index).map fun buffer => (buffer, table.set index none)

/-- The buffers in the slots, newest first. -/
def buffers (table : LargeTable) : List Buffer := table.slots.reverse.filterMap id

/-- The table with every slot empty. -/
def emptied (table : LargeTable) : LargeTable := { slots := table.slots.map fun _ => none }

/-- The number of slots. -/
def count (table : LargeTable) : Nat := table.slots.length

/-- The number of slots that hold a buffer. -/
def live (table : LargeTable) : Nat := table.slots.countP Option.isSome

@[simp] theorem count_push (table : LargeTable) (buffer : Buffer) :
    (table.push buffer).count = table.count + 1 := by
  simp [count, push]

@[simp] theorem count_set (table : LargeTable) (index : Nat) (buffer : Option Buffer) :
    (table.set index buffer).count = table.count := by
  simp [count, set]

@[simp] theorem count_overwrite (table : LargeTable) (index offset : Nat) (data : Bytes) :
    (table.overwrite index offset data).count = table.count := by
  simp [count, overwrite]

@[simp] theorem count_emptied (table : LargeTable) : table.emptied.count = table.count := by
  simp [count, emptied]

@[simp] theorem buffers_emptied (table : LargeTable) : table.emptied.buffers = [] := by
  simp [buffers, emptied]

end LargeTable

end RegionPool
