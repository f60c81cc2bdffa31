import RegionPool.Container.GrowArray
import RegionPool.Container.PartList

/-!
# Commands

A `Command` is one thing a caller of pools does that can change something: it names the objects it
concerns by the slots in which the caller keeps them. What comes back is a `Reply`. Looking at an
object changes nothing and needs no command.

The commands come in five groups: raw allocators and buffers, pools, regions, cleanup records, and
containers.
-/

namespace RegionPool

/-- One thing a caller does. Objects are named by their slots. -/
inductive Command where
  /-- Make one more raw allocator. -/
  | addAllocator (allocator : Allocator)
  /-- Give a raw allocator that has a budget a new one. -/
  | refill (allocator : AllocatorId) (budget : Nat)
  /-- Get a buffer straight from the heap. -/
  | newBuffer (size align : Nat)
  /-- Get a buffer from a raw allocator. -/
  | requestBuffer (allocator : AllocatorId) (request : Request)
  | writeBuffer (buffer : Nat) (content : Content)
  /-- Give a buffer to a raw allocator. The caller's slot is empty afterwards in any case. -/
  | freeBuffer (allocator : AllocatorId) (buffer : Nat)
  /-- Make a pool over a raw allocator, or over a plain one of its own. -/
  | createPool (config : PoolConfig) (allocator : Option AllocatorId)
  /-- Allocate and touch regions of these sizes. -/
  | serve (pool : Nat) (sizes : List Nat)
  | reset (pool : Nat)
  | destroy (pool : Nat)
  | alloc (pool size : Nat)
  | allocUnaligned (pool size : Nat)
  | allocZeroed (pool size : Nat)
  | allocAlignedTo (pool size align : Nat)
  | free (pool region : Nat)
  /-- Keep a copy of a region in a slot of its own. -/
  | keepCopy (region : Nat)
  | write (pool region : Nat) (content : Content)
  /-- Lengthen a region in place. Its slot then holds the longer region. -/
  | extend (pool region additional : Nat)
  | reclaim (pool region : Nat)
  | copy (pool source target length : Nat)
  | addCleanup (pool dataSize : Nat)
  | onDestroy (pool : Nat) (tag : String)
  /-- Give a record an action that is told to the caller. -/
  | setCustom (pool ticket : Nat) (tag : String)
  /-- Give a record an action that is told to the caller and writes to the bytes of the record. -/
  | setWithData (pool ticket : Nat) (tag : String) (content : Content)
  /-- Make a new file and give its release to a record as its action. -/
  | setFile (pool ticket : Nat) (name : String) (kind : EntryKind) (delete : Bool)
  /-- Take the action of a record away and drop it. -/
  | disableCleanup (pool ticket : Nat)
  /-- Write to the bytes of a record. -/
  | writeCleanup (pool ticket : Nat) (content : Content)
  /-- Keep the region of a record in a slot of its own. -/
  | holdCleanupRegion (ticket : Nat)
  | runFileCleanup (pool : Nat) (descriptor : Int)
  /-- Remove a path without a pool. -/
  | unlink (path : String)
  | createArray (pool capacity elementSize : Nat)
  | initArray (pool capacity elementSize : Nat)
  /-- Append an element and write it. -/
  | pushArray (pool array : Nat) (content : Content)
  /-- Append `n` elements and write them. -/
  | pushManyArray (pool array n : Nat) (content : Content)
  /-- Write to the element at an index. -/
  | setArray (pool array index : Nat) (content : Content)
  /-- Keep a copy of an array in a slot of its own. Both denote the same elements. -/
  | cloneArray (array : Nat)
  /-- Destroy an array. The caller's slot is empty afterwards in any case. -/
  | destroyArray (pool array : Nat)
  | createList (pool : Nat) (partCapacity : PartCapacity) (elementSize : Nat)
  | initList (pool : Nat) (partCapacity : PartCapacity) (elementSize : Nat)
  /-- Append an element and write it. -/
  | pushList (pool list : Nat) (content : Content)
  /-- Keep a copy of a list in a slot of its own. Both denote the same parts. -/
  | cloneList (list : Nat)
  deriving Repr, DecidableEq

/-- What a command comes back with. New objects are named by their slots. -/
inductive Reply where
  | done
  /-- The command failed. What it did before it failed stays done. -/
  | failed (failure : Failure)
  /-- The command names an object that is not there or does not fit; nothing was done. -/
  | unavailable
  | allocator (id : AllocatorId)
  | buffer (slot : Nat)
  | pool (slot : Nat)
  | region (slot : Nat)
  | ticket (slot : Nat)
  | array (slot : Nat)
  | list (slot : Nat)
  /-- There is no region to keep. -/
  | noRegion
  | bytes (bytes : Bytes)
  /-- The bytes of an element, or nothing past the end. -/
  | element (bytes : Option Bytes)
  | number (n : Nat)
  | flag (b : Bool)
  | status (status : FreeStatus)
  /-- Whether a region was lengthened, and its length now. -/
  | extended (done : Bool) (length : Nat)
  /-- The action a record had, if any. -/
  | action (action : Option CleanupAction)
  | file (file : FileRelease)
  | removal (removal : Removal)
  deriving Repr, DecidableEq

end RegionPool
