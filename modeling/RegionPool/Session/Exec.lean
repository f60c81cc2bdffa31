import RegionPool.Pool.Release
import RegionPool.Session.Basic
import RegionPool.Workload

/-!
# Carrying out commands

`Session.exec` carries out one command and `Session.run` a history of them. A command that names an
object which is not there does nothing; a command that fails keeps what it did before, and gives the
caller nothing new to hold.
-/

namespace RegionPool

namespace Session

open PoolM

/-! ### Raw allocators and buffers -/

/-- Give a raw allocator that has a budget a new one. -/
def refill (s : Session) (allocator : AllocatorId) (budget : Nat) : Reply × Session :=
  s.withFound ((s.world.allocator allocator).refill? budget) fun refilled =>
    (.done, { s with world := s.world.setAllocator allocator refilled })

/-- Keep a buffer that was asked for. -/
def receiveBuffer (s : Session) : Except AllocError Buffer × World → Reply × Session
  | (.ok buffer, world) => { s with world }.keepBuffer buffer
  | (.error error, world) => (.failed (.refused (.alloc error)), { s with world })

/-- Let the caller write to a raw buffer: its bytes after. -/
def writeBuffer (s : Session) (slot : Nat) (content : Content) : Reply × Session :=
  s.withFound (s.buffer? slot) fun buffer =>
    let bytes := content.apply buffer.bytes
    (.bytes bytes, s.setBuffer slot (some (buffer.overwrite 0 bytes)))

/-- Give a raw buffer to a raw allocator. -/
def freeBuffer (s : Session) (allocator : AllocatorId) (slot : Nat) : Reply × Session :=
  s.withFound (s.buffer? slot) fun buffer =>
    let s := s.setBuffer slot none
    match s.world.release allocator buffer with
    | (.ok (), world) => (.done, { s with world })
    | (.error fault, world) => (.failed (.fault fault), { s with world })

/-! ### Pools -/

/-- Make a pool over the given raw allocator, or over a new plain one. -/
def createPool (s : Session) (config : PoolConfig) (allocator : Option AllocatorId) :
    Reply × Session :=
  let (allocator, world) := match allocator with
    | some allocator => (allocator, s.world)
    | none => s.world.addAllocator .system
  match Pool.create config allocator world with
  | (.ok pool, world) => { s with world }.keepPool pool
  | (.error error, world) => (.failed (.refused error), { s with world })

/-- Destroy a pool. Its slot is empty afterwards. -/
def destroy (s : Session) (slot : Nat) : Reply × Session :=
  let (reply, s) := s.perform slot Pool.destroy fun _ s => (.done, s)
  (reply, s.setPool slot none)

/-! ### Regions -/

/-- Run an action that allocates, and keep the region. -/
def allocate (s : Session) (pool : Nat) (action : PoolM Region) : Reply × Session :=
  s.perform pool action fun region s => s.keepRegion region

/-- Let the caller write to a region: its length. -/
def write (s : Session) (pool slot : Nat) (content : Content) : Reply × Session :=
  s.withFound (s.region? slot) fun region =>
    s.perform pool (onPool fun pool => return ((), ← pool.writeContent region content)) fun _ s =>
      (.number region.length, s)

/-- Lengthen a region in place, and keep the longer region in its slot. -/
def extend (s : Session) (pool slot additional : Nat) : Reply × Session :=
  s.withFound (s.region? slot) fun region =>
    s.perform pool (onPool (·.extend region additional)) fun extended s =>
      match extended with
      | some longer => (.extended true longer.length, s.setRegion slot longer)
      | none => (.extended false region.length, s)

/-- Copy the start of one region to another: the bytes of the other one after. -/
def copy (s : Session) (pool source target length : Nat) : Reply × Session :=
  s.withFound (s.region? source) fun source =>
    s.withFound (s.region? target) fun target =>
      let action : PoolM Bytes := do
        onPool fun pool => return ((), ← pool.copy source target length)
        ofPool (·.bytes target)
      s.perform pool action fun bytes s => (.bytes bytes, s)

/-! ### Cleanup records -/

/-- Give a record an action. -/
def setCleanup (s : Session) (pool slot : Nat) (action : CleanupAction) : Reply × Session :=
  s.withFound (s.ticket? slot) fun ticket =>
    s.perform pool (Pool.setCleanup ticket action) fun _ s => (.done, s)

/-- Make a new file and give its release to a record as its action. -/
def setFile (s : Session) (pool slot : Nat) (name : String) (kind : EntryKind) (delete : Bool) :
    Reply × Session :=
  s.withFound (s.ticket? slot) fun ticket =>
    if s.world.files.isFresh name then
      -- No file is made for a pool that is not there.
      s.withFound (s.pool? pool) fun _ =>
        let (descriptor, files) := s.world.files.create name kind
        let file : FileRelease := { descriptor, path := name, delete }
        { s with world := { s.world with files } }.perform pool
          (Pool.setCleanup ticket (.file file)) fun _ s => (.file file, s)
    else (.unavailable, s)

/-- Take the action of a record away and drop it: what it was. -/
def disableCleanup (s : Session) (pool slot : Nat) : Reply × Session :=
  s.withFound (s.ticket? slot) fun ticket =>
    let action : PoolM (Option CleanupAction) := do
      let action ← Pool.disableCleanup ticket
      modifyWorld (Pool.dropAction action)
      return action
    s.perform pool action fun action s => (.action action, s)

/-- Let the caller write to the bytes of a record: what they were before. -/
def writeCleanup (s : Session) (pool slot : Nat) (content : Content) : Reply × Session :=
  s.withFound (s.ticket? slot) fun ticket =>
    let action : PoolM Bytes := do
      let before ← ofPool (·.cleanupBytes ticket)
      match ticket.data with
      | some region => onPool fun pool => return ((), ← pool.writeContent region content)
      | none => pure ()
      return before
    s.perform pool action fun before s => (.bytes before, s)

/-- Keep the region of a record in a slot of its own, if it has one. -/
def holdCleanupRegion (s : Session) (slot : Nat) : Reply × Session :=
  s.withFound (s.ticket? slot) fun ticket =>
    match ticket.data with
    | some region => s.keepRegion region
    | none => (.noRegion, s)

/-- Remove a path without a pool. -/
def unlink (s : Session) (path : String) : Reply × Session :=
  let (removal, files) := s.world.files.remove path
  (.removal removal, { s with world := { s.world with files } })

/-! ### Containers -/

/-- Append to an array and write what was appended: the bytes that were there before. An array that
could not be lengthened stays as it was. -/
def pushArray (s : Session) (pool slot : Nat)
    (push : GrowArray → PoolM (Slot × GrowArray)) (content : Content) : Reply × Session :=
  s.withFound (s.array? slot) fun array =>
    let action : PoolM (Bytes × GrowArray) := do
      let (appended, array) ← push array
      -- The caller reads its slot once before it writes.
      return (← appended.fill content, array)
    s.perform pool action fun (before, array) s => (.bytes before, s.setArray slot (some array))

/-- Let the caller write to an element of an array: its bytes after. -/
def setElement (s : Session) (pool slot index : Nat) (content : Content) : Reply × Session :=
  s.withFound (s.array? slot) fun array =>
    s.perform pool (onPool (array.set? index content)) fun bytes s => (.element bytes, s)

/-- Destroy an array: the number of bytes given back. Its slot is empty afterwards. -/
def destroyArray (s : Session) (pool slot : Nat) : Reply × Session :=
  s.withFound (s.pool? pool) fun _ =>
    s.withFound (s.array? slot) fun array =>
      (s.setArray slot none).perform pool array.destroy fun reclaimed s => (.number reclaimed, s)

/-- Append an element to a list and write it: the bytes that were there before. A list that could
not be lengthened stays as it was. -/
def pushList (s : Session) (pool slot : Nat) (content : Content) : Reply × Session :=
  s.withFound (s.list? slot) fun list =>
    let action : PoolM (Bytes × PartList) := do
      let (appended, list) ← list.push
      return (← appended.fill content, list)
    s.perform pool action fun (before, list) s => (.bytes before, s.setList slot list)

/-! ### Commands and histories -/

/-- Carry out one command. -/
def exec (s : Session) : Command → Reply × Session
  | .addAllocator allocator =>
    let (id, world) := s.world.addAllocator allocator
    (.allocator id, { s with world })
  | .refill allocator budget => s.refill allocator budget
  | .newBuffer size align => s.receiveBuffer (s.world.newBuffer size align)
  | .requestBuffer allocator request => s.receiveBuffer (s.world.request allocator request)
  | .writeBuffer buffer content => s.writeBuffer buffer content
  | .freeBuffer allocator buffer => s.freeBuffer allocator buffer
  | .createPool config allocator => s.createPool config allocator
  | .serve pool sizes => s.perform pool (Pool.serve sizes) fun total s => (.number total, s)
  | .reset pool => s.perform pool Pool.reset fun _ s => (.done, s)
  | .destroy pool => s.destroy pool
  | .alloc pool size => s.allocate pool (Pool.alloc size)
  | .allocUnaligned pool size => s.allocate pool (Pool.allocUnaligned size)
  | .allocZeroed pool size => s.allocate pool (Pool.allocZeroed size)
  | .allocAlignedTo pool size align => s.allocate pool (Pool.allocAlignedTo size align)
  | .free pool region =>
    s.withFound (s.region? region) fun region =>
      s.perform pool (Pool.free region) fun status s => (.status status, s)
  | .keepCopy region => s.withFound (s.region? region) s.keepRegion
  | .write pool region content => s.write pool region content
  | .extend pool region additional => s.extend pool region additional
  | .reclaim pool region =>
    s.withFound (s.region? region) fun region =>
      s.perform pool (onPool (·.reclaim region)) fun done s => (.flag done, s)
  | .copy pool source target length => s.copy pool source target length
  | .addCleanup pool dataSize =>
    s.perform pool (Pool.addCleanup dataSize) fun ticket s => s.keepTicket ticket
  | .onDestroy pool tag => s.perform pool (Pool.onDestroy tag) fun ticket s => s.keepTicket ticket
  | .setCustom pool ticket tag => s.setCleanup pool ticket (.custom tag)
  | .setWithData pool ticket tag content => s.setCleanup pool ticket (.withData tag content)
  | .setFile pool ticket name kind delete => s.setFile pool ticket name kind delete
  | .disableCleanup pool ticket => s.disableCleanup pool ticket
  | .writeCleanup pool ticket content => s.writeCleanup pool ticket content
  | .holdCleanupRegion ticket => s.holdCleanupRegion ticket
  | .runFileCleanup pool descriptor =>
    s.perform pool (Pool.runFileCleanup descriptor) fun done s => (.flag done, s)
  | .unlink path => s.unlink path
  | .createArray pool capacity elementSize =>
    s.perform pool (GrowArray.create capacity elementSize) fun array s => s.keepArray array
  | .initArray pool capacity elementSize =>
    s.perform pool (GrowArray.init capacity elementSize) fun array s => s.keepArray array
  | .pushArray pool array content => s.pushArray pool array GrowArray.push content
  | .pushManyArray pool array n content => s.pushArray pool array (·.pushMany n) content
  | .setArray pool array index content => s.setElement pool array index content
  | .cloneArray array => s.withFound (s.array? array) s.keepArray
  | .destroyArray pool array => s.destroyArray pool array
  | .createList pool partCapacity elementSize =>
    s.perform pool (PartList.create partCapacity elementSize) fun list s => s.keepList list
  | .initList pool partCapacity elementSize =>
    s.perform pool (PartList.init partCapacity elementSize) fun list s => s.keepList list
  | .pushList pool list content => s.pushList pool list content
  | .cloneList list => s.withFound (s.list? list) s.keepList

/-- Carry out commands one after the other: the replies, and the session after the last one. -/
def run (s : Session) : List Command → List Reply × Session
  | [] => ([], s)
  | command :: history =>
    let (reply, s) := s.exec command
    let (replies, s) := s.run history
    (reply :: replies, s)

@[simp] theorem run_nil (s : Session) : s.run [] = ([], s) := rfl

@[simp] theorem run_cons (s : Session) (command : Command) (history : List Command) :
    s.run (command :: history) =
      ((s.exec command).1 :: ((s.exec command).2.run history).1,
        ((s.exec command).2.run history).2) := rfl

/-- A history in two parts is the first part and then the second. -/
theorem run_append (s : Session) (first second : List Command) :
    s.run (first ++ second) =
      ((s.run first).1 ++ ((s.run first).2.run second).1, ((s.run first).2.run second).2) := by
  induction first generalizing s with
  | nil => rfl
  | cons command first ih => simp [ih]

end Session

end RegionPool
