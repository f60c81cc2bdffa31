import RegionPool.Pool.Alloc

/-!
# Cleanup, reset and destruction

What a pool holds is released in three ways. A cleanup record may be run ahead of time, if it is
that of a file. A reset gives every large buffer back and frees every block, but keeps the blocks,
the slots and the cleanup records. Destruction runs the cleanup actions, the newest record first,
and then gives everything back.

* `Pool.addCleanup`, `Pool.setCleanup`, `Pool.disableCleanup`: records and their actions;
* `Pool.runFileCleanup`: one file, ahead of time;
* `Pool.reset` and `Pool.destroy`.
-/

namespace RegionPool.Pool

open PoolM

/-! ### Cleanup records -/

/-- Register a cleanup record that owns `dataSize` bytes. The record is reserved before the
bytes. -/
def addCleanup (dataSize : Nat) : PoolM CleanupTicket := do
  discard <| allocSmall Layout.cleanupRecordSize .aligned
  -- If there is no room for the bytes, the room of the record stays claimed.
  let data ← if dataSize = 0 then pure none else some <$> alloc dataSize
  let pool ← getPool
  let index := pool.cleanups.count
  setPool { pool with cleanups := pool.cleanups.push data }
  log (.addCleanup pool.label index dataSize)
  return { pool := pool.id, index, data }

/-- The record a ticket refers to. -/
def cleanupRecord (pool : Pool) (ticket : CleanupTicket) : Except Failure CleanupRecord :=
  if ticket.pool ≠ pool.id then .error (.refused .foreignAllocation)
  else
    match pool.cleanups.records[ticket.index]? with
    | some record => .ok record
    | none => .error (.refused (.unknownCleanup ticket.index))

/-- Drop an action that will not run. A file is closed; its path stays. -/
def dropAction (action : Option CleanupAction) (w : World) : World :=
  match action.bind CleanupAction.file? with
  | some file => w.closeFile file
  | none => w

/-- Give a record its action. The action it had, or the new one if there is no such record, is
dropped. -/
def setCleanup (ticket : CleanupTicket) (action : CleanupAction) : PoolM Unit := do
  let pool ← getPool
  match pool.cleanupRecord ticket with
  | .ok record =>
    setPool { pool with cleanups := pool.cleanups.setAction ticket.index (some action) }
    modifyWorld (dropAction record.action)
  | .error failure =>
    -- The action was handed over for good, so it ends here.
    modifyWorld (dropAction (some action))
    throw failure

/-- Take the action of a record away. It is handed to the caller. -/
def disableCleanup (ticket : CleanupTicket) : PoolM (Option CleanupAction) := do
  let record ← ofPool (·.cleanupRecord ticket)
  let pool ← getPool
  setPool { pool with cleanups := pool.cleanups.setAction ticket.index none }
  return record.action

/-- Register a record without bytes and give it an action of the caller's. -/
def onDestroy (tag : String) : PoolM CleanupTicket := do
  let ticket ← addCleanup 0
  setCleanup ticket (.custom tag)
  return ticket

/-- The bytes a record owns; none if it owns no region. -/
def cleanupBytes (pool : Pool) (ticket : CleanupTicket) : Except Failure Bytes :=
  if ticket.pool ≠ pool.id then .error (.refused .foreignAllocation)
  else
    match ticket.data with
    | some region => pool.bytes region
    | none => .ok []

/-- Release the file of a descriptor now, by the newest record that would release it: whether there
was one. -/
def runFileCleanup (descriptor : Int) : PoolM Bool := do
  let pool ← getPool
  match pool.cleanups.takeFile? descriptor with
  | none => return false
  | some (file, cleanups) =>
    setPool { pool with cleanups }
    modifyWorld (·.releaseFile file)
    return true

/-! ### Reset -/

/-- Give every large buffer back, newest first, and free every block. Regions handed out before are
stale from now on. -/
def reset : PoolM Unit := do
  let pool ← getPool
  setPool { pool with large := pool.large.emptied }
  pool.large.buffers.forM release
  -- Cleanup records and their actions outlive a reset.
  let pool ← getPool
  let pool :=
    { pool with
      chain := pool.chain.reset
      generation := (pool.generation + 1) % 2 ^ (32 : Nat) }
  setPool pool
  log (.resetPool pool.label pool.generation)

/-! ### Destruction -/

/-- Run the action of a cleanup record. One that is given the bytes of the record gets those that
are still there, and writes to them. -/
def runAction (data : Option Region) : CleanupAction → PoolM Unit
  | .custom tag => modifyWorld (·.emit (.ranCustom tag))
  | .file file => modifyWorld (·.releaseFile file)
  | .withData tag content => do
    let pool ← getPool
    match data.bind pool.bytesAnyGeneration? with
    | none => modifyWorld (·.emit (.ranWithData tag []))
    | some (store, offset, bytes) =>
      -- The caller is told what the bytes are before it writes to them.
      modifyWorld (·.emit (.ranWithData tag bytes))
      setPool (pool.overwrite store offset (content.apply bytes))

/-- Run a cleanup record, if it has an action. -/
def runRecord (record : CleanupRecord) : PoolM Unit :=
  match record.action with
  | none => pure ()
  | some action => do
    log (.runCleanup (← getPool).label)
    runAction record.data action

/-- Run the cleanup records, newest first. None is left. -/
def runCleanups : PoolM Unit := do
  let pool ← getPool
  -- The records are taken out first: an action that runs finds none of them.
  setPool { pool with cleanups := {} }
  pool.cleanups.records.reverse.forM runRecord

/-- Give the large buffers back, newest first. -/
def releaseLarge : PoolM Unit := do
  let pool ← getPool
  setPool { pool with large := pool.large.emptied }
  pool.large.buffers.forM fun buffer => do
    log (.freeLarge pool.label buffer.id)
    release buffer

/-- Give the blocks back, oldest first. -/
def releaseBlocks : PoolM Unit := do
  let pool ← getPool
  setPool { pool with chain := { blocks := [] } }
  pool.chain.blocks.forM fun block => do
    log (.freeBlock pool.label block.stats.unused)
    release block.buffer

/-- Destroy the pool. -/
def destroy : PoolM Unit := do
  let pool ← getPool
  log (.destroyPool pool.label pool.id.text)
  runCleanups
  releaseLarge
  releaseBlocks

end RegionPool.Pool
