import RegionPool.Pool.Basic

/-!
# Actions on a pool in its world

An action (`PoolM`) works on a pool and on the world around it. It ends with a result or with a
failure, and what it did before it failed stays done.

* `PoolM.request` and `PoolM.release` go to the pool's raw allocator;
* `PoolM.onPool` makes an action of a function that concerns the pool alone;
* `PoolM.orRelease` gives a buffer back if the action that was to place it is refused.
-/

namespace RegionPool

/-- A pool and the world around it. -/
structure PoolState where
  pool : Pool
  world : World

/-- An action on a pool. -/
abbrev PoolM := EStateM Failure PoolState

namespace PoolM

variable {α β : Type}

/-! ### Parts of actions -/

/-- The pool as it is. -/
def getPool : PoolM Pool := fun s => .ok s.pool s

/-- Replace the pool. -/
def setPool (pool : Pool) : PoolM Unit := fun s => .ok () { s with pool }

/-- Change the world. -/
def modifyWorld (f : World → World) : PoolM Unit := fun s => .ok () { s with world := f s.world }

/-- Enter something in the log. -/
def log (entry : LogEntry) : PoolM Unit := modifyWorld (·.log entry)

/-- End with a refusal. -/
def refuse (error : PoolError) : PoolM α := fun s => .error (.refused error) s

/-- Ask the pool's raw allocator for memory. -/
def request (request : Request) : PoolM Buffer := fun s =>
  match s.world.request s.pool.allocator request with
  | (.ok buffer, world) => .ok buffer { s with world }
  | (.error error, world) => .error (.refused (.alloc error)) { s with world }

/-- Give a buffer back to the pool's raw allocator. -/
def release (buffer : Buffer) : PoolM Unit := fun s =>
  match s.world.release s.pool.allocator buffer with
  | (.ok (), world) => .ok () { s with world }
  | (.error fault, world) => .error (.fault fault) { s with world }

/-- A function of the pool that changes nothing. -/
def ofPool (f : Pool → Except Failure α) : PoolM α := fun s =>
  match f s.pool with
  | .ok a => .ok a s
  | .error failure => .error failure s

/-- A function of the pool that changes it if it succeeds. -/
def onPool (f : Pool → Except Failure (α × Pool)) : PoolM α := fun s =>
  match f s.pool with
  | .ok (a, pool) => .ok a { s with pool }
  | .error failure => .error failure s

/-- Run an action; if it is refused, give `buffer` back before the refusal goes on. Faults go on as
they are. -/
def orRelease (buffer : Buffer) (action : PoolM α) : PoolM α := fun s =>
  match action s with
  | .error (.refused error) s => (do release buffer; refuse error : PoolM α) s
  | result => result

/-! ### Sequencing -/

theorem bind_of_ok {action : PoolM α} {next : α → PoolM β} {s t : PoolState} {a : α}
    (h : action s = .ok a t) : (action >>= next) s = next a t := by
  simp only [bind, EStateM.bind, h]

theorem bind_of_error {action : PoolM α} {next : α → PoolM β} {s t : PoolState} {failure : Failure}
    (h : action s = .error failure t) : (action >>= next) s = .error failure t := by
  simp only [bind, EStateM.bind, h]

end PoolM

end RegionPool
