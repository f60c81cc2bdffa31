import RegionPool.Raw.Buffer

/-!
# Reasons an operation fails

An operation ends in one of three ways: with a result, with a *refusal* (`PoolError`), which is part
of its contract, or with a *fault* (`Fault`), which a caller brings about by breaking a rule of the
interface. Each reason is a constructor; its wording is in one place, the function `message`.
-/

namespace RegionPool

/-- Why the raw allocator refuses a request. The request is reported as it was asked for. -/
inductive AllocError where
  /-- The heap has no memory for the request. -/
  | outOfMemory (size align : Nat)
  /-- No memory layout has this size and alignment. -/
  | invalidLayout (size align : Nat)
  deriving Repr, DecidableEq

/-- Why a configuration is rejected. -/
inductive ConfigError where
  /-- A block could not hold the pool header and its first records. -/
  | sizeTooSmall (size min : Nat)
  /-- The pool's own records would not count as small requests. -/
  | maxAllocTooSmall (maxAlloc min : Nat)
  deriving Repr, DecidableEq

/-- Why a pool refuses an operation. -/
inductive PoolError where
  /-- The raw allocator refused a block, a large buffer or an aligned buffer. -/
  | alloc (error : AllocError)
  /-- The configuration was rejected. -/
  | config (error : ConfigError)
  /-- The alignment asked for is not a power of two. -/
  | invalidAlignment (align : Nat)
  /-- The size of a request is not a machine word. -/
  | sizeOverflow
  /-- The region was handed out before the last reset. -/
  | staleAllocation (regionGeneration poolGeneration : Nat)
  /-- The region was handed out by another pool. -/
  | foreignAllocation
  /-- The large buffer of the region was given back. -/
  | unknownAllocation
  /-- The pool has no cleanup record of this index. -/
  | unknownCleanup (index : Nat)
  deriving Repr, DecidableEq

/-- A broken rule of the interface: the caller, not the pool, is at fault. -/
inductive Fault where
  /-- More bytes were to be copied than one of the regions has. -/
  | copyTooLong (length source destination : Nat)
  /-- A buffer was freed to a ledger that does not hold it. -/
  | untrackedFree (buffer : BufferId)
  /-- An access outside the memory it names. -/
  | outOfRange
  deriving Repr, DecidableEq

/-- How an operation ends without a result. -/
inductive Failure where
  /-- The pool refused. -/
  | refused (error : PoolError)
  /-- A rule of the interface was broken. -/
  | fault (fault : Fault)
  deriving Repr, DecidableEq

/-! ### Wording -/

/-- The size that was asked for. -/
def AllocError.size : AllocError → Nat
  | .outOfMemory size _ => size
  | .invalidLayout size _ => size

/-- The text of a refusal of the raw allocator. -/
def AllocError.message : AllocError → String
  | .outOfMemory size align => s!"allocation of {size} bytes (align {align}) failed"
  | .invalidLayout size align => s!"invalid layout: {size} bytes with align {align}"

/-- The text of a rejected configuration. -/
def ConfigError.message : ConfigError → String
  | .sizeTooSmall size min => s!"pool size {size} is below the minimum of {min} bytes"
  | .maxAllocTooSmall maxAlloc min => s!"max_alloc {maxAlloc} is below the minimum of {min} bytes"

/-- The text of a pool's refusal. -/
def PoolError.message : PoolError → String
  | .alloc error => error.message
  | .config error => error.message
  | .invalidAlignment align => s!"alignment {align} is not a power of two"
  | .sizeOverflow => "allocation size overflow"
  | .staleAllocation region pool =>
    s!"stale allocation: generation {region}, pool generation {pool}"
  | .foreignAllocation => "allocation belongs to a different pool"
  | .unknownAllocation => "large allocation is no longer tracked by the pool"
  | .unknownCleanup index => s!"unknown cleanup record {index}"

/-- The text of a fault, where it has one. -/
def Fault.message? : Fault → Option String
  | .copyTooLong length source destination =>
    some s!"copy of {length} bytes exceeds source ({source}) or destination ({destination})"
  | .untrackedFree buffer => some ("free of untracked buffer " ++ buffer.text)
  | .outOfRange => none

end RegionPool
