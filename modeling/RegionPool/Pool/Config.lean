import RegionPool.Error
import RegionPool.Layout

/-!
# Configuration of a pool

A configuration fixes the size of every block, a ceiling on the requests served from blocks, and a
label for the log. `validate` accepts those under which all of a pool's own records fit the blocks
and count as small requests (`validate_eq_ok_iff`).
-/

namespace RegionPool

/-- What a pool is made from. -/
structure PoolConfig where
  /-- The size of every block, its header included. -/
  size : Nat := Layout.defaultPoolSize
  /-- The ceiling on the requests served from blocks. -/
  maxAlloc : Nat := Layout.maxAllocFromPool
  /-- The label of the pool in the log. -/
  name : Option String := none
  deriving Repr, DecidableEq

namespace PoolConfig

/-- Check a configuration; the size is checked first. -/
def validate (config : PoolConfig) : Except ConfigError Unit :=
  if config.size < Layout.minPoolSize then
    .error (.sizeTooSmall config.size Layout.minPoolSize)
  else if config.maxAlloc < Layout.minMaxAlloc then
    .error (.maxAllocTooSmall config.maxAlloc Layout.minMaxAlloc)
  else .ok ()

/-- The largest request a pool of this configuration serves from its blocks. -/
def threshold (config : PoolConfig) : Nat :=
  min (config.size - Layout.poolHeaderSize) config.maxAlloc

/-- The configuration as a record. -/
def debugText (config : PoolConfig) : String :=
  Text.record "PoolConfig"
    [("size", toString config.size), ("max_alloc", toString config.maxAlloc),
      ("name", Text.optional (config.name.map Text.quoted))]

theorem validate_eq_ok_iff (config : PoolConfig) :
    config.validate = .ok () ↔
      Layout.minPoolSize ≤ config.size ∧ Layout.minMaxAlloc ≤ config.maxAlloc := by
  unfold validate
  split
  · simp; omega
  · split
    · simp; omega
    · simp; omega

end PoolConfig

end RegionPool
