import RegionPool.Raw.Ledger

/-!
# Kinds of raw allocators

Pools take their memory from a raw allocator. Beside the plain one there are allocators for tests:
one that keeps a ledger, one that refuses after a number of successes, and one whose memory is not
zero when it is fresh.
-/

namespace RegionPool

/-- A raw allocator, with the state it keeps between requests. -/
inductive Allocator where
  /-- Passes every request on to the heap. -/
  | system
  /-- Passes requests on and keeps a ledger. -/
  | counting (ledger : Ledger)
  /-- Passes on as many requests as its budget allows, and keeps a ledger. -/
  | failing (budget : Nat) (ledger : Ledger)
  /-- Passes requests on and fills the memory with a byte that is not zero. -/
  | dirty
  deriving Repr, DecidableEq

/-- Names one of the allocators of a world. -/
structure AllocatorId where
  index : Nat
  deriving Repr, DecidableEq

namespace Allocator

/-- The byte that a dirty allocator leaves in fresh memory. -/
def dirt : UInt8 := 0xAB

/-- The ledger, of the kinds that keep one. -/
def ledger? : Allocator → Option Ledger
  | .counting ledger | .failing _ ledger => some ledger
  | .system | .dirty => none

/-- The allocator with a new budget, if it has one at all. -/
def refill? : Allocator → Nat → Option Allocator
  | .failing _ ledger, budget => some (.failing budget ledger)
  | _, _ => none

end Allocator

end RegionPool
