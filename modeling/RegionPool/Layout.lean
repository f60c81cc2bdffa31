/-!
# Alignment and the sizes of bookkeeping records

A pool keeps its bookkeeping outside the memory it hands out, yet every record *reserves* the bytes
it would occupy. The constants below are those reserved sizes, in bytes.

* `alignUp`, `checkedAlignUp?` round a number up to an alignment, the second one refusing results
  whose computation leaves the range of a machine word;
* `isAligned` tests the low bits of a number;
* `clearBits_two_pow_sub_one` says that clearing the bits below `2 ^ k` rounds down to a multiple of
  `2 ^ k`, which is why masks and divisibility agree.
-/

namespace RegionPool

-- Powers of numbers are the core ones in every module, whatever algebra it imports. For that, an
-- exponent that is a numeral needs its type.
attribute [scoped instance (high)] instPowNat

/-- Sizes, offsets and addresses are machine words: the numbers below this bound. -/
def wordLimit : Nat := 2 ^ (64 : Nat)

/-- The largest number a machine word holds. -/
def maxWord : Nat := wordLimit - 1

namespace Layout

/-! ### Rounding -/

/-- `value` with every bit of `mask` cleared. -/
def clearBits (value mask : Nat) : Nat := value - (value &&& mask)

/-- Round `value` up to the alignment `align`. For a power of two the result is the least multiple
that is not below `value`. -/
def alignUp (value align : Nat) : Nat := clearBits (value + (align - 1)) (align - 1)

/-- `alignUp`, or nothing where the sum it starts from is not a machine word. -/
def checkedAlignUp? (value align : Nat) : Option Nat :=
  if value + (align - 1) < wordLimit then some (alignUp value align) else none

/-- Whether the bits of `value` below `align` are all zero. -/
def isAligned (value align : Nat) : Bool := value &&& (align - 1) == 0

/-- Whether `value` has exactly one bit set. -/
def isPowerOfTwo (value : Nat) : Bool := value != 0 && value &&& (value - 1) == 0

/-! ### Constants -/

/-- The size of a machine word. -/
def wordSize : Nat := 8

/-- Alignment of ordinary allocations. -/
def alignment : Nat := wordSize

/-- Alignment of the blocks of a pool. -/
def poolAlignment : Nat := 16

/-- The size of a page. -/
def pageSize : Nat := 4096

/-- The default ceiling on the requests served from blocks. -/
def maxAllocFromPool : Nat := pageSize - 1

/-- The default size of a block. -/
def defaultPoolSize : Nat := 16 * 1024

/-- Reserved at the start of every block but the first. -/
def blockHeaderSize : Nat := 4 * wordSize

/-- Reserved at the start of the first block. -/
def poolHeaderSize : Nat := blockHeaderSize + 6 * wordSize

/-- Reserved for the record of a large allocation. -/
def largeRecordSize : Nat := 2 * wordSize

/-- Reserved for a cleanup record. -/
def cleanupRecordSize : Nat := 3 * wordSize

/-- Reserved for the header of an array. -/
def arrayHeaderSize : Nat := 5 * wordSize

/-- Reserved for the header of a list. -/
def listHeaderSize : Nat := 7 * wordSize

/-- Reserved for the header of every part of a list but the first. -/
def listPartHeaderSize : Nat := 3 * wordSize

/-- The smallest block size a pool accepts: its header and two large records, rounded up. -/
def minPoolSize : Nat := alignUp (poolHeaderSize + 2 * largeRecordSize) poolAlignment

/-- The smallest ceiling a pool accepts: its own records must count as small requests. -/
def minMaxAlloc : Nat := max cleanupRecordSize largeRecordSize

/-! ### Laws of rounding -/

/-- Clearing the `k` lowest bits rounds down to a multiple of `2 ^ k`. -/
theorem clearBits_two_pow_sub_one (value k : Nat) :
    clearBits value (2 ^ k - 1) = 2 ^ k * (value / 2 ^ k) := by
  have h := Nat.div_add_mod value (2 ^ k)
  rw [clearBits, Nat.and_two_pow_sub_one_eq_mod]
  omega

theorem isAligned_two_pow_iff (value k : Nat) :
    isAligned value (2 ^ k) = true ↔ value % 2 ^ k = 0 := by
  rw [isAligned, Nat.and_two_pow_sub_one_eq_mod, beq_iff_eq]

/-- Rounding to the word alignment in arithmetic that `omega` reads. -/
theorem alignUp_alignment (value : Nat) : alignUp value alignment = 8 * ((value + 7) / 8) :=
  clearBits_two_pow_sub_one (value + 7) 3

end Layout

end RegionPool
