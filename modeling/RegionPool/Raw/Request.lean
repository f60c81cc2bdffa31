import RegionPool.Layout

/-!
# Requests to a raw allocator

A raw allocator is asked in three ways: for plain memory, for memory at a given alignment, and for
memory that reads zero.
-/

namespace RegionPool

/-- A request to a raw allocator. -/
inductive Request where
  /-- `size` bytes at the word alignment. -/
  | malloc (size : Nat)
  /-- `size` bytes at the alignment `align`. -/
  | memalign (align size : Nat)
  /-- `size` bytes at the word alignment, all zero. -/
  | calloc (size : Nat)
  deriving Repr, DecidableEq

namespace Request

/-- The number of bytes asked for. -/
def size : Request → Nat
  | .malloc size | .memalign _ size | .calloc size => size

/-- The alignment asked for. -/
def align : Request → Nat
  | .malloc _ | .calloc _ => Layout.alignment
  | .memalign align _ => align

/-- The name of the kind of request. -/
def operation : Request → String
  | .malloc _ => "malloc"
  | .memalign _ _ => "memalign"
  | .calloc _ => "calloc"

/-- Whether the memory must read zero. -/
def zeroed : Request → Bool
  | .calloc _ => true
  | _ => false

/-- The request that an allocator without a way of its own to get zeroed memory passes on: plain
memory, which it then clears. -/
def unzeroed : Request → Request
  | .calloc size => .malloc size
  | request => request

@[simp] theorem size_unzeroed (request : Request) : request.unzeroed.size = request.size := by
  cases request <;> rfl

@[simp] theorem align_unzeroed (request : Request) : request.unzeroed.align = request.align := by
  cases request <;> rfl

end Request

end RegionPool
