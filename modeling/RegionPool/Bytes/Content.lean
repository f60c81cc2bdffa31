import RegionPool.Bytes

/-!
# What a caller writes

A caller who is handed a region fills it with a prescribed content: nothing, bytes from the start,
one repeated byte, or a pattern by which the regions of a test can be told apart.

* `pattern index length` is the test pattern;
* `Content.apply` is the region after the caller wrote to it, and `Content.length_apply` says that
  writing never changes the length of a region.
-/

namespace RegionPool

/-- The test pattern of a given index: byte `k` is the low byte of `index * 31` exclusive-or `k`. -/
def pattern (index length : Nat) : Bytes :=
  (List.range length).map fun k => Bytes.lowByte ((index * 31) ^^^ k)

@[simp] theorem length_pattern (index length : Nat) : (pattern index length).length = length := by
  simp [pattern]

/-- What a caller writes to a region it was handed. -/
inductive Content where
  /-- Nothing is written. -/
  | keep
  /-- These bytes are written from the start, as many as fit. -/
  | bytes (data : Bytes)
  /-- Every byte is set to this one. -/
  | fill (byte : UInt8)
  /-- The test pattern of this index is written over the whole region. -/
  | pattern (index : Nat)
  deriving Repr, DecidableEq

namespace Content

/-- The region after the content was written to it. -/
def apply (content : Content) (region : Bytes) : Bytes :=
  match content with
  | .keep => region
  | .bytes data => data.take region.length ++ region.drop data.length
  | .fill byte => List.replicate region.length byte
  | .pattern index => RegionPool.pattern index region.length

@[simp] theorem length_apply (content : Content) (region : Bytes) :
    (content.apply region).length = region.length := by
  cases content <;> simp [apply]
  omega

end Content

end RegionPool
