import RegionPool.Layout
import RegionPool.Raw.Buffer

/-!
# Blocks

A block is a raw buffer that is handed out from the front. Its data region starts behind a reserved
header; a cursor divides it into what is handed out and what is free.

* `bump?` claims bytes at the cursor, `extend?` and `reclaim?` move the end and the start of the
  region that was claimed last; each of them leaves the bytes alone.
* `Block.Sound` is the shape every block keeps: header, cursor and buffer end in this order.
* `Block.stats` is what a pool tells about a block.
-/

namespace RegionPool

/-- How a request is placed behind the cursor. -/
inductive Packing where
  /-- At the next multiple of the word alignment. -/
  | aligned
  /-- At the cursor itself. -/
  | packed
  deriving Repr, DecidableEq

/-- One block of a pool. -/
structure Block where
  buffer : Buffer
  /-- The offset of the first byte of the data region. -/
  start : Nat
  /-- The offset of the next free byte. -/
  cursor : Nat
  /-- How often the chain grew past this block. -/
  failed : Nat
  deriving Repr, DecidableEq

/-- What a pool tells about a block. -/
structure BlockStats where
  /-- The length of the block. -/
  size : Nat
  /-- The length of its data region. -/
  capacity : Nat
  /-- Bytes before the cursor, padding included. -/
  used : Nat
  /-- Bytes behind the cursor. -/
  unused : Nat
  /-- How often the chain grew past the block. -/
  failed : Nat
  deriving Repr, DecidableEq

namespace Block

/-- A block in which the first `header` bytes are reserved. -/
def ofBuffer (buffer : Buffer) (header : Nat) : Block :=
  let start := Layout.alignUp header Layout.alignment
  { buffer, start, cursor := start, failed := 0 }

/-- The offset behind the last byte. -/
def limit (block : Block) : Nat := block.buffer.length

/-- Where a request would be placed. -/
def target? (block : Block) : Packing → Option Nat
  | .aligned => Layout.checkedAlignUp? block.cursor Layout.alignment
  | .packed => some block.cursor

/-- Claim `size` bytes, if the block has room for them: their offset, and the block after. -/
def bump? (block : Block) (size : Nat) (packing : Packing) : Option (Nat × Block) :=
  match block.target? packing with
  | none => none
  | some offset =>
    if offset + size ≤ block.limit then some (offset, { block with cursor := offset + size })
    else none

/-- Lengthen the region that ends at `stop` by `additional` bytes. Only the region claimed last ends
at the cursor. -/
def extend? (block : Block) (stop additional : Nat) : Option Block :=
  if stop = block.cursor ∧ additional ≤ block.limit - block.cursor then
    some { block with cursor := block.cursor + additional }
  else none

/-- Give back the region from `offset` to `stop`, if it is the one claimed last. -/
def reclaim? (block : Block) (offset stop : Nat) : Option Block :=
  if stop = block.cursor then some { block with cursor := offset } else none

/-- Free the whole data region and forget the failures. The bytes stay. -/
def reset (block : Block) : Block := { block with cursor := block.start, failed := 0 }

/-- Note that the chain grew past the block. -/
def noteFailure (block : Block) : Block := { block with failed := block.failed + 1 }

/-- The block with the bytes from `offset` on replaced. -/
def overwrite (block : Block) (offset : Nat) (data : Bytes) : Block :=
  { block with buffer := block.buffer.overwrite offset data }

/-- What a pool tells about the block. -/
def stats (block : Block) : BlockStats where
  size := block.limit
  capacity := block.limit - block.start
  used := block.cursor - block.start
  unused := block.limit - block.cursor
  failed := block.failed

/-! ### The shape of a block -/

/-- The data region starts before the cursor, and the cursor stays inside the buffer. -/
structure Sound (block : Block) : Prop where
  start_le_cursor : block.start ≤ block.cursor
  cursor_le_limit : block.cursor ≤ block.limit

theorem bump?_eq_some_iff {block after : Block} {size offset : Nat} {packing : Packing} :
    block.bump? size packing = some (offset, after) ↔
      block.target? packing = some offset ∧ offset + size ≤ block.limit ∧
        { block with cursor := offset + size } = after := by
  unfold bump?
  split
  · simp_all
  · rename_i target h
    split
    · rename_i hle
      simp only [h, Option.some.injEq, Prod.mk.injEq]
      constructor
      · rintro ⟨rfl, rfl⟩; exact ⟨rfl, hle, rfl⟩
      · rintro ⟨rfl, -, rfl⟩; exact ⟨rfl, rfl⟩
    · rename_i hnle
      simp only [h, Option.some.injEq, reduceCtorEq, false_iff]
      rintro ⟨rfl, hle, -⟩
      exact hnle hle

theorem extend?_eq_some_iff {block after : Block} {stop additional : Nat} :
    block.extend? stop additional = some after ↔
      stop = block.cursor ∧ additional ≤ block.limit - block.cursor ∧
        { block with cursor := block.cursor + additional } = after := by
  unfold extend?
  split
  · rename_i h; simp [h.1, h.2]
  · rename_i h; simp only [reduceCtorEq, false_iff]; exact fun ⟨h₁, h₂, _⟩ => h ⟨h₁, h₂⟩

theorem reclaim?_eq_some_iff {block after : Block} {offset stop : Nat} :
    block.reclaim? offset stop = some after ↔
      stop = block.cursor ∧ { block with cursor := offset } = after := by
  unfold reclaim?
  split <;> simp_all

/-- The target of a request is never before the cursor. -/
theorem cursor_le_of_target? {block : Block} {packing : Packing} {offset : Nat}
    (h : block.target? packing = some offset) : block.cursor ≤ offset := by
  cases packing with
  | aligned =>
    simp only [target?, Layout.checkedAlignUp?, Option.ite_none_right_eq_some, Option.some.injEq]
      at h
    rw [← h.2, Layout.alignUp_alignment]
    omega
  | packed => simp only [target?, Option.some.injEq] at h; omega

theorem Sound.bump? {block after : Block} {size offset : Nat} {packing : Packing}
    (sound : block.Sound) (h : block.bump? size packing = some (offset, after)) : after.Sound := by
  obtain ⟨ht, hle, rfl⟩ := bump?_eq_some_iff.mp h
  have := cursor_le_of_target? ht
  have := sound.start_le_cursor
  exact ⟨by dsimp only; omega, hle⟩

theorem Sound.reset {block : Block} (sound : block.Sound) : block.reset.Sound :=
  ⟨Nat.le_refl _, Nat.le_trans sound.start_le_cursor sound.cursor_le_limit⟩

end Block

end RegionPool
