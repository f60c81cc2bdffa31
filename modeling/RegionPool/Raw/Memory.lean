import RegionPool.Bytes

/-!
# Memory

The memory of a raw buffer may be long, while most accesses touch a few bytes of it. A `Memory`
keeps its bytes in chunks that know their sizes, so that an access passes over the chunks before it
without looking at their bytes. What it means is the run of bytes `toList`:

* `length_toList` — the run has `size` bytes;
* `toList_zeroed`, `toList_filled` — fresh memory, and memory set to one byte;
* `slice?_eq` — reading a region is reading it from the run;
* `toList_overwrite` — writing inside the memory is writing to the run;
* `size_overwrite` — writing inside the memory keeps its size.
-/

namespace RegionPool

-- Sums of numbers start from the core zero in every module, whatever algebra it imports.
attribute [scoped instance (high)] Zero.ofOfNat0

/-- A run of bytes that knows its size. -/
structure Chunk where
  bytes : Bytes
  size : Nat
  length_bytes : bytes.length = size
  deriving Repr, DecidableEq

namespace Chunk

/-- A chunk of `size` equal bytes. -/
def fill (byte : UInt8) (size : Nat) : Chunk :=
  { bytes := List.replicate size byte, size, length_bytes := List.length_replicate }

/-- The chunk with these bytes. -/
def ofBytes (bytes : Bytes) : Chunk := { bytes, size := bytes.length, length_bytes := rfl }

/-- The bytes of chunks that follow one another. -/
def join (chunks : List Chunk) : Bytes := chunks.flatMap bytes

@[simp] theorem join_nil : join [] = [] := rfl

@[simp] theorem join_cons (chunk : Chunk) (rest : List Chunk) :
    join (chunk :: rest) = chunk.bytes ++ join rest := rfl

/-- The `length` bytes from `offset` on, or as many of them as there are. -/
def read : List Chunk → (offset length : Nat) → Bytes
  | [], _, _ => []
  | chunk :: rest, offset, length =>
    if chunk.size ≤ offset then read rest (offset - chunk.size) length
    else if length ≤ chunk.size - offset then (chunk.bytes.drop offset).take length
    else chunk.bytes.drop offset ++ read rest 0 (length - (chunk.size - offset))

/-- The chunks with their bytes from `offset` on replaced by `data`. Meant for `data` that ends
inside the last chunk. -/
def write : List Chunk → (offset : Nat) → (data : Bytes) → List Chunk
  | [], _, _ => []
  | chunk :: rest, offset, data =>
    -- Nothing left to write: the chunks from here on are shared, not copied.
    if data.isEmpty then chunk :: rest
    else if chunk.size ≤ offset then chunk :: write rest (offset - chunk.size) data
    else
      let room := chunk.size - offset
      ofBytes (chunk.bytes.overwrite offset (data.take room)) :: write rest 0 (data.drop room)

theorem read_eq (chunks : List Chunk) (offset length : Nat) :
    read chunks offset length = ((join chunks).drop offset).take length := by
  induction chunks generalizing offset length with
  | nil => simp [read]
  | cons chunk rest ih =>
    have hsize := chunk.length_bytes
    rw [read, join_cons, List.drop_append]
    split
    -- the first chunk is skipped altogether
    · rw [ih, List.drop_of_length_le (l := chunk.bytes) (by omega), hsize, List.nil_append]
    · have hoffset : offset - chunk.bytes.length = 0 := by omega
      rw [hoffset, List.drop_zero, List.take_append, List.length_drop, hsize]
      split
      · rename_i hle
        rw [Nat.sub_eq_zero_of_le hle, List.take_zero, List.append_nil]
      · rw [ih, List.drop_zero, List.take_of_length_le (i := length) (by simp; omega)]

theorem join_write (chunks : List Chunk) (offset : Nat) (data : Bytes)
    (h : offset + data.length ≤ (join chunks).length) :
    join (write chunks offset data) = (join chunks).overwrite offset data := by
  induction chunks generalizing offset data with
  | nil =>
    rw [join_nil, List.length_nil] at h
    have hdata : data = [] := List.length_eq_zero_iff.mp (by omega)
    simp [write, Bytes.overwrite, hdata]
  | cons chunk rest ih =>
    have hsize := chunk.length_bytes
    rw [join_cons, List.length_append] at h
    rw [write]
    split
    · rename_i hdata
      simp [Bytes.overwrite, List.isEmpty_iff.mp hdata]
    split
    · -- The whole region lies behind the chunk.
      rw [join_cons, join_cons, ih _ _ (by omega), Bytes.overwrite_append_right (by omega), hsize]
    · -- The region starts in the chunk and may go on behind it.
      rw [join_cons, join_cons, ih _ _ (by simp; omega), ← hsize]
      exact Bytes.overwrite_append_left (by omega)

end Chunk

/-- The memory of a raw buffer. -/
structure Memory where
  chunks : List Chunk
  deriving Repr, DecidableEq

namespace Memory

/-- The size of every chunk of fresh memory but the last, which is smaller. -/
def chunkSize : Nat := 1024

/-- Fresh memory: `size` bytes that are zero. -/
def zeroed (size : Nat) : Memory where
  chunks := List.replicate (size / chunkSize) (Chunk.fill 0 chunkSize) ++
    [Chunk.fill 0 (size % chunkSize)]

/-- The number of bytes. -/
def size (memory : Memory) : Nat := (memory.chunks.map Chunk.size).sum

/-- The bytes, in order. -/
def toList (memory : Memory) : Bytes := Chunk.join memory.chunks

/-- The `length` bytes from `offset` on, if the memory has that many. -/
def slice? (memory : Memory) (offset length : Nat) : Option Bytes :=
  if offset + length ≤ memory.size then some (Chunk.read memory.chunks offset length) else none

/-- The memory with its bytes from `offset` on replaced by `data`. Meant for `data` that ends inside
the memory. -/
def overwrite (memory : Memory) (offset : Nat) (data : Bytes) : Memory where
  chunks := Chunk.write memory.chunks offset data

/-- The memory with every byte set to `byte`. -/
def filled (memory : Memory) (byte : UInt8) : Memory where
  chunks := memory.chunks.map fun chunk => Chunk.fill byte chunk.size

/-! ### What the operations mean -/

@[simp] theorem length_toList (memory : Memory) : memory.toList.length = memory.size := by
  simp only [toList, Chunk.join, size, List.length_flatMap]
  congr 2
  funext chunk
  exact chunk.length_bytes

@[simp] theorem toList_zeroed (size : Nat) : (zeroed size).toList = List.replicate size 0 := by
  -- whole chunks, and then a last one that is shorter
  have hsplit : size = size / chunkSize * chunkSize + size % chunkSize := by
    rw [Nat.mul_comm]; exact (Nat.div_add_mod size chunkSize).symm
  have hwhole : ∀ n, Chunk.join (List.replicate n (Chunk.fill 0 chunkSize)) =
      List.replicate (n * chunkSize) 0 := by
    intro n
    induction n with
    | zero => simp
    | succ n ih =>
      rw [List.replicate_succ, Chunk.join_cons, ih, Nat.succ_mul, Nat.add_comm]
      simp [Chunk.fill]
  conv => rhs; rw [hsplit, ← List.replicate_append_replicate, ← hwhole]
  simp [toList, zeroed, Chunk.join, Chunk.fill]

@[simp] theorem size_zeroed (size : Nat) : (zeroed size).size = size := by
  rw [← length_toList, toList_zeroed, List.length_replicate]

theorem slice?_eq (memory : Memory) (offset length : Nat) :
    memory.slice? offset length = memory.toList.slice? offset length := by
  rw [slice?, Bytes.slice?, length_toList, Chunk.read_eq]
  rfl

/-- A write inside the memory is a write to its bytes. -/
theorem toList_overwrite {memory : Memory} {offset : Nat} {data : Bytes}
    (h : offset + data.length ≤ memory.size) :
    (memory.overwrite offset data).toList = memory.toList.overwrite offset data :=
  Chunk.join_write _ _ _ (by rw [← toList, length_toList]; exact h)

theorem size_overwrite {memory : Memory} {offset : Nat} {data : Bytes}
    (h : offset + data.length ≤ memory.size) :
    (memory.overwrite offset data).size = memory.size := by
  rw [← length_toList, toList_overwrite h, Bytes.length_overwrite (by simpa using h), length_toList]

@[simp] theorem size_filled (memory : Memory) (byte : UInt8) :
    (memory.filled byte).size = memory.size := by
  simp [size, filled, Chunk.fill, Function.comp_def]

@[simp] theorem toList_filled (memory : Memory) (byte : UInt8) :
    (memory.filled byte).toList = List.replicate memory.size byte := by
  refine List.eq_replicate_iff.mpr ⟨by simp, fun b hb => ?_⟩
  simp only [toList, Chunk.join, filled, List.mem_flatMap, List.mem_map] at hb
  obtain ⟨_, ⟨chunk, -, rfl⟩, hb⟩ := hb
  exact List.eq_of_mem_replicate hb

end Memory

end RegionPool
