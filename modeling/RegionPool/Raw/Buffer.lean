import RegionPool.Raw.Memory
import RegionPool.Text

/-!
# Raw buffers

A raw buffer is what the heap hands out: a run of bytes at an aligned address, told apart from every
other buffer by a number that is never given twice.
-/

namespace RegionPool

/-- The number of a raw buffer. -/
structure BufferId where
  number : Nat
  deriving Repr, DecidableEq

/-- How the number of a buffer is shown. -/
def BufferId.text (id : BufferId) : String := "raw#" ++ toString id.number

/-- A piece of memory from the heap, with what it holds. -/
structure Buffer where
  id : BufferId
  /-- The address of the first byte. -/
  base : Nat
  /-- The alignment it was asked for. -/
  align : Nat
  memory : Memory
  deriving Repr, DecidableEq

namespace Buffer

/-- The bytes of the buffer, in order. -/
def bytes (buffer : Buffer) : Bytes := buffer.memory.toList

/-- The number of bytes of the buffer. -/
def length (buffer : Buffer) : Nat := buffer.memory.size

/-- The `length` bytes from `offset` on, if the buffer has that many. -/
def slice? (buffer : Buffer) (offset length : Nat) : Option Bytes :=
  buffer.memory.slice? offset length

/-- The buffer with every byte set to `byte`. -/
def filled (buffer : Buffer) (byte : UInt8) : Buffer :=
  { buffer with memory := buffer.memory.filled byte }

/-- The buffer with its bytes from `offset` on replaced by `data`. Meant for `data` that ends inside
the buffer. -/
def overwrite (buffer : Buffer) (offset : Nat) (data : Bytes) : Buffer :=
  { buffer with memory := buffer.memory.overwrite offset data }

/-- The buffer with `length` of its bytes, from `offset` on, replaced by those of `source` from
`start` on, if both have that many. The source may be the buffer itself: all bytes are read before
any is written. -/
def copyFrom? (buffer source : Buffer) (start offset length : Nat) : Option Buffer :=
  (source.slice? start length).bind fun data =>
    if offset + length ≤ buffer.length then some (buffer.overwrite offset data) else none

/-- The buffer as a record, its address left out. -/
def debugText (buffer : Buffer) : String :=
  Text.record "RawBuffer"
    [("id", "RawId(" ++ toString buffer.id.number ++ ")"), ("addr", "*"),
     ("len", toString buffer.length), ("align", toString buffer.align)]

@[simp] theorem id_filled (buffer : Buffer) (byte : UInt8) : (buffer.filled byte).id = buffer.id :=
  rfl

@[simp] theorem base_filled (buffer : Buffer) (byte : UInt8) :
    (buffer.filled byte).base = buffer.base := rfl

@[simp] theorem id_overwrite (buffer : Buffer) (offset : Nat) (data : Bytes) :
    (buffer.overwrite offset data).id = buffer.id := rfl

@[simp] theorem base_overwrite (buffer : Buffer) (offset : Nat) (data : Bytes) :
    (buffer.overwrite offset data).base = buffer.base := rfl

@[simp] theorem length_bytes (buffer : Buffer) : buffer.bytes.length = buffer.length :=
  buffer.memory.length_toList

theorem slice?_eq (buffer : Buffer) (offset length : Nat) :
    buffer.slice? offset length = buffer.bytes.slice? offset length :=
  buffer.memory.slice?_eq offset length

theorem bytes_overwrite {buffer : Buffer} {offset : Nat} {data : Bytes}
    (h : offset + data.length ≤ buffer.length) :
    (buffer.overwrite offset data).bytes = buffer.bytes.overwrite offset data :=
  Memory.toList_overwrite h

theorem length_overwrite {buffer : Buffer} {offset : Nat} {data : Bytes}
    (h : offset + data.length ≤ buffer.length) :
    (buffer.overwrite offset data).length = buffer.length :=
  Memory.size_overwrite h

@[simp] theorem bytes_filled (buffer : Buffer) (byte : UInt8) :
    (buffer.filled byte).bytes = List.replicate buffer.length byte :=
  buffer.memory.toList_filled byte

@[simp] theorem length_filled (buffer : Buffer) (byte : UInt8) :
    (buffer.filled byte).length = buffer.length :=
  buffer.memory.size_filled byte

end Buffer

end RegionPool
