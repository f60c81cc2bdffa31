import RegionPool.Pool.Memory
import RegionPool.Proofs.Action
import RegionPool.Proofs.Chain
import RegionPool.Proofs.LargeTable

/-!
# Places and the memory behind them

A region is resolved to a store and an offset, and its bytes are those of the buffer of that store.
`Pool.bufferAt?` is the buffer of a place and `Pool.content?` the bytes of a region there, without
the checks of who may ask; everything that a pool does to its memory is told in these two.

* `Rejects`, `resolve_eq_error_iff` — why a region does not resolve;
* `resolve_eq_ok_iff`, `locate_eq_ok_iff`, `bytes_eq_ok_iff`, `load_eq_ok_iff` — when a region
  resolves, and when it can be read;
* `bufferAt?_setBlock`, `bufferAt?_overwrite` — the buffers behind places after a cursor was moved,
  and after a store was written to;
* `transfer_eq` — whichever way bytes are copied from store to store, they are read and then
  written;
* `write_eq_ok`, `copy_eq_ok`, `extend_eq_ok`, `reclaim_eq_ok` — what the operations on memory do to
  the pool if they succeed;
* `Knows` — a region that any of them takes is known to the pool.
-/

namespace RegionPool

/-- The offset of a region in its buffer. -/
def Place.offset : Place → Nat
  | .block _ offset => offset
  | .large _ => 0

namespace Pool

/-! ### Resolving -/

/-- The store of a place, if there is one. -/
def storeOf? (pool : Pool) : Place → Option Store
  | .block index _ => some (.block index)
  | .large id => (pool.large.position? id).map .slot

/-- The buffer of a place. -/
def bufferAt? (pool : Pool) (place : Place) : Option Buffer :=
  (pool.storeOf? place).bind pool.storeBuffer?

/-- The bytes at the place of a region. -/
def content? (pool : Pool) (region : Region) : Option Bytes :=
  (pool.bufferAt? region.place).bind fun buffer =>
    buffer.slice? region.place.offset region.length

/-- The bytes at a place are those of its buffer, if it has that many. -/
theorem content?_eq_some_iff {pool : Pool} {region : Region} {bytes : Bytes} :
    pool.content? region = some bytes ↔
      ∃ buffer, pool.bufferAt? region.place = some buffer ∧
        region.place.offset + region.length ≤ buffer.length ∧
        (buffer.bytes.drop region.place.offset).take region.length = bytes := by
  simp only [content?, Option.bind_eq_some_iff, Buffer.slice?_eq, Bytes.slice?_eq_some_iff,
    Buffer.length_bytes]

@[simp] theorem bufferAt?_block (pool : Pool) (index offset : Nat) :
    pool.bufferAt? (.block index offset) = pool.chain.blocks[index]?.map Block.buffer := rfl

@[simp] theorem bufferAt?_large (pool : Pool) (id : BufferId) :
    pool.bufferAt? (.large id) = pool.large.find? id := by
  rw [bufferAt?, storeOf?, Option.bind_map]
  rfl

section Resolving

variable {pool : Pool} {region : Region} {store : Store} {offset : Nat}

/-- A region that resolves is one of this pool, in its generation, and has a store. -/
theorem resolve_eq_ok_iff :
    pool.resolve region = .ok (store, offset) ↔
      region.pool = pool.id ∧ region.generation = pool.generation ∧
        pool.storeOf? region.place = some store ∧ offset = region.place.offset := by
  unfold resolve
  by_cases hpool : region.pool = pool.id
  · by_cases hgeneration : region.generation = pool.generation
    · simp only [hpool, hgeneration, ne_eq, not_true_eq_false, if_false, true_and]
      -- the generation is right, so it depends on the place alone
      cases hplace : region.place with
      | block index start => simp [storeOf?, Place.offset, eq_comm]
      | large id =>
        cases hposition : pool.large.position? id <;>
          simp [storeOf?, Place.offset, hposition, eq_comm]
    · simp [hpool, hgeneration]
  · simp [hpool]

/-- **Why a pool rejects a region**: it is one of another pool; or else it is one of another
generation; or else it is large, and its buffer is not there. -/
inductive Rejects (pool : Pool) (region : Region) : PoolError → Prop
  | foreign (owner : region.pool ≠ pool.id) : Rejects pool region .foreignAllocation
  | stale (owner : region.pool = pool.id) (generation : region.generation ≠ pool.generation) :
    Rejects pool region (.staleAllocation region.generation pool.generation)
  | unknown {id : BufferId} (owner : region.pool = pool.id)
    (generation : region.generation = pool.generation) (place : region.place = .large id)
    (absent : ∀ buffer ∈ pool.large.buffers, buffer.id ≠ id) :
    Rejects pool region .unknownAllocation

/-- A region does not resolve exactly if the pool rejects it. -/
theorem resolve_eq_error_iff {error : PoolError} :
    pool.resolve region = .error error ↔ pool.Rejects region error := by
  constructor
  -- the checks in the order in which the pool makes them: owner, generation, place
  · intro h
    unfold resolve at h
    split at h
    · next howner =>
      obtain rfl := Except.error.inj h
      exact .foreign howner
    next howner =>
    split at h
    · next hgeneration =>
      obtain rfl := Except.error.inj h
      exact .stale (not_not.mp howner) hgeneration
    next hgeneration =>
    split at h
    · cases h
    next id hplace =>
    split at h
    · cases h
    · next hnone =>
      obtain rfl := Except.error.inj h
      exact .unknown (not_not.mp howner) (not_not.mp hgeneration) hplace
        (LargeTable.position?_eq_none_iff.mp hnone)
  -- each reason presupposes that the checks before it were passed
  · rintro (howner | ⟨howner, hgeneration⟩ | ⟨howner, hgeneration, hplace, habsent⟩)
    · exact if_pos howner
    · rw [resolve, if_neg (not_not_intro howner), if_pos hgeneration]
    · rw [resolve, if_neg (not_not_intro howner), if_neg (not_not_intro hgeneration), hplace]
      dsimp only
      rw [LargeTable.position?_eq_none_iff.mpr habsent]

theorem resolved_eq_ok_iff :
    pool.resolved region = .ok (store, offset) ↔ pool.resolve region = .ok (store, offset) := by
  unfold resolved
  cases pool.resolve region <;> simp [Except.mapError]

/-- A region of this pool and generation resolves if its place has a buffer. -/
theorem exists_resolve {buffer : Buffer} (hpool : region.pool = pool.id)
    (hgeneration : region.generation = pool.generation)
    (hbuffer : pool.bufferAt? region.place = some buffer) :
    ∃ store, pool.resolve region = .ok (store, region.place.offset) ∧
      pool.storeBuffer? store = some buffer := by
  obtain ⟨store, hstore, hfound⟩ := Option.bind_eq_some_iff.mp hbuffer
  exact ⟨store, resolve_eq_ok_iff.mpr ⟨hpool, hgeneration, hstore, rfl⟩, hfound⟩

/-- **Reading a region** succeeds exactly if it is of this pool and generation and its place has the
bytes. -/
theorem bytes_eq_ok_iff {bytes : Bytes} :
    pool.bytes region = .ok bytes ↔
      region.pool = pool.id ∧ region.generation = pool.generation ∧
        pool.content? region = some bytes := by
  constructor
  · intro h
    unfold Pool.bytes at h
    cases hresolved : pool.resolved region with
    | error failure => rw [hresolved] at h; cases h
    | ok found =>
      obtain ⟨store, offset⟩ := found
      rw [hresolved] at h
      have hresolve := resolved_eq_ok_iff.mp hresolved
      obtain ⟨hpool, hgeneration, hstore, rfl⟩ := resolve_eq_ok_iff.mp hresolve
      refine ⟨hpool, hgeneration, ?_⟩
      -- it resolves; what is left is whether the store has that many bytes
      change pool.load store _ _ = _ at h
      rw [load] at h
      rw [content?, bufferAt?, hstore, Option.bind_some]
      split at h
      · next found hfound => rw [hfound, Except.ok.inj h]
      · cases h
  · rintro ⟨hpool, hgeneration, hcontent⟩
    obtain ⟨buffer, hbuffer, hslice⟩ := Option.bind_eq_some_iff.mp hcontent
    obtain ⟨store, hresolve, hstore⟩ := exists_resolve hpool hgeneration hbuffer
    rw [Pool.bytes, resolved_eq_ok_iff.mpr hresolve]
    change pool.load store _ _ = _
    rw [load, hstore, Option.bind_some, hslice]

end Resolving

/-! ### Stores -/

section Stores

variable {pool : Pool} {store : Store} {offset : Nat} {data bytes : Bytes}

/-- Large regions in one slot have one number. -/
theorem eq_of_storeOf?_large {id id' : BufferId}
    (h : pool.storeOf? (.large id) = some store) (h' : pool.storeOf? (.large id') = some store) :
    id = id' := by
  obtain ⟨index, hposition, rfl⟩ := Option.map_eq_some_iff.mp h
  obtain ⟨index', hposition', heq⟩ := Option.map_eq_some_iff.mp h'
  obtain rfl := Store.slot.inj heq
  obtain ⟨buffer, hslot, rfl⟩ := LargeTable.exists_of_position? hposition
  obtain ⟨buffer', hslot', rfl⟩ := LargeTable.exists_of_position? hposition'
  -- one slot, one buffer, one number
  obtain rfl : buffer = buffer' := by simpa [hslot] using hslot'
  rfl

/-- A block is no slot. -/
theorem storeOf?_block_ne_large {index offset : Nat} {id : BufferId}
    (h : pool.storeOf? (.block index offset) = some store)
    (h' : pool.storeOf? (.large id) = some store) : False := by
  obtain rfl := Option.some.inj h
  obtain ⟨_, _, heq⟩ := Option.map_eq_some_iff.mp h'
  cases heq

/-- A region that resolves to a block is in that block. -/
theorem place_of_storeOf?_block {place : Place} {index : Nat}
    (h : pool.storeOf? place = some (.block index)) : place = .block index place.offset := by
  cases place with
  | block other offset =>
    obtain rfl := Store.block.inj (Option.some.inj h)
    rfl
  | large id =>
    obtain ⟨_, _, heq⟩ := Option.map_eq_some_iff.mp h
    cases heq

theorem load_eq_ok_iff {length : Nat} :
    pool.load store offset length = .ok bytes ↔
      ∃ buffer, pool.storeBuffer? store = some buffer ∧
        buffer.slice? offset length = some bytes := by
  rw [load, ← Option.bind_eq_some_iff]
  split
  · next h => rw [h, Except.ok.injEq, Option.some.injEq]
  · next h => simp [h]

theorem spans_eq_true_iff {length : Nat} :
    pool.spans store offset length = true ↔
      ∃ buffer, pool.storeBuffer? store = some buffer ∧ offset + length ≤ buffer.length := by
  rw [spans]
  cases pool.storeBuffer? store <;> simp

/-- A region that is located resolves, and its store has its bytes. -/
theorem locate_eq_ok_iff :
    pool.locate region = .ok (store, offset) ↔
      pool.resolve region = .ok (store, offset) ∧ pool.spans store offset region.length = true := by
  rw [Pool.locate, bind_eq_ok_iff]
  constructor
  · rintro ⟨⟨store', offset'⟩, hresolved, h⟩
    obtain ⟨hspans, heq⟩ := guard_eq_ok_iff.mp h
    obtain ⟨rfl, rfl⟩ := Prod.mk.inj (pure_eq_ok_iff.mp heq)
    exact ⟨resolved_eq_ok_iff.mp hresolved, hspans⟩
  · rintro ⟨hresolve, hspans⟩
    exact ⟨(store, offset), resolved_eq_ok_iff.mpr hresolve,
      guard_eq_ok_iff.mpr ⟨hspans, pure_eq_ok_iff.mpr rfl⟩⟩

end Stores

/-! ### Moving a cursor -/

section Cursor

variable {pool : Pool} {block : Block} {index : Nat}

/-- The buffers behind places do not depend on the cursors. -/
theorem bufferAt?_setBlock (moved : Block) (hblock : pool.chain.blocks[index]? = some block)
    (hbuffer : moved.buffer = block.buffer) (place : Place) :
    { pool with chain := pool.chain.setBlock index moved }.bufferAt? place =
      pool.bufferAt? place := by
  cases place with
  | block other start =>
    -- the buffers along the chain are the same list before and after
    have hmap := Chain.map_blocks_setBlock Block.buffer hblock hbuffer
    have hget := congrArg (·[other]?) hmap
    rw [List.getElem?_map, List.getElem?_map] at hget
    exact hget
  | large id => rw [bufferAt?_large, bufferAt?_large]

end Cursor

/-! ### Writing to a store -/

section Overwrite

variable {pool : Pool} {store : Store} {offset : Nat} {data : Bytes}

/-- Writing to a store changes its buffer and no other. -/
theorem storeBuffer?_overwrite (other : Store) :
    (pool.overwrite store offset data).storeBuffer? other =
      if store = other then (pool.storeBuffer? other).map (·.overwrite offset data)
      else pool.storeBuffer? other := by
  -- blocks and slots are apart, so only two of a kind can be the same store
  cases store with
  | block index =>
    cases other with
    | block other =>
      change (pool.chain.overwrite index offset data).blocks[other]?.map Block.buffer = _
      rw [Chain.getElem?_blocks_overwrite, storeBuffer?]
      by_cases heq : index = other
      · rw [if_pos heq, if_pos (congrArg Store.block heq), Option.map_map, Option.map_map]
        rfl
      · rw [if_neg heq, if_neg fun h => heq (Store.block.inj h)]
    | slot other => rw [if_neg nofun]; rfl
  | slot index =>
    cases other with
    | block other => rw [if_neg nofun]; rfl
    | slot other =>
      change (pool.large.overwrite index offset data).get? other = _
      rw [LargeTable.get?_overwrite, storeBuffer?]
      by_cases heq : index = other
      · rw [if_pos heq, if_pos (congrArg Store.slot heq)]
      · rw [if_neg heq, if_neg fun h => heq (Store.slot.inj h)]

/-- Writing does not change which store a place has. -/
theorem storeOf?_overwrite (place : Place) :
    (pool.overwrite store offset data).storeOf? place = pool.storeOf? place := by
  cases place with
  | block index start => rfl
  | large id =>
    cases store with
    | block index => rfl
    | slot index => exact congrArg (Option.map Store.slot) LargeTable.position?_overwrite

/-- What is behind a place once a store was written to. -/
theorem bufferAt?_overwrite (place : Place) :
    (pool.overwrite store offset data).bufferAt? place =
      if pool.storeOf? place = some store then
        (pool.bufferAt? place).map (·.overwrite offset data)
      else pool.bufferAt? place := by
  rw [bufferAt?, bufferAt?, storeOf?_overwrite]
  cases hstore : pool.storeOf? place with
  | none => rfl
  | some other =>
    rw [Option.bind_some, Option.bind_some, storeBuffer?_overwrite]
    -- what is behind the place changes only if that is what was written to
    by_cases heq : store = other
    · rw [if_pos heq, if_pos (congrArg some heq.symm)]
    · rw [if_neg heq, if_neg fun h => heq (Option.some.inj h).symm]

/-- Writing leaves the cursors. -/
theorem exists_block_overwrite {index : Nat} {block : Block}
    (h : pool.chain.blocks[index]? = some block) :
    ∃ written : Block, (pool.overwrite store offset data).chain.blocks[index]? = some written ∧
      written.start = block.start ∧ written.cursor = block.cursor := by
  cases store with
  | block other =>
    change ∃ written, (pool.chain.overwrite other offset data).blocks[index]? = some written ∧ _
    rw [Chain.getElem?_blocks_overwrite, h]
    by_cases heq : other = index
    · exact ⟨_, if_pos heq, rfl, rfl⟩
    · exact ⟨_, if_neg heq, rfl, rfl⟩
  | slot other => exact ⟨block, h, rfl, rfl⟩

/-- Writing does not change which large buffers there are. -/
theorem ids_large_overwrite :
    (pool.overwrite store offset data).large.buffers.map Buffer.id =
      pool.large.buffers.map Buffer.id := by
  cases store with
  | block index => rfl
  | slot index => exact LargeTable.ids_overwrite

end Overwrite

/-! ### From store to store -/

section Transfer

variable {pool : Pool} {source target : Store} {start offset length : Nat}

/-- Write to a store from `offset` on. -/
def save (pool : Pool) (store : Store) (offset : Nat) (data : Bytes) : Except Failure Pool :=
  if pool.spans store offset data.length then .ok (pool.overwrite store offset data)
  else .error (.fault .outOfRange)

/-- Two items are found where they are, on whichever side of them the list is split. -/
private theorem pairAt?_eq {α : Type} {items : List α} {i j : Nat} (hne : i ≠ j) :
    pairAt? items i j = items[i]?.bind fun read => items[j]?.map fun written =>
      (read, written, fun item => items.set j item) := by
  -- what a list has from a place on tells the item at that place
  have hdrop : ∀ {k item rest}, items.drop k = item :: rest →
      items[k]? = some item ∧ items = items.take k ++ item :: rest := fun {k item rest} h => by
    refine ⟨?_, by rw [← h, List.take_append_drop]⟩
    rw [← List.head?_drop, h, List.head?_cons]
  have hnone : ∀ {k}, items.drop k = [] → items[k]? = none := fun h => by
    rw [← List.head?_drop, h, List.head?_nil]
  unfold pairAt?
  simp only [List.splitAt_eq]
  split
  · next hlt =>
    rw [List.getElem?_take_of_lt hlt]
    cases hhigh : items.drop j with
    | nil => cases items[i]? <;> simp [hnone hhigh]
    | cons written rest =>
      obtain ⟨hget, hitems⟩ := hdrop hhigh
      have hlength : (items.take j).length = j :=
        List.length_take_of_le (Nat.le_of_lt (List.getElem?_eq_some_iff.mp hget).1)
      have hput : ∀ item, items.set j item = items.take j ++ item :: rest := fun item => by
        conv => lhs; rw [hitems, List.set_append_right _ _ (Nat.le_of_eq hlength), hlength,
          Nat.sub_self, List.set_cons_zero]
      cases items[i]? <;> simp [hget, hput]
  · next hge =>
    have hlt : j < i := Nat.lt_of_le_of_ne (Nat.le_of_not_lt hge) (Ne.symm hne)
    rw [List.getElem?_take_of_lt hlt]
    cases hhigh : items.drop i with
    | nil => simp [hnone hhigh]
    | cons read rest =>
      obtain ⟨hget, hitems⟩ := hdrop hhigh
      have hinside : j < (items.take i).length := by
        rw [List.length_take_of_le (Nat.le_of_lt (List.getElem?_eq_some_iff.mp hget).1)]
        exact hlt
      have hput : ∀ item, items.set j item = (items.take i).set j item ++ read :: rest :=
        fun item => by
          conv => lhs; rw [hitems, List.set_append_left _ _ hinside]
      cases items[j]? <;> simp [hget, hput]

/-- A list is changed at one place by setting what is there. -/
private theorem modify_eq_set {α : Type} {items : List α} {i : Nat} {item : α} {f : α → α}
    (h : items[i]? = some item) : items.modify i f = items.set i (f item) := by
  rw [List.modify_eq_set_getElem?, h]
  rfl

/-- **However bytes get from store to store**, within a store or between two, of one kind or of
both, one buffer is copied from and one is replaced. -/
theorem transfer?_eq : pool.transfer? source target start offset length =
    (pool.storeBuffer? source).bind fun read => (pool.storeBuffer? target).bind fun written =>
      (written.copyFrom? read start offset length).map (pool.setBuffer target) := by
  unfold transfer?
  split
  · next heq =>
    subst heq
    cases pool.storeBuffer? source <;> rfl
  next hne =>
  -- two stores of one kind are a pair in their list; of two kinds, each is looked up in its own
  cases source with
  | block i =>
    cases target with
    | block j =>
      dsimp only [storeBuffer?]
      rw [pairAt?_eq fun heq => hne (congrArg Store.block heq)]
      cases pool.chain.blocks[i]? with
      | none => rfl
      | some read =>
        cases hwritten : pool.chain.blocks[j]? with
        | none => rfl
        | some written =>
          have hput : ∀ buffer, pool.setBuffer (.block j) buffer = { pool with chain :=
              { pool.chain with blocks := pool.chain.blocks.set j { written with buffer } } } :=
            fun buffer => by rw [setBuffer, modify_eq_set hwritten]
          exact congrArg (Option.map · _) (funext fun buffer => (hput buffer).symm)
    | slot j =>
      change (pool.chain.blocks[i]?.bind fun read => (pool.large.get? j).bind _) = _
      rw [storeBuffer?, Option.bind_map]
      rfl
  | slot i =>
    cases target with
    | block j =>
      change ((pool.large.get? i).bind fun read => pool.chain.blocks[j]?.bind _) = _
      refine congrArg (Option.bind _) (funext fun read => ?_)
      rw [storeBuffer?, Option.bind_map]
      rfl
    | slot j =>
      dsimp only [storeBuffer?, LargeTable.get?]
      rw [pairAt?_eq fun heq => hne (congrArg Store.slot heq)]
      rcases pool.large.slots[i]? with _ | _ | read
      · rfl
      · cases pool.large.slots[j]? <;> rfl
      · rcases pool.large.slots[j]? with _ | _ | written <;> rfl

/-- Replacing a buffer by what writing makes of it is writing to its store. -/
private theorem setBuffer_overwrite {store : Store} {buffer : Buffer} {data : Bytes}
    (h : pool.storeBuffer? store = some buffer) :
    pool.setBuffer store (buffer.overwrite offset data) = pool.overwrite store offset data := by
  cases store with
  | block index =>
    obtain ⟨block, hblock, rfl⟩ := Option.map_eq_some_iff.mp h
    rw [setBuffer, modify_eq_set hblock, overwrite, Chain.overwrite, modify_eq_set hblock]
    rfl
  | slot index =>
    have hslot := LargeTable.get?_eq_some_iff.mp h
    rw [setBuffer, overwrite, LargeTable.overwrite, modify_eq_set hslot]
    rfl

/-- **Copying from store to store** is reading from the one and then writing to the other. -/
theorem transfer_eq :
    pool.transfer source target start offset length =
      pool.load source start length >>= pool.save target offset := by
  rw [transfer, transfer?_eq, load]
  cases pool.storeBuffer? source with
  | none => rfl
  | some read =>
    rw [Option.bind_some, Option.bind_some]
    cases hslice : read.slice? start length with
    | none =>
      cases pool.storeBuffer? target <;> simp [Buffer.copyFrom?, hslice] <;> rfl
    | some data =>
      have hdata : data.length = length := by
        rw [Buffer.slice?_eq] at hslice
        exact Bytes.length_of_slice? hslice
      -- what was read is as long as was asked, so the same bounds are checked when it is written
      change _ = pool.save target offset data
      rw [save, spans, hdata]
      cases htarget : pool.storeBuffer? target with
      | none => rfl
      | some written =>
        rw [Option.bind_some, Buffer.copyFrom?, hslice, Option.bind_some]
        by_cases hroom : offset + length ≤ written.length
        · rw [if_pos hroom, Option.map_some, if_pos (decide_eq_true hroom),
            setBuffer_overwrite htarget]
        · rw [if_neg hroom, Option.map_none, if_neg (by simpa using hroom)]

end Transfer

/-! ### What the operations do -/

section Operations

variable {pool after : Pool} {region : Region} {start additional : Nat} {data : Bytes}

/-- **Writing to a region** writes inside the region to its store. -/
theorem write_eq_ok (hrun : pool.write region start data = .ok after) :
    start + data.length ≤ region.length ∧ ∃ store, pool.storeOf? region.place = some store ∧
      pool.spans store region.place.offset region.length = true ∧
      after = pool.overwrite store (region.place.offset + start) data := by
  obtain ⟨⟨store, offset⟩, hlocate, hrun⟩ := bind_eq_ok_iff.mp hrun
  obtain ⟨hfits, hafter⟩ := guard_eq_ok_iff.mp hrun
  obtain ⟨hresolve, hspans⟩ := locate_eq_ok_iff.mp hlocate
  obtain ⟨-, -, hstore, rfl⟩ := resolve_eq_ok_iff.mp hresolve
  exact ⟨hfits, store, hstore, hspans, (pure_eq_ok_iff.mp hafter).symm⟩

/-- **Copying** writes what the start of the source reads to the start of the target. -/
theorem copy_eq_ok {source target : Region} {length : Nat}
    (hrun : pool.copy source target length = .ok after) :
    length ≤ target.length ∧ ∃ store bytes, pool.bytes { source with length } = .ok bytes ∧
      bytes.length = length ∧ pool.storeOf? target.place = some store ∧
      pool.spans store target.place.offset length = true ∧
      after = pool.overwrite store target.place.offset bytes := by
  obtain ⟨⟨-, hfits⟩, hchecked⟩ := guard_eq_ok_iff.mp hrun
  obtain ⟨⟨sourceStore, sourceOffset⟩, hsource, htargeted⟩ := bind_eq_ok_iff.mp hchecked
  obtain ⟨⟨store, offset⟩, htarget, hloaded⟩ := bind_eq_ok_iff.mp htargeted
  obtain ⟨bytes, hload, hsaved⟩ := bind_eq_ok_iff.mp (transfer_eq.symm.trans hloaded)
  obtain ⟨-, -, hstore, rfl⟩ := resolve_eq_ok_iff.mp (resolved_eq_ok_iff.mp htarget)
  -- what is read has the length that was asked for, which is the one the target is checked with
  have hlength : bytes.length = length := by
    obtain ⟨buffer, -, hslice⟩ := load_eq_ok_iff.mp hload
    rw [Buffer.slice?_eq] at hslice
    exact Bytes.length_of_slice? hslice
  rw [save] at hsaved
  split at hsaved
  · next hspans =>
    -- Where a region resolves to does not depend on its length.
    exact ⟨hfits, store, bytes, bind_eq_ok_iff.mpr ⟨(sourceStore, sourceOffset), hsource, hload⟩,
      hlength, hstore, hlength ▸ hspans, (Except.ok.inj hsaved).symm⟩
  · cases hsaved

/-- **Lengthening a region** moves the cursor of its block, or does nothing. -/
theorem extend_eq_ok {region : Region} {extended : Option Region}
    (hrun : pool.extend region additional = .ok (extended, after)) :
    (extended = none ∧ after = pool) ∨
      ∃ index block, region.place = .block index region.place.offset ∧
        pool.chain.blocks[index]? = some block ∧
        region.place.offset + region.length = block.cursor ∧
        additional ≤ block.limit - block.cursor ∧
        extended = some { region with length := region.length + additional } ∧
        after = { pool with
          chain := pool.chain.setBlock index
            { block with cursor := block.cursor + additional } } := by
  obtain ⟨⟨store, offset⟩, hresolved, hrun⟩ := bind_eq_ok_iff.mp hrun
  obtain ⟨-, -, hstore, rfl⟩ := resolve_eq_ok_iff.mp (resolved_eq_ok_iff.mp hresolved)
  cases store with
  | slot index =>
    -- a large buffer is as long as its region, and does not grow
    obtain ⟨rfl, rfl⟩ := Prod.mk.inj (pure_eq_ok_iff.mp hrun)
    exact .inl ⟨rfl, rfl⟩
  | block index =>
    dsimp only at hrun
    split at hrun
    · cases hrun
    · next block hblock =>
      split at hrun
      · obtain ⟨rfl, rfl⟩ := Prod.mk.inj (pure_eq_ok_iff.mp hrun)
        exact .inl ⟨rfl, rfl⟩
      · next moved hmoved =>
        obtain ⟨rfl, rfl⟩ := Prod.mk.inj (pure_eq_ok_iff.mp hrun)
        obtain ⟨hcursor, hroom, rfl⟩ := Block.extend?_eq_some_iff.mp hmoved
        exact .inr ⟨index, block, place_of_storeOf?_block hstore, hblock, hcursor, hroom, rfl, rfl⟩

/-- **Giving a region back** moves the cursor of its block, or does nothing. -/
theorem reclaim_eq_ok {region : Region} {done : Bool}
    (hrun : pool.reclaim region = .ok (done, after)) :
    (done = false ∧ after = pool) ∨
      ∃ index block, region.place = .block index region.place.offset ∧
        pool.chain.blocks[index]? = some block ∧
        region.place.offset + region.length = block.cursor ∧ done = true ∧
        after = { pool with
          chain := pool.chain.setBlock index { block with cursor := region.place.offset } } := by
  obtain ⟨⟨store, offset⟩, hresolved, hrun⟩ := bind_eq_ok_iff.mp hrun
  obtain ⟨-, -, hstore, rfl⟩ := resolve_eq_ok_iff.mp (resolved_eq_ok_iff.mp hresolved)
  cases store with
  | slot index =>
    -- only a region in a block has a cursor to move back
    obtain ⟨rfl, rfl⟩ := Prod.mk.inj (pure_eq_ok_iff.mp hrun)
    exact .inl ⟨rfl, rfl⟩
  | block index =>
    dsimp only at hrun
    split at hrun
    · cases hrun
    · next block hblock =>
      split at hrun
      · obtain ⟨rfl, rfl⟩ := Prod.mk.inj (pure_eq_ok_iff.mp hrun)
        exact .inl ⟨rfl, rfl⟩
      · next moved hmoved =>
        obtain ⟨rfl, rfl⟩ := Prod.mk.inj (pure_eq_ok_iff.mp hrun)
        obtain ⟨hcursor, rfl⟩ := Block.reclaim?_eq_some_iff.mp hmoved
        exact .inr ⟨index, block, place_of_storeOf?_block hstore, hblock, hcursor, rfl, rfl⟩

/-- **A pool knows a region** that it hands out or takes: one of its own, in its present generation,
and with a store. -/
def Knows (pool : Pool) (region : Region) : Prop := ∃ found, pool.resolve region = .ok found

/-- A pool knows the regions it touches. -/
theorem knows_of_write (hrun : pool.write region start data = .ok after) : pool.Knows region := by
  obtain ⟨found, hlocate, -⟩ := bind_eq_ok_iff.mp hrun
  exact ⟨found, (locate_eq_ok_iff.mp hlocate).1⟩

theorem knows_of_copy {source target : Region} {length : Nat}
    (hrun : pool.copy source target length = .ok after) : pool.Knows target := by
  obtain ⟨-, hchecked⟩ := guard_eq_ok_iff.mp hrun
  obtain ⟨_, -, htargeted⟩ := bind_eq_ok_iff.mp hchecked
  obtain ⟨found, htarget, -⟩ := bind_eq_ok_iff.mp htargeted
  exact ⟨found, resolved_eq_ok_iff.mp htarget⟩

theorem knows_of_extend {extended : Option Region}
    (hrun : pool.extend region additional = .ok (extended, after)) : pool.Knows region := by
  obtain ⟨found, hresolved, -⟩ := bind_eq_ok_iff.mp hrun
  exact ⟨found, resolved_eq_ok_iff.mp hresolved⟩

theorem knows_of_reclaim {done : Bool} (hrun : pool.reclaim region = .ok (done, after)) :
    pool.Knows region := by
  obtain ⟨found, hresolved, -⟩ := bind_eq_ok_iff.mp hrun
  exact ⟨found, resolved_eq_ok_iff.mp hresolved⟩

/-- The buffer of a large region that a pool knows is one of its own. -/
theorem mem_buffers_of_knows {id : BufferId} (h : pool.Knows region)
    (hplace : region.place = .large id) : ∃ buffer ∈ pool.large.buffers, buffer.id = id := by
  obtain ⟨⟨store, offset⟩, hresolve⟩ := h
  obtain ⟨-, -, hstore, -⟩ := resolve_eq_ok_iff.mp hresolve
  rw [hplace] at hstore
  obtain ⟨index, hposition, -⟩ := Option.map_eq_some_iff.mp hstore
  obtain ⟨buffer, hfind, -⟩ := LargeTable.find?_isSome_of_position? hposition
  exact ⟨buffer, LargeTable.mem_of_find? hfind⟩

/-- A region that is not lengthened leaves the pool as it is. -/
theorem eq_of_extend_none {region : Region}
    (hrun : pool.extend region additional = .ok (none, after)) : after = pool := by
  rcases extend_eq_ok hrun with ⟨-, rfl⟩ | ⟨_, _, -, -, -, -, hsome, -⟩
  · rfl
  · cases hsome

end Operations

end Pool

end RegionPool
