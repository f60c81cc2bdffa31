import Mathlib.Data.List.Perm.Basic
import RegionPool.Proofs.Memory

/-!
# Leases

A caller who holds a region relies on two things: that the region reads what was last written to it,
and that nobody else writes there. A `Lease` is a region with the bytes its holder expects, and a
pool honours a list of leases (`Pool.Honours`) if it keeps each of them and no two share a byte.

The invariant behind it is that a region in a block ends at or before the cursor of its block,
unless it is empty, and that a large region is found under its number. Each operation is one lemma,
which takes the lease that the operation is about from the head of the list and leaves all others
alone:

* `Honours.claim`, `Honours.grow`, `Honours.enter` — new leases;
* `Honours.write`, `Honours.copy` — new bytes; `Honours.overwrite_through` for a write that is not
  through a leased region;
* `Honours.extend`, `Honours.reclaim`, `Honours.withdraw` — a lease lengthened or ended.

The order of the list does not matter (`Honours.perm`), and a lease may be given up at any time
(`Honours.sublist`).
-/

namespace RegionPool

/-- A region, with the bytes its holder expects there. -/
structure Lease where
  region : Region
  bytes : Bytes
  deriving Repr, DecidableEq

/-! ### Where regions lie -/

/-- **Two regions share no byte.** In one block an empty region is apart from every other one; large
regions are apart if their buffers are different. -/
structure Region.Apart (a b : Region) : Prop where
  block : ∀ index start start', a.place = .block index start → b.place = .block index start' →
    a.length = 0 ∨ b.length = 0 ∨ start + a.length ≤ start' ∨ start' + b.length ≤ start
  large : ∀ id, a.place = .large id → b.place ≠ .large id

theorem Region.Apart.symm {a b : Region} (h : a.Apart b) : b.Apart a where
  block index start start' hb ha := by
    have := h.block index start' start ha hb
    omega
  large id hb ha := h.large id ha hb

/-- The start of a region shares no byte that the region does not share. -/
theorem Region.Apart.shorten {a b : Region} {length : Nat} (h : a.Apart b)
    (hlength : length ≤ a.length) : { a with length }.Apart b where
  block index start start' ha hb := by
    have hblock := h.block index start start' ha hb
    dsimp only
    omega
  large := h.large

namespace Pool

/-! ### Regions in one store -/

section Store

variable {pool : Pool} {store : Store}

/-- **Regions that share no byte** have disjoint intervals if they are in one store. -/
theorem disjoint_of_storeOf? {a b : Region} (h : a.Apart b)
    (ha : pool.storeOf? a.place = some store) (hb : pool.storeOf? b.place = some store) :
    a.length = 0 ∨ b.length = 0 ∨ a.place.offset + a.length ≤ b.place.offset ∨
      b.place.offset + b.length ≤ a.place.offset := by
  cases hplace : a.place with
  | block index offset =>
    cases hplace' : b.place with
    | block index' offset' =>
      rw [hplace] at ha
      rw [hplace', ← ha] at hb
      -- one store is one block, so the intervals are compared in it
      obtain rfl : index' = index := Store.block.inj (Option.some.inj hb)
      exact h.block _ offset offset' hplace hplace'
    | large id => exact (storeOf?_block_ne_large (hplace ▸ ha) (hplace' ▸ hb)).elim
  | large id =>
    cases hplace' : b.place with
    | block index' offset' => exact (storeOf?_block_ne_large (hplace' ▸ hb) (hplace ▸ ha)).elim
    | large id' =>
      -- one slot holds one buffer, and large regions of one buffer are not apart
      have heq : id = id' := eq_of_storeOf?_large (hplace ▸ ha) (hplace' ▸ hb)
      exact absurd (heq ▸ hplace') (h.large id hplace)

end Store

/-! ### Leases that are honoured -/

/-- **A pool keeps a lease**: the region is one of this pool, in its present generation, and reads
what its holder expects; and if it is in a block and not empty, it ends at or before the cursor. -/
structure Keeps (pool : Pool) (lease : Lease) : Prop where
  owner : lease.region.pool = pool.id
  generation : lease.region.generation = pool.generation
  content : pool.content? lease.region = some lease.bytes
  inside : ∀ index offset, lease.region.place = .block index offset → lease.region.length ≠ 0 →
    ∃ block, pool.chain.blocks[index]? = some block ∧ block.start ≤ offset ∧
      offset + lease.region.length ≤ block.cursor

/-- **A pool honours leases**: it keeps each of them, no two share a byte, and its blocks are
sound. -/
structure Honours (pool : Pool) (leases : List Lease) : Prop where
  sound : ∀ block ∈ pool.chain.blocks, block.Sound
  keeps : ∀ lease ∈ leases, pool.Keeps lease
  apart : leases.Pairwise fun a b => a.region.Apart b.region

section Keeps

variable {pool after : Pool} {lease : Lease}

theorem Keeps.reads (h : pool.Keeps lease) : pool.bytes lease.region = .ok lease.bytes :=
  bytes_eq_ok_iff.mpr ⟨h.owner, h.generation, h.content⟩

theorem Keeps.knows (h : pool.Keeps lease) : pool.Knows lease.region := by
  obtain ⟨found, hresolved, -⟩ := bind_eq_ok_iff.mp h.reads
  exact ⟨found, resolved_eq_ok_iff.mp hresolved⟩

theorem Keeps.length_bytes (h : pool.Keeps lease) : lease.bytes.length = lease.region.length := by
  obtain ⟨buffer, -, hle, heq⟩ := content?_eq_some_iff.mp h.content
  rw [← heq, List.length_take, List.length_drop, Buffer.length_bytes]
  omega

/-- **The frame of a lease**: it is kept by every pool of the same number and generation that has
the same buffer at its place, and whose cursor there is not before the end of the region. -/
theorem Keeps.frame (h : pool.Keeps lease) (hid : after.id = pool.id)
    (hgeneration : after.generation = pool.generation)
    (hbuffer : ∀ buffer, pool.bufferAt? lease.region.place = some buffer →
      after.bufferAt? lease.region.place = some buffer)
    (hinside : ∀ index offset block, lease.region.place = .block index offset →
      lease.region.length ≠ 0 → pool.chain.blocks[index]? = some block →
      offset + lease.region.length ≤ block.cursor →
      ∃ moved, after.chain.blocks[index]? = some moved ∧ moved.start = block.start ∧
        offset + lease.region.length ≤ moved.cursor) : after.Keeps lease where
  owner := h.owner.trans hid.symm
  generation := h.generation.trans hgeneration.symm
  content := by
    -- the same buffer reads the same
    obtain ⟨buffer, hfound, hslice⟩ := content?_eq_some_iff.mp h.content
    exact content?_eq_some_iff.mpr ⟨buffer, hbuffer buffer hfound, hslice⟩
  inside index offset hplace hlength := by
    obtain ⟨block, hblock, hstart, hstop⟩ := h.inside index offset hplace hlength
    obtain ⟨moved, hmoved, heq, hcursor⟩ := hinside index offset block hplace hlength hblock hstop
    exact ⟨moved, hmoved, heq ▸ hstart, hcursor⟩

end Keeps

section Honours

variable {pool : Pool} {leases leases' : List Lease}

/-- The order of the leases does not matter. -/
theorem Honours.perm (h : pool.Honours leases) (hperm : leases.Perm leases') :
    pool.Honours leases' where
  sound := h.sound
  keeps lease hmem := h.keeps lease (hperm.mem_iff.mpr hmem)
  apart := (hperm.pairwise_iff fun hab => hab.symm).mp h.apart

/-- Leases may be given up. -/
theorem Honours.sublist (h : pool.Honours leases) (hsub : leases'.Sublist leases) :
    pool.Honours leases' where
  sound := h.sound
  keeps lease hmem := h.keeps lease (hsub.subset hmem)
  apart := h.apart.sublist hsub

variable {lease : Lease}

theorem Honours.head (h : pool.Honours (lease :: leases)) : pool.Keeps lease :=
  h.keeps lease List.mem_cons_self

theorem Honours.tail (h : pool.Honours (lease :: leases)) : pool.Honours leases :=
  h.sublist (List.sublist_cons_self lease leases)

theorem Honours.apart_head (h : pool.Honours (lease :: leases)) :
    ∀ other ∈ leases, lease.region.Apart other.region :=
  (List.pairwise_cons.mp h.apart).1

/-- One lease more: it is kept, and apart from the others. -/
theorem Honours.cons (h : pool.Honours leases) (hkeeps : pool.Keeps lease)
    (hapart : ∀ other ∈ leases, lease.region.Apart other.region) :
    pool.Honours (lease :: leases) where
  sound := h.sound
  keeps other hmem := by
    rcases List.mem_cons.mp hmem with rfl | hmem
    · exact hkeeps
    · exact h.keeps other hmem
  apart := List.pairwise_cons.mpr ⟨hapart, h.apart⟩

end Honours

/-! ### What regions read -/

/-- What a region reads; nothing if it cannot be read. -/
def contents (pool : Pool) (region : Region) : Bytes :=
  match pool.bytes region with
  | .ok bytes => bytes
  | .error _ => []

/-- A region, with what it reads. -/
def leaseOf (pool : Pool) (region : Region) : Lease := { region, bytes := pool.contents region }

section Contents

variable {pool : Pool} {leases : List Lease} {lease : Lease}

/-- What its holder expects of a region is what it reads. -/
theorem Honours.contents_eq (h : pool.Honours leases) (hmem : lease ∈ leases) :
    pool.contents lease.region = lease.bytes := by
  rw [contents, (h.keeps lease hmem).reads]

/-- **Leases that are honoured** are determined by their regions. -/
theorem Honours.map_leaseOf (h : pool.Honours leases) :
    (leases.map Lease.region).map pool.leaseOf = leases := by
  rw [List.map_map]
  calc leases.map (pool.leaseOf ∘ Lease.region)
    _ = leases.map fun lease => lease := List.map_congr_left fun lease hmem => by
      rw [Function.comp_apply, leaseOf, h.contents_eq hmem]
    _ = leases := List.map_id' leases

end Contents

/-! ### New leases -/

section Chain

variable {pool : Pool} {leases : List Lease} {block moved : Block} {index offset size : Nat}
  {packing : Packing} {buffer : Buffer}

/-- **Moving one cursor**: leases that end before the new cursor are kept. -/
theorem Keeps.setCursor {lease : Lease} (h : pool.Keeps lease)
    (hblock : pool.chain.blocks[index]? = some block) (cursor : Nat)
    (hstop : ∀ start, lease.region.place = .block index start → lease.region.length ≠ 0 →
      start + lease.region.length ≤ block.cursor → start + lease.region.length ≤ cursor) :
    { pool with chain := pool.chain.setBlock index { block with cursor } }.Keeps lease := by
  have hsame := bufferAt?_setBlock { block with cursor } hblock rfl lease.region.place
  refine h.frame rfl rfl (fun buffer hfound => hsame.trans hfound)
    fun other start old hplace hlength hold hle => ?_
  change ∃ moved, (pool.chain.setBlock index { block with cursor }).blocks[other]? = some moved ∧ _
  rw [Chain.getElem?_blocks_setBlock hblock]
  -- only the cursor of this one block is different
  by_cases heq : index = other
  · subst heq
    obtain rfl : block = old := Option.some.inj (hblock.symm.trans hold)
    exact ⟨{ block with cursor }, if_pos rfl, rfl, hstop start hplace hlength hle⟩
  · exact ⟨old, by rw [if_neg heq]; exact hold, rfl, hle⟩

/-- Moving one cursor keeps the blocks sound if the block is sound after it. -/
theorem Honours.sound_setBlock (h : pool.Honours leases) (hmoved : moved.Sound) :
    ∀ old ∈ (pool.chain.setBlock index moved).blocks, old.Sound := by
  intro old hmem
  rcases List.mem_or_eq_of_mem_set hmem with hmem | rfl
  · exact h.sound old hmem
  · exact hmoved

/-- A region of a block that ends inside the buffer can be read. -/
theorem exists_content? (pool : Pool) {chain : Chain} (hblock : chain.blocks[index]? = some block)
    (hstop : offset + size ≤ block.limit) :
    ∃ bytes, { pool with chain }.content? (pool.regionAt size (.block index offset)) =
      some bytes := by
  have hbuffer : { pool with chain }.bufferAt? (.block index offset) = some block.buffer := by
    change chain.blocks[index]?.map Block.buffer = _
    rw [hblock]
    rfl
  exact ⟨_, content?_eq_some_iff.mpr ⟨block.buffer, hbuffer, hstop, rfl⟩⟩

/-- **A request served from the chain** leases bytes behind everything that was leased in the
block. -/
theorem Honours.claim {chain : Chain} (h : pool.Honours leases)
    (hclaim : pool.chain.claim? size packing = some (index, offset, chain)) :
    ∃ bytes, { pool with chain }.Honours
      (⟨pool.regionAt size (.block index offset), bytes⟩ :: leases) := by
  obtain ⟨block, moved, hblock, hbump, rfl⟩ := Chain.exists_of_claim? hclaim
  have hsound := h.sound block (List.mem_of_getElem? hblock)
  have hmoved := hsound.bump? hbump
  obtain ⟨htarget, hlimit, rfl⟩ := Block.bump?_eq_some_iff.mp hbump
  -- the new region starts at or behind the cursor, so everything leased before ends in front of it
  have hcursor := Block.cursor_le_of_target? htarget
  have hafter : (pool.chain.setBlock index { block with cursor := offset + size }).blocks[index]? =
      some { block with cursor := offset + size } := by
    rw [Chain.getElem?_blocks_setBlock hblock, if_pos rfl]
  obtain ⟨bytes, hbytes⟩ := exists_content? pool hafter hlimit
  refine ⟨bytes, Honours.cons ⟨h.sound_setBlock hmoved, fun lease hmem => ?_, h.apart⟩ ?_ ?_⟩
  · refine (h.keeps lease hmem).setCursor hblock _ fun start _ _ hle => ?_
    omega
  · refine ⟨rfl, rfl, hbytes, fun other start hplace _ => ?_⟩
    obtain ⟨rfl, rfl⟩ := Place.block.inj hplace
    refine ⟨_, hafter, ?_, Nat.le_refl _⟩
    have := hsound.start_le_cursor
    dsimp only
    omega
  · -- The other leases of the block end before the old cursor, the new one starts behind it.
    intro other hmem
    refine ⟨fun index' start start' hplace hplace' => ?_, fun id hplace => nomatch hplace⟩
    obtain ⟨rfl, rfl⟩ := Place.block.inj hplace
    by_cases hempty : other.region.length = 0
    · exact .inr (.inl hempty)
    · obtain ⟨old, hold, -, hstop⟩ := (h.keeps other hmem).inside _ _ hplace' hempty
      obtain rfl : block = old := Option.some.inj (hblock.symm.trans hold)
      have : start' + other.region.length ≤ offset := by omega
      exact .inr (.inr (.inr this))

/-- **A request served by growth** leases bytes in a block of their own. -/
theorem Honours.grow {header : Nat} (h : pool.Honours leases)
    (hbump : (Block.ofBuffer buffer header).bump? size packing = some (offset, block)) :
    ∃ bytes, { pool with chain := pool.chain.grow block }.Honours
      (⟨pool.regionAt size (.block pool.blockCount offset), bytes⟩ :: leases) := by
  have hmoved : block.Sound := Block.sound_of_bump? (Nat.le_refl _) hbump
  obtain ⟨htarget, hlimit, rfl⟩ := Block.bump?_eq_some_iff.mp hbump
  have hcursor := Block.cursor_le_of_target? htarget
  let block : Block := { Block.ofBuffer buffer header with cursor := offset + size }
  have hself : (pool.chain.grow block).blocks[pool.blockCount]? = some block :=
    Chain.getElem?_blocks_grow_self
  obtain ⟨bytes, hbytes⟩ := exists_content? pool hself hlimit
  refine ⟨bytes, Honours.cons ⟨fun old hmem => ?_, fun lease hmem => ?_, h.apart⟩ ?_ ?_⟩
  · -- growth counts failures, and those have no part in soundness
    obtain ⟨index, hindex⟩ := List.mem_iff_getElem?.mp hmem
    rw [Chain.getElem?_blocks_grow] at hindex
    split at hindex
    · obtain rfl := Option.some.inj hindex
      exact hmoved
    · obtain ⟨before, hbefore, rfl⟩ := Option.map_eq_some_iff.mp hindex
      have hsound := h.sound before (List.mem_of_getElem? hbefore)
      split
      · exact ⟨hsound.start_le_cursor, hsound.cursor_le_limit⟩
      · exact hsound
  · -- what is leased stays where it is: growth moves neither a buffer nor a cursor
    refine (h.keeps lease hmem).frame rfl rfl (fun found hfound => ?_)
      fun index start old _ _ hget hle => ?_
    · cases hplace : lease.region.place with
      | block index start =>
        rw [hplace] at hfound
        obtain ⟨old, hget, rfl⟩ := Option.map_eq_some_iff.mp hfound
        obtain ⟨noted, hnoted, hbuffer, -⟩ := Chain.exists_of_getElem?_grow hget
        exact Option.map_eq_some_iff.mpr ⟨noted, hnoted, hbuffer⟩
      | large id =>
        rw [hplace, bufferAt?_large] at hfound
        rw [bufferAt?_large]
        exact hfound
    · obtain ⟨noted, hnoted, -, hstart, hcursor⟩ := Chain.exists_of_getElem?_grow hget
      exact ⟨noted, hnoted, hstart, by rw [hcursor]; exact hle⟩
  · refine ⟨rfl, rfl, hbytes, fun index start hplace _ => ?_⟩
    obtain ⟨rfl, rfl⟩ := Place.block.inj hplace
    exact ⟨_, Chain.getElem?_blocks_grow_self, hcursor, Nat.le_refl _⟩
  · -- No region that was leased before is in the new block.
    intro other hmem
    refine ⟨fun index start start' hplace hplace' => ?_, fun id hplace => nomatch hplace⟩
    obtain ⟨rfl, rfl⟩ := Place.block.inj hplace
    by_cases hempty : other.region.length = 0
    · exact .inr (.inl hempty)
    · -- a region that is not empty is in a block, and its number is below that of the new one
      obtain ⟨old, hget, -⟩ := (h.keeps other hmem).inside _ _ hplace' hempty
      exact absurd (List.getElem?_eq_some_iff.mp hget).1 (Nat.lt_irrefl _)

end Chain

/-! ### Large leases -/

section Large

variable {pool : Pool} {leases : List Lease} {large : LargeTable} {buffer : Buffer}

/-- A change to the table of large buffers keeps a lease if its number is found as before. -/
theorem Keeps.setLarge {lease : Lease} (h : pool.Keeps lease)
    (hfound : ∀ id, lease.region.place = .large id → (pool.large.find? id).isSome →
      large.find? id = pool.large.find? id) :
    { pool with large }.Keeps lease := by
  refine h.frame rfl rfl (fun found hbuffer => ?_) fun index start block _ _ hget hle =>
    ⟨block, hget, rfl, hle⟩
  -- a lease in a block does not notice the table
  cases hplace : lease.region.place with
  | block index start =>
    rw [hplace] at hbuffer
    exact hbuffer
  | large id =>
    rw [hplace, bufferAt?_large] at hbuffer
    have hsome : (pool.large.find? id).isSome := Option.isSome_iff_exists.mpr ⟨found, hbuffer⟩
    rw [bufferAt?_large]
    exact (hfound id hplace hsome).trans hbuffer

/-- **A request served with a buffer of its own** leases the whole buffer, if its number is new. -/
theorem Honours.enter (h : pool.Honours leases) (hself : large.find? buffer.id = some buffer)
    (hothers : ∀ id, buffer.id ≠ id → large.find? id = pool.large.find? id)
    (hfresh : ∀ held ∈ pool.large.buffers, held.id ≠ buffer.id) :
    { pool with large }.Honours
      (⟨pool.regionAt buffer.length (.large buffer.id), buffer.bytes⟩ :: leases) := by
  -- a number that is found is that of a buffer which the pool holds, so it is not the new one
  have hne : ∀ id, (pool.large.find? id).isSome → buffer.id ≠ id := by
    rintro id hsome rfl
    obtain ⟨held, hheld⟩ := Option.isSome_iff_exists.mp hsome
    obtain ⟨hmem, hid⟩ := LargeTable.mem_of_find? hheld
    exact hfresh held hmem hid
  refine Honours.cons ⟨h.sound, fun lease hmem => ?_, h.apart⟩ ?_ ?_
  · exact (h.keeps lease hmem).setLarge fun id _ hsome => hothers id (hne id hsome)
  · refine ⟨rfl, rfl, content?_eq_some_iff.mpr ⟨buffer, ?_, ?_, ?_⟩,
      fun _ _ hplace => nomatch hplace⟩
    · exact (bufferAt?_large _ _).trans hself
    · exact Nat.le_of_eq (Nat.zero_add _)
    · change (buffer.bytes.drop 0).take buffer.length = buffer.bytes
      rw [List.drop_zero, List.take_of_length_le (Nat.le_of_eq buffer.length_bytes)]
  · intro other hmem
    refine ⟨fun _ _ _ hplace _ => (nomatch hplace), fun id hplace hother => ?_⟩
    -- a lease under the new number would find a buffer there already
    obtain rfl := Place.large.inj hplace
    obtain ⟨held, hheld, -⟩ := content?_eq_some_iff.mp (h.keeps other hmem).content
    rw [hother, bufferAt?_large] at hheld
    exact hne _ (Option.isSome_iff_exists.mpr ⟨held, hheld⟩) rfl

/-- **A large buffer taken out** ends the lease of its number and no other. -/
theorem Honours.withdraw {id : BufferId} (h : pool.Honours leases)
    (htake : pool.large.take? id = some (buffer, large))
    (hothers : ∀ lease ∈ leases, lease.region.place ≠ .large id) :
    { pool with large }.Honours leases where
  sound := h.sound
  keeps lease hmem := (h.keeps lease hmem).setLarge fun _ hplace _ =>
    LargeTable.find?_take?_of_ne htake fun heq => hothers lease hmem (heq ▸ hplace)
  apart := h.apart

end Large

/-! ### New bytes -/

section Overwrite

variable {pool : Pool} {leases : List Lease} {lease : Lease} {region : Region} {store : Store}
  {offset start : Nat} {data bytes : Bytes}

/-- **Writing inside a region** changes what the region reads. -/
private theorem content?_overwrite_self (hcontent : pool.content? region = some bytes)
    (hstore : pool.storeOf? region.place = some store)
    (hfits : start + data.length ≤ region.length) :
    (pool.overwrite store (region.place.offset + start) data).content? region =
      some (bytes.overwrite start data) := by
  obtain ⟨buffer, hbuffer, hle, rfl⟩ := content?_eq_some_iff.mp hcontent
  -- inside the region is inside the buffer
  have hinside : region.place.offset + start + data.length ≤ buffer.length := by omega
  refine content?_eq_some_iff.mpr ⟨buffer.overwrite (region.place.offset + start) data, ?_, ?_, ?_⟩
  · rw [bufferAt?_overwrite, if_pos hstore, hbuffer, Option.map_some]
  · rw [Buffer.length_overwrite hinside]
    exact hle
  · rw [Buffer.bytes_overwrite hinside]
    exact Bytes.take_drop_overwrite (by rw [Buffer.length_bytes]; exact hle) hfits

/-- **Writing inside a region** changes nothing that a region apart from it reads. -/
theorem content?_overwrite_of_apart {other : Region} {found : Buffer}
    (hbuffer : pool.bufferAt? region.place = some found)
    (hle : region.place.offset + region.length ≤ found.length)
    (hstore : pool.storeOf? region.place = some store)
    (hfits : start + data.length ≤ region.length) (hapart : region.Apart other) :
    (pool.overwrite store (region.place.offset + start) data).content? other =
      pool.content? other := by
  rw [content?, content?, bufferAt?_overwrite]
  by_cases hshared : pool.storeOf? other.place = some store
  · -- both regions are in the buffer that is written to; apart, they have disjoint intervals of it
    have hsame : pool.bufferAt? other.place = some found := by
      rw [bufferAt?, hshared, ← hstore, ← bufferAt?, hbuffer]
    have hinside : region.place.offset + start + data.length ≤ found.length := by omega
    rw [if_pos hshared, hsame, Option.map_some, Option.bind_some, Option.bind_some,
      Buffer.slice?_eq, Buffer.slice?_eq, Buffer.bytes_overwrite hinside]
    refine Bytes.slice?_overwrite_of_disjoint (by rw [Buffer.length_bytes]; exact hinside) ?_
    have := disjoint_of_storeOf? hapart hstore hshared
    omega
  · rw [if_neg hshared]

/-- Writing inside a region keeps every block sound. -/
private theorem sound_overwrite {found : Buffer} (hsound : ∀ block ∈ pool.chain.blocks, block.Sound)
    (hstore : pool.storeBuffer? store = some found)
    (hinside : offset + data.length ≤ found.length) :
    ∀ block ∈ (pool.overwrite store offset data).chain.blocks, block.Sound := by
  cases store with
  | slot other => exact hsound
  | block other =>
    intro block hmem
    obtain ⟨index, hindex⟩ := List.mem_iff_getElem?.mp hmem
    change (pool.chain.overwrite other offset data).blocks[index]? = _ at hindex
    rw [Chain.getElem?_blocks_overwrite] at hindex
    split at hindex
    · next heq =>
      obtain ⟨old, hold, rfl⟩ := Option.map_eq_some_iff.mp hindex
      obtain ⟨old', hold', rfl⟩ := Option.map_eq_some_iff.mp hstore
      -- the block that is written to keeps its cursor and the length of its buffer
      obtain rfl : old = old' := Option.some.inj (hold.symm.trans (heq ▸ hold'))
      have h := hsound old (List.mem_of_getElem? hold)
      refine ⟨h.start_le_cursor, ?_⟩
      change old.cursor ≤ (old.buffer.overwrite offset data).length
      rw [Buffer.length_overwrite hinside]
      exact h.cursor_le_limit
    · exact hsound block (List.mem_of_getElem? hindex)

/-- A write moves no cursor, so every region stays inside its block. -/
private theorem Keeps.inside_overwrite (h : pool.Keeps lease) : ∀ index start,
    lease.region.place = .block index start → lease.region.length ≠ 0 →
    ∃ block, (pool.overwrite store offset data).chain.blocks[index]? = some block ∧
      block.start ≤ start ∧ start + lease.region.length ≤ block.cursor := by
  intro index start hplace hlength
  obtain ⟨block, hblock, hstart, hstop⟩ := h.inside index start hplace hlength
  obtain ⟨written, hwritten, hstart', hcursor⟩ := exists_block_overwrite hblock
  exact ⟨written, hwritten, hstart'.symm ▸ hstart, hcursor.symm ▸ hstop⟩

/-- A write leaves the traits of a pool on which its leases depend. -/
private theorem traits_overwrite (pool : Pool) (store : Store) (offset : Nat) (data : Bytes) :
    (pool.overwrite store offset data).id = pool.id ∧
      (pool.overwrite store offset data).generation = pool.generation := by
  cases store <;> exact ⟨rfl, rfl⟩

/-- **A write to a leased region** changes the bytes of its lease and of no other. -/
theorem Honours.overwrite (h : pool.Honours (lease :: leases))
    (hstore : pool.storeOf? lease.region.place = some store)
    (hfits : start + data.length ≤ lease.region.length) :
    (pool.overwrite store (lease.region.place.offset + start) data).Honours
      (⟨lease.region, lease.bytes.overwrite start data⟩ :: leases) := by
  obtain ⟨found, hbuffer, hle, -⟩ := content?_eq_some_iff.mp h.head.content
  have hfound : pool.storeBuffer? store = some found := by
    rw [bufferAt?, hstore] at hbuffer
    exact hbuffer
  -- the other leases lie apart from this one, so what is written here misses them
  let after := pool.overwrite store (lease.region.place.offset + start) data
  obtain ⟨hid, hgeneration⟩ :=
    traits_overwrite pool store (lease.region.place.offset + start) data
  have hsound : ∀ block ∈ after.chain.blocks, block.Sound :=
    sound_overwrite h.sound hfound (by omega)
  refine Honours.cons ⟨hsound, fun other hmem => ?_, h.tail.apart⟩ ?_ h.apart_head
  · have hkeeps := h.tail.keeps other hmem
    exact ⟨hkeeps.owner.trans hid.symm, hkeeps.generation.trans hgeneration.symm,
      (content?_overwrite_of_apart hbuffer hle hstore hfits (h.apart_head other hmem)).trans
        hkeeps.content, hkeeps.inside_overwrite⟩
  · exact ⟨h.head.owner.trans hid.symm, h.head.generation.trans hgeneration.symm,
      content?_overwrite_self h.head.content hstore hfits, h.head.inside_overwrite⟩

/-- **A write through any region** is seen by those who share bytes with the region. Everyone else
reads what was there before. -/
theorem Honours.overwrite_through {kept : List Lease} (h : pool.Honours (leases ++ kept))
    (hstore : pool.storeOf? region.place = some store)
    (hspans : pool.spans store region.place.offset region.length = true)
    (hfits : start + data.length ≤ region.length)
    (hapart : ∀ lease ∈ kept, region.Apart lease.region) :
    ∃ reread : List Lease, reread.map Lease.region = leases.map Lease.region ∧
      (pool.overwrite store (region.place.offset + start) data).Honours (reread ++ kept) := by
  obtain ⟨found, hfound, hle⟩ := spans_eq_true_iff.mp hspans
  have hbuffer : pool.bufferAt? region.place = some found := by
    rw [bufferAt?, hstore]
    exact hfound
  let after := pool.overwrite store (region.place.offset + start) data
  obtain ⟨hid, hgeneration⟩ := traits_overwrite pool store (region.place.offset + start) data
  have hsound : ∀ block ∈ after.chain.blocks, block.Sound :=
    sound_overwrite h.sound hfound (by omega)
  -- whatever was written to, every region can still be read
  have hreread : ∀ lease, pool.Keeps lease → after.Keeps (after.leaseOf lease.region) := by
    intro lease hkeeps
    obtain ⟨buffer, hread, hinside, -⟩ := content?_eq_some_iff.mp hkeeps.content
    obtain ⟨written, hwritten, hlength⟩ : ∃ written,
        after.bufferAt? lease.region.place = some written ∧ written.length = buffer.length := by
      rw [bufferAt?_overwrite, hread]
      split
      · next hsame =>
        obtain rfl : buffer = found := by
          rw [bufferAt?, hsame] at hread
          exact Option.some.inj (hread.symm.trans hfound)
        exact ⟨_, rfl, Buffer.length_overwrite (by omega)⟩
      · exact ⟨buffer, rfl, rfl⟩
    have hcontent := content?_eq_some_iff.mpr ⟨written, hwritten, hlength ▸ hinside, rfl⟩
    have howner := hkeeps.owner.trans hid.symm
    have hpresent := hkeeps.generation.trans hgeneration.symm
    refine ⟨howner, hpresent, ?_, hkeeps.inside_overwrite⟩
    change after.content? lease.region = some (after.contents lease.region)
    rw [contents, bytes_eq_ok_iff.mpr ⟨howner, hpresent, hcontent⟩, hcontent]
  have hregions : (leases.map fun lease => after.leaseOf lease.region).map Lease.region =
      leases.map Lease.region := by
    rw [List.map_map]
    rfl
  refine ⟨_, hregions, hsound, fun lease hmem => ?_, ?_⟩
  · rcases List.mem_append.mp hmem with hmem | hkept
    · obtain ⟨before, hbefore, rfl⟩ := List.mem_map.mp hmem
      exact hreread before (h.keeps before (List.mem_append_left _ hbefore))
    · have hkeeps := h.keeps lease (List.mem_append_right _ hkept)
      exact ⟨hkeeps.owner.trans hid.symm, hkeeps.generation.trans hgeneration.symm,
        (content?_overwrite_of_apart hbuffer hle hstore hfits (hapart lease hkept)).trans
          hkeeps.content, hkeeps.inside_overwrite⟩
  · -- the regions are the same ones
    have hpairwise := List.pairwise_map.mpr h.apart
    rw [List.map_append, ← hregions, ← List.map_append] at hpairwise
    exact List.pairwise_map.mp hpairwise

/-! ### Writing and copying through the interface -/

/-- A lease is located. -/
theorem Keeps.locate (h : pool.Keeps lease) :
    ∃ store, pool.storeOf? lease.region.place = some store ∧
      pool.locate lease.region = .ok (store, lease.region.place.offset) := by
  obtain ⟨buffer, hbuffer, hle, -⟩ := content?_eq_some_iff.mp h.content
  obtain ⟨store, hresolve, hstore⟩ := exists_resolve h.owner h.generation hbuffer
  refine ⟨store, (resolve_eq_ok_iff.mp hresolve).2.2.1, locate_eq_ok_iff.mpr ⟨hresolve, ?_⟩⟩
  exact spans_eq_true_iff.mpr ⟨buffer, hstore, hle⟩

/-- **A write to a leased region** succeeds if it ends inside the region. -/
theorem Honours.write (h : pool.Honours (lease :: leases))
    (hfits : start + data.length ≤ lease.region.length) :
    ∃ after, pool.write lease.region start data = .ok after ∧
      after.Honours (⟨lease.region, lease.bytes.overwrite start data⟩ :: leases) := by
  obtain ⟨store, hstore, hlocate⟩ := h.head.locate
  exact ⟨_, bind_eq_ok_iff.mpr ⟨_, hlocate, guard_eq_ok_iff.mpr ⟨hfits, rfl⟩⟩,
    h.overwrite hstore hfits⟩

/-- Part of a lease is read from its bytes. -/
theorem Keeps.bytesIn {length : Nat} (h : pool.Keeps lease)
    (hfits : start + length ≤ lease.region.length) :
    pool.bytesIn lease.region start length = .ok ((lease.bytes.drop start).take length) := by
  obtain ⟨store, hstore, hlocate⟩ := h.locate
  obtain ⟨buffer, hbuffer, hle, hbytes⟩ := content?_eq_some_iff.mp h.content
  rw [bufferAt?, hstore] at hbuffer
  -- a slice of a slice, counted from the start of the buffer
  have hslice : buffer.slice? (lease.region.place.offset + start) length =
      some ((lease.bytes.drop start).take length) := by
    rw [Buffer.slice?_eq, Bytes.slice?_eq_some_iff, Buffer.length_bytes, ← hbytes]
    refine ⟨by omega, ?_⟩
    rw [List.drop_take, List.drop_drop, List.take_take, Nat.min_eq_left (by omega)]
  rw [Pool.bytesIn, bind_eq_ok_iff]
  refine ⟨_, hlocate, guard_eq_ok_iff.mpr ⟨hfits, ?_⟩⟩
  change pool.storeBuffer? store = some buffer at hbuffer
  rw [load, hbuffer, Option.bind_some, hslice]

/-- The start of a lease reads the start of its bytes. -/
theorem Keeps.bytes_take {length : Nat} (h : pool.Keeps lease)
    (hlength : length ≤ lease.region.length) :
    pool.bytes { lease.region with length } = .ok (lease.bytes.take length) := by
  obtain ⟨buffer, hbuffer, hle, hbytes⟩ := content?_eq_some_iff.mp h.content
  refine bytes_eq_ok_iff.mpr ⟨h.owner, h.generation,
    content?_eq_some_iff.mpr ⟨buffer, hbuffer, ?_, ?_⟩⟩
  · exact Nat.le_trans (Nat.add_le_add_left hlength _) hle
  · rw [← hbytes, List.take_take, Nat.min_eq_left hlength]

/-- **A copy to a leased region** writes the first bytes of the source to it. -/
theorem Honours.copy {source : Region} {length : Nat} {after : Pool}
    (h : pool.Honours (lease :: leases))
    (hrun : pool.copy source lease.region length = .ok after) :
    ∃ data, pool.bytes { source with length } = .ok data ∧ data.length = length ∧
      after.Honours (⟨lease.region, lease.bytes.overwrite 0 data⟩ :: leases) := by
  obtain ⟨hfits, store, data, hdata, hlength, hstore, -, rfl⟩ := copy_eq_ok hrun
  have hstart : 0 + data.length ≤ lease.region.length := by omega
  exact ⟨data, hdata, hlength, h.overwrite hstore hstart⟩

end Overwrite

/-! ### The region claimed last -/

section Last

variable {pool after : Pool} {leases : List Lease} {lease : Lease} {additional : Nat}

/-- Another lease that is not empty and ends at or before the cursor ends before the region that
ends at the cursor. -/
private theorem Honours.stop_le_of_last {other : Lease} {index start : Nat} {block : Block}
    (h : pool.Honours (lease :: leases)) (hmem : other ∈ leases)
    (hplace : lease.region.place = .block index lease.region.place.offset)
    (hother : other.region.place = .block index start) (hlength : other.region.length ≠ 0)
    (hlast : lease.region.place.offset + lease.region.length = block.cursor)
    (hstop : start + other.region.length ≤ block.cursor) :
    start + other.region.length ≤ lease.region.place.offset := by
  have := (h.apart_head other hmem).block _ _ _ hplace hother
  omega

/-- **A lengthened lease** goes on with the bytes behind it. Nobody else had leased them: the region
ended at the cursor of its block. -/
theorem Honours.extend {longer : Region} (h : pool.Honours (lease :: leases))
    (hrun : pool.extend lease.region additional = .ok (some longer, after)) :
    longer = { lease.region with length := lease.region.length + additional } ∧
      ∃ tail, tail.length = additional ∧
        after.Honours (⟨longer, lease.bytes ++ tail⟩ :: leases) := by
  rcases extend_eq_ok hrun with
    ⟨hnone, -⟩ | ⟨index, block, hplace, hblock, hlast, hroom, hsome, rfl⟩
  · cases hnone
  obtain rfl := Option.some.inj hsome
  refine ⟨rfl, ?_⟩
  have hsound := h.sound block (List.mem_of_getElem? hblock)
  obtain ⟨hstart, hlimit⟩ := hsound
  obtain ⟨buffer, hbuffer, hle, hbytes⟩ := content?_eq_some_iff.mp h.head.content
  obtain rfl : block.buffer = buffer := by
    rw [hplace, bufferAt?_block, hblock] at hbuffer
    exact Option.some.inj hbuffer
  have hfits : block.cursor + additional ≤ block.buffer.length := by
    rw [Block.limit] at hlimit hroom
    omega
  let moved : Block := { block with cursor := block.cursor + additional }
  have hafter : (pool.chain.setBlock index moved).blocks[index]? = some moved := by
    rw [Chain.getElem?_blocks_setBlock hblock, if_pos rfl]
  -- the region ended at the cursor: the bytes it gets are those that follow in the buffer
  refine ⟨(block.buffer.bytes.drop block.cursor).take additional, ?_, Honours.cons
    ⟨h.sound_setBlock ⟨Nat.le_trans hstart (Nat.le_add_right _ _), hfits⟩, fun other hmem => ?_,
      h.tail.apart⟩ ⟨h.head.owner, h.head.generation, ?_, ?_⟩ fun other hmem => ?_⟩
  · rw [List.length_take, List.length_drop, Buffer.length_bytes]
    omega
  · refine (h.tail.keeps other hmem).setCursor hblock _ fun start _ _ hstop => ?_
    omega
  · -- the old bytes and the tail are read in one go, from the same buffer
    have hsame := bufferAt?_setBlock { block with cursor := block.cursor + additional } hblock rfl
      lease.region.place
    refine content?_eq_some_iff.mpr ⟨block.buffer, hsame.trans hbuffer, ?_, ?_⟩
    · change lease.region.place.offset + (lease.region.length + additional) ≤ _
      omega
    · change (block.buffer.bytes.drop lease.region.place.offset).take
        (lease.region.length + additional) = _
      rw [List.take_add, hbytes, List.drop_drop, hlast]
  · intro index' start hplace' _
    obtain ⟨rfl, rfl⟩ := Place.block.inj (hplace.symm.trans hplace')
    refine ⟨_, hafter, ?_, ?_⟩
    · -- An empty region at the cursor starts where the cursor is.
      by_cases hempty : lease.region.length = 0
      · change block.start ≤ _
        omega
      · obtain ⟨old, hold, hle', -⟩ := h.head.inside _ _ hplace hempty
        obtain rfl : block = old := Option.some.inj (hblock.symm.trans hold)
        exact hle'
    · change _ + (lease.region.length + additional) ≤ block.cursor + additional
      omega
  · -- all others in the block end before the region starts, so the tail is nobody else's
    refine ⟨fun index' start start' hplace' hother => ?_, (h.apart_head other hmem).large⟩
    obtain ⟨rfl, rfl⟩ := Place.block.inj (hplace.symm.trans hplace')
    by_cases hempty : other.region.length = 0
    · exact .inr (.inl hempty)
    · obtain ⟨old, hold, -, hstop⟩ := (h.tail.keeps other hmem).inside _ _ hother hempty
      obtain rfl : block = old := Option.some.inj (hblock.symm.trans hold)
      exact .inr (.inr (.inr (h.stop_le_of_last hmem hplace hother hempty hlast hstop)))

/-- **A lease that is given back** ends. No other one reached behind its start. -/
theorem Honours.reclaim {done : Bool} (h : pool.Honours (lease :: leases))
    (hrun : pool.reclaim lease.region = .ok (done, after)) :
    after.Honours leases := by
  rcases reclaim_eq_ok hrun with ⟨-, rfl⟩ | ⟨index, block, hplace, hblock, hlast, -, rfl⟩
  · exact h.tail
  have hsound := h.sound block (List.mem_of_getElem? hblock)
  -- the cursor goes back to the start of the region, which is not in front of the block
  have hstart : block.start ≤ lease.region.place.offset := by
    by_cases hempty : lease.region.length = 0
    · have := hsound.start_le_cursor
      omega
    · obtain ⟨old, hold, hle, -⟩ := h.head.inside _ _ hplace hempty
      obtain rfl : block = old := Option.some.inj (hblock.symm.trans hold)
      exact hle
  have hlimit : lease.region.place.offset ≤ block.limit := by
    have := hsound.cursor_le_limit
    omega
  refine ⟨h.sound_setBlock ⟨hstart, hlimit⟩, fun other hmem => ?_, h.tail.apart⟩
  exact (h.tail.keeps other hmem).setCursor hblock _ fun start hother hlength hstop =>
    h.stop_le_of_last hmem hplace hother hlength hlast hstop

end Last

end Pool

end RegionPool
