import RegionPool.Proofs.Moves
import RegionPool.Proofs.Worlds

/-!
# Where regions stay

A region says where it lives, and what is behind its place can be written to, but not exchanged: a
block stays in the chain as long as the pool lasts, and the number of a large buffer is given to no
other. A `Site` is a buffer without what it holds, and this module says of single changes to a pool
that the sites behind its places stay.

* `Pool.siteOf?` — the site of a place, and `exists_content?_of_fitsIn`: a region that fits its site
  can be read;
* `Pool.Houses` — a region is one of this pool, in its present generation, and fits its site;
* `PoolState.Fit` — what keeps a pool fit to serve requests;
* `PoolState.Spares` — a pool moves on and leaves every site where it is; `Spares.setCursor`,
  `Spares.grow`, `Spares.enter`, `Spares.overwrite` — the changes that do.
-/

namespace RegionPool

/-! ### Sites -/

/-- **A site**: a buffer without what it holds, and the offset in it from which on bytes are handed
out. -/
structure Site where
  id : BufferId
  base : Nat
  start : Nat
  length : Nat
  deriving Repr, DecidableEq

/-- The site of a buffer. -/
def Buffer.site (buffer : Buffer) (start : Nat) : Site :=
  { id := buffer.id, base := buffer.base, start, length := buffer.length }

/-- The site of a block. -/
def Block.site (block : Block) : Site := block.buffer.site block.start

/-- Whether a region lies in a site. -/
def Region.FitsIn (region : Region) (site : Site) : Prop :=
  site.start ≤ region.place.offset ∧ region.place.offset + region.length ≤ site.length

/-- What is claimed in a block lies in its site. -/
theorem Pool.fitsIn_of_bump? (pool : Pool) {block moved : Block} {index size offset : Nat}
    {packing : Packing} (hstart : block.start ≤ block.cursor)
    (hbump : block.bump? size packing = some (offset, moved)) :
    (pool.regionAt size (.block index offset)).FitsIn moved.site := by
  obtain ⟨htarget, hlimit, rfl⟩ := Block.bump?_eq_some_iff.mp hbump
  exact ⟨Nat.le_trans hstart (Block.cursor_le_of_target? htarget), hlimit⟩

/-- A write keeps the size of every chunk, even if it goes on behind the last one. -/
theorem Chunk.sizes_write (chunks : List Chunk) (offset : Nat) (data : Bytes) :
    (write chunks offset data).map Chunk.size = chunks.map Chunk.size := by
  induction chunks generalizing offset data with
  | nil => rfl
  | cons chunk rest ih =>
    have hsize := chunk.length_bytes
    rw [write]
    split
    · rfl
    split
    · rw [List.map_cons, List.map_cons, ih]
    · rw [List.map_cons, List.map_cons, ih]
      -- only what fits in the first chunk is written there
      refine congrArg (· :: _) ?_
      change (chunk.bytes.overwrite offset (data.take (chunk.size - offset))).length = chunk.size
      rw [Bytes.length_overwrite (by rw [List.length_take]; omega), hsize]

/-- **Writing to a buffer** leaves its length, wherever it is written. -/
@[simp] theorem Buffer.length_overwrite_any (buffer : Buffer) (offset : Nat) (data : Bytes) :
    (buffer.overwrite offset data).length = buffer.length :=
  congrArg List.sum (Chunk.sizes_write buffer.memory.chunks offset data)

/-- It leaves its site. -/
@[simp] theorem Buffer.site_overwrite (buffer : Buffer) (offset : Nat) (data : Bytes)
    (start : Nat) : (buffer.overwrite offset data).site start = buffer.site start := by
  rw [Buffer.site, Buffer.site, Buffer.length_overwrite_any]
  rfl

namespace Pool

/-- **The site of a place**, if there is one. -/
def siteOf? (pool : Pool) : Place → Option Site
  | .block index _ => pool.chain.blocks[index]?.map Block.site
  | .large id => (pool.large.find? id).map (·.site 0)

/-- **A pool houses a region**: it is one of this pool, in its present generation, and fits its
site. -/
structure Houses (pool : Pool) (region : Region) : Prop where
  owner : region.pool = pool.id
  generation : region.generation = pool.generation
  site : ∃ site, pool.siteOf? region.place = some site ∧ region.FitsIn site

section Sites

variable {pool after : Pool} {region : Region} {place : Place} {site : Site}

/-- The buffer behind a place that has a site. -/
theorem exists_bufferAt? (h : pool.siteOf? place = some site) : ∃ buffer,
    pool.bufferAt? place = some buffer ∧ buffer.id = site.id ∧ buffer.base = site.base ∧
      buffer.length = site.length := by
  cases place with
  | block index offset =>
    obtain ⟨block, hblock, rfl⟩ := Option.map_eq_some_iff.mp h
    refine ⟨block.buffer, ?_, rfl, rfl, rfl⟩
    rw [bufferAt?_block, hblock, Option.map_some]
  | large id =>
    obtain ⟨buffer, hfind, rfl⟩ := Option.map_eq_some_iff.mp h
    exact ⟨buffer, (bufferAt?_large _ _).trans hfind, rfl, rfl, rfl⟩

/-- A region that fits its site has its bytes there. -/
theorem exists_content?_of_fitsIn (h : pool.siteOf? region.place = some site)
    (fits : region.FitsIn site) : ∃ bytes, pool.content? region = some bytes := by
  obtain ⟨buffer, hbuffer, -, -, hlength⟩ := exists_bufferAt? h
  exact ⟨_, content?_eq_some_iff.mpr ⟨buffer, hbuffer, hlength ▸ fits.2, rfl⟩⟩

namespace Houses

/-- A region that is housed is located. -/
theorem exists_locate (h : pool.Houses region) :
    ∃ store, pool.locate region = .ok (store, region.place.offset) := by
  obtain ⟨site, hsite, fits⟩ := h.site
  obtain ⟨buffer, hbuffer, -, -, hlength⟩ := exists_bufferAt? hsite
  obtain ⟨store, hresolve, hstore⟩ := exists_resolve h.owner h.generation hbuffer
  exact ⟨store, locate_eq_ok_iff.mpr
    ⟨hresolve, spans_eq_true_iff.mpr ⟨buffer, hstore, hlength ▸ fits.2⟩⟩⟩

/-- **A region that is housed can be written to.** -/
theorem exists_write {start : Nat} {data : Bytes} (h : pool.Houses region)
    (inside : start + data.length ≤ region.length) :
    ∃ after, pool.write region start data = .ok after := by
  obtain ⟨store, hlocate⟩ := h.exists_locate
  exact ⟨_, bind_eq_ok_iff.mpr ⟨_, hlocate, guard_eq_ok_iff.mpr ⟨inside, rfl⟩⟩⟩

theorem of_siteOf? (h : pool.Houses region) (hid : after.id = pool.id)
    (hgeneration : after.generation = pool.generation)
    (hsites : ∀ site, pool.siteOf? region.place = some site →
      after.siteOf? region.place = some site) : after.Houses region := by
  obtain ⟨site, hsite, fits⟩ := h.site
  exact ⟨h.owner.trans hid.symm, h.generation.trans hgeneration.symm, site, hsites site hsite, fits⟩

end Houses

/-- The site of a place in the chain, told from the blocks. -/
theorem siteOf?_block {index offset : Nat} {block : Block}
    (h : pool.chain.blocks[index]? = some block) :
    pool.siteOf? (.block index offset) = some block.site := by
  rw [siteOf?, h, Option.map_some]

/-- Writing leaves all sites. -/
@[simp] theorem siteOf?_overwrite (store : Store) (offset : Nat) (data : Bytes) :
    (pool.overwrite store offset data).siteOf? place = pool.siteOf? place := by
  cases place with
  | block index start =>
    cases store with
    | block other =>
      -- only the buffer that was written to is another one, and it keeps its site
      change (pool.chain.overwrite other offset data).blocks[index]?.map Block.site = _
      rw [Chain.getElem?_blocks_overwrite, siteOf?]
      split
      · rw [Option.map_map]
        refine congrArg (Option.map · _) (funext fun block => ?_)
        exact Buffer.site_overwrite block.buffer offset data block.start
      · rfl
    | slot other => rfl
  | large id =>
    cases store with
    | block other => rfl
    | slot other =>
      change ((pool.large.overwrite other offset data).find? id).map (·.site 0) = _
      rw [LargeTable.find?_overwrite, siteOf?]
      split
      · rw [Option.map_map]
        exact congrArg (Option.map · _) (funext fun buffer => Buffer.site_overwrite buffer _ _ 0)
      · rfl

end Sites

end Pool

/-! ### Pools that move on -/

namespace PoolState

/-- **A pool is fit**: its blocks are large enough and sound, and the numbers of its large buffers
were given. -/
structure Fit (s : PoolState) : Prop where
  sized : s.pool.Sized
  sound : ∀ block ∈ s.pool.chain.blocks, block.Sound
  numbered : ∀ buffer ∈ s.pool.large.buffers, buffer.id.number < s.world.nextBuffer

/-- **A pool moves on and spares every site.** Its cleanup records stay, and none of them is run. -/
structure Spares (s t : PoolState) : Prop where
  traits : s.pool.SameTraits t.pool
  cleanups : t.pool.cleanups = s.pool.cleanups
  sites : ∀ place site, s.pool.siteOf? place = some site → t.pool.siteOf? place = some site
  fit : t.Fit
  calm : s.world.Calm t.world

variable {s t u : PoolState} {region : Region}

/-- A pool that is fit stays so while numbers are given. -/
theorem Fit.later {world : World} (fit : s.Fit) (h : s.world.nextBuffer ≤ world.nextBuffer) :
    Fit { s with world } :=
  ⟨fit.sized, fit.sound, fun buffer hmem => Nat.lt_of_lt_of_le (fit.numbered buffer hmem) h⟩

namespace Spares

theorem refl (fit : s.Fit) : s.Spares s :=
  ⟨⟨rfl, rfl, rfl, rfl, rfl, rfl⟩, rfl, fun _ _ h => h, fit, .refl _⟩

theorem trans (h : s.Spares t) (h' : t.Spares u) : s.Spares u where
  traits :=
    ⟨h'.traits.id.trans h.traits.id, h'.traits.generation.trans h.traits.generation,
      h'.traits.blockSize.trans h.traits.blockSize, h'.traits.max.trans h.traits.max,
      h'.traits.allocator.trans h.traits.allocator, h'.traits.name.trans h.traits.name⟩
  cleanups := h'.cleanups.trans h.cleanups
  sites place site hsite := h'.sites place site (h.sites place site hsite)
  fit := h'.fit
  calm := h.calm.trans h'.calm

/-- What is housed stays housed. -/
theorem houses (h : s.Spares t) (housed : s.pool.Houses region) : t.pool.Houses region :=
  housed.of_siteOf? h.traits.id h.traits.generation (h.sites region.place)

/-- Nothing happens to the pool. -/
theorem ofCalm {world : World} (fit : s.Fit) (calm : s.world.Calm world) :
    s.Spares { s with world } :=
  ⟨⟨rfl, rfl, rfl, rfl, rfl, rfl⟩, rfl, fun _ _ h => h, fit.later calm.nextBuffer, calm⟩

/-- **The chain changes**, and every block that was in it keeps its site. -/
theorem setChain {chain : Chain} (fit : s.Fit) (sound : ∀ block ∈ chain.blocks, block.Sound)
    (hsites : ∀ (index : Nat) (block : Block), s.pool.chain.blocks[index]? = some block →
      ∃ after : Block, chain.blocks[index]? = some after ∧ after.site = block.site) :
    s.Spares { s with pool := { s.pool with chain } } where
  traits := ⟨rfl, rfl, rfl, rfl, rfl, rfl⟩
  cleanups := rfl
  -- large buffers are not in the chain, and blocks keep their sites by assumption
  sites place site hsite := by
    cases place with
    | block index offset =>
      obtain ⟨block, hblock, rfl⟩ := Option.map_eq_some_iff.mp hsite
      obtain ⟨after, hafter, heq⟩ := hsites index block hblock
      rw [← heq]
      exact congrArg (Option.map Block.site) hafter
    | large id => exact hsite
  fit := ⟨⟨fit.sized.min, fit.sized.max⟩, sound, fit.numbered⟩
  calm := .refl _

/-- **A cursor moves** in a block that stays sound. -/
theorem setCursor {index cursor : Nat} {block : Block} (fit : s.Fit)
    (hblock : s.pool.chain.blocks[index]? = some block)
    (sound : ({ block with cursor } : Block).Sound) :
    s.Spares { s with
      pool := { s.pool with chain := s.pool.chain.setBlock index { block with cursor } } } := by
  refine setChain fit (fun moved hmem => ?_) fun other before hbefore => ?_
  · rcases List.mem_or_eq_of_mem_set hmem with hold | rfl
    · exact fit.sound moved hold
    · exact sound
  -- the block whose cursor moved has its site where it was
  · rw [Chain.getElem?_blocks_setBlock hblock]
    split
    · next heq =>
      obtain rfl : block = before := Option.some.inj (hblock.symm.trans (heq ▸ hbefore))
      exact ⟨_, rfl, rfl⟩
    · exact ⟨before, hbefore, rfl⟩

/-- **The chain grows** by a block that is sound. -/
theorem grow {block : Block} (fit : s.Fit) (sound : block.Sound) :
    s.Spares { s with pool := { s.pool with chain := s.pool.chain.grow block } } := by
  refine setChain fit (fun grown hmem => ?_) fun index before hbefore => ?_
  · obtain ⟨index, hindex⟩ := List.mem_iff_getElem?.mp hmem
    rw [Chain.getElem?_blocks_grow] at hindex
    split at hindex
    · obtain rfl := Option.some.inj hindex
      exact sound
    · obtain ⟨before, hbefore, rfl⟩ := Option.map_eq_some_iff.mp hindex
      have hsound := fit.sound before (List.mem_of_getElem? hbefore)
      -- growth counts failures, and they have no part in soundness
      split
      · exact ⟨hsound.start_le_cursor, hsound.cursor_le_limit⟩
      · exact hsound
  · obtain ⟨noted, hnoted, hbuffer, hstart, -⟩ := Chain.exists_of_getElem?_grow hbefore
    refine ⟨noted, hnoted, ?_⟩
    rw [Block.site, hbuffer, hstart, Block.site]

/-- **A large buffer gets a slot.** Its number is new, so nothing else is found under it. -/
theorem enter {buffer : Buffer} {large : LargeTable} (fit : s.Fit)
    (slot : large = s.pool.large.push buffer ∨ s.pool.large.reuse? buffer = some large)
    (hnumber : buffer.id.number < s.world.nextBuffer)
    (hfresh : ∀ held ∈ s.pool.large.buffers, held.id ≠ buffer.id) :
    s.Spares { s with pool := { s.pool with large } } ∧ large.find? buffer.id = some buffer := by
  have hbuffers : large.buffers.Perm (buffer :: s.pool.large.buffers) := by
    rcases slot with rfl | hreuse
    · rw [LargeTable.buffers_push]
    · exact LargeTable.buffers_reuse? hreuse
  -- whichever slot it takes, no other number is affected
  have hothers : ∀ id, buffer.id ≠ id → large.find? id = s.pool.large.find? id := by
    intro id hne
    rcases slot with rfl | hreuse
    · exact LargeTable.find?_push_of_ne hne
    · exact LargeTable.find?_reuse?_of_ne hreuse hne
  refine ⟨⟨⟨rfl, rfl, rfl, rfl, rfl, rfl⟩, rfl, fun place site hsite => ?_,
    ⟨⟨fit.sized.min, fit.sized.max⟩, fit.sound, ?_⟩, .refl _⟩, ?_⟩
  · cases place with
    | block index offset => exact hsite
    | large id =>
      obtain ⟨held, hheld, rfl⟩ := Option.map_eq_some_iff.mp hsite
      obtain ⟨hmem, rfl⟩ := LargeTable.mem_of_find? hheld
      -- a buffer that was there has another number than the new one
      have hfind : large.find? held.id = some held :=
        (hothers held.id (Ne.symm (hfresh held hmem))).trans hheld
      change (large.find? held.id).map _ = _
      rw [hfind, Option.map_some]
  · intro held hmem
    rcases List.mem_cons.mp (hbuffers.mem_iff.mp hmem) with rfl | hold
    · exact hnumber
    · exact fit.numbered held hold
  · rcases slot with rfl | hreuse
    · exact LargeTable.find?_push_self
    · exact LargeTable.find?_reuse?_self hreuse hfresh

/-- **A store is written to.** -/
theorem overwrite (fit : s.Fit) (store : Store) (offset : Nat) (data : Bytes) :
    s.Spares { s with pool := s.pool.overwrite store offset data } := by
  have traits : s.pool.SameTraits (s.pool.overwrite store offset data) := by
    cases store <;> exact ⟨rfl, rfl, rfl, rfl, rfl, rfl⟩
  refine ⟨traits, ?_, fun place site hsite => ?_,
    ⟨fit.sized.of_sameTraits traits, ?_, fun held hmem => ?_⟩, .refl _⟩
  · cases store <;> rfl
  · rw [Pool.siteOf?_overwrite]
    exact hsite
  · cases store with
    | block index =>
      intro written hmem
      obtain ⟨other, hother⟩ := List.mem_iff_getElem?.mp hmem
      rw [show (s.pool.overwrite (.block index) offset data).chain.blocks[other]? = _ from
        Chain.getElem?_blocks_overwrite other] at hother
      split at hother
      · obtain ⟨before, hbefore, rfl⟩ := Option.map_eq_some_iff.mp hother
        have hsound := fit.sound before (List.mem_of_getElem? hbefore)
        -- the block that was written to has its cursor where it was, and is as long
        have hlength := congrArg Site.length
          (Buffer.site_overwrite before.buffer offset data before.start)
        exact ⟨hsound.start_le_cursor, hsound.cursor_le_limit.trans (Nat.le_of_eq hlength.symm)⟩
      · exact fit.sound written (List.mem_of_getElem? hother)
    | slot index => exact fit.sound
  · have hid := List.mem_map_of_mem (f := Buffer.id) hmem
    rw [Pool.ids_large_overwrite] at hid
    obtain ⟨before, hbefore, heq⟩ := List.mem_map.mp hid
    exact heq ▸ fit.numbered before hbefore

end Spares

end PoolState

end RegionPool
