import Mathlib.Algebra.BigOperators.Group.List.Basic
import RegionPool.Proofs.Placement
import RegionPool.Proofs.Withdrawals

/-!
# What lies on top

The bytes handed out of a block end at its cursor, and so does the region that was claimed last.
Such a region can be taken away again, which puts the cursor back where the region starts. All that
is then left of the request is the padding in front of it, or an empty block that was appended for
it. Only where blocks start and where their cursors are comes into this, so it is told from the
marks of the blocks, which no write to the pool changes.

* `Region.Tops`, `Region.retract` — a region on top of its block, and the marks once it is taken
  away; `Pool.Owns.exists_reclaim`;
* `Restores` — marks that are as they were, but for padding and empty blocks;
* `PoolState.Placed.piles` — what is placed lies on top, and the marks are restored without it;
* `Pool.Recedes` — cursors move back, by as many bytes as are given back.
-/

namespace RegionPool

open PoolM

/-! ### Marks -/

/-- **A mark**: where the data region of a block starts, and where its free bytes do. -/
structure Mark where
  start : Nat
  cursor : Nat
  deriving Repr, DecidableEq

/-- The mark of a block. -/
def Block.mark (block : Block) : Mark := { start := block.start, cursor := block.cursor }

/-- The marks of the blocks of a pool, in order. -/
def Pool.marks (pool : Pool) : List Mark := pool.chain.blocks.map Block.mark

/-- **A mark is regained**: it is the same again, or moved on to the next word boundary. -/
structure Mark.Regained (mark now : Mark) : Prop where
  start : now.start = mark.start
  cursor : now.cursor = mark.cursor ∨ now.cursor = (mark.cursor + 7) / 8 * 8

/-- **A mark is blank**: nothing is handed out, and what is handed out next starts at a word
boundary. -/
structure Mark.Blank (mark : Mark) : Prop where
  cursor : mark.cursor = mark.start
  aligned : 8 ∣ mark.start

namespace Mark

variable {mark now later : Mark}

theorem Regained.refl (mark : Mark) : mark.Regained mark := ⟨rfl, .inl rfl⟩

theorem Regained.trans (h : mark.Regained now) (h' : now.Regained later) :
    mark.Regained later := by
  have hcursor := h.cursor
  have hcursor' := h'.cursor
  exact ⟨h'.start.trans h.start, by omega⟩

/-- A mark at a word boundary is the same again. -/
theorem Regained.cursor_eq (h : mark.Regained now) (aligned : 8 ∣ mark.cursor) :
    now.cursor = mark.cursor := by
  have hcursor := h.cursor
  omega

/-- A blank mark stays blank. -/
theorem Blank.regained (h : mark.Blank) (h' : mark.Regained now) : now.Blank := by
  have hstart := h'.start
  have hcursor := h'.cursor_eq (h.cursor ▸ h.aligned)
  exact ⟨hcursor.trans (h.cursor.trans hstart.symm), hstart ▸ h.aligned⟩

end Mark

/-- **Marks are restored**: those there were are regained, and new ones are blank. -/
structure Restores (before after : List Mark) : Prop where
  kept : ∀ (index : Nat) (mark : Mark), before[index]? = some mark →
    ∃ now : Mark, after[index]? = some now ∧ mark.Regained now
  new : ∀ (index : Nat) (now : Mark), before.length ≤ index → after[index]? = some now → now.Blank

namespace Region

variable {region other : Region} {marks : List Mark} {index offset : Nat}

/-- **The marks once a region is taken away**: the cursor of its block is where it starts. -/
def retract (region : Region) (marks : List Mark) : List Mark :=
  match region.place with
  | .block index offset => marks.modify index fun mark => { mark with cursor := offset }
  | .large _ => marks

/-- **A region lies on top**: it is in a block, and ends where the free bytes start. -/
def Tops (region : Region) (marks : List Mark) : Prop :=
  ∃ (index : Nat) (mark : Mark), region.place = .block index region.place.offset ∧
    marks[index]? = some mark ∧ region.place.offset + region.length = mark.cursor

theorem getElem?_retract (place : region.place = .block index offset) (i : Nat) :
    (region.retract marks)[i]? =
      marks[i]?.map fun mark => if index = i then { mark with cursor := offset } else mark := by
  rw [retract, place]
  exact List.getElem?_modify _ _ _ _

@[simp] theorem length_retract : (region.retract marks).length = marks.length := by
  rw [retract]
  split
  · exact List.length_modify _ _ _
  · rfl

/-- It does not matter how long the region is, nor where the cursor of its block was. -/
theorem retract_set (place : region.place = .block index offset) (same : other.place = region.place)
    {mark moved : Mark} (get : marks[index]? = some mark) (start : moved.start = mark.start) :
    other.retract (marks.set index moved) = region.retract marks := by
  refine List.ext_getElem? fun i => ?_
  rw [getElem?_retract (same.trans place), getElem?_retract place, List.getElem?_set,
    if_pos (List.getElem?_eq_some_iff.mp get).1]
  split
  · next heq =>
    rw [← heq, get, Option.map_some, Option.map_some]
    exact congrArg (fun start => some (⟨start, offset⟩ : Mark)) start
  · rfl

/-- The region lies in the last block. -/
theorem retract_append (place : region.place = .block marks.length offset) (mark : Mark) :
    region.retract (marks ++ [mark]) = marks ++ [{ mark with cursor := offset }] := by
  rw [retract, place]
  change List.modify _ _ _ = _
  rw [List.modify_eq_set_getElem?, List.getElem?_concat_length]
  refine (List.set_append_right _ _ (Nat.le_refl _)).trans ?_
  rw [Nat.sub_self]
  rfl

end Region

namespace Restores

variable {before middle after : List Mark} {region : Region}

theorem trans (h : Restores before middle) (h' : Restores middle after) :
    Restores before after where
  kept index mark get := by
    obtain ⟨now, hnow, hregained⟩ := h.kept index mark get
    obtain ⟨later, hlater, hregained'⟩ := h'.kept index now hnow
    exact ⟨later, hlater, hregained.trans hregained'⟩
  new index later hle get := by
    -- a mark that is new in the end was new in between, or came only afterwards
    cases hmiddle : middle[index]? with
    | none => exact h'.new index later (List.getElem?_eq_none_iff.mp hmiddle) get
    | some now =>
      obtain ⟨same, hsame, hregained⟩ := h'.kept index now hmiddle
      obtain rfl := Option.some.inj (hsame.symm.trans get)
      exact (h.new index now hle hmiddle).regained hregained

/-- **A block is appended** in which nothing is handed out. -/
theorem append {mark : Mark} (blank : mark.Blank) : Restores before (before ++ [mark]) := by
  refine ⟨fun index old get => ?_, fun index now hle get => ?_⟩
  · have hlt := (List.getElem?_eq_some_iff.mp get).1
    exact ⟨old, (List.getElem?_append_left hlt).trans get, .refl old⟩
  · rw [List.getElem?_append_right hle] at get
    exact List.mem_singleton.mp (List.mem_of_getElem? get) ▸ blank

/-- **Taking a region away** that starts at the cursor, or behind the padding there. -/
theorem retract_self {index offset : Nat} {mark : Mark}
    (place : region.place = .block index offset) (get : before[index]? = some mark)
    (start : offset = mark.cursor ∨ offset = (mark.cursor + 7) / 8 * 8) :
    Restores before (region.retract before) := by
  refine ⟨fun i old hold => ?_, fun i now hle hnow => ?_⟩
  · refine ⟨_, by rw [Region.getElem?_retract place, hold]; rfl, ?_⟩
    split
    · next heq =>
      subst heq
      obtain rfl := Option.some.inj (get.symm.trans hold)
      exact ⟨rfl, start⟩
    · exact .refl old
  -- nothing is appended, so there are no new marks
  · refine absurd (List.getElem?_eq_some_iff.mp hnow).1 ?_
    rw [Region.length_retract]
    exact Nat.not_lt_of_le hle

/-- **Taking the same region away** from both sides. -/
theorem retract (h : Restores before after) (tops : region.Tops before) :
    Restores (region.retract before) (region.retract after) := by
  obtain ⟨index, mark, place, get, -⟩ := tops
  refine ⟨fun i old hold => ?_, fun i now hle hnow => ?_⟩
  · rw [Region.getElem?_retract place] at hold
    obtain ⟨found, hfound, rfl⟩ := Option.map_eq_some_iff.mp hold
    obtain ⟨now, hnow, hregained⟩ := h.kept i found hfound
    refine ⟨_, by rw [Region.getElem?_retract place, hnow, Option.map_some], ?_⟩
    split
    · exact ⟨hregained.start, .inl rfl⟩
    · exact hregained
  · rw [Region.length_retract] at hle
    rw [Region.getElem?_retract place] at hnow
    obtain ⟨found, hfound, rfl⟩ := Option.map_eq_some_iff.mp hnow
    -- the region lies in a block there was before
    have hlt : index < before.length := (List.getElem?_eq_some_iff.mp get).1
    rw [if_neg (Nat.ne_of_lt (Nat.lt_of_lt_of_le hlt hle))]
    exact h.new i found hle hfound

/-- **A region that ends at a word boundary** is on top again. -/
theorem tops (h : Restores before after) (tops : region.Tops before)
    (aligned : 8 ∣ region.place.offset + region.length) : region.Tops after := by
  obtain ⟨index, mark, place, get, stop⟩ := tops
  obtain ⟨now, hnow, hregained⟩ := h.kept index mark get
  exact ⟨index, now, place, hnow, stop.trans (hregained.cursor_eq (stop ▸ aligned)).symm⟩

end Restores

/-! ### Pools -/

namespace Pool

variable {pool : Pool} {region : Region}

theorem marks_setBlock (pool : Pool) (index : Nat) (block : Block) :
    { pool with chain := pool.chain.setBlock index block }.marks =
      pool.marks.set index block.mark := List.map_set

@[simp] theorem marks_overwrite (pool : Pool) (store : Store) (offset : Nat) (data : Bytes) :
    (pool.overwrite store offset data).marks = pool.marks := by
  cases store with
  | block index => exact Chain.map_blocks_overwrite Block.mark fun _ => rfl
  | slot _ => rfl

theorem getElem?_marks {index : Nat} {block : Block} (h : pool.chain.blocks[index]? = some block) :
    pool.marks[index]? = some block.mark := by
  rw [marks, List.getElem?_map, h, Option.map_some]

theorem getElem?_marks_eq_some_iff {index : Nat} {mark : Mark} :
    pool.marks[index]? = some mark ↔
      ∃ block, pool.chain.blocks[index]? = some block ∧ block.mark = mark := by
  rw [marks, List.getElem?_map, Option.map_eq_some_iff]

theorem length_marks (pool : Pool) : pool.marks.length = pool.blockCount := List.length_map _

/-- **A pool owns a region** that is one of its own, in its present generation. -/
structure Owns (pool : Pool) (region : Region) : Prop where
  owner : region.pool = pool.id
  generation : region.generation = pool.generation

namespace Owns

variable {after : Pool} {index offset additional : Nat} {block : Block}

theorem congr (owns : pool.Owns region) (id : after.id = pool.id)
    (generation : after.generation = pool.generation) : after.Owns region :=
  ⟨owns.owner.trans id.symm, owns.generation.trans generation.symm⟩

theorem resolved (owns : pool.Owns region) (place : region.place = .block index offset) :
    pool.resolved region = .ok (.block index, offset) := by
  refine resolved_eq_ok_iff.mpr (resolve_eq_ok_iff.mpr ⟨owns.owner, owns.generation, ?_, ?_⟩)
  · rw [place]
    rfl
  · rw [place]
    rfl

/-- **A region on top is lengthened** by whatever its block has room for. -/
theorem extend_eq (owns : pool.Owns region) (place : region.place = .block index offset)
    (get : pool.chain.blocks[index]? = some block) (stop : offset + region.length = block.cursor)
    (room : additional ≤ block.limit - block.cursor) :
    pool.extend region additional =
      .ok (some { region with length := region.length + additional }, { pool with
        chain := pool.chain.setBlock index
          { block with cursor := block.cursor + additional } }) := by
  have hmoved : block.extend? (offset + region.length) additional =
      some { block with cursor := block.cursor + additional } :=
    Block.extend?_eq_some_iff.mpr ⟨stop, room, rfl⟩
  refine bind_eq_ok_iff.mpr ⟨_, owns.resolved place, ?_⟩
  simp only [get, hmoved]
  rfl

/-- **A region on top is given back** to its pool. -/
theorem exists_reclaim (owns : pool.Owns region) (tops : region.Tops pool.marks) :
    ∃ after, pool.reclaim region = .ok (true, after) ∧ after.id = pool.id ∧
      after.generation = pool.generation ∧ after.marks = region.retract pool.marks := by
  obtain ⟨index, mark, place, get, stop⟩ := tops
  -- on top means that the cursor of the block stands at the end of the region
  obtain ⟨block, hblock, rfl⟩ := getElem?_marks_eq_some_iff.mp get
  let moved : Block := { block with cursor := region.place.offset }
  have hmoved : block.reclaim? region.place.offset (region.place.offset + region.length) =
      some moved := Block.reclaim?_eq_some_iff.mpr ⟨stop, rfl⟩
  refine ⟨{ pool with chain := pool.chain.setBlock index moved }, ?_, rfl, rfl, ?_⟩
  · refine bind_eq_ok_iff.mpr ⟨_, owns.resolved place, ?_⟩
    simp only [hblock, hmoved]
    rfl
  · rw [marks_setBlock, Region.retract, place]
    change _ = pool.marks.modify index _
    rw [List.modify_eq_set_getElem?, get]
    rfl

end Owns

/-- **A region is piled** on a pool: it lies on top, at a word boundary, and without it the marks
are restored. -/
structure Piles (pool : Pool) (size : Nat) (region : Region) (after : Pool) : Prop where
  id : after.id = pool.id
  generation : after.generation = pool.generation
  max : after.max = pool.max
  owns : after.Owns region
  length : region.length = size
  aligned : 8 ∣ region.place.offset
  tops : region.Tops after.marks
  restores : Restores pool.marks (region.retract after.marks)

end Pool

/-- **Growing** leaves the marks there were, and adds one. -/
theorem PoolState.Appends.marks {s t : PoolState} {size : Nat} (appends : s.Appends size t) :
    t.pool.marks =
      s.pool.marks ++ [⟨Layout.blockHeaderSize, Layout.blockHeaderSize + size⟩] := by
  refine List.ext_getElem? fun i => ?_
  have hlength : s.pool.marks.length = s.pool.blockCount := s.pool.length_marks
  rcases Nat.lt_trichotomy i s.pool.blockCount with hlt | rfl | hgt
  · -- the failures that growth counts are no part of a mark
    obtain ⟨block, hblock⟩ : ∃ block, s.pool.chain.blocks[i]? = some block :=
      ⟨_, List.getElem?_eq_getElem hlt⟩
    obtain ⟨failed, hold⟩ := appends.old i block hblock
    rw [List.getElem?_append_left (hlength ▸ hlt), Pool.getElem?_marks hblock,
      Pool.getElem?_marks hold]
    rfl
  · obtain ⟨buffer, world, -, -, hnew⟩ := appends.new
    rw [← hlength, List.getElem?_concat_length, hlength, Pool.getElem?_marks hnew]
    rfl
  · rw [List.getElem?_eq_none, List.getElem?_eq_none]
    · rw [List.length_append, hlength]
      exact hgt
    · rw [Pool.length_marks, appends.count]
      exact hgt

namespace PoolState.Placed

variable {s t : PoolState} {packing : Packing} {size : Nat} {region : Region}

/-- **What is placed is piled.** -/
theorem piles (h : s.Placed .aligned size region t) : s.pool.Piles size region t.pool := by
  cases h with
  | @fitted index block first get =>
    -- the cursor moves past the region, and giving that back puts it at the spot again
    let moved : Block := { block with cursor := block.spot .aligned + size }
    have hmark := Pool.getElem?_marks get
    have place : (s.pool.regionAt size (.block index (block.spot .aligned))).place =
        .block index (block.spot .aligned) := rfl
    have marks : { s.pool with chain := s.pool.chain.setBlock index moved }.marks =
        s.pool.marks.set index moved.mark := Pool.marks_setBlock _ _ _
    refine ⟨rfl, rfl, rfl, ⟨rfl, rfl⟩, rfl, ⟨_, Nat.mul_comm _ _⟩,
      ⟨index, moved.mark, place, ?_, rfl⟩, ?_⟩
    · rw [marks]
      exact List.getElem?_set_self (List.getElem?_eq_some_iff.mp hmark).1
    · have start : moved.mark.start = block.mark.start := rfl
      rw [marks, Region.retract_set place rfl hmark start]
      exact .retract_self place hmark (.inr rfl)
  -- a new block starts with the region, so giving that back leaves an empty block
  | appended full appends =>
    have place : (s.pool.regionAt size (.block s.pool.blockCount Layout.blockHeaderSize)).place =
        .block s.pool.marks.length Layout.blockHeaderSize := by rw [Pool.length_marks]; rfl
    have id : t.pool.id = s.pool.id := by rw [appends.rest]
    have generation : t.pool.generation = s.pool.generation := by rw [appends.rest]
    have aligned : 8 ∣ Layout.blockHeaderSize := by decide
    refine ⟨id, generation, by rw [appends.rest], ⟨id.symm, generation.symm⟩, rfl, aligned,
      ⟨_, ⟨Layout.blockHeaderSize, Layout.blockHeaderSize + size⟩, place, ?_, rfl⟩, ?_⟩
    · rw [appends.marks]
      exact List.getElem?_concat_length
    · rw [appends.marks, Region.retract_append place]
      exact .append ⟨rfl, aligned⟩

/-- The blocks of a pool stay regular. -/
theorem regular (h : s.Placed packing size region t) (regular : s.pool.Regular) (fit : t.Fit) :
    t.pool.Regular := by
  refine fun block hmem => ⟨fit.sound block hmem, ?_⟩
  cases h with
  | @fitted index old first get =>
    rcases List.mem_or_eq_of_mem_set hmem with hold | rfl
    · exact (regular block hold).measured
    · exact (regular old (List.mem_of_getElem? get)).measured
  | appended full appends =>
    -- the old blocks are there with a counter raised; the new one is as long as was asked for
    obtain ⟨i, hi⟩ := List.mem_iff_getElem?.mp hmem
    obtain ⟨buffer, world, call, -, hnew⟩ := appends.new
    have hlt : i < t.pool.blockCount := (List.getElem?_eq_some_iff.mp hi).1
    rw [appends.count] at hlt
    rcases Nat.lt_or_eq_of_le (Nat.le_of_lt_succ hlt) with hbefore | rfl
    · have hold := List.getElem?_eq_getElem hbefore
      obtain ⟨failed, hfailed⟩ := appends.old i _ hold
      obtain rfl := Option.some.inj (hfailed.symm.trans hi)
      exact (regular _ (List.mem_of_getElem? hold)).measured
    · obtain rfl := Option.some.inj (hnew.symm.trans hi)
      exact World.measured_of_request call

end PoolState.Placed

/-! ### Giving back -/

namespace Pool

variable {pool after last : Pool} {region : Region} {regions others : List Region} {n m : Nat}

/-- **The bytes in use** over all blocks. -/
def used (pool : Pool) : Nat := (pool.chain.stats.map BlockStats.used).sum

/-- **Cursors recede**: `n` bytes fewer are in use, and nothing has changed but the cursors of
blocks in which one of the regions lies. -/
structure Recedes (pool after : Pool) (n : Nat) (regions : List Region) : Prop where
  used : after.used + n = pool.used
  rest : after = { pool with chain := { pool.chain with blocks := after.chain.blocks } }
  count : after.blockCount = pool.blockCount
  cursors : ∀ (index : Nat) (block : Block), pool.chain.blocks[index]? = some block →
    ∃ cursor, after.chain.blocks[index]? = some { block with cursor } ∧
      (cursor = block.cursor ∨ ∃ region ∈ regions, region.pool = pool.id ∧
        ∃ offset, region.place = .block index offset)

namespace Recedes

/-- Nothing is given back. -/
theorem refl (pool : Pool) : pool.Recedes pool 0 regions where
  used := rfl
  rest := rfl
  count := rfl
  cursors _ block get := ⟨block.cursor, get, .inl rfl⟩

theorem trans (h : pool.Recedes after n regions) (h' : after.Recedes last m others) :
    pool.Recedes last (n + m) (regions ++ others) where
  used := by
    have hused := h.used
    have hused' := h'.used
    omega
  rest := by rw [h'.rest, h.rest]
  count := h'.count.trans h.count
  cursors index block get := by
    obtain ⟨middle, hmiddle, hcause⟩ := h.cursors index block get
    obtain ⟨cursor, hcursor, hcause'⟩ := h'.cursors index _ hmiddle
    refine ⟨cursor, hcursor, ?_⟩
    -- a block that the second part moved may be one that the first part moved already
    rcases hcause' with rfl | ⟨region, hmem, owner, hplace⟩
    · exact hcause.imp_right fun ⟨region, hmem, hlies⟩ =>
        ⟨region, List.mem_append_left _ hmem, hlies⟩
    · have hid : after.id = pool.id := by rw [h.rest]
      exact .inr ⟨region, List.mem_append_right _ hmem, owner.trans hid, hplace⟩

end Recedes

/-- Moving the cursor of one block back gives back what is between. -/
private theorem used_setBlock {index cursor : Nat} {block : Block}
    (get : pool.chain.blocks[index]? = some block) (start : block.start ≤ cursor)
    (back : cursor ≤ block.cursor) :
    { pool with chain := pool.chain.setBlock index { block with cursor } }.used +
      (block.cursor - cursor) = pool.used := by
  let uses := pool.chain.stats.map BlockStats.used
  have hget : uses[index]? = some (block.cursor - block.start) := by
    rw [List.getElem?_map, Chain.stats, List.getElem?_map, get]
    rfl
  obtain ⟨hlt, hvalue⟩ := List.getElem?_eq_some_iff.mp hget
  -- one summand of the used bytes changes, so the sum is taken around it
  have hset : { pool with chain := pool.chain.setBlock index { block with cursor } }.used =
      (uses.set index (cursor - block.start)).sum := by
    rw [used, Chain.stats, Chain.setBlock, List.map_set, List.map_set]
    rfl
  have hsum : pool.used = uses.sum := rfl
  rw [hset, hsum, List.sum_set, if_pos hlt, ← List.sum_take_add_sum_drop uses index,
    List.drop_eq_getElem_cons hlt, List.sum_cons, hvalue]
  omega

/-- **Giving a region back** makes the cursors recede by its length, or not at all. -/
theorem reclaim_recedes {done : Bool} (guards : pool.Guards region)
    (run : pool.reclaim region = .ok (done, after)) :
    pool.Recedes after (if done then region.length else 0) [region] := by
  rcases reclaim_eq_ok run with ⟨rfl, rfl⟩ | ⟨index, block, place, get, stop, rfl, rfl⟩
  · exact .refl after
  · -- a region that is housed lies behind the header of its block
    have housed := guards (knows_of_reclaim run)
    obtain ⟨site, hsite, fits⟩ := housed.site
    rw [place, siteOf?_block get] at hsite
    obtain rfl := Option.some.inj hsite
    refine ⟨?_, rfl, Chain.length_blocks_setBlock _ _ _, fun i other hother => ?_⟩
    · rw [← used_setBlock get fits.1 (stop ▸ Nat.le_add_right _ _), if_pos rfl, ← stop,
        Nat.add_sub_cancel_left]
    · rw [Chain.getElem?_blocks_setBlock get]
      split
      · next heq =>
        subst heq
        obtain rfl := Option.some.inj (get.symm.trans hother)
        exact ⟨_, rfl, .inr ⟨region, List.mem_singleton_self region, housed.owner, _, place⟩⟩
      · exact ⟨other.cursor, hother, .inl rfl⟩

end Pool

end RegionPool
