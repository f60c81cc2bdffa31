import RegionPool.Pool.Chain

/-!
# What the chain of blocks does to its blocks

Everything that happens to a chain, other than its growth, happens to one of its blocks and leaves
the others alone. A request that is served moves the cursor of the first block that has room
(`claim?_eq_some_iff`); a write changes the bytes of one block; growth counts failures and appends a
block (`getElem?_blocks_grow`). A function of blocks that does not look at what an operation changes
takes the same values along the chain before and after it:

* `map_blocks_setBlock`, `map_blocks_overwrite`, `map_blocks_grow`, `map_blocks_reset`.
-/

namespace RegionPool

namespace Chain

variable {chain after : Chain} {block moved : Block} {index size offset : Nat} {packing : Packing}

/-! ### Claiming -/

/-- **The search is first fit**: it moves the cursor of the first block that has room. -/
theorem claimIn_eq_some_iff {blocks rest : List Block} {position : Nat} :
    claimIn size packing blocks = some (position, offset, rest) ↔ ∃ block moved,
      blocks[position]? = some block ∧ block.bump? size packing = some (offset, moved) ∧
        rest = blocks.set position moved ∧ ∀ earlier other, earlier < position →
          blocks[earlier]? = some other → other.bump? size packing = none := by
  induction blocks generalizing position rest with
  | nil => simp [claimIn]
  | cons first blocks ih =>
    rw [claimIn]
    split
    · next offset' moved' hbump =>
      constructor
      · rintro ⟨rfl, rfl, rfl⟩
        exact ⟨first, _, rfl, hbump, rfl, fun _ _ hlt => absurd hlt (Nat.not_lt_zero _)⟩
      · rintro ⟨block, moved, hget, hmoved, rfl, hfirst⟩
        cases position with
        | zero =>
          obtain rfl := Option.some.inj hget
          obtain ⟨rfl, rfl⟩ := Prod.mk.inj (Option.some.inj (hbump.symm.trans hmoved))
          rfl
        | succ position =>
          -- the first block has room, so no later one is found
          rw [hfirst 0 first (Nat.succ_pos position) rfl] at hbump
          cases hbump
    · next hbump =>
      -- the first block has no room, and what is found behind it is found one place later
      constructor
      · intro h
        obtain ⟨⟨position', offset', rest'⟩, hfound, heq⟩ := Option.map_eq_some_iff.mp h
        obtain ⟨rfl, rfl, rfl⟩ := heq
        obtain ⟨block, moved, hget, hmoved, rfl, hfirst⟩ := ih.mp hfound
        refine ⟨block, moved, hget, hmoved, rfl, fun earlier other hlt hother => ?_⟩
        cases earlier with
        | zero => rwa [← Option.some.inj hother]
        | succ earlier => exact hfirst earlier other (Nat.lt_of_succ_lt_succ hlt) hother
      · rintro ⟨block, moved, hget, hmoved, rfl, hfirst⟩
        cases position with
        | zero =>
          obtain rfl := Option.some.inj hget
          rw [hbump] at hmoved
          cases hmoved
        | succ position =>
          refine Option.map_eq_some_iff.mpr ⟨(position, offset, blocks.set position moved), ?_, rfl⟩
          exact ih.mpr ⟨block, moved, hget, hmoved, rfl, fun earlier other hlt hother =>
            hfirst (earlier + 1) other (Nat.succ_lt_succ hlt) hother⟩

/-- The search fails if no block has room. -/
theorem claimIn_eq_none_iff {blocks : List Block} :
    claimIn size packing blocks = none ↔ ∀ block ∈ blocks, block.bump? size packing = none := by
  induction blocks with
  | nil => simp [claimIn]
  | cons first blocks ih =>
    rw [claimIn, List.forall_mem_cons]
    split
    · next hbump => simp [hbump]
    · next hbump => rw [Option.map_eq_none_iff, ih]; simp [hbump]

/-- **A request served from the chain** moves the cursor of the first block with room, from the
start of searches on. -/
theorem claim?_eq_some_iff : chain.claim? size packing = some (index, offset, after) ↔
    chain.current ≤ index ∧ ∃ block moved, chain.blocks[index]? = some block ∧
      block.bump? size packing = some (offset, moved) ∧ after = chain.setBlock index moved ∧
        ∀ earlier other, chain.current ≤ earlier → earlier < index →
          chain.blocks[earlier]? = some other → other.bump? size packing = none := by
  -- the search leaves out the blocks before `current`, which are put in front again afterwards
  have hsplit : ∀ {position : Nat} {block : Block} (moved : Block),
      chain.blocks[chain.current + position]? = some block →
      ({ chain with blocks := chain.blocks.take chain.current ++
        (chain.blocks.drop chain.current).set position moved } : Chain) =
        chain.setBlock (chain.current + position) moved := by
    intro position block moved hget
    have hlt := (List.getElem?_eq_some_iff.mp hget).1
    have htake : (chain.blocks.take chain.current).length = chain.current := by
      rw [List.length_take, Nat.min_eq_left (by omega)]
    have hset := List.set_append_right (s := chain.blocks.take chain.current)
      (t := chain.blocks.drop chain.current) (chain.current + position) moved (by omega)
    rw [List.take_append_drop, htake, Nat.add_sub_cancel_left] at hset
    rw [setBlock, hset]
  constructor
  · intro h
    obtain ⟨⟨position, offset', rest⟩, hfound, heq⟩ := Option.map_eq_some_iff.mp h
    obtain ⟨rfl, rfl, rfl⟩ := heq
    obtain ⟨block, moved, hget, hbump, rfl, hfirst⟩ := claimIn_eq_some_iff.mp hfound
    rw [List.getElem?_drop] at hget
    refine ⟨Nat.le_add_right _ _, block, moved, hget, hbump, hsplit moved hget, ?_⟩
    intro earlier other hle hlt hother
    refine hfirst (earlier - chain.current) other (by omega) ?_
    rwa [List.getElem?_drop, Nat.add_sub_cancel' hle]
  · rintro ⟨hle, block, moved, hget, hbump, rfl, hfirst⟩
    obtain ⟨position, rfl⟩ := Nat.exists_eq_add_of_le hle
    refine Option.map_eq_some_iff.mpr ⟨(position, offset, _), claimIn_eq_some_iff.mpr
      ⟨block, moved, (List.getElem?_drop ..).trans hget, hbump, rfl, ?_⟩, ?_⟩
    · intro earlier other hlt hother
      rw [List.getElem?_drop] at hother
      exact hfirst _ other (Nat.le_add_right _ _) (by omega) hother
    · dsimp only
      rw [hsplit moved hget]

/-- **The chain grows** only if no block has room, from the start of searches on. -/
theorem claim?_eq_none_iff : chain.claim? size packing = none ↔ ∀ index block,
    chain.current ≤ index → chain.blocks[index]? = some block →
      block.bump? size packing = none := by
  rw [claim?, Option.map_eq_none_iff, claimIn_eq_none_iff]
  constructor
  -- the search drops the blocks before `current`, so positions are counted from there
  · intro h index block hle hget
    refine h block (List.mem_of_getElem? (i := index - chain.current) ?_)
    rwa [List.getElem?_drop, Nat.add_sub_cancel' hle]
  · intro h block hmem
    obtain ⟨position, hget⟩ := List.mem_iff_getElem?.mp hmem
    rw [List.getElem?_drop] at hget
    exact h _ block (Nat.le_add_right _ _) hget

/-- A request that is served moves the cursor of one block. -/
theorem exists_of_claim? (h : chain.claim? size packing = some (index, offset, after)) :
    ∃ block moved, chain.blocks[index]? = some block ∧
      block.bump? size packing = some (offset, moved) ∧ after = chain.setBlock index moved := by
  obtain ⟨-, block, moved, hget, hbump, hafter, -⟩ := claim?_eq_some_iff.mp h
  exact ⟨block, moved, hget, hbump, hafter⟩

/-! ### Blocks one by one -/

theorem getElem?_blocks_setBlock (h : chain.blocks[index]? = some block) (other : Nat) :
    (chain.setBlock index moved).blocks[other]? =
      if index = other then some moved else chain.blocks[other]? := by
  have hlt : index < chain.blocks.length := (List.getElem?_eq_some_iff.mp h).1
  rw [setBlock, List.getElem?_set, if_pos hlt]

theorem getElem?_blocks_overwrite {data : Bytes} (other : Nat) :
    (chain.overwrite index offset data).blocks[other]? =
      if index = other then chain.blocks[other]?.map (·.overwrite offset data)
      else chain.blocks[other]? := by
  rw [overwrite, List.getElem?_modify]
  split <;> simp

/-- Growth counts a failure of every block it went past, and puts the new block last. -/
theorem getElem?_blocks_grow (other : Nat) :
    (chain.grow block).blocks[other]? =
      if other = chain.blocks.length then some block
      else chain.blocks[other]?.map fun old =>
        if chain.isPassed other then old.noteFailure else old := by
  rw [grow, List.getElem?_append, List.length_mapIdx]
  split
  · next hlt => rw [if_neg (Nat.ne_of_lt hlt), List.getElem?_mapIdx]
  · next hge =>
    split
    · next heq => rw [heq, Nat.sub_self, List.getElem?_cons_zero]
    · next hne =>
      -- past the new block there is nothing, neither now nor before
      rw [List.getElem?_eq_none (by simp; omega), List.getElem?_eq_none (by omega)]
      rfl

theorem getElem?_blocks_grow_self : (chain.grow block).blocks[chain.blocks.length]? = some block :=
  (getElem?_blocks_grow _).trans (if_pos rfl)

/-- Growth leaves every block its buffer and its cursor. -/
theorem exists_of_getElem?_grow {old : Block} (h : chain.blocks[index]? = some old) :
    ∃ noted : Block, (chain.grow block).blocks[index]? = some noted ∧ noted.buffer = old.buffer ∧
      noted.start = old.start ∧ noted.cursor = old.cursor := by
  have hlt := (List.getElem?_eq_some_iff.mp h).1
  rw [getElem?_blocks_grow, if_neg (Nat.ne_of_lt hlt), h]
  refine ⟨_, rfl, ?_⟩
  split <;> exact ⟨rfl, rfl, rfl⟩

/-! ### Blocks all together -/

section Map

variable {α : Type} (f : Block → α)

theorem map_blocks_setBlock (h : chain.blocks[index]? = some block) (hf : f moved = f block) :
    (chain.setBlock index moved).blocks.map f = chain.blocks.map f := by
  refine List.ext_getElem? fun other => ?_
  rw [List.getElem?_map, List.getElem?_map, getElem?_blocks_setBlock h]
  split
  · next heq => rw [← heq, h, Option.map_some, Option.map_some, hf]
  · rfl

theorem map_blocks_overwrite {data : Bytes}
    (hf : ∀ block : Block, f (block.overwrite offset data) = f block) :
    (chain.overwrite index offset data).blocks.map f = chain.blocks.map f := by
  refine List.ext_getElem? fun other => ?_
  rw [List.getElem?_map, List.getElem?_map, getElem?_blocks_overwrite]
  split
  · rw [Option.map_map]
    exact congrArg (Option.map · _) (funext hf)
  · rfl

theorem map_blocks_grow (hf : ∀ block : Block, f block.noteFailure = f block) :
    (chain.grow block).blocks.map f = chain.blocks.map f ++ [f block] := by
  -- `f` does not see the failures that growth counts
  have hold : (chain.blocks.mapIdx fun index old =>
      if chain.isPassed index then old.noteFailure else old).map f = chain.blocks.map f := by
    refine List.ext_getElem? fun other => ?_
    rw [List.getElem?_map, List.getElem?_mapIdx, List.getElem?_map, Option.map_map]
    refine congrArg (Option.map · _) (funext fun old => ?_)
    dsimp only [Function.comp_apply]
    split
    · exact hf old
    · rfl
  rw [grow, List.map_append, hold, List.map_singleton]

theorem map_blocks_reset (hf : ∀ block : Block, f block.reset = f block) :
    chain.reset.blocks.map f = chain.blocks.map f := by
  rw [reset, List.map_map]
  exact congrArg (List.map · _) (funext hf)

end Map

end Chain

namespace Block

/-- Claiming moves the cursor and nothing else. -/
theorem eq_of_bump? {block moved : Block} {size offset : Nat} {packing : Packing}
    (h : block.bump? size packing = some (offset, moved)) :
    moved = { block with cursor := offset + size } :=
  (bump?_eq_some_iff.mp h).2.2.symm

/-- In a new block the first request goes behind the header, which ends at an aligned offset. -/
theorem target?_ofBuffer (buffer : Buffer) :
    (ofBuffer buffer Layout.blockHeaderSize).target? .aligned = some Layout.blockHeaderSize := by
  change Layout.checkedAlignUp? (Layout.alignUp Layout.blockHeaderSize Layout.alignment) _ = _
  decide

/-- A block that is claimed from for the first time is sound afterwards. -/
theorem sound_of_bump? {block moved : Block} {size offset : Nat} {packing : Packing}
    (hstart : block.start ≤ block.cursor)
    (hbump : block.bump? size packing = some (offset, moved)) : moved.Sound := by
  obtain ⟨htarget, hlimit, rfl⟩ := bump?_eq_some_iff.mp hbump
  have hcursor := cursor_le_of_target? htarget
  exact ⟨by dsimp only; omega, hlimit⟩

end Block

end RegionPool
