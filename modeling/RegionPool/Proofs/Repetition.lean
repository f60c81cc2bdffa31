import RegionPool.Proofs.Lifecycle
import RegionPool.Proofs.Memory
import RegionPool.Proofs.Sites

/-!
# A workload recurs after a reset

A pool that is fresh or was just reset is given a workload of small requests, with regions
lengthened and given back in between. If the pool is reset afterwards and given the same workload
again, everything happens as before, but for the calls to the raw allocator: there are none.

The chain grows in the first run where it finds a block in the second one. That block is empty, and
it is the first one with room, for the blocks before it look as those did that had no room. This
holds as long as searches start at the first block (`Chain.current`).

* `Task`, `work` — workloads, and what they come back with;
* `Pool.Grows`, `work_enlarges` — how the chain of blocks grows in the first run;
* `Pool.Mirrors`, `Repeats` — the second run has come as far as the first one, and keeps up;
* `allocSmall_repeats`, `Task.perform_repeats`, `work_repeats` — and does so to the end;
* `Recurs`, `work_recurs` — from one reset to the next.
-/

namespace RegionPool

open PoolM

/-! ### Workloads -/

/-- **One task of a workload.** Regions are named by their places in the list of those that the
workload was given. -/
inductive Task where
  | alloc (size : Nat)
  | allocUnaligned (size : Nat)
  | allocZeroed (size : Nat)
  | addCleanup (dataSize : Nat)
  | extend (region additional : Nat)
  | reclaim (region : Nat)
  /-- Keep a copy of a region as it is now. -/
  | keepCopy (region : Nat)
  deriving Repr, DecidableEq

/-- **What a task comes back with**: where memory was found, or whether something was done. -/
inductive Answer where
  | placed (place : Place) (length : Nat)
  /-- A record was registered, and these are the bytes it owns. -/
  | registered (data : Option (Place × Nat))
  | flag (done : Bool)
  | nothing
  deriving Repr, DecidableEq

namespace Task

/-- Keep a region that is handed out. -/
def receive (regions : List Region) (action : PoolM Region) : PoolM (Answer × List Region) := do
  let region ← action
  return (.placed region.place region.length, regions ++ [region])

/-- Carry out a task: what it comes back with, and the regions that the workload has then. -/
def perform (regions : List Region) : Task → PoolM (Answer × List Region)
  | .alloc size => receive regions (Pool.alloc size)
  | .allocUnaligned size => receive regions (Pool.allocUnaligned size)
  | .allocZeroed size => receive regions (Pool.allocZeroed size)
  | .addCleanup dataSize => do
    let ticket ← Pool.addCleanup dataSize
    return (.registered (ticket.data.map fun region => (region.place, region.length)),
      regions ++ ticket.data.toList)
  | .extend index additional =>
    match regions[index]? with
    | none => return (.nothing, regions)
    | some region => do
      match ← onPool (·.extend region additional) with
      | some longer => return (.flag true, regions.set index longer)
      | none => return (.flag false, regions)
  | .reclaim index =>
    match regions[index]? with
    | none => return (.nothing, regions)
    | some region => do
      let done ← onPool (·.reclaim region)
      return (.flag done, regions)
  | .keepCopy index => return (.nothing, regions ++ regions[index]?.toList)

/-- **A task is small** if what it asks for is served from the blocks of a pool. -/
def Small (max : Nat) : Task → Prop
  | .alloc size | .allocUnaligned size | .allocZeroed size | .addCleanup size => size ≤ max
  | .extend .. | .reclaim _ | .keepCopy _ => True

instance decidableSmall (max : Nat) : DecidablePred (Small max)
  | .alloc size | .allocUnaligned size | .allocZeroed size | .addCleanup size =>
    inferInstanceAs (Decidable (size ≤ max))
  | .extend .. | .reclaim _ | .keepCopy _ => .isTrue trivial

end Task

/-- Carry out tasks one after the other: what they come back with, and the regions that the workload
has in the end. -/
def work : List Task → List Region → PoolM (List Answer × List Region)
  | [], regions => return ([], regions)
  | task :: tasks, regions => do
    let (answer, regions) ← task.perform regions
    let (answers, regions) ← work tasks regions
    return (answer :: answers, regions)

/-! ### Shapes of blocks -/

/-- **The shape of a block**: what decides where memory is found in it. -/
structure Shape where
  start : Nat
  cursor : Nat
  limit : Nat
  deriving Repr, DecidableEq

/-- The shape of a block that is appended to a chain, before anything is claimed from it. -/
def Shape.blank (limit : Nat) : Shape :=
  let start := Layout.alignUp Layout.blockHeaderSize Layout.alignment
  ⟨start, start, limit⟩

namespace Block

variable {block twin : Block} {size stop offset additional : Nat} {packing : Packing}

/-- The shape of a block. -/
def shape (block : Block) : Shape := ⟨block.start, block.cursor, block.limit⟩

theorem shape_eq_iff : twin.shape = block.shape ↔
    twin.start = block.start ∧ twin.cursor = block.cursor ∧ twin.limit = block.limit := by
  simp [shape]

/-- **Blocks of the same shape** serve a request in the same way. -/
theorem bump?_congr (h : twin.shape = block.shape) :
    (twin.bump? size packing).map (fun found => (found.1, found.2.shape)) =
      (block.bump? size packing).map fun found => (found.1, found.2.shape) := by
  obtain ⟨hstart, hcursor, hlimit⟩ := shape_eq_iff.mp h
  have htarget : twin.target? packing = block.target? packing := by
    cases packing <;> simp [target?, hcursor]
  rw [bump?, bump?, htarget, hlimit]
  split
  · rfl
  -- whether there is room depends on the limit, and that is the same
  · split
    · simp only [Option.map_some, shape, hstart]
      exact congrArg (fun limit => some (_, Shape.mk _ _ limit)) hlimit
    · rfl

theorem extend?_congr (h : twin.shape = block.shape) :
    (twin.extend? stop additional).map shape = (block.extend? stop additional).map shape := by
  obtain ⟨hstart, hcursor, hlimit⟩ := shape_eq_iff.mp h
  rw [extend?, extend?, hcursor, hlimit]
  split
  · simp only [Option.map_some, shape, hstart]
    exact congrArg (fun limit => some (Shape.mk _ _ limit)) hlimit
  · rfl

theorem reclaim?_congr (h : twin.shape = block.shape) :
    (twin.reclaim? offset stop).map shape = (block.reclaim? offset stop).map shape := by
  obtain ⟨hstart, hcursor, hlimit⟩ := shape_eq_iff.mp h
  rw [reclaim?, reclaim?, hcursor]
  split
  · simp only [Option.map_some, shape, hstart]
    exact congrArg (fun limit => some (Shape.mk _ _ limit)) hlimit
  · rfl

/-- Writing to a block does not change its shape. -/
theorem shape_overwrite {data : Bytes} : (block.overwrite offset data).shape = block.shape :=
  shape_eq_iff.mpr ⟨rfl, rfl, Buffer.length_overwrite_any _ _ _⟩

/-- A block that is appended is blank. -/
theorem shape_ofBuffer {buffer : Buffer} :
    (ofBuffer buffer Layout.blockHeaderSize).shape = Shape.blank buffer.length := rfl

/-- **A blank block** needs no padding. -/
theorem bump?_blank {limit : Nat} (h : block.shape = Shape.blank limit) :
    block.bump? size .packed = block.bump? size .aligned := by
  have hcursor : block.cursor = (Shape.blank limit).cursor := congrArg Shape.cursor h
  have htarget : block.target? .packed = block.target? .aligned := by
    rw [target?, target?, hcursor]
    rfl
  rw [bump?, bump?, htarget]

end Block

/-! ### The first run -/

/-- **A pool grows**: blocks may be appended to its chain, and those it had keep their bounds. -/
structure Pool.Grows (pool after : Pool) : Prop where
  traits : pool.SameTraits after
  large : after.large = pool.large
  current : pool.chain.current ≤ after.chain.current
  bounds : ∃ more, after.chain.blocks.map (fun block => block.reset.shape) =
    pool.chain.blocks.map (fun block => block.reset.shape) ++
      List.replicate more (Shape.blank pool.blockSize)

/-- Growth does not move the start of searches back. -/
theorem Chain.current_le_nextStart (chain : Chain) : chain.current ≤ chain.nextStart := by
  suffices h : ∀ indices : List Nat, ∀ start, chain.current ≤ start → chain.current ≤
      indices.foldl (fun start index =>
        if chain.isPassed index && chain.isExhausted index then index + 1 else start) start from
    h _ _ (Nat.le_refl _)
  intro indices
  induction indices with
  | nil => exact fun _ h => h
  | cons index indices ih =>
    intro start h
    rw [List.foldl_cons]
    refine ih _ ?_
    split
    · next hcounts =>
      -- a block that counts is not before the start
      have hpassed : chain.isPassed index = true := (Bool.and_eq_true_iff.mp hcounts).1
      have hle : chain.current ≤ index := of_decide_eq_true (Bool.and_eq_true_iff.mp hpassed).1
      exact Nat.le_succ_of_le hle
    · exact h

namespace Pool.Grows

variable {pool after last : Pool}

theorem refl (pool : Pool) : pool.Grows pool where
  traits := ⟨rfl, rfl, rfl, rfl, rfl, rfl⟩
  large := rfl
  current := Nat.le_refl _
  bounds := ⟨0, (List.append_nil _).symm⟩

theorem trans (h : pool.Grows after) (h' : after.Grows last) : pool.Grows last where
  traits := ⟨h'.traits.id.trans h.traits.id, h'.traits.generation.trans h.traits.generation,
    h'.traits.blockSize.trans h.traits.blockSize, h'.traits.max.trans h.traits.max,
    h'.traits.allocator.trans h.traits.allocator, h'.traits.name.trans h.traits.name⟩
  large := h'.large.trans h.large
  current := Nat.le_trans h.current h'.current
  bounds := by
    obtain ⟨more, hbounds⟩ := h.bounds
    obtain ⟨more', hbounds'⟩ := h'.bounds
    refine ⟨more + more', ?_⟩
    rw [hbounds', hbounds, h.traits.blockSize, List.append_assoc, List.replicate_append_replicate]

/-- No block is lost. -/
theorem blockCount_le (h : pool.Grows after) : pool.blockCount ≤ after.blockCount := by
  obtain ⟨more, hbounds⟩ := h.bounds
  have hlength := congrArg List.length hbounds
  rw [List.length_map, List.length_append, List.length_map] at hlength
  rw [blockCount, blockCount]
  omega

/-- Only the chain changes, and it keeps the bounds of its blocks. -/
theorem setChain {chain : Chain} (hcurrent : chain.current = pool.chain.current)
    (hbounds : chain.blocks.map (fun block => block.reset.shape) =
      pool.chain.blocks.map fun block => block.reset.shape) :
    pool.Grows { pool with chain } where
  traits := ⟨rfl, rfl, rfl, rfl, rfl, rfl⟩
  large := rfl
  current := Nat.le_of_eq hcurrent.symm
  bounds := ⟨0, hbounds.trans (List.append_nil _).symm⟩

/-- The cursor of a block moves. -/
theorem setCursor {index cursor : Nat} {block : Block}
    (hblock : pool.chain.blocks[index]? = some block) :
    pool.Grows { pool with chain := pool.chain.setBlock index { block with cursor } } :=
  setChain rfl (Chain.map_blocks_setBlock _ hblock rfl)

/-- A block is appended. -/
theorem grow {buffer : Buffer} {offset size : Nat} {block : Block}
    (hlength : buffer.length = pool.blockSize)
    (hbump : (Block.ofBuffer buffer Layout.blockHeaderSize).bump? size .aligned =
      some (offset, block)) : pool.Grows { pool with chain := pool.chain.grow block } where
  traits := ⟨rfl, rfl, rfl, rfl, rfl, rfl⟩
  large := rfl
  current := pool.chain.current_le_nextStart
  bounds := by
    refine ⟨1, ?_⟩
    obtain rfl := Block.eq_of_bump? hbump
    rw [← hlength]
    exact Chain.map_blocks_grow _ fun _ => rfl

/-- Writing to a block changes no bounds. -/
theorem overwrite {index offset : Nat} {data : Bytes} :
    pool.Grows (pool.overwrite (.block index) offset data) :=
  setChain rfl (Chain.map_blocks_overwrite _ fun block => block.reset.shape_overwrite)

end Pool.Grows

/-- **An action that lets the pool grow**, with what holds of its result. -/
def Enlarges {α : Type} (action : PoolM α) (s : PoolState) (ok : α → Prop) : Prop :=
  Ends action s (fun a t => s.pool.Grows t.pool ∧ ok a) fun _ _ => True

namespace Enlarges

variable {α β : Type} {action : PoolM α} {next : α → PoolM β} {s t : PoolState} {ok ok' : α → Prop}
  {done : β → Prop} {a : α}

theorem bind (h : Enlarges action s ok)
    (hnext : ∀ a t, action s = .ok a t → s.pool.Grows t.pool → ok a → Enlarges (next a) t done) :
    Enlarges (action >>= next) s done := by
  rw [Enlarges, ends_bind]
  cases run : action s with
  | error failure t => rw [ends_of_error run]; trivial
  | ok a t =>
    obtain ⟨grows, hok⟩ := h.ok_of run
    rw [ends_of_ok run]
    exact (hnext a t run grows hok).mono (fun _ _ hu => ⟨grows.trans hu.1, hu.2⟩) fun _ _ h => h

theorem pure (h : ok a) : Enlarges (pure a : PoolM α) s ok := ⟨.refl _, h⟩

theorem mono (h : Enlarges action s ok) (hok : ∀ a, ok a → ok' a) : Enlarges action s ok' :=
  Ends.mono h (fun a _ ht => ⟨ht.1, hok a ht.2⟩) fun _ _ h => h

theorem map {f : α → β} (h : Enlarges action s ok) (hok : ∀ a, ok a → done (f a)) :
    Enlarges (f <$> action) s done := by
  rw [Enlarges, ends_map]
  exact h.mono hok

theorem discard (h : Enlarges action s ok) : Enlarges (discard action) s fun _ => True := by
  rw [Enlarges, ends_discard]
  exact h.mono fun _ _ => trivial

end Enlarges

namespace Pool

variable {s : PoolState} {size additional start : Nat} {packing : Packing} {region : Region}
  {data : Bytes}

/-- **How a small request is served**: the first block with room is found, or one is appended. -/
private theorem allocSmall_served : Ends (allocSmall size packing) s
    (fun region t => (∃ index offset chain,
        s.pool.chain.claim? size packing = some (index, offset, chain) ∧
          t = { s with pool := { s.pool with chain } } ∧
          region = s.pool.regionAt size (.block index offset)) ∨
      s.pool.chain.claim? size packing = none ∧ ∃ buffer offset block,
        buffer.length = s.pool.blockSize ∧ (Block.ofBuffer buffer Layout.blockHeaderSize).bump?
          size .aligned = some (offset, block) ∧
        t.pool = { s.pool with chain := s.pool.chain.grow block } ∧
        region = s.pool.regionAt size (.block s.pool.blockCount offset))
    fun _ _ => True := by
  simp only [allocSmall, ends_bind, ends_getPool]
  split
  · next index offset chain hclaim => exact .inl ⟨index, offset, chain, hclaim, rfl, rfl⟩
  · next hclaim =>
    simp only [growFor, ends_bind, ends_getPool]
    rw [ends_request]
    refine ⟨fun buffer world call => ?_, fun _ _ _ => trivial⟩
    split
    · exact trivial
    -- of the new block it only matters how long it is, and that holds of every heap
    · next offset block hbump =>
      refine .inr ⟨hclaim, buffer, offset, block, World.length_of_request call, hbump, rfl, ?_⟩
      have hlast : (s.pool.chain.grow block).blocks.length - 1 = s.pool.chain.blocks.length := by
        rw [Chain.length_blocks_grow, Nat.add_sub_cancel]
      change s.pool.regionAt size (.block ((s.pool.chain.grow block).blocks.length - 1) offset) = _
      rw [hlast]
      rfl

theorem allocSmall_enlarges :
    Enlarges (allocSmall size packing) s fun region => region.isLarge = false := by
  refine allocSmall_served.mono (fun region t ht => ?_) fun _ _ h => h
  obtain ⟨index, offset, chain, hclaim, rfl, rfl⟩ | ⟨-, buffer, offset, block, hlength, hbump,
    hpool, rfl⟩ := ht
  · obtain ⟨block, moved, hblock, hbump, rfl⟩ := Chain.exists_of_claim? hclaim
    obtain rfl := Block.eq_of_bump? hbump
    exact ⟨.setCursor hblock, rfl⟩
  · rw [hpool]
    exact ⟨.grow hlength hbump, rfl⟩

theorem allocWith_enlarges (h : size ≤ s.pool.max) :
    Enlarges (allocWith packing size) s fun region => region.isLarge = false := by
  rw [Enlarges, Ends, allocWith_of_le h]
  exact allocSmall_enlarges

theorem write_enlarges (hsmall : region.isLarge = false) :
    Enlarges (onPool fun pool => return ((), ← pool.write region start data)) s fun _ => True := by
  rw [Enlarges, ends_onPool]
  refine ⟨fun _ after hrun => ⟨?_, trivial⟩, fun _ _ => trivial⟩
  obtain ⟨written, hwrite, hpure⟩ := bind_eq_ok_iff.mp hrun
  obtain ⟨-, rfl⟩ := Prod.mk.inj (pure_eq_ok_iff.mp hpure)
  obtain ⟨-, store, hstore, -, rfl⟩ := write_eq_ok hwrite
  obtain ⟨index, offset, hplace⟩ := Region.isLarge_eq_false_iff.mp hsmall
  rw [hplace] at hstore
  obtain rfl := Option.some.inj hstore
  exact .overwrite

theorem allocZeroed_enlarges (h : size ≤ s.pool.max) :
    Enlarges (allocZeroed size) s fun region => region.isLarge = false := by
  refine (allocWith_enlarges h).bind fun region t _ _ hsmall => ?_
  exact (write_enlarges hsmall).bind fun _ _ _ _ _ => .pure hsmall

theorem extend_enlarges :
    Enlarges (onPool (·.extend region additional)) s fun extended =>
      ∀ longer ∈ extended, longer.place = region.place := by
  rw [Enlarges, ends_onPool]
  refine ⟨fun extended after hrun => ?_, fun _ _ => trivial⟩
  obtain ⟨rfl, rfl⟩ | ⟨index, block, -, hblock, -, -, rfl, rfl⟩ := extend_eq_ok hrun
  · exact ⟨.refl _, nofun⟩
  · refine ⟨.setCursor hblock, ?_⟩
    rintro _ ⟨⟩
    rfl

theorem reclaim_enlarges :
    Enlarges (onPool (·.reclaim region)) s fun _ => True := by
  rw [Enlarges, ends_onPool]
  refine ⟨fun done after hrun => ⟨?_, trivial⟩, fun _ _ => trivial⟩
  obtain ⟨-, rfl⟩ | ⟨index, block, -, hblock, -, -, rfl⟩ := reclaim_eq_ok hrun
  · exact .refl _
  · exact .setCursor hblock

/-- The bytes of a record are requested. -/
def claimData (dataSize : Nat) : PoolM (Option Region) :=
  if dataSize = 0 then pure none else some <$> alloc dataSize

/-- The end of a registration: a record is made for the bytes that were found for it. -/
def register (dataSize : Nat) (data : Option Region) : PoolM CleanupTicket := do
  let pool ← getPool
  let index := pool.cleanups.count
  setPool { pool with cleanups := pool.cleanups.push data }
  log (.addCleanup pool.label index dataSize)
  return { pool := pool.id, index, data }

theorem addCleanup_eq (dataSize : Nat) : addCleanup dataSize = (do
    discard <| allocSmall Layout.cleanupRecordSize .aligned
    let data ← claimData dataSize
    register dataSize data) := by
  rw [addCleanup, claimData]
  split <;> rfl

private theorem register_enlarges {dataSize : Nat} {found : Option Region} :
    Enlarges (register dataSize found) s fun ticket => ticket.data = found :=
  ⟨⟨⟨rfl, rfl, rfl, rfl, rfl, rfl⟩, rfl, Nat.le_refl _, 0, (List.append_nil _).symm⟩, rfl⟩

private theorem claimData_enlarges {dataSize : Nat} (h : dataSize ≤ s.pool.max) :
    Enlarges (claimData dataSize) s
      fun found => ∀ region ∈ found, region.isLarge = false := by
  rw [claimData]
  split
  · exact .pure nofun
  · refine (allocWith_enlarges h).map fun region hsmall => ?_
    rintro _ ⟨⟩
    exact hsmall

/-- **A record and its bytes.** -/
theorem addCleanup_enlarges {dataSize : Nat} (h : dataSize ≤ s.pool.max) :
    Enlarges (addCleanup dataSize) s fun ticket =>
      ∀ region ∈ ticket.data, region.isLarge = false := by
  rw [addCleanup_eq]
  refine allocSmall_enlarges.discard.bind fun _ t _ grows _ => ?_
  refine (claimData_enlarges (grows.traits.max ▸ h)).bind fun found u _ _ hfound => ?_
  refine register_enlarges.mono fun ticket hticket => ?_
  rw [hticket]
  exact hfound

end Pool

section Run

variable {s : PoolState} {regions : List Region} {task : Task} {tasks : List Task}

/-- Regions that lie in blocks. -/
def InBlocks (regions : List Region) : Prop := ∀ region ∈ regions, region.isLarge = false

theorem inBlocks_nil : InBlocks [] := fun _ hmem => (List.not_mem_nil hmem).elim

/-- Keeping a region that is handed out. -/
private theorem Task.receive_enlarges {action : PoolM Region} (inBlocks : InBlocks regions)
    (h : Enlarges action s fun region => region.isLarge = false) :
    Enlarges (Task.receive regions action) s fun result => InBlocks result.2 := by
  refine h.bind fun region t _ _ hsmall => .pure fun other hmem => ?_
  rcases List.mem_append.mp hmem with hold | hnew
  · exact inBlocks other hold
  · exact List.mem_singleton.mp hnew ▸ hsmall

/-- **A small task** lets the pool grow, and its regions lie in blocks. -/
theorem Task.perform_enlarges (small : task.Small s.pool.max) (inBlocks : InBlocks regions) :
    Enlarges (task.perform regions) s fun result => InBlocks result.2 := by
  cases task with
  | alloc size => exact receive_enlarges inBlocks (Pool.allocWith_enlarges small)
  | allocUnaligned size => exact receive_enlarges inBlocks (Pool.allocWith_enlarges small)
  | allocZeroed size => exact receive_enlarges inBlocks (Pool.allocZeroed_enlarges small)
  | addCleanup dataSize =>
    refine (Pool.addCleanup_enlarges small).bind fun ticket t _ _ hdata =>
      .pure fun other hmem => ?_
    rcases List.mem_append.mp hmem with hold | hnew
    · exact inBlocks other hold
    · exact hdata other (Option.mem_toList.mp hnew)
  | extend index additional =>
    rw [perform]
    split
    · exact .pure inBlocks
    · next region hregion =>
      refine Pool.extend_enlarges.bind fun extended t _ _ hplace => ?_
      split
      · next longer =>
        -- a region is lengthened where it is, so it stays in its block
        refine .pure fun other hmem => ?_
        rcases List.mem_or_eq_of_mem_set hmem with hold | rfl
        · exact inBlocks other hold
        · rw [Region.isLarge, hplace other rfl]
          exact inBlocks region (List.mem_of_getElem? hregion)
      · exact .pure inBlocks
  | reclaim index =>
    rw [perform]
    split
    · exact .pure inBlocks
    · exact Pool.reclaim_enlarges.bind fun _ _ _ _ _ => .pure inBlocks
  | keepCopy index =>
    refine .pure fun other hmem => ?_
    rcases List.mem_append.mp hmem with hold | hnew
    · exact inBlocks other hold
    · exact inBlocks other (List.mem_of_getElem? (Option.mem_toList.mp hnew))

/-- **So does a workload** of small tasks. -/
theorem work_enlarges (small : ∀ task ∈ tasks, task.Small s.pool.max)
    (inBlocks : InBlocks regions) :
    Enlarges (work tasks regions) s fun result => InBlocks result.2 := by
  induction tasks generalizing s regions with
  | nil => exact .pure inBlocks
  | cons task tasks ih =>
    refine (Task.perform_enlarges (small task List.mem_cons_self) inBlocks).bind
      fun first t _ grows hfirst => ?_
    refine (ih (fun other hmem => ?_) hfirst).bind fun rest _ _ _ hrest => .pure hrest
    exact grows.traits.max ▸ small other (List.mem_cons_of_mem _ hmem)

end Run

/-! ### The second run -/

/-- **A region of the second run**: the same one, in a later generation. -/
def Region.renewed (generation : Nat) (region : Region) : Region := { region with generation }

/-- **The second run has come as far as the first one.** Searches start at the first block, the
blocks look as they do in the first run, and those behind them are blank. -/
structure Pool.Mirrors (pool again : Pool) : Prop where
  id : again.id = pool.id
  max : again.max = pool.max
  current : again.chain.current = 0
  shapes : ∃ spare, again.chain.blocks.map Block.shape =
    pool.chain.blocks.map Block.shape ++ List.replicate spare (Shape.blank pool.blockSize)

namespace Pool.Mirrors

variable {pool again : Pool} {index : Nat} {block twin moved moved' : Block}

/-- A block of the first run looks as it does in the second one. -/
theorem exists_twin (mirrors : pool.Mirrors again)
    (hblock : pool.chain.blocks[index]? = some block) :
    ∃ twin, again.chain.blocks[index]? = some twin ∧ twin.shape = block.shape := by
  obtain ⟨spare, hshapes⟩ := mirrors.shapes
  have hget : (again.chain.blocks.map Block.shape)[index]? = some block.shape := by
    have hlt := (List.getElem?_eq_some_iff.mp hblock).1
    rw [hshapes, List.getElem?_append_left (by rwa [List.length_map]), List.getElem?_map, hblock]
    rfl
  rw [List.getElem?_map] at hget
  exact Option.map_eq_some_iff.mp hget

/-- The first block that the first run does not have yet is blank. -/
theorem exists_spare (mirrors : pool.Mirrors again) (h : pool.blockCount < again.blockCount) :
    ∃ twin, again.chain.blocks[pool.blockCount]? = some twin ∧
      twin.shape = Shape.blank pool.blockSize := by
  obtain ⟨spare, hshapes⟩ := mirrors.shapes
  have hlength := congrArg List.length hshapes
  rw [List.length_append, List.length_map, List.length_map, List.length_replicate] at hlength
  -- past the blocks of the first run there are only blank ones
  have hget : (again.chain.blocks.map Block.shape)[pool.blockCount]? =
      some (Shape.blank pool.blockSize) := by
    rw [hshapes, List.getElem?_append_right (by rw [List.length_map]; rfl), List.length_map,
      blockCount, Nat.sub_self, List.getElem?_replicate, if_pos]
    rw [blockCount, blockCount] at h
    omega
  rw [List.getElem?_map] at hget
  exact Option.map_eq_some_iff.mp hget

/-- A block changes in the same way in both runs. -/
theorem setBlock (mirrors : pool.Mirrors again) (hblock : pool.chain.blocks[index]? = some block)
    (hshape : moved'.shape = moved.shape) :
    Mirrors { pool with chain := pool.chain.setBlock index moved }
      { again with chain := again.chain.setBlock index moved' } where
  id := mirrors.id
  max := mirrors.max
  current := mirrors.current
  shapes := by
    obtain ⟨spare, hshapes⟩ := mirrors.shapes
    have hlt := (List.getElem?_eq_some_iff.mp hblock).1
    refine ⟨spare, ?_⟩
    change (again.chain.blocks.set index moved').map Block.shape =
      (pool.chain.blocks.set index moved).map Block.shape ++ _
    rw [List.map_set, List.map_set, hshapes, hshape,
      List.set_append_left _ _ (by rwa [List.length_map])]

/-- The first run appends a block where the second one has a blank block. -/
theorem grow (mirrors : pool.Mirrors again) (h : pool.blockCount < again.blockCount)
    (hshape : moved'.shape = moved.shape) :
    Mirrors { pool with chain := pool.chain.grow moved }
      { again with chain := again.chain.setBlock pool.blockCount moved' } where
  id := mirrors.id
  max := mirrors.max
  current := mirrors.current
  shapes := by
    obtain ⟨spare, hshapes⟩ := mirrors.shapes
    have hlength := congrArg List.length hshapes
    rw [List.length_append, List.length_map, List.length_map, List.length_replicate] at hlength
    -- there is a blank block to spare, for the second run has more of them
    obtain ⟨rest, rfl⟩ : ∃ rest, spare = rest + 1 :=
      Nat.exists_eq_succ_of_ne_zero (by rw [blockCount, blockCount] at h; omega)
    refine ⟨rest, ?_⟩
    change (again.chain.blocks.set pool.blockCount moved').map Block.shape =
      (pool.chain.grow moved).blocks.map Block.shape ++ _
    rw [Chain.map_blocks_grow Block.shape fun _ => rfl, List.map_set, hshapes, hshape,
      List.set_append_right _ _ (by rw [List.length_map]; rfl), List.length_map, blockCount,
      Nat.sub_self, List.replicate_succ, List.set_cons_zero, List.append_assoc,
      List.singleton_append]

/-- Bytes are written in both runs. -/
theorem overwrite {index' offset offset' : Nat} {data data' : Bytes}
    (mirrors : pool.Mirrors again) : (pool.overwrite (.block index) offset data).Mirrors
      (again.overwrite (.block index') offset' data') where
  id := mirrors.id
  max := mirrors.max
  current := mirrors.current
  shapes := by
    obtain ⟨spare, hshapes⟩ := mirrors.shapes
    refine ⟨spare, ?_⟩
    change (again.chain.overwrite index' offset' data').blocks.map Block.shape =
      (pool.chain.overwrite index offset data).blocks.map Block.shape ++ _
    rw [Chain.map_blocks_overwrite Block.shape fun block => block.shape_overwrite,
      Chain.map_blocks_overwrite Block.shape fun block => block.shape_overwrite, hshapes]
    rfl

end Pool.Mirrors

/-- **The second run goes on quietly**: nothing is asked of the raw allocator. -/
structure PoolState.Quietly (u v : PoolState) : Prop where
  generation : v.pool.generation = u.pool.generation
  blockCount : v.pool.blockCount = u.pool.blockCount
  calls : v.world.rawCalls = u.world.rawCalls

theorem PoolState.Quietly.trans {u v w : PoolState} (h : u.Quietly v) (h' : v.Quietly w) :
    u.Quietly w :=
  ⟨h'.generation.trans h.generation, h'.blockCount.trans h.blockCount, h'.calls.trans h.calls⟩

/-- **An action is repeated**: where the first run succeeds, with searches still starting at the
first block and no more blocks than there are for the second run, the second run does as well, and
the results are related. -/
def Repeats {α β : Type} (action : PoolM α) (again : PoolM β) (R : α → β → Prop)
    (s u : PoolState) : Prop :=
  ∀ a t, action s = .ok a t → t.pool.chain.current = 0 → t.pool.blockCount ≤ u.pool.blockCount →
    ∃ b v, again u = .ok b v ∧ R a b ∧ t.pool.Mirrors v.pool ∧ u.Quietly v

namespace Repeats

variable {α β γ δ : Type} {action : PoolM α} {again : PoolM β} {R : α → β → Prop}
  {Q : γ → δ → Prop} {next : α → PoolM γ} {next' : β → PoolM δ} {s u : PoolState}

/-- **Actions one after the other.** -/
theorem bind (h : Repeats action again R s u)
    (enlarges : ∀ a t, action s = .ok a t → Enlarges (next a) t fun _ => True)
    (hnext : ∀ a t b v, action s = .ok a t → R a b → t.pool.Mirrors v.pool → u.Quietly v →
      Repeats (next a) (next' b) Q t v) :
    Repeats (action >>= next) (again >>= next') Q s u := by
  intro c w run hcurrent hcount
  cases first : action s with
  | error failure t => rw [bind_of_error first] at run; cases run
  | ok a t =>
    rw [bind_of_ok first] at run
    -- what comes later has moved neither the start of searches nor the number of blocks back
    have grows := ((enlarges a t first).ok_of run).1
    obtain ⟨b, v, hagain, related, mirrors, quietly⟩ := h a t first
      (Nat.le_zero.mp (hcurrent ▸ grows.current)) (Nat.le_trans grows.blockCount_le hcount)
    obtain ⟨d, x, hagain', related', mirrors', quietly'⟩ :=
      hnext a t b v first related mirrors quietly c w run hcurrent (quietly.blockCount ▸ hcount)
    exact ⟨d, x, (bind_of_ok hagain).trans hagain', related', mirrors', quietly.trans quietly'⟩

theorem pure {a : α} {b : β} (mirrors : s.pool.Mirrors u.pool) (h : R a b) :
    Repeats (pure a : PoolM α) (pure b) R s u := by
  rintro _ _ ⟨⟩ - -
  exact ⟨b, u, rfl, h, mirrors, rfl, rfl, rfl⟩

theorem mono {R' : α → β → Prop} (h : Repeats action again R s u)
    (hR : ∀ a b, R a b → R' a b) : Repeats action again R' s u := by
  intro a t run hcurrent hcount
  obtain ⟨b, v, hagain, related, hrest⟩ := h a t run hcurrent hcount
  exact ⟨b, v, hagain, hR a b related, hrest⟩

/-- The results are all that is looked at. -/
theorem map {f : α → γ} {g : β → δ} (h : Repeats action again R s u)
    (hQ : ∀ a b, R a b → Q (f a) (g b)) : Repeats (f <$> action) (g <$> again) Q s u := by
  intro c w run hcurrent hcount
  -- what the action returned is what is looked at, through `f`
  have hends : Ends (f <$> action) s (fun c w => ∃ a, action s = .ok a w ∧ c = f a)
      fun _ _ => True := by
    rw [ends_map, Ends]
    split
    · next a t first => exact ⟨a, first, rfl⟩
    · trivial
  obtain ⟨a, first, rfl⟩ := hends.ok_of run
  obtain ⟨b, v, hagain, related, hrest⟩ := h a w first hcurrent hcount
  exact ⟨g b, v, by simp only [Functor.map, EStateM.map, hagain], hQ a b related, hrest⟩

/-- A result that is not looked at. -/
theorem discard (h : Repeats action again R s u) :
    Repeats (discard action) (discard again) (fun _ _ => True) s u :=
  h.map fun _ _ _ => trivial

end Repeats

/-! ### Actions of a workload -/

namespace Pool

variable {s u : PoolState} {size additional start index offset : Nat} {packing : Packing}
  {region : Region} {data : Bytes} {chain : Chain}

/-- A request that finds a block with room does nothing else. -/
private theorem allocSmall_of_claim?
    (h : s.pool.chain.claim? size packing = some (index, offset, chain)) :
    allocSmall size packing s = .ok (s.pool.regionAt size (.block index offset))
      { s with pool := { s.pool with chain } } := by
  have hget : getPool s = .ok s.pool s := rfl
  rw [allocSmall, bind_of_ok hget, h]
  rfl

/-- The second run has a block with room where the first one finds a block or appends one. -/
private theorem Mirrors.claim? {twin moved : Block} (mirrors : s.pool.Mirrors u.pool)
    (hnone : ∀ earlier other, earlier < index → s.pool.chain.blocks[earlier]? = some other →
      other.bump? size packing = none) (hindex : index ≤ s.pool.blockCount)
    (htwin : u.pool.chain.blocks[index]? = some twin)
    (hbump : twin.bump? size packing = some (offset, moved)) :
    u.pool.chain.claim? size packing =
      some (index, offset, u.pool.chain.setBlock index moved) := by
  refine Chain.claim?_eq_some_iff.mpr ⟨mirrors.current ▸ Nat.zero_le _, twin, moved, htwin, hbump,
    rfl, fun earlier other _ hlt hother => ?_⟩
  -- the blocks in front look as they do in the first run, where they have no room
  have hold := List.getElem?_eq_getElem (Nat.lt_of_lt_of_le hlt hindex)
  obtain ⟨other', hother', hshape⟩ := mirrors.exists_twin hold
  obtain rfl := Option.some.inj (hother.symm.trans hother')
  have hcongr : (other.bump? size packing).map _ = _ := Block.bump?_congr hshape
  rw [hnone earlier _ hlt hold, Option.map_none, Option.map_eq_none_iff] at hcongr
  exact hcongr

/-- What serves a request in one block serves it in a block of the same shape. -/
private theorem exists_bump?_of_shape {block twin moved : Block} (hshape : twin.shape = block.shape)
    (hbump : block.bump? size packing = some (offset, moved)) :
    ∃ moved', twin.bump? size packing = some (offset, moved') ∧ moved'.shape = moved.shape := by
  have hcongr : (twin.bump? size packing).map _ = _ := Block.bump?_congr hshape
  rw [hbump, Option.map_some] at hcongr
  obtain ⟨⟨offset', moved'⟩, hfound, heq⟩ := Option.map_eq_some_iff.mp hcongr
  obtain ⟨rfl, heq⟩ := Prod.mk.inj heq
  exact ⟨moved', hfound, heq⟩

/-- **A small request** finds memory in the same place. -/
theorem allocSmall_repeats (mirrors : s.pool.Mirrors u.pool) :
    Repeats (allocSmall size packing) (allocSmall size packing)
      (fun region other => other = region.renewed u.pool.generation) s u := by
  intro region t run hcurrent hcount
  have grows := (allocSmall_enlarges.ok_of run).1
  have hzero : s.pool.chain.current = 0 := Nat.le_zero.mp (hcurrent ▸ grows.current)
  have hregion : ∀ place, u.pool.regionAt size place =
      (s.pool.regionAt size place).renewed u.pool.generation := fun place => by
    rw [Region.renewed, regionAt, regionAt, mirrors.id]
  obtain ⟨index, offset, chain, hclaim, rfl, rfl⟩ | ⟨hclaim, buffer, offset, block, hlength, hbump,
    hpool, rfl⟩ := allocSmall_served.ok_of run
  · obtain ⟨-, block, moved, hblock, hbump, rfl, hfirst⟩ := Chain.claim?_eq_some_iff.mp hclaim
    obtain ⟨twin, htwin, hshape⟩ := mirrors.exists_twin hblock
    obtain ⟨moved', hbump', hshape'⟩ := exists_bump?_of_shape hshape hbump
    have hindex := Nat.le_of_lt (List.getElem?_eq_some_iff.mp hblock).1
    have hagain := mirrors.claim? (fun earlier other hlt =>
      hfirst earlier other (hzero ▸ Nat.zero_le _) hlt) hindex htwin hbump'
    exact ⟨_, _, allocSmall_of_claim? hagain, hregion _, mirrors.setBlock hblock hshape', rfl,
      Chain.length_blocks_setBlock _ _ _, rfl⟩
  · -- the first run appends a block, and the second one has a blank block there
    have hspare : s.pool.blockCount < u.pool.blockCount := by
      rw [hpool] at hcount
      have hgrown : blockCount { s.pool with chain := s.pool.chain.grow block } =
          s.pool.blockCount + 1 := Chain.length_blocks_grow _ _
      omega
    obtain ⟨twin, htwin, hshape⟩ := mirrors.exists_spare hspare
    obtain ⟨moved', hbump', hshape'⟩ := exists_bump?_of_shape
      (hshape.trans ((congrArg Shape.blank hlength).symm.trans Block.shape_ofBuffer.symm)) hbump
    have hpacked : twin.bump? size packing = some (offset, moved') := by
      cases packing with
      | aligned => exact hbump'
      | packed => exact (Block.bump?_blank hshape).trans hbump'
    have hagain := mirrors.claim? (fun earlier other _ => Chain.claim?_eq_none_iff.mp hclaim earlier
      other (hzero ▸ Nat.zero_le _)) (Nat.le_refl _) htwin hpacked
    rw [hpool]
    exact ⟨_, _, allocSmall_of_claim? hagain, hregion _, mirrors.grow hspare hshape', rfl,
      Chain.length_blocks_setBlock _ _ _, rfl⟩

/-- **A request of any size** up to the threshold. -/
theorem allocWith_repeats (mirrors : s.pool.Mirrors u.pool) (h : size ≤ s.pool.max) :
    Repeats (allocWith packing size) (allocWith packing size)
      (fun region other => other = region.renewed u.pool.generation) s u := by
  intro region t run
  rw [allocWith_of_le h] at run
  rw [allocWith_of_le (mirrors.max ▸ h)]
  exact allocSmall_repeats mirrors region t run

/-- What the first run resolves to a block, the second one resolves to the same block. -/
theorem Mirrors.resolved {pool again : Pool} {store : Store} (mirrors : pool.Mirrors again)
    (hsmall : region.isLarge = false) (h : pool.resolved region = .ok (store, offset)) :
    ∃ index, region.place = .block index offset ∧ store = .block index ∧
      again.resolved (region.renewed again.generation) = .ok (.block index, offset) := by
  obtain ⟨howner, -, hstore, rfl⟩ := resolve_eq_ok_iff.mp (resolved_eq_ok_iff.mp h)
  obtain ⟨index, offset, hplace⟩ := Region.isLarge_eq_false_iff.mp hsmall
  rw [hplace] at hstore
  obtain rfl := Option.some.inj hstore
  have hblock : region.place = .block index region.place.offset := by rw [hplace, Place.offset]
  -- the second run has the same place in its own generation
  refine ⟨index, hblock, rfl, resolved_eq_ok_iff.mpr (resolve_eq_ok_iff.mpr ?_)⟩
  refine ⟨howner.trans mirrors.id.symm, rfl, ?_, ?_⟩
  · rw [Region.renewed, hplace]
    rfl
  · rw [Region.renewed, hplace]

/-- **A function of the pool** is repeated if it succeeds in the second run as well. -/
private theorem repeats_of_eq_ok {α β : Type} {f : Pool → Except Failure (α × Pool)}
    {g : Pool → Except Failure (β × Pool)} {R : α → β → Prop}
    (hagain : ∀ a after, f s.pool = .ok (a, after) → ∃ b again, g u.pool = .ok (b, again) ∧
      R a b ∧ after.Mirrors again ∧ again.generation = u.pool.generation ∧
      again.blockCount = u.pool.blockCount) : Repeats (onPool f) (onPool g) R s u := by
  intro a t run _ _
  have hends : Ends (onPool f) s (fun a t => f s.pool = .ok (a, t.pool)) fun _ _ => True :=
    ends_onPool.mpr ⟨fun _ _ hrun => hrun, fun _ _ => trivial⟩
  obtain ⟨b, again, hrun, related, mirrors, hgeneration, hcount⟩ :=
    hagain a t.pool (hends.ok_of run)
  refine ⟨b, { u with pool := again }, ?_, related, mirrors, hgeneration, hcount, rfl⟩
  rw [onPool, hrun]

/-- **Writing to a region** in a block. -/
theorem write_repeats (mirrors : s.pool.Mirrors u.pool) (hsmall : region.isLarge = false) :
    Repeats (onPool fun pool => return ((), ← pool.write region start data))
      (onPool fun pool => return ((), ← pool.write (region.renewed u.pool.generation) start data))
      (fun _ _ => True) s u := by
  refine repeats_of_eq_ok fun _ after hrun => ?_
  obtain ⟨written, hwrite, hpure⟩ := bind_eq_ok_iff.mp hrun
  obtain ⟨-, rfl⟩ := Prod.mk.inj (pure_eq_ok_iff.mp hpure)
  obtain ⟨⟨store, offset⟩, hlocate, hguard⟩ := bind_eq_ok_iff.mp hwrite
  obtain ⟨inside, hafter⟩ := guard_eq_ok_iff.mp hguard
  obtain rfl := pure_eq_ok_iff.mp hafter
  obtain ⟨hresolve, hspans⟩ := locate_eq_ok_iff.mp hlocate
  obtain ⟨index, -, rfl, hagain⟩ := mirrors.resolved hsmall (resolved_eq_ok_iff.mpr hresolve)
  -- the block has as many bytes in the second run
  obtain ⟨buffer, hbuffer, hlimit⟩ := spans_eq_true_iff.mp hspans
  obtain ⟨block, hblock, rfl⟩ := Option.map_eq_some_iff.mp hbuffer
  obtain ⟨twin, htwin, hshape⟩ := mirrors.exists_twin hblock
  have hlength : twin.buffer.length = block.buffer.length := (Block.shape_eq_iff.mp hshape).2.2
  have hspans' : u.pool.spans (.block index) offset region.length = true :=
    spans_eq_true_iff.mpr ⟨twin.buffer, Option.map_eq_some_iff.mpr ⟨twin, htwin, rfl⟩,
      hlength ▸ hlimit⟩
  have hwrite' : u.pool.write (region.renewed u.pool.generation) start data =
      .ok (u.pool.overwrite (.block index) (offset + start) data) :=
    bind_eq_ok_iff.mpr ⟨_, locate_eq_ok_iff.mpr ⟨resolved_eq_ok_iff.mp hagain, hspans'⟩,
      guard_eq_ok_iff.mpr ⟨inside, rfl⟩⟩
  exact ⟨(), _, bind_eq_ok_iff.mpr ⟨_, hwrite', rfl⟩, trivial, mirrors.overwrite, rfl,
    Chain.length_blocks_overwrite ..⟩

section Block

variable {pool again : Pool} {block : Block} {found found' : Option Block}

/-- The pool after the cursor of a block was moved, or after it could not be. -/
def moveCursor (pool : Pool) (index : Nat) (found : Option Block) : Pool :=
  found.elim pool fun moved => { pool with chain := pool.chain.setBlock index moved }

/-- A cursor moves in both runs or in neither. -/
private theorem Mirrors.moveCursor (mirrors : pool.Mirrors again)
    (hblock : pool.chain.blocks[index]? = some block)
    (h : found'.map Block.shape = found.map Block.shape) :
    (∀ (α : Type) (a : α), (found'.map fun _ => a) = found.map fun _ => a) ∧
      (pool.moveCursor index found).Mirrors (again.moveCursor index found') ∧
      (again.moveCursor index found').generation = again.generation ∧
      (again.moveCursor index found').blockCount = again.blockCount := by
  cases found with
  | none =>
    obtain rfl := Option.map_eq_none_iff.mp h
    exact ⟨fun _ _ => rfl, mirrors, rfl, rfl⟩
  | some moved =>
    obtain ⟨moved', rfl, hshape⟩ := Option.map_eq_some_iff.mp h
    exact ⟨fun _ _ => rfl, mirrors.setBlock hblock hshape, rfl, Chain.length_blocks_setBlock _ _ _⟩

/-- What comes of lengthening a region in a block. -/
private theorem extend_of_resolved (hresolved : pool.resolved region = .ok (.block index, offset))
    (hblock : pool.chain.blocks[index]? = some block) : pool.extend region additional =
      .ok ((block.extend? (offset + region.length) additional).map fun _ =>
          { region with length := region.length + additional },
        pool.moveCursor index (block.extend? (offset + region.length) additional)) := by
  refine bind_eq_ok_iff.mpr ⟨_, hresolved, ?_⟩
  simp only [hblock]
  cases block.extend? (offset + region.length) additional <;> rfl

/-- What comes of giving a region back to its block. -/
private theorem reclaim_of_resolved (hresolved : pool.resolved region = .ok (.block index, offset))
    (hblock : pool.chain.blocks[index]? = some block) : pool.reclaim region =
      .ok ((block.reclaim? offset (offset + region.length)).isSome,
        pool.moveCursor index (block.reclaim? offset (offset + region.length))) := by
  refine bind_eq_ok_iff.mpr ⟨_, hresolved, ?_⟩
  simp only [hblock]
  cases block.reclaim? offset (offset + region.length) <;> rfl

/-- A region that is lengthened or given back has a block, if it resolves to one. -/
private theorem exists_block_of_ok (additional : Nat)
    (hresolved : pool.resolved region = .ok (.block index, offset))
    (h : (∃ extended, pool.extend region additional = .ok extended) ∨
      ∃ done, pool.reclaim region = .ok done) :
    ∃ block, pool.chain.blocks[index]? = some block := by
  cases hblock : pool.chain.blocks[index]? with
  | some block => exact ⟨block, rfl⟩
  -- without the block both would have ended otherwise
  | none =>
    obtain ⟨_, h⟩ | ⟨_, h⟩ := h
    all_goals
      obtain ⟨_, hfound, hrest⟩ := bind_eq_ok_iff.mp h
      obtain rfl := Except.ok.inj (hresolved.symm.trans hfound)
      simp only [hblock] at hrest
      cases hrest

end Block

/-- **Lengthening a region** in a block. -/
theorem extend_repeats (mirrors : s.pool.Mirrors u.pool) (hsmall : region.isLarge = false) :
    Repeats (onPool (·.extend region additional))
      (onPool (·.extend (region.renewed u.pool.generation) additional))
      (fun longer other => other = longer.map (Region.renewed u.pool.generation)) s u := by
  refine repeats_of_eq_ok fun extended after hextend => ?_
  obtain ⟨⟨store, offset⟩, hresolved, -⟩ := bind_eq_ok_iff.mp hextend
  obtain ⟨index, -, rfl, hresolved'⟩ := mirrors.resolved hsmall hresolved
  obtain ⟨block, hblock⟩ := exists_block_of_ok _ hresolved (.inl ⟨_, hextend⟩)
  obtain ⟨twin, htwin, hshape⟩ := mirrors.exists_twin hblock
  rw [extend_of_resolved hresolved hblock] at hextend
  obtain ⟨rfl, rfl⟩ := Prod.mk.inj (Except.ok.inj hextend)
  obtain ⟨hsame, hmoved⟩ := mirrors.moveCursor hblock (Block.extend?_congr hshape)
  -- both runs lengthen the region or neither does
  refine ⟨_, _, extend_of_resolved hresolved' htwin, ?_, hmoved⟩
  rw [Option.map_map]
  exact hsame _ _

/-- **Giving a region back** to its block. -/
theorem reclaim_repeats (mirrors : s.pool.Mirrors u.pool) (hsmall : region.isLarge = false) :
    Repeats (onPool (·.reclaim region)) (onPool (·.reclaim (region.renewed u.pool.generation)))
      (fun done other => other = done) s u := by
  refine repeats_of_eq_ok fun done after hreclaim => ?_
  obtain ⟨⟨store, offset⟩, hresolved, -⟩ := bind_eq_ok_iff.mp hreclaim
  obtain ⟨index, -, rfl, hresolved'⟩ := mirrors.resolved hsmall hresolved
  obtain ⟨block, hblock⟩ := exists_block_of_ok 0 hresolved (.inr ⟨_, hreclaim⟩)
  obtain ⟨twin, htwin, hshape⟩ := mirrors.exists_twin hblock
  rw [reclaim_of_resolved hresolved hblock] at hreclaim
  obtain ⟨rfl, rfl⟩ := Prod.mk.inj (Except.ok.inj hreclaim)
  -- blocks of the same shape give a region back alike
  obtain ⟨hsame, hmoved⟩ := mirrors.moveCursor hblock (Block.reclaim?_congr hshape)
  refine ⟨_, _, reclaim_of_resolved hresolved' htwin, ?_, hmoved⟩
  have hsome := congrArg Option.isSome (hsame Unit ())
  rwa [Option.isSome_map, Option.isSome_map] at hsome

/-- **A cleared region** is found in the same place. -/
theorem allocZeroed_repeats (mirrors : s.pool.Mirrors u.pool) (h : size ≤ s.pool.max) :
    Repeats (allocZeroed size) (allocZeroed size)
      (fun region other => other = region.renewed u.pool.generation) s u := by
  refine (allocWith_repeats mirrors h).bind
    (fun region t run => (write_enlarges ((allocWith_enlarges h).ok_of run).2).bind
      fun _ _ _ _ _ => .pure trivial) fun region t other v run related mirrors' quietly => ?_
  subst related
  rw [← quietly.generation]
  exact (write_repeats mirrors' ((allocWith_enlarges h).ok_of run).2).bind
    (fun _ _ _ => .pure trivial) fun _ _ _ _ _ _ mirrors'' _ => .pure mirrors'' rfl

/-- The bytes of a record are found in the same place. -/
private theorem claimData_repeats {dataSize : Nat} (mirrors : s.pool.Mirrors u.pool)
    (h : dataSize ≤ s.pool.max) :
    Repeats (claimData dataSize) (claimData dataSize)
      (fun found other => other = found.map (Region.renewed u.pool.generation)) s u := by
  rw [claimData]
  split
  · exact .pure mirrors rfl
  · exact (allocWith_repeats mirrors h).map fun _ _ related => congrArg some related

/-- A record is made in both runs. -/
private theorem register_repeats {dataSize : Nat} {found other : Option Region}
    (mirrors : s.pool.Mirrors u.pool) : Repeats (register dataSize found) (register dataSize other)
      (fun ticket ticket' => ticket.data = found ∧ ticket'.data = other) s u := by
  rintro _ _ ⟨⟩ - -
  exact ⟨_, _, rfl, ⟨rfl, rfl⟩, ⟨mirrors.id, mirrors.max, mirrors.current, mirrors.shapes⟩, rfl,
    rfl, World.rawCalls_log _ _⟩

/-- **A record and its bytes** are found in the same place. The number of the record is another one,
for records outlive a reset. -/
theorem addCleanup_repeats {dataSize : Nat} (mirrors : s.pool.Mirrors u.pool)
    (h : dataSize ≤ s.pool.max) : Repeats (addCleanup dataSize) (addCleanup dataSize)
      (fun ticket other => other.data = ticket.data.map (Region.renewed u.pool.generation))
      s u := by
  -- the first request leaves the threshold, so the second one is small as well
  have hmax : ∀ a t, discard (allocSmall Layout.cleanupRecordSize .aligned) s = .ok a t →
      dataSize ≤ t.pool.max := fun a t run =>
    (allocSmall_enlarges.discard.ok_of run).1.traits.max ▸ h
  rw [addCleanup_eq]
  refine (allocSmall_repeats mirrors).discard.bind
    (fun a t run => (claimData_enlarges (hmax a t run)).bind fun _ _ _ _ _ =>
      register_enlarges.mono fun _ _ => trivial)
    fun a t _ v run _ mirrors' quietly => ?_
  refine (claimData_repeats mirrors' (hmax a t run)).bind
    (fun _ _ _ => register_enlarges.mono fun _ _ => trivial)
    fun found t' other v' _ related mirrors'' _ => ?_
  refine (register_repeats mirrors'').mono fun ticket ticket' hdata => ?_
  rw [hdata.1, hdata.2, related, quietly.generation]

end Pool

/-! ### The workload -/

section Work

variable {s u : PoolState} {regions : List Region} {task : Task} {tasks : List Task}

/-- What the second run comes back with: the same answer, and the same regions in a later
generation. -/
private def renewedResult (generation : Nat) (result : Answer × List Region) :
    Answer × List Region :=
  (result.1, result.2.map (Region.renewed generation))

private theorem Task.receive_repeats {action : PoolM Region}
    (h : Repeats action action (fun region other => other = region.renewed u.pool.generation) s u) :
    Repeats (receive regions action)
      (receive (regions.map (Region.renewed u.pool.generation)) action)
      (fun result other => other = renewedResult u.pool.generation result) s u := by
  refine h.bind (fun _ _ _ => .pure trivial) fun region t _ v _ related mirrors _ =>
    .pure mirrors ?_
  rw [related, renewedResult, List.map_append]
  rfl

/-- **A small task** is repeated: it comes back with the same answer. -/
theorem Task.perform_repeats (mirrors : s.pool.Mirrors u.pool) (small : task.Small s.pool.max)
    (inBlocks : InBlocks regions) :
    Repeats (task.perform regions)
      (task.perform (regions.map (Region.renewed u.pool.generation)))
      (fun result other => other = renewedResult u.pool.generation result) s u := by
  cases task with
  | alloc size => exact receive_repeats (Pool.allocWith_repeats mirrors small)
  | allocUnaligned size => exact receive_repeats (Pool.allocWith_repeats mirrors small)
  | allocZeroed size => exact receive_repeats (Pool.allocZeroed_repeats mirrors small)
  | addCleanup dataSize =>
    refine (Pool.addCleanup_repeats mirrors small).bind (fun _ _ _ => .pure trivial)
      fun ticket t other v _ related mirrors' _ => .pure mirrors' ?_
    rw [related, renewedResult, List.map_append, Option.map_map]
    cases ticket.data <;> rfl
  | extend index additional =>
    rw [perform, perform, List.getElem?_map]
    cases hregion : regions[index]? with
    | none => exact .pure mirrors rfl
    | some region =>
      refine (Pool.extend_repeats mirrors (inBlocks region (List.mem_of_getElem? hregion))).bind
        (fun extended t _ => ?_) fun extended t other v _ related mirrors' _ => ?_
      · cases extended <;> exact .pure trivial
      · subst related
        cases extended with
        | none => exact .pure mirrors' rfl
        | some longer =>
          -- the longer region takes the place of the old one in both lists
          refine .pure mirrors' ?_
          rw [renewedResult, List.map_set]
  | reclaim index =>
    rw [perform, perform, List.getElem?_map]
    cases hregion : regions[index]? with
    | none => exact .pure mirrors rfl
    | some region =>
      refine (Pool.reclaim_repeats mirrors (inBlocks region (List.mem_of_getElem? hregion))).bind
        (fun _ _ _ => .pure trivial) fun done t other v _ related mirrors' _ => .pure mirrors' ?_
      rw [related]
      rfl
  | keepCopy index =>
    refine .pure mirrors ?_
    rw [renewedResult, List.map_append, List.getElem?_map]
    cases regions[index]? <;> rfl

/-- **So is a workload** of small tasks, by induction on the tasks: after each of them the second
run has come as far as the first one. -/
theorem work_repeats (mirrors : s.pool.Mirrors u.pool)
    (small : ∀ task ∈ tasks, task.Small s.pool.max) (inBlocks : InBlocks regions) :
    Repeats (work tasks regions) (work tasks (regions.map (Region.renewed u.pool.generation)))
      (fun result other => other =
        (result.1, result.2.map (Region.renewed u.pool.generation))) s u := by
  induction tasks generalizing s u regions with
  | nil => exact .pure mirrors rfl
  | cons task tasks ih =>
    have hfirst : task.Small s.pool.max := small task List.mem_cons_self
    -- what one task leaves fulfils the assumptions of the next
    have hrest : ∀ {result t}, task.perform regions s = .ok result t →
        (∀ task ∈ tasks, task.Small t.pool.max) ∧ InBlocks result.2 := fun run => by
      obtain ⟨grows, hregions⟩ := (Task.perform_enlarges hfirst inBlocks).ok_of run
      exact ⟨fun other hmem => grows.traits.max ▸ small other (List.mem_cons_of_mem _ hmem),
        hregions⟩
    refine (Task.perform_repeats mirrors hfirst inBlocks).bind (fun result t run => ?_)
      fun result t other v run related mirrors' quietly => ?_
    · exact (work_enlarges (hrest run).1 (hrest run).2).bind fun _ _ _ _ _ => .pure trivial
    -- the second run has the regions of the first one, in a later generation
    · subst related
      rw [← quietly.generation]
      refine (ih mirrors' (hrest run).1 (hrest run).2).bind (fun _ _ _ => .pure trivial)
        fun results _ other _ _ related mirrors'' _ => .pure mirrors'' ?_
      rw [related]

end Work

/-! ### From one reset to the next -/

/-- **A pool at rest** was just made, or just reset. -/
inductive PoolState.AtRest : PoolState → Prop
  | created {config : PoolConfig} {allocator : AllocatorId} {w w' : World} {pool : Pool}
    (h : Pool.create config allocator w = (.ok pool, w')) : AtRest ⟨pool, w'⟩
  | reset {s t : PoolState} (h : Pool.reset s = .ok () t) : AtRest t

namespace Pool

variable {s t u : PoolState}

/-- The blocks of a pool at rest are empty, and it has no large buffer. -/
theorem empty_of_atRest (atRest : s.AtRest) :
    s.pool.chain.blocks.map Block.reset = s.pool.chain.blocks ∧ s.pool.large.buffers = [] := by
  cases atRest with
  | created h =>
    obtain ⟨-, buffer, opens⟩ := create_ok h
    rw [opens.chain, opens.large]
    exact ⟨rfl, rfl⟩
  -- after a reset the blocks are empty because resetting twice is resetting once
  | @reset before _ h =>
    obtain ⟨world, -, -, hpool, -⟩ := (reset_ends []).ok_of h
    rw [hpool]
    refine ⟨?_, LargeTable.buffers_emptied _⟩
    change (before.pool.chain.blocks.map Block.reset).map Block.reset =
      before.pool.chain.blocks.map Block.reset
    rw [List.map_map]
    rfl

/-- **A reset of a pool without large buffers** does not call the raw allocator. -/
theorem reset_of_no_large (h : s.pool.large.buffers = []) :
    ∃ t, reset s = .ok () t ∧ t.pool = s.pool.rewound ∧ t.world.rawCalls = s.world.rawCalls := by
  have hends : Ends reset s (fun _ t => t.pool = s.pool.rewound ∧
      t.world.rawCalls = s.world.rawCalls) fun _ _ => False := by
    simp only [reset, ends_bind, ends_getPool, ends_setPool, ends_log]
    rw [h]
    exact ⟨rfl, World.rawCalls_log _ _⟩
  cases run : reset s with
  | ok _ t => exact ⟨t, rfl, hends.ok_of run⟩
  | error failure t => exact (hends.fail_of run).elim

/-- After a reset, the pool is where it was when the first run began, but for the blocks that were
appended. -/
theorem Grows.mirrors_rewound {pool after : Pool} (grows : pool.Grows after)
    (hempty : pool.chain.blocks.map Block.reset = pool.chain.blocks) :
    pool.Mirrors after.rewound where
  id := grows.traits.id
  max := grows.traits.max
  current := rfl
  shapes := by
    obtain ⟨more, hbounds⟩ := grows.bounds
    have hshapes : ∀ blocks : List Block, (blocks.map Block.reset).map Block.shape =
        blocks.map fun block => block.reset.shape := fun blocks => List.map_map
    refine ⟨more, (hshapes after.chain.blocks).trans ?_⟩
    rw [hbounds, ← hshapes, hempty]

/-- Blocks that look alike have as many bytes in use. -/
theorem Mirrors.used_eq {pool again : Pool} (mirrors : pool.Mirrors again)
    (hcount : again.blockCount = pool.blockCount) :
    again.chain.stats.map BlockStats.used = pool.chain.stats.map BlockStats.used := by
  obtain ⟨spare, hshapes⟩ := mirrors.shapes
  have hlength := congrArg List.length hshapes
  rw [List.length_append, List.length_map, List.length_map, List.length_replicate] at hlength
  -- with as many blocks on either side there is none to spare
  obtain rfl : spare = 0 := by
    rw [blockCount, blockCount] at hcount
    omega
  have hused : ∀ chain : Chain, chain.stats.map BlockStats.used =
      (chain.blocks.map Block.shape).map fun shape => shape.cursor - shape.start := fun chain => by
    rw [Chain.stats, List.map_map, List.map_map]
    rfl
  rw [hused, hused, hshapes, List.replicate_zero, List.append_nil]

end Pool

/-- **A workload recurs** after a reset: the reset and the second run succeed and do not call the
raw allocator, each task comes back with the same answer, the regions are the same ones in the new
generation, and as many bytes of each block are in use in the end. -/
def Recurs (tasks : List Task) (answers : List Answer) (regions : List Region) (s : PoolState) :
    Prop :=
  ∃ u, Pool.reset s = .ok () u ∧ u.world.rawCalls = s.world.rawCalls ∧
    ∃ v, work tasks [] u = .ok (answers, regions.map (Region.renewed u.pool.generation)) v ∧
      v.world.rawCalls = u.world.rawCalls ∧
      v.pool.chain.stats.map BlockStats.used = s.pool.chain.stats.map BlockStats.used

/-- **A workload of small tasks recurs** after a reset, if a pool at rest was given it and searches
still start at the first block in the end. -/
theorem work_recurs {s t : PoolState} {tasks : List Task} {answers : List Answer}
    {regions : List Region} (atRest : s.AtRest) (small : ∀ task ∈ tasks, task.Small s.pool.max)
    (run : work tasks [] s = .ok (answers, regions) t) (current : t.pool.chain.current = 0) :
    Recurs tasks answers regions t := by
  obtain ⟨hempty, hlarge⟩ := Pool.empty_of_atRest atRest
  have grows := ((work_enlarges small inBlocks_nil).ok_of run).1
  obtain ⟨u, hreset, hpool, hcalls⟩ := Pool.reset_of_no_large (grows.large ▸ hlarge)
  have mirrors : s.pool.Mirrors u.pool := hpool ▸ grows.mirrors_rewound hempty
  have hcount : u.pool.blockCount = t.pool.blockCount := by
    rw [hpool]
    exact Chain.length_blocks_reset _
  -- the second run needs no more blocks than the first one left
  obtain ⟨_, v, hagain, rfl, mirrors', quietly⟩ :=
    work_repeats mirrors small inBlocks_nil _ t run current (Nat.le_of_eq hcount.symm)
  exact ⟨u, hreset, hcalls, v, hagain, quietly.calls,
    mirrors'.used_eq (quietly.blockCount.trans hcount)⟩

/-- How an action ends can be evaluated. -/
instance decidableEnds {α : Type} (action : PoolM α) (s : PoolState) (ok : α → PoolState → Prop)
    (fail : Failure → PoolState → Prop) [∀ a t, Decidable (ok a t)]
    [∀ failure t, Decidable (fail failure t)] : Decidable (Ends action s ok fail) := by
  unfold Ends
  split <;> infer_instance

/-- A block is appended for a request without alignment, regions are lengthened and given back, and
a record gets bytes. Not every attempt succeeds. -/
def steadyTasks : List Task :=
  [.alloc 8, .keepCopy 0, .extend 0 8, .allocUnaligned 17, .allocZeroed 24, .reclaim 3,
    .allocUnaligned 5, .addCleanup 10, .reclaim 5, .reclaim 1, .extend 4 3, .alloc 32, .extend 0 1]

/-- A new pool is given the tasks. Two blocks are enough, and no request fails in the first one
often enough for searches to leave it behind. -/
theorem work_recurs_steadyTasks :
    ∃ pool w answers regions t,
      Pool.create { size := 112 } ⟨0⟩ { heap := { place := fun _ _ _ => some 4096 } } =
        (.ok pool, w) ∧
      (∀ task ∈ steadyTasks, task.Small pool.max) ∧
      work steadyTasks [] ⟨pool, w⟩ = .ok (answers, regions) t ∧
      t.pool.chain.current = 0 ∧ t.pool.blockCount = 2 ∧
      Recurs steadyTasks answers regions t := by
  let made := Pool.create { size := 112 } ⟨0⟩ { heap := { place := fun _ _ _ => some 4096 } }
  have hcheck : ∃ pool ∈ made.1.toOption, (∀ task ∈ steadyTasks, task.Small pool.max) ∧
      Ends (work steadyTasks []) ⟨pool, made.2⟩
        (fun _ t => t.pool.chain.current = 0 ∧ t.pool.blockCount = 2) fun _ _ => False := by
    decide +kernel
  obtain ⟨pool, hpool, small, hends⟩ := hcheck
  -- creating a pool succeeds, since `hcheck` found one
  have hmade : made = (.ok pool, made.2) := by
    cases hresult : made.1 with
    | ok other =>
      rw [hresult] at hpool
      obtain rfl := Option.some.inj hpool
      exact Prod.ext hresult rfl
    | error error =>
      rw [hresult] at hpool
      cases hpool
  cases run : work steadyTasks [] ⟨pool, made.2⟩ with
  | error failure t => exact (hends.fail_of run).elim
  | ok result t =>
    obtain ⟨current, hcount⟩ := hends.ok_of run
    exact ⟨pool, made.2, result.1, result.2, t, hmade, small, run, current, hcount,
      work_recurs (.created hmade) small run current⟩

end RegionPool
