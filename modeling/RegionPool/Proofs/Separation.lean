import RegionPool.Proofs.Rounds

/-!
# Regions in use do not disturb each other

Whatever a caller does to a pool, in whatever order, and whichever requests the raw allocator
refuses: the regions in use share no byte, those in blocks lie between the start of the data and the
cursor, and each of them reads what was last written to it. This takes a caller that does not touch
what it gave back, and a pool that can date the handles that are touched: once its generation has
come round, a handle from before passes for a present one, and what is written through it lands in
somebody else's region (`Tenancy.not_undisturbed_of_kept`).

* `Pool.Separate` — in different buffers, or in disjoint intervals of one block;
* `Pool.separate_of_apart` — regions that are apart are separate, since no buffer is held twice;
* `Tenancy.run_undisturbed` — the regions in use after any deeds, and
  `Tenancy.undisturbed_of_few_resets` — after fewer than `2 ^ 32` resets.
-/

namespace RegionPool

namespace Pool

/-- **Two regions are separate**: they lie in different buffers, or in disjoint intervals of the
same block. -/
def Separate (pool : Pool) (a b : Region) : Prop :=
  (∃ buffer buffer', pool.bufferAt? a.place = some buffer ∧ pool.bufferAt? b.place = some buffer' ∧
    buffer.id ≠ buffer'.id) ∨
  ∃ index start start', a.place = .block index start ∧ b.place = .block index start' ∧
    (start + a.length ≤ start' ∨ start' + b.length ≤ start)

variable {pool : Pool}

/-- Different blocks have different buffers, and so do a block and a large region. -/
private theorem id_ne_of_nodup (hnodup : (pool.buffers.map Buffer.id).Nodup) :
    (∀ (i j : Nat) (block block' : Block), pool.chain.blocks[i]? = some block →
      pool.chain.blocks[j]? = some block' → block.buffer.id = block'.buffer.id → i = j) ∧
      ∀ buffer ∈ pool.large.buffers, ∀ block ∈ pool.chain.blocks, buffer.id ≠ block.buffer.id := by
  rw [buffers, List.map_append, List.map_map] at hnodup
  obtain ⟨-, hblocks, hacross⟩ := List.nodup_append.mp hnodup
  constructor
  -- an index is determined by the identifier, for no identifier is there twice
  · intro i j block block' hi hj heq
    have hlt : i < (pool.chain.blocks.map (Buffer.id ∘ Block.buffer)).length := by
      rw [List.length_map]
      exact (List.getElem?_eq_some_iff.mp hi).1
    refine (List.getElem?_inj hlt hblocks).mp ?_
    rw [List.getElem?_map, List.getElem?_map, hi, hj]
    exact congrArg some heq
  · intro buffer hbuffer block hblock
    exact hacross _ (List.mem_map_of_mem hbuffer) _ (List.mem_map_of_mem hblock)

/-- **Regions that are apart are separate** if both are leased and no buffer is held twice. -/
theorem separate_of_apart {a b : Lease} (hnodup : (pool.buffers.map Buffer.id).Nodup)
    (ha : pool.Keeps a) (hb : pool.Keeps b) (hapart : a.region.Apart b.region)
    (hlength : a.region.length ≠ 0) (hlength' : b.region.length ≠ 0) :
    pool.Separate a.region b.region := by
  obtain ⟨hindex, hacross⟩ := id_ne_of_nodup hnodup
  obtain ⟨buffer, hbuffer, -⟩ := content?_eq_some_iff.mp ha.content
  obtain ⟨buffer', hbuffer', -⟩ := content?_eq_some_iff.mp hb.content
  have hdifferent (hne : buffer.id ≠ buffer'.id) : pool.Separate a.region b.region :=
    .inl ⟨buffer, buffer', hbuffer, hbuffer', hne⟩
  cases hplace : a.region.place with
  | block i start =>
    rw [hplace, bufferAt?_block] at hbuffer
    obtain ⟨block, hblock, rfl⟩ := Option.map_eq_some_iff.mp hbuffer
    cases hplace' : b.region.place with
    | block j start' =>
      rw [hplace', bufferAt?_block] at hbuffer'
      obtain ⟨block', hblock', rfl⟩ := Option.map_eq_some_iff.mp hbuffer'
      -- in one block the offsets decide, in two blocks the buffers do
      by_cases heq : i = j
      · subst heq
        have hdisjoint := hapart.block i start start' hplace hplace'
        exact .inr ⟨i, start, start', hplace, hplace', by omega⟩
      · exact hdifferent fun hid => heq (hindex i j block block' hblock hblock' hid)
    | large id =>
      rw [hplace', bufferAt?_large] at hbuffer'
      obtain ⟨hmem, -⟩ := LargeTable.mem_of_find? hbuffer'
      exact hdifferent (hacross buffer' hmem block (List.mem_of_getElem? hblock)).symm
  | large id =>
    rw [hplace, bufferAt?_large] at hbuffer
    obtain ⟨hmem, hid⟩ := LargeTable.mem_of_find? hbuffer
    cases hplace' : b.region.place with
    | block j start' =>
      rw [hplace', bufferAt?_block] at hbuffer'
      obtain ⟨block', hblock', rfl⟩ := Option.map_eq_some_iff.mp hbuffer'
      exact hdifferent (hacross buffer hmem block' (List.mem_of_getElem? hblock'))
    | large id' =>
      rw [hplace', bufferAt?_large] at hbuffer'
      obtain ⟨-, hid'⟩ := LargeTable.mem_of_find? hbuffer'
      -- regions that are apart have different numbers, and a large buffer is found under its own
      refine hdifferent fun heq => hapart.large id hplace ?_
      rw [hplace', ← hid', ← heq, hid]

end Pool

namespace Tenancy

/-- **The regions in use are undisturbed**: any two of them that are not empty are separate, one in
a block lies between the start of its data and its cursor, and each reads what was last written to
it. -/
structure Undisturbed (t : Tenancy) : Prop where
  separate : ∀ (i j : Nat) (a b : Region) (bytes bytes' : Bytes), i ≠ j →
    t.handles[i]? = some ⟨a, .live bytes⟩ → t.handles[j]? = some ⟨b, .live bytes'⟩ →
    a.length ≠ 0 → b.length ≠ 0 → t.state.pool.Separate a b
  inside : ∀ region bytes index offset, Handle.mk region (.live bytes) ∈ t.handles →
    region.length ≠ 0 → region.place = .block index offset →
    ∃ block, t.state.pool.chain.blocks[index]? = some block ∧
      block.start ≤ offset ∧ offset + region.length ≤ block.cursor
  reads : ∀ region bytes, Handle.mk region (.live bytes) ∈ t.handles →
    t.state.pool.bytes region = .ok bytes

variable {t : Tenancy} {others : List Lease}

/-- The lease of a region in use is kept. -/
theorem Sound.keeps {region : Region} {bytes : Bytes} (sound : t.Sound others)
    (hmem : Handle.mk region (.live bytes) ∈ t.handles) : t.state.pool.Keeps ⟨region, bytes⟩ :=
  sound.honours.pool.keeps _ (List.mem_append_left _
    (List.mem_flatMap.mpr ⟨_, hmem, List.mem_singleton_self _⟩))

theorem Sound.undisturbed (sound : t.Sound others) : t.Undisturbed where
  separate i j a b bytes bytes' hne ha hb hlength hlength' := by
    have honours := sound.honours_live ha
    -- the other region is leased at another place of the list
    have hother : (⟨b, bytes'⟩ : Lease) ∈ t.leasesBut i ++ others :=
      List.mem_append_left _ (List.mem_flatMap.mpr
        ⟨_, List.mem_eraseIdx_iff_getElem?.mpr ⟨j, hne.symm, hb⟩, List.mem_singleton_self _⟩)
    exact Pool.separate_of_apart sound.ordered.nodup honours.pool.head
      (sound.keeps (List.mem_of_getElem? hb)) (honours.pool.apart_head _ hother) hlength hlength'
  inside region bytes index offset hmem hlength hplace :=
    (sound.keeps hmem).inside index offset hplace hlength
  reads region bytes hmem := (sound.keeps hmem).reads

/-- The tenancy of a new pool is sound. -/
theorem sound_of_opens {pool : Pool} {w w' : World} {buffer : Buffer}
    (opens : pool.Opens w buffer w') : ({ state := ⟨pool, w'⟩ } : Tenancy).Sound [] where
  ordered := opens.ordered
  honours := by
    refine ⟨⟨opens.sound, fun _ hmem => (List.not_mem_nil hmem).elim, List.Pairwise.nil⟩, ?_⟩
    intro held hmem
    rw [opens.large] at hmem
    exact (List.not_mem_nil hmem).elim
  settled _ hmem := (List.not_mem_nil hmem).elim

/-- **Regions in use never disturb each other**, if the caller keeps to the handles that it has, and
the pool can date those that are touched. -/
theorem run_undisturbed {config : PoolConfig} {allocator : AllocatorId} {w w' : World} {pool : Pool}
    {deeds : List Deed} (created : Pool.create config allocator w = (.ok pool, w'))
    (kept : TouchesAll Handle.Kept { state := ⟨pool, w'⟩ } deeds)
    (dated : TouchesAll Handle.Dated { state := ⟨pool, w'⟩ } deeds) :
    (Tenancy.run { state := ⟨pool, w'⟩ } deeds).Undisturbed := by
  obtain ⟨-, buffer, opens⟩ := Pool.create_ok created
  exact ((sound_of_opens opens).run (allowsAll_iff.mpr ⟨kept, dated⟩)).undisturbed

/-- A heap that refuses its fourth request, and an allocator that passes six on. -/
def tightWorld : World where
  heap := { place := fun request _ _ => if request = 3 then none else some (4096 * request) }
  allocators := [.failing 6 {}]

/-- Small and large regions, one lengthened and copied from, one given back, a growth that is
refused, and a reset after which an old region is written to. -/
def mixedDeeds : List Deed :=
  [.alloc 8, .allocUnaligned 5, .write 1 0 [1, 2, 3], .extend 1 4, .alloc 40, .copy 1 2 3,
    .allocZeroed 9, .alloc 64, .reclaim 3, .free 2, .addCleanup 3, .reset, .write 0 0 [1],
    .alloc 16, .alloc 40]

theorem run_undisturbed_mixedDeeds : ∃ pool w',
    Pool.create { size := 112 } ⟨0⟩ tightWorld = (.ok pool, w') ∧
      TouchesAll Handle.Kept { state := ⟨pool, w'⟩ } mixedDeeds ∧
      TouchesAll Handle.Dated { state := ⟨pool, w'⟩ } mixedDeeds ∧
      (Tenancy.run { state := ⟨pool, w'⟩ } mixedDeeds).Undisturbed := by
  refine ⟨_, _, rfl, ?_, ?_,
    @run_undisturbed { size := 112 } ⟨0⟩ tightWorld _ _ mixedDeeds rfl ?_ ?_⟩
  · decide +kernel
  · decide +kernel
  · decide +kernel
  · decide +kernel

/-- **With fewer than `2 ^ 32` resets** it is enough that the caller keeps to its handles. -/
theorem undisturbed_of_few_resets {config : PoolConfig} {allocator : AllocatorId} {w w' : World}
    {pool : Pool} {deeds : List Deed} (created : Pool.create config allocator w = (.ok pool, w'))
    (kept : TouchesAll Handle.Kept { state := ⟨pool, w'⟩ } deeds)
    (few : deeds.count .reset < 2 ^ (32 : Nat)) :
    (Tenancy.run { state := ⟨pool, w'⟩ } deeds).Undisturbed := by
  obtain ⟨-, buffer, opens⟩ := Pool.create_ok created
  have aged : Tenancy.Aged { state := ⟨pool, w'⟩ } 0 := fun _ hmem => (List.not_mem_nil hmem).elim
  have dated := touchesAll_dated aged ((Nat.zero_add _).trans_lt few)
  exact ((sound_of_opens opens).run (allowsAll_iff.mpr ⟨kept, dated⟩)).undisturbed

/-! ### When the generation comes round -/

/-- A pool with one block, in which there are 32 bytes to hand out from the offset 80 on. -/
private def pocket (cursor : Nat) (memory : Memory) : Pool where
  id := ⟨1⟩
  generation := 0
  chain.blocks :=
    [{ buffer := { id := ⟨1⟩, base := 0, align := 16, memory }
       start := 80
       cursor
       failed := 0 }]
  blockSize := 112
  max := 32
  allocator := ⟨0⟩
  name := none

/-- The first eight of them. -/
private def firstWord : Region where
  pool := ⟨1⟩
  generation := 0
  length := 8
  place := .block 0 80

/-- What a caller has who was given them before a whole round of resets. -/
private def returning (w : World) : Tenancy where
  state := ⟨pocket 80 (.zeroed 112), w⟩
  handles := [⟨firstWord, .stale (2 ^ (32 : Nat))⟩]

/-- Eight bytes are handed out, the generation of the pool comes round, they are handed out once
more, and one of them is written to through either handle. -/
def roundDeeds : List Deed :=
  [.alloc 8] ++ List.replicate (2 ^ (32 : Nat)) .reset ++
    [.alloc 8, .write 1 0 [2], .write 0 0 [1]]

/-- Sixteen bytes are filled and given back. Half of them are handed out and filled anew, and then
lengthened by the other half. -/
def lengthenedDeeds : List Deed :=
  [.alloc 16, .write 0 0 (List.replicate 16 9), .reclaim 0, .alloc 8,
    .write 1 0 (List.replicate 8 1), .extend 1 8]

/-- After the round the pool is as it was made. -/
private theorem run_round {w : World}
    (sound : Sound { state := ⟨pocket 80 (.zeroed 112), w⟩ } []) :
    ∃ w', Tenancy.run { state := ⟨pocket 80 (.zeroed 112), w⟩ }
        ([.alloc 8] ++ List.replicate (2 ^ (32 : Nat)) .reset) = returning w' := by
  have halloc : Tenancy.run { state := ⟨pocket 80 (.zeroed 112), w⟩ } [.alloc 8] =
      { state := ⟨pocket 88 (.zeroed 112), w⟩
        handles := [⟨firstWord, .live (List.replicate 8 0)⟩] } := rfl
  have hsound : (Tenancy.run { state := ⟨pocket 80 (.zeroed 112), w⟩ } [.alloc 8]).Sound [] :=
    sound.run ⟨trivial, trivial⟩
  -- no reset of a sound tenancy fails, so all of them are carried out
  obtain ⟨w', hresets⟩ := run_replicate_reset hsound (2 ^ (32 : Nat))
  have hround : 2 ^ (32 : Nat) = 2 ^ (32 : Nat) - 1 + 1 := by omega
  have hstale : Handle.outdated^[2 ^ (32 : Nat)] ⟨firstWord, .live (List.replicate 8 0)⟩ =
      ⟨firstWord, .stale (2 ^ (32 : Nat))⟩ := by
    rw [hround, Handle.iterate_outdated]
  refine ⟨w', ?_⟩
  -- the generation comes round to zero, while the handle counts on
  rw [run_append, hresets, halloc, Pool.iterate_rewound_round _ (Nat.two_pow_pos 32), List.map_cons,
    hstale]
  rfl

/-- Then the bytes are handed out again, and what is written to them through the new handle is
overwritten through the old one. -/
private theorem run_returning (w : World) :
    (returning w).run [.alloc 8, .write 1 0 [2], .write 0 0 [1]] =
      { state := ⟨pocket 88 (((Memory.zeroed 112).overwrite 80 [2]).overwrite 80 [1]), w⟩
        handles := [⟨firstWord, .stale (2 ^ (32 : Nat))⟩,
          ⟨firstWord, .live (2 :: List.replicate 7 0)⟩] } := by
  have halloc : (returning w).step (.alloc 8) =
      { state := ⟨pocket 88 (.zeroed 112), w⟩
        handles := [⟨firstWord, .stale (2 ^ (32 : Nat))⟩,
          ⟨firstWord, .live (List.replicate 8 0)⟩] } := rfl
  rw [run, halloc]
  rfl

private theorem touchesAll_returning (w : World) :
    (returning w).TouchesAll Handle.Kept [.alloc 8, .write 1 0 [2], .write 0 0 [1]] := by
  refine ⟨nofun, ?_, ?_, trivial⟩
  all_goals
    intro index hindex handle hhandle
    obtain rfl := Option.some.inj hindex
    obtain rfl := Option.some.inj hhandle
    nofun

/-- **Kept handles are not enough** once the generation has come round: the first handle passes for
a present one, and what is written through it is read through the second. And what was last written
through a handle is not all that is read through it, if it was lengthened since. -/
theorem not_undisturbed_of_kept :
    (¬ ∀ (config : PoolConfig) (allocator : AllocatorId) (w w' : World) (pool : Pool)
      (deeds : List Deed), Pool.create config allocator w = (.ok pool, w') →
        TouchesAll Handle.Kept { state := ⟨pool, w'⟩ } deeds →
          (Tenancy.run { state := ⟨pool, w'⟩ } deeds).Undisturbed) ∧
    ∃ pool w', Pool.create { size := 112 } ⟨0⟩ tightWorld = (.ok pool, w') ∧
      TouchesAll Handle.Kept { state := ⟨pool, w'⟩ } lengthenedDeeds ∧
      lengthenedDeeds.filter (·.touched? = some 1) =
        [.write 1 0 (List.replicate 8 1), .extend 1 8] ∧
      ∃ handle, (Tenancy.run { state := ⟨pool, w'⟩ } lengthenedDeeds).handles[1]? = some handle ∧
        (Tenancy.run { state := ⟨pool, w'⟩ } lengthenedDeeds).state.pool.bytes handle.region =
          .ok (List.replicate 8 1 ++ List.replicate 8 9) := by
  constructor
  · intro undisturbed
    have hcreated : ∃ w', Pool.create { size := 112 } ⟨0⟩ tightWorld =
        (.ok (pocket 80 (.zeroed 112)), w') := ⟨_, rfl⟩
    obtain ⟨w', created⟩ := hcreated
    obtain ⟨-, buffer, opens⟩ := Pool.create_ok created
    obtain ⟨w'', hround⟩ := run_round (sound_of_opens opens)
    have kept : TouchesAll Handle.Kept { state := ⟨pocket 80 (.zeroed 112), w'⟩ } roundDeeds := by
      refine touchesAll_append.mpr ⟨touchesAll_append.mpr ⟨⟨nofun, trivial⟩,
        touchesAll_replicate_reset _⟩, ?_⟩
      rw [hround]
      exact touchesAll_returning w''
    have hreads := (undisturbed _ _ _ _ _ _ created kept).reads
    rw [roundDeeds, run_append, hround, run_returning] at hreads
    -- by its own account the second handle was last written to with a two
    have hread := hreads firstWord _ (List.mem_cons_of_mem _ (List.mem_singleton_self _))
    have hbytes : (pocket 88 (((Memory.zeroed 112).overwrite 80 [2]).overwrite 80 [1])).bytes
        firstWord ≠ .ok (2 :: List.replicate 7 0) := by decide +kernel
    exact hbytes hread
  · refine ⟨_, _, rfl, ?_, rfl, ?_⟩
    · decide +kernel
    · refine ⟨⟨{ firstWord with length := 16 }, .live (List.replicate 8 1 ++ List.replicate 8 9)⟩,
        ?_, ?_⟩
      · decide +kernel
      · decide +kernel

end Tenancy

end RegionPool
