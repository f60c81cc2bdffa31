import RegionPool.Proofs.Containers
import RegionPool.Proofs.Endurance
import RegionPool.Proofs.Handing

/-!
# Regions in use

The regions of blocks that a pool has handed out and that were not given back are in use. They are
leased (`PoolState.Seats`), whatever may be written to them and through which region, so no two of
them share a byte and all of them end at or before the cursors of their blocks.

Only two operations depend on how a region is used: one that is lengthened or given back must be in
use (`Pool.InUse`), in its present length or in one that it had before. Nobody need know which of
the two it is, for the cursor tells: `reclaim_seats` and `extend_seats` hold of both.

Some leases may be kept beside them, with the bytes their holders expect. They are left alone by
everything but writes to regions that are not clear of them (`Region.ClearOf`).

* `Seats.fresh`, `Seats.overwrite`, `Seats.setCleanups`, `Seats.nobody` — what happens to a pool;
* `Seats.entrust`, `Seats.resume` — a region in use is kept from now on, or no longer;
* `allocWith_seats`, `extend_seats`, `reclaim_seats` and their like — what operations do;
* `Seats.on_top` — what is given back was on top of its block.
-/

namespace RegionPool

open PoolM

/-! ### Regions that take up bytes -/

/-- **Whether a region takes up bytes of a block.** -/
def Region.occupies (region : Region) : Bool := !region.isLarge && region.length != 0

theorem Region.occupies_iff {region : Region} :
    region.occupies = true ↔ region.isLarge = false ∧ region.length ≠ 0 := by
  simp [occupies]

/-- **A region is clear of another**: they share no byte if they are of one pool and generation. -/
def Region.ClearOf (a b : Region) : Prop :=
  a.pool = b.pool → a.generation = b.generation → a.Apart b

/-- **The regions in use after some were given back.** -/
def inUseWithout (used returned : List Region) : List Region :=
  used.filter fun region => returned.all fun other => other.place ≠ region.place

/-- **The regions in use after others were handed out.** One that was lengthened takes the place of
the shorter one. -/
def inUseAfter (used issued : List Region) : List Region :=
  let fresh := issued.filter Region.occupies
  fresh ++ inUseWithout used fresh

theorem inUseWithout_sublist {used returned : List Region} :
    (inUseWithout used returned).Sublist used :=
  List.filter_sublist

@[simp] theorem inUseWithout_nil {used : List Region} : inUseWithout used [] = used :=
  List.filter_eq_self.mpr fun _ _ => rfl

@[simp] theorem inUseAfter_nil {used : List Region} : inUseAfter used [] = used :=
  inUseWithout_nil

/-- One region is handed out. -/
theorem inUseAfter_singleton {used : List Region} {region : Region} :
    inUseAfter used [region] =
      if region.occupies then region :: inUseWithout used [region] else used := by
  split
  · next hoccupies =>
    have hone : [region].filter Region.occupies = [region] := List.filter_cons_of_pos hoccupies
    rw [inUseAfter, hone]
    rfl
  -- a region without bytes is in nobody's way
  · next hoccupies =>
    have hnone : [region].filter Region.occupies = [] := List.filter_cons_of_neg hoccupies
    rw [inUseAfter, hnone]
    exact inUseWithout_nil

theorem inUseAfter_sublist {used issued : List Region} :
    (inUseAfter used issued).Sublist (issued.filter Region.occupies ++ used) :=
  List.Sublist.append_left inUseWithout_sublist _

/-- A region that is in use stands beside those in other places. -/
theorem cons_inUseWithout_subperm {used : List Region} {region : Region} (hmem : region ∈ used) :
    (region :: inUseWithout used [region]).Subperm used := by
  obtain ⟨before, after, rfl⟩ := List.append_of_mem hmem
  -- the first one of its kind stays, and the filter takes away what is equal to it
  have hself : inUseWithout (region :: after) [region] = inUseWithout after [region] :=
    List.filter_cons_of_neg (by simp)
  have hboth : inUseWithout (before ++ region :: after) [region] =
      inUseWithout before [region] ++ inUseWithout after [region] := by
    rw [← hself]
    exact List.filter_append ..
  rw [hboth]
  exact ⟨_, List.perm_middle,
    inUseWithout_sublist.append (inUseWithout_sublist.cons_cons region)⟩

/-- **A region is in use**, as it is or longer. Nothing is asked of regions that take up no bytes of
the blocks of this pool. -/
def Pool.InUse (pool : Pool) (used : List Region) (region : Region) : Prop :=
  region.pool = pool.id → region.generation = pool.generation → region.occupies = true →
    ∃ other ∈ used, other.place = region.place ∧ region.length ≤ other.length

instance (pool : Pool) (used : List Region) : DecidablePred (pool.InUse used) := fun region =>
  inferInstanceAs (Decidable (region.pool = pool.id → region.generation = pool.generation →
    region.occupies = true → ∃ other ∈ used, other.place = region.place ∧
      region.length ≤ other.length))

/-- **Regions in use are leased**, beside leases that are kept. -/
structure PoolState.Seats (s : PoolState) (kept : List Lease) (used : List Region) : Prop where
  honours : s.Honours (used.map s.pool.leaseOf ++ kept)
  occupies : ∀ region ∈ used, region.occupies = true
  inBlocks : ∀ lease ∈ kept, lease.region.isLarge = false

namespace PoolState.Seats

variable {s t : PoolState} {kept leases : List Lease} {used used' : List Region} {region : Region}

/-- The regions of leases that are read off a pool. -/
private theorem map_region_leaseOf (pool : Pool) (used : List Region) :
    (used.map pool.leaseOf).map Lease.region = used := by
  rw [List.map_map]
  exact List.map_id' _

/-- What is expected in the regions does not matter. -/
theorem of_honours (h : t.Honours (leases ++ kept)) (hregions : leases.map Lease.region = used)
    (occupies : ∀ region ∈ used, region.occupies = true)
    (inBlocks : ∀ lease ∈ kept, lease.region.isLarge = false) : t.Seats kept used := by
  subst hregions
  have honours : t.Honours leases := h.sublist (List.sublist_append_left _ _)
  exact ⟨honours.pool.map_leaseOf.symm ▸ h, occupies, inBlocks⟩

/-- The regions are leased as before. -/
theorem frame (h : s.Seats kept used)
    (honours : t.Honours (used.map s.pool.leaseOf ++ kept)) : t.Seats kept used :=
  of_honours honours (map_region_leaseOf _ _) h.occupies h.inBlocks

/-- Nobody need be told of a region that is not used any more. -/
theorem subperm (h : s.Seats kept used) (hsub : used'.Subperm used) : s.Seats kept used' := by
  obtain ⟨between, hperm, hsublist⟩ := hsub
  have hleases := (hsublist.map s.pool.leaseOf).append_right kept
  exact ⟨(h.honours.sublist hleases).perm ((hperm.map _).append_right kept),
    fun region hmem => h.occupies region (hsublist.subset (hperm.mem_iff.mpr hmem)), h.inBlocks⟩

theorem sublist (h : s.Seats kept used) (hsub : used'.Sublist used) : s.Seats kept used' :=
  h.subperm hsub.subperm

theorem setWorld (h : s.Seats kept used) {world : World}
    (hnext : s.world.nextBuffer ≤ world.nextBuffer) : { s with world }.Seats kept used :=
  ⟨h.honours.setWorld hnext, h.occupies, h.inBlocks⟩

/-- The records of a pool do not concern its regions. -/
theorem setCleanups (h : s.Seats kept used) (cleanups : CleanupStack) :
    { s with pool := { s.pool with cleanups } }.Seats kept used :=
  h.frame ⟨h.honours.pool.setCleanups cleanups, h.honours.numbered⟩

/-- Large buffers do not concern the regions of blocks. -/
theorem setLarge (h : s.Seats kept used) {large : LargeTable} {world : World}
    (hnumbered : ∀ buffer ∈ large.buffers, buffer.id.number < world.nextBuffer) :
    (⟨{ s.pool with large }, world⟩ : PoolState).Seats kept used := by
  refine h.frame ⟨⟨h.honours.pool.sound, fun lease hmem => ?_, h.honours.pool.apart⟩, hnumbered⟩
  refine (h.honours.pool.keeps lease hmem).setLarge fun id hplace _ => ?_
  -- all leases are in blocks, those in use as well as those kept
  have hsmall : lease.region.isLarge = false := by
    rcases List.mem_append.mp hmem with hused | hkept
    · obtain ⟨other, hother, rfl⟩ := List.mem_map.mp hused
      exact (Region.occupies_iff.mp (h.occupies other hother)).1
    · exact h.inBlocks lease hkept
  obtain ⟨_, _, hblock⟩ := Region.isLarge_eq_false_iff.mp hsmall
  cases hplace.symm.trans hblock

/-- In a pool that is fit, nobody need use anything. -/
theorem nobody (fit : s.Fit) : s.Seats [] [] where
  honours := ⟨⟨fit.sound, fun _ hmem => (List.not_mem_nil hmem).elim, List.Pairwise.nil⟩,
    fit.numbered⟩
  occupies _ hmem := (List.not_mem_nil hmem).elim
  inBlocks _ hmem := (List.not_mem_nil hmem).elim

/-- A lease more, of a region that takes up bytes. -/
theorem cons {lease : Lease} (h : s.Seats kept used)
    (honours : t.Honours (lease :: (used.map s.pool.leaseOf ++ kept)))
    (hoccupies : lease.region.occupies = true) : t.Seats kept (lease.region :: used) := by
  have hleases : t.Honours ((lease :: used.map s.pool.leaseOf) ++ kept) := honours
  refine of_honours hleases ?_ (fun other hmem => ?_) h.inBlocks
  · exact congrArg (lease.region :: ·) (map_region_leaseOf _ _)
  · rcases List.mem_cons.mp hmem with rfl | hmem
    · exact hoccupies
    · exact h.occupies other hmem

/-- **A region is handed out** to be used. -/
theorem fresh {size : Nat} (h : s.Seats kept used)
    (hleased : t.Leases size region (used.map s.pool.leaseOf ++ kept)) :
    t.Seats kept ([region].filter Region.occupies ++ used) := by
  obtain ⟨-, bytes, honours⟩ := hleased
  cases hoccupies : region.occupies with
  | false =>
    rw [List.filter_cons_of_neg (by rw [hoccupies]; exact Bool.false_ne_true)]
    exact h.frame honours.tail
  | true =>
    rw [List.filter_cons_of_pos hoccupies]
    exact h.cons honours hoccupies

/-- **A region in use may be kept** instead, with the bytes that are there. -/
theorem entrust (h : s.Seats kept (region :: used)) :
    s.Seats (s.pool.leaseOf region :: kept) used := by
  refine ⟨h.honours.perm List.perm_middle.symm, fun other hmem => ?_, fun lease hmem => ?_⟩
  · exact h.occupies other (List.mem_cons_of_mem _ hmem)
  · rcases List.mem_cons.mp hmem with rfl | hmem
    · exact (Region.occupies_iff.mp (h.occupies region List.mem_cons_self)).1
    · exact h.inBlocks lease hmem

/-- A region that is kept may be in use again. -/
theorem resume {bytes : Bytes} (h : s.Seats (⟨region, bytes⟩ :: kept) used)
    (hoccupies : region.occupies = true) : s.Seats kept (region :: used) := by
  have honours : s.Honours (⟨region, bytes⟩ :: (used.map s.pool.leaseOf ++ kept)) :=
    h.honours.perm List.perm_middle
  have hrest : s.Seats kept used :=
    ⟨honours.tail, h.occupies, fun lease hmem => h.inBlocks lease (List.mem_cons_of_mem _ hmem)⟩
  exact hrest.cons honours hoccupies

/-- A region that takes up no bytes of blocks shares none with what is kept. -/
theorem apart_of_not_occupies (h : s.Seats kept used)
    (hoccupies : ¬ region.occupies = true) : ∀ lease ∈ kept, region.Apart lease.region := by
  intro lease hmem
  refine ⟨fun index start start' hplace _ => .inl ?_, fun id _ hlarge => ?_⟩
  · have hsmall : region.isLarge = false := Region.isLarge_eq_false_iff.mpr ⟨_, _, hplace⟩
    by_contra hlength
    exact hoccupies (Region.occupies_iff.mpr ⟨hsmall, hlength⟩)
  · obtain ⟨_, _, hplace⟩ := Region.isLarge_eq_false_iff.mp (h.inBlocks lease hmem)
    cases hlarge.symm.trans hplace

/-- What is in use shares no byte with what is kept. -/
theorem apart_kept (h : s.Seats kept used) (hmem : region ∈ used) :
    ∀ lease ∈ kept, region.Apart lease.region :=
  (List.pairwise_append.mp h.honours.pool.apart).2.2 _ (List.mem_map_of_mem hmem)

/-- A region that the pool knows is not of another one. -/
theorem apart_of_clear (h : s.Seats kept used)
    (hclear : ∀ lease ∈ kept, region.ClearOf lease.region) (knows : s.pool.Knows region) :
    ∀ lease ∈ kept, region.Apart lease.region := by
  intro lease hmem
  obtain ⟨found, hresolve⟩ := knows
  obtain ⟨howner, hgeneration, -, -⟩ := Pool.resolve_eq_ok_iff.mp hresolve
  have hkeeps := h.honours.pool.keeps lease (List.mem_append_right _ hmem)
  exact hclear lease hmem (howner.trans hkeeps.owner.symm)
    (hgeneration.trans hkeeps.generation.symm)

/-- What was handed out shares no byte with what is kept. -/
theorem apart_of_fresh (h : s.Seats kept ([region].filter Region.occupies ++ used)) :
    ∀ lease ∈ kept, region.Apart lease.region := by
  by_cases hoccupies : region.occupies = true
  · rw [List.filter_cons_of_pos hoccupies] at h
    exact h.apart_kept List.mem_cons_self
  · exact h.apart_of_not_occupies hoccupies

/-- **What was handed out** is clear of what is kept. -/
theorem clear_of_fresh (h : s.Seats kept ([region].filter Region.occupies ++ used)) :
    ∀ lease ∈ kept, region.ClearOf lease.region :=
  fun lease hmem _ _ => h.apart_of_fresh lease hmem

theorem clear_of_inUseAfter (h : s.Seats kept (inUseAfter used [region])) :
    ∀ lease ∈ kept, region.ClearOf lease.region := by
  intro lease hmem _ _
  by_cases hoccupies : region.occupies = true
  · rw [inUseAfter_singleton, if_pos hoccupies] at h
    exact h.apart_kept List.mem_cons_self lease hmem
  · exact h.apart_of_not_occupies hoccupies lease hmem

/-- **What is in use**, as it is or longer, is clear of what is kept. -/
theorem clear_of_inUse (h : s.Seats kept used) (inUse : s.pool.InUse used region) :
    ∀ lease ∈ kept, region.ClearOf lease.region := by
  intro lease hmem howner hgeneration
  by_cases hoccupies : region.occupies = true
  · have hkeeps := h.honours.pool.keeps lease (List.mem_append_right _ hmem)
    obtain ⟨other, hother, hplace, hlength⟩ := inUse (howner.trans hkeeps.owner)
      (hgeneration.trans hkeeps.generation) hoccupies
    have hshorter := (h.apart_kept hother lease hmem).shorten hlength
    exact ⟨fun index start start' hstart => hshorter.block index start start'
      (hplace.trans hstart), fun id hid => hshorter.large id (hplace.trans hid)⟩
  · exact h.apart_of_not_occupies hoccupies lease hmem

/-- **A write through any region** that shares no byte with what is kept. -/
theorem overwrite {store : Store} {start : Nat} {data : Bytes} (h : s.Seats kept used)
    (hstore : s.pool.storeOf? region.place = some store)
    (hspans : s.pool.spans store region.place.offset region.length = true)
    (hfits : start + data.length ≤ region.length)
    (hapart : ∀ lease ∈ kept, region.Apart lease.region) :
    { s with pool := s.pool.overwrite store (region.place.offset + start) data }.Seats kept
      used := by
  obtain ⟨reread, hregions, honours⟩ :=
    h.honours.pool.overwrite_through hstore hspans hfits hapart
  exact of_honours (Pool.honours_setPool h.honours honours Pool.ids_large_overwrite)
    (hregions.trans (map_region_leaseOf _ _)) h.occupies h.inBlocks

/-- Where a region in use lies. -/
theorem inside (h : s.Seats kept used) (hmem : region ∈ used) :
    region.pool = s.pool.id ∧ region.generation = s.pool.generation ∧ region.length ≠ 0 ∧
      ∃ index block, region.place = .block index region.place.offset ∧
        s.pool.chain.blocks[index]? = some block ∧
        region.place.offset + region.length ≤ block.cursor := by
  have hkeeps : s.pool.Keeps (s.pool.leaseOf region) :=
    h.honours.pool.keeps _ (List.mem_append_left _ (List.mem_map_of_mem hmem))
  obtain ⟨hsmall, hlength⟩ := Region.occupies_iff.mp (h.occupies region hmem)
  refine ⟨hkeeps.owner, hkeeps.generation, hlength, ?_⟩
  obtain ⟨index, offset, hplace⟩ := Region.isLarge_eq_false_iff.mp hsmall
  -- being in use, it has bytes, so it ends at or before the cursor
  obtain ⟨block, hblock, -, hstop⟩ := hkeeps.inside index offset hplace hlength
  rw [hplace]
  exact ⟨index, block, rfl, hblock, hstop⟩

/-- **No two regions in use share a byte.** -/
theorem apart (h : s.Seats kept used) : used.Pairwise Region.Apart := by
  have hleases := (List.pairwise_append.mp h.honours.pool.apart).1
  rw [List.pairwise_map] at hleases
  exact hleases

/-! ### The region on top -/

section Top

variable {index : Nat} {block : Block}

/-- **A region that ends at the cursor and is in use** is leased as it is, and what else is in use
starts elsewhere. -/
theorem front (h : s.Seats kept used) (howner : region.pool = s.pool.id)
    (hgeneration : region.generation = s.pool.generation)
    (hplace : region.place = .block index region.place.offset)
    (hblock : s.pool.chain.blocks[index]? = some block)
    (hlast : region.place.offset + region.length = block.cursor)
    (inUse : s.pool.InUse used region) :
    (region.length ≠ 0 → region ∈ used) ∧ ∃ bytes, s.Honours (⟨region, bytes⟩ ::
      ((inUseWithout used [region]).map s.pool.leaseOf ++ kept)) := by
  have hsmall : region.isLarge = false := Region.isLarge_eq_false_iff.mpr ⟨_, _, hplace⟩
  by_cases hempty : region.length = 0
  · -- an empty region at the cursor is nobody else's
    refine ⟨fun hne => (hne hempty).elim, [], ?_⟩
    have hseats : s.Seats kept (inUseWithout used [region]) := h.sublist inUseWithout_sublist
    have hrest := hseats.honours
    have hsound := h.honours.pool.sound block (List.mem_of_getElem? hblock)
    have hbuffer : s.pool.bufferAt? region.place = some block.buffer := by
      rw [hplace, Pool.bufferAt?_block, hblock, Option.map_some]
    refine ⟨hrest.pool.cons ⟨howner, hgeneration, ?_, fun _ _ _ hne => (hne hempty).elim⟩
      fun other _ => ⟨fun _ _ _ _ _ => .inl hempty, fun id hlarge => ?_⟩, hrest.numbered⟩
    · refine Pool.content?_eq_some_iff.mpr ⟨block.buffer, hbuffer, ?_, ?_⟩
      · exact hlast ▸ hsound.cursor_le_limit
      · change (block.buffer.bytes.drop region.place.offset).take region.length = []
        rw [hempty, List.take_zero]
    · cases hlarge.symm.trans hplace
  · -- a longer one would end behind the cursor, so the region is in use as it is
    obtain ⟨other, hmem, hsame, hlength⟩ := inUse howner hgeneration
      (Region.occupies_iff.mpr ⟨hsmall, hempty⟩)
    obtain ⟨howner', hgeneration', -, index', block', hplace', hblock', hstop⟩ := h.inside hmem
    rw [hsame] at hplace' hstop
    obtain ⟨rfl, -⟩ := Place.block.inj (hplace.symm.trans hplace')
    obtain rfl : block = block' := Option.some.inj (hblock.symm.trans hblock')
    have hequal : other.length = region.length := by omega
    obtain rfl : other = region := by
      obtain ⟨_, _, _, _⟩ := other
      obtain ⟨_, _, _, _⟩ := region
      cases howner.trans howner'.symm
      cases hgeneration.trans hgeneration'.symm
      cases hsame
      cases hequal
      rfl
    have hfront := (h.subperm (cons_inUseWithout_subperm hmem)).honours
    exact ⟨fun _ => hmem, s.pool.contents other, hfront⟩

/-- **What is given back was on top of its block**: it was in use as it is, and whatever else is in
use in the block ends where it starts, or before. -/
theorem on_top {after : Pool} (h : s.Seats kept used) (inUse : s.pool.InUse used region)
    (hrun : s.pool.reclaim region = .ok (true, after)) (hlength : region.length ≠ 0) :
    region ∈ used ∧ ∀ other ∈ inUseWithout used [region], ∀ index start start',
      region.place = .block index start → other.place = .block index start' →
        start' + other.length ≤ start := by
  rcases Pool.reclaim_eq_ok hrun with ⟨hfalse, -⟩ | ⟨index, block, hplace, hblock, hlast, -, -⟩
  · cases hfalse
  obtain ⟨found, hresolve⟩ := Pool.knows_of_reclaim hrun
  obtain ⟨howner, hgeneration, -, -⟩ := Pool.resolve_eq_ok_iff.mp hresolve
  obtain ⟨hmem, bytes, honours⟩ := h.front howner hgeneration hplace hblock hlast inUse
  refine ⟨hmem hlength, fun other hother index' start start' hstart hstart' => ?_⟩
  obtain ⟨-, -, hne, index'', block', hplace', hblock', hstop⟩ :=
    h.inside (inUseWithout_sublist.subset hother)
  obtain ⟨rfl, rfl⟩ := Place.block.inj (hplace.symm.trans hstart)
  obtain ⟨rfl, rfl⟩ := Place.block.inj (hplace'.symm.trans hstart')
  obtain rfl : block = block' := Option.some.inj (hblock.symm.trans hblock')
  -- both end at or before the cursor, and they share no byte
  have hapart := honours.pool.apart_head (s.pool.leaseOf other)
    (List.mem_append_left _ (List.mem_map_of_mem hother))
  have hdisjoint := hapart.block _ _ _ hplace hplace'
  change region.length = 0 ∨ other.length = 0 ∨ _ + region.length ≤ _ ∨ _ + other.length ≤ _
    at hdisjoint
  omega

end Top

end PoolState.Seats

/-! ### Operations of a pool -/

namespace Pool

variable {s : PoolState} {kept : List Lease} {used : List Region} {region : Region}
  {size additional start : Nat} {packing : Packing} {data : Bytes}

section Alloc

variable (h : s.Seats kept used)

include h

theorem allocWith_seats : Ends (allocWith packing size) s
    (fun region t => t.Seats kept ([region].filter Region.occupies ++ used))
    (fun _ t => t.Seats kept used) :=
  (allocWith_leases h.honours).mono (fun _ _ ht => h.fresh ht) fun _ _ ht => h.frame ht

theorem allocZeroed_seats : Ends (allocZeroed size) s
    (fun region t => t.Seats kept ([region].filter Region.occupies ++ used))
    (fun _ t => t.Seats kept used) :=
  (allocZeroed_leases h.honours).mono (fun _ _ ht => h.fresh ⟨ht.1, _, ht.2⟩)
    fun _ _ ht => h.frame ht

theorem allocAlignedTo_seats {align : Nat} : Ends (allocAlignedTo size align) s
    (fun region t => t.Seats kept ([region].filter Region.occupies ++ used))
    (fun _ t => t.Seats kept used) :=
  (allocAlignedTo_leases h.honours).mono (fun _ _ ht => h.fresh ht) fun _ _ ht => h.frame ht

theorem addCleanup_seats {dataSize : Nat} : Ends (addCleanup dataSize) s
    (fun ticket t => t.Seats kept (ticket.data.toList.filter Region.occupies ++ used))
    (fun _ t => t.Seats kept used) := by
  refine (addCleanup_leases h.honours).mono (fun ticket t ht => ?_) fun _ _ ht => h.frame ht
  cases hdata : ticket.data with
  | none =>
    rw [hdata] at ht
    exact h.frame ht
  | some region =>
    rw [hdata] at ht
    exact h.fresh ht

theorem setCleanup_seats {ticket : CleanupTicket} {action : CleanupAction} :
    Ends (setCleanup ticket action) s (fun _ t => t.Seats kept used)
      (fun _ t => t.Seats kept used) := by
  refine setCleanup_ends.mono (fun _ t ht => ?_) fun _ t ht => ?_
  -- attached or dropped, an action is no matter of blocks
  · obtain ⟨-, hpool, hcalm⟩ := ht
    obtain ⟨after, world⟩ := t
    obtain rfl : after = _ := hpool
    exact (h.setCleanups _).setWorld hcalm.nextBuffer
  · obtain ⟨-, hpool, hcalm⟩ := ht
    obtain ⟨after, world⟩ := t
    obtain rfl : after = _ := hpool
    exact h.setWorld hcalm.nextBuffer

/-- A record that is told of the destruction owns no bytes. -/
theorem onDestroy_seats {tag : String} : Ends (onDestroy tag) s
    (fun ticket t => t.Seats kept (ticket.data.toList.filter Region.occupies ++ used))
    (fun _ t => t.Seats kept used) := by
  simp only [onDestroy, ends_bind, ends_pure]
  refine (addCleanup_seats h).mono (fun ticket t ht => ?_) fun _ _ ht => ht
  exact (setCleanup_seats ht).mono (fun _ _ hu => hu)
    fun _ _ hu => hu.sublist (List.sublist_append_right _ _)

/-- **Giving a large buffer back** does not concern the blocks. -/
theorem free_seats : Ends (free region) s (fun _ t => t.Seats kept used)
    (fun _ t => t.Seats kept used) := by
  simp only [free, ends_bind, ends_getPool]
  split
  · exact h
  next id hplace =>
  split
  -- the region may be of this pool; if its buffer is gone already, nothing is done
  · split
    · exact h
    next buffer large htake =>
    simp only [ends_bind, ends_setPool, ends_log, ends_pure]
    -- the buffer leaves the table before it is released, so no block moves
    have hafter : ∀ world : World, s.world.nextBuffer ≤ world.nextBuffer →
        (⟨{ s.pool with large }, world⟩ : PoolState).Seats kept used := fun world hnext =>
      h.setLarge fun held hmem => by
        have hold := (LargeTable.buffers_take? htake).mem_iff.mpr (List.mem_cons_of_mem _ hmem)
        exact Nat.lt_of_lt_of_le (h.honours.numbered held hold) hnext
    rw [ends_release]
    exact ⟨fun world call => hafter world (World.Calm.release call).nextBuffer,
      fun fault world call => hafter world (World.Calm.release call).nextBuffer⟩
  · exact h

end Alloc

section Memory

variable {α : Type} {after : Pool}

/-- **Writing to any region** that is clear of what is kept. -/
theorem seats_of_write (h : s.Seats kept used)
    (hclear : ∀ lease ∈ kept, region.ClearOf lease.region)
    (hrun : s.pool.write region start data = .ok after) :
    { s with pool := after }.Seats kept used := by
  have hapart := h.apart_of_clear hclear (knows_of_write hrun)
  obtain ⟨hfits, store, hstore, hspans, rfl⟩ := write_eq_ok hrun
  exact h.overwrite hstore hspans hfits hapart

theorem seats_of_copy {source target : Region} {length : Nat} (h : s.Seats kept used)
    (hclear : ∀ lease ∈ kept, target.ClearOf lease.region)
    (hrun : s.pool.copy source target length = .ok after) :
    { s with pool := after }.Seats kept used := by
  have hapart := h.apart_of_clear hclear (knows_of_copy hrun)
  obtain ⟨hfits, store, bytes, -, hlength, hstore, hspans, rfl⟩ := copy_eq_ok hrun
  -- only the start of the target is written to
  let written : Region := { target with length }
  have hwhole : 0 + bytes.length ≤ written.length := by
    rw [Nat.zero_add]
    exact Nat.le_of_eq hlength
  have hapart' : ∀ lease ∈ kept, written.Apart lease.region := fun lease hmem =>
    (hapart lease hmem).shorten hfits
  have hstore' : s.pool.storeOf? written.place = some store := hstore
  exact h.overwrite hstore' hspans hwhole hapart'

/-- A function of the pool that leaves what is in use, if it succeeds. -/
theorem onPool_seats {f : Pool → Except Failure (α × Pool)} (h : s.Seats kept used)
    (hrun : ∀ a after, f s.pool = .ok (a, after) → { s with pool := after }.Seats kept used) :
    Ends (onPool f) s (fun _ t => t.Seats kept used) (fun _ t => t.Seats kept used) :=
  ends_onPool.mpr ⟨hrun, fun _ _ => h⟩

/-- A function that writes to the pool and comes back with nothing. -/
theorem writing_seats {f : Pool → Except Failure Pool} (h : s.Seats kept used)
    (hrun : ∀ after, f s.pool = .ok after → { s with pool := after }.Seats kept used) :
    Ends (onPool fun pool => return ((), ← f pool)) s (fun _ t => t.Seats kept used)
      (fun _ t => t.Seats kept used) := by
  refine onPool_seats h fun a after hafter => ?_
  obtain ⟨written, hwritten, hpure⟩ := bind_eq_ok_iff.mp hafter
  obtain ⟨-, rfl⟩ := Prod.mk.inj (pure_eq_ok_iff.mp hpure)
  exact hrun _ hwritten

theorem writeContent_seats {content : Content} (h : s.Seats kept used)
    (hclear : ∀ lease ∈ kept, region.ClearOf lease.region) :
    Ends (onPool fun pool => return ((), ← pool.writeContent region content)) s
      (fun _ t => t.Seats kept used) (fun _ t => t.Seats kept used) := by
  refine writing_seats h fun after hrun => ?_
  obtain ⟨bytes, -, hwrite⟩ := bind_eq_ok_iff.mp hrun
  exact seats_of_write h hclear hwrite

/-- A cursor that moves on leaves everything in use. -/
private theorem seats_of_advance {index cursor : Nat} {block : Block} {chain : Chain}
    (h : s.Seats kept used) (hblock : s.pool.chain.blocks[index]? = some block)
    (hcursor : block.cursor ≤ cursor) (hlimit : cursor ≤ block.limit)
    (hchain : chain = s.pool.chain.setBlock index { block with cursor }) :
    { s with pool := { s.pool with chain } }.Seats kept used := by
  subst hchain
  have hsound := h.honours.pool.sound block (List.mem_of_getElem? hblock)
  have hmoved : ({ block with cursor } : Block).Sound :=
    ⟨Nat.le_trans hsound.start_le_cursor hcursor, hlimit⟩
  refine h.frame ⟨⟨h.honours.pool.sound_setBlock hmoved, fun lease hmem => ?_,
    h.honours.pool.apart⟩, h.honours.numbered⟩
  -- what ended before the old cursor ends before the new one
  exact (h.honours.pool.keeps lease hmem).setCursor hblock _ fun _ _ _ hle =>
    Nat.le_trans hle hcursor

/-- **Lengthening a region in use** leaves the others in use, and the longer one may take the place
of the shorter one. -/
theorem extend_seats (h : s.Seats kept used) (inUse : s.pool.InUse used region) :
    Ends (onPool (·.extend region additional)) s
      (fun extended t => t.Seats kept used ∧
        ∀ longer ∈ extended, longer.place = region.place ∧ t.Seats kept (inUseAfter used [longer]))
      (fun _ t => t.Seats kept used) := by
  refine ends_onPool.mpr ⟨fun extended after hrun => ?_, fun _ _ => h⟩
  rcases extend_eq_ok hrun with ⟨rfl, rfl⟩ |
    ⟨index, block, hplace, hblock, hlast, hroom, rfl, rfl⟩
  · exact ⟨h, nofun⟩
  have hlimit := (h.honours.pool.sound block (List.mem_of_getElem? hblock)).cursor_le_limit
  have hadvanced := seats_of_advance h hblock (Nat.le_add_right block.cursor additional)
    (by omega) rfl
  refine ⟨hadvanced, ?_⟩
  rintro _ ⟨⟩
  refine ⟨rfl, ?_⟩
  rw [inUseAfter_singleton]
  split
  · next hoccupies =>
    obtain ⟨found, hresolve⟩ := knows_of_extend hrun
    obtain ⟨howner, hgeneration, -, -⟩ := resolve_eq_ok_iff.mp hresolve
    obtain ⟨-, bytes, honours⟩ := h.front howner hgeneration hplace hblock hlast inUse
    -- the lease of the region goes on with the bytes behind it
    obtain ⟨-, tail, -, hlonger⟩ := (ends_onPool.mp (extend_leases honours)).1 _ _ hrun
    have hrest : s.Seats kept (inUseWithout used [region]) := h.sublist inUseWithout_sublist
    exact hrest.cons hlonger hoccupies
  · exact hadvanced

/-- **Serving a workload** leaves nothing in use but what was before. -/
theorem serve_seats {sizes : List Nat} (h : s.Seats kept used) :
    Ends (serve sizes) s (fun _ t => t.Seats kept used) (fun _ t => t.Seats kept used) := by
  induction sizes generalizing s with
  | nil => exact h
  | cons size sizes ih =>
    simp only [serve, ends_bind, ends_pure]
    refine (allocWith_seats h).mono (fun region t ht => ?_) fun _ _ ht => ht
    have hrest : ∀ u : PoolState, u.Seats kept ([region].filter Region.occupies ++ used) →
        u.Seats kept used := fun u hu => hu.sublist (List.sublist_append_right _ _)
    -- the first byte is written into the region that is fresh, so it disturbs nothing
    refine (writing_seats ht fun after hrun => seats_of_write ht ht.clear_of_fresh hrun).mono
      (fun _ u hu => ?_) fun _ u hu => hrest u hu
    exact (ih (hrest u hu)).mono (fun _ _ hv => hv) fun _ _ hv => hv

end Memory

/-! ### Giving back -/

/-- The pool after a region was given back to its block, if it was claimed last. -/
def reclaimed? (pool : Pool) (region : Region) : Option Pool :=
  match pool.reclaim region with
  | .ok (true, after) => some after
  | _ => none

/-- **The regions that are given back**, if this is tried with one after the other. -/
def returned (pool : Pool) : List Region → List Region
  | [] => []
  | region :: regions =>
    match pool.reclaimed? region with
    | some after => region :: after.returned regions
    | none => pool.returned regions

/-- **Regions of which each is in use** when its turn comes to be given back. -/
def InUseInTurn (pool : Pool) (used : List Region) : List Region → Prop
  | [] => True
  | region :: regions => pool.InUse used region ∧
    match pool.reclaimed? region with
    | some after => after.InUseInTurn (inUseWithout used [region]) regions
    | none => pool.InUseInTurn used regions

/-- Whether each region is in use in its turn can be told. -/
def decidableInUseInTurn (pool : Pool) (used : List Region) :
    (regions : List Region) → Decidable (pool.InUseInTurn used regions)
  | [] => .isTrue trivial
  | region :: regions =>
    have : Decidable (match pool.reclaimed? region with
        | some after => after.InUseInTurn (inUseWithout used [region]) regions
        | none => pool.InUseInTurn used regions) :=
      match pool.reclaimed? region with
      | some after => after.decidableInUseInTurn (inUseWithout used [region]) regions
      | none => pool.decidableInUseInTurn used regions
    inferInstanceAs (Decidable (_ ∧ _))

instance (pool : Pool) (used : List Region) : DecidablePred (pool.InUseInTurn used) :=
  pool.decidableInUseInTurn used

theorem reclaimed?_eq_some_iff {pool after : Pool} :
    pool.reclaimed? region = some after ↔ pool.reclaim region = .ok (true, after) := by
  rw [reclaimed?]
  split
  · next hrun => rw [hrun, Except.ok.injEq, Prod.mk.injEq, eq_self, true_and, Option.some.injEq]
  · next hrun => exact ⟨nofun, fun h => (hrun _ h).elim⟩

theorem inUseWithout_cons {used regions : List Region} :
    inUseWithout used (region :: regions) =
      inUseWithout (inUseWithout used [region]) regions := by
  rw [inUseWithout, inUseWithout, inUseWithout, List.filter_filter]
  refine List.filter_congr fun other _ => ?_
  rw [List.all_cons, List.all_cons, List.all_nil, Bool.and_true, Bool.and_comm]

/-- **A region in use that is given back** leaves the others in use. -/
theorem seats_of_reclaimed {after : Pool} (h : s.Seats kept used)
    (inUse : s.pool.InUse used region) (hrun : s.pool.reclaimed? region = some after) :
    { s with pool := after }.Seats kept (inUseWithout used [region]) := by
  have hreclaim := reclaimed?_eq_some_iff.mp hrun
  -- what was given back ended at the cursor of its block
  rcases reclaim_eq_ok hreclaim with ⟨hfalse, -⟩ | ⟨index, block, hplace, hblock, hlast, -, -⟩
  · cases hfalse
  obtain ⟨found, hresolve⟩ := knows_of_reclaim hreclaim
  obtain ⟨howner, hgeneration, -, -⟩ := resolve_eq_ok_iff.mp hresolve
  obtain ⟨-, bytes, honours⟩ := h.front howner hgeneration hplace hblock hlast inUse
  obtain ⟨hafter, -⟩ := (ends_onPool.mp (reclaim_leases honours)).1 _ _ hreclaim
  have hrest : s.Seats kept (inUseWithout used [region]) := h.sublist inUseWithout_sublist
  exact hrest.frame hafter

/-- **One region** of several is given back, or left, and it is the turn of the others. -/
theorem exists_seats_of_inUseInTurn {regions : List Region} (h : s.Seats kept used)
    (inUse : s.pool.InUseInTurn used (region :: regions)) :
    ∃ rest, { s with pool := (s.pool.reclaimed? region).getD s.pool }.Seats kept rest ∧
      ((s.pool.reclaimed? region).getD s.pool).InUseInTurn rest regions ∧
      inUseWithout used (s.pool.returned (region :: regions)) =
        inUseWithout rest (((s.pool.reclaimed? region).getD s.pool).returned regions) := by
  obtain ⟨hregion, hregions⟩ := inUse
  rw [returned]
  cases hrun : s.pool.reclaimed? region with
  | none =>
    rw [hrun] at hregions
    exact ⟨used, h, hregions, rfl⟩
  | some after =>
    rw [hrun] at hregions
    exact ⟨_, seats_of_reclaimed h hregion hrun, hregions, inUseWithout_cons⟩

/-- **What is given back was on top of its block**, each region when its turn came. -/
theorem top_of_returned {regions : List Region} (h : s.Seats kept used)
    (inUse : s.pool.InUseInTurn used regions) :
    ∀ region ∈ s.pool.returned regions, region.length ≠ 0 → region ∈ used ∧
      ∀ other ∈ inUseWithout used (s.pool.returned regions), ∀ index start start',
        region.place = .block index start → other.place = .block index start' →
          start' + other.length ≤ start := by
  -- the first one is given back or stays; what comes later sees what is left then
  induction regions generalizing s used with
  | nil => exact fun _ hmem => (List.not_mem_nil hmem).elim
  | cons first regions ih =>
    obtain ⟨hfirst, hregions⟩ := inUse
    rw [returned]
    cases hrun : s.pool.reclaimed? first with
    | none =>
      rw [hrun] at hregions
      exact ih h hregions
    | some after =>
      rw [hrun] at hregions
      have hafter := seats_of_reclaimed h hfirst hrun
      rw [inUseWithout_cons]
      intro region hmem hlength
      -- what is in use at the end was in use when the first one went
      rcases List.mem_cons.mp hmem with rfl | hlater
      · obtain ⟨hused, htop⟩ := h.on_top hfirst (reclaimed?_eq_some_iff.mp hrun) hlength
        exact ⟨hused, fun other hother => htop other (inUseWithout_sublist.subset hother)⟩
      · obtain ⟨hused, htop⟩ := ih hafter hregions region hlater hlength
        exact ⟨inUseWithout_sublist.subset hused, htop⟩

theorem reclaim_seats (h : s.Seats kept used) (inUse : s.pool.InUse used region) :
    Ends (onPool (·.reclaim region)) s
      (fun _ t => t.Seats kept (inUseWithout used (s.pool.returned [region])))
      (fun _ t => t.Seats kept used) := by
  refine ends_onPool.mpr ⟨fun done after hrun => ?_, fun _ _ => h⟩
  -- given back, the region is no longer in use; if not, all is as before
  rw [returned]
  split
  · next after' hsome =>
    obtain ⟨-, rfl⟩ := Prod.mk.inj (Except.ok.inj
      ((reclaimed?_eq_some_iff.mp hsome).symm.trans hrun))
    exact seats_of_reclaimed h inUse hsome
  · next hnone =>
    rcases reclaim_eq_ok hrun with ⟨-, rfl⟩ | ⟨index, block, -, -, -, rfl, -⟩
    · exact h.sublist inUseWithout_sublist
    · rw [reclaimed?_eq_some_iff.mpr hrun] at hnone
      cases hnone

end Pool

/-! ### Containers -/

theorem Slot.fill_seats {s : PoolState} {kept : List Lease} {used : List Region} {slot : Slot}
    {content : Content} (h : s.Seats kept used)
    (hclear : ∀ lease ∈ kept, slot.region.ClearOf lease.region) :
    Ends (slot.fill content) s (fun _ t => t.Seats kept used) (fun _ t => t.Seats kept used) := by
  simp only [Slot.fill, ends_bind, ends_pure]
  refine ends_ofPool.mpr ⟨fun _ _ => ?_, fun _ _ => h⟩
  refine Pool.writing_seats h fun after hrun => ?_
  obtain ⟨bytes, -, hwrite⟩ := bind_eq_ok_iff.mp hrun
  exact Pool.seats_of_write h hclear hwrite

namespace GrowArray

variable {s : PoolState} {kept : List Lease} {used : List Region} {region : Region}
  {array : GrowArray}

theorem init_seats {capacity elementSize : Nat} (h : s.Seats kept used) :
    Ends (init capacity elementSize) s
      (fun array t => array.header = none ∧
        t.Seats kept ([array.elements].filter Region.occupies ++ used))
      (fun _ t => t.Seats kept used) := by
  simp only [init, ends_bind, ends_pure]
  refine ends_ofPool.mpr ⟨fun size _ => ?_, fun _ _ => h⟩
  exact (Pool.allocWith_seats h).mono (fun _ _ ht => ⟨trivial, ht⟩) fun _ _ ht => ht

/-- **A new array** uses its elements and its header. -/
theorem create_seats {capacity elementSize : Nat} (h : s.Seats kept used) :
    Ends (create capacity elementSize) s
      (fun array t => t.Seats kept (array.regions.filter Region.occupies ++ used))
      (fun _ t => t.Seats kept used) := by
  simp only [create, ends_bind, ends_pure]
  refine (Pool.allocWith_seats h).mono (fun header t ht => ?_) fun _ _ ht => ht
  refine (init_seats ht).mono (fun array u hu => ?_)
    fun _ u hu => hu.sublist (List.sublist_append_right _ _)
  obtain ⟨-, hseats⟩ := hu
  rw [← List.append_assoc, ← List.filter_append] at hseats
  exact hseats

/-- **An array goes on** where it is or in a new region, and with the same header. -/
structure Continues (array after : GrowArray) (t : PoolState) (kept : List Lease)
    (used : List Region) : Prop where
  header : after.header = array.header
  seats : t.Seats kept used
  elements : after.elements = array.elements ∨ t.Seats kept (inUseAfter used [after.elements])
  clear : ∀ lease ∈ kept, after.elements.ClearOf lease.region

theorem relocate_seats {capacity : Nat} (h : s.Seats kept used) :
    Ends (array.relocate capacity) s (fun after t => array.Continues after t kept used)
      (fun _ t => t.Seats kept used) := by
  simp only [relocate, ends_bind, ends_log, ends_pure]
  refine ends_ofPool.mpr ⟨fun size _ => ?_, fun _ _ => h⟩
  refine (Pool.allocWith_seats h).mono (fun region t ht => ?_) fun _ _ ht => ht
  have hrest : ∀ u : PoolState, u.Seats kept ([region].filter Region.occupies ++ used) →
      u.Seats kept used := fun u hu => hu.sublist (List.sublist_append_right _ _)
  -- the elements are copied to where nothing is kept
  refine (Pool.writing_seats ht fun after hrun =>
    Pool.seats_of_copy ht ht.clear_of_fresh hrun).mono (fun _ u hu => ?_) fun _ u hu => hrest u hu
  refine ⟨rfl, (hrest u hu).setWorld (Nat.le_refl _), .inr ?_, hu.clear_of_fresh⟩
  exact (hu.sublist inUseAfter_sublist).setWorld (Nat.le_refl _)

theorem growBy_seats {additional size : Nat} {moved : Except Failure Nat} (h : s.Seats kept used)
    (inUse : s.pool.InUse used array.elements) :
    Ends (array.growBy additional size moved) s (fun after t => array.Continues after t kept used)
      (fun _ t => t.Seats kept used) := by
  simp only [growBy, ends_bind]
  refine (Pool.extend_seats h inUse).mono (fun extended t ht => ?_) fun _ _ ht => ht
  obtain ⟨hseats, hlonger⟩ := ht
  cases extended with
  -- the longer region is in use in place of the old one
  | some longer =>
    obtain ⟨-, hafter⟩ := hlonger longer rfl
    exact ⟨rfl, hseats, .inr hafter, hafter.clear_of_inUseAfter⟩
  | none =>
    simp only [ends_bind]
    exact ends_ofPool.mpr ⟨fun _ _ => relocate_seats hseats, fun _ _ => hseats⟩

/-- Elements are counted, and the pool is left as it is. -/
private theorem claim_seats {after : GrowArray} {n : Nat}
    (h : array.Continues after s kept used) :
    Ends (after.claim n) s (fun claimed t => array.Continues claimed.2 t kept used ∧
        claimed.1.region = claimed.2.elements) (fun _ t => t.Seats kept used) := by
  simp only [claim, ends_bind, ends_discard, ends_pure]
  exact ends_ofPool.mpr ⟨fun _ _ => ⟨⟨h.header, h.seats, h.elements, h.clear⟩, trivial⟩,
    fun _ _ => h.seats⟩

section Push

variable (h : s.Seats kept used) (inUse : s.pool.InUse used array.elements)
  (hclear : ∀ lease ∈ kept, array.elements.ClearOf lease.region)

include h inUse hclear

/-- **Appending to an array** whose elements are in use. -/
theorem push_seats : Ends array.push s
    (fun pushed t => array.Continues pushed.2 t kept used ∧ pushed.1.region = pushed.2.elements)
    (fun _ t => t.Seats kept used) := by
  rw [push]
  split
  · simp only [ends_bind]
    exact (growBy_seats h inUse).mono (fun _ _ ht => claim_seats ht) fun _ _ ht => ht
  · exact claim_seats ⟨rfl, h, .inl rfl, hclear⟩

theorem pushMany_seats {n : Nat} : Ends (array.pushMany n) s
    (fun pushed t => array.Continues pushed.2 t kept used ∧ pushed.1.region = pushed.2.elements)
    (fun _ t => t.Seats kept used) := by
  simp only [pushMany, ends_bind]
  refine ends_ofPool.mpr ⟨fun needed _ => ?_, fun _ _ => h⟩
  split
  · simp only [ends_bind]
    refine ends_ofPool.mpr ⟨fun size _ => ?_, fun _ _ => h⟩
    exact (growBy_seats h inUse).mono (fun _ _ ht => claim_seats ht) fun _ _ ht => ht
  · exact claim_seats ⟨rfl, h, .inl rfl, hclear⟩

end Push

/-- Filling what was appended. -/
theorem Continues.fill {after : GrowArray} {slot : Slot} {content : Content}
    (h : array.Continues after s kept used) (hslot : slot.region = after.elements) :
    Ends (slot.fill content) s (fun _ t => array.Continues after t kept used)
      (fun _ t => t.Seats kept used) := by
  have hclear : ∀ lease ∈ kept, slot.region.ClearOf lease.region := hslot ▸ h.clear
  rcases h.elements with hsame | hafter
  · exact (Slot.fill_seats h.seats hclear).mono
      (fun _ _ ht => ⟨h.header, ht, .inl hsame, h.clear⟩) fun _ _ ht => ht
  · refine ((Slot.fill_seats h.seats hclear).and (Slot.fill_seats hafter hclear)).mono
      (fun _ t ht => ?_) fun _ _ ht => ht.1
    exact ⟨h.header, ht.1, .inr ht.2, h.clear⟩

/-- **Writing to an element.** -/
theorem set?_seats {index : Nat} {content : Content} (h : s.Seats kept used)
    (hclear : ∀ lease ∈ kept, array.elements.ClearOf lease.region) :
    Ends (onPool (array.set? index content)) s (fun _ t => t.Seats kept used)
      (fun _ t => t.Seats kept used) := by
  -- an element out of range changes nothing; else its slot is in the region of the array
  refine Pool.onPool_seats h fun a after hrun => ?_
  obtain ⟨-, -, hset⟩ := bind_eq_ok_iff.mp hrun
  split at hset
  · obtain ⟨-, rfl⟩ := Prod.mk.inj (pure_eq_ok_iff.mp hset)
    exact h
  · next slot hslot =>
    obtain ⟨written, hwrite, hread⟩ := bind_eq_ok_iff.mp hset
    obtain ⟨bytes, -, hpure⟩ := bind_eq_ok_iff.mp hread
    obtain ⟨-, rfl⟩ := Prod.mk.inj (pure_eq_ok_iff.mp hpure)
    obtain ⟨before, -, hwrite⟩ := bind_eq_ok_iff.mp hwrite
    have hregion : slot.region = array.elements := by
      rw [slot?] at hslot
      split at hslot
      · exact Option.some.inj hslot ▸ rfl
      · cases hslot
    exact Pool.seats_of_write h (hregion ▸ hclear) hwrite

/-- What comes of giving a region back, if it was claimed last, or of leaving it. -/
private theorem giveBack_ends : Ends (giveBack region) s
    (fun _ t => t = { s with pool := (s.pool.reclaimed? region).getD s.pool })
    (fun _ t => t = s ∧ s.pool.reclaimed? region = none) := by
  unfold Ends giveBack Pool.reclaimed?
  rcases s.pool.reclaim region with (_ | fault) | ⟨_ | _, pool⟩
  · rfl
  · exact ⟨rfl, rfl⟩
  · rfl
  · rfl

/-- **Destroying an array** gives back what it can. -/
theorem destroy_seats (h : s.Seats kept used) (inUse : s.pool.InUseInTurn used array.regions) :
    Ends array.destroy s
      (fun _ t => t.Seats kept (inUseWithout used (s.pool.returned array.regions)))
      (fun _ t => t.Seats kept (inUseWithout used (s.pool.returned array.regions))) := by
  -- the elements go first, and it does not matter whether they could be given back
  obtain ⟨rest, hrest, hheader, hsame⟩ := Pool.exists_seats_of_inUseInTurn h inUse
  rw [regions, hsame]
  simp only [destroy, ends_bind]
  refine giveBack_ends.mono (fun _ t ht => ?_) fun _ t ht => ?_
  · subst ht
    cases hcase : array.header with
    | none => exact (hrest.sublist inUseWithout_sublist).setWorld (Nat.le_refl _)
    | some header =>
      rw [hcase] at hheader
      obtain ⟨last, hlast, -, hsame'⟩ := Pool.exists_seats_of_inUseInTurn hrest hheader
      rw [Option.toList_some, hsame']
      simp only [ends_log, ends_bind, ends_pure]
      refine giveBack_ends.mono (fun _ u hu => ?_) fun _ u hu => ?_
      · subst hu
        exact (hlast.sublist inUseWithout_sublist).setWorld (Nat.le_refl _)
      · obtain ⟨rfl, hnone⟩ := hu
        rw [hnone] at hlast
        exact hlast.sublist inUseWithout_sublist
  · obtain ⟨rfl, hnone⟩ := ht
    rw [hnone] at hrest
    exact hrest.sublist inUseWithout_sublist

end GrowArray

namespace PartList

variable {s : PoolState} {kept : List Lease} {used : List Region} {list : PartList}

theorem init_seats {partCapacity : PartCapacity} {elementSize : Nat} (h : s.Seats kept used) :
    Ends (init partCapacity elementSize) s
      (fun list t => list.header = none ∧
        t.Seats kept (list.handles.filter Region.occupies ++ used))
      (fun _ t => t.Seats kept used) := by
  simp only [init, ends_bind, ends_pure]
  refine ends_ofPool.mpr ⟨fun size _ => ?_, fun _ _ => h⟩
  exact (Pool.allocWith_seats h).mono (fun _ _ ht => ⟨trivial, ht⟩) fun _ _ ht => ht

/-- **A new list** uses its elements and its header. -/
theorem create_seats {partCapacity : PartCapacity} {elementSize : Nat} (h : s.Seats kept used) :
    Ends (create partCapacity elementSize) s
      (fun list t => t.Seats kept (list.handles.filter Region.occupies ++ used))
      (fun _ t => t.Seats kept used) := by
  simp only [create, ends_bind, ends_pure]
  refine (Pool.allocWith_seats h).mono (fun header t ht => ?_) fun _ _ ht => ht
  refine (init_seats ht).mono (fun list u hu => ?_)
    fun _ u hu => hu.sublist (List.sublist_append_right _ _)
  obtain ⟨hnone, hseats⟩ := hu
  -- the header of the list stands in front of its parts
  have hperm : (handles { list with header := some header }).Perm (list.handles ++ [header]) := by
    rw [handles, handles, hnone, Option.toList_none, List.nil_append]
    exact List.perm_append_comm
  rw [← List.append_assoc, ← List.filter_append] at hseats
  exact hseats.subperm ((hperm.filter _).append_right used).subperm

/-- **A list goes on** in its last part, or in a new one. -/
structure Continues (list after : PartList) (t : PoolState) (kept : List Lease)
    (used : List Region) : Prop where
  handles : ∃ issued, after.handles.Perm (issued ++ list.handles) ∧
    t.Seats kept (issued.filter Region.occupies ++ used)
  clear : ∀ lease ∈ kept, after.last.elements.ClearOf lease.region

/-- **Starting a part.** -/
theorem appendPart_seats (h : s.Seats kept used) :
    Ends list.appendPart s (fun after t => list.Continues after t kept used)
      (fun _ t => t.Seats kept used) := by
  simp only [appendPart, ends_bind, ends_discard, ends_log, ends_pure]
  refine ends_ofPool.mpr ⟨fun _ _ => ?_, fun _ _ => h⟩
  refine (Pool.allocWith_seats h).mono (fun header t ht => ?_) fun _ _ ht => ht
  have hrest : ∀ u : PoolState, u.Seats kept ([header].filter Region.occupies ++ used) →
      u.Seats kept used := fun u hu => hu.sublist (List.sublist_append_right _ _)
  refine ends_ofPool.mpr ⟨fun size _ => ?_, fun _ _ => hrest t ht⟩
  refine (Pool.allocWith_seats ht).mono (fun elements u hu => ?_)
    fun _ u hu => hrest u hu
  have hclear := hu.clear_of_fresh
  rw [← List.append_assoc, ← List.filter_append] at hu
  refine ⟨⟨[elements, header], ?_, hu.setWorld (Nat.le_refl _)⟩, hclear⟩
  -- the new part is the last one
  change (list.header.toList ++ (list.parts ++ [_]).flatMap Part.handles).Perm
    ([elements, header] ++ list.handles)
  rw [List.flatMap_append, ← List.append_assoc]
  exact List.perm_append_comm

/-- An element is counted, and the pool is left as it is. -/
private theorem claim_seats {after : PartList} (h : list.Continues after s kept used) :
    Ends after.claim s (fun claimed t => list.Continues claimed.2 t kept used ∧
        claimed.1.region = claimed.2.last.elements) (fun _ t => t.Seats kept used) := by
  obtain ⟨⟨issued, hperm, hseats⟩, hclear⟩ := h
  simp only [claim, ends_bind, ends_discard, ends_pure]
  refine ends_ofPool.mpr ⟨fun _ _ => ⟨⟨⟨issued, ?_, hseats⟩, hclear⟩, trivial⟩,
    fun _ _ => hseats.sublist (List.sublist_append_right _ _)⟩
  rw [handles, parts, List.flatMap_append] at hperm ⊢
  exact hperm

/-- **Appending to a list.** -/
theorem push_seats (h : s.Seats kept used)
    (hclear : ∀ lease ∈ kept, list.last.elements.ClearOf lease.region) :
    Ends list.push s
      (fun pushed t => list.Continues pushed.2 t kept used ∧
        pushed.1.region = pushed.2.last.elements)
      (fun _ t => t.Seats kept used) := by
  rw [push]
  split
  · simp only [ends_bind]
    exact (appendPart_seats h).mono (fun _ _ ht => claim_seats ht) fun _ _ ht => ht
  · exact claim_seats ⟨⟨[], .refl _, h⟩, hclear⟩

/-- Filling what was appended. -/
theorem Continues.fill {after : PartList} {slot : Slot} {content : Content}
    (h : list.Continues after s kept used) (hslot : slot.region = after.last.elements) :
    Ends (slot.fill content) s (fun _ t => list.Continues after t kept used)
      (fun _ t => t.Seats kept used) := by
  obtain ⟨⟨issued, hperm, hseats⟩, hclear⟩ := h
  exact (Slot.fill_seats hseats (hslot ▸ hclear)).mono
    (fun _ _ ht => ⟨⟨issued, hperm, ht⟩, hclear⟩)
    fun _ _ ht => ht.sublist (List.sublist_append_right _ _)

end PartList

end RegionPool
