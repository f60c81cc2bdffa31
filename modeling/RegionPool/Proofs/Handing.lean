import RegionPool.Proofs.Containers
import RegionPool.Proofs.Supply

/-!
# What operations hand out

Every region that an operation hands out is one that it was given, or one that the pool houses when
the operation ends. `Hands` says so of an action, along with that it spares every site; actions are
put together by `Hands.bind` and its like.

An operation is given regions by a caller who may hold any regions at all, those of other pools and
of old generations included. All that is asked of them is that the pool houses those which it takes
for its own (`Pool.Trusts`).

* `alloc_hands`, `extend_hands`, `reclaim_hands` and their like — the operations of a pool;
* `GrowArray.push_hands`, `PartList.push_hands` and their like — those of its containers.
-/

namespace RegionPool

open PoolM

/-- **A pool trusts a region** if it houses it, should it take it for its own. Of large regions
nothing is asked, for their bytes are looked up by number. -/
def Pool.Trusts (pool : Pool) (region : Region) : Prop :=
  region.pool = pool.id → region.generation = pool.generation →
    pool.Houses region ∨ ∃ id, region.place = .large id

/-- **An action hands out regions.** Each is among those that are known when it starts, or housed
when it ends, and all sites are spared, also if it fails. -/
def Hands {α : Type} (action : PoolM α) (known : List Region) (regions : α → List Region) : Prop :=
  ∀ s : PoolState, s.Fit → (∀ region ∈ known, s.pool.Trusts region) →
    Ends action s
      (fun a t => s.Spares t ∧ ∀ region ∈ regions a, region ∈ known ∨ t.pool.Houses region)
      (fun _ t => s.Spares t)

/-- Trust lasts. -/
theorem PoolState.Spares.trusts {s t : PoolState} {region : Region} (h : s.Spares t)
    (trusts : s.pool.Trusts region) : t.pool.Trusts region := by
  intro hpool hgeneration
  rw [h.traits.id] at hpool
  rw [h.traits.generation] at hgeneration
  rcases trusts hpool hgeneration with housed | large
  · exact .inl (h.houses housed)
  · exact .inr large

namespace Hands

variable {α β : Type} {action : PoolM α} {next : α → PoolM β} {known : List Region}
  {first regions : α → List Region} {second : β → List Region}

/-- **Actions one after the other.** What the first one hands out is known to the second. -/
theorem bind (h : Hands action known first)
    (hnext : ∀ a, Hands (next a) (known ++ first a) second) :
    Hands (action >>= next) known second := by
  intro s fit trusts
  rw [ends_bind]
  refine (h s fit trusts).mono (fun a t ht => ?_) fun _ _ ht => ht
  obtain ⟨hspares, hfirst⟩ := ht
  -- what was known is still trusted, and what was handed out is housed
  have trusts' : ∀ region ∈ known ++ first a, t.pool.Trusts region := by
    intro region hmem
    rcases List.mem_append.mp hmem with hknown | hhanded
    · exact hspares.trusts (trusts region hknown)
    · rcases hfirst region hhanded with hknown | housed
      · exact hspares.trusts (trusts region hknown)
      · exact fun _ _ => .inl housed
  refine (hnext a t hspares.fit trusts').mono (fun b u hu => ?_) fun _ _ hu => hspares.trans hu
  obtain ⟨hspares', hsecond⟩ := hu
  refine ⟨hspares.trans hspares', fun region hmem => ?_⟩
  -- what the second one hands out was known, or came from the first, or is housed
  rcases hsecond region hmem with hbefore | housed
  · rcases List.mem_append.mp hbefore with hknown | hhanded
    · exact .inl hknown
    · exact (hfirst region hhanded).imp_right hspares'.houses
  · exact .inr housed

theorem pure {a : α} (h : ∀ region ∈ regions a, region ∈ known) :
    Hands (pure a : PoolM α) known regions :=
  fun _ fit _ => ⟨.refl fit, fun region hmem => .inl (h region hmem)⟩

theorem discard (h : Hands action known first) : Hands (discard action) known fun _ => [] := by
  intro s fit trusts
  rw [ends_discard]
  exact (h s fit trusts).mono (fun _ _ ht => ⟨ht.1, nofun⟩) fun _ _ ht => ht

/-- An entry of the log, unless it tells of a cleanup action. -/
theorem log {entry : LogEntry} (h : (Event.logged entry).ran? = none) :
    Hands (log entry) known fun _ => [] := by
  intro s fit _
  rw [ends_log]
  exact ⟨.ofCalm fit (.log _ h), nofun⟩

theorem ofPool {f : Pool → Except Failure α} : Hands (ofPool f) known fun _ => [] := by
  intro s fit _
  rw [ends_ofPool]
  exact ⟨fun _ _ => ⟨.refl fit, nofun⟩, fun _ _ => .refl fit⟩

/-- A function of the pool that does what is said of it if it succeeds. -/
theorem onPool {f : Pool → Except Failure (α × Pool)}
    (h : ∀ s : PoolState, s.Fit → (∀ region ∈ known, s.pool.Trusts region) → ∀ a pool,
      f s.pool = .ok (a, pool) → s.Spares { s with pool } ∧
        ∀ region ∈ regions a, region ∈ known ∨ pool.Houses region) :
    Hands (onPool f) known regions := by
  intro s fit trusts
  rw [ends_onPool]
  exact ⟨fun a pool hrun => h s fit trusts a pool hrun, fun _ _ => .refl fit⟩

end Hands

variable {known : List Region}

/-! ### Pools -/

namespace Pool

section Alloc

variable {size align : Nat} {packing : Packing}

/-- A request that is served or declined hands out its region. -/
private theorem hands_of_ends {action : PoolM Region}
    (h : ∀ s : PoolState, s.Fit → Ends action s (fun region t => ∃ calls, s.Supplies region calls t)
      (fun _ t => s.Spares t)) : Hands action known fun region => [region] := by
  intro s fit _
  refine (h s fit).mono (fun region t ht => ?_) fun _ _ ht => ht
  obtain ⟨calls, hsupplied⟩ := ht
  refine ⟨hsupplied.spares, fun other hmem => .inr ?_⟩
  rw [List.mem_singleton.mp hmem]
  exact hsupplied.houses

theorem allocWith_hands : Hands (allocWith packing size) known fun region => [region] := by
  refine hands_of_ends fun s fit => (allocWith_ends fit).mono (fun region t ht => ?_)
    fun failure t ht => ?_
  · obtain ⟨calls, hsupplied, -⟩ := ht
    exact ⟨calls, hsupplied⟩
  · obtain ⟨calls, hdeclined, -⟩ := ht
    exact hdeclined.spares fit

/-- **Allocation** hands out a region that is housed. -/
theorem alloc_hands : Hands (alloc size) known fun region => [region] := allocWith_hands

theorem allocUnaligned_hands : Hands (allocUnaligned size) known fun region => [region] :=
  allocWith_hands

theorem allocZeroed_hands : Hands (allocZeroed size) known fun region => [region] := by
  refine hands_of_ends fun s fit => (allocZeroed_ends fit).mono (fun region t ht => ?_)
    fun failure t ht => ?_
  · obtain ⟨calls, hsupplied, -⟩ := ht
    exact ⟨calls, hsupplied⟩
  · obtain ⟨calls, hdeclined, -⟩ := ht
    exact hdeclined.spares fit

theorem allocAlignedTo_hands : Hands (allocAlignedTo size align) known fun region => [region] := by
  refine hands_of_ends fun s fit => (allocAlignedTo_ends fit).mono (fun _ _ ht => ht)
    fun failure t ht => ?_
  rcases ht with ⟨-, rfl, -⟩ | ⟨calls, hdeclined⟩
  · exact .refl fit
  · exact hdeclined.spares fit

end Alloc

section Memory

variable {region source target : Region} {start additional length : Nat} {data : Bytes}
  {content : Content}

/-- **A function that writes to a store** if it succeeds. -/
theorem overwrite_hands {f : Pool → Except Failure Pool}
    (hwrites : ∀ pool after, f pool = .ok after →
      ∃ store offset data, after = pool.overwrite store offset data) :
    Hands (onPool fun pool => return ((), ← f pool)) known fun _ => [] := by
  refine .onPool fun s fit _ a pool hrun => ⟨?_, nofun⟩
  obtain ⟨after, hafter, hpure⟩ := bind_eq_ok_iff.mp hrun
  obtain ⟨-, rfl⟩ := Prod.mk.inj (pure_eq_ok_iff.mp hpure)
  obtain ⟨store, offset, data, rfl⟩ := hwrites _ _ hafter
  exact .overwrite fit store offset data

theorem write_hands :
    Hands (onPool fun pool => return ((), ← pool.write region start data)) known fun _ => [] := by
  refine overwrite_hands fun pool after hwrite => ?_
  obtain ⟨-, store, -, -, hafter⟩ := write_eq_ok hwrite
  exact ⟨store, _, _, hafter⟩

theorem writeContent_hands :
    Hands (onPool fun pool => return ((), ← pool.writeContent region content)) known
      fun _ => [] := by
  refine overwrite_hands fun pool after hrun => ?_
  obtain ⟨bytes, -, hwrite⟩ := bind_eq_ok_iff.mp hrun
  obtain ⟨-, store, -, -, hafter⟩ := write_eq_ok hwrite
  exact ⟨store, _, _, hafter⟩

theorem copy_hands :
    Hands (onPool fun pool => return ((), ← pool.copy source target length)) known
      fun _ => [] := by
  refine overwrite_hands fun pool after hcopy => ?_
  obtain ⟨-, store, bytes, -, -, -, -, hafter⟩ := copy_eq_ok hcopy
  exact ⟨store, _, _, hafter⟩

/-- A region in a block that a pool knows and trusts is housed, and its block is sound. -/
private theorem houses_of_trusts {s : PoolState} {index : Nat} {block : Block} (fit : s.Fit)
    (trusts : s.pool.Trusts region) (knows : s.pool.Knows region)
    (hplace : region.place = .block index region.place.offset)
    (hblock : s.pool.chain.blocks[index]? = some block) :
    s.pool.Houses region ∧ region.FitsIn block.site ∧ block.Sound := by
  obtain ⟨⟨store, offset⟩, hresolve⟩ := knows
  obtain ⟨hpool, hgeneration, -, -⟩ := resolve_eq_ok_iff.mp hresolve
  -- its place is in a block, so it is trusted for being housed
  rcases trusts hpool hgeneration with housed | ⟨id, hlarge⟩
  · obtain ⟨site, hsite, fits⟩ := housed.site
    rw [hplace, siteOf?_block hblock] at hsite
    obtain rfl := Option.some.inj hsite
    exact ⟨housed, fits, fit.sound block (List.mem_of_getElem? hblock)⟩
  · rw [hlarge] at hplace
    cases hplace

/-- **A region that is lengthened** is housed. -/
theorem extend_hands (h : region ∈ known) :
    Hands (onPool (·.extend region additional)) known Option.toList := by
  refine .onPool fun s fit trusts extended pool hrun => ?_
  have knows := knows_of_extend hrun
  rcases extend_eq_ok hrun with ⟨rfl, rfl⟩ |
    ⟨index, block, hplace, hblock, hcursor, hroom, rfl, rfl⟩
  · exact ⟨.refl fit, nofun⟩
  · obtain ⟨housed, fits, sound⟩ := houses_of_trusts fit (trusts region h) knows hplace hblock
    have hlimit := sound.cursor_le_limit
    have hmoved : ({ block with cursor := block.cursor + additional } : Block).Sound :=
      ⟨Nat.le_trans sound.start_le_cursor (Nat.le_add_right _ _), by
        change block.cursor + additional ≤ block.limit
        omega⟩
    have hspares := PoolState.Spares.setCursor fit hblock hmoved
    refine ⟨hspares, fun longer hmem => .inr ?_⟩
    obtain rfl := List.mem_singleton.mp hmem
    -- the longer region ends at the new cursor
    have hsite := hspares.sites (.block index region.place.offset) _ (siteOf?_block hblock)
    refine ⟨housed.owner, housed.generation, block.site, hplace ▸ hsite, fits.1, ?_⟩
    change region.place.offset + (region.length + additional) ≤ block.limit
    omega

/-- Giving a region back moves the cursor to its start, which is inside the block. -/
theorem reclaim_spares {s : PoolState} {pool : Pool} {done : Bool} (fit : s.Fit)
    (trusts : s.pool.Trusts region) (hrun : s.pool.reclaim region = .ok (done, pool)) :
    s.Spares { s with pool } := by
  have knows := knows_of_reclaim hrun
  rcases reclaim_eq_ok hrun with ⟨rfl, rfl⟩ | ⟨index, block, hplace, hblock, hcursor, rfl, rfl⟩
  · exact .refl fit
  · obtain ⟨-, fits, sound⟩ := houses_of_trusts fit trusts knows hplace hblock
    have hlimit := sound.cursor_le_limit
    refine .setCursor fit hblock ⟨fits.1, ?_⟩
    change region.place.offset ≤ block.limit
    omega

theorem reclaim_hands (h : region ∈ known) :
    Hands (onPool (·.reclaim region)) known fun _ => [] :=
  .onPool fun _ fit trusts _ _ hrun => ⟨reclaim_spares fit (trusts region h) hrun, nofun⟩

end Memory

theorem serve_hands (sizes : List Nat) : Hands (serve sizes) known fun _ => [] := by
  induction sizes generalizing known with
  | nil => exact .pure nofun
  | cons size sizes ih =>
    refine alloc_hands.bind fun region => ?_
    exact write_hands.bind fun _ => ih.bind fun _ => .pure nofun

end Pool

theorem Slot.fill_hands {slot : Slot} {content : Content} :
    Hands (slot.fill content) known fun _ => [] := by
  have hwrite : Hands (onPool fun pool => return ((), ← slot.writeContent pool content))
      (known ++ []) fun _ => [] := by
    refine Pool.overwrite_hands fun pool after hrun => ?_
    obtain ⟨bytes, store, -, hafter⟩ := Slot.writeContent_eq_ok hrun
    exact ⟨store, _, _, hafter⟩
  exact .bind .ofPool fun _ => hwrite.bind fun _ => .pure nofun

/-! ### Arrays -/

namespace GrowArray

variable {array : GrowArray} {capacity elementSize additional size n index : Nat}
  {moved : Except Failure Nat} {content : Content}

theorem init_hands : Hands (init capacity elementSize) known regions :=
  .bind .ofPool fun _ => Pool.alloc_hands.bind fun _ =>
    .pure fun _ hmem => List.mem_append_right _ hmem

/-- **A new array** keeps its elements and its header in regions that are housed. -/
theorem create_hands : Hands (create capacity elementSize) known regions := by
  refine Pool.alloc_hands.bind fun header => init_hands.bind fun array =>
    .pure fun region hmem => ?_
  rcases List.mem_cons.mp hmem with rfl | hheader
  · exact List.mem_append_right _ List.mem_cons_self
  · exact List.mem_append_left _ (List.mem_append_right _ hheader)

theorem relocate_hands (h : ∀ region ∈ array.regions, region ∈ known) :
    Hands (array.relocate capacity) known regions := by
  refine .bind .ofPool fun _ => Pool.alloc_hands.bind fun elements => Pool.copy_hands.bind fun _ =>
    .bind (.log rfl) fun _ => .pure fun region hmem => ?_
  simp only [List.append_nil, List.mem_append]
  rcases List.mem_cons.mp hmem with rfl | hheader
  · exact .inr (List.mem_singleton_self _)
  · exact .inl (h region (List.mem_cons_of_mem _ hheader))

/-- **Making room** keeps the header, and the elements are where they were or in a new region. -/
theorem growBy_hands (h : ∀ region ∈ array.regions, region ∈ known) :
    Hands (array.growBy additional size moved) known regions := by
  have helements := h array.elements List.mem_cons_self
  refine (Pool.extend_hands helements).bind fun extended => ?_
  cases extended with
  | some elements =>
    refine .pure fun region hmem => ?_
    -- the elements may be those just handed out; the header was known before
    rcases List.mem_cons.mp hmem with rfl | hheader
    · exact List.mem_append_right _ List.mem_cons_self
    · exact List.mem_append_left _ (h region (List.mem_cons_of_mem _ hheader))
  | none =>
    refine .bind .ofPool fun _ => relocate_hands fun region hmem => ?_
    exact List.mem_append_left _ (List.mem_append_left _ (h region hmem))

theorem claim_hands (h : ∀ region ∈ array.regions, region ∈ known) :
    Hands (array.claim n) known fun claimed => claimed.2.regions :=
  .bind (.discard (.ofPool)) fun _ =>
    .pure fun region hmem => List.mem_append_left _ (h region hmem)

theorem push_hands (h : ∀ region ∈ array.regions, region ∈ known) :
    Hands array.push known fun pushed => pushed.2.regions := by
  rw [push]
  split
  · exact (growBy_hands h).bind fun _ => claim_hands fun _ hmem => List.mem_append_right _ hmem
  · exact claim_hands h

theorem pushMany_hands (h : ∀ region ∈ array.regions, region ∈ known) :
    Hands (array.pushMany n) known fun pushed => pushed.2.regions := by
  have hstill : ∀ region ∈ array.regions, region ∈ known ++ [] := fun region hmem =>
    List.mem_append_left _ (h region hmem)
  refine .bind .ofPool fun needed => ?_
  split
  · exact .bind .ofPool fun _ =>
      (growBy_hands fun region hmem => List.mem_append_left _ (hstill region hmem)).bind fun _ =>
        claim_hands fun _ hmem => List.mem_append_right _ hmem
  · exact claim_hands hstill

theorem giveBack_hands {region : Region} (h : region ∈ known) :
    Hands (giveBack region) known fun _ => [] := by
  intro s fit trusts
  unfold Ends giveBack
  rcases hrun : s.pool.reclaim region with (_ | fault) | ⟨_ | _, pool⟩
  · exact ⟨.refl fit, nofun⟩
  · exact .refl fit
  · exact ⟨.refl fit, nofun⟩
  · exact ⟨Pool.reclaim_spares fit (trusts region h) hrun, nofun⟩

/-- **Destroying an array** hands out nothing. -/
theorem destroy_hands (h : ∀ region ∈ array.regions, region ∈ known) :
    Hands array.destroy known fun _ => [] := by
  have hlogged : ∀ known, ∀ elements header : Nat, Hands (do
      log (.arrayDestroyed (elements + header))
      return elements + header) known fun _ => [] := fun _ _ _ =>
    .bind (.log rfl) fun _ => .pure nofun
  refine (giveBack_hands (h _ List.mem_cons_self)).bind fun elements => ?_
  -- an array without a header gives back its elements alone
  split
  · next header hheader =>
    have hmem : header ∈ array.regions := by
      rw [regions, hheader]
      exact List.mem_cons_of_mem _ List.mem_cons_self
    exact (giveBack_hands (List.mem_append_left _ (h header hmem))).bind fun _ => hlogged _ _ _
  · have hnone : Hands (pure 0 : PoolM Nat) (known ++ []) fun _ => [] := .pure nofun
    exact hnone.bind fun _ => hlogged _ _ _

theorem set?_hands : Hands (onPool (array.set? index content)) known fun _ => [] := by
  refine .onPool fun s fit _ a pool hrun => ⟨?_, nofun⟩
  obtain ⟨-, -, hset⟩ := bind_eq_ok_iff.mp hrun
  split at hset
  · obtain ⟨-, rfl⟩ := Prod.mk.inj (pure_eq_ok_iff.mp hset)
    exact .refl fit
  · obtain ⟨after, hwrite, hread⟩ := bind_eq_ok_iff.mp hset
    obtain ⟨bytes, -, hpure⟩ := bind_eq_ok_iff.mp hread
    obtain ⟨-, rfl⟩ := Prod.mk.inj (pure_eq_ok_iff.mp hpure)
    obtain ⟨-, store, -, rfl⟩ := Slot.writeContent_eq_ok hwrite
    exact .overwrite fit store _ _

end GrowArray

/-! ### Lists -/

/-- The regions of a part of a list, its header included. -/
def Part.handles (part : Part) : List Region := part.elements :: part.header.toList

namespace PartList

variable {list : PartList} {partCapacity : PartCapacity} {elementSize : Nat}

/-- The regions of a list, with all headers. -/
def handles (list : PartList) : List Region :=
  list.header.toList ++ list.parts.flatMap Part.handles

theorem last_elements_mem_handles (list : PartList) : list.last.elements ∈ list.handles :=
  List.mem_append_right _
    (List.mem_flatMap.mpr ⟨list.last, list.last_mem_parts, List.mem_cons_self⟩)

theorem init_hands : Hands (init partCapacity elementSize) known handles :=
  .bind .ofPool fun _ => Pool.alloc_hands.bind fun _ =>
    .pure fun _ hmem => List.mem_append_right _ hmem

/-- **A new list** keeps its elements and its header in regions that are housed. -/
theorem create_hands : Hands (create partCapacity elementSize) known handles := by
  refine Pool.alloc_hands.bind fun header => init_hands.bind fun list => .pure fun region hmem => ?_
  rcases List.mem_append.mp hmem with hheader | hparts
  · exact List.mem_append_left _ (List.mem_append_right _ hheader)
  · exact List.mem_append_right _ (List.mem_append_right _ hparts)

theorem appendPart_hands (h : ∀ region ∈ list.handles, region ∈ known) :
    Hands list.appendPart known handles := by
  refine .bind (.discard (.ofPool)) fun _ => Pool.alloc_hands.bind fun header =>
    .bind .ofPool fun _ => Pool.alloc_hands.bind fun elements => .bind (.log rfl) fun _ =>
      .pure fun region hmem => ?_
  -- the new part is the last one, and all others are as they were
  simp only [List.append_nil, List.mem_append]
  rcases List.mem_append.mp hmem with hheader | hparts
  · exact .inl (.inl (h region (List.mem_append_left _ hheader)))
  · rw [parts, List.flatMap_append, List.flatMap_singleton] at hparts
    rcases List.mem_append.mp hparts with hearlier | hnew
    · exact .inl (.inl (h region (List.mem_append_right _ hearlier)))
    · rcases List.mem_cons.mp hnew with rfl | hheader
      · exact .inr (List.mem_singleton_self _)
      · exact .inl (.inr hheader)

theorem claim_hands (h : ∀ region ∈ list.handles, region ∈ known) :
    Hands list.claim known fun claimed => claimed.2.handles := by
  refine .bind (.discard (.ofPool)) fun _ => .pure fun region hmem =>
    List.mem_append_left _ (h region ?_)
  -- counting an element changes no region
  rw [handles, parts, List.flatMap_append] at hmem ⊢
  exact hmem

theorem push_hands (h : ∀ region ∈ list.handles, region ∈ known) :
    Hands list.push known fun pushed => pushed.2.handles := by
  rw [push]
  split
  · exact (appendPart_hands h).bind fun _ => claim_hands fun _ hmem => List.mem_append_right _ hmem
  · exact claim_hands h

end PartList

end RegionPool
