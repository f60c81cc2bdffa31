import RegionPool.Proofs.Bases
import RegionPool.Proofs.Dealings
import RegionPool.Proofs.Placement

/-!
# Where regions begin

What a pool hands out for data of any kind begins at a multiple of the word, and what it hands out
at an alignment begins at a multiple of that. Three things come together in an address. The base of
a block is a boundary of the pool (`Pool.Based`), an aligned request is put at a multiple of the
word from there, and everything that asks for more has a buffer of its own, which begins where the
heap was asked to put it.

Where the cursor of the block was, whatever odd sizes led to it, does not matter: the rounding takes
it up to the next word. Nor does what happens later: a region that was handed out at a site is found
at that site or not at all (`Session.Tracks`), so its address is settled when it is handed out.

* `Pool.HousesAt` — a region is housed at a boundary; `housesAt_of_alloc` and its like, for each way
  of allocation;
* `GrowArray.Roomier.elements_at`, `PartList.Opened.elements_at` — the elements of a container stay
  where they are, or are allocated anew;
* `Session.Stands` — a region was handed out at a boundary, and `Session.Aligns`, what that means
  for its address;
* `Session.run_aligns` — so it is with everything that a caller holds, after every history.
-/

namespace RegionPool

open PoolM

/-- **An aligned request** is put at a word boundary of the buffer. -/
theorem Block.dvd_of_bump? {block moved : Block} {size offset : Nat}
    (h : block.bump? size .aligned = some (offset, moved)) : Layout.alignment ∣ offset := by
  obtain ⟨htarget, -, -⟩ := bump?_eq_some_iff.mp h
  obtain ⟨-, hoffset⟩ := Option.ite_none_right_eq_some.mp htarget
  obtain rfl := Option.some.inj hoffset
  rw [Layout.alignUp_alignment]
  exact Nat.dvd_mul_right 8 _

/-! ### Regions at a boundary -/

/-- **A pool houses a region at a boundary**: it begins at a multiple of `n`. -/
structure Pool.HousesAt (pool : Pool) (n : Nat) (region : Region) : Prop where
  houses : pool.Houses region
  boundary : ∃ site, pool.siteOf? region.place = some site ∧ n ∣ site.base + region.place.offset

/-- A region keeps its boundary where every site is spared. -/
theorem PoolState.Spares.housesAt {s t : PoolState} {n : Nat} {region : Region} (h : s.Spares t)
    (housed : s.pool.HousesAt n region) : t.pool.HousesAt n region := by
  obtain ⟨site, hsite, hdvd⟩ := housed.boundary
  exact ⟨h.houses housed.houses, site, h.sites _ _ hsite, hdvd⟩

namespace Pool

section Based

variable {pool : Pool} {hand : List Buffer} {region : Region} {index offset : Nat} {buffer : Buffer}

/-- **In a block** a word boundary of the buffer is one of memory. -/
theorem Based.housesAt_block (based : pool.Based hand) (housed : pool.Houses region)
    (hplace : region.place = .block index offset) (hoffset : Layout.alignment ∣ offset) :
    pool.HousesAt Layout.alignment region := by
  obtain ⟨site, hsite, -⟩ := housed.site
  refine ⟨housed, site, hsite, ?_⟩
  rw [hplace] at hsite ⊢
  obtain ⟨block, hblock, rfl⟩ := Option.map_eq_some_iff.mp hsite
  -- blocks are asked for at twice the word
  have hword : Layout.alignment ∣ Layout.poolAlignment := by decide
  have hbase : Layout.alignment ∣ block.buffer.base :=
    Nat.dvd_trans hword (based.dvd_block (List.mem_of_getElem? hblock))
  exact Nat.dvd_add hbase hoffset

/-- **A buffer of its own** begins where it was asked for. -/
theorem Based.housesAt_large (based : pool.Based hand) (housed : pool.Houses region)
    (hplace : region.place = .large buffer.id)
    (hfind : pool.large.find? buffer.id = some buffer) : pool.HousesAt buffer.align region := by
  refine ⟨housed, buffer.site 0, ?_, ?_⟩
  · rw [hplace, siteOf?, hfind, Option.map_some]
  · rw [hplace]
    exact based.dvd_large hfind

end Based

section Alloc

variable {s t : PoolState} {size align : Nat} {region : Region} {buffer : Buffer}

/-- **A small request** that is aligned gets a word boundary of a block. -/
theorem allocSmall_onWord : Ends (allocSmall size .aligned) s
    (fun region _ => ∃ index offset, region.place = .block index offset ∧
      Layout.alignment ∣ offset) (fun _ _ => True) := by
  simp only [allocSmall, growFor, ends_bind, ends_getPool]
  split
  · next index offset chain hclaim =>
    simp only [ends_bind, ends_setPool, ends_pure]
    obtain ⟨block, moved, -, hbump, -⟩ := Chain.exists_of_claim? hclaim
    exact ⟨index, offset, rfl, Block.dvd_of_bump? hbump⟩
  · -- the chain grows, and the new block is asked in the same way as those before it
    simp only [ends_bind, ends_getPool]
    rw [ends_request]
    refine ⟨fun buffer world _ => ?_, fun _ _ _ => trivial⟩
    cases hbump : (Block.ofBuffer buffer Layout.blockHeaderSize).bump? size .aligned with
    | none => trivial
    | some claimed =>
      obtain ⟨offset, block⟩ := claimed
      simp only [ends_bind, ends_getPool, ends_setPool, ends_log, ends_pure]
      exact ⟨_, offset, rfl, Block.dvd_of_bump? hbump⟩

/-- A buffer that gets a new slot is found there. -/
private theorem enterLarge_found : Ends (enterLarge buffer) s
    (fun _ t => t.pool.large.find? buffer.id = some buffer) (fun _ _ => True) := by
  simp only [enterLarge, ends_bind, ends_discard, ends_getPool, ends_setPool]
  rw [ends_orRelease]
  refine .of_forall (fun _ t => LargeTable.find?_push_self) fun failure t => ?_
  -- what becomes of the buffer without a slot is no matter here
  cases failure with
  | refused error => exact .of_forall (fun _ _ => trivial) fun _ _ => trivial
  | fault fault => trivial

/-- **A large request** gets a buffer that was asked for at the word alignment. -/
private theorem allocLarge_found (fit : s.Fit) : Ends (allocLarge size) s
    (fun region t => ∃ buffer, region.place = .large buffer.id ∧
      t.pool.large.find? buffer.id = some buffer ∧ buffer.align = Layout.alignment)
    (fun _ _ => True) := by
  simp only [allocLarge, ends_bind, ends_getPool]
  rw [ends_request]
  refine ⟨fun buffer world call => ?_, fun _ _ _ => trivial⟩
  have halign : buffer.align = Layout.alignment := (World.placed_of_request call).2.1
  split
  · next large hreuse =>
    simp only [ends_bind, ends_setPool, ends_getPool, ends_log, ends_pure]
    -- no buffer of the pool has the number of one that was granted just now
    have hfresh : ∀ held ∈ s.pool.large.buffers, held.id ≠ buffer.id := by
      intro held hmem heq
      have hlt := fit.numbered held hmem
      rw [heq, (World.request_ok call).number] at hlt
      exact Nat.lt_irrefl _ hlt
    exact ⟨buffer, rfl, LargeTable.find?_reuse?_self hreuse hfresh, halign⟩
  · simp only [ends_bind, ends_getPool, ends_log, ends_pure]
    exact enterLarge_found.mono (fun _ t hfind => ⟨buffer, rfl, hfind, halign⟩)
      fun _ _ _ => trivial

/-- **Allocation** houses what it hands out at a word boundary, and leaves a pool that goes on doing
so. -/
theorem housesAt_of_alloc (fit : s.Fit) (based : s.Based) (run : alloc size s = .ok region t) :
    t.Fit ∧ t.Based ∧ t.pool.HousesAt Layout.alignment region := by
  have based' : t.Based := (based.ends fit.sized alloc_orderly).ok_of run
  obtain ⟨retains, -, housed⟩ := (alloc_retains fit).ok_of run
  refine ⟨retains.fit, based', ?_⟩
  -- a block claims whole words, and a large buffer starts where it was asked to
  by_cases hle : size ≤ s.pool.max
  · obtain ⟨index, offset, hplace, hdvd⟩ :=
      allocSmall_onWord.ok_of ((allocWith_of_le hle).symm.trans run)
    exact based'.pool.housesAt_block housed hplace hdvd
  · obtain ⟨buffer, hplace, hfind, halign⟩ :=
      (allocLarge_found fit).ok_of ((allocWith_of_lt (Nat.lt_of_not_le hle)).symm.trans run)
    exact halign ▸ based'.pool.housesAt_large housed hplace hfind

/-- **Cleared memory** begins at a word boundary like any other. -/
theorem housesAt_of_allocZeroed (fit : s.Fit) (based : s.Based)
    (run : allocZeroed size s = .ok region t) : t.pool.HousesAt Layout.alignment region := by
  have hends : Ends (allocZeroed size) s
      (fun region t => t.pool.HousesAt Layout.alignment region) (fun _ _ => True) := by
    simp only [allocZeroed, ends_bind, ends_pure]
    refine (ends_self _ s).mono (fun region u hrun => ?_) fun _ _ _ => trivial
    obtain ⟨fit', -, housed⟩ := housesAt_of_alloc fit based hrun
    -- clearing a region moves nothing
    rw [ends_onPool]
    refine ⟨fun _ pool hwritten => ?_, fun _ _ => trivial⟩
    obtain ⟨after, hwrite, hpure⟩ := bind_eq_ok_iff.mp hwritten
    obtain ⟨-, rfl⟩ := Prod.mk.inj (pure_eq_ok_iff.mp hpure)
    obtain ⟨-, store, -, -, rfl⟩ := write_eq_ok hwrite
    exact (PoolState.Spares.overwrite fit' store _ _).housesAt housed
  exact hends.ok_of run

/-- **A request at an alignment** is housed at a multiple of it. -/
theorem housesAt_of_allocAlignedTo (fit : s.Fit) (based : s.Based)
    (run : allocAlignedTo size align s = .ok region t) : t.pool.HousesAt align region := by
  have based' : t.Based := (based.ends fit.sized allocAlignedTo_orderly).ok_of run
  obtain ⟨calls, hsupplied⟩ := (allocAlignedTo_ends fit).ok_of run
  -- whatever the size is, the region has a buffer that was asked for at the alignment
  have hfound : Ends (allocAlignedTo size align) s
      (fun region t => ∃ buffer, region.place = .large buffer.id ∧
        t.pool.large.find? buffer.id = some buffer ∧ buffer.align = align) (fun _ _ => True) := by
    rw [allocAlignedTo]
    split
    · simp only [ends_bind, ends_getPool, ends_pure]
      rw [ends_request]
      refine ⟨fun buffer world call => ?_, fun _ _ _ => trivial⟩
      have halign : buffer.align = align := (World.placed_of_request call).2.1
      exact enterLarge_found.mono (fun _ t hfind => ⟨buffer, rfl, hfind, halign⟩)
        fun _ _ _ => trivial
    · trivial
  obtain ⟨buffer, hplace, hfind, halign⟩ := hfound.ok_of run
  exact halign ▸ based'.pool.housesAt_large hsupplied.houses hplace hfind

end Alloc

end Pool

/-- **The alignment that a command promises** for the region that it hands out. -/
def Command.alignment? : Command → Option Nat
  | .alloc _ _ | .allocZeroed _ _ => some Layout.alignment
  | .allocAlignedTo _ _ align => some align
  | _ => none

/-! ### Containers -/

section Containers

variable {s t : PoolState} {n elementSize : Nat} {headed : Bool}

/-- **A new array** has its elements at a word boundary. -/
theorem GrowArray.Made.housesAt {capacity : Nat} {array : GrowArray} (fit : s.Fit)
    (based : s.Based) (made : Made capacity elementSize s headed array t) :
    t.pool.HousesAt Layout.alignment array.elements := by
  cases made with
  | bare run => exact (Pool.housesAt_of_alloc fit based run).2.2
  | headed first run =>
    obtain ⟨fit', based', -⟩ := Pool.housesAt_of_alloc fit based first
    exact (Pool.housesAt_of_alloc fit' based' run).2.2

/-- **Where the elements are** once there is room for more: where they were, though the region may
be longer, or in a region that was allocated for them. -/
theorem GrowArray.Roomier.elements_at {array roomier : GrowArray} (fit : s.Fit) (based : s.Based)
    (h : array.Roomier n s roomier t) :
    (∃ length, roomier.elements = { array.elements with length }) ∨
      t.Fit ∧ t.pool.HousesAt Layout.alignment roomier.elements := by
  cases h with
  | ample _ => exact .inl ⟨array.elements.length, rfl⟩
  | lengthened _ run =>
    rcases Pool.extend_eq_ok run with ⟨hnone, -⟩ | ⟨_, _, -, -, -, -, hsome, -⟩
    · cases hnone
    · exact .inl ⟨_, Option.some.inj hsome⟩
  | @moved capacity elements t pool _ _ _ _ run copied =>
    obtain ⟨fit', -, housed⟩ := Pool.housesAt_of_alloc fit based run
    obtain ⟨-, store, bytes, -, -, -, -, rfl⟩ := Pool.copy_eq_ok copied
    -- the elements are copied to where they will be found, and that is told to the log
    have hcopied := PoolState.Spares.overwrite fit' store elements.place.offset bytes
    have hquiet : (Event.logged (.arrayRelocated array.capacity capacity)).ran? = none := rfl
    have hspares := hcopied.trans (.ofCalm hcopied.fit (.log t.world hquiet))
    exact .inr ⟨hspares.fit, hspares.housesAt housed⟩

/-- **A new list** has its first part at a word boundary. -/
theorem PartList.Made.housesAt {partCapacity : PartCapacity} {list : PartList} (fit : s.Fit)
    (based : s.Based) (made : Made partCapacity elementSize s headed list t) :
    ∀ part ∈ list.parts, t.pool.HousesAt Layout.alignment part.elements := by
  intro part hmem
  cases made with
  | bare run =>
    obtain rfl := List.mem_singleton.mp hmem
    exact (Pool.housesAt_of_alloc fit based run).2.2
  | headed first run =>
    obtain rfl := List.mem_singleton.mp hmem
    obtain ⟨fit', based', -⟩ := Pool.housesAt_of_alloc fit based first
    exact (Pool.housesAt_of_alloc fit' based' run).2.2

/-- **Where the elements are** once the last part is open: parts that there were stay, and one that
was started was allocated. -/
theorem PartList.Opened.elements_at {list opened : PartList} (fit : s.Fit) (based : s.Based)
    (h : list.Opened s opened t) : ∀ part ∈ opened.parts, part ∈ list.parts ∨
      t.Fit ∧ t.pool.HousesAt Layout.alignment part.elements := by
  intro part hmem
  cases h with
  | ample _ => exact .inl hmem
  | @started found header elements u v _ _ first run =>
    rcases List.mem_append.mp hmem with hold | hnew
    · exact .inl hold
    · obtain rfl := List.mem_singleton.mp hnew
      obtain ⟨fit', based', -⟩ := Pool.housesAt_of_alloc fit based first
      obtain ⟨fit'', -, housed⟩ := Pool.housesAt_of_alloc fit' based' run
      let longer : PartList :=
        { list with earlier := list.parts, last := ⟨some header, elements, 0⟩ }
      -- the entry in the log, that a part was appended, moves nothing
      have hquiet : (Event.logged (.listPartAppended longer.partCount)).ran? = none := rfl
      have hspares := PoolState.Spares.ofCalm fit'' (.log v.world hquiet)
      exact .inr ⟨hspares.fit, hspares.housesAt housed⟩

/-- Counting an element leaves the elements of every part. -/
theorem PartList.exists_of_mem_counted {list : PartList} {part : Part}
    (h : part ∈ list.counted.2.parts) :
    ∃ before ∈ list.parts, part.elements = before.elements := by
  rcases List.mem_append.mp h with hearlier | hlast
  · exact ⟨part, List.mem_append_left _ hearlier, rfl⟩
  · obtain rfl := List.mem_singleton.mp hlast
    exact ⟨list.last, list.last_mem_parts, rfl⟩

end Containers

/-! ### Along a history -/

/-- The region begins where its site and its offset say, if the pool takes it for its own. -/
theorem Pool.address_of_siteOf? {pool : Pool} {region : Region} {home : Site}
    (howner : region.pool = pool.id) (hgeneration : region.generation = pool.generation)
    (hsite : pool.siteOf? region.place = some home) :
    pool.address region = .ok (home.base + region.place.offset) := by
  obtain ⟨buffer, hbuffer, -, hbase, -⟩ := exists_bufferAt? hsite
  obtain ⟨store, hresolve, hstore⟩ := exists_resolve howner hgeneration hbuffer
  refine bind_eq_ok_iff.mpr ⟨_, resolved_eq_ok_iff.mpr hresolve, ?_⟩
  dsimp only
  rw [hstore, ← hbase]
  rfl

namespace Session

variable {s after : Session} {slot n index : Nat} {region : Region} {pool : Pool} {command : Command}
  {taken : List Holding} {history : List Command}

/-- **A region is live** in a pool: it is one of this pool, in its present generation, and its large
buffer, if it has one, was not given back. -/
structure Live (s : Session) (pool : Pool) (region : Region) : Prop where
  owner : region.pool = pool.id
  generation : region.generation = pool.generation
  kept : ∀ id, region.place = .large id → id ∉ s.world.freed

/-- A region that is longer is live as well. -/
theorem Live.with_length {length : Nat} (live : s.Live pool region) :
    s.Live pool { region with length } := ⟨live.owner, live.generation, live.kept⟩

/-- **A region is live** that is tracked, if its pool was not reset since. -/
theorem Tracks.live {home : Site} (tracks : s.Tracks slot region home 0) (vouched : s.Vouched)
    (here : s.pool? slot = some pool)
    (kept : ∀ id, region.place = .large id → id ∉ s.world.freed) : s.Live pool region where
  owner := tracks.owner.trans (vouched.numbered slot pool here).symm
  generation := by
    obtain ⟨-, hsame⟩ := (tracks.generation pool here).resolve_right
      fun ⟨hpos, _⟩ => Nat.lt_irrefl 0 hpos
    exact hsame.symm
  kept := kept

/-- **A region lies at an address**: a pool where it is live says so, and no pool names any other
address. How long the region is does not matter. -/
structure LiesAt (s : Session) (region : Region) (address : Nat) : Prop where
  live : ∀ slot pool, s.pool? slot = some pool → s.Live pool region →
    ∀ length, pool.address { region with length } = .ok address
  found : ∀ slot pool, s.pool? slot = some pool →
    ∀ length other, pool.address { region with length } = .ok other → other = address

/-- **A region is aligned**: it lies at a multiple of `n`. -/
def Aligns (s : Session) (n : Nat) (region : Region) : Prop :=
  ∃ address, n ∣ address ∧ s.LiesAt region address

/-- **A region stands at a boundary**: at whatever length, it was handed out at a multiple of `n`
and is tracked since. -/
def Stands (s : Session) (n : Nat) (region : Region) : Prop :=
  ∃ length slot home count, s.Tracks slot { region with length } home count ∧
    n ∣ home.base + region.place.offset

namespace Stands

/-- A region that is housed at a boundary stands there from now on. -/
theorem of_housesAt (vouched : s.Vouched) (here : s.pool? slot = some pool)
    (housed : pool.HousesAt n region) : s.Stands n region := by
  obtain ⟨home, hsite, hdvd⟩ := housed.boundary
  exact ⟨region.length, slot, home, 0, .of_houses vouched here housed.houses hsite, hdvd⟩

/-- **Every history** leaves it there. -/
theorem run (stands : s.Stands n region) (vouched : s.Vouched) (accounted : s.Accounted taken)
    (admitted : s.AdmitsAll history) : (s.run history).2.Stands n region := by
  obtain ⟨length, slot, home, count, tracks, hdvd⟩ := stands
  exact ⟨length, slot, home, _, tracks.run vouched accounted admitted, hdvd⟩

/-- **Where a region stands**, there it is found, or nowhere. -/
theorem aligns (stands : s.Stands n region) (vouched : s.Vouched) (retired : s.Retired) :
    s.Aligns n region := by
  obtain ⟨original, issuer, home, count, tracks, hdvd⟩ := stands
  -- the pool that takes the region for its own still has the site, if there is a buffer at all
  have hsite : ∀ slot pool, s.pool? slot = some pool → region.pool = pool.id →
      pool.siteOf? region.place = some home ∨
        ∃ id, region.place = .large id ∧ id ∈ s.world.freed := by
    intro slot pool here howner
    obtain rfl : issuer = slot := vouched.slot_eq here (howner.symm.trans tracks.owner)
    exact tracks.site pool here
  refine ⟨home.base + region.place.offset, hdvd, fun slot pool here live length => ?_,
    fun slot pool here length other haddress => ?_⟩
  · have hkept := (hsite slot pool here live.owner).resolve_right
      fun ⟨id, hplace, hfreed⟩ => live.kept id hplace hfreed
    exact Pool.address_of_siteOf? live.owner live.generation hkept
  · obtain ⟨⟨store, offset⟩, hresolved, -⟩ := bind_eq_ok_iff.mp haddress
    have hresolve := Pool.resolved_eq_ok_iff.mp hresolved
    obtain ⟨howner, hgeneration, -, -⟩ := Pool.resolve_eq_ok_iff.mp hresolve
    rcases hsite slot pool here howner with hkept | ⟨id, hplace, hfreed⟩
    · have hhome : pool.address { region with length } = .ok (home.base + region.place.offset) :=
        Pool.address_of_siteOf? howner hgeneration hkept
      exact Except.ok.inj (haddress.symm.trans hhome)
    · -- a large buffer that was given back is not found any more
      have knows : pool.Knows { region with length } := ⟨_, hresolve⟩
      obtain ⟨buffer, hmem, hid⟩ := Pool.mem_buffers_of_knows knows hplace
      exact absurd hid (retired.absent here hfreed buffer hmem)

/-- A region that is longer begins where it did. -/
theorem with_length {length : Nat} (stands : s.Stands n region) :
    s.Stands n { region with length } := stands

end Stands

/-- **The elements of every container stand** at a word boundary. -/
structure ContainersStand (s : Session) : Prop where
  arrays : ∀ array, some array ∈ s.arrays → s.Stands Layout.alignment array.elements
  lists : ∀ list ∈ s.lists, ∀ part ∈ list.parts, s.Stands Layout.alignment part.elements

/-- **What a growing container needs** is housed when it is written to, and stands from then on. -/
private theorem stands_of_filled {appended : Slot} {content : Content} {before : Bytes}
    {t u : PoolState} (fit : t.Fit) (housed : t.pool.HousesAt n region)
    (filled : appended.fill content t = .ok before u) (vouched : after.Vouched)
    (here : after.pool? slot = some u.pool) : after.Stands n region := by
  have hfill : Hands (appended.fill content) [] fun _ => [] := Slot.fill_hands
  obtain ⟨spares, -⟩ := (hfill t fit nofun).ok_of filled
  exact .of_housesAt vouched here (spares.housesAt housed)

namespace ContainersStand

/-- **Every command** leaves the elements where they stand, or moves them to such a place. -/
theorem exec (stand : s.ContainersStand) (based : s.Based) (sheltered : s.Sheltered taken)
    (admitted : s.Admits command) : (s.exec command).2.ContainersStand := by
  have vouched' := (sheltered.exec admitted).vouched
  have fit := sheltered.vouched.fit
  -- what stands goes on standing, whichever container it belongs to
  have hone : s.AdmitsAll [command] := ⟨admitted, trivial⟩
  have kept : ∀ {region}, s.Stands Layout.alignment region →
      (s.exec command).2.Stands Layout.alignment region := fun stands =>
    stands.run sheltered.vouched sheltered.accounted hone
  have hdealing := s.exec_dealing command
  generalize (s.exec command).1 = reply at hdealing
  generalize (s.exec command).2 = after at hdealing vouched' kept ⊢
  have keptArrays : ∀ array, some array ∈ s.arrays → after.Stands Layout.alignment array.elements :=
    fun array hmem => kept (stand.arrays array hmem)
  have keptLists : ∀ list ∈ s.lists, ∀ part ∈ list.parts,
      after.Stands Layout.alignment part.elements :=
    fun list hmem part hpart => kept (stand.lists list hmem part hpart)
  cases hdealing with
  | aside arrays lists _ | reset arrays lists =>
    exact ⟨arrays ▸ keptArrays, lists ▸ keptLists⟩
  | @arrayMade headed slot capacity elementSize pool array t here run =>
    have made := GrowArray.make_made.ok_of run
    have housed := made.housesAt (fit slot pool here) (based.state here)
    refine ⟨fun other hmem => ?_, keptLists⟩
    rcases List.mem_append.mp hmem with hold | hnew
    · exact keptArrays other hold
    · obtain rfl := Option.some.inj (List.mem_singleton.mp hnew)
      exact .of_housesAt vouched' (pool?_settle_self here t) housed
  | @arrayPushed growth slot index content pool array _ longer t before u here found run filled =>
    refine ⟨fun other hmem => ?_, keptLists⟩
    rcases List.mem_or_eq_of_mem_set hmem with hold | hnew
    · exact keptArrays other hold
    · obtain rfl := Option.some.inj hnew
      obtain ⟨roomier, hroomier, hcounted, -⟩ := sheltered.shaped.pushed found run
      have hlonger : other.elements = roomier.elements := congrArg (·.2.elements) hcounted
      rw [hlonger]
      -- room was found where the elements are, or they were moved
      rcases hroomier.elements_at (fit slot pool here) (based.state here) with
        ⟨length, hsame⟩ | ⟨fit', housed⟩
      · rw [hsame]
        exact (keptArrays array (mem_arrays_of_array? found)).with_length
      · exact stands_of_filled fit' housed filled vouched' (pool?_settle_self here u)
  | @arrayCopied index array found =>
    refine ⟨fun other hmem => ?_, keptLists⟩
    rcases List.mem_append.mp hmem with hold | hnew
    · exact keptArrays other hold
    · obtain rfl := Option.some.inj (List.mem_singleton.mp hnew)
      exact keptArrays other (mem_arrays_of_array? found)
  | arrayDropped arrays lists _ _ =>
    refine ⟨fun other hmem => ?_, lists ▸ keptLists⟩
    rw [arrays] at hmem
    exact keptArrays other ((List.mem_or_eq_of_mem_set hmem).resolve_right nofun)
  | @listMade headed slot partCapacity elementSize pool list t here run =>
    have made := PartList.make_made.ok_of run
    have housed := made.housesAt (fit slot pool here) (based.state here)
    refine ⟨keptArrays, fun other hmem part hpart => ?_⟩
    rcases List.mem_append.mp hmem with hold | hnew
    · exact keptLists other hold part hpart
    · obtain rfl := List.mem_singleton.mp hnew
      exact .of_housesAt vouched' (pool?_settle_self here t) (housed part hpart)
  | @listPushed slot index content pool list _ longer t before u here found run filled =>
    refine ⟨keptArrays, fun other hmem part hpart => ?_⟩
    rcases List.mem_or_eq_of_mem_set hmem with hold | rfl
    · exact keptLists other hold part hpart
    · obtain ⟨opened, hopened, hcounted, -⟩ := sheltered.shaped.pushedList found run
      have hlonger : opened.counted.2 = other := congrArg Prod.snd hcounted.symm
      obtain ⟨uncounted, hmem', heq⟩ := PartList.exists_of_mem_counted (hlonger ▸ hpart)
      rw [heq]
      rcases hopened.elements_at (fit slot pool here) (based.state here) uncounted hmem' with
        hold | ⟨fit', housed⟩
      · exact keptLists list (List.mem_of_getElem? found) uncounted hold
      · exact stands_of_filled fit' housed filled vouched' (pool?_settle_self here u)
  | @listCopied index list found =>
    refine ⟨keptArrays, fun other hmem part hpart => ?_⟩
    rcases List.mem_append.mp hmem with hold | hnew
    · exact keptLists other hold part hpart
    · obtain rfl := List.mem_singleton.mp hnew
      exact keptLists other (List.mem_of_getElem? found) part hpart

/-- **Every history** does. -/
theorem run (stand : s.ContainersStand) (based : s.Based) (sheltered : s.Sheltered taken)
    (admitted : s.AdmitsAll history) : (s.run history).2.ContainersStand := by
  induction history generalizing s taken with
  | nil => exact stand
  | cons command history ih =>
    obtain ⟨hcommand, hhistory⟩ := admitted
    exact ih (stand.exec based sheltered hcommand) (based.exec sheltered.accounted.sized)
      (sheltered.exec hcommand) hhistory

end ContainersStand

/-! ### Slots of a caller -/

section Slots

variable {result : Reply × Session}

/-- **Regions stay in their slots**, though one may be longer than it was. -/
private def KeepsRegions (s : Session) (result : Reply × Session) : Prop :=
  ∀ index region, s.region? index = some region →
    ∃ length, result.2.region? index = some { region with length }

private theorem keepsRegions_of_eq (h : result.2.regions = s.regions) : s.KeepsRegions result :=
  fun index region held => ⟨region.length, (congrArg (·[index]?) h).trans held⟩

private theorem keepsRegions_of_append {region : Region}
    (h : result.2.regions = s.regions ++ [region]) : s.KeepsRegions result := by
  intro index other held
  have hlt := (List.getElem?_eq_some_iff.mp held).1
  have hother : result.2.regions[index]? = s.regions[index]? :=
    (congrArg (·[index]?) h).trans (List.getElem?_append_left hlt)
  exact ⟨other.length, hother.trans held⟩

private theorem extend_lengthens (region : Region) (additional : Nat) (t : PoolState) :
    Ends (onPool (·.extend region additional)) t (fun extended _ =>
      ∀ longer, extended = some longer → ∃ length, longer = { region with length })
      (fun _ _ => True) := by
  rw [ends_onPool]
  refine ⟨fun extended pool hextend longer hlonger => ?_, fun _ _ => trivial⟩
  rcases Pool.extend_eq_ok hextend with ⟨hnone, -⟩ | ⟨_, _, -, -, -, -, hsome, -⟩
  · cases hnone.symm.trans hlonger
  · exact ⟨_, Option.some.inj (hlonger.symm.trans hsome)⟩

/-- **A region stays in its slot**, though the command may lengthen it. -/
private theorem exec_keepsRegions (command : Command) : s.KeepsRegions (s.exec command) := by
  have htabled := s.exec_tabled command
  generalize s.exec command = result at htabled ⊢
  obtain ⟨reply, after⟩ := result
  cases htabled with
  | aside leaves => exact keepsRegions_of_eq leaves.regions
  | granted _ _ _ | copied _ => exact keepsRegions_of_append rfl
  | registered _ _ _ => exact keepsRegions_of_eq rfl
  | @lengthened slot place additional pool region longer t found here run =>
    have hlengthens := extend_lengthens region additional ⟨pool, s.world⟩
    obtain ⟨length, rfl⟩ := hlengthens.ok_of run longer rfl
    -- only the slot of the region that was lengthened changes
    intro index other held
    by_cases heq : place = index
    · obtain rfl : region = other := Option.some.inj (found.symm.trans (heq ▸ held))
      have hlt := (List.getElem?_eq_some_iff.mp held).1
      exact ⟨length, heq ▸ List.getElem?_set_self (heq ▸ hlt)⟩
    · exact ⟨other.length, (List.getElem?_set_ne heq).trans held⟩

/-- **Every history** leaves it there. -/
theorem run_keepsRegions (history : List Command) (held : s.region? index = some region) :
    ∃ length, (s.run history).2.region? index = some { region with length } := by
  induction history generalizing s region with
  | nil => exact ⟨region.length, held⟩
  | cons command history ih =>
    obtain ⟨_, hheld⟩ := exec_keepsRegions command index region held
    have hlater := ih hheld
    exact hlater

end Slots

/-! ### After every history -/

/-- **A region that was handed out at an alignment** is housed there, and is kept in a slot. -/
private theorem exists_of_served (promised : command.alignment? = some n)
    (served : (s.exec command).1 = .region index) (based : s.Based) (vouched : s.Vouched) :
    ∃ slot pool region, command.pool? = some slot ∧ (s.exec command).2.pool? slot = some pool ∧
      (s.exec command).2.region? index = some region ∧ pool.HousesAt n region := by
  have fit := vouched.fit
  -- all three are allocations, and differ in the action alone
  have hallocate : ∀ {slot : Nat} {action : PoolM Region}, command.pool? = some slot →
      s.exec command = s.allocate slot action →
      (∀ pool region t, s.pool? slot = some pool → action ⟨pool, s.world⟩ = .ok region t →
        t.pool.HousesAt n region) →
      ∃ slot pool region, command.pool? = some slot ∧ (s.exec command).2.pool? slot = some pool ∧
        (s.exec command).2.region? index = some region ∧ pool.HousesAt n region := by
    intro slot action hslot hexec houses
    rw [hexec] at served ⊢
    obtain ⟨pool, region, t, here, run, rfl, hafter⟩ := exists_of_allocate served
    rw [hafter]
    exact ⟨slot, t.pool, region, hslot, pool?_settle_self here t, List.getElem?_concat_length,
      houses pool region t here run⟩
  cases command with
  | alloc slot size =>
    obtain rfl := Option.some.inj promised
    exact hallocate rfl rfl fun pool _ _ here run =>
      (Pool.housesAt_of_alloc (fit slot pool here) (based.state here) run).2.2
  | allocZeroed slot size =>
    obtain rfl := Option.some.inj promised
    exact hallocate rfl rfl fun pool _ _ here run =>
      Pool.housesAt_of_allocZeroed (fit slot pool here) (based.state here) run
  | allocAlignedTo slot size align =>
    obtain rfl := Option.some.inj promised
    exact hallocate rfl rfl fun pool _ _ here run =>
      Pool.housesAt_of_allocAlignedTo (fit slot pool here) (based.state here) run
  | _ => cases promised

/-- **Everything is aligned** that a caller holds, from the start of a history to its end. A region
that was asked for at an alignment lies at a multiple of it, whatever was done with it since; and it
is live as long as its pool is there and is not reset, unless its buffer was given back. The
elements of every array and of every part of a list are at a multiple of the word. -/
structure KeepsAligned (start : Session) (history : List Command) : Prop where
  issued : ∀ earlier command later, history = earlier ++ command :: later →
    ∀ n index, command.alignment? = some n →
      ((start.run earlier).2.exec command).1 = .region index →
        ∃ region, (start.run history).2.region? index = some region ∧
          (start.run history).2.Aligns n region ∧
          ∀ slot pool, command.pool? = some slot →
            (start.run history).2.pool? slot = some pool →
            ((start.run earlier).2.exec command).2.resets slot later = 0 →
            (∀ id, region.place = .large id → id ∉ (start.run history).2.world.freed) →
              (start.run history).2.Live pool region
  arrays : ∀ array, some array ∈ (start.run history).2.arrays →
    (start.run history).2.Aligns Layout.alignment array.elements
  lists : ∀ list ∈ (start.run history).2.lists, ∀ part ∈ list.parts,
    (start.run history).2.Aligns Layout.alignment part.elements

/-- **Over a heap that aligns** everything is aligned, after every history. -/
theorem run_aligns (heap : Heap) (history : List Command) (aligns : heap.Aligns)
    (admitted : (Session.ofHeap heap).AdmitsAll history) :
    (Session.ofHeap heap).KeepsAligned history := by
  have opening := Sheltered.ofHeap heap
  have based := Based.ofHeap aligns
  have sheltered := opening.run admitted
  have stand : (Session.ofHeap heap).ContainersStand := ⟨nofun, nofun⟩
  have stand' := stand.run based opening admitted
  refine ⟨fun earlier command later hsplit n index promised served => ?_, fun array hmem =>
    (stand'.arrays array hmem).aligns sheltered.vouched sheltered.retired,
    fun list hmem part hpart =>
      (stand'.lists list hmem part hpart).aligns sheltered.vouched sheltered.retired⟩
  subst hsplit
  -- the region is housed right after the command, and followed from there
  obtain ⟨hearlier, hcommand, hlater⟩ := admitsAll_append.mp admitted
  have sheltered' := opening.run hearlier
  have sheltered'' := sheltered'.exec hcommand
  obtain ⟨slot, pool, region, hslot, here, hregion, housed⟩ :=
    exists_of_served promised served (based.run opening.accounted.sized) sheltered'.vouched
  obtain ⟨home, hsite, hdvd⟩ := housed.boundary
  have tracks := (Tracks.of_houses sheltered''.vouched here housed.houses hsite).run
    sheltered''.vouched sheltered''.accounted hlater
  have stands := (Stands.of_housesAt sheltered''.vouched here housed).run sheltered''.vouched
    sheltered''.accounted hlater
  rw [run_append] at sheltered ⊢
  obtain ⟨length, hregion'⟩ := run_keepsRegions later hregion
  refine ⟨{ region with length }, hregion', stands.with_length.aligns sheltered.vouched
    sheltered.retired, fun _ pool' hslot' here' hresets hkept => ?_⟩
  obtain rfl := Option.some.inj (hslot.symm.trans hslot')
  rw [hresets] at tracks
  exact (tracks.live sheltered.vouched here' hkept).with_length

end Session

/-- A heap that aligns what it places no better than it is asked to. -/
def narrowHeap : Heap where
  place request size align :=
    if size ≤ 65536 ∧ align ∣ 65536 then some (131072 * (request + 1) + align) else none

theorem narrowHeap_aligns : narrowHeap.Aligns := by
  intro request size align base _ hplace
  obtain ⟨⟨-, halign⟩, hbase⟩ := Option.ite_none_right_eq_some.mp hplace
  obtain rfl := Option.some.inj hbase
  have hpage : align ∣ 131072 * (request + 1) :=
    Nat.dvd_mul_right_of_dvd (Nat.dvd_trans halign (by decide)) (request + 1)
  exact Nat.dvd_add hpage (Nat.dvd_refl align)

namespace Session

/-- Odd sizes everywhere, in blocks that end inside a word, with regions that are lengthened and
given back in between and a reset on the way; an array that is relocated, and a list with a second
part. -/
def oddHistory : List Command :=
  [.createPool { size := 117 } none, .allocUnaligned 0 3, .alloc 0 5, .extend 0 1 6, .alloc 0 500,
    .initArray 0 2 5, .reset 0, .allocUnaligned 0 3, .alloc 0 13, .extend 0 4 2,
    .allocUnaligned 0 9, .reclaim 0 5, .allocZeroed 0 21, .alloc 0 33, .allocZeroed 0 600,
    .allocAlignedTo 0 100 64, .allocAlignedTo 0 8 4096, .initArray 0 2 5,
    .pushManyArray 0 1 2 (.fill 1), .allocUnaligned 0 1, .pushArray 0 1 (.fill 2),
    .createList 0 ⟨2, Nat.two_pos⟩ 3, .pushList 0 0 (.fill 3), .pushList 0 0 (.fill 4),
    .allocUnaligned 0 1, .pushList 0 0 (.fill 5)]

theorem run_aligns_oddHistory : narrowHeap.Aligns ∧
    (Session.ofHeap narrowHeap).AdmitsAll oddHistory ∧
    (((Session.ofHeap narrowHeap).run oddHistory).2.pool? 0).map (fun pool =>
      ((Session.ofHeap narrowHeap).run oddHistory).2.regions.map fun region =>
        (pool.address region).toOption) =
      some [none, none, none, some 131168, some 131176, some 131191, some 393264, some 393288,
        some 524296, some 655424, some 790528, some 131202, some 131203] ∧
    (Session.ofHeap narrowHeap).KeepsAligned oddHistory := by
  have admitted : (Session.ofHeap narrowHeap).AdmitsAll oddHistory := by decide +kernel
  exact ⟨narrowHeap_aligns, admitted, by decide +kernel,
    run_aligns narrowHeap oddHistory narrowHeap_aligns admitted⟩

end Session

end RegionPool
