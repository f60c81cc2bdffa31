import RegionPool.Proofs.Clearing
import RegionPool.Proofs.Comparison
import RegionPool.Proofs.Occupancy

/-!
# Serving a workload

To serve a workload is to allocate its sizes one after the other and to touch each region as soon as
it is there. A touch writes one byte, and no request depends on what is in memory. So the requests
go as they would without the touches: the same regions are handed out, the raw allocator gets the
same calls, and the same request is the first one to be refused.

A region that was handed out just now shares no byte with any other that the pool can tell to be in
use. Each touch therefore leaves those before it, and what was there before the workload. The pool
tells by its cursors, so this takes a caller who gave back no region twice.

* `PoolState.Resembles` — states that differ in the bytes of their pools only;
* `KeepsPace` — actions that end in the same way, in states like these; `alloc_keepsPace` for a
  request;
* `Pool.allocEach` — the requests of a workload alone;
* `Pool.Fulfils` — how a workload is served, and `serve_course`, how it ends;
* `Fulfils.keepsPace`, `Fulfils.honours` — the requests alone keep pace, and all leases are
  honoured;
* `PoolState.Caters`, `PoolState.PassesBy` — what comes of a workload, and what does not;
* `Session.run_caters` — in every pool of every history;
* `Session.not_passesBy_of_reclaimed` — for a caller who gave back a region twice.
-/

namespace RegionPool

open PoolM

variable {α β : Type}

/-! ### States that differ in bytes -/

/-- **Two states differ in the bytes of their pools only.** -/
structure PoolState.Resembles (s u : PoolState) : Prop where
  world : u.world = s.world
  pool : u.pool.blank = s.pool.blank

namespace PoolState.Resembles

variable {s u : PoolState}

theorem refl (s : PoolState) : s.Resembles s := ⟨rfl, rfl⟩

theorem id (h : s.Resembles u) : u.pool.id = s.pool.id := congrArg (·.id) h.pool

theorem generation (h : s.Resembles u) : u.pool.generation = s.pool.generation :=
  congrArg (·.generation) h.pool

theorem blockSize (h : s.Resembles u) : u.pool.blockSize = s.pool.blockSize :=
  congrArg (·.blockSize) h.pool

theorem max (h : s.Resembles u) : u.pool.max = s.pool.max := congrArg (·.max) h.pool

theorem allocator (h : s.Resembles u) : u.pool.allocator = s.pool.allocator :=
  congrArg (·.allocator) h.pool

theorem label (h : s.Resembles u) : u.pool.label = s.pool.label := congrArg (·.label) h.pool

theorem chain (h : s.Resembles u) :
    u.pool.chain.recast (·.filled 0) = s.pool.chain.recast (·.filled 0) :=
  congrArg (·.chain) h.pool

theorem slots (h : s.Resembles u) :
    u.pool.large.slots.map (·.map (·.filled 0)) = s.pool.large.slots.map (·.map (·.filled 0)) :=
  congrArg (·.large.slots) h.pool

theorem blockCount (h : s.Resembles u) : u.pool.blockCount = s.pool.blockCount := by
  have := congrArg (·.blockCount) h.pool
  simpa only [Pool.blank, Pool.blockCount, List.length_map] using this

theorem current (h : s.Resembles u) : u.pool.chain.current = s.pool.chain.current :=
  congrArg (·.chain.current) h.pool

theorem regionAt (h : s.Resembles u) (size : Nat) (place : Place) :
    u.pool.regionAt size place = s.pool.regionAt size place := by
  rw [Pool.regionAt, h.id, h.generation, Pool.regionAt]

/-- The same thing happens in both worlds. -/
theorem setWorld (h : s.Resembles u) (world : World) :
    { s with world }.Resembles { u with world } := ⟨rfl, h.pool⟩

/-- The same thing is entered in both logs. -/
theorem log (h : s.Resembles u) {entry entry' : LogEntry} (hentry : entry' = entry) :
    Resembles { s with world := s.world.log entry } { u with world := u.world.log entry' } :=
  ⟨congrArg₂ World.log h.world hentry, h.pool⟩

/-- Both chains are replaced. -/
theorem setChain (h : s.Resembles u) {chain chain' : Chain}
    (hchain : chain'.recast (·.filled 0) = chain.recast (·.filled 0)) :
    Resembles { s with pool := { s.pool with chain } }
      { u with pool := { u.pool with chain := chain' } } :=
  ⟨h.world, congrArg₂ (fun (pool : Pool) chain => { pool with chain }) h.pool hchain⟩

/-- Both tables of large buffers are replaced. -/
theorem setLarge (h : s.Resembles u) {large large' : LargeTable}
    (hslots : large'.slots.map (·.map (·.filled 0)) = large.slots.map (·.map (·.filled 0))) :
    Resembles { s with pool := { s.pool with large } }
      { u with pool := { u.pool with large := large' } } :=
  ⟨h.world, congrArg₂ (fun (pool : Pool) slots => { pool with large := { slots } }) h.pool hslots⟩

end PoolState.Resembles

/-! ### Actions that keep pace -/

/-- **Two actions end in the same way**: with one result or with one failure, in states that differ
in bytes only. -/
inductive KeepsPace : EStateM.Result Failure PoolState α → EStateM.Result Failure PoolState α → Prop
  | results {a t v} (alike : t.Resembles v) : KeepsPace (.ok a t) (.ok a v)
  | failures {failure t v} (alike : t.Resembles v) : KeepsPace (.error failure t) (.error failure v)

namespace KeepsPace

variable {action other : PoolM α} {next next' : α → PoolM β} {s u : PoolState}

/-- Both have a result, and it is the same one. -/
theorem of_ok {a b : α} {t v : PoolState} (h : action s = .ok a t) (h' : other u = .ok b v)
    (hsame : b = a) (alike : t.Resembles v) : KeepsPace (action s) (other u) := by
  subst hsame
  rw [h, h']
  exact .results alike

/-- The one has a result, and so has the other. -/
theorem exists_ok {a : α} {t : PoolState} (h : KeepsPace (action s) (other u))
    (run : action s = .ok a t) : ∃ v, other u = .ok a v ∧ t.Resembles v := by
  rw [run] at h
  generalize hrun : other u = result at h
  cases h with
  | results alike => exact ⟨_, rfl, alike⟩

/-- The one fails, and so does the other. -/
theorem exists_error {failure : Failure} {t : PoolState} (h : KeepsPace (action s) (other u))
    (run : action s = .error failure t) : ∃ v, other u = .error failure v ∧ t.Resembles v := by
  rw [run] at h
  generalize hrun : other u = result at h
  cases h with
  | failures alike => exact ⟨_, rfl, alike⟩

/-- **Actions one after the other.** -/
theorem bind (h : KeepsPace (action s) (other u))
    (hnext : ∀ a t v, t.Resembles v → KeepsPace (next a t) (next' a v)) :
    KeepsPace ((action >>= next) s) ((other >>= next') u) := by
  generalize hrun : action s = result at h
  generalize hrun' : other u = result' at h
  cases h with
  | results alike =>
    rw [bind_of_ok hrun, bind_of_ok hrun']
    exact hnext _ _ _ alike
  | failures alike =>
    rw [bind_of_error hrun, bind_of_error hrun']
    exact .failures alike

/-- Both actions start with a look at the pool. -/
theorem getPool_bind {next next' : Pool → PoolM β}
    (h : KeepsPace (next s.pool s) (next' u.pool u)) :
    KeepsPace ((getPool >>= next) s) ((getPool >>= next') u) := h

/-- The result is not looked at. -/
theorem discard (h : KeepsPace (action s) (other u)) :
    KeepsPace (discard action s) (discard other u) :=
  h.bind fun _ _ _ alike => .results alike

/-- **A request** goes to the same raw allocator of the same world. -/
theorem request (alike : s.Resembles u) (request : Request) :
    KeepsPace (PoolM.request request s) (PoolM.request request u) := by
  unfold PoolM.request
  rw [alike.world, alike.allocator]
  rcases s.world.request s.pool.allocator request with ⟨_ | _, world⟩
  · exact .failures (alike.setWorld world)
  · exact .results (alike.setWorld world)

theorem release (alike : s.Resembles u) (buffer : Buffer) :
    KeepsPace (PoolM.release buffer s) (PoolM.release buffer u) := by
  unfold PoolM.release
  rw [alike.world, alike.allocator]
  rcases s.world.release s.pool.allocator buffer with ⟨_ | _, world⟩
  · exact .failures (alike.setWorld world)
  · exact .results (alike.setWorld world)

/-- **Giving a buffer back** after a refusal. -/
theorem orRelease (h : KeepsPace (action s) (other u)) (buffer : Buffer) :
    KeepsPace (orRelease buffer action s) (orRelease buffer other u) := by
  unfold PoolM.orRelease
  generalize hrun : action s = result at h
  generalize hrun' : other u = result' at h
  cases h with
  | results alike => exact .results alike
  | @failures failure t v alike =>
    cases failure with
    | refused error => exact (release alike buffer).bind fun _ _ _ alike' => .failures alike'
    | fault fault => exact .failures alike

end KeepsPace

/-! ### Requests that keep pace -/

namespace Pool

variable {s t u : PoolState} {size : Nat} {packing : Packing} {buffer : Buffer} {region : Region}
  {pool : Pool} {sizes before after : List Nat} {regions : List Region} {leases : List Lease}
  {failure : Failure}

theorem growFor_keepsPace (alike : s.Resembles u) :
    KeepsPace (growFor size s) (growFor size u) := by
  refine .getPool_bind ?_
  rw [alike.blockSize]
  refine (KeepsPace.request alike _).bind fun buffer t v alike' => ?_
  -- the new block is the same in both, so it serves the request in both or in none
  cases (Block.ofBuffer buffer Layout.blockHeaderSize).bump? size .aligned with
  | none => exact .failures alike'
  | some found =>
    obtain ⟨offset, block⟩ := found
    have hchain : (v.pool.chain.grow block).recast (·.filled 0) =
        (t.pool.chain.grow block).recast (·.filled 0) := by
      rw [Chain.recast_grow, Chain.recast_grow, alike'.chain]
    have grown := alike'.setChain hchain
    refine .of_ok rfl rfl ?_ (grown.log ?_)
    · rw [grown.regionAt, grown.blockCount]
    · rw [grown.label, grown.blockCount, grown.current]

/-- **A small request** is served at the same place, or the chain grows in both. -/
theorem allocSmall_keepsPace (alike : s.Resembles u) :
    KeepsPace (allocSmall size packing s) (allocSmall size packing u) := by
  refine .getPool_bind ?_
  -- the search looks at cursors and counters, and they are the same in both
  have hclaim : (u.pool.chain.claim? size packing).map
        (fun found => (found.1, found.2.1, found.2.2.recast (·.filled 0))) =
      (s.pool.chain.claim? size packing).map
        fun found => (found.1, found.2.1, found.2.2.recast (·.filled 0)) := by
    have hlength : ∀ buffer : Buffer, (buffer.filled 0).length = buffer.length :=
      fun buffer => buffer.length_filled 0
    rw [← Chain.claim?_recast hlength, ← Chain.claim?_recast hlength, alike.chain]
  obtain ⟨hnone, hnone'⟩ |
      ⟨⟨index, offset, chain⟩, ⟨index', offset', chain'⟩, hfound, hfound', h⟩ :=
    cases_of_map_eq hclaim
  · rw [hnone, hnone']
    exact growFor_keepsPace alike
  -- the same spot was found, and the chains still differ in bytes only
  · obtain ⟨rfl, hrest⟩ := Prod.mk.inj h
    obtain ⟨rfl, hchain⟩ := Prod.mk.inj hrest
    rw [hfound, hfound']
    exact .of_ok rfl rfl (alike.regionAt size _) (alike.setChain hchain)

/-- **A slot for a large buffer.** -/
theorem enterLarge_keepsPace (alike : s.Resembles u) (buffer : Buffer) :
    KeepsPace (enterLarge buffer s) (enterLarge buffer u) :=
  ((allocSmall_keepsPace alike).orRelease buffer).discard.bind fun _ _ _ alike' =>
    .of_ok rfl rfl rfl (alike'.setLarge (LargeTable.map_slots_push_congr alike'.slots rfl))

/-- **A large request** gets the same buffer, in the same slot. -/
theorem allocLarge_keepsPace (alike : s.Resembles u) :
    KeepsPace (allocLarge size s) (allocLarge size u) := by
  refine (KeepsPace.request alike _).bind fun buffer t v alike' => ?_
  -- what is done with the buffer after it has a slot is the same in either case
  have hlast : ∀ t v : PoolState, t.Resembles v →
      KeepsPace ((do
        let pool ← getPool
        log (.largeAllocation pool.label buffer.id size)
        return pool.regionAt size (.large buffer.id) : PoolM Region) t)
      ((do
        let pool ← getPool
        log (.largeAllocation pool.label buffer.id size)
        return pool.regionAt size (.large buffer.id) : PoolM Region) v) :=
    fun t v alike => .of_ok rfl rfl (alike.regionAt size _) (alike.log (by rw [alike.label]))
  obtain ⟨hnone, hnone'⟩ | ⟨large, large', hreuse, hreuse', hlarge⟩ :=
    cases_of_map_eq (LargeTable.map_slots_reuse?_congr alike'.slots (rfl : buffer.filled 0 = _))
  · refine .getPool_bind ?_
    rw [hnone, hnone']
    exact (enterLarge_keepsPace alike' buffer).bind fun _ t v alike'' => hlast t v alike''
  · refine .getPool_bind ?_
    rw [hreuse, hreuse']
    exact hlast _ _ (alike'.setLarge hlarge)

/-- **A request of any size** ends in the same way. -/
theorem alloc_keepsPace (alike : s.Resembles u) : KeepsPace (alloc size s) (alloc size u) := by
  refine .getPool_bind ?_
  rw [alike.max]
  split
  · exact allocSmall_keepsPace alike
  · exact allocLarge_keepsPace alike

/-! ### The requests of a workload -/

/-- Allocate every size in order. -/
def allocEach : List Nat → PoolM (List Region)
  | [] => return []
  | size :: sizes => do
    let region ← alloc size
    return region :: (← allocEach sizes)

/-- The first request that is refused ends the series. -/
theorem allocEach_of_refused (run : allocEach before s = .ok regions t)
    (refused : alloc size t = .error failure u) :
    allocEach (before ++ size :: after) s = .error failure u := by
  induction before generalizing s regions with
  | nil =>
    cases run
    exact bind_of_error refused
  | cons first before ih =>
    cases hfirst : alloc first s with
    -- the requests before it were served, so it is not the first that was refused
    | error failure v =>
      have herror : allocEach (first :: before) s = .error failure v := bind_of_error hfirst
      rw [herror] at run
      cases run
    | ok region v =>
      have hstep : ∀ sizes, allocEach (first :: sizes) s =
          (do return region :: (← allocEach sizes) : PoolM (List Region)) v :=
        fun sizes => bind_of_ok hfirst
      -- the first one is served alike in both series; the rest is the induction
      rw [List.cons_append, hstep]
      rw [hstep] at run
      cases hrest : allocEach before v with
      | error failure w =>
        rw [bind_of_error hrest] at run
        cases run
      | ok rest w =>
        rw [bind_of_ok hrest] at run
        cases run
        exact bind_of_error (ih hrest)

/-! ### Touches -/

/-- What is written stays inside the region. -/
private theorem touch_fits (region : Region) :
    0 + ([1].take region.length : Bytes).length ≤ region.length := by
  rw [Nat.zero_add]
  exact List.length_take_le _ _

/-- A touch changes bytes only, so it leaves a pool fit. -/
private theorem touch_leaves (touched : t.pool.touch region = .ok pool) :
    pool.blank = t.pool.blank ∧ (t.Fit → PoolState.Fit { t with pool }) := by
  obtain ⟨-, store, -, -, rfl⟩ := write_eq_ok touched
  exact ⟨blank_overwrite, fun fit => (PoolState.Spares.overwrite fit store _ _).fit⟩

/-- A touch is a step of its own. -/
private theorem touch_eq_ok (touched : s.pool.touch region = .ok pool) :
    onPool (fun pool => return ((), ← pool.touch region)) s = .ok () { s with pool } := by
  rw [onPool, touched]
  rfl

/-- **A workload is served**: every size in order, and each region is touched before the next one is
asked for. -/
inductive Fulfils : PoolState → List Nat → List Region → PoolState → Prop
  | done (s : PoolState) : Fulfils s [] [] s
  | next {s t u : PoolState} {size sizes region regions pool} (run : alloc size s = .ok region t)
    (touched : t.pool.touch region = .ok pool)
    (rest : Fulfils { t with pool } sizes regions u) :
    Fulfils s (size :: sizes) (region :: regions) u

/-- **A request and a touch** bring the workload to the rest of its sizes. -/
theorem serve_cons (run : alloc size s = .ok region t) (touched : t.pool.touch region = .ok pool) :
    serve (size :: sizes) s =
      (do return size + (← serve sizes) : PoolM Nat) { t with pool } := by
  rw [serve, bind_of_ok run, bind_of_ok (touch_eq_ok touched)]

namespace Fulfils

/-- What was served adds up. -/
theorem serve_eq (h : Fulfils s sizes regions t) : serve sizes s = .ok sizes.sum t := by
  induction h with
  | done => rfl
  | next run touched _ ih =>
    rw [serve_cons run touched, bind_of_ok ih]
    rfl

/-- The regions are of the sizes asked for. -/
theorem lengths (h : Fulfils s sizes regions t) : regions.map Region.length = sizes := by
  induction h with
  | done => rfl
  | next run _ _ ih => rw [List.map_cons, ih, length_of_allocWith.ok_of run]

/-- **The requests alone** keep in step with a workload that is served. -/
theorem keepsPace (h : Fulfils s sizes regions t) (alike : s.Resembles u) :
    ∃ v, allocEach sizes u = .ok regions v ∧ t.Resembles v := by
  induction h generalizing u with
  | done => exact ⟨u, rfl, alike⟩
  | @next s t _ size sizes region regions pool run touched _ ih =>
    -- the same region is handed out, and touching it changes bytes only
    obtain ⟨v, hrun, alike'⟩ := (alloc_keepsPace alike).exists_ok run
    have alike'' : PoolState.Resembles { t with pool } v :=
      ⟨alike'.world, alike'.pool.trans (touch_leaves touched).1.symm⟩
    obtain ⟨w, hrest, hlast⟩ := ih alike''
    refine ⟨w, ?_, hlast⟩
    rw [allocEach, bind_of_ok hrun, bind_of_ok hrest]
    rfl

/-- **All leases are honoured** while a workload is served, and so are those of its own regions:
they are touched, and stay so. -/
theorem honours (h : Fulfils s sizes regions t) (honours : s.Honours leases) :
    ∃ touched : List Lease, touched.map Lease.region = regions ∧
      (∀ lease ∈ touched, lease.region.length ≠ 0 → ∃ rest, lease.bytes = 1 :: rest) ∧
      t.Honours (touched ++ leases) := by
  induction h generalizing leases with
  | done => exact ⟨[], rfl, nofun, honours⟩
  | @next s t _ size sizes region regions pool run touched _ ih =>
    obtain ⟨-, bytes, leased⟩ := (alloc_leases honours).ok_of run
    let lease : Lease := ⟨region, Bytes.overwrite bytes 0 ([1].take region.length)⟩
    have hhonours : PoolState.Honours { t with pool } (lease :: leases) :=
      (write_leases leased (touch_fits region)).ok_of (touch_eq_ok touched)
    obtain ⟨later, hregions, hfirst, hlast⟩ := ih hhonours
    -- the lease of this region is one of those that the rest of the workload leaves alone
    refine ⟨lease :: later, by rw [List.map_cons, hregions], fun other hmem hlength => ?_,
      hlast.perm List.perm_middle⟩
    rcases List.mem_cons.mp hmem with rfl | hmem
    · have htake : ([1].take region.length : Bytes) = [1] :=
        List.take_of_length_le (Nat.one_le_iff_ne_zero.mpr hlength)
      refine ⟨bytes.drop 1, ?_⟩
      change Bytes.overwrite bytes 0 ([1].take region.length) = _
      rw [htake]
      rfl
    · exact hfirst other hmem hlength

/-- Every region has been touched in the end. -/
theorem reads_one (h : Fulfils s sizes regions t) (fit : s.Fit) :
    ∀ region ∈ regions, region.length ≠ 0 → ∃ rest, t.pool.bytes region = .ok (1 :: rest) := by
  intro region hmem hlength
  have hnone : s.Honours [] := ⟨⟨fit.sound, nofun, .nil⟩, fit.numbered⟩
  obtain ⟨touched, rfl, hfirst, honours⟩ := h.honours hnone
  obtain ⟨lease, hlease, rfl⟩ := List.mem_map.mp hmem
  obtain ⟨rest, hrest⟩ := hfirst lease hlease hlength
  exact ⟨rest, hrest ▸ (honours.pool.keeps lease (List.mem_append_left _ hlease)).reads⟩

/-- What the pool keeps for anybody is kept. -/
theorem keeps {lease : Lease} (h : Fulfils s sizes regions t) (fit : s.Fit)
    (keeps : s.pool.Keeps lease) : t.pool.Keeps lease := by
  have hone : s.Honours [lease] :=
    ⟨⟨fit.sound, fun _ hmem => List.mem_singleton.mp hmem ▸ keeps, List.pairwise_singleton ..⟩,
      fit.numbered⟩
  obtain ⟨touched, -, -, honours⟩ := h.honours hone
  exact honours.pool.keeps lease (List.mem_append_right _ (List.mem_singleton_self lease))

end Fulfils

/-- **How a workload ends**: it is served, or one of its requests is refused and leaves the pool as
the sizes before it left it. -/
theorem serve_course (fit : s.Fit) (sizes : List Nat) :
    (∃ regions t, Fulfils s sizes regions t) ∨
      ∃ before size after regions u failure t, sizes = before ++ size :: after ∧
        Fulfils s before regions u ∧ alloc size u = .error failure t ∧ t.pool = u.pool ∧
        failure.IsRefusal ∧ serve sizes s = .error failure t := by
  induction sizes generalizing s with
  | nil => exact .inl ⟨[], s, .done s⟩
  | cons size sizes ih =>
    cases run : alloc size s with
    | error failure t =>
      obtain ⟨-, hpool, refusal⟩ := (alloc_retains fit).fail_of run
      exact .inr ⟨[], size, sizes, [], s, failure, t, rfl, .done s, run, hpool, refusal,
        bind_of_error run⟩
    -- served and touched, the pool is fit for the sizes that are left
    | ok region t =>
      obtain ⟨retains, -, housed⟩ := (alloc_retains fit).ok_of run
      obtain ⟨pool, touched⟩ := housed.exists_write (touch_fits region)
      have hfit : PoolState.Fit { t with pool } := (touch_leaves touched).2 retains.fit
      rcases ih hfit with ⟨regions, u, rest⟩ |
        ⟨before, refusedSize, after, regions, u, failure, v, rfl, rest, refused, hpool, refusal,
          hrun⟩
      · exact .inl ⟨region :: regions, u, .next run touched rest⟩
      · refine .inr ⟨size :: before, refusedSize, after, region :: regions, u, failure, v, rfl,
          .next run touched rest, refused, hpool, refusal, ?_⟩
        rw [serve_cons run touched, bind_of_error hrun]

end Pool

/-! ### What comes of a workload -/

/-- **A workload passes a region by**: whatever comes of the workload, the region reads the same. -/
def PoolState.PassesBy (s : PoolState) (sizes : List Nat) (region : Region) : Prop :=
  ∃ bytes, s.pool.bytes region = .ok bytes ∧
    (finish (Pool.serve sizes) s).pool.bytes region = .ok bytes

/-- **A pool caters to a workload** as it would to its requests alone. -/
structure PoolState.Caters (s : PoolState) (sizes : List Nat) : Prop where
  /-- If all sizes are served, so are the requests alone. They lead to the same world and to the
  same pool, but for its bytes, and in the end every region has been touched. -/
  served : ∀ total t, Pool.serve sizes s = .ok total t → total = sizes.sum ∧
    ∃ regions v, Pool.allocEach sizes s = .ok regions v ∧ v.world = t.world ∧
      v.pool.blank = t.pool.blank ∧ regions.map Region.length = sizes ∧
      ∀ region ∈ regions, region.length ≠ 0 →
        ∃ rest, t.pool.bytes region = .ok (1 :: rest)
  /-- Otherwise a request is refused, the same one as without the touches and in the same way. The
  pool is the one that the sizes before it left. -/
  refused : ∀ failure t, Pool.serve sizes s = .error failure t → failure.IsRefusal ∧
    ∃ before size after total u v, sizes = before ++ size :: after ∧
      Pool.serve before s = .ok total u ∧ Pool.alloc size u = .error failure t ∧
      t.pool = u.pool ∧ Pool.allocEach sizes s = .error failure v ∧ v.world = t.world ∧
      v.pool.blank = t.pool.blank
  /-- Large regions whose buffers are held, and regions below the cursors of their blocks. -/
  undisturbed : ∀ lease, s.pool.Keeps lease → s.PassesBy sizes lease.region

/-- **A pool that is fit caters to every workload.** -/
theorem PoolState.Fit.caters {s : PoolState} (fit : s.Fit) (sizes : List Nat) :
    s.Caters sizes := by
  rcases Pool.serve_course fit sizes with ⟨regions, t, serves⟩ |
    ⟨before, size, after, regions, u, failure, t, rfl, serves, refused, hpool, refusal, hrun⟩
  -- the series is served, so nothing is to be shown of a failure
  · have hrun := serves.serve_eq
    refine ⟨fun total t' run => ?_, fun failure t' run => ?_, fun lease keeps => ?_⟩
    · rw [hrun] at run
      cases run
      obtain ⟨v, halone, alike⟩ := serves.keepsPace (.refl s)
      exact ⟨rfl, regions, v, halone, alike.world, alike.pool, serves.lengths,
        serves.reads_one fit⟩
    · rw [hrun] at run
      cases run
    · refine ⟨lease.bytes, keeps.reads, ?_⟩
      rw [finish_of_ok hrun]
      exact (serves.keeps fit keeps).reads
  -- one of the requests is refused, so nothing is to be shown of a total
  · refine ⟨fun total t' run => ?_, fun failure t' run => ?_, fun lease keeps => ?_⟩
    · rw [hrun] at run
      cases run
    · rw [hrun] at run
      cases run
      obtain ⟨v, halone, alike⟩ := serves.keepsPace (.refl s)
      obtain ⟨w, hrefused, alike'⟩ := (Pool.alloc_keepsPace alike).exists_error refused
      exact ⟨refusal, before, size, after, _, u, w, rfl, serves.serve_eq, refused, hpool,
        Pool.allocEach_of_refused halone hrefused, alike'.world, alike'.pool⟩
    · refine ⟨lease.bytes, keeps.reads, ?_⟩
      rw [finish_of_error hrun, hpool]
      exact (serves.keeps fit keeps).reads

namespace Session

variable {heap : Heap} {history : List Command} {slot : Nat} {pool : Pool}

/-- **Serving a workload is allocating its sizes**, in every pool of every history. It passes by
what the pool can tell to be in use, and every region in use in its blocks if no other regions were
lengthened or given back. -/
theorem run_caters (here : ((Session.ofHeap heap).run history).2.pool? slot = some pool)
    (sizes : List Nat) :
    PoolState.Caters ⟨pool, ((Session.ofHeap heap).run history).2.world⟩ sizes ∧
      ((Session.ofHeap heap).HeedsAll slot [] history →
        ∀ region ∈ (Session.ofHeap heap).usedAfter slot [] history,
          PoolState.PassesBy ⟨pool, ((Session.ofHeap heap).run history).2.world⟩ sizes region) := by
  have vouched : ((Session.ofHeap heap).run history).2.Vouched := (Vouched.ofHeap heap).run
  have caters := (vouched.fit slot pool here).caters sizes
  refine ⟨caters, fun heeds region hmem => ?_⟩
  -- a region in use is leased, so the pool keeps it
  have seated := ((Occupied.ofHeap heap).run (.ofHeap heap) heeds).seated pool here
  exact caters.undisturbed (pool.leaseOf region)
    (seated.honours.pool.keeps _ (List.mem_append_left _ (List.mem_map_of_mem hmem)))

/-- A pool with a block that was given up in part, a large buffer and an array. -/
def busyHistory : List Command :=
  [.createPool { size := 256 } none, .alloc 0 16, .alloc 0 40, .alloc 0 500, .write 0 0 (.fill 7),
    .write 0 1 (.fill 9), .write 0 2 (.fill 3), .reclaim 0 1, .initArray 0 2 8,
    .pushArray 0 0 (.fill 5)]

/-- A workload of small requests, an empty one, a large one and one for which the chain grows. -/
theorem run_caters_busyHistory : ∃ pool region,
    ((Session.ofHeap roomyHeap).run busyHistory).2.pool? 0 = some pool ∧
      (Session.ofHeap roomyHeap).HeedsAll 0 [] busyHistory ∧
      region ∈ (Session.ofHeap roomyHeap).usedAfter 0 [] busyHistory ∧
      (((Session.ofHeap roomyHeap).run busyHistory).2.exec (.serve 0 [8, 0, 700, 150, 5])).1 =
        .number 863 ∧
      PoolState.Caters ⟨pool, ((Session.ofHeap roomyHeap).run busyHistory).2.world⟩
        [8, 0, 700, 150, 5] ∧
      PoolState.PassesBy ⟨pool, ((Session.ofHeap roomyHeap).run busyHistory).2.world⟩
        [8, 0, 700, 150, 5] region := by
  have present : (((Session.ofHeap roomyHeap).run busyHistory).2.pool? 0).isSome := by
    decide +kernel
  obtain ⟨pool, here⟩ := Option.isSome_iff_exists.mp present
  have heeds : (Session.ofHeap roomyHeap).HeedsAll 0 [] busyHistory := by decide +kernel
  have hused : (⟨⟨1⟩, 0, 16, .block 0 80⟩ : Region) ∈
      (Session.ofHeap roomyHeap).usedAfter 0 [] busyHistory := by decide +kernel
  have served : (((Session.ofHeap roomyHeap).run busyHistory).2.exec
      (.serve 0 [8, 0, 700, 150, 5])).1 = .number 863 := by decide +kernel
  obtain ⟨caters, passesBy⟩ := run_caters here [8, 0, 700, 150, 5]
  exact ⟨pool, _, here, heeds, hused, served, caters, passesBy heeds _ hused⟩

/-- A region is given back twice. In between, its bytes were handed out again in two parts, and the
second part was written to. -/
def resoldHistory : List Command := partedHistory ++ [.write 0 2 (.fill 7), .reclaim 0 0]

/-- **A workload does not pass by** a region under which the cursor went back, because another one
was given back twice. -/
theorem not_passesBy_of_reclaimed : ¬ ∀ (heap : Heap) (slot : Nat) (history : List Command) pool,
    ((Session.ofHeap heap).run history).2.pool? slot = some pool → ∀ sizes,
      ∀ region ∈ (Session.ofHeap heap).usedAfter slot [] history,
        PoolState.PassesBy ⟨pool, ((Session.ofHeap heap).run history).2.world⟩ sizes region := by
  intro h
  have present : (((Session.ofHeap roomyHeap).run resoldHistory).2.pool? 0).isSome := by
    decide +kernel
  obtain ⟨pool, here⟩ := Option.isSome_iff_exists.mp present
  let region : Region := ⟨⟨1⟩, 0, 8, .block 0 88⟩
  have hused : region ∈ (Session.ofHeap roomyHeap).usedAfter 0 [] resoldHistory := by
    decide +kernel
  -- the bytes of the region are others afterwards, by evaluation
  have hchanged : ∀ pool ∈ ((Session.ofHeap roomyHeap).run resoldHistory).2.pool? 0,
      let s : PoolState := ⟨pool, ((Session.ofHeap roomyHeap).run resoldHistory).2.world⟩
      ((finish (Pool.serve [8, 8]) s).pool.bytes region).toOption ≠
        (s.pool.bytes region).toOption := by
    decide +kernel
  obtain ⟨bytes, hbefore, hafter⟩ := h roomyHeap 0 resoldHistory pool here [8, 8] region hused
  refine hchanged pool here ?_
  dsimp only at hbefore
  rw [hafter, hbefore]

end Session

end RegionPool
