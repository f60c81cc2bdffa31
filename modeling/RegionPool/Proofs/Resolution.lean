import RegionPool.Proofs.Retirement
import RegionPool.Proofs.Turns

/-!
# What becomes of a region

A region may be kept for as long as its holder likes, copied, and shown to any pool. Whatever
happened in between, the pool either finds the very bytes that the region was handed out for, or
says why it does not: the region is one of another pool, the pool was reset, or the large buffer
was given back.

* `Pool.Refuses`, `Pool.Reaches` — a pool refuses a region, or reaches it at its site;
* `Session.Tracks` — what is known of a region along a history, and `Tracks.run`;
* `Session.verdict` — what becomes of a region, told from the history alone;
* `Session.run_resolves` — every pool answers with the verdict.
-/

namespace RegionPool

open PoolM

/-! ### Answers -/

namespace Pool

variable {pool : Pool} {region : Region} {home : Site} {error : PoolError}

/-- **A pool refuses a region**, whatever is to be done with it. -/
structure Refuses (pool : Pool) (region : Region) (error : PoolError) : Prop where
  bytes : pool.bytes region = .error (.refused error)
  write : ∀ content, pool.writeContent region content = .error (.refused error)
  address : pool.address region = .error (.refused error)
  extend : ∀ additional, pool.extend region additional = .error (.refused error)
  reclaim : pool.reclaim region = .error (.refused error)

/-- **A pool reaches a region at a site**: it reads the bytes there, writes to them and to nothing
else, and knows their address. -/
structure Reaches (pool : Pool) (region : Region) (home : Site) : Prop where
  fits : region.FitsIn home
  access : ∃ store buffer, pool.storeBuffer? store = some buffer ∧ buffer.id = home.id ∧
    buffer.base = home.base ∧ buffer.length = home.length ∧
    pool.bytes region =
      .ok ((buffer.bytes.drop region.place.offset).take region.length) ∧
    ∀ content, pool.writeContent region content =
      .ok (pool.overwrite store region.place.offset
        (content.apply ((buffer.bytes.drop region.place.offset).take region.length)))
  address : pool.address region = .ok (home.base + region.place.offset)
  extend : ∀ additional, ∃ extended after, pool.extend region additional = .ok (extended, after)
  reclaim : ∃ done after, pool.reclaim region = .ok (done, after)

/-- All operations resolve the region first. -/
theorem Refuses.of_resolve (h : pool.resolve region = .error error) :
    pool.Refuses region error := by
  have hresolved : ∀ {β : Type} (next : Store × Nat → Except Failure β),
      (pool.resolved region >>= next) = .error (.refused error) := by
    intro β next
    rw [resolved, h]
    rfl
  have hbytes : pool.bytes region = .error (.refused error) := hresolved _
  refine ⟨hbytes, fun content => ?_, hresolved _, fun _ => hresolved _, hresolved _⟩
  rw [writeContent, hbytes]
  rfl

/-- A region that does not resolve is refused, for the reason that it does not. -/
theorem Rejects.refuses (h : pool.Rejects region error) : pool.Refuses region error :=
  .of_resolve (resolve_eq_error_iff.mpr h)

/-- Lengthening a region that has a store comes to an end. -/
private theorem exists_extend {store : Store} {offset : Nat} {buffer : Buffer}
    (hresolve : pool.resolve region = .ok (store, offset))
    (hstore : pool.storeBuffer? store = some buffer) (additional : Nat) :
    ∃ extended after, pool.extend region additional = .ok (extended, after) := by
  have hresolved := resolved_eq_ok_iff.mpr hresolve
  -- a large buffer cannot be lengthened, and a block can while there is room behind
  cases store with
  | slot index => exact ⟨none, pool, bind_eq_ok_iff.mpr ⟨_, hresolved, rfl⟩⟩
  | block index =>
    obtain ⟨block, hblock, -⟩ := Option.map_eq_some_iff.mp hstore
    cases hmoved : block.extend? (offset + region.length) additional with
    | none =>
      refine ⟨none, pool, bind_eq_ok_iff.mpr ⟨_, hresolved, ?_⟩⟩
      simp only [hblock, hmoved]
      rfl
    | some moved =>
      refine ⟨some { region with length := region.length + additional },
        { pool with chain := pool.chain.setBlock index moved },
        bind_eq_ok_iff.mpr ⟨_, hresolved, ?_⟩⟩
      simp only [hblock, hmoved]
      rfl

/-- So does giving it back. -/
private theorem exists_reclaim {store : Store} {offset : Nat} {buffer : Buffer}
    (hresolve : pool.resolve region = .ok (store, offset))
    (hstore : pool.storeBuffer? store = some buffer) :
    ∃ done after, pool.reclaim region = .ok (done, after) := by
  have hresolved := resolved_eq_ok_iff.mpr hresolve
  -- only in a block can there be a cursor to move back
  cases store with
  | slot index => exact ⟨false, pool, bind_eq_ok_iff.mpr ⟨_, hresolved, rfl⟩⟩
  | block index =>
    obtain ⟨block, hblock, -⟩ := Option.map_eq_some_iff.mp hstore
    cases hmoved : block.reclaim? offset (offset + region.length) with
    | none =>
      refine ⟨false, pool, bind_eq_ok_iff.mpr ⟨_, hresolved, ?_⟩⟩
      simp only [hblock, hmoved]
      rfl
    | some moved =>
      refine ⟨true, { pool with chain := pool.chain.setBlock index moved },
        bind_eq_ok_iff.mpr ⟨_, hresolved, ?_⟩⟩
      simp only [hblock, hmoved]
      rfl

/-- **A region that is housed is reached at its site.** -/
theorem Houses.reaches (housed : pool.Houses region)
    (hsite : pool.siteOf? region.place = some home) : pool.Reaches region home := by
  obtain ⟨site, hsite', fits⟩ := housed.site
  obtain rfl : site = home := Option.some.inj (hsite'.symm.trans hsite)
  -- the buffer of the site is in some store, and the region resolves to that
  obtain ⟨buffer, hbuffer, hid, hbase, hlength⟩ := exists_bufferAt? hsite
  obtain ⟨store, hresolve, hstore⟩ := exists_resolve housed.owner housed.generation hbuffer
  have hresolved := resolved_eq_ok_iff.mpr hresolve
  have hspans : pool.spans store region.place.offset region.length = true :=
    spans_eq_true_iff.mpr ⟨buffer, hstore, hlength ▸ fits.2⟩
  let found := (buffer.bytes.drop region.place.offset).take region.length
  have hcontent : pool.content? region = some found :=
    content?_eq_some_iff.mpr ⟨buffer, hbuffer, hlength ▸ fits.2, rfl⟩
  have hbytes : pool.bytes region = .ok found :=
    bytes_eq_ok_iff.mpr ⟨housed.owner, housed.generation, hcontent⟩
  have hfound : found.length = region.length := by
    have hinside : region.place.offset + region.length ≤ buffer.length := hlength ▸ fits.2
    rw [List.length_take, List.length_drop, Buffer.length_bytes]
    omega
  refine ⟨fits, ⟨store, buffer, hstore, hid, hbase, hlength, hbytes, fun content => ?_⟩, ?_,
    fun additional => ?_, ?_⟩
  -- what may be done with the region: writing, its address, lengthening, giving back
  · refine bind_eq_ok_iff.mpr ⟨found, hbytes, bind_eq_ok_iff.mpr
      ⟨_, locate_eq_ok_iff.mpr ⟨hresolve, hspans⟩, guard_eq_ok_iff.mpr ⟨?_, rfl⟩⟩⟩
    rw [Content.length_apply, hfound, Nat.zero_add]
  · refine bind_eq_ok_iff.mpr ⟨_, hresolved, ?_⟩
    dsimp only
    rw [hstore, ← hbase]
    rfl
  · exact exists_extend hresolve hstore additional
  · exact exists_reclaim hresolve hstore

end Pool

/-! ### Along a history -/

namespace Session

variable {s after : Session} {slot count : Nat} {region : Region} {home : Site}
  {command : Command} {reply : Reply} {taken : List Holding}

/-- **The resets of the pool in a slot** along a history. -/
def resets (s : Session) (slot : Nat) : List Command → Nat
  | [] => 0
  | command :: history =>
    (if command = .reset slot ∧ (s.exec command).1 = .done then 1 else 0) +
      (s.exec command).2.resets slot history

theorem resets_append (s : Session) (slot : Nat) (first second : List Command) :
    s.resets slot (first ++ second) =
      s.resets slot first + (s.run first).2.resets slot second := by
  induction first generalizing s with
  | nil => exact (Nat.zero_add _).symm
  | cons command first ih =>
    rw [List.cons_append, resets, ih, resets, Nat.add_assoc]
    rfl

/-- No history has more resets than commands. -/
theorem resets_le_length (s : Session) (slot : Nat) (history : List Command) :
    s.resets slot history ≤ history.length := by
  induction history generalizing s with
  | nil => exact Nat.le_refl _
  | cons command history ih =>
    have hrest := ih (s.exec command).2
    rw [resets, List.length_cons]
    split <;> omega

/-- **A region is tracked** that the pool in a slot handed out at a site, so many resets ago. As
long as there is the pool, its generation tells the number of resets, and the site is there, or the
large buffer was given back. -/
structure Tracks (s : Session) (slot : Nat) (region : Region) (home : Site) (count : Nat) :
    Prop where
  issued : slot < s.pools.length
  owner : region.pool = ⟨slot + 1⟩
  fits : region.FitsIn home
  generation : ∀ pool, s.pool? slot = some pool →
    (count = 0 ∧ pool.generation = region.generation) ∨
      (0 < count ∧ pool.generation = (region.generation + count) % 2 ^ (32 : Nat))
  site : ∀ pool, s.pool? slot = some pool → pool.siteOf? region.place = some home ∨
    ∃ id, region.place = .large id ∧ id ∈ s.world.freed

namespace Tracks

/-- A region that is housed can be tracked from now on. -/
theorem of_houses {pool : Pool} (vouched : s.Vouched) (here : s.pool? slot = some pool)
    (housed : pool.Houses region) (hsite : pool.siteOf? region.place = some home) :
    s.Tracks slot region home 0 := by
  obtain ⟨site, hsite', fits⟩ := housed.site
  obtain rfl : site = home := Option.some.inj (hsite'.symm.trans hsite)
  refine ⟨lt_of_pool? here, housed.owner.trans (vouched.numbered slot pool here), fits,
    fun other hother => .inl ⟨rfl, ?_⟩, fun other hother => .inl ?_⟩
  · obtain rfl := Option.some.inj (here.symm.trans hother)
    exact housed.generation.symm
  · obtain rfl := Option.some.inj (here.symm.trans hother)
    exact hsite

/-- Nothing happens to the pool, or it is gone. -/
theorem same (tracks : s.Tracks slot region home count)
    (hlength : s.pools.length ≤ after.pools.length)
    (hpool : ∀ pool, after.pool? slot = some pool → s.pool? slot = some pool)
    (hfreed : s.world.freed ⊆ after.world.freed) : after.Tracks slot region home count where
  issued := Nat.lt_of_lt_of_le tracks.issued hlength
  owner := tracks.owner
  fits := tracks.fits
  generation pool here := tracks.generation pool (hpool pool here)
  site pool here := (tracks.site pool (hpool pool here)).imp_right fun ⟨id, hplace, hmem⟩ =>
    ⟨id, hplace, hfreed hmem⟩

/-- The pool goes on. -/
theorem endures {pool : Pool} {t : PoolState} {count' : Nat}
    (tracks : s.Tracks slot region home count) (here : s.pool? slot = some pool)
    (h : PoolState.Endures ⟨pool, s.world⟩ t)
    (hlarge : ∀ id, pool.siteOf? (.large id) = some home →
      t.pool.siteOf? (.large id) = some home ∨ id ∈ t.world.freed)
    (hgeneration : (count' = 0 ∧ t.pool.generation = region.generation) ∨
      (0 < count' ∧ t.pool.generation = (region.generation + count') % 2 ^ (32 : Nat)))
    (pools : after.pools = s.pools.set slot (some t.pool)) (world : after.world = t.world) :
    after.Tracks slot region home count' := by
  have hself : after.pool? slot = some t.pool := by rw [pool?_of_set here pools, if_pos rfl]
  refine ⟨?_, tracks.owner, tracks.fits, fun other hother => ?_, fun other hother => ?_⟩
  · rw [pools, List.length_set]
    exact tracks.issued
  · obtain rfl := Option.some.inj (hself.symm.trans hother)
    exact hgeneration
  · obtain rfl := Option.some.inj (hself.symm.trans hother)
    rw [world]
    -- the site stays unless it is a large buffer that has been freed
    rcases tracks.site pool here with hsite | ⟨id, hplace, hmem⟩
    · exact h.keeps hlarge hsite
    · exact .inr ⟨id, hplace, h.later.freed.subset hmem⟩

/-- **However a command turns out**, a region stays tracked, with one more reset if it was one. -/
theorem step (tracks : s.Tracks slot region home count) (h : s.Step command reply after)
    (rewinds : command = .reset slot → ∀ id, reply ≠ .failed (.fault (.untrackedFree id))) :
    after.Tracks slot region home
      (count + if command = .reset slot ∧ reply = .done then 1 else 0) := by
  cases h with
  | turned turn unreset =>
    rw [if_neg fun hreset => unreset slot hreset.1 hreset.2]
    cases turn with
    | idle calm pools _ _ =>
      refine tracks.same (Nat.le_of_eq (congrArg List.length pools).symm) (fun pool here => ?_)
        calm.freed.subset
      rwa [pool?, pools] at here
    | @acted acting pool t named here goes pools world _ _ =>
      by_cases heq : acting = slot
      · subst heq
        refine tracks.endures here goes.toEndures (fun id => goes.large id home) ?_ pools world
        rw [goes.generation]
        exact tracks.generation pool here
      · refine tracks.same (by rw [pools, List.length_set]) (fun other hother => ?_)
          (world ▸ goes.later.freed.subset)
        rwa [pool?_of_set here pools, if_neg (Ne.symm heq)] at hother
  | @began pool begins pools _ _ unreset =>
    rw [if_neg fun hreset => unreset slot hreset.1]
    -- the new pool is in a slot of its own, past the one that issued the region
    refine tracks.same ?_ (fun other hother => ?_) (begins.events.filterMap _).subset
    · rw [pools, List.length_append]
      exact Nat.le_add_right _ _
    · rwa [pool?_of_append pools, if_neg (Nat.ne_of_lt tracks.issued)] at hother
  | @reset acting pool t named here endures settled _ outcome =>
    subst settled
    subst named
    by_cases heq : acting = slot
    · subst heq
      rcases outcome with ⟨rfl, hpool, hfreed⟩ | ⟨id, hfailed⟩
      · rw [if_pos ⟨rfl, rfl⟩]
        refine tracks.endures here endures (fun id hsite => .inr ?_)
          (.inr ⟨Nat.succ_pos _, ?_⟩) rfl rfl
        · obtain ⟨buffer, hfind, -⟩ := Option.map_eq_some_iff.mp hsite
          obtain ⟨hmem, rfl⟩ := LargeTable.mem_of_find? hfind
          exact hfreed buffer hmem
        · have hbefore := tracks.generation pool here
          rw [hpool]
          change (pool.generation + 1) % 2 ^ (32 : Nat) = _
          omega
      · -- a reset that gets stuck is ruled out: the books have every buffer of the pool
        exact absurd hfailed (rewinds rfl id)
    · rw [if_neg fun hreset => heq (Command.reset.inj hreset.1)]
      refine tracks.same (Nat.le_of_eq (length_pools_settle s acting t).symm)
        (fun other hother => ?_) endures.later.freed.subset
      rwa [pool?_settle_of_ne s heq] at hother
  | @destroyed gone pool named here later pools _ _ =>
    subst named
    rw [if_neg fun hreset => (by cases hreset.1)]
    refine tracks.same (by rw [pools, List.length_set]) (fun other hother => ?_)
      later.freed.subset
    rw [pool?_of_set here pools] at hother
    split at hother
    · cases hother
    · exact hother

/-- **Every history** keeps a region tracked, and its resets are counted. -/
theorem run {history : List Command} (tracks : s.Tracks slot region home count)
    (vouched : s.Vouched) (accounted : s.Accounted taken) (admitted : s.AdmitsAll history) :
    (s.run history).2.Tracks slot region home (count + s.resets slot history) := by
  induction history generalizing s count taken with
  | nil => exact tracks
  | cons command history ih =>
    obtain ⟨hcommand, hhistory⟩ := admitted
    obtain ⟨haccounted, hreply⟩ := accounted.exec hcommand
    have hstep : s.Step command (s.exec command).1 (s.exec command).2 := exec_step vouched
    -- only the caller can give back what is not listed, and a reset is not that command
    have htracks := tracks.step hstep fun hreset => hreply fun _ _ hfree => by
      rw [hreset] at hfree
      cases hfree
    rw [resets, ← Nat.add_assoc]
    exact ih htracks (vouched.step hstep) haccounted hhistory

end Tracks

/-! ### The verdict -/

/-- **The verdict on a region** that the pool in slot `issuer` handed out at `home`, `count` resets
ago, when it is shown to the pool in `slot`: where it is found, or why it is refused. -/
def verdict (s : Session) (issuer : Nat) (region : Region) (home : Site) (count slot : Nat)
    (pool : Pool) : Except PoolError Site :=
  if slot ≠ issuer then .error .foreignAllocation
  else if count ≠ 0 then .error (.staleAllocation region.generation pool.generation)
  else
    match region.place with
    | .block _ _ => .ok home
    | .large id => if id ∈ s.world.freed then .error .unknownAllocation else .ok home

end Session

/-- **A pool gives an answer** to whoever shows it a region. -/
def Pool.Answers (pool : Pool) (region : Region) : Except PoolError Site → Prop
  | .error error => pool.Refuses region error
  | .ok home => pool.Reaches region home

namespace Session

variable {s after : Session} {slot issuer count : Nat} {region : Region} {home : Site}
  {pool : Pool} {command : Command}

/-- What was given back is not among the large buffers of a pool. -/
theorem Retired.absent {id : BufferId} (retired : s.Retired) (here : s.pool? slot = some pool)
    (hfreed : id ∈ s.world.freed) : ∀ buffer ∈ pool.large.buffers, buffer.id ≠ id := by
  intro buffer hmem
  refine (retired id hfreed).2 (pool.holding buffer) (List.mem_flatMap.mpr ⟨some pool, ?_, ?_⟩)
  · exact mem_pools_of_pool? here
  · exact List.mem_map_of_mem (List.mem_append_left _ hmem)

/-- **A region that is tracked gets its verdict.** -/
theorem Tracks.answers (tracks : s.Tracks issuer region home count) (vouched : s.Vouched)
    (retired : s.Retired) (few : count < 2 ^ (32 : Nat)) (here : s.pool? slot = some pool) :
    pool.Answers region (s.verdict issuer region home count slot pool) := by
  have hid := vouched.numbered slot pool here
  unfold verdict
  split
  · next hne =>
    refine Pool.Rejects.refuses (.foreign fun heq => hne ?_)
    rw [tracks.owner, hid] at heq
    exact (Nat.succ.inj (PoolId.mk.inj heq)).symm
  · next hsame =>
    obtain rfl : slot = issuer := not_not.mp hsame
    have howner : region.pool = pool.id := tracks.owner.trans hid.symm
    have hgeneration := tracks.generation pool here
    split
    · next hcount => exact Pool.Rejects.refuses (.stale howner (by omega))
    · next hnone =>
      have hcurrent : region.generation = pool.generation := by omega
      have hreached : pool.siteOf? region.place = some home → pool.Reaches region home :=
        fun hsite => Pool.Houses.reaches ⟨howner, hcurrent, home, hsite, tracks.fits⟩ hsite
      have hsite := tracks.site pool here
      split
      · next index offset hplace =>
        -- what was given back is a large buffer, and a block is not
        refine hreached (hsite.resolve_right fun ⟨id, hlarge, _⟩ => ?_)
        rw [hplace] at hlarge
        cases hlarge
      · next id hplace =>
        split
        · next hfreed =>
          exact Pool.Rejects.refuses
            (.unknown howner hcurrent hplace (retired.absent here hfreed))
        · next hkept =>
          refine hreached (hsite.resolve_right fun ⟨other, hlarge, hfreed⟩ => hkept ?_)
          obtain rfl := Place.large.inj (hplace.symm.trans hlarge)
          exact hfreed

/-- **A region that is new to the caller** is housed by the pool that the command names. -/
theorem houses_of_new (vouched : s.Vouched) (held : region ∈ (s.exec command).2.handles)
    (fresh : region ∉ s.handles) : ∃ slot pool, command.pool? = some slot ∧
      (s.exec command).2.pool? slot = some pool ∧ pool.Houses region := by
  have hstep : s.Step command (s.exec command).1 (s.exec command).2 := exec_step vouched
  -- only what was done in a pool brings handles; all else keeps those there are
  cases hstep with
  | turned turn _ =>
    cases turn with
    | idle _ _ handles _ => exact absurd (handles region held) fresh
    | @acted slot pool t named here _ pools _ handles _ =>
      refine ⟨slot, t.pool, named, ?_, (handles region held).resolve_left fresh⟩
      rw [pool?_of_set here pools, if_pos rfl]
  | began _ _ handles _ _ => exact absurd (handles ▸ held) fresh
  | reset _ _ _ settled _ _ =>
    rw [settled] at held
    exact absurd held fresh
  | destroyed _ _ _ _ handles _ => exact absurd (handles ▸ held) fresh

/-- Both parts of a history can be given. -/
theorem admitsAll_append {first second : List Command} : s.AdmitsAll (first ++ second) ↔
    s.AdmitsAll first ∧ (s.run first).2.AdmitsAll second := by
  induction first generalizing s with
  | nil => exact ⟨fun h => ⟨trivial, h⟩, fun h => h.2⟩
  | cons command first ih => exact (and_congr_right fun _ => ih).trans and_assoc.symm

/-- **Regions resolve exactly**, from the start of a history to its end. Whatever region the caller
comes to hold, the pool that hands it out houses it; a region that a pool housed at any time, shown
to any pool at the end, gets the verdict on it; and no buffer is held twice. -/
structure Resolves (start : Session) (history : List Command) : Prop where
  issued : ∀ earlier command later, history = earlier ++ command :: later →
    ∀ region ∈ ((start.run earlier).2.exec command).2.handles,
      region ∉ (start.run earlier).2.handles → ∃ slot pool, command.pool? = some slot ∧
        ((start.run earlier).2.exec command).2.pool? slot = some pool ∧ pool.Houses region
  answered : ∀ earlier later, history = earlier ++ later → ∀ issuer pool region home,
    (start.run earlier).2.pool? issuer = some pool → pool.Houses region →
      pool.siteOf? region.place = some home →
        ∀ slot here, (start.run history).2.pool? slot = some here →
          here.Answers region ((start.run history).2.verdict issuer region home
            ((start.run earlier).2.resets issuer later) slot here)
  once : ((start.run history).2.holdings.map Holding.id).Nodup

/-- **Every history resolves regions exactly**, if no pool is reset so often that its generations
begin anew. -/
theorem run_resolves (heap : Heap) (history : List Command)
    (admitted : (Session.ofHeap heap).AdmitsAll history)
    (few : ∀ slot, (Session.ofHeap heap).resets slot history < 2 ^ (32 : Nat)) :
    (Session.ofHeap heap).Resolves history := by
  have vouched := Vouched.ofHeap heap
  have accounted := Accounted.ofHeap heap
  refine ⟨fun earlier command later _ region held fresh => houses_of_new vouched.run held fresh,
    fun earlier later hsplit issuer pool region home issued housed hsite slot shown here => ?_,
    ((accounted.run admitted).conserved.once.sublist ?_)⟩
  · subst hsplit
    obtain ⟨hearlier, hlater⟩ := admitsAll_append.mp admitted
    -- the bound is on all resets; those since the region was housed are among them
    have hcount := few issuer
    rw [resets_append] at hcount
    rw [run_append] at here ⊢
    have htracks := (Tracks.of_houses vouched.run issued housed hsite).run vouched.run
      (accounted.run hearlier) hlater
    rw [Nat.zero_add] at htracks
    have hretired : ((Session.ofHeap heap).run (earlier ++ later)).2.Retired :=
      accounted.retired_run admitted nofun
    rw [run_append] at hretired
    exact htracks.answers vouched.run.run hretired (by omega) here
  · exact (List.sublist_append_left _ _).map _

/-- A heap that grants every request. -/
def roomyHeap : Heap where
  place request _ _ := some (4096 * (request + 1))

/-- A large buffer is given back and its slot taken by another, one of two pools is reset, and each
is shown regions of the other. -/
def reusingHistory : List Command :=
  [.createPool { size := 112 } none, .createPool { size := 256 } none, .alloc 0 500, .alloc 0 8,
    .free 0 0, .allocZeroed 0 600, .write 0 0 (.fill 1), .addCleanup 1 24, .holdCleanupRegion 0,
    .extend 1 3 5, .write 0 3 (.fill 2), .reset 1, .write 1 3 (.fill 3), .alloc 1 24,
    .initArray 1 2 3, .pushArray 1 0 (.fill 4), .keepCopy 4, .reclaim 1 4, .destroy 0]

theorem run_resolves_reusingHistory :
    (Session.ofHeap roomyHeap).AdmitsAll reusingHistory ∧
      (∀ slot, (Session.ofHeap roomyHeap).resets slot reusingHistory < 2 ^ (32 : Nat)) ∧
      (Session.ofHeap roomyHeap).Resolves reusingHistory := by
  have admitted : (Session.ofHeap roomyHeap).AdmitsAll reusingHistory := by decide +kernel
  have few : ∀ slot, (Session.ofHeap roomyHeap).resets slot reusingHistory < 2 ^ (32 : Nat) :=
    fun slot => Nat.lt_of_le_of_lt (resets_le_length _ slot _) (by decide)
  exact ⟨admitted, few, run_resolves roomyHeap reusingHistory admitted few⟩

end Session

end RegionPool
