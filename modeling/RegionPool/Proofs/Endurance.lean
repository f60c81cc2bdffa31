import RegionPool.Proofs.Lifecycle
import RegionPool.Proofs.Supply

/-!
# What lasts as long as a pool

Most operations spare every site. A large buffer may be given back before its pool ends, and the
cleanup records change and run; but the blocks of a pool and their sites last, whatever happens to
it, and the number of a large buffer that is gone is found among those that were given back.

* `Pool.Begins`, `create_begins` — a new pool;
* `PoolState.Endures` — what lasts in any case, `PoolState.Persists` — what lasts until the next
  reset, large buffers that were not given back included, `PoolState.Rests` if no cleanup record is
  run, and `PoolState.Stays` if no large buffer is given back either;
* `free_ends` — a large buffer given back early;
* `setCleanup_ends`, `disableCleanup_ends`, `onDestroy_ends`, `runFileCleanup_ends` — what the
  operations on cleanup records do to them;
* `reset_endures` — a reset.
-/

namespace RegionPool

open PoolM

/-! ### What lasts -/

namespace PoolState

/-- **A pool endures**: it keeps its number, the sites of its blocks and its cleanup records. -/
structure Endures (s t : PoolState) : Prop where
  id : t.pool.id = s.pool.id
  blocks : ∀ (index : Nat) (block : Block), s.pool.chain.blocks[index]? = some block →
    ∃ after : Block, t.pool.chain.blocks[index]? = some after ∧ after.site = block.site
  records : s.pool.cleanups.count ≤ t.pool.cleanups.count
  fit : t.Fit
  later : s.world.Later t.world

/-- **A pool persists**: it endures without a reset, and a large buffer whose site is gone was given
back. -/
structure Persists (s t : PoolState) : Prop extends Endures s t where
  generation : t.pool.generation = s.pool.generation
  large : ∀ id site, s.pool.siteOf? (.large id) = some site →
    t.pool.siteOf? (.large id) = some site ∨ id ∈ t.world.freed

/-- **A pool rests**: it persists, and none of its cleanup records is run. -/
structure Rests (s t : PoolState) : Prop extends Persists s t where
  calm : s.world.Calm t.world

/-- **A pool stays** in possession: it rests, and gives no large buffer back. -/
structure Stays (s t : PoolState) : Prop extends Rests s t where
  keeps : ∀ id site, s.pool.siteOf? (.large id) = some site →
    t.pool.siteOf? (.large id) = some site

variable {s t u : PoolState}

/-- A pool that spares every site persists. -/
theorem Spares.persists (h : s.Spares t) : s.Persists t where
  id := h.traits.id
  blocks index block hblock := by
    have hsite := h.sites (.block index 0) _ (Pool.siteOf?_block hblock)
    exact Option.map_eq_some_iff.mp hsite
  records := Nat.le_of_eq (congrArg CleanupStack.count h.cleanups.symm)
  fit := h.fit
  later := h.calm.toLater
  generation := h.traits.generation
  large id site hsite := .inl (h.sites _ site hsite)

theorem Endures.trans (h : s.Endures t) (h' : t.Endures u) : s.Endures u where
  id := h'.id.trans h.id
  blocks index block hblock := by
    obtain ⟨after, hafter, heq⟩ := h.blocks index block hblock
    obtain ⟨last, hlast, heq'⟩ := h'.blocks index after hafter
    exact ⟨last, hlast, heq'.trans heq⟩
  records := Nat.le_trans h.records h'.records
  fit := h'.fit
  later := h.later.trans h'.later

/-- **A site is kept**, unless its large buffer was given back. -/
theorem Endures.keeps {place : Place} {site : Site} (h : s.Endures t)
    (hlarge : ∀ id, s.pool.siteOf? (.large id) = some site →
      t.pool.siteOf? (.large id) = some site ∨ id ∈ t.world.freed)
    (hsite : s.pool.siteOf? place = some site) :
    t.pool.siteOf? place = some site ∨ ∃ id, place = .large id ∧ id ∈ t.world.freed := by
  cases place with
  | block index offset =>
    obtain ⟨block, hblock, rfl⟩ := Option.map_eq_some_iff.mp hsite
    obtain ⟨after, hafter, heq⟩ := h.blocks index block hblock
    exact .inl (heq ▸ Pool.siteOf?_block hafter)
  | large id => exact (hlarge id hsite).imp_right fun hfreed => ⟨id, rfl, hfreed⟩

theorem Persists.trans (h : s.Persists t) (h' : t.Persists u) : s.Persists u where
  toEndures := h.toEndures.trans h'.toEndures
  generation := h'.generation.trans h.generation
  large id site hsite := by
    rcases h.large id site hsite with hkept | hfreed
    · exact h'.large id site hkept
    · exact .inr (h'.later.freed.subset hfreed)

theorem Spares.stays (h : s.Spares t) : s.Stays t :=
  ⟨⟨h.persists, h.calm⟩, fun id => h.sites (.large id)⟩

theorem Stays.trans (h : s.Stays t) (h' : t.Stays u) : s.Stays u where
  toRests := ⟨h.toPersists.trans h'.toPersists, h.calm.trans h'.calm⟩
  keeps id site hsite := h'.keeps id site (h.keeps id site hsite)

/-- The cleanup records change, and the world is a later one. -/
theorem Persists.setCleanups {cleanups : CleanupStack} {world : World} (fit : s.Fit)
    (records : s.pool.cleanups.count ≤ cleanups.count) (later : s.world.Later world) :
    s.Persists { pool := { s.pool with cleanups }, world } where
  id := rfl
  blocks _ block hblock := ⟨block, hblock, rfl⟩
  records := records
  fit := ⟨⟨fit.sized.min, fit.sized.max⟩, fit.sound, (fit.later later.nextBuffer).numbered⟩
  later := later
  generation := rfl
  large _ _ hsite := .inl hsite

/-- The cleanup records change, and the world is calm. -/
theorem Stays.setCleanups {cleanups : CleanupStack} {world : World} (fit : s.Fit)
    (records : s.pool.cleanups.count ≤ cleanups.count) (calm : s.world.Calm world) :
    s.Stays { pool := { s.pool with cleanups }, world } :=
  ⟨⟨.setCleanups fit records calm.toLater, calm⟩, fun _ _ hsite => hsite⟩

end PoolState

/-! ### Beginning -/

/-- **A pool begins**: it gets the next number, and nothing is handed out yet. -/
structure Pool.Begins (pool : Pool) (w w' : World) : Prop where
  id : pool.id = ⟨w.nextPool⟩
  nextPool : w'.nextPool = w.nextPool + 1
  nextBuffer : w.nextBuffer ≤ w'.nextBuffer
  events : w.events <+: w'.events
  ran : w'.ran = w.ran
  generation : pool.generation = 0
  cleanups : pool.cleanups = {}
  fit : PoolState.Fit ⟨pool, w'⟩

/-- Something calm may happen before a pool begins. -/
theorem Pool.Begins.of_calm {pool : Pool} {w w₁ w' : World} (h : pool.Begins w₁ w')
    (calm : w.Calm w₁) : pool.Begins w w' where
  id := by rw [h.id, calm.nextPool]
  nextPool := by rw [h.nextPool, calm.nextPool]
  nextBuffer := Nat.le_trans calm.nextBuffer h.nextBuffer
  events := calm.events.trans h.events
  ran := h.ran.trans calm.ran
  generation := h.generation
  cleanups := h.cleanups
  fit := h.fit

namespace Pool

/-- **Making a pool** begins one, or is calm. -/
theorem create_begins (config : PoolConfig) (allocator : AllocatorId) (w : World) :
    (∃ pool w', create config allocator w = (.ok pool, w') ∧ pool.Begins w w') ∨
      ∃ error w', create config allocator w = (.error error, w') ∧ w.Calm w' := by
  cases hrun : create config allocator w with | mk result w' =>
  cases result with
  | error error =>
    refine .inr ⟨error, w', rfl, ?_⟩
    unfold create at hrun
    split at hrun
    · obtain ⟨-, rfl⟩ := Prod.mk.inj hrun
      exact .refl w
    · split at hrun
      · next call =>
        obtain ⟨-, rfl⟩ := Prod.mk.inj hrun
        exact .request call
      · cases hrun
  | ok pool =>
    refine .inl ⟨pool, w', rfl, ?_⟩
    obtain ⟨-, buffer, opens⟩ := create_ok hrun
    have hheader : Layout.poolHeaderSize ≤ Layout.minPoolSize := by decide
    -- even the smallest buffer has room for the header, so the first block is sound
    have fit : PoolState.Fit ⟨pool, w'⟩ := by
      refine ⟨opens.sized, fun block hmem => ?_, fun held hmem => ?_⟩
      · rw [opens.chain] at hmem
        obtain rfl := List.mem_singleton.mp hmem
        refine ⟨Nat.le_refl _, ?_⟩
        change Layout.poolHeaderSize ≤ buffer.length
        rw [opens.length]
        exact Nat.le_trans hheader opens.sized.min
      · rw [opens.large] at hmem
        exact (List.not_mem_nil hmem).elim
    unfold create at hrun
    split at hrun
    · cases hrun
    · split at hrun
      · cases hrun
      · next granted w₁ call =>
        have hcalm := World.Calm.request call
        obtain ⟨hpool, rfl⟩ := Prod.mk.inj hrun
        obtain rfl := Except.ok.inj hpool
        let named : World := { w₁ with nextPool := w₁.nextPool + 1 }
        have hlogged : ∀ label id size max,
            named.Calm (named.log (.createPool label id size max)) := fun _ _ _ _ => .log named rfl
        exact ⟨congrArg PoolId.mk hcalm.nextPool, congrArg (· + 1) hcalm.nextPool,
          hcalm.nextBuffer, hcalm.events.trans (hlogged _ _ _ _).events,
          (hlogged _ _ _ _).ran.trans hcalm.ran, rfl, rfl, fit⟩

variable {s : PoolState} {ticket : CleanupTicket} {action : CleanupAction}

/-! ### Giving back early -/

/-- **Giving a large buffer back** leaves all other sites and the cleanup records. -/
theorem free_ends {region : Region} (fit : s.Fit) :
    Ends (free region) s
      (fun _ t => s.Rests t ∧ t.pool.cleanups = s.pool.cleanups)
      (fun _ t => s.Rests t ∧ t.pool.cleanups = s.pool.cleanups) := by
  have hsame : s.Rests s ∧ s.pool.cleanups = s.pool.cleanups :=
    ⟨(PoolState.Spares.refl fit).stays.toRests, rfl⟩
  simp only [free, ends_bind, ends_getPool]
  split
  · exact hsame
  · next id hplace =>
    split
    · split
      · exact hsame
      · next buffer large htake =>
        simp only [ends_bind, ends_setPool, ends_log, ends_pure]
        have hgone : ∀ result world,
            (s.world.log (.freeLarge s.pool.label id)).release s.pool.allocator buffer =
              (result, world) →
            (s.world.log (.freeLarge s.pool.label id)).Calm world ∧ id ∈ world.freed := by
          intro result world call
          refine ⟨.release call, ?_⟩
          rw [← LargeTable.id_of_take? htake]
          -- also an attempt that fails is told
          rcases result with fault | ⟨⟩
          · obtain ⟨-, rfl, -⟩ := World.release_error call
            rw [World.freed_emit_freed]
            exact List.mem_append_right _ List.mem_cons_self
          · rw [(World.release_ok call).freed]
            exact List.mem_append_right _ List.mem_cons_self
        have hdone : ∀ result world,
            (s.world.log (.freeLarge s.pool.label id)).release s.pool.allocator buffer =
              (result, world) →
            s.Rests ⟨{ s.pool with large }, world⟩ := by
          intro result world call
          obtain ⟨hcalm, hfreed⟩ := hgone result world call
          have hcalm' := (World.Calm.log s.world rfl).trans hcalm
          refine ⟨⟨⟨rfl, fun _ block hblock => ⟨block, hblock, rfl⟩, Nat.le_refl _,
            ⟨⟨fit.sized.min, fit.sized.max⟩, fit.sound, fun held hmem => ?_⟩, hcalm'.toLater⟩, rfl,
            fun other site hsite => ?_⟩, hcalm'⟩
          · have hold := (LargeTable.buffers_take? htake).mem_iff.mpr (List.mem_cons_of_mem _ hmem)
            exact Nat.lt_of_lt_of_le (fit.numbered held hold) hcalm'.nextBuffer
          · by_cases heq : id = other
            · exact .inr (heq ▸ hfreed)
            · refine .inl ?_
              change (large.find? other).map _ = _
              rw [LargeTable.find?_take?_of_ne htake heq]
              exact hsite
        rw [ends_release]
        constructor
        · exact fun world call => ⟨hdone _ _ call, rfl⟩
        · exact fun fault world call => ⟨hdone _ _ call, rfl⟩
    · exact hsame

/-! ### Cleanup records -/

/-- **Giving a record an action.** If there is no such record, nothing happens to the pool. -/
theorem setCleanup_ends :
    Ends (setCleanup ticket action) s
      (fun _ t => (∃ record, s.pool.cleanupRecord ticket = .ok record) ∧
        t.pool =
          { s.pool with cleanups := s.pool.cleanups.setAction ticket.index (some action) } ∧
        s.world.Calm t.world)
      (fun failure t => s.pool.cleanupRecord ticket = .error failure ∧ t.pool = s.pool ∧
        s.world.Calm t.world) := by
  simp only [setCleanup, ends_bind, ends_getPool]
  split
  · next record hrecord =>
    simp only [ends_bind, ends_setPool, ends_modifyWorld]
    exact ⟨⟨record, hrecord⟩, trivial, .dropAction _ _⟩
  -- an action without a record is dropped, and the pool is not touched
  · next failure hrecord =>
    simp only [ends_bind, ends_modifyWorld, ends_throw]
    exact ⟨hrecord, trivial, .dropAction _ _⟩

/-- **Taking the action of a record away.** -/
theorem disableCleanup_ends :
    Ends (disableCleanup ticket) s
      (fun action t => (∃ record, s.pool.cleanupRecord ticket = .ok record ∧
          action = record.action) ∧
        t = { s with pool :=
          { s.pool with cleanups := s.pool.cleanups.setAction ticket.index none } })
      (fun failure t => s.pool.cleanupRecord ticket = .error failure ∧ t = s) := by
  simp only [disableCleanup, ends_bind]
  rw [ends_ofPool]
  constructor
  · intro record hrecord
    simp only [ends_getPool, ends_setPool, ends_pure]
    exact ⟨⟨record, hrecord, rfl⟩, trivial⟩
  · exact fun failure hrecord => ⟨hrecord, rfl⟩

/-- A ticket of this pool whose record was registered has a record. -/
theorem exists_cleanupRecord {pool : Pool} (hpool : ticket.pool = pool.id)
    (hindex : ticket.index < pool.cleanups.count) :
    ∃ record, pool.cleanupRecord ticket = .ok record ∧
      pool.cleanups.records[ticket.index]? = some record := by
  have hrecord := List.getElem?_eq_getElem hindex
  refine ⟨_, ?_, hrecord⟩
  rw [cleanupRecord, if_neg (not_not_intro hpool), hrecord]

/-- **Registering an action of the caller's** is registering a record and giving it the action. -/
theorem onDestroy_ends {tag : String} (fit : s.Fit) :
    Ends (onDestroy tag) s
      (fun ticket t => ∃ u, s.Spares u ∧ u.world.Calm t.world ∧
        t.pool = { u.pool with
          cleanups := (u.pool.cleanups.push ticket.data).setAction ticket.index
            (some (.custom tag)) } ∧
        ticket.pool = s.pool.id ∧ ticket.index = s.pool.cleanups.count ∧
        ∀ region ∈ ticket.data, u.pool.Houses region)
      (fun _ t => s.Spares t) := by
  simp only [onDestroy, ends_bind, ends_pure]
  refine (addCleanup_ends fit).mono (fun ticket t ht => ?_) fun _ _ ht => ht.1
  obtain ⟨u, calls, -, hspares, hcalm, hpool, howner, hindex, housed⟩ := ht
  have hcount : u.pool.cleanups.count = s.pool.cleanups.count :=
    congrArg CleanupStack.count hspares.cleanups
  refine setCleanup_ends.mono (fun _ v hv => ?_) fun failure v hv => ?_
  · obtain ⟨-, hpool', hcalm'⟩ := hv
    exact ⟨u, hspares, hcalm.trans hcalm', by rw [hpool', hpool], howner, hindex, housed⟩
  · -- the record was registered just now
    obtain ⟨herror, -, -⟩ := hv
    have howner' : ticket.pool = t.pool.id := by rw [hpool, howner, hspares.traits.id]
    have hlt : ticket.index < t.pool.cleanups.count := by
      rw [hpool, hindex]
      change _ < (u.pool.cleanups.push ticket.data).count
      rw [CleanupStack.count_push, hcount]
      exact Nat.lt_succ_self _
    obtain ⟨record, hok, -⟩ := exists_cleanupRecord howner' hlt
    rw [hok] at herror
    cases herror

/-- What is taken out of the records is the file of one of them, and only that one changes. -/
theorem exists_of_takeFile? {stack after : CleanupStack} {descriptor : Int} {file : FileRelease}
    (h : stack.takeFile? descriptor = some (file, after)) : ∃ index,
    stack.fileIndex? descriptor = some index ∧ stack.file? index = some file ∧
      after = stack.setAction index none := by
  unfold CleanupStack.takeFile? at h
  split at h
  · cases h
  · next index hindex =>
    obtain ⟨found, hfile, heq⟩ := Option.map_eq_some_iff.mp h
    obtain ⟨rfl, rfl⟩ := Prod.mk.inj heq
    exact ⟨index, hindex, hfile, rfl⟩

/-- **Running the cleanup of a file early** runs one action, if there is one. -/
theorem runFileCleanup_ends {descriptor : Int} :
    Ends (runFileCleanup descriptor) s
      (fun done t => (s.pool.cleanups.takeFile? descriptor = none ∧ done = false ∧ t = s) ∨
        ∃ file cleanups, s.pool.cleanups.takeFile? descriptor = some (file, cleanups) ∧
          done = true ∧ t = ⟨{ s.pool with cleanups }, s.world.releaseFile file⟩)
      (fun _ _ => False) := by
  simp only [runFileCleanup, ends_bind, ends_getPool]
  split
  · next hnone => exact .inl ⟨hnone, rfl, rfl⟩
  · next file cleanups htake =>
    simp only [ends_bind, ends_setPool, ends_modifyWorld, ends_pure]
    exact .inr ⟨file, cleanups, htake, trivial, rfl⟩

/-! ### Reset -/

/-- **An action on each of some items** is calm and leaves the pool if each of them does. -/
theorem forM_calm {ι : Type} {act : ι → PoolM Unit} {fail : Failure → Prop}
    (h : ∀ i s, Ends (act i) s (fun _ t => t.pool = s.pool ∧ s.world.Calm t.world)
      (fun failure t => t.pool = s.pool ∧ s.world.Calm t.world ∧ fail failure)) (items : List ι) :
    Ends (items.forM act) s (fun _ t => t.pool = s.pool ∧ s.world.Calm t.world)
      (fun failure t => t.pool = s.pool ∧ s.world.Calm t.world ∧ fail failure) := by
  induction items generalizing s with
  | nil => exact ⟨rfl, .refl _⟩
  | cons i items ih =>
    change Ends (act i >>= fun _ => items.forM act) _ _ _
    rw [ends_bind]
    refine (h i s).mono (fun _ t ht => ?_) fun _ _ ht => ht
    obtain ⟨hpool, hcalm⟩ := ht
    refine ih.mono (fun _ u hu => ?_) fun failure u hu => ?_
    · exact ⟨hu.1.trans hpool, hcalm.trans hu.2⟩
    -- a failure ends the series, and what came before it was calm as well
    · exact ⟨hu.1.trans hpool, hcalm.trans hu.2.1, hu.2.2⟩

/-- Giving a buffer back is calm, and fails only if the ledger does not list it. -/
theorem release_calm (buffer : Buffer) (s : PoolState) :
    Ends (release buffer) s (fun _ t => t.pool = s.pool ∧ s.world.Calm t.world)
      (fun failure t => t.pool = s.pool ∧ s.world.Calm t.world ∧
        ∃ id, failure = .fault (.untrackedFree id)) := by
  rw [ends_release]
  constructor
  · exact fun world call => ⟨rfl, .release call⟩
  · intro fault world call
    obtain ⟨rfl, -, -⟩ := World.release_error call
    exact ⟨rfl, .release call, _, rfl⟩

/-- **A reset** rewinds the pool and gives its large buffers back. If one of them is not taken back,
the pool has lost them all and is not rewound. -/
theorem reset_endures (fit : s.Fit) :
    Ends reset s
      (fun _ t => s.Endures t ∧ t.pool = s.pool.rewound ∧ s.world.Calm t.world ∧
        ∀ buffer ∈ s.pool.large.buffers, buffer.id ∈ t.world.freed)
      (fun failure t => s.Endures t ∧ t.pool = { s.pool with large := s.pool.large.emptied } ∧
        s.world.Calm t.world ∧ ∃ id, failure = .fault (.untrackedFree id)) := by
  have hnone : ∀ buffer ∈ s.pool.large.emptied.buffers, buffer.id.number < s.world.nextBuffer := by
    rw [LargeTable.buffers_emptied]
    exact nofun
  -- no action runs meanwhile, whether all buffers are taken back or not
  have hcalm : Ends reset s (fun _ t => t.pool = s.pool.rewound ∧ s.world.Calm t.world)
      (fun failure t => t.pool = { s.pool with large := s.pool.large.emptied } ∧
        s.world.Calm t.world ∧ ∃ id, failure = .fault (.untrackedFree id)) := by
    simp only [reset, ends_bind, ends_getPool, ends_setPool, ends_log]
    refine (forM_calm release_calm s.pool.large.buffers).mono (fun _ t ht => ?_) fun _ _ ht => ht
    obtain ⟨hpool, hcalm⟩ := ht
    obtain ⟨pool, world⟩ := t
    obtain rfl : pool = _ := hpool
    exact ⟨rfl, hcalm.trans (.log _ rfl)⟩
  -- that every large buffer was given back is told from the moves of the pool
  refine (hcalm.and (reset_ends [])).mono (fun _ t ht => ?_) fun failure t ht => ?_
  · obtain ⟨⟨hpool, hcalm⟩, world, -, hfreed, -, hquiet⟩ := ht
    refine ⟨⟨?_, fun index block hblock => ?_, ?_, ⟨?_, fun block hmem => ?_, ?_⟩, hcalm.toLater⟩,
      hpool, hcalm, fun buffer hmem => ?_⟩
    · rw [hpool]
      rfl
    · refine ⟨block.reset, ?_, rfl⟩
      rw [hpool]
      change (s.pool.chain.blocks.map Block.reset)[index]? = _
      rw [List.getElem?_map, hblock, Option.map_some]
    · rw [hpool]
      exact Nat.le_refl _
    · rw [hpool]
      exact ⟨fit.sized.min, fit.sized.max⟩
    · rw [hpool] at hmem
      obtain ⟨before, hbefore, rfl⟩ := List.mem_map.mp hmem
      exact (fit.sound before hbefore).reset
    · rw [hpool]
      exact fun buffer hmem => Nat.lt_of_lt_of_le (hnone buffer hmem) hcalm.nextBuffer
    · rw [hquiet.freed, hfreed]
      exact List.mem_append_right _ (List.mem_map_of_mem hmem)
  · obtain ⟨⟨hpool, hcalm, hfailure⟩, -⟩ := ht
    obtain ⟨pool, world⟩ := t
    obtain rfl : pool = _ := hpool
    exact ⟨⟨rfl, fun _ block hblock => ⟨block, hblock, rfl⟩, Nat.le_refl _,
      ⟨⟨fit.sized.min, fit.sized.max⟩, fit.sound, fun buffer hmem =>
        Nat.lt_of_lt_of_le (hnone buffer hmem) hcalm.nextBuffer⟩, hcalm.toLater⟩, rfl, hcalm,
      hfailure⟩

end Pool

end RegionPool
