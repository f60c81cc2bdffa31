import RegionPool.Proofs.Endurance

/-!
# What runs when a pool is destroyed

The cleanup records of a pool are run newest first, and then its buffers are given back. An action
that runs may write to the bytes of its record, which a later one may be given; so what runs is told
along the pools that it finds.

* `Pool.RunsRecord`, `Pool.Runs` — what runs of a record, and of one record after the other;
* `Ran.Of`, `Runs.actions` — every action runs once, in the order of the records;
* `Pool.Minds` — a pool knows what became of a region: its bytes are there, or they are lost;
* `destroy_unwinds` — a destruction runs the records that the pool has, before it gives anything
  back, and nothing else.
-/

namespace RegionPool

open PoolM

/-- **What ran was this action.** -/
inductive Ran.Of : Ran → CleanupAction → Prop
  | custom {tag} : Of (.custom tag) (.custom tag)
  | withData {tag bytes content} : Of (.withData tag bytes) (.withData tag content)
  | file {file} : Of (.file file) (.file file)

namespace Pool

/-! ### What runs -/

/-- **What runs of a record**, and the pool afterwards. An action that takes data is given the
bytes of the record as they are then, and writes to them; if they are lost with their buffer, or
there were none, it is given no bytes. -/
inductive RunsRecord (gone : List BufferId) (pool : Pool) :
    CleanupRecord → Option Ran → Pool → Prop
  | unarmed {data} : RunsRecord gone pool ⟨none, data⟩ none pool
  | custom {tag data} : RunsRecord gone pool ⟨some (.custom tag), data⟩ (some (.custom tag)) pool
  | file {file data} : RunsRecord gone pool ⟨some (.file file), data⟩ (some (.file file)) pool
  | bare {tag content data} (lost : ∀ region ∈ data, ∃ id ∈ gone, region.place = .large id) :
    RunsRecord gone pool ⟨some (.withData tag content), data⟩ (some (.withData tag [])) pool
  | given {tag content region store bytes} (kept : ∀ id ∈ gone, region.place ≠ .large id)
      (found : pool.content? region = some bytes)
      (stored : pool.storeOf? region.place = some store) :
    RunsRecord gone pool ⟨some (.withData tag content), some region⟩ (some (.withData tag bytes))
      (pool.overwrite store region.place.offset (content.apply bytes))

/-- **What runs of one record after the other.** -/
inductive Runs (gone : List BufferId) : Pool → List CleanupRecord → List Ran → Prop
  | nil {pool} : Runs gone pool [] []
  | cons {pool after record records ran runs} (first : RunsRecord gone pool record ran after)
      (rest : Runs gone after records runs) :
    Runs gone pool (record :: records) (ran.toList ++ runs)

/-- **A pool minds a region**: its bytes are still there, or they went with their buffer. -/
def Minds (pool : Pool) (gone : List BufferId) (region : Region) : Prop :=
  ((∃ site, pool.siteOf? region.place = some site ∧ region.FitsIn site) ∧
      ∀ id ∈ gone, region.place ≠ .large id) ∨
    ((∃ id ∈ gone, region.place = .large id) ∧ pool.siteOf? region.place = none)

variable {pool : Pool} {gone : List BufferId} {region : Region} {record : CleanupRecord}

/-- **Bytes are found whatever the generation** of their region, in the store of its place. -/
theorem bytesAnyGeneration?_eq_some_iff {store : Store} {offset : Nat} {bytes : Bytes} :
    pool.bytesAnyGeneration? region = some (store, offset, bytes) ↔
      pool.storeOf? region.place = some store ∧ offset = region.place.offset ∧
        pool.content? region = some bytes := by
  -- both ways to find a store agree with `storeOf?`, for neither looks at generations
  have hstores : pool.bytesAnyGeneration? region =
      (pool.storeOf? region.place).bind fun store =>
        ((pool.storeBuffer? store).bind fun buffer =>
          buffer.slice? region.place.offset region.length).map fun bytes =>
            (store, region.place.offset, bytes) := by
    unfold bytesAnyGeneration?
    simp only [Option.map_bind]
    cases region.place with
    | block index offset => rfl
    | large id =>
      rw [storeOf?, Option.bind_map]
      rfl
  rw [hstores, content?, bufferAt?]
  constructor
  · intro h
    obtain ⟨found, hstore, hbytes⟩ := Option.bind_eq_some_iff.mp h
    obtain ⟨read, hread, heq⟩ := Option.map_eq_some_iff.mp hbytes
    cases heq
    exact ⟨hstore, rfl, by rw [hstore]; exact hread⟩
  · rintro ⟨hstore, rfl, hread⟩
    rw [hstore] at hread ⊢
    exact Option.map_eq_some_iff.mpr ⟨bytes, hread, rfl⟩

namespace Minds

/-- **Bytes that are not found are lost.** -/
theorem lost (minds : pool.Minds gone region) (h : pool.bytesAnyGeneration? region = none) :
    ∃ id ∈ gone, region.place = .large id := by
  rcases minds with ⟨⟨site, hsite, fits⟩, -⟩ | ⟨hlost, -⟩
  · obtain ⟨bytes, hcontent⟩ := exists_content?_of_fitsIn hsite fits
    obtain ⟨buffer, hbuffer, -⟩ := content?_eq_some_iff.mp hcontent
    obtain ⟨store, hstore, -⟩ := Option.bind_eq_some_iff.mp hbuffer
    rw [bytesAnyGeneration?_eq_some_iff.mpr ⟨hstore, rfl, hcontent⟩] at h
    cases h
  · exact hlost

/-- **Bytes that are found were kept.** -/
theorem kept {bytes : Bytes} (minds : pool.Minds gone region)
    (h : pool.content? region = some bytes) : ∀ id ∈ gone, region.place ≠ .large id := by
  rcases minds with ⟨-, hkept⟩ | ⟨⟨id, -, hplace⟩, hnone⟩
  · exact hkept
  · obtain ⟨buffer, hbuffer, -⟩ := content?_eq_some_iff.mp h
    rw [hplace, bufferAt?_large] at hbuffer
    rw [hplace, siteOf?, hbuffer] at hnone
    cases hnone

/-- Writing to a store loses nothing. -/
theorem overwrite {store : Store} {offset : Nat} {bytes : Bytes}
    (minds : pool.Minds gone region) : (pool.overwrite store offset bytes).Minds gone region := by
  unfold Minds
  rwa [siteOf?_overwrite]

end Minds

/-- No action loses anything. -/
theorem RunsRecord.minds {ran : Option Ran} {after : Pool}
    (h : pool.RunsRecord gone record ran after) (minds : pool.Minds gone region) :
    after.Minds gone region := by
  cases h with
  | given => exact minds.overwrite
  | _ => exact minds

/-- **Every action runs once**, in the order of the records. -/
theorem Runs.actions {records : List CleanupRecord} {runs : List Ran}
    (h : Runs gone pool records runs) :
    List.Forall₂ Ran.Of runs (records.filterMap CleanupRecord.action) := by
  induction h with
  | nil => exact .nil
  | cons first _ ih =>
    cases first with
    | unarmed => exact ih
    | custom => exact .cons .custom ih
    | file => exact .cons .file ih
    | bare | given => exact .cons .withData ih

/-! ### Running records -/

variable {s : PoolState}

/-- **A step of the unwinding.** Nothing is given back. -/
structure Unwinds (s : PoolState) (runs : List Ran) (t : PoolState) : Prop where
  later : s.world.Later t.world
  freed : t.world.freed = s.world.freed
  ran : t.world.ran = s.world.ran ++ runs

namespace Unwinds

variable {t u : PoolState} {runs more : List Ran}

theorem trans (h : Unwinds s runs t) (h' : Unwinds t more u) : Unwinds s (runs ++ more) u where
  later := h.later.trans h'.later
  freed := h'.freed.trans h.freed
  ran := by rw [h'.ran, h.ran, List.append_assoc]

/-- An event that is not that of a buffer given back. -/
theorem emit {event : Event} {pool : Pool} (hfreed : ∀ id, event ≠ .freed id)
    (hran : event.ran?.toList = runs) : Unwinds s runs ⟨pool, s.world.emit event⟩ where
  later := .of_tells (.emit _ _) (Nat.le_refl _)
  freed := by
    refine (World.Tells.emit s.world event).filterMap_events _ |>.trans ?_
    cases event with
    | freed id => exact absurd rfl (hfreed id)
    | _ => exact List.append_nil _
  ran := by
    rw [World.ran_of_tells (.emit _ event), ← hran]
    cases hrun : event.ran? <;> simp [hrun]

/-- An entry of the log, unless it tells of a cleanup action. -/
theorem log {entry : LogEntry} (quiet : (Event.logged entry).ran? = none) :
    Unwinds s [] ⟨s.pool, s.world.log entry⟩ :=
  .emit (fun _ heq => Event.noConfusion heq) (by rw [quiet]; rfl)

end Unwinds

/-- **Running a record** runs its action, and cannot fail. -/
theorem runRecord_unwinds (gone : List BufferId) (record : CleanupRecord) :
    Ends (runRecord record) s
      (fun _ t => ∃ ran, Unwinds s ran.toList t ∧
        ((∀ region ∈ record.data, s.pool.Minds gone region) →
          s.pool.RunsRecord gone record ran t.pool))
      (fun _ _ => False) := by
  have hlogged : Unwinds s [] ⟨s.pool, s.world.log (.runCleanup s.pool.label)⟩ := .log rfl
  obtain ⟨action, data⟩ := record
  rw [runRecord]
  cases action with
  | none => exact ⟨none, ⟨.refl _, rfl, (List.append_nil _).symm⟩, fun _ => .unarmed⟩
  | some action =>
    simp only [ends_bind, ends_getPool, ends_log]
    cases action with
    | custom tag =>
      exact ⟨some _, hlogged.trans (.emit (fun _ heq => Event.noConfusion heq) rfl),
        fun _ => .custom⟩
    | file file =>
      refine ⟨some (.file file), hlogged.trans ?_, fun _ => .file⟩
      obtain ⟨hlater, hran⟩ := World.releaseFile_later (s.world.log (.runCleanup s.pool.label)) file
      exact ⟨hlater, (World.quiet_releaseFile _ file).freed, hran⟩
    | withData tag content =>
      simp only [runAction, ends_bind, ends_getPool]
      split
      · next hnone =>
        -- the action is given no bytes: its region is not found in the pool any more
        refine ⟨some _, hlogged.trans (.emit (fun _ heq => Event.noConfusion heq) rfl),
          fun minds => .bare fun region hdata => ?_⟩
        obtain rfl : data = some region := hdata
        exact (minds region rfl).lost hnone
      · next store offset bytes hsome =>
        obtain ⟨region, rfl, hfound⟩ := Option.bind_eq_some_iff.mp hsome
        obtain ⟨hstore, rfl, hcontent⟩ := bytesAnyGeneration?_eq_some_iff.mp hfound
        simp only [ends_bind, ends_modifyWorld, ends_setPool]
        exact ⟨some _, hlogged.trans (.emit (fun _ heq => Event.noConfusion heq) rfl),
          fun minds => .given ((minds region rfl).kept hcontent) hcontent hstore⟩

/-- **Running records** one after the other. -/
theorem forM_runRecord_unwinds (gone : List BufferId) (records : List CleanupRecord) :
    Ends (records.forM runRecord) s
      (fun _ t => ∃ runs, Unwinds s runs t ∧
        ((∀ record ∈ records, ∀ region ∈ record.data, s.pool.Minds gone region) →
          Runs gone s.pool records runs))
      (fun _ _ => False) := by
  induction records generalizing s with
  | nil => exact ⟨[], ⟨.refl _, rfl, (List.append_nil _).symm⟩, fun _ => .nil⟩
  | cons record records ih =>
    change Ends (runRecord record >>= fun _ => records.forM runRecord) _ _ _
    rw [ends_bind]
    refine (runRecord_unwinds gone record).mono (fun _ t ht => ?_) fun _ _ h => h
    obtain ⟨ran, hunwinds, hfirst⟩ := ht
    refine ih.mono (fun _ u hu => ?_) fun _ _ h => h
    obtain ⟨runs, hunwinds', hrest⟩ := hu
    refine ⟨_, hunwinds.trans hunwinds', fun minds => ?_⟩
    have hrun := hfirst (minds record List.mem_cons_self)
    -- what an action writes may change what the next one is given, but not what is lost
    exact .cons hrun (hrest fun other hmem region hdata =>
      hrun.minds (minds other (List.mem_cons_of_mem _ hmem) region hdata))

/-- Giving back what is held is calm, whatever is logged about it. -/
private theorem giveBack_calm {ι : Type} {entry : ι → LogEntry} {buffer : ι → Buffer}
    (quiet : ∀ i, (Event.logged (entry i)).ran? = none) (items : List ι) :
    Ends (items.forM fun i => do log (entry i); release (buffer i)) s
      (fun _ t => t.pool = s.pool ∧ s.world.Calm t.world)
      (fun _ t => t.pool = s.pool ∧ s.world.Calm t.world) := by
  -- one buffer and its log entry; the rest is the induction of `forM_calm`
  have hone : ∀ i s, Ends (do log (entry i); release (buffer i)) s
      (fun _ t => t.pool = s.pool ∧ s.world.Calm t.world)
      (fun _ t => t.pool = s.pool ∧ s.world.Calm t.world ∧ True) := by
    intro i s
    rw [ends_bind, ends_log]
    have hlogged := World.Calm.log s.world (quiet i)
    exact (release_calm (buffer i) _).mono (fun _ _ ht => ⟨ht.1, hlogged.trans ht.2⟩)
      fun _ _ ht => ⟨ht.1, hlogged.trans ht.2.1, trivial⟩
  exact (forM_calm hone items).mono (fun _ _ ht => ht) fun _ _ ht => ⟨ht.1, ht.2.1⟩

/-- **A destruction** runs the records, newest first, and then gives back what the pool holds. It
fails only if a buffer is not taken back. -/
theorem destroy_unwinds (gone : List BufferId) :
    Ends destroy s
      (fun _ t => ∃ runs u, Unwinds s runs u ∧ u.world.Calm t.world ∧
        ((∀ record ∈ s.pool.cleanups.records, ∀ region ∈ record.data, s.pool.Minds gone region) →
          Runs gone { s.pool with cleanups := {} } s.pool.cleanups.records.reverse runs))
      (fun _ t => s.world.Later t.world) := by
  simp only [destroy, runCleanups, ends_bind, ends_getPool, ends_setPool, ends_log]
  refine (forM_runRecord_unwinds gone _).mono (fun _ t ht => ?_) fun _ _ h => h.elim
  obtain ⟨runs, hrun, hruns⟩ := ht
  -- the log entry opens the destruction, before any action is run
  let entry : LogEntry := .destroyPool s.pool.label s.pool.id.text
  have hstart : Unwinds s [] ⟨s.pool, s.world.log entry⟩ := .log rfl
  have hunwinds := hstart.trans ⟨hrun.1, hrun.2, hrun.3⟩
  -- large buffers go back before the blocks, and no action is run any more
  simp only [releaseLarge, ends_bind, ends_getPool, ends_setPool]
  refine (giveBack_calm (fun _ => rfl) _).mono (fun _ v hv => ?_)
    fun _ v hv => hunwinds.later.trans hv.2.toLater
  simp only [releaseBlocks, ends_bind, ends_getPool, ends_setPool]
  refine (giveBack_calm (fun _ => rfl) _).mono (fun _ w hw => ?_)
    fun _ _ hw => hunwinds.later.trans (hv.2.trans hw.2).toLater
  exact ⟨runs, t, hunwinds, hv.2.trans hw.2, fun minds =>
    hruns fun record hmem => minds record (List.mem_reverse.mp hmem)⟩

end Pool

end RegionPool
