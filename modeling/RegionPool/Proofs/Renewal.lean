import RegionPool.Proofs.Bounds
import RegionPool.Proofs.Comparison

/-!
# A reset makes a pool new

After a reset nothing is left of what a pool went through before, except for the number of its
blocks and of its slots for large buffers. Two pools that were just reset and are alike in these
numbers and in their configuration cannot be told apart: whatever is done with both of them, as long
as their raw allocators give the same answers, both do the same. They do it under different names,
so it is compared in names that count from the reset.

* `Errand` — what is done with a pool and with what it handed out since its reset;
* `Session.report` — what comes of a series of errands: the replies, the regions, the bytes of
  cleanup records, the calls to the raw allocator and the figures of the pool;
* `Abreast`, `Abreast.exec`, `Abreast.run` — two callers whose pools are twins and who hold the same
  regions, after one errand and after a series;
* `Session.Renewed`, `Session.run_renews` — pools that were just reset, whatever came before.
-/

namespace RegionPool

open PoolM

/-! ### Errands and what is seen of them -/

/-- **One thing that is done with a pool** and with what was kept since an origin. Regions and
tickets are named by their number since then. -/
inductive Errand where
  | alloc (size : Nat)
  | allocUnaligned (size : Nat)
  | allocAlignedTo (size align : Nat)
  | free (region : Nat)
  | addCleanup (dataSize : Nat)
  /-- Keep the region of a cleanup record. -/
  | holdCleanupRegion (ticket : Nat)
  /-- Keep a copy of a region, for instance of one that is to be lengthened. -/
  | keepCopy (region : Nat)
  | extend (region additional : Nat)
  | reclaim (region : Nat)
  | reset
  deriving Repr, DecidableEq

/-- The command of a caller who has the pool in a slot. -/
def Errand.command (slot : Nat) (o : Origin) : Errand → Command
  | .alloc size => .alloc slot size
  | .allocUnaligned size => .allocUnaligned slot size
  | .allocAlignedTo size align => .allocAlignedTo slot size align
  | .free region => .free slot (o.regionCount + region)
  | .addCleanup dataSize => .addCleanup slot dataSize
  | .holdCleanupRegion ticket => .holdCleanupRegion (o.ticketCount + ticket)
  | .keepCopy region => .keepCopy (o.regionCount + region)
  | .extend region additional => .extend slot (o.regionCount + region) additional
  | .reclaim region => .reclaim slot (o.regionCount + region)
  | .reset => .reset slot

/-- A reply in names that count from an origin. -/
inductive Seen where
  | region (number : ℤ)
  | ticket (number : ℤ)
  | refused (complaint : Complaint)
  | other (reply : Reply)
  deriving Repr, DecidableEq

/-- The figures of a pool that a caller can ask for. -/
structure Figures where
  stats : List BlockStats
  current : Nat
  blockCount : Nat
  largeCount : Nat
  largeLive : Nat
  deriving Repr, DecidableEq

/-- **What comes of a series of errands**, in names that count from an origin. -/
structure Report where
  replies : List Seen
  /-- The regions that are held, longer ones in the place of those that were lengthened. -/
  regions : List Sight
  /-- The bytes that cleanup records own. -/
  records : List (Option Sight)
  calls : List Call
  figures : Option Figures
  deriving Repr, DecidableEq

/-- What the raw allocator answered. -/
def Report.answers (report : Report) : List Bool := report.calls.filterMap Call.answer?

/-- The figures of a pool. -/
def Pool.figures (pool : Pool) : Figures where
  stats := pool.chain.stats
  current := pool.chain.current
  blockCount := pool.blockCount
  largeCount := pool.large.count
  largeLive := pool.large.live

namespace Origin

/-- How a reply looks from the origin. -/
def seen (o : Origin) : Reply → Seen
  | .region slot => .region (slot - o.regionCount)
  | .ticket slot => .ticket (slot - o.ticketCount)
  | .failed (.refused error) => .refused (o.complaint error)
  | reply => .other reply

/-- The regions that a caller kept since the origin. -/
def regions (o : Origin) (s : Session) : List Sight := (s.regions.drop o.regionCount).map o.sight

/-- The bytes of the cleanup records whose tickets a caller kept since the origin. -/
def records (o : Origin) (s : Session) : List (Option Sight) :=
  (s.tickets.drop o.ticketCount).map fun ticket => ticket.data.map o.sight

end Origin

namespace Session

/-- The present as an origin, for a caller and one of its pools. -/
def origin (s : Session) (pool : Pool) : Origin where
  pool := pool.id
  generation := pool.generation
  nextBuffer := s.world.nextBuffer
  callCount := s.world.rawCalls.length
  regionCount := s.regions.length
  ticketCount := s.tickets.length

/-- **What comes of a series of errands** with the pool in a slot, as it looks from an origin. -/
def report (s : Session) (slot : Nat) (o : Origin) (errands : List Errand) : Report :=
  let (replies, after) := s.run (errands.map (·.command slot o))
  { replies := replies.map o.seen
    regions := o.regions after
    records := o.records after
    calls := o.calls after.world
    figures := (after.pool? slot).map Pool.figures }

/-- **A caller has just reset a pool**, after a history of commands that could be given. -/
structure Renewed (s : Session) (slot : Nat) (pool : Pool) : Prop where
  here : s.pool? slot = some pool
  reset : ∃ heap history, (Session.ofHeap heap).AdmitsAll history ∧
    ((Session.ofHeap heap).run history).2.exec (.reset slot) = (.done, s)

end Session

/-! ### Two callers -/

section Abreast

variable (o o' : Origin) (slot slot' : Nat)

/-- **Two callers are abreast**: their pools are twins, and what they kept since the origins looks
the same. -/
structure Abreast (s s' : Session) : Prop where
  twins : ∃ pool pool', s.pool? slot = some pool ∧ s'.pool? slot' = some pool' ∧
    Twins o o' ⟨pool, s.world⟩ ⟨pool', s'.world⟩
  regions : o'.regions s' = o.regions s
  records : o'.records s' = o.records s
  regionCount : o.regionCount ≤ s.regions.length
  regionCount' : o'.regionCount ≤ s'.regions.length
  ticketCount : o.ticketCount ≤ s.tickets.length
  ticketCount' : o'.ticketCount ≤ s'.tickets.length

/-- Two callers got the same reply and are abreast. -/
structure Alongside (x y : Reply × Session) : Prop where
  reply : o'.seen y.1 = o.seen x.1
  abreast : Abreast o o' slot slot' x.2 y.2

/-- **Two commands are in step**: if the raw allocators gave the same answers and no rule was
broken, the callers got the same reply and are abreast. -/
def InStep (x y : Reply × Session) : Prop :=
  Agree (o.answers x.2.world) (o'.answers y.2.world) → x.1.Faultless → y.1.Faultless →
    Alongside o o' slot slot' x y

end Abreast

variable {o o' : Origin} {slot slot' : Nat} {s s' : Session} {α β : Type}

/-- After an action performed, the world is as the action left it. -/
private theorem Session.world_perform {pool : Pool} {action : PoolM α}
    {next : α → Session → Reply × Session} (here : s.pool? slot = some pool)
    (hworld : ∀ a t, (next a t).2.world = t.world) :
    (s.perform slot action next).2.world = (finish action ⟨pool, s.world⟩).world := by
  rw [perform, here, withFound]
  cases run : action ⟨pool, s.world⟩ with
  | ok a t =>
    rw [finish_of_ok run]
    exact hworld a _
  | error failure t =>
    rw [finish_of_error run]
    rfl

section Kept

variable {γ : Type} {f : α → γ} {g : β → γ} {kept : List α} {kept' : List β} {n n' : Nat}

/-- As many were kept since the one origin as since the other. -/
private theorem number_of_kept (h : (kept'.drop n').map g = (kept.drop n).map f)
    (hle : n ≤ kept.length) (hle' : n' ≤ kept'.length) :
    (kept'.length : ℤ) - n' = kept.length - n := by
  have hlength := congrArg List.length h
  simp only [List.length_map, List.length_drop] at hlength
  omega

/-- One more is kept. -/
private theorem kept_append {a : α} {b : β} (h : (kept'.drop n').map g = (kept.drop n).map f)
    (hle : n ≤ kept.length) (hle' : n' ≤ kept'.length) (hnew : g b = f a) :
    ((kept' ++ [b]).drop n').map g = ((kept ++ [a]).drop n).map f := by
  rw [List.drop_append_of_le_length hle, List.drop_append_of_le_length hle', List.map_append,
    List.map_append, h]
  exact congrArg (fun new => (kept.drop n).map f ++ [new]) hnew

end Kept

namespace Abreast

variable {region region' : Region} {ticket ticket' : CleanupTicket}

/-- Regions of the same number look the same. -/
private theorem region? (abreast : Abreast o o' slot slot' s s') (number : Nat) :
    (s'.region? (o'.regionCount + number)).map o'.sight =
      (s.region? (o.regionCount + number)).map o.sight := by
  have hregions := congrArg (·[number]?) abreast.regions
  simp only [Origin.regions, List.getElem?_map, List.getElem?_drop] at hregions
  exact hregions

/-- So do the bytes of records of the same number. -/
private theorem ticket? (abreast : Abreast o o' slot slot' s s') (number : Nat) :
    (s'.ticket? (o'.ticketCount + number)).map (fun ticket => ticket.data.map o'.sight) =
      (s.ticket? (o.ticketCount + number)).map fun ticket => ticket.data.map o.sight := by
  have hrecords := congrArg (·[number]?) abreast.records
  simp only [Origin.records, List.getElem?_map, List.getElem?_drop] at hrecords
  exact hrecords

/-- Both callers keep a region. -/
private theorem keepRegion (abreast : Abreast o o' slot slot' s s')
    (h : o'.sight region' = o.sight region) :
    Alongside o o' slot slot' (s.keepRegion region) (s'.keepRegion region') where
  reply := congrArg Seen.region
    (number_of_kept abreast.regions abreast.regionCount abreast.regionCount')
  abreast :=
    { abreast with
      regions := kept_append abreast.regions abreast.regionCount abreast.regionCount' h
      regionCount := abreast.regionCount.trans (List.prefix_append _ _).length_le
      regionCount' := abreast.regionCount'.trans (List.prefix_append _ _).length_le }

/-- Both callers keep a ticket. -/
private theorem keepTicket (abreast : Abreast o o' slot slot' s s')
    (h : ticket'.data.map o'.sight = ticket.data.map o.sight) :
    Alongside o o' slot slot' (s.keepTicket ticket) (s'.keepTicket ticket') where
  reply := congrArg Seen.ticket
    (number_of_kept abreast.records abreast.ticketCount abreast.ticketCount')
  abreast :=
    { abreast with
      records := kept_append (f := fun ticket : CleanupTicket => ticket.data.map o.sight)
        abreast.records abreast.ticketCount abreast.ticketCount' h
      ticketCount := abreast.ticketCount.trans (List.prefix_append _ _).length_le
      ticketCount' := abreast.ticketCount'.trans (List.prefix_append _ _).length_le }

/-- Both callers exchange the region of a number for another. -/
private theorem setRegion (abreast : Abreast o o' slot slot' s s') (number : Nat)
    (h : o'.sight region' = o.sight region) :
    Abreast o o' slot slot' (s.setRegion (o.regionCount + number) region)
      (s'.setRegion (o'.regionCount + number) region') := by
  have hset : ∀ (o : Origin) (s : Session) (region : Region),
      o.regions (s.setRegion (o.regionCount + number) region) =
        (o.regions s).set number (o.sight region) := by
    intro o s region
    -- the new numbers follow the old ones, so dropping those leaves a list to set in
    rw [Origin.regions, Origin.regions, ← List.map_set]
    refine congrArg (List.map o.sight) ?_
    show (s.regions.set _ region).drop _ = _
    rw [List.drop_set, if_neg (Nat.not_lt.mpr (Nat.le_add_right _ _)), Nat.add_sub_cancel_left]
  refine { abreast with regions := ?_, regionCount := ?_, regionCount' := ?_ }
  · rw [hset, hset, abreast.regions, h]
  · exact abreast.regionCount.trans (Nat.le_of_eq List.length_set.symm)
  · exact abreast.regionCount'.trans (Nat.le_of_eq List.length_set.symm)

/-- **Actions that are paired** are in step, if what follows is. -/
private theorem perform {action : PoolM α} {other : PoolM β} {same : α → β → Prop}
    {next : α → Session → Reply × Session} {next' : β → Session → Reply × Session}
    (abreast : Abreast o o' slot slot' s s')
    (paired : ∀ {t v}, Twins o o' t v → Paired o o' action other same t v)
    (hworld : ∀ a t, (next a t).2.world = t.world) (hworld' : ∀ b t, (next' b t).2.world = t.world)
    (hnext : ∀ a b t t', same a b → Abreast o o' slot slot' t t' →
      Alongside o o' slot slot' (next a t) (next' b t')) :
    InStep o o' slot slot' (s.perform slot action next) (s'.perform slot' other next') := by
  obtain ⟨pool, pool', here, here', twins⟩ := abreast.twins
  have hsettle : ∀ {t v : PoolState}, Twins o o' t v →
      Abreast o o' slot slot' (s.settle slot t) (s'.settle slot' v) := fun twins' =>
    { abreast with
      twins := ⟨_, _, Session.pool?_settle_self here _, Session.pool?_settle_self here' _, twins'⟩ }
  have hpaired := paired twins
  intro agree sound sound'
  rw [Session.world_perform here hworld, Session.world_perform here' hworld'] at agree
  have hmatches := hpaired agree
  -- the worlds agree on what was refused, so the two results match
  rw [Session.perform, here, Session.withFound] at sound ⊢
  rw [Session.perform, here', Session.withFound] at sound' ⊢
  generalize action ⟨pool, s.world⟩ = result at hmatches sound ⊢
  generalize other ⟨pool', s'.world⟩ = result' at hmatches sound' ⊢
  cases hmatches with
  | results related twins' => exact hnext _ _ _ _ related (hsettle twins')
  | refusals alike twins' => exact ⟨congrArg Seen.refused alike, hsettle twins'⟩
  -- no fault can come up in a sound session
  | fault => exact sound.elim
  | fault' => exact sound'.elim

/-- What is found in the one place is found in the other. -/
private theorem withFound {γ : Type} {found : Option α} {found' : Option β} {f : α → γ} {g : β → γ}
    {next : α → Reply × Session} {next' : β → Reply × Session}
    (abreast : Abreast o o' slot slot' s s') (h : found'.map g = found.map f)
    (hnext : ∀ a b, g b = f a → InStep o o' slot slot' (next a) (next' b)) :
    InStep o o' slot slot' (s.withFound found next) (s'.withFound found' next') := by
  obtain ⟨rfl, rfl⟩ | ⟨a, b, rfl, rfl, heq⟩ := cases_of_map_eq h
  · exact fun _ _ _ => ⟨rfl, abreast⟩
  · exact hnext a b heq

/-- **Every errand** is in step. -/
theorem exec (abreast : Abreast o o' slot slot' s s') (errand : Errand) :
    InStep o o' slot slot' (s.exec (errand.command slot o))
      (s'.exec (errand.command slot' o')) := by
  have hregion : ∀ {action other : PoolM Region},
      (∀ {t v}, Twins o o' t v → Paired o o' action other (SameSight o o') t v) →
      InStep o o' slot slot' (s.allocate slot action) (s'.allocate slot' other) := fun paired =>
    abreast.perform paired (fun _ _ => rfl) (fun _ _ => rfl)
      fun _ _ _ _ hsight abreast' => abreast'.keepRegion hsight
  cases errand with
  | alloc size => exact hregion Pool.allocWith_paired
  | allocUnaligned size => exact hregion Pool.allocWith_paired
  | allocAlignedTo size align => exact hregion Pool.allocAlignedTo_paired
  | free number =>
    refine abreast.withFound (abreast.region? number) fun region region' hsight => ?_
    exact abreast.perform (Pool.free_paired · hsight) (fun _ _ => rfl) (fun _ _ => rfl)
      fun status _ _ _ hstatus abreast' => ⟨hstatus ▸ rfl, abreast'⟩
  | addCleanup dataSize =>
    exact abreast.perform Pool.addCleanup_paired (fun _ _ => rfl) (fun _ _ => rfl)
      fun _ _ _ _ hdata abreast' => abreast'.keepTicket hdata
  | holdCleanupRegion number =>
    refine abreast.withFound (abreast.ticket? number) fun ticket ticket' hdata => ?_
    obtain ⟨hnone, hnone'⟩ | ⟨region, region', hsome, hsome', hsight⟩ := cases_of_map_eq hdata
    · rw [hnone, hnone']
      exact fun _ _ _ => ⟨rfl, abreast⟩
    · rw [hsome, hsome']
      exact fun _ _ _ => abreast.keepRegion hsight
  | keepCopy number =>
    exact abreast.withFound (abreast.region? number) fun region region' hsight _ _ _ =>
      abreast.keepRegion hsight
  | extend number additional =>
    refine abreast.withFound (abreast.region? number) fun region region' hsight => ?_
    refine abreast.perform (Pool.extend_paired · hsight) ?_ ?_ ?_
    · intro longer _
      cases longer <;> rfl
    · intro longer _
      cases longer <;> rfl
    · -- both regions are lengthened or neither is, and their new lengths are the same
      intro longer longer' t t' hlonger abreast'
      obtain ⟨rfl, rfl⟩ | ⟨long, long', rfl, rfl, hlong⟩ := cases_of_map_eq hlonger
      · exact ⟨congrArg (fun sight : Sight => Seen.other (.extended false sight.length)) hsight,
          abreast'⟩
      · exact ⟨congrArg (fun sight : Sight => Seen.other (.extended true sight.length)) hlong,
          abreast'.setRegion number hlong⟩
  | reclaim number =>
    refine abreast.withFound (abreast.region? number) fun region region' hsight => ?_
    exact abreast.perform (Pool.reclaim_paired · hsight) (fun _ _ => rfl) (fun _ _ => rfl)
      fun done _ _ _ hdone abreast' => ⟨hdone ▸ rfl, abreast'⟩
  | reset =>
    exact abreast.perform Pool.reset_paired (fun _ _ => rfl) (fun _ _ => rfl)
      fun _ _ _ _ _ abreast' => ⟨rfl, abreast'⟩

end Abreast

/-! ### A series of errands -/

namespace Session

variable {taken : List Holding}

/-- An errand is a command that can always be given, and breaks no rule. -/
private theorem Sheltered.errand (sheltered : s.Sheltered taken) (slot : Nat) (o : Origin)
    (errand : Errand) :
    (s.exec (errand.command slot o)).1.Faultless ∧
      (s.exec (errand.command slot o)).2.Sheltered (s.takes taken (errand.command slot o)) := by
  have admitted : s.Admits (errand.command slot o) := by cases errand <;> trivial
  refine ⟨?_, sheltered.exec admitted⟩
  -- an errand copies no bytes and frees nothing by hand, and nothing else can fault
  have hfaults : ∀ fault, ¬s.Faults (errand.command slot o) fault := by
    intro fault faults
    cases errand <;> cases faults
  unfold Reply.Faultless
  split
  · next fault hreply =>
    exact hfaults fault ((exec_fault_iff sheltered.guarded sheltered.shaped sheltered.accounted
      admitted).mp hreply)
  · trivial

/-- An action performed takes nothing back of what was told. -/
private theorem events_perform {action : PoolM α} {next : α → Session → Reply × Session}
    (remembers : Remembers action) (hworld : ∀ a t, (next a t).2.world = t.world) :
    s.world.events <+: (s.perform slot action next).2.world.events := by
  cases here : s.pool? slot with
  | none =>
    rw [perform, here, withFound]
  | some pool =>
    rw [world_perform here hworld]
    exact remembers ⟨pool, s.world⟩

/-- So does an errand. -/
private theorem events_errand (errand : Errand) :
    s.world.events <+: (s.exec (errand.command slot o)).2.world.events := by
  have hfound : ∀ {α : Type} {found : Option α} {next : α → Reply × Session},
      (∀ a, s.world.events <+: (next a).2.world.events) →
      s.world.events <+: (s.withFound found next).2.world.events := fun hnext =>
    withFound_ends (Q := fun result => s.world.events <+: result.2.world.events) List.prefix_rfl
      fun a _ => hnext a
  -- every errand is an action on the pool, or only concerns what the caller keeps
  cases errand with
  | alloc size => exact events_perform Pool.allocWith_remembers fun _ _ => rfl
  | allocUnaligned size => exact events_perform Pool.allocWith_remembers fun _ _ => rfl
  | allocAlignedTo size align => exact events_perform Pool.allocAlignedTo_remembers fun _ _ => rfl
  | free number => exact hfound fun _ => events_perform Pool.free_remembers fun _ _ => rfl
  | addCleanup dataSize => exact events_perform Pool.addCleanup_remembers fun _ _ => rfl
  | holdCleanupRegion number =>
    refine hfound fun ticket => ?_
    split <;> exact List.prefix_rfl
  | keepCopy number => exact hfound fun _ => List.prefix_rfl
  | extend number additional =>
    refine hfound fun _ => events_perform .onPool fun longer _ => ?_
    cases longer <;> rfl
  | reclaim number => exact hfound fun _ => events_perform .onPool fun _ _ => rfl
  | reset => exact events_perform Pool.reset_remembers fun _ _ => rfl

private theorem events_errands (errands : List Errand) :
    s.world.events <+: (s.run (errands.map (·.command slot o))).2.world.events := by
  induction errands generalizing s with
  | nil => exact List.prefix_rfl
  | cons errand errands ih => exact (events_errand errand).trans ih

end Session

/-- **A series of errands** is in step: the callers get the same replies and are abreast. -/
theorem Abreast.run {taken taken' : List Holding} (abreast : Abreast o o' slot slot' s s')
    (sheltered : s.Sheltered taken) (sheltered' : s'.Sheltered taken') (errands : List Errand)
    (agree : Agree (o.answers (s.run (errands.map (·.command slot o))).2.world)
      (o'.answers (s'.run (errands.map (·.command slot' o'))).2.world)) :
    (s'.run (errands.map (·.command slot' o'))).1.map o'.seen =
        (s.run (errands.map (·.command slot o))).1.map o.seen ∧
      Abreast o o' slot slot' (s.run (errands.map (·.command slot o))).2
        (s'.run (errands.map (·.command slot' o'))).2 := by
  induction errands generalizing s s' taken taken' with
  | nil => exact ⟨rfl, abreast⟩
  | cons errand errands ih =>
    obtain ⟨sound, hafter⟩ := sheltered.errand slot o errand
    obtain ⟨sound', hafter'⟩ := sheltered'.errand slot' o' errand
    -- the answers agree at the end, so they did after the first errand
    have hagree := agree.of_prefix (Origin.answers_prefix (Session.events_errands errands))
      (Origin.answers_prefix (Session.events_errands errands))
    obtain ⟨hreply, abreast'⟩ := abreast.exec errand hagree sound sound'
    obtain ⟨hreplies, hlast⟩ := ih abreast' hafter hafter' agree
    exact ⟨congrArg₂ List.cons hreply hreplies, hlast⟩

/-! ### Pools that were just reset -/

/-- Twins show the same figures. -/
theorem Twins.figures {t v : PoolState} (twins : Twins o o' t v) :
    v.pool.figures = t.pool.figures := by
  have hstats : v.pool.chain.stats = t.pool.chain.stats := by
    rw [← Chain.stats_bare, twins.chain, Chain.stats_bare]
  have hcurrent : v.pool.chain.bare.current = t.pool.chain.bare.current :=
    congrArg Chain.current twins.chain
  change v.pool.chain.current = t.pool.chain.current at hcurrent
  rw [Pool.figures, Pool.figures, hstats, hcurrent, twins.blockCount,
    LargeTable.count_congr twins.slots, LargeTable.live_congr twins.slots]

namespace Session

variable {pool pool' : Pool}

/-- **What a reset leaves**: a pool whose blocks and slots are all empty. -/
private theorem Renewed.rewound (renewed : s.Renewed slot pool) :
    (∃ before : Pool, before.Uniform ∧ pool = before.rewound) ∧ ∃ taken, s.Sheltered taken := by
  obtain ⟨here, heap, history, admitted, hreset⟩ := renewed
  have sheltered := (Sheltered.ofHeap heap).run admitted
  have hafter : (((Session.ofHeap heap).run history).2.exec (.reset slot)).2 = s :=
    congrArg Prod.snd hreset
  have resettable : ((Session.ofHeap heap).run history).2.Admits (.reset slot) := trivial
  refine ⟨?_, _, hafter ▸ sheltered.exec resettable⟩
  rcases reset_ends (s := ((Session.ofHeap heap).run history).2) slot with
    ⟨-, hnot⟩ | ⟨before, world, t, hbefore, -, -, hpool, -, hrun⟩
  -- the last command was a reset that was done, so the slot holds what it left
  · exact absurd (congrArg Prod.fst hreset) hnot
  · refine ⟨before, run_uniform heap history hbefore, ?_⟩
    rw [hrun] at hafter
    rw [← hafter, pool?_settle_self hbefore] at here
    exact (Option.some.inj here).symm.trans hpool

/-- A pool that was just reset has reached no age yet. -/
private theorem age_rewound (s : Session) (pool : Pool) :
    (s.origin pool.rewound).age pool.rewound.generation = 0 := by
  have hlt : pool.rewound.generation < 2 ^ (32 : Nat) := Nat.mod_lt _ (by decide)
  show ((pool.rewound.generation : ℤ) - pool.rewound.generation) % 2 ^ (32 : Nat) +
    pool.rewound.generation / 2 ^ (32 : Nat) * 2 ^ (32 : Nat) = 0
  omega

/-- All of its slots for large buffers are empty. -/
private theorem slots_rewound (o : Origin) (pool : Pool) :
    o.slots pool.rewound.large = List.replicate pool.rewound.large.count none := by
  show o.slots pool.large.emptied = List.replicate pool.large.emptied.count none
  rw [LargeTable.slots_emptied, LargeTable.count_emptied]

/-- At its origin no raw allocator was called yet. -/
private theorem calls_origin (s : Session) (pool : Pool) :
    (s.origin pool).calls s.world = [] := by
  show (s.world.rawCalls.drop s.world.rawCalls.length).filterMap _ = []
  rw [List.drop_length]
  rfl

/-- Nor was a region kept. -/
private theorem regions_origin (s : Session) (pool : Pool) : (s.origin pool).regions s = [] := by
  show (s.regions.drop s.regions.length).map _ = []
  rw [List.drop_length]
  rfl

/-- Nor was a record. -/
private theorem records_origin (s : Session) (pool : Pool) : (s.origin pool).records s = [] := by
  show (s.tickets.drop s.tickets.length).map _ = []
  rw [List.drop_length]
  rfl

/-- **Pools that were just reset are twins**, if they have the same configuration and as many blocks
and slots. -/
private theorem Renewed.abreast (renewed : s.Renewed slot pool) (renewed' : s'.Renewed slot' pool')
    (blockSize : pool'.blockSize = pool.blockSize) (max : pool'.max = pool.max)
    (blockCount : pool'.blockCount = pool.blockCount)
    (largeCount : pool'.large.count = pool.large.count) :
    Abreast (s.origin pool) (s'.origin pool') slot slot' s s' := by
  -- both are some pool as a reset leaves it, so all that differed before is gone
  obtain ⟨⟨before, uniform, rfl⟩, -⟩ := renewed.rewound
  obtain ⟨⟨before', uniform', rfl⟩, -⟩ := renewed'.rewound
  have hcount : before'.blockCount = before.blockCount := by
    have hlength : ∀ pool : Pool, pool.rewound.blockCount = pool.blockCount := fun pool =>
      pool.chain.length_blocks_reset
    rwa [hlength, hlength] at blockCount
  refine
    { twins := ⟨_, _, renewed.here, renewed'.here, ?_⟩
      regions := (regions_origin _ _).trans (regions_origin _ _).symm
      records := (records_origin _ _).trans (records_origin _ _).symm
      regionCount := Nat.le_refl _
      regionCount' := Nat.le_refl _
      ticketCount := Nat.le_refl _
      ticketCount' := Nat.le_refl _ }
  exact
    { id := rfl
      id' := rfl
      age := (age_rewound _ _).trans (age_rewound _ _).symm
      chain := uniform.bare_rewound uniform' blockSize hcount
      blockSize
      max
      slots := by rw [slots_rewound, slots_rewound, largeCount]
      nextBuffer := (Int.sub_self _).trans (Int.sub_self _).symm
      calls := (calls_origin _ _).trans (calls_origin _ _).symm
      started := Nat.le_refl _
      started' := Nat.le_refl _ }

/-- **After a reset, the past of a pool no longer shows.** Of two pools with the same configuration,
just reset, with as many blocks and as many slots for large buffers, the same comes of every series
of errands, if the raw allocators grant and refuse the same requests. -/
theorem run_renews (renewed : s.Renewed slot pool) (renewed' : s'.Renewed slot' pool')
    (blockSize : pool'.blockSize = pool.blockSize) (max : pool'.max = pool.max)
    (blockCount : pool'.blockCount = pool.blockCount)
    (largeCount : pool'.large.count = pool.large.count) (errands : List Errand)
    (agree : Agree (s.report slot (s.origin pool) errands).answers
      (s'.report slot' (s'.origin pool') errands).answers) :
    s'.report slot' (s'.origin pool') errands = s.report slot (s.origin pool) errands ∧
      (s.report slot (s.origin pool) errands).figures.isSome := by
  obtain ⟨-, taken, sheltered⟩ := renewed.rewound
  obtain ⟨-, taken', sheltered'⟩ := renewed'.rewound
  have abreast := renewed.abreast renewed' blockSize max blockCount largeCount
  -- they stay abreast to the end, and what is reported is what that compares
  obtain ⟨hreplies, hlast⟩ := abreast.run sheltered sheltered' errands agree
  obtain ⟨last, last', here, here', twins⟩ := hlast.twins
  refine ⟨?_, ?_⟩
  · simp only [report, hreplies, hlast.regions, hlast.records, twins.calls, here, here',
      Option.map_some, twins.figures]
  · simp only [report, here, Option.map_some, Option.isSome_some]

/-- Whether a caller has just reset a pool can be checked by carrying the commands out. -/
private theorem renewed_of_done {heap : Heap} {history : List Command}
    (admitted : (Session.ofHeap heap).AdmitsAll history)
    (done : (((Session.ofHeap heap).run history).2.exec (.reset slot)).1 = .done)
    (here : (((Session.ofHeap heap).run history).2.exec (.reset slot)).2.pool? slot = some pool) :
    (((Session.ofHeap heap).run history).2.exec (.reset slot)).2.Renewed slot pool :=
  ⟨here, heap, history, admitted, Prod.ext done rfl⟩

/-- A heap that refuses one request, the one of this number. -/
def balkyHeap (refused : Nat) : Heap where
  place request _ _ := if request = refused then none else some (4096 * (request + 1))

/-- A pool gets a second block and a large buffer. -/
def plainHistory : List Command :=
  [.createPool { size := 256 } none, .alloc 0 100, .alloc 0 100, .alloc 0 500]

/-- The second one of two pools gets cleanup records and buffers from an allocator whose memory is
not zero. It is reset on the way. -/
def eventfulHistory : List Command :=
  [.addAllocator .dirty, .createPool {} none, .createPool { size := 256 } (some ⟨0⟩),
    .alloc 0 9000, .alloc 1 150, .addCleanup 1 24, .allocAlignedTo 1 40 64, .reset 1,
    .allocUnaligned 1 3, .alloc 1 700]

/-- The caller of the first history has reset its pool. -/
def plainSession : Session :=
  (((ofHeap (balkyHeap 6)).run plainHistory).2.exec (.reset 0)).2

/-- The caller of the second history has reset its second pool. -/
def eventfulSession : Session :=
  (((ofHeap (balkyHeap 9)).run eventfulHistory).2.exec (.reset 1)).2

/-- Errands of all kinds, with a reset on the way. One request is refused. -/
def variedErrands : List Errand :=
  [.alloc 24, .keepCopy 0, .extend 0 8, .reclaim 1, .reclaim 0, .alloc 500, .allocAlignedTo 40 64,
    .addCleanup 16, .holdCleanupRegion 0, .free 2, .allocUnaligned 3, .allocAlignedTo 8 3,
    .alloc 150, .alloc 100, .alloc 160, .reset, .extend 0 1, .alloc 600, .free 3,
    .allocAlignedTo 40 32, .alloc 200]

theorem run_renews_variedErrands : ∃ pool pool', plainSession.Renewed 0 pool ∧
    eventfulSession.Renewed 1 pool' ∧ pool'.blockSize = pool.blockSize ∧ pool'.max = pool.max ∧
    pool'.blockCount = pool.blockCount ∧ pool'.large.count = pool.large.count ∧
    (plainSession.report 0 (plainSession.origin pool) variedErrands).answers =
      [true, true, true, false, true, true] ∧
    (eventfulSession.report 1 (eventfulSession.origin pool') variedErrands).answers =
      [true, true, true, false, true, true] ∧
    eventfulSession.report 1 (eventfulSession.origin pool') variedErrands =
      plainSession.report 0 (plainSession.origin pool) variedErrands := by
  have hfirst : (plainSession.pool? 0).isSome := by decide +kernel
  have hsecond : (eventfulSession.pool? 1).isSome := by decide +kernel
  obtain ⟨pool, here⟩ := Option.isSome_iff_exists.mp hfirst
  obtain ⟨pool', here'⟩ := Option.isSome_iff_exists.mp hsecond
  have renewed : plainSession.Renewed 0 pool :=
    renewed_of_done (by decide +kernel) (by decide +kernel) here
  have renewed' : eventfulSession.Renewed 1 pool' :=
    renewed_of_done (by decide +kernel) (by decide +kernel) here'
  -- the equations and the answers are computed for the two sessions as they are
  have halike : ∀ pool ∈ plainSession.pool? 0, ∀ pool' ∈ eventfulSession.pool? 1,
      pool'.blockSize = pool.blockSize ∧ pool'.max = pool.max ∧
        pool'.blockCount = pool.blockCount ∧ pool'.large.count = pool.large.count := by
    decide +kernel
  obtain ⟨blockSize, max, blockCount, largeCount⟩ := halike pool here pool' here'
  have hanswers : ∀ pool ∈ plainSession.pool? 0,
      (plainSession.report 0 (plainSession.origin pool) variedErrands).answers =
        [true, true, true, false, true, true] := by decide +kernel
  have hanswers' : ∀ pool ∈ eventfulSession.pool? 1,
      (eventfulSession.report 1 (eventfulSession.origin pool) variedErrands).answers =
        [true, true, true, false, true, true] := by decide +kernel
  have agree : Agree (plainSession.report 0 (plainSession.origin pool) variedErrands).answers
      (eventfulSession.report 1 (eventfulSession.origin pool') variedErrands).answers := by
    rw [hanswers pool here, hanswers' pool' here']
    exact .inl List.prefix_rfl
  have hreport :=
    run_renews renewed renewed' blockSize max blockCount largeCount variedErrands agree
  exact ⟨pool, pool', renewed, renewed', blockSize, max, blockCount, largeCount,
    hanswers pool here, hanswers' pool' here', hreport.1⟩

end Session

end RegionPool
