import RegionPool.Proofs.Turns

/-!
# What comes of a shortage of memory

A request may be refused by the raw allocator at any point: for a large buffer, for a block, for
the block that the record of a large buffer goes to. Nothing of it is left then but the refusal,
which is handed on to the caller. And there is no other reason to fail, except for an alignment
that is none: one new block always has room for what it was made for.

* `Demand` — the allocations of a caller, and `Demand.ends`, what comes of them;
* `Session.run_declines` — an allocation that fails, after any history, leaves everything as it was;
* `Session.run_suffices` — an allocation, after any history, makes no more calls than it needs, and
  fails for no reason of its own.
-/

namespace RegionPool

open PoolM

/-- **The allocations of a caller.** -/
inductive Demand where
  | aligned (size : Nat)
  | packed (size : Nat)
  | zeroed (size : Nat)
  | alignedTo (size align : Nat)
  deriving Repr, DecidableEq

namespace Demand

/-- What is done to the pool. -/
def action : Demand → PoolM Region
  | aligned size => Pool.alloc size
  | packed size => Pool.allocUnaligned size
  | zeroed size => Pool.allocZeroed size
  | alignedTo size align => Pool.allocAlignedTo size align

/-- The command that makes this demand on the pool in a slot. -/
def command (slot : Nat) : Demand → Command
  | aligned size => .alloc slot size
  | packed size => .allocUnaligned slot size
  | zeroed size => .allocZeroed slot size
  | alignedTo size align => .allocAlignedTo slot size align

/-- Whether a pool serves the demand from its blocks. -/
def IsSmall (pool : Pool) : Demand → Prop
  | aligned size | packed size | zeroed size => size ≤ pool.max
  | alignedTo _ _ => False

/-- A demand for an alignment that is not a power of two fails with this failure. -/
def Misaligned (failure : Failure) : Demand → Prop
  | alignedTo _ align =>
    Layout.isPowerOfTwo align = false ∧ failure = .refused (.invalidAlignment align)
  | _ => False

/-- **A demand is met by these calls**, or not: a small one takes one call at most. -/
structure Takes (demand : Demand) (s : PoolState) (calls : List RawCall) (t : PoolState) :
    Prop where
  made : World.Calls s.pool.allocator s.world calls t.world
  few : demand.IsSmall s.pool → calls.length ≤ 1

/-- **A demand fails** and leaves the pool as it was. What it was granted on the way it gave back;
and it fails for its alignment, or because a call was refused. -/
structure Fails (demand : Demand) (s : PoolState) (failure : Failure) (calls : List RawCall)
    (t : PoolState) : Prop extends Takes demand s calls t where
  pool : t.pool = s.pool
  balanced : (RawCall.granted calls).Perm (RawCall.returned calls)
  reason : demand.Misaligned failure ∨
    ∃ error, failure = .refused (.alloc error) ∧ RawCall.Refused calls error

variable {demand : Demand} {s t : PoolState} {failure : Failure} {calls : List RawCall}

theorem Fails.of_declines (h : s.Declines [] failure calls t)
    (few : demand.IsSmall s.pool → calls.length ≤ 1) : demand.Fails s failure calls t :=
  ⟨⟨h.made, few⟩, h.pool, h.balanced, .inr h.reason⟩

/-- **What comes of a demand.** -/
theorem ends (demand : Demand) (fit : s.Fit) :
    Ends demand.action s (fun _ t => ∃ calls, demand.Takes s calls t)
      (fun failure t => ∃ calls, demand.Fails s failure calls t) := by
  cases demand with
  | aligned size | packed size =>
    refine (Pool.allocWith_ends fit).mono (fun _ t ht => ?_) fun failure t ht => ?_
    · obtain ⟨calls, hsupplied, hfew⟩ := ht
      exact ⟨calls, hsupplied.made, hfew⟩
    · obtain ⟨calls, hdeclined, hfew⟩ := ht
      exact ⟨calls, .of_declines hdeclined hfew⟩
  | zeroed size =>
    refine (Pool.allocZeroed_ends fit).mono (fun _ t ht => ?_) fun failure t ht => ?_
    · obtain ⟨calls, hsupplied, hfew⟩ := ht
      exact ⟨calls, hsupplied.made, hfew⟩
    · obtain ⟨calls, hdeclined, hfew⟩ := ht
      exact ⟨calls, .of_declines hdeclined hfew⟩
  | alignedTo size align =>
    refine (Pool.allocAlignedTo_ends fit).mono (fun _ t ht => ?_) fun failure t ht => ?_
    · obtain ⟨calls, hsupplied⟩ := ht
      exact ⟨calls, hsupplied.made, False.elim⟩
    · -- a wrong alignment is found out before any call is made
      rcases ht with ⟨hpower, rfl, hfailure⟩ | ⟨calls, hdeclined⟩
      · exact ⟨[], ⟨.nil _, False.elim⟩, rfl, .refl _, .inl ⟨hpower, hfailure⟩⟩
      · exact ⟨calls, .of_declines hdeclined False.elim⟩

end Demand

namespace Session

variable {s : Session} {slot : Nat} {pool : Pool}

/-- A command that makes a demand performs its action and keeps the region. -/
theorem exec_demand (s : Session) (slot : Nat) (demand : Demand) :
    s.exec (demand.command slot) = s.allocate slot demand.action := by
  cases demand <;> rfl

/-- **A demand on a pool that is there**, made by a command. -/
theorem exec_demand_cases (here : s.pool? slot = some pool)
    (fit : PoolState.Fit ⟨pool, s.world⟩) (demand : Demand) : ∃ t calls,
      demand.Takes ⟨pool, s.world⟩ calls t ∧ (s.exec (demand.command slot)).2.world = t.world ∧
      ∀ failure, (s.exec (demand.command slot)).1 = .failed failure →
        demand.Fails ⟨pool, s.world⟩ failure calls t ∧
          (s.exec (demand.command slot)).2 = s.settle slot t := by
  -- the command settles what the demand left, and adds a region only if it was met
  have hends := demand.ends fit
  rw [exec_demand, allocate, perform, here, withFound]
  cases run : demand.action { pool, world := s.world } with
  | ok region t =>
    obtain ⟨calls, htakes⟩ := hends.ok_of run
    exact ⟨t, calls, htakes, rfl, fun _ failed => Reply.noConfusion failed⟩
  | error failure t =>
    obtain ⟨calls, hfails⟩ := hends.fail_of run
    refine ⟨t, calls, hfails.toTakes, rfl, fun other heq => ?_⟩
    obtain rfl := Reply.failed.inj heq
    exact ⟨hfails, rfl⟩

/-! ### Nothing is left of a failure -/

/-- **A session is unharmed**: nothing has changed but the world. There, all that the raw allocator
granted was given back to it, and every ledger lists what it listed. -/
structure Unharmed (s : Session) (allocator : AllocatorId) (after : Session) : Prop where
  same : after = { s with world := after.world }
  balanced : ∃ calls, World.Calls allocator s.world calls after.world ∧
    (RawCall.granted calls).Perm (RawCall.returned calls)
  listed : ∀ id before, s.world.ledger? id = some before → ∃ ledger,
    after.world.ledger? id = some ledger ∧ ledger.ids.Perm before.ids

/-- Calls that leave nothing behind leave nothing in a ledger. -/
theorem listed_of_balanced {w w' : World} {allocator : AllocatorId} {calls : List RawCall}
    (made : World.Calls allocator w calls w')
    (balanced : (RawCall.granted calls).Perm (RawCall.returned calls)) (id : AllocatorId)
    (before : Ledger) (h : w.ledger? id = some before) : ∃ ledger,
      w'.ledger? id = some ledger ∧ ledger.ids.Perm before.ids := by
  obtain ⟨hself, hothers⟩ := made.ledger
  by_cases heq : id = allocator
  · subst heq
    obtain ⟨ledger, hledger, hperm⟩ := hself before h
    -- the ledger gains what was granted and loses what was returned, and these cancel out
    exact ⟨ledger, hledger,
      (List.perm_append_right_iff _).mp (hperm.trans (balanced.append_left _))⟩
  · exact ⟨before, (hothers id heq).trans h, .refl _⟩

/-- **An allocation that fails leaves the session unharmed**, after every history: it is as if the
demand had not been made, but for the calls to the raw allocator, which cancel out. -/
theorem run_declines (heap : Heap) (history : List Command) {slot : Nat} {demand : Demand}
    {failure : Failure}
    (failed : (((Session.ofHeap heap).run history).2.exec (demand.command slot)).1 =
      .failed failure) :
    ∃ pool, ((Session.ofHeap heap).run history).2.pool? slot = some pool ∧
      ((Session.ofHeap heap).run history).2.Unharmed pool.allocator
        (((Session.ofHeap heap).run history).2.exec (demand.command slot)).2 := by
  have vouched : ((Session.ofHeap heap).run history).2.Vouched := (Vouched.ofHeap heap).run
  generalize ((Session.ofHeap heap).run history).2 = s at failed vouched ⊢
  cases here : s.pool? slot with
  | none =>
    rw [exec_demand, allocate, perform, here] at failed
    cases failed
  | some pool =>
    refine ⟨pool, rfl, ?_⟩
    obtain ⟨t, calls, -, -, hfailed⟩ := exec_demand_cases here (vouched.fit slot pool here) demand
    obtain ⟨hfails, hafter⟩ := hfailed failure failed
    obtain ⟨after, world⟩ := t
    -- the pool is the same, so settling it changes no more than the world
    obtain rfl : after = pool := hfails.pool
    rw [hafter, settle_same here]
    exact ⟨rfl, ⟨calls, hfails.made, hfails.balanced⟩,
      listed_of_balanced hfails.made hfails.balanced⟩

/-- A heap that refuses its third request. -/
def strictHeap : Heap where
  place request _ _ := if request = 2 then none else some (4096 * (request + 1))

/-- A block that has room for a word, but not for the record of a large buffer. -/
def narrowHistory : List Command :=
  [.addAllocator (.counting {}), .createPool { size := 112 } (some ⟨0⟩), .alloc 0 8,
    .allocUnaligned 0 11]

/-- The buffer is granted, and the block for its record is not. -/
theorem run_declines_narrowHistory :
    (((Session.ofHeap strictHeap).run narrowHistory).2.exec
      ((Demand.alignedTo 500 64).command 0)).1 = .failed (.refused (.alloc (.outOfMemory 112 16))) ∧
    ∃ pool, ((Session.ofHeap strictHeap).run narrowHistory).2.pool? 0 = some pool ∧
      ((Session.ofHeap strictHeap).run narrowHistory).2.Unharmed pool.allocator
        (((Session.ofHeap strictHeap).run narrowHistory).2.exec
          ((Demand.alignedTo 500 64).command 0)).2 := by
  have failed : (((Session.ofHeap strictHeap).run narrowHistory).2.exec
      ((Demand.alignedTo 500 64).command 0)).1 =
      .failed (.refused (.alloc (.outOfMemory 112 16))) := by
    decide +kernel
  exact ⟨failed, run_declines strictHeap narrowHistory failed⟩

/-! ### One growth is enough -/

/-- **One growth suffices** for the pool in a slot. A new block has room for whatever it is made
for; so a small allocation makes one call to the raw allocator at most, and no allocation and no
cleanup record fails but for its alignment or because the raw allocator refused one of the calls.
-/
structure Suffices (s : Session) (slot : Nat) (pool : Pool) : Prop where
  room : ∀ (size : Nat) (buffer : Buffer), size ≤ pool.max ∨ size = Layout.largeRecordSize ∨
    size = Layout.cleanupRecordSize → buffer.length = pool.blockSize →
    ∃ offset block, (Block.ofBuffer buffer Layout.blockHeaderSize).bump? size .aligned =
      some (offset, block)
  demand : ∀ demand : Demand, ∃ calls,
    World.Calls pool.allocator s.world calls (s.exec (demand.command slot)).2.world ∧
    (demand.IsSmall pool → calls.length ≤ 1) ∧
    ∀ failure, (s.exec (demand.command slot)).1 = .failed failure → demand.Misaligned failure ∨
      ∃ error, failure = .refused (.alloc error) ∧ RawCall.Refused calls error
  cleanup : ∀ dataSize, ∃ calls,
    World.Calls pool.allocator s.world calls (s.exec (.addCleanup slot dataSize)).2.world ∧
    ∀ failure, (s.exec (.addCleanup slot dataSize)).1 = .failed failure →
      ∃ error, failure = .refused (.alloc error) ∧ RawCall.Refused calls error

/-- **One growth suffices** for every pool, after every history. -/
theorem run_suffices (heap : Heap) (history : List Command) {slot : Nat} {pool : Pool}
    (here : ((Session.ofHeap heap).run history).2.pool? slot = some pool) :
    ((Session.ofHeap heap).run history).2.Suffices slot pool := by
  have vouched : ((Session.ofHeap heap).run history).2.Vouched := (Vouched.ofHeap heap).run
  -- of the history, only what it vouches for matters from here on
  generalize ((Session.ofHeap heap).run history).2 = s at here vouched ⊢
  have fit := vouched.fit slot pool here
  -- both kinds of records fit even in the smallest blocks there are
  have hlarge : Layout.largeRecordSize ≤ Layout.minMaxAlloc := by decide
  have hcleanup : Layout.cleanupRecordSize ≤ Layout.minMaxAlloc := by decide
  refine ⟨fun size buffer hsize hlength => ?_, fun demand => ?_, fun dataSize => ?_⟩
  · refine Pool.exists_bump? ?_ hlength
    rcases hsize with hsmall | rfl | rfl
    · exact fit.sized.serves_of_le_max hsmall
    · exact fit.sized.serves_record hlarge
    · exact fit.sized.serves_record hcleanup
  · obtain ⟨t, calls, htakes, hworld, hfailed⟩ := exec_demand_cases here fit demand
    exact ⟨calls, hworld ▸ htakes.made, htakes.few,
      fun failure failed => (hfailed failure failed).1.reason⟩
  · rw [exec, perform, here, withFound]
    cases run : Pool.addCleanup dataSize { pool, world := s.world } with
    | ok ticket t =>
      obtain ⟨u, calls, hmade, -⟩ := (Pool.addCleanup_ends fit).ok_of run
      exact ⟨calls, hmade, fun _ failed => Reply.noConfusion failed⟩
    | error failure t =>
      obtain ⟨-, calls, hshort⟩ := (Pool.addCleanup_ends fit).fail_of run
      refine ⟨calls, hshort.made, fun other heq => ?_⟩
      obtain rfl := Reply.failed.inj heq
      exact hshort.reason

theorem run_suffices_narrowHistory :
    ∃ pool, ((Session.ofHeap strictHeap).run narrowHistory).2.pool? 0 = some pool ∧
      ((Session.ofHeap strictHeap).run narrowHistory).2.Suffices 0 pool := by
  have hsome : (((Session.ofHeap strictHeap).run narrowHistory).2.pool? 0).isSome := by
    decide +kernel
  obtain ⟨pool, here⟩ := Option.isSome_iff_exists.mp hsome
  exact ⟨pool, here, run_suffices strictHeap narrowHistory here⟩

end Session

end RegionPool
