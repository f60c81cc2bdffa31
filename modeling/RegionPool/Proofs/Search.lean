import RegionPool.Proofs.Courses

/-!
# Where searches start

A chain that grows counts a failure of each block that its search went past, and leaves blocks out
of later searches that had failed too often. What comes of this depends on two numbers only: how
many blocks there were at first, and how often the chain has grown since. Nothing else that happens
to a chain matters, until a reset starts the count again.

* `Chain.Follows` — the failures of every block and the start of searches, as functions of these
  numbers, and `Chain.Follows.grow`: one more growth keeps to them;
* `Moves.follows` — what a pool does keeps to them, as many growths as the log tells of further on;
* `Session.tallied` — the two numbers for the pool in every slot, told from a history;
* `Session.run_searches` — every pool keeps to its numbers, whatever the history.
-/

namespace RegionPool

open PoolM Relation

namespace Chain

variable {chain after : Chain} {block : Block} {start growths more : Nat}

/-! ### One growth -/

/-- Where no index counts, the start stays. -/
private theorem foldl_start_of_none {p : Nat → Bool} {first : Nat} (n : Nat)
    (h : ∀ i < n, p i = false) :
    (List.range n).foldl (fun start index => if p index then index + 1 else start) first =
      first := by
  induction n with
  | zero => rfl
  | succ n ih =>
    rw [List.range_succ, List.foldl_append, ih fun i hlt => h i (Nat.lt_succ_of_lt hlt)]
    change (if p n then n + 1 else first) = first
    rw [h n (Nat.lt_succ_self n)]
    rfl

/-- The last index that counts decides. -/
private theorem foldl_start_of_last {p : Nat → Bool} {first last : Nat} (n : Nat) (hlt : last < n)
    (hlast : p last = true) (h : ∀ i < n, last < i → p i = false) :
    (List.range n).foldl (fun start index => if p index then index + 1 else start) first =
      last + 1 := by
  induction n with
  | zero => exact absurd hlt (Nat.not_lt_zero _)
  | succ n ih =>
    rw [List.range_succ, List.foldl_append]
    change (if p n then n + 1 else _) = last + 1
    -- Either the last step is the one that counts, or it does not count.
    by_cases heq : last = n
    · rw [← heq, hlast]
      rfl
    · have hbelow : last < n := by omega
      rw [h n (Nat.lt_succ_self n) hbelow, ih hbelow fun i hi => h i (Nat.lt_succ_of_lt hi)]
      rfl

/-- **A chain keeps to its numbers**: it had `start` blocks once, with no failures and searched from
the first one on, and has grown `growths` times since. -/
structure Follows (chain : Chain) (start growths : Nat) : Prop where
  pos : 0 < start
  length : chain.blocks.length = start + growths
  failed : ∀ index block, chain.blocks[index]? = some block →
    block.failed = min (failureThreshold + 2) (min growths (chain.blocks.length - 2 - index))
  current : chain.current =
    if growths < failureThreshold + 2 then 0 else chain.blocks.length - (failureThreshold + 3)

namespace Follows

/-- The failures and the start of searches are all that counts. -/
theorem congr (h : chain.Follows start growths)
    (hfailed : after.blocks.map Block.failed = chain.blocks.map Block.failed)
    (hcurrent : after.current = chain.current) : after.Follows start growths := by
  have hlength : after.blocks.length = chain.blocks.length := by
    rw [← List.length_map (f := Block.failed), hfailed, List.length_map]
  refine ⟨h.pos, hlength.trans h.length, fun index block hblock => ?_, ?_⟩
  -- the counter of a block is read off the list of all counters
  · have hmapped : (chain.blocks.map Block.failed)[index]? = some block.failed := by
      rw [← hfailed, List.getElem?_map, hblock]
      rfl
    rw [List.getElem?_map] at hmapped
    obtain ⟨before, hbefore, heq⟩ := Option.map_eq_some_iff.mp hmapped
    rw [← heq, hlength]
    exact h.failed index before hbefore
  · rw [hcurrent, hlength]
    exact h.current

/-- What the growth of a chain that keeps to its numbers looks at: a block counts if the search went
past it and it has failed too often. -/
private theorem counts_iff (h : chain.Follows start growths) {index : Nat}
    (hlt : index < chain.blocks.length) :
    (chain.isPassed index && chain.isExhausted index) = true ↔
      chain.current ≤ index ∧ index + 1 < chain.blocks.length ∧ failureThreshold <
        min (failureThreshold + 2) (min growths (chain.blocks.length - 2 - index)) := by
  have hblock := List.getElem?_eq_getElem hlt
  have hexhausted : chain.isExhausted index = true ↔ failureThreshold <
      min (failureThreshold + 2) (min growths (chain.blocks.length - 2 - index)) := by
    rw [isExhausted, hblock]
    dsimp only
    rw [decide_eq_true_iff, h.failed index _ hblock]
  rw [Bool.and_eq_true, hexhausted, isPassed, Bool.and_eq_true, decide_eq_true_iff,
    decide_eq_true_iff, and_assoc]

/-- **Where searches start** after one more growth. -/
private theorem nextStart_eq (h : chain.Follows start growths) : chain.nextStart =
    if growths + 1 < failureThreshold + 2 then 0
    else chain.blocks.length + 1 - (failureThreshold + 3) := by
  have hpos := h.pos
  have hlength := h.length
  have hcurrent := h.current
  -- No block counts while the chain is short or has grown seldom, and none of the last ones ever.
  have hskip : ∀ i < chain.blocks.length, (chain.blocks.length < failureThreshold + 3 ∨
      growths ≤ failureThreshold ∨ chain.blocks.length - (failureThreshold + 3) < i) →
        (chain.isPassed i && chain.isExhausted i) = false := by
    intro i hlt hnone
    rw [← Bool.not_eq_true, h.counts_iff hlt]
    omega
  -- The start moves on from where the chain is long enough and has grown often enough.
  by_cases hreached : failureThreshold + 3 ≤ chain.blocks.length ∧ failureThreshold < growths
  · have hlt : chain.blocks.length - (failureThreshold + 3) < chain.blocks.length := by omega
    rw [nextStart, foldl_start_of_last _ hlt]
    · split <;> omega
    · rw [h.counts_iff hlt]
      split at hcurrent <;> omega
    · exact fun i hi hbehind => hskip i hi (.inr (.inr hbehind))
  · rw [nextStart, foldl_start_of_none _ fun i hi => hskip i hi (by omega), hcurrent]
    split <;> split <;> omega

/-- **One more growth** keeps a chain to its numbers. -/
theorem grow (h : chain.Follows start growths) (hblock : block.failed = 0) :
    (chain.grow block).Follows start (growths + 1) := by
  have hlength := h.length
  have hcurrent := h.current
  have hgrown : (chain.grow block).blocks.length = chain.blocks.length + 1 := length_blocks_grow _ _
  refine ⟨h.pos, by omega, fun index found hfound => ?_, ?_⟩
  · rw [getElem?_blocks_grow] at hfound
    rw [hgrown]
    split at hfound
    · obtain rfl := Option.some.inj hfound
      omega
    · obtain ⟨old, hold, rfl⟩ := Option.map_eq_some_iff.mp hfound
      have hlt := (List.getElem?_eq_some_iff.mp hold).1
      have hfailed := h.failed index old hold
      have hpassed : chain.isPassed index = true ↔
          chain.current ≤ index ∧ index + 1 < chain.blocks.length := by
        rw [isPassed, Bool.and_eq_true, decide_eq_true_iff, decide_eq_true_iff]
      split
      · next hyes =>
        -- The search went past this block, which has one more behind it now.
        obtain ⟨hle, hnext⟩ := hpassed.mp hyes
        change old.failed + 1 = _
        split at hcurrent <;> omega
      · next hno =>
        -- Not passed: left out before, with all the failures there can be, or the last one.
        rw [hpassed] at hno
        split at hcurrent <;> omega
  · rw [hgrown]
    exact h.nextStart_eq

/-- A new chain of one block. -/
theorem single (h : block.failed = 0) : { blocks := [block] : Chain }.Follows 1 0 where
  pos := Nat.one_pos
  length := rfl
  failed index found hfound := by
    rw [List.getElem?_singleton] at hfound
    split at hfound
    · obtain rfl := Option.some.inj hfound
      rw [h]
      omega
    · cases hfound
  current := rfl

/-- After a reset a chain starts again, with all blocks it has. -/
theorem reset (h : chain.Follows start growths) : chain.reset.Follows chain.blocks.length 0 where
  pos := h.length ▸ Nat.add_pos_left h.pos _
  length := length_blocks_reset chain
  failed index found hfound := by
    obtain ⟨block, -, rfl⟩ := Option.map_eq_some_iff.mp ((List.getElem?_map ..).symm.trans hfound)
    change 0 = _
    omega
  current := rfl

/-! ### What follows from the numbers -/

/-- Searches start at a block of the chain. -/
theorem current_lt (h : chain.Follows start growths) : chain.current < chain.blocks.length := by
  have hpos := h.pos
  have hlength := h.length
  have hcurrent := h.current
  split at hcurrent <;> omega

/-- Blocks that are left out have failed too often. -/
theorem threshold_lt_failed (h : chain.Follows start growths) {index : Nat}
    (hblock : chain.blocks[index]? = some block) (hlt : index < chain.current) :
    failureThreshold < block.failed := by
  have hcurrent := h.current
  rw [h.failed index block hblock]
  split at hcurrent <;> omega

/-- Growth moves the start of searches on. -/
theorem current_le (h : chain.Follows start growths) (h' : after.Follows start (growths + more)) :
    chain.current ≤ after.current := by
  have hlength := h.length
  have hlength' := h'.length
  rw [h.current, h'.current]
  split <;> split <;> omega

/-- Without growth nothing moves. -/
theorem eq_of_follows (h : chain.Follows start growths) (h' : after.Follows start growths) :
    after.current = chain.current ∧
      after.blocks.map Block.failed = chain.blocks.map Block.failed := by
  have hlength : after.blocks.length = chain.blocks.length := h'.length.trans h.length.symm
  refine ⟨by rw [h.current, h'.current, hlength], ?_⟩
  refine List.ext_getElem (by rw [List.length_map, List.length_map, hlength]) fun i hi hi' => ?_
  rw [List.length_map] at hi hi'
  rw [List.getElem_map, List.getElem_map, h.failed i _ (List.getElem?_eq_getElem hi'),
    h'.failed i _ (List.getElem?_eq_getElem hi), hlength]

end Follows

end Chain

/-! ### Moves -/

/-- **How often a chain grew** on the way from one state to another, as the log tells it, and that
it keeps to its numbers. -/
def Outgrows (s t : PoolState) : Prop :=
  ∃ more, t.world.growths = s.world.growths + more ∧ ∀ start growths,
    s.pool.chain.Follows start growths → t.pool.chain.Follows start (growths + more)

namespace Outgrows

variable {s t u : PoolState}

theorem trans (h : Outgrows s t) (h' : Outgrows t u) : Outgrows s u := by
  obtain ⟨more, hgrowths, hfollows⟩ := h
  obtain ⟨more', hgrowths', hfollows'⟩ := h'
  refine ⟨more + more', by omega, fun start growths h => ?_⟩
  rw [← Nat.add_assoc]
  exact hfollows' start _ (hfollows start growths h)

/-- Nothing grows, and neither the failures nor the start of searches change. -/
theorem of_same (hgrowths : t.world.growths = s.world.growths)
    (hfailed : t.pool.chain.blocks.map Block.failed = s.pool.chain.blocks.map Block.failed)
    (hcurrent : t.pool.chain.current = s.pool.chain.current) : Outgrows s t :=
  ⟨0, hgrowths, fun _ _ h => h.congr hfailed hcurrent⟩

end Outgrows

theorem Move.outgrows {a b : Stage} (h : Move a b) : Outgrows a.toPoolState b.toPoolState := by
  cases h with
  | told quiet => exact .of_same quiet.growths rfl rfl
  | granted call => exact .of_same (World.request_ok call).growths rfl rfl
  | returned inHand call => exact .of_same (World.release_ok call).growths rfl rfl
  -- a block that was put in counts as one growth, and starts with a counter of zero
  | @grown buffer hand block size offset request inHand bump length align =>
    refine ⟨1, World.growths_log _ _, fun start growths h => h.grow ?_⟩
    rw [Block.eq_of_bump? bump]
    rfl
  | stored _ _ => exact .of_same rfl rfl rfl
  | withdrawn _ => exact .of_same rfl rfl rfl
  | emptied => exact .of_same rfl rfl rfl
  -- neither a cursor nor a byte counts as a failure
  | moved cursor get => exact .of_same rfl (Chain.map_blocks_setBlock Block.failed get rfl) rfl
  | wrote store offset data =>
    cases store with
    | block index =>
      exact .of_same rfl (Chain.map_blocks_overwrite Block.failed fun _ => rfl) rfl
    | slot index => exact .of_same rfl rfl rfl
  | recorded _ => exact .of_same rfl rfl rfl

/-- **What a pool does** keeps its chain to its numbers. -/
theorem Moves.outgrows {a b : Stage} (h : Moves a b) : Outgrows a.toPoolState b.toPoolState := by
  induction h with
  | refl => exact .of_same rfl rfl rfl
  | tail _ hmove ih => exact ih.trans hmove.outgrows

/-- So does a pool that gets stuck on its way. -/
theorem Stuck.outgrows {a : Stage} {failure : Failure} {t : PoolState} (h : Stuck a failure t) :
    Outgrows a.toPoolState t := by
  obtain ⟨b, moves, hpool, buffer, -, fault, -, call⟩ := h
  obtain ⟨-, hworld, -⟩ := World.release_error call
  refine moves.outgrows.trans (.of_same ?_ ?_ ?_)
  · rw [hworld, World.growths_emit_freed]
  · rw [hpool]
  · rw [hpool]

/-! ### Histories -/

namespace Session

/-- **How many blocks a pool had** when it was made or last reset, and how often its chain has grown
since. -/
structure Tally where
  start : Nat := 0
  growths : Nat := 0
  deriving Repr, DecidableEq

/-- Whether a command makes the pool in a slot, or resets it. -/
def Restarts (s : Session) (slot : Nat) (command : Command) : Prop :=
  match command, (s.exec command).1 with
  | .createPool _ _, .pool made => made = slot
  | .reset named, .done => named = slot
  | _, _ => False

instance (s : Session) (slot : Nat) : DecidablePred (s.Restarts slot) := fun command => by
  unfold Restarts
  split <;> infer_instance

/-- How often the chain of the pool in a slot grows while a command is carried out. -/
def growthsOf (s : Session) (slot : Nat) (command : Command) : Nat :=
  if command.pool? = some slot then (s.exec command).2.world.growths - s.world.growths else 0

/-- The tally of a slot after one more command. -/
def tally (s : Session) (slot : Nat) (before : Tally) (command : Command) : Tally :=
  if s.Restarts slot command then
    { start := ((s.exec command).2.pool? slot).elim 0 Pool.blockCount }
  else { before with growths := before.growths + s.growthsOf slot command }

/-- **The tally of a slot** after a history. -/
def tallied (s : Session) (slot : Nat) (before : Tally) : List Command → Tally
  | [] => before
  | command :: history => (s.exec command).2.tallied slot (s.tally slot before command) history

section Tally

variable {s after : Session} {slot : Nat} {pool pool' : Pool} {command : Command} {before : Tally}

/-- Keeping a pool that outgrew what was there before. -/
private theorem follows_settle {slot? : Option Nat} {named : Nat} {t : PoolState}
    (hnamed : slot? = some named) (hthere : s.pool? named = some pool)
    (outgrown : Outgrows ⟨pool, s.world⟩ t) (settled : (s.settle named t).Alike after)
    (here : after.pool? slot = some pool') :
    ∃ pool, s.pool? slot = some pool ∧ ∀ start growths, pool.chain.Follows start growths →
      pool'.chain.Follows start (growths +
        if slot? = some slot then after.world.growths - s.world.growths else 0) := by
  obtain ⟨more, hgrowths, hfollows⟩ := outgrown
  have hsame : after.pool? slot = (s.settle named t).pool? slot := by
    rw [pool?, pool?, settled.pools]
  rw [hsame] at here
  by_cases heq : named = slot
  · subst heq
    rw [pool?_settle_self hthere] at here
    obtain rfl := Option.some.inj here
    -- The log is longer by as many growths as the chain has seen.
    have hmore : after.world.growths - s.world.growths = more := by
      rw [settled.world]
      change t.world.growths - s.world.growths = more
      rw [hgrowths, Nat.add_sub_cancel_left]
    refine ⟨pool, hthere, fun start growths h => ?_⟩
    rw [if_pos hnamed, hmore]
    exact hfollows start growths h
  · -- The log may be longer here as well, but for the sake of another pool.
    rw [pool?_settle_of_ne s heq] at here
    refine ⟨pool', here, fun start growths h => ?_⟩
    rwa [if_neg (by rw [hnamed]; exact fun h => heq (Option.some.inj h)), Nat.add_zero]

/-- **However a command goes**, a pool that is there afterwards was there before, and keeps to its
numbers. -/
theorem Course.follows {slot? : Option Nat} {reply : Reply} (h : s.Course slot? reply after)
    (here : after.pool? slot = some pool') :
    ∃ pool, s.pool? slot = some pool ∧ ∀ start growths, pool.chain.Follows start growths →
      pool'.chain.Follows start (growths +
        if slot? = some slot then after.world.growths - s.world.growths else 0) := by
  cases h with
  | idle quiet pools _ _ =>
    -- nothing was done in a pool, so nothing has grown
    have hsame : s.pool? slot = some pool' := by rwa [pool?, ← pools, ← pool?]
    refine ⟨pool', hsame, fun start growths h => ?_⟩
    rw [quiet.growths, Nat.sub_self, ite_self, Nat.add_zero]
    exact h
  | ended named hthere moves settled _ =>
    exact follows_settle named hthere moves.outgrows settled here
  | stuck named hthere stuck settled =>
    exact follows_settle named hthere stuck.outgrows settled here

/-- **A command that does not restart the tally** of a slot. -/
theorem exec_follows (sized : s.Sized) (stays : ¬ s.Restarts slot command)
    (here : (s.exec command).2.pool? slot = some pool') :
    ∃ pool, s.pool? slot = some pool ∧ ∀ start growths, pool.chain.Follows start growths →
      pool'.chain.Follows start (growths + s.growthsOf slot command) := by
  -- where a command is about another pool, or about none, nothing is counted
  have hkept : s.pool? slot = some pool' → command.pool? ≠ some slot →
      ∃ pool, s.pool? slot = some pool ∧ ∀ start growths, pool.chain.Follows start growths →
        pool'.chain.Follows start (growths + s.growthsOf slot command) := by
    intro hsame hne
    refine ⟨pool', hsame, fun start growths h => ?_⟩
    rwa [growthsOf, if_neg hne, Nat.add_zero]
  have hfate := exec_fate sized command
  have hgrowths : s.growthsOf slot command = if command.pool? = some slot then
      (s.exec command).2.world.growths - s.world.growths else 0 := rfl
  generalize hreply : (s.exec command).1 = reply at hfate
  generalize (s.exec command).2 = after at hfate hgrowths here
  cases hfate with
  | ran course =>
    rw [hgrowths]
    exact course.follows here
  | spared pools absent _ =>
    rw [pool?, pools] at here
    refine hkept here fun named => ?_
    cases (absent slot named).symm.trans here
  | opened _ _ =>
    -- a new pool in this slot would have restarted the tally
    have hnew : slot ≠ s.pools.length := fun heq => stays (by
      unfold Restarts
      rw [hreply]
      exact heq.symm)
    rw [pool?_of_append rfl, if_neg hnew] at here
    exact hkept here (Option.some_ne_none slot).symm
  | @rewound named pool t there _ _ =>
    have hne : named ≠ slot := fun heq => stays (by
      unfold Restarts
      rw [hreply]
      exact heq)
    rw [pool?_settle_of_ne s hne] at here
    exact hkept here fun heq => hne (Option.some.inj heq)
  | @destroyed named pool _ w there _ =>
    rw [pool?_of_set there rfl] at here
    split at here
    · cases here
    · next hne => exact hkept here fun heq => hne (Option.some.inj heq).symm

/-- **A command that restarts the tally** of a slot. -/
theorem exec_restarts (follows : ∀ pool, s.pool? slot = some pool → ∃ start growths,
      pool.chain.Follows start growths) (restarts : s.Restarts slot command)
    (here : (s.exec command).2.pool? slot = some pool') :
    pool'.chain.Follows pool'.blockCount 0 := by
  unfold Restarts at restarts
  split at restarts
  -- a new pool has one block, and nothing has grown yet
  · next config allocator made hreply =>
    subst restarts
    have hexec : s.exec (.createPool config allocator) = s.createPool config allocator := rfl
    rcases s.createPool_ends with ⟨w, w', pool, buffer, -, opens, -, -, -, hrun⟩ |
      ⟨w, error, -, hrun⟩
    · rw [hexec, hrun] at hreply here
      obtain rfl := Reply.pool.inj hreply
      rw [pool?_of_append rfl, if_pos rfl] at here
      obtain rfl := Option.some.inj here
      have hcount : pool.blockCount = 1 := congrArg (·.blocks.length) opens.chain
      rw [hcount, opens.chain]
      exact .single rfl
    · rw [hexec, hrun] at hreply
      cases hreply
  -- a reset sets all counters to zero, with as many blocks as there are
  · next named hreply =>
    subst restarts
    rcases s.reset_ends named with ⟨-, hne⟩ | ⟨pool, world, t, hnamed, -, -, hpool, -, hrun⟩
    · exact absurd hreply hne
    · rw [hrun, pool?_settle_self hnamed] at here
      obtain rfl := Option.some.inj here
      obtain ⟨start, growths, hbefore⟩ := follows pool hnamed
      have hcount : t.pool.blockCount = pool.chain.blocks.length := by
        rw [hpool]
        exact Chain.length_blocks_reset pool.chain
      rw [hcount, hpool]
      exact hbefore.reset
  · exact restarts.elim

/-! ### Every pool keeps to its numbers -/

/-- **The tallies are right**: every pool keeps to the numbers of its slot. -/
structure Counts (s : Session) (slot : Nat) (before : Tally) : Prop where
  sized : s.Sized
  follows : ∀ pool, s.pool? slot = some pool → pool.chain.Follows before.start before.growths

namespace Counts

/-- **Every command** keeps the tallies right. -/
theorem exec (counts : s.Counts slot before) :
    (s.exec command).2.Counts slot (s.tally slot before command) := by
  refine ⟨counts.sized.exec, fun pool' here => ?_⟩
  rw [tally]
  split
  · next restarts =>
    rw [here]
    exact exec_restarts (fun pool h => ⟨_, _, counts.follows pool h⟩) restarts here
  · next stays =>
    obtain ⟨pool, hpool, hfollows⟩ := exec_follows counts.sized stays here
    exact hfollows _ _ (counts.follows pool hpool)

/-- **Every history** keeps the tallies right. -/
theorem run {history : List Command} (counts : s.Counts slot before) :
    (s.run history).2.Counts slot (s.tallied slot before history) := by
  induction history generalizing s before with
  | nil => exact counts
  | cons command history ih => exact ih counts.exec

/-- A caller who holds nothing yet. -/
theorem ofHeap (heap : Heap) (slot : Nat) : (Session.ofHeap heap).Counts slot {} :=
  ⟨fun _ hmem => (List.not_mem_nil hmem).elim, fun _ h => nomatch pool?_eq_some_iff.mp h⟩

end Counts

/-- **How searches go** in the pool in a slot: the number of its blocks, the failures of each of
them and the start of searches are told by the tally; searches start at a block of the chain, and
all blocks before it have failed too often; and with any command but one that makes or resets the
pool, the start does not move back, and without growth nothing moves. -/
structure Searches (s : Session) (slot : Nat) (pool : Pool) (tally : Tally) : Prop where
  blocks : pool.blockCount = tally.start + tally.growths
  failed : ∀ index block, pool.chain.blocks[index]? = some block → block.failed =
    min (Chain.failureThreshold + 2) (min tally.growths (pool.blockCount - 2 - index))
  current : pool.chain.current = if tally.growths < Chain.failureThreshold + 2 then 0
    else pool.blockCount - (Chain.failureThreshold + 3)
  inside : pool.chain.current < pool.blockCount
  skipped : ∀ index block, pool.chain.blocks[index]? = some block → index < pool.chain.current →
    Chain.failureThreshold < block.failed
  onward : ∀ command after, (s.exec command).2.pool? slot = some after → ¬ s.Restarts slot command →
    pool.chain.current ≤ after.chain.current ∧ (s.growthsOf slot command = 0 →
      after.chain.current = pool.chain.current ∧
        after.chain.blocks.map Block.failed = pool.chain.blocks.map Block.failed)

theorem Counts.searches (counts : s.Counts slot before) (here : s.pool? slot = some pool) :
    s.Searches slot pool before where
  blocks := (counts.follows pool here).length
  failed := (counts.follows pool here).failed
  current := (counts.follows pool here).current
  inside := (counts.follows pool here).current_lt
  skipped _ _ hblock hlt := (counts.follows pool here).threshold_lt_failed hblock hlt
  onward command after hafter stays := by
    have h := counts.follows pool here
    obtain ⟨before, hbefore, hfollows⟩ := exec_follows counts.sized stays hafter
    obtain rfl := Option.some.inj (here.symm.trans hbefore)
    have h' := hfollows _ _ h
    -- if the command tells of no growth, the numbers determine where searches start
    refine ⟨h.current_le h', fun hnone => ?_⟩
    rw [hnone] at h'
    exact h.eq_of_follows h'

/-- **The failures of blocks and the start of searches**, in every pool of every history. -/
theorem run_searches {heap : Heap} {history : List Command}
    (here : ((Session.ofHeap heap).run history).2.pool? slot = some pool) :
    ((Session.ofHeap heap).run history).2.Searches slot pool
      ((Session.ofHeap heap).tallied slot {} history) :=
  (Counts.ofHeap heap slot).run.searches here

/-- A heap that refuses its seventh request. -/
def leanHeap : Heap where
  place request _ _ := if request = 6 then none else some (4096 * request)

/-- A pool that is reset with three blocks and then asked for more than fits, small and large. -/
def crowdedHistory : List Command :=
  [.createPool { size := 112 } none, .alloc 0 32, .alloc 0 32, .alloc 0 32, .addCleanup 0 3,
      .reset 0] ++
    List.replicate 20 (.alloc 0 32) ++ [.alloc 0 40, .alloc 0 40, .addCleanup 0 40, .alloc 0 32]

theorem run_searches_crowdedHistory : ∃ pool,
    ((Session.ofHeap leanHeap).run crowdedHistory).2.pool? 0 = some pool ∧
      (Session.ofHeap leanHeap).tallied 0 {} crowdedHistory = { start := 3, growths := 8 } ∧
      ((Session.ofHeap leanHeap).run crowdedHistory).2.Searches 0 pool
        ((Session.ofHeap leanHeap).tallied 0 {} crowdedHistory) := by
  have present : (((Session.ofHeap leanHeap).run crowdedHistory).2.pool? 0).isSome := by
    decide +kernel
  obtain ⟨pool, here⟩ := Option.isSome_iff_exists.mp present
  refine ⟨pool, here, ?_, run_searches here⟩
  decide +kernel

end Tally

end Session

end RegionPool
