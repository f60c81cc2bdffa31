import Mathlib.Data.Nat.SuccPred
import RegionPool.Proofs.Placement

/-!
# How large buffers are registered

A pool keeps one slot for each large buffer, and the record of the slot reserves bytes in a block. A
slot whose buffer was given back is used again if it is one of the few newest ones; the newest of
these is taken, and its record serves for the new buffer as well. Otherwise there is one more slot,
with a record that is placed like any other small request. Buffers at an alignment of their own get
a new slot in any case.

* `LargeTable.vacant` — the empty slots that are near enough;
* `PoolState.Reuses`, `PoolState.Enlists` — the two ways of registering a buffer;
* `Pool.allocLarge_enters`, `Pool.allocAlignedTo_enters` — which of them is taken, and what it
  leaves alone;
* `Pool.Enduring` — a relation between what a pool is and what becomes of it;
* `Session.run_registers` — so it is in every pool of every history, and slots only become more.
-/

namespace RegionPool

open PoolM Relation

/-! ### Slots -/

namespace LargeTable

variable {table : LargeTable} {buffer : Buffer} {index : Nat}

/-- **The empty slots within reach**, by their indices: those among the last four. -/
def vacant (table : LargeTable) : Set Nat :=
  { index | table.count - min 4 table.count ≤ index ∧ table.slots[index]? = some none }

/-- The slots within reach, from the last one down. -/
private theorem getElem?_reach (k : Nat) :
    table.reach[k]? = if k < min 4 table.count then some (table.count - 1 - k) else none := by
  have hlength : (List.range table.slots.length).reverse.length = table.count := by
    rw [List.length_reverse, List.length_range]
    rfl
  -- what is within reach is a reversed range, cut off after four
  rw [reach, List.getElem?_take]
  change (if k < 4 then _ else none) = _
  by_cases hk : k < min 4 table.count
  · have hcount : k < table.slots.length := by
      change k < table.count
      omega
    rw [if_pos hk, if_pos (by omega),
      List.getElem?_reverse (by rw [List.length_range]; exact hcount), List.length_range]
    exact List.getElem?_range (by omega)
  · rw [if_neg hk]
    split
    · exact List.getElem?_eq_none (by omega)
    · rfl

/-- **The newest empty slot within reach** takes the buffer. -/
theorem reuse?_of_isGreatest (newest : IsGreatest table.vacant index) :
    table.reuse? buffer = some (table.set index (some buffer)) := by
  obtain ⟨⟨hreach, hempty⟩, hgreatest⟩ := newest
  have hlt : index < table.count := (List.getElem?_eq_some_iff.mp hempty).1
  have hfound : (table.reach.find? fun index => table.slots[index]? == some none) = some index := by
    rw [List.find?_eq_some_iff_getElem]
    refine ⟨by rw [hempty]; rfl, table.count - 1 - index, ?_⟩
    have hself : table.reach[table.count - 1 - index]? = some index := by
      rw [getElem?_reach, if_pos (by omega)]
      exact congrArg some (by omega)
    obtain ⟨hbound, hget⟩ := List.getElem?_eq_some_iff.mp hself
    refine ⟨hbound, hget, fun k hk => ?_⟩
    -- a slot that is looked at before is newer, and the greatest one that is empty is this one
    have hnewer : table.reach[k]? = some (table.count - 1 - k) := by
      rw [getElem?_reach, if_pos (by omega)]
    rw [(List.getElem?_eq_some_iff.mp hnewer).2, Bool.not_eq_true', beq_eq_false_iff_ne]
    intro hvacant
    have hle := hgreatest (show table.count - 1 - k ∈ table.vacant from ⟨by omega, hvacant⟩)
    omega
  rw [reuse?, hfound]
  rfl

/-- Without an empty slot within reach there is none to take. -/
theorem reuse?_of_vacant_eq_empty (full : table.vacant = ∅) : table.reuse? buffer = none := by
  rw [reuse?, Option.map_eq_none_iff, List.find?_eq_none]
  intro index hmem hvacant
  obtain ⟨k, hk⟩ := List.mem_iff_getElem?.mp hmem
  rw [getElem?_reach] at hk
  split at hk
  · obtain rfl := Option.some.inj hk
    have hin : table.count - 1 - k ∈ table.vacant := ⟨by omega, beq_iff_eq.mp hvacant⟩
    rw [full] at hin
    exact hin
  · cases hk

/-- Either no slot within reach is empty, or there is a newest one. -/
theorem vacant_eq_empty_or_exists_isGreatest (table : LargeTable) :
    table.vacant = ∅ ∨ ∃ index, IsGreatest table.vacant index := by
  rcases table.vacant.eq_empty_or_nonempty with hempty | hsome
  · exact .inl hempty
  · have hbounded : BddAbove table.vacant :=
      ⟨table.count, fun index hmem => Nat.le_of_lt (List.getElem?_eq_some_iff.mp hmem.2).1⟩
    exact .inr (hbounded.exists_isGreatest_of_nonempty hsome)

/-- **One slot takes a buffer**, and the others are as before. -/
structure Gains (table after : LargeTable) (index : Nat) (buffer : Buffer) : Prop where
  free : table.get? index = none
  held : after.slots[index]? = some (some buffer)
  others : ∀ other, other ≠ index → after.slots[other]? = table.slots[other]?
  live : after.live = table.live + 1

theorem gains_set (empty : table.slots[index]? = some none) :
    table.Gains (table.set index (some buffer)) index buffer := by
  obtain ⟨hlt, hget⟩ := List.getElem?_eq_some_iff.mp empty
  refine ⟨by rw [get?, empty]; rfl, List.getElem?_set_self hlt, fun other hne => ?_, ?_⟩
  · exact List.getElem?_set_ne (Ne.symm hne)
  · rw [live, live, set, List.countP_set hlt, hget]
    rfl

theorem gains_push : table.Gains (table.push buffer) table.count buffer := by
  refine ⟨?_, List.getElem?_concat_length, fun other hne => ?_, ?_⟩
  · rw [get?, count, List.getElem?_eq_none (Nat.le_refl _)]
    rfl
  · change (table.slots ++ [some buffer])[other]? = _
    rw [List.getElem?_append]
    split
    · rfl
    · next hge =>
      -- past the new slot both tables are empty
      have hlt : table.slots.length < other :=
        Nat.lt_of_le_of_ne (Nat.le_of_not_lt hge) (Ne.symm hne)
      rw [List.getElem?_eq_none (Nat.le_of_lt hlt), List.getElem?_eq_none]
      rw [List.length_singleton]
      omega
  · rw [live, live, push, List.countP_append]
    rfl

end LargeTable

/-! ### Registering a buffer -/

namespace PoolState

variable {s t : PoolState} {buffer : Buffer} {after : Pool} {region : Region}

/-- **A buffer takes an empty slot**, the newest one within reach, and of the pool nothing else
changes. -/
def Reuses (s : PoolState) (buffer : Buffer) (after : Pool) : Prop :=
  ∃ index, IsGreatest s.pool.large.vacant index ∧
    after = { s.pool with large := s.pool.large.set index (some buffer) }

/-- **A buffer gets one more slot**, whose record is placed like a small request. -/
def Enlists (s : PoolState) (buffer : Buffer) (after : Pool) : Prop :=
  ∃ record t, s.Placed .aligned Layout.largeRecordSize record t ∧
    after = { t.pool with large := s.pool.large.push buffer }

/-- **A buffer is enrolled**: it takes an empty slot if there is one within reach, and gets one more
slot only if there is none. -/
def Enrols (s : PoolState) (buffer : Buffer) (after : Pool) : Prop :=
  s.Reuses buffer after ∨ s.pool.large.vacant = ∅ ∧ s.Enlists buffer after

/-- **How a request enters a buffer**: the buffer is asked of the raw allocator and registered as
told, in one slot, and the region is the whole of it. -/
def Enters (s : PoolState) (request : Request) (registers : PoolState → Buffer → Pool → Prop)
    (size : Nat) (region : Region) (t : PoolState) : Prop :=
  ∃ buffer world, s.world.request s.pool.allocator request = (.ok buffer, world) ∧
    region = s.pool.regionAt size (.large buffer.id) ∧
    registers { s with world } buffer t.pool ∧
    ∃ index, s.pool.large.Gains t.pool.large index buffer

/-- What is placed changes the chain at most. -/
theorem Placed.rest {packing : Packing} {size : Nat} (placed : s.Placed packing size region t) :
    t.pool = { s.pool with chain := t.pool.chain } := by
  cases placed with
  | fitted first get => rfl
  | appended full appends => exact appends.rest

theorem Reuses.gains (reuses : s.Reuses buffer after) :
    ∃ index, s.pool.large.Gains after.large index buffer := by
  obtain ⟨index, newest, rfl⟩ := reuses
  exact ⟨index, LargeTable.gains_set newest.1.2⟩

theorem Enlists.gains (enlists : s.Enlists buffer after) :
    s.pool.large.Gains after.large s.pool.large.count buffer := by
  obtain ⟨record, t, -, rfl⟩ := enlists
  exact LargeTable.gains_push

end PoolState

namespace Pool

variable {s : PoolState} {size : Nat} {buffer : Buffer}

/-- **A new slot** gets a record of its own. -/
theorem enterLarge_enlists (regular : s.pool.Regular) :
    Ends (enterLarge buffer) s (fun _ t => s.Enlists buffer t.pool) (fun _ _ => True) := by
  simp only [enterLarge, ends_bind, ends_discard, ends_getPool, ends_setPool]
  rw [ends_orRelease]
  refine (allocSmall_placed regular).mono (fun record t placed => ?_) fun failure t _ => ?_
  · have hlarge : t.pool.large = s.pool.large := by rw [placed.rest]
    exact ⟨record, t, placed, by rw [hlarge]⟩
  · -- without a record there is nothing to tell, whether the buffer is taken back or not
    cases failure with
    | refused error => exact .of_forall (fun _ _ => trivial) fun _ _ => trivial
    | fault fault => exact trivial

/-- A pool that enlists a buffer is the same pool, in the same generation. -/
private theorem regionAt_of_enlists {after : Pool} (enlists : s.Enlists buffer after)
    (place : Place) : after.regionAt size place = s.pool.regionAt size place := by
  obtain ⟨record, t, placed, rfl⟩ := enlists
  rw [placed.rest]
  rfl

/-- **A large request** takes the newest empty slot within reach; if there is none, it gets a new
one. -/
theorem allocLarge_enters (regular : s.pool.Regular) :
    Ends (allocLarge size) s
      (fun region t => s.Enters (.malloc size) PoolState.Enrols size region t)
      (fun _ _ => True) := by
  simp only [allocLarge, ends_bind, ends_getPool]
  rw [ends_request]
  refine ⟨fun buffer world call => ?_, fun _ _ _ => trivial⟩
  -- the newest empty slot among the last four, if there is one
  rcases s.pool.large.vacant_eq_empty_or_exists_isGreatest with full | ⟨index, newest⟩
  -- none within reach: a record goes into a block, and may need a new one
  · rw [LargeTable.reuse?_of_vacant_eq_empty full]
    simp only [ends_bind, ends_getPool, ends_log, ends_pure]
    refine Ends.mono (enterLarge_enlists regular) (fun _ t enlists => ?_) fun _ _ _ => trivial
    exact ⟨buffer, world, call, regionAt_of_enlists enlists _, .inr ⟨full, enlists⟩, _,
      enlists.gains⟩
  · rw [LargeTable.reuse?_of_isGreatest newest]
    simp only [ends_bind, ends_setPool, ends_getPool, ends_log, ends_pure]
    exact ⟨buffer, world, call, rfl, .inl ⟨index, newest, rfl⟩, index,
      LargeTable.gains_set newest.1.2⟩

/-- **A request at an alignment** gets a new slot, whatever slots are empty. -/
theorem allocAlignedTo_enters {align : Nat} (regular : s.pool.Regular) :
    Ends (allocAlignedTo size align) s
      (fun region t => s.Enters (.memalign align size) PoolState.Enlists size region t)
      (fun _ _ => True) := by
  rw [allocAlignedTo]
  split
  · simp only [ends_bind, ends_getPool, ends_pure]
    rw [ends_request]
    refine ⟨fun buffer world call => ?_, fun _ _ _ => trivial⟩
    refine Ends.mono (enterLarge_enlists regular) (fun _ t enlists => ?_) fun _ _ _ => trivial
    exact ⟨buffer, world, call, regionAt_of_enlists enlists _, enlists, _, enlists.gains⟩
  · exact trivial

/-! ### What becomes of a pool -/

/-- **A relation endures** between what a pool is and what becomes of it: no move and no reset leads
out of it. -/
structure Enduring (rel : Pool → Pool → Prop) : Prop where
  refl : ∀ pool, rel pool pool
  trans : ∀ {pool after last}, rel pool after → rel after last → rel pool last
  move : ∀ {a b : Stage}, Move a b → rel a.pool b.pool
  rewound : ∀ pool, rel pool pool.rewound

namespace Enduring

variable {rel : Pool → Pool → Prop} {s after : Session} {slot : Nat} {command : Command}
  {pool' : Pool}

theorem moves (enduring : Enduring rel) {a b : Stage} (h : Moves a b) : rel a.pool b.pool := by
  induction h with
  | refl => exact enduring.refl _
  | tail _ hmove ih => exact enduring.trans ih (enduring.move hmove)

/-- The pool in one slot is exchanged for what became of it, or is gone. -/
private theorem set (enduring : Enduring rel) {named : Nat} {pool : Pool} {entry : Option Pool}
    (there : s.pool? named = some pool) (became : ∀ last, entry = some last → rel pool last)
    (pools : after.pools = s.pools.set named entry) (here : after.pool? slot = some pool') :
    ∃ pool, s.pool? slot = some pool ∧ rel pool pool' := by
  rw [Session.pool?_of_set there pools] at here
  split at here
  · next heq => exact ⟨pool, heq ▸ there, became pool' here⟩
  · exact ⟨pool', here, enduring.refl pool'⟩

/-- However a command goes, what a pool has become is in the relation. -/
private theorem course {slot? : Option Nat} {reply : Reply} (enduring : Enduring rel)
    (h : s.Course slot? reply after) (here : after.pool? slot = some pool') :
    ∃ pool, s.pool? slot = some pool ∧ rel pool pool' := by
  cases h with
  | idle _ pools _ _ => exact ⟨pool', by rwa [Session.pool?, ← pools], enduring.refl pool'⟩
  | ended _ there moves settled _ =>
    refine enduring.set there (fun last heq => ?_) settled.pools here
    exact Option.some.inj heq ▸ enduring.moves moves
  -- what got stuck had moved on until then, and lost only what was in hand
  | stuck _ there stuck settled =>
    obtain ⟨b, moves, hpool, -⟩ := stuck
    refine enduring.set there (fun last heq => ?_) settled.pools here
    rw [← Option.some.inj heq, ← hpool]
    exact enduring.moves moves

/-- **Every command** leaves in every slot what became of the pool that was there. -/
theorem exec (enduring : Enduring rel) (sized : s.Sized) (issued : slot < s.pools.length)
    (here : (s.exec command).2.pool? slot = some pool') :
    ∃ pool, s.pool? slot = some pool ∧ rel pool pool' := by
  have hfate := Session.exec_fate sized command
  generalize (s.exec command).1 = reply, (s.exec command).2 = after at hfate here
  cases hfate with
  | ran course => exact enduring.course course here
  | spared pools _ _ => exact ⟨pool', by rwa [Session.pool?, ← pools], enduring.refl pool'⟩
  | opened _ _ =>
    -- a new pool is in a slot that had not been given out
    rw [Session.pool?_of_append rfl, if_neg (Nat.ne_of_lt issued)] at here
    exact ⟨pool', here, enduring.refl pool'⟩
  | @rewound _ pool _ there rewinds _ =>
    refine enduring.set there (fun last heq => ?_) rfl here
    rw [← Option.some.inj heq, rewinds]
    exact enduring.rewound pool
  | destroyed there _ =>
    refine enduring.set there (fun last hlast => ?_) rfl here
    cases hlast

/-- **Every history** does. -/
theorem run {history : List Command} (enduring : Enduring rel) (sized : s.Sized)
    (vouched : s.Vouched) (issued : slot < s.pools.length)
    (here : (s.run history).2.pool? slot = some pool') :
    ∃ pool, s.pool? slot = some pool ∧ rel pool pool' := by
  induction history generalizing s with
  | nil => exact ⟨pool', here, enduring.refl pool'⟩
  | cons command history ih =>
    have hstep : s.Step command (s.exec command).1 (s.exec command).2 := Session.exec_step vouched
    -- the later commands first, for they tell that the pool is there in between
    obtain ⟨middle, hmiddle, hlast⟩ :=
      ih sized.exec (vouched.step hstep) (Nat.lt_of_lt_of_le issued hstep.length_le) here
    obtain ⟨pool, hpool, hfirst⟩ := enduring.exec sized issued hmiddle
    exact ⟨pool, hpool, enduring.trans hfirst hlast⟩

end Enduring

/-- **Slots only become more.** -/
theorem enduring_count : Enduring fun pool after => pool.large.count ≤ after.large.count where
  refl _ := Nat.le_refl _
  trans := Nat.le_trans
  move {a b} h := by
    cases h with
    | @stored buffer hand large inHand slot =>
      rcases slot with rfl | hreuse
      · change a.pool.large.count ≤ (a.pool.large.push buffer).count
        rw [LargeTable.count_push]
        exact Nat.le_succ _
      · -- the slot that is filled was there before
        obtain ⟨index, -, rfl⟩ := Option.map_eq_some_iff.mp hreuse
        exact Nat.le_of_eq (LargeTable.count_set ..).symm
    | @withdrawn id buffer large slot =>
      have hcount : large.count = a.pool.large.count := LargeTable.count_take? slot
      exact Nat.le_of_eq hcount.symm
    | emptied => exact Nat.le_of_eq (LargeTable.count_emptied _).symm
    | wrote store offset data =>
      cases store with
      | block index => exact Nat.le_refl _
      | slot index => exact Nat.le_of_eq (LargeTable.count_overwrite ..).symm
    | _ => exact Nat.le_refl _
  rewound pool := Nat.le_of_eq (LargeTable.count_emptied pool.large).symm

end Pool

/-! ### In every history -/

/-- **How a pool registers large buffers**: a request above the threshold uses the newest empty slot
within reach, and one more slot only if there is none; a request at an alignment always uses one
more slot. -/
structure PoolState.Registers (s : PoolState) : Prop where
  large : ∀ packing size region t, s.pool.max < size →
    Pool.allocWith packing size s = .ok region t →
      s.Enters (.malloc size) PoolState.Enrols size region t
  aligned : ∀ align size region t, Pool.allocAlignedTo size align s = .ok region t →
    s.Enters (.memalign align size) PoolState.Enlists size region t

namespace Session

variable {slot : Nat} {pool : Pool}

/-- **How large buffers are registered**, in every pool of every history, and its slots are no fewer
than they were at any time before. -/
theorem run_registers {heap : Heap} {history : List Command}
    (here : ((Session.ofHeap heap).run history).2.pool? slot = some pool) :
    PoolState.Registers ⟨pool, ((Session.ofHeap heap).run history).2.world⟩ ∧
      ∀ earlier later, history = earlier ++ later → ∀ before,
        ((Session.ofHeap heap).run earlier).2.pool? slot = some before →
          before.large.count ≤ pool.large.count := by
  have sized := Sized.ofHeap heap
  have vouched := Vouched.ofHeap heap
  have regular : pool.Regular := ((Measured.ofHeap heap).run sized).regular vouched.run here
  refine ⟨⟨fun packing size region t hlt run => ?_, fun align size region t run =>
    (Pool.allocAlignedTo_enters regular).ok_of run⟩, fun earlier later hsplit before hbefore => ?_⟩
  · exact (Pool.allocLarge_enters regular).ok_of ((Pool.allocWith_of_lt hlt).symm.trans run)
  · subst hsplit
    rw [run_append] at here
    -- the count never falls from one command to the next, so neither over the later ones
    obtain ⟨middle, hmiddle, hle⟩ :=
      Pool.enduring_count.run sized.run vouched.run (lt_of_pool? hbefore) here
    obtain rfl := Option.some.inj (hbefore.symm.trans hmiddle)
    exact hle

/-- Slots that are emptied by a reset and by frees, out of order and one of them twice, so that two
of the empty ones are within reach and one is not. -/
def patchyHistory : List Command :=
  [.createPool { size := 256 } none, .alloc 0 600, .allocUnaligned 0 601, .alloc 0 602, .reset 0,
    .alloc 0 603, .allocAlignedTo 0 8 64, .alloc 0 604, .alloc 0 605, .allocAlignedTo 0 9 16,
    .alloc 0 606, .free 0 5, .free 0 4, .free 0 3, .free 0 3]

theorem run_registers_patchyHistory : ∃ pool,
    ((Session.ofHeap roomyHeap).run patchyHistory).2.pool? 0 = some pool ∧
      pool.large.slots.map Option.isSome = [true, false, false, false, true, true] ∧
      PoolState.Registers ⟨pool, ((Session.ofHeap roomyHeap).run patchyHistory).2.world⟩ ∧
      ∀ earlier later, patchyHistory = earlier ++ later → ∀ before,
        ((Session.ofHeap roomyHeap).run earlier).2.pool? 0 = some before →
          before.large.count ≤ pool.large.count := by
  have present : (((Session.ofHeap roomyHeap).run patchyHistory).2.pool? 0).map
      (fun pool => pool.large.slots.map Option.isSome) =
      some [true, false, false, false, true, true] := by
    decide +kernel
  obtain ⟨pool, here, hslots⟩ := Option.map_eq_some_iff.mp present
  exact ⟨pool, here, hslots, run_registers here⟩

end Session

end RegionPool
