import Mathlib.Data.List.Infix
import RegionPool.Proofs.Calls
import RegionPool.Proofs.LargeTable
import RegionPool.Proofs.Uniformity

/-!
# Names that count from an origin

Two pools that do the same do it under different names: they have other numbers, their buffers have
other numbers, and they are in other generations. The names become comparable once they count from
an origin, a moment in the life of each pool. A buffer is then the third one since that moment, a
generation the second one, and a call to the raw allocator the fifth.

* `Origin` — the moment, with `Origin.offset` and `Origin.age` for buffers and generations, neither
  of which confuses two names;
* `Origin.sight`, `Origin.complaint`, `Origin.calls` — regions, refusals and calls to the raw
  allocator in names that count from an origin;
* `Agree` — two series of answers of which one is the beginning of the other;
* `LargeTable.position?_congr` and its like — what a table of large buffers does depends on the
  offsets in its slots only;
* `Twins` — two pools in their worlds that differ in names only, and in what is in their memory;
* `Twins.called`, `Twins.resolve` — twins after a call to their raw allocators, and what they make
  of a region.
-/

namespace RegionPool

/-! ### Counting from an origin -/

/-- **A moment in the life of a pool** and of the caller who holds it. -/
structure Origin where
  pool : PoolId
  generation : Nat
  /-- The number of the next buffer. -/
  nextBuffer : Nat
  /-- How many calls to raw allocators there were. -/
  callCount : Nat
  /-- How many regions the caller had kept. -/
  regionCount : Nat
  /-- How many cleanup tickets the caller had kept. -/
  ticketCount : Nat
  deriving Repr, DecidableEq

/-- Where a region lives, in names that count from an origin. -/
inductive Spot where
  | block (index offset : Nat)
  | large (offset : ℤ)
  deriving Repr, DecidableEq

/-- **A region in names that count from an origin.** -/
structure Sight where
  /-- Whether it is a region of the pool. -/
  own : Bool
  age : ℤ
  length : Nat
  spot : Spot
  deriving Repr, DecidableEq

/-- A refusal in names that count from an origin. -/
inductive Complaint where
  | stale (regionAge poolAge : ℤ)
  | other (error : PoolError)
  deriving Repr, DecidableEq

/-- **A call to a raw allocator** in names that count from an origin. -/
inductive Call where
  | asked (request : Request) (granted : Option ℤ)
  | gaveBack (offset : ℤ)
  deriving Repr, DecidableEq

/-- Whether a request was granted. -/
def Call.answer? : Call → Option Bool
  | .asked _ granted => some granted.isSome
  | .gaveBack _ => none

/-- A refusal of the raw allocator. Where no layout exists, the reason that is given depends on
whether the allocator looks for one before it refuses. -/
def AllocError.normal : AllocError → AllocError
  | .outOfMemory size align =>
    if isLayout size align then .outOfMemory size align else .invalidLayout size align
  | .invalidLayout size align => .invalidLayout size align

namespace Origin

variable {o o' : Origin}

/-- The number of a buffer, counted from the first one after the origin. -/
def offset (o : Origin) (id : BufferId) : ℤ := id.number - o.nextBuffer

/-- How many resets after the origin a generation began. Generations have 32 bits, so the second
summand is nought for all of them. -/
def age (o : Origin) (generation : Nat) : ℤ :=
  (generation - o.generation) % 2 ^ (32 : Nat) + generation / 2 ^ (32 : Nat) * 2 ^ (32 : Nat)

/-- Where a region lives. -/
def spot (o : Origin) : Place → Spot
  | .block index offset => .block index offset
  | .large id => .large (o.offset id)

/-- **How a region looks** from the origin. -/
def sight (o : Origin) (region : Region) : Sight where
  own := region.pool = o.pool
  age := o.age region.generation
  length := region.length
  spot := o.spot region.place

/-- How a refusal looks from the origin. -/
def complaint (o : Origin) : PoolError → Complaint
  | .staleAllocation region pool => .stale (o.age region) (o.age pool)
  | .alloc error => .other (.alloc error.normal)
  | error => .other error

/-- How a call to a raw allocator looks from the origin. -/
def call? (o : Origin) : Event → Option Call
  | .requested request granted => some (.asked request (granted.map o.offset))
  | .freed id => some (.gaveBack (o.offset id))
  | _ => none

/-- **The calls to raw allocators** since the origin. -/
def calls (o : Origin) (w : World) : List Call := (w.rawCalls.drop o.callCount).filterMap o.call?

/-- **The answers to the requests** since the origin: whether they were granted. -/
def answers (o : Origin) (w : World) : List Bool := (o.calls w).filterMap Call.answer?

/-- The slots for large buffers, each with the number of its buffer. -/
def slots (o : Origin) (table : LargeTable) : List (Option ℤ) :=
  table.slots.map (Option.map fun buffer => o.offset buffer.id)

/-! ### No two names are confused -/

@[simp] theorem offset_inj {id id' : BufferId} : o.offset id = o.offset id' ↔ id = id' := by
  obtain ⟨number⟩ := id
  obtain ⟨number'⟩ := id'
  simp only [offset, BufferId.mk.injEq]
  omega

@[simp] theorem age_inj {generation generation' : Nat} :
    o.age generation = o.age generation' ↔ generation = generation' := by
  constructor
  · intro h
    unfold age at h
    omega
  · rintro rfl
    rfl

/-- A reset makes pools of the same age older by the same number. -/
theorem age_succ {generation generation' : Nat} (h : o'.age generation' = o.age generation) :
    o'.age ((generation' + 1) % 2 ^ (32 : Nat)) = o.age ((generation + 1) % 2 ^ (32 : Nat)) := by
  unfold age at *
  omega

/-- The next buffers have the same offset, since the last ones had. -/
theorem offset_succ {number number' : Nat} (h : o'.offset ⟨number'⟩ = o.offset ⟨number⟩) :
    o'.offset ⟨number' + 1⟩ = o.offset ⟨number + 1⟩ := by
  simp only [offset] at *
  omega

/-- Regions that look the same are in one place of their chains, or both have a buffer of their
own. -/
theorem places_of_spot {place place' : Place} (h : o'.spot place' = o.spot place) :
    (∃ index offset, place = .block index offset ∧ place' = .block index offset) ∨
      ∃ id id', place = .large id ∧ place' = .large id' ∧ o'.offset id' = o.offset id := by
  cases place with
  | block index offset =>
    cases place' with
    | block index' offset' =>
      obtain ⟨rfl, rfl⟩ := Spot.block.inj h
      exact .inl ⟨_, _, rfl, rfl⟩
    | large id' => cases h
  | large id =>
    cases place' with
    | block index' offset' => cases h
    | large id' => exact .inr ⟨id, id', rfl, rfl, Spot.large.inj h⟩

end Origin

/-! ### Tables of large buffers -/

namespace LargeTable

variable {o o' : Origin} {table twin : LargeTable} {id id' : BufferId} {buffer buffer' : Buffer}

/-- What a slot holds can be told from the offsets. -/
private theorem holds_iff_slots {index : Nat} :
    table.holds id index = true ↔ (o.slots table)[index]? = some (some (o.offset id)) := by
  rw [holds_eq_true_iff, Origin.slots, List.getElem?_map]
  rcases table.slots[index]? with _ | _ | held
  · simp
  · simp
  · simp

private theorem length_slots_congr (h : o'.slots twin = o.slots table) :
    twin.slots.length = table.slots.length := by
  have hlength := congrArg List.length h
  rwa [Origin.slots, Origin.slots, List.length_map, List.length_map] at hlength

/-- **Looking up** goes to the same slot. -/
theorem position?_congr (h : o'.slots twin = o.slots table) (hid : o'.offset id' = o.offset id) :
    twin.position? id' = table.position? id := by
  rw [position?, position?, length_slots_congr h]
  refine List.find?_congr fun index _ => ?_
  rw [Bool.eq_iff_iff, holds_iff_slots (o := o'), holds_iff_slots (o := o), h, hid]

private theorem slots_set (index : Nat) (entry : Option Buffer) :
    o.slots (table.set index entry) =
      (o.slots table).set index (entry.map fun buffer => o.offset buffer.id) := by
  rw [Origin.slots, set, List.map_set]
  rfl

private theorem offset_get? (index : Nat) :
    (table.get? index).map (fun buffer => o.offset buffer.id) = (o.slots table)[index]?.join := by
  rw [get?, Origin.slots, List.getElem?_map]
  rcases table.slots[index]? with _ | _ | held <;> rfl

/-- **Taking out** finds the same buffer and leaves the same slots. -/
theorem take?_congr (h : o'.slots twin = o.slots table) (hid : o'.offset id' = o.offset id) :
    (twin.take? id').map (fun taken => (o'.offset taken.1.id, o'.slots taken.2)) =
      (table.take? id).map fun taken => (o.offset taken.1.id, o.slots taken.2) := by
  -- the buffer comes from the slot, and the slot is empty afterwards
  have hseen : ∀ (o : Origin) (table : LargeTable) index,
      ((table.get? index).map fun buffer => (buffer, table.set index none)).map
          (fun taken => (o.offset taken.1.id, o.slots taken.2)) =
        (o.slots table)[index]?.join.map fun offset =>
          (offset, (o.slots table).set index none) := by
    intro o table index
    rw [← offset_get?, Option.map_map, Option.map_map]
    refine congrArg (Option.map · _) (funext fun buffer => ?_)
    simp only [Function.comp_apply, slots_set, Option.map_none]
  rw [take?, take?, position?_congr h hid]
  cases table.position? id with
  | none => rfl
  | some index => exact (hseen o' twin index).trans ((hseen o table index).symm ▸ h ▸ rfl)

/-- **Reusing a slot** takes the same one. -/
theorem reuse?_congr (h : o'.slots twin = o.slots table)
    (hid : o'.offset buffer'.id = o.offset buffer.id) :
    (twin.reuse? buffer').map o'.slots = (table.reuse? buffer).map o.slots :=
  map_slots_reuse?_congr h hid

/-- **A new slot** is the same. -/
theorem slots_push_congr (h : o'.slots twin = o.slots table)
    (hid : o'.offset buffer'.id = o.offset buffer.id) :
    o'.slots (twin.push buffer') = o.slots (table.push buffer) :=
  map_slots_push_congr h hid

/-- An emptied table shows how many slots it has. -/
theorem slots_emptied (table : LargeTable) :
    o.slots table.emptied = List.replicate table.count none := by
  rw [Origin.slots, emptied, List.map_map, count]
  exact List.map_const' ..

/-- The same buffers are held, in the same order. -/
theorem offsets_buffers_congr (h : o'.slots twin = o.slots table) :
    twin.buffers.map (fun buffer => o'.offset buffer.id) =
      table.buffers.map fun buffer => o.offset buffer.id := by
  have hseen : ∀ (o : Origin) (table : LargeTable),
      table.buffers.map (fun buffer => o.offset buffer.id) =
        (o.slots table).reverse.reduceOption := by
    intro o table
    rw [Origin.slots, ← List.map_reverse, List.reduceOption_map]
    rfl
  rw [hseen, hseen, h]

theorem count_congr (h : o'.slots twin = o.slots table) : twin.count = table.count :=
  length_slots_congr h

/-- As many slots hold a buffer. -/
theorem live_congr (h : o'.slots twin = o.slots table) : twin.live = table.live := by
  have hseen : ∀ (o : Origin) (table : LargeTable),
      table.live = (o.slots table).countP Option.isSome := by
    intro o table
    rw [live, Origin.slots, List.countP_map]
    refine List.countP_congr fun entry _ => ?_
    cases entry <;> simp
  rw [hseen o', hseen o, h]

end LargeTable

/-! ### Answers -/

/-- **Two series of answers agree**: as far as both go, they are the same. -/
def Agree (answers answers' : List Bool) : Prop := answers <+: answers' ∨ answers' <+: answers

instance (answers answers' : List Bool) : Decidable (Agree answers answers') :=
  inferInstanceAs (Decidable (_ ∨ _))

/-- What agrees, agreed before. -/
theorem Agree.of_prefix {earlier earlier' later later' : List Bool} (agree : Agree later later')
    (h : earlier <+: later) (h' : earlier' <+: later') : Agree earlier earlier' := by
  rcases agree with hle | hle
  · exact List.prefix_or_prefix_of_prefix (h.trans hle) h'
  · exact List.prefix_or_prefix_of_prefix h (h'.trans hle)

/-- After the same answers, the next ones are the same as well. -/
theorem Agree.last {answers : List Bool} {answer answer' : Bool}
    (agree : Agree (answers ++ [answer]) (answers ++ [answer'])) : answer = answer' := by
  have hone : ∀ {a b : Bool}, answers ++ [a] <+: answers ++ [b] → a = b := by
    intro a b h
    have hsingle := (List.prefix_append_right_inj answers).mp h
    exact (List.cons_prefix_cons.mp hsingle).1
  rcases agree with h | h
  · exact hone h
  · exact (hone h).symm

namespace Origin

variable {o : Origin} {w w' : World} {event : Event}

/-- One more call. -/
theorem calls_append (h : w'.rawCalls = w.rawCalls ++ [event])
    (started : o.callCount ≤ w.rawCalls.length) :
    o.calls w' = o.calls w ++ (o.call? event).toList := by
  rw [calls, calls, h, List.drop_append_of_le_length started, List.filterMap_append]
  cases hcall : o.call? event <;> simp [hcall]

/-- What was answered is not taken back. -/
theorem answers_prefix (h : w.events <+: w'.events) : o.answers w <+: o.answers w' :=
  (((h.filter _).drop _).filterMap _).filterMap _

end Origin

/-! ### Twins -/

/-- **Two pools in their worlds that differ in names only**, and in what is in their memory. -/
structure Twins (o o' : Origin) (s u : PoolState) : Prop where
  id : s.pool.id = o.pool
  id' : u.pool.id = o'.pool
  age : o'.age u.pool.generation = o.age s.pool.generation
  chain : u.pool.chain.bare = s.pool.chain.bare
  blockSize : u.pool.blockSize = s.pool.blockSize
  max : u.pool.max = s.pool.max
  slots : o'.slots u.pool.large = o.slots s.pool.large
  nextBuffer : o'.offset ⟨u.world.nextBuffer⟩ = o.offset ⟨s.world.nextBuffer⟩
  calls : o'.calls u.world = o.calls s.world
  started : o.callCount ≤ s.world.rawCalls.length
  started' : o'.callCount ≤ u.world.rawCalls.length

namespace Twins

variable {o o' : Origin} {s u : PoolState} {region region' : Region}

/-- Entries in the log make no difference. -/
theorem log (twins : Twins o o' s u) (entry entry' : LogEntry) :
    Twins o o' { s with world := s.world.log entry } { u with world := u.world.log entry' } :=
  { twins with
    calls := by simpa only [Origin.calls, World.rawCalls_log] using twins.calls
    started := by simpa only [World.rawCalls_log] using twins.started
    started' := by simpa only [World.rawCalls_log] using twins.started' }

/-- **Twins after a call** to their raw allocators. -/
theorem called {world world' : World} {event event' : Event} (twins : Twins o o' s u)
    (h : world.rawCalls = s.world.rawCalls ++ [event])
    (h' : world'.rawCalls = u.world.rawCalls ++ [event']) (hcall : o'.call? event' = o.call? event)
    (hnext : o'.offset ⟨world'.nextBuffer⟩ = o.offset ⟨world.nextBuffer⟩) :
    Twins o o' { s with world } { u with world := world' } :=
  { twins with
    nextBuffer := hnext
    calls := by
      -- the call is the last one on either side, and was made since both started
      rw [Origin.calls_append h twins.started, Origin.calls_append h' twins.started', twins.calls,
        hcall]
    started := by
      have hstarted := twins.started
      rw [h, List.length_append]
      exact Nat.le_add_right_of_le hstarted
    started' := by
      have hstarted := twins.started'
      rw [h', List.length_append]
      exact Nat.le_add_right_of_le hstarted }

/-- The chains are as long as each other. -/
theorem blockCount (twins : Twins o o' s u) : u.pool.blockCount = s.pool.blockCount := by
  have hlength := congrArg (fun chain : Chain => chain.blocks.length) twins.chain
  simp only [Chain.length_blocks_bare] at hlength
  exact hlength

/-- Both chains are replaced. -/
theorem setChain (twins : Twins o o' s u) {chain chain' : Chain} (h : chain'.bare = chain.bare) :
    Twins o o' { s with pool := { s.pool with chain } }
      { u with pool := { u.pool with chain := chain' } } :=
  { twins with chain := h }

/-- Both tables are replaced. -/
theorem setLarge (twins : Twins o o' s u) {large large' : LargeTable}
    (h : o'.slots large' = o.slots large) :
    Twins o o' { s with pool := { s.pool with large } }
      { u with pool := { u.pool with large := large' } } :=
  { twins with slots := h }

/-- Cleanup records make no difference. -/
theorem setCleanups (twins : Twins o o' s u) {cleanups cleanups' : CleanupStack} :
    Twins o o' { s with pool := { s.pool with cleanups } }
      { u with pool := { u.pool with cleanups := cleanups' } } :=
  { twins with }

/-- **Both chains are cleared**, and a new generation begins. -/
theorem renewed (twins : Twins o o' s u) :
    Twins o o'
      { s with pool := { s.pool with
          chain := s.pool.chain.reset
          generation := (s.pool.generation + 1) % 2 ^ (32 : Nat) } }
      { u with pool := { u.pool with
          chain := u.pool.chain.reset
          generation := (u.pool.generation + 1) % 2 ^ (32 : Nat) } } :=
  { twins with
    chain := by rw [Chain.bare_reset, Chain.bare_reset, twins.chain]
    age := Origin.age_succ twins.age }

/-- What twins hand out looks the same. -/
theorem sight_regionAt (twins : Twins o o' s u) {place place' : Place} (length : Nat)
    (h : o'.spot place' = o.spot place) :
    o'.sight (u.pool.regionAt length place') = o.sight (s.pool.regionAt length place) := by
  simp only [Origin.sight, Pool.regionAt, twins.id, twins.id', twins.age, h]

/-- A region that looks the same belongs to both twins or to neither. -/
theorem own_iff (twins : Twins o o' s u) (h : o'.sight region' = o.sight region) :
    region'.pool = u.pool.id ↔ region.pool = s.pool.id := by
  have hown := congrArg Sight.own h
  simp only [Origin.sight, decide_eq_decide] at hown
  rw [twins.id, twins.id', hown]

/-- **What twins make of a region** that looks the same: it is in the same store of both, or they
refuse it for the same reason. -/
theorem resolve (twins : Twins o o' s u) (h : o'.sight region' = o.sight region) :
    (∃ found, s.pool.resolve region = .ok found ∧ u.pool.resolve region' = .ok found) ∨
      ∃ error error', s.pool.resolve region = .error error ∧
        u.pool.resolve region' = .error error' ∧ o'.complaint error' = o.complaint error := by
  have hown := twins.own_iff h
  have hage : o'.age region'.generation = o.age region.generation := congrArg Sight.age h
  have hspot : o'.spot region'.place = o.spot region.place := congrArg Sight.spot h
  have hcurrent : region'.generation = u.pool.generation ↔
      region.generation = s.pool.generation := by
    rw [← Origin.age_inj (o := o'), ← Origin.age_inj (o := o), hage, twins.age]
  -- the checks of the two run side by side, for they compare what looks the same
  unfold Pool.resolve
  simp only [ne_eq, hown, hcurrent]
  split
  · exact .inr ⟨_, _, rfl, rfl, rfl⟩
  · split
    · exact .inr ⟨_, _, rfl, rfl, by simp only [Origin.complaint, hage, twins.age]⟩
    -- blocks go by their index, large allocations by what their identifier stands for
    · obtain ⟨index, offset, hplace, hplace'⟩ | ⟨id, id', hplace, hplace', hid⟩ :=
        Origin.places_of_spot hspot
      · rw [hplace, hplace']
        exact .inl ⟨_, rfl, rfl⟩
      · rw [hplace, hplace']
        dsimp only
        rw [LargeTable.position?_congr twins.slots hid]
        split
        · exact .inl ⟨_, rfl, rfl⟩
        · exact .inr ⟨_, _, rfl, rfl, rfl⟩

end Twins

end RegionPool
