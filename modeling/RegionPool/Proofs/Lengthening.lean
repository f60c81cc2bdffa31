import RegionPool.Proofs.Growth

/-!
# How containers are made and become longer

An operation on a container calls on its pool several times, and other modules ask different things
of it: how much room there is afterwards, where the elements are, what was claimed last. Here it is
said once, for every operation that has a result, what was asked of the pool and what came of it.
Everything else about a container is read off from that, by cases.

* `GrowArray.Made`, `make_made` — a new array, with or without a header;
* `GrowArray.Roomier` — the three ways of making room in an array; `Growth.push_ends` — room is
  made, and then the new elements are counted;
* `PartList.Made`, `PartList.Opened`, `PartList.push_ends` — the same for lists.
-/

namespace RegionPool

open PoolM

/-- An action ends the way it runs. -/
theorem ends_self {α : Type} (action : PoolM α) (s : PoolState) :
    Ends action s (fun a t => action s = .ok a t)
      (fun failure t => action s = .error failure t) := by
  cases run : action s with
  | ok a t => exact (ends_of_ok run).mpr rfl
  | error failure t => exact (ends_of_error run).mpr rfl

/-- Handing out a slot changes nothing, and the slot was read. -/
private theorem handOut_ends {α : Type} (slot : Slot) (a : α) (s : PoolState) :
    Ends (do discard <| ofPool slot.bytes; return a) s
      (fun b t => b = a ∧ t = s ∧ ∃ bytes, slot.bytes t.pool = .ok bytes) (fun _ _ => True) := by
  rw [ends_bind, ends_discard, ends_ofPool]
  exact ⟨fun bytes hbytes => ⟨rfl, rfl, bytes, hbytes⟩, fun _ _ => trivial⟩

/-! ### Arrays -/

namespace GrowArray

variable {s t : PoolState} {array : GrowArray} {capacity n : Nat} {headed : Bool}

/-- Make an array, with a header or without. -/
def make (headed : Bool) (capacity elementSize : Nat) : PoolM GrowArray :=
  if headed then create capacity elementSize else init capacity elementSize

/-- **An array is made.** Its elements were allocated, and before them its header, if it has one. -/
inductive Made (capacity elementSize : Nat) (s : PoolState) : Bool → GrowArray → PoolState → Prop
  | bare {elements t} (run : Pool.alloc (capacity * elementSize) s = .ok elements t) :
    Made capacity elementSize s false
      { header := none, elements, count := 0, elementSize, capacity } t
  | headed {header elements t u} (first : Pool.alloc Layout.arrayHeaderSize s = .ok header t)
      (run : Pool.alloc (capacity * elementSize) t = .ok elements u) :
    Made capacity elementSize s true
      { header := some header, elements, count := 0, elementSize, capacity } u

private theorem init_ends {elementSize : Nat} : Ends (init capacity elementSize) s
    (fun array t => ∃ elements, Pool.alloc (capacity * elementSize) s = .ok elements t ∧
      array = { header := none, elements, count := 0, elementSize, capacity })
    (fun _ _ => True) := by
  simp only [init, ends_bind, ends_pure]
  rw [ends_ofPool]
  refine ⟨fun size hsize => ?_, fun _ _ => trivial⟩
  obtain rfl := eq_of_byteLength hsize
  exact (ends_self _ s).mono (fun elements t run => ⟨elements, run, rfl⟩) fun _ _ _ => trivial

/-- **Making an array** that has a result. -/
theorem make_made {elementSize : Nat} : Ends (make headed capacity elementSize) s
    (fun array t => Made capacity elementSize s headed array t) (fun _ _ => True) := by
  cases headed with
  | false =>
    refine init_ends.mono (fun array t ht => ?_) fun _ _ _ => trivial
    obtain ⟨elements, run, rfl⟩ := ht
    exact .bare run
  -- the header is asked for first, and the elements in the state that this leaves
  | true =>
    simp only [make, if_true, create, ends_bind, ends_pure]
    refine (ends_self _ s).mono (fun header t first => ?_) fun _ _ _ => trivial
    refine init_ends.mono (fun array u hu => ?_) fun _ _ _ => trivial
    obtain ⟨elements, run, rfl⟩ := hu
    exact .headed first run

/-- The number of elements that are appended. -/
def Growth.size : Growth → Nat
  | .one => 1
  | .many n => n

/-- **Room is made for `n` more elements.** There was enough of it; or the region is lengthened by
what they take up; or the elements move to a region with room for no more than twice as many as
there will be. -/
inductive Roomier (array : GrowArray) (n : Nat) (s : PoolState) : GrowArray → PoolState → Prop
  | ample (room : array.count + n ≤ array.capacity) : Roomier array n s array s
  | lengthened {elements pool} (full : array.capacity < array.count + n)
      (run : s.pool.extend array.elements (n * array.elementSize) = .ok (some elements, pool)) :
    Roomier array n s { array with elements, capacity := array.capacity + n } { s with pool }
  | moved {capacity elements t pool} (full : array.capacity < array.count + n)
      (stuck : s.pool.extend array.elements (n * array.elementSize) = .ok (none, s.pool))
      (larger : max (array.count + n) array.capacity ≤ capacity)
      (twice : capacity ≤ 2 * (array.count + n))
      (run : Pool.alloc (capacity * array.elementSize) s = .ok elements t)
      (copied : t.pool.copy array.elements elements (array.count * array.elementSize) = .ok pool) :
    Roomier array n s { array with elements, capacity }
      { pool, world := t.world.log (.arrayRelocated array.capacity capacity) }

/-- Moving the elements, once it is known that they cannot stay. -/
private theorem relocate_ends (full : array.capacity < array.count + n)
    (stuck : s.pool.extend array.elements (n * array.elementSize) = .ok (none, s.pool))
    (larger : max (array.count + n) array.capacity ≤ capacity)
    (twice : capacity ≤ 2 * (array.count + n)) :
    Ends (array.relocate capacity) s (fun roomier t => array.Roomier n s roomier t)
      (fun _ _ => True) := by
  simp only [relocate, ends_bind, ends_log, ends_pure]
  rw [ends_ofPool]
  -- `Roomier.moved` takes the two steps that are left: the buffer and the copy
  refine ⟨fun size hsize => ?_, fun _ _ => trivial⟩
  obtain rfl := eq_of_byteLength hsize
  refine (ends_self _ s).mono (fun elements t run => ?_) fun _ _ _ => trivial
  rw [ends_onPool]
  refine ⟨fun _ pool hrun => ?_, fun _ _ => trivial⟩
  obtain ⟨after, copied, hpure⟩ := bind_eq_ok_iff.mp hrun
  obtain ⟨-, rfl⟩ := Prod.mk.inj (pure_eq_ok_iff.mp hpure)
  exact .moved (t := t) full stuck larger twice run copied

/-- **Making room**, where the array is or elsewhere. -/
private theorem growBy_ends {moved : Except Failure Nat} (full : array.capacity < array.count + n)
    (hmoved : ∀ capacity, moved = .ok capacity →
      max (array.count + n) array.capacity ≤ capacity ∧ capacity ≤ 2 * (array.count + n)) :
    Ends (array.growBy n (n * array.elementSize) moved) s
      (fun roomier t => array.Roomier n s roomier t) (fun _ _ => True) := by
  rw [growBy, ends_bind, ends_onPool]
  refine ⟨fun extended pool hrun => ?_, fun _ _ => trivial⟩
  cases extended with
  | some elements => exact .lengthened full hrun
  | none =>
    -- a region that cannot be lengthened leaves the pool alone
    obtain rfl := Pool.eq_of_extend_none hrun
    rw [ends_bind, ends_ofPool]
    refine ⟨fun capacity hok => ?_, fun _ _ => trivial⟩
    obtain ⟨larger, twice⟩ := hmoved capacity hok
    exact relocate_ends full hrun larger twice

/-- The array once `n` more elements are counted, and their slot. -/
def counted (array : GrowArray) (n : Nat) : Slot × GrowArray :=
  ({ region := array.elements, start := array.count * array.elementSize,
     length := n * array.elementSize }, { array with count := array.count + n })

/-- **What comes of appending**: room is made, and then the new elements are counted. Their slot was
read. -/
def Pushed (array : GrowArray) (n : Nat) (s : PoolState) (pushed : Slot × GrowArray)
    (t : PoolState) : Prop :=
  ∃ roomier, array.Roomier n s roomier t ∧ pushed = roomier.counted n ∧
    ∃ bytes, pushed.1.bytes t.pool = .ok bytes

private theorem claim_ends : Ends (array.claim n) s
    (fun claimed t => claimed = array.counted n ∧ t = s ∧
      ∃ bytes, claimed.1.bytes t.pool = .ok bytes) (fun _ _ => True) :=
  (handOut_ends _ (array.counted n) s).mono
    (fun _ _ ht => ⟨ht.1, ht.2.1, by rw [ht.1]; exact ht.2.2⟩) fun _ _ h => h

private theorem Roomier.claim_ends {roomier : GrowArray} (h : array.Roomier n s roomier t) :
    Ends (roomier.claim n) t (array.Pushed n s) (fun _ _ => True) := by
  refine GrowArray.claim_ends.mono (fun claimed u hu => ?_) fun _ _ h => h
  obtain ⟨rfl, rfl, hread⟩ := hu
  exact ⟨roomier, h, rfl, hread⟩

/-- Room for one element is doubled, and never none. -/
private theorem eq_of_doubled {count capacity : Nat}
    (h : (max 1) <$> checkedCount count = .ok capacity) : capacity = max 1 count := by
  cases hchecked : checkedCount count with
  | error failure =>
    rw [hchecked] at h
    cases h
  | ok checked =>
    rw [hchecked] at h
    obtain rfl := eq_of_checkedCount hchecked
    exact (Except.ok.inj h).symm

/-- **Appending**, by one or by several, to an array that is not over-full. -/
theorem Growth.push_ends (growth : Growth) (le : array.count ≤ array.capacity) :
    Ends (growth.push array) s (array.Pushed growth.size s) (fun _ _ => True) := by
  cases growth with
  | one =>
    show Ends array.push s (array.Pushed 1 s) _
    rw [GrowArray.push]
    split
    · next hfull =>
      -- a full array asks for room for one more, and moves to one of twice the capacity if need be
      rw [ends_bind]
      have hgrown : Ends (array.growBy 1 (1 * array.elementSize)
          ((max 1) <$> checkedCount (array.capacity * 2))) s (array.Roomier 1 s)
          (fun _ _ => True) := by
        refine growBy_ends (by omega) fun capacity hok => ?_
        have := eq_of_doubled hok
        omega
      rw [Nat.one_mul] at hgrown
      exact hgrown.mono (fun _ _ ht => ht.claim_ends) fun _ _ h => h
    · exact Roomier.claim_ends (.ample (by omega))
  | many n =>
    show Ends (array.pushMany n) s (array.Pushed n s) _
    rw [pushMany, ends_bind, ends_ofPool]
    refine ⟨fun needed hneeded => ?_, fun _ _ => trivial⟩
    obtain rfl := eq_of_checkedCount hneeded
    split
    · next hfull =>
      -- it asks for room for all of them, although it may have room for some already
      rw [ends_bind, ends_ofPool]
      refine ⟨fun size hsize => ?_, fun _ _ => trivial⟩
      obtain rfl := eq_of_byteLength hsize
      rw [ends_bind]
      refine (growBy_ends hfull fun capacity hok => ?_).mono (fun _ _ ht => ht.claim_ends)
        fun _ _ h => h
      have := eq_of_checkedCount hok
      omega
    · next hroom => exact Roomier.claim_ends (.ample (Nat.le_of_not_lt hroom))

namespace Roomier

variable {roomier : GrowArray}

theorem elementSize_eq (h : array.Roomier n s roomier t) :
    roomier.elementSize = array.elementSize := by
  cases h <;> rfl

theorem count_eq (h : array.Roomier n s roomier t) : roomier.count = array.count := by
  cases h <;> rfl

/-- **There is room now**, no less than before, and no more than twice what is needed unless there
was more before. -/
theorem capacity_bounds (h : array.Roomier n s roomier t) (le : array.count ≤ array.capacity) :
    array.count + n ≤ roomier.capacity ∧ array.capacity ≤ roomier.capacity ∧
      roomier.capacity ≤ max array.capacity (2 * (array.count + n)) := by
  cases h with
  | ample room => omega
  | lengthened full _ => dsimp only; omega
  | moved full _ larger twice _ _ => dsimp only; omega

/-- **The region has room for the capacity**, and for no more. -/
theorem room (h : array.Roomier n s roomier t)
    (room : array.elements.length = array.capacity * array.elementSize) :
    roomier.elements.length = roomier.capacity * roomier.elementSize := by
  cases h with
  | ample _ => exact room
  | @lengthened elements pool _ run =>
    rcases Pool.extend_eq_ok run with ⟨hnone, -⟩ | ⟨_, _, -, -, -, -, hsome, -⟩
    · cases hnone
    · obtain rfl := Option.some.inj hsome
      -- the bytes that were added are so many times an element
      change array.elements.length + n * array.elementSize = _
      rw [room, ← Nat.add_mul]
  | moved _ _ _ _ run _ => exact Pool.length_of_allocWith.ok_of run

end Roomier

end GrowArray

/-! ### Lists -/

namespace PartList

variable {s t : PoolState} {list : PartList} {partCapacity : PartCapacity} {headed : Bool}

/-- Make a list, with a header or without. -/
def make (headed : Bool) (partCapacity : PartCapacity) (elementSize : Nat) : PoolM PartList :=
  if headed then create partCapacity elementSize else init partCapacity elementSize

/-- **A list is made.** Its first part was allocated, and before that its header, if it has one. -/
inductive Made (partCapacity : PartCapacity) (elementSize : Nat) (s : PoolState) :
    Bool → PartList → PoolState → Prop
  | bare {elements t} (run : Pool.alloc (partCapacity * elementSize) s = .ok elements t) :
    Made partCapacity elementSize s false
      { header := none, earlier := [], last := ⟨none, elements, 0⟩, partCapacity, elementSize } t
  | headed {header elements t u} (first : Pool.alloc Layout.listHeaderSize s = .ok header t)
      (run : Pool.alloc (partCapacity * elementSize) t = .ok elements u) :
    Made partCapacity elementSize s true
      { header := some header, earlier := [], last := ⟨none, elements, 0⟩, partCapacity,
        elementSize } u

private theorem init_ends {elementSize : Nat} : Ends (init partCapacity elementSize) s
    (fun list t => ∃ elements, Pool.alloc (partCapacity * elementSize) s = .ok elements t ∧
      list = { header := none, earlier := [], last := ⟨none, elements, 0⟩, partCapacity,
               elementSize })
    (fun _ _ => True) := by
  simp only [init, ends_bind, ends_pure]
  rw [ends_ofPool]
  refine ⟨fun size hsize => ?_, fun _ _ => trivial⟩
  obtain rfl := eq_of_byteLength hsize
  exact (ends_self _ s).mono (fun elements t run => ⟨elements, run, rfl⟩) fun _ _ _ => trivial

/-- **Making a list** that has a result. -/
theorem make_made {elementSize : Nat} : Ends (make headed partCapacity elementSize) s
    (fun list t => Made partCapacity elementSize s headed list t) (fun _ _ => True) := by
  cases headed with
  | false =>
    refine init_ends.mono (fun list t ht => ?_) fun _ _ _ => trivial
    obtain ⟨elements, run, rfl⟩ := ht
    exact .bare run
  | true =>
    simp only [make, if_true, create, ends_bind, ends_pure]
    refine (ends_self _ s).mono (fun header t first => ?_) fun _ _ _ => trivial
    refine init_ends.mono (fun list u hu => ?_) fun _ _ _ => trivial
    obtain ⟨elements, run, rfl⟩ := hu
    exact .headed first run

/-- **The last part is open**: it has room for an element. It was not full; or a part was appended,
once the full one was found in the pool. -/
inductive Opened (list : PartList) (s : PoolState) : PartList → PoolState → Prop
  | ample (room : list.last.count < list.partCapacity) : Opened list s list s
  | started {found header elements t u} (full : list.last.count = list.partCapacity)
      (known : s.pool.locate list.last.elements = .ok found)
      (first : Pool.alloc Layout.listPartHeaderSize s = .ok header t)
      (run : Pool.alloc (list.partCapacity * list.elementSize) t = .ok elements u) :
    Opened list s
      { list with earlier := list.parts, last := ⟨some header, elements, 0⟩ }
      { u with world := u.world.log (.listPartAppended
        ({ list with earlier := list.parts, last := ⟨some header, elements, 0⟩ } :
          PartList).partCount) }

/-- The list once an element of the last part is counted, and its slot. -/
def counted (list : PartList) : Slot × PartList :=
  ({ region := list.last.elements, start := list.last.count * list.elementSize,
     length := list.elementSize },
    { list with last := { list.last with count := list.last.count + 1 } })

/-- **What comes of appending**: the last part is opened, and then the element is counted. Its slot
was read. -/
def Pushed (list : PartList) (s : PoolState) (pushed : Slot × PartList) (t : PoolState) : Prop :=
  ∃ opened, list.Opened s opened t ∧ pushed = opened.counted ∧
    ∃ bytes, pushed.1.bytes t.pool = .ok bytes

private theorem Opened.claim_ends {opened : PartList} (h : list.Opened s opened t) :
    Ends opened.claim t (list.Pushed s) (fun _ _ => True) := by
  refine (handOut_ends _ opened.counted t).mono (fun claimed u hu => ?_) fun _ _ h => h
  obtain ⟨rfl, rfl, hread⟩ := hu
  exact ⟨opened, h, rfl, hread⟩

private theorem appendPart_ends (full : list.last.count = list.partCapacity) :
    Ends list.appendPart s (fun opened t => list.Opened s opened t) (fun _ _ => True) := by
  simp only [appendPart, ends_bind, ends_discard, ends_log, ends_pure]
  refine ends_ofPool.mpr ⟨fun found known => ?_, fun _ _ => trivial⟩
  refine (ends_self _ s).mono (fun header t first => ?_) fun _ _ _ => trivial
  refine ends_ofPool.mpr ⟨fun size hsize => ?_, fun _ _ => trivial⟩
  obtain rfl := eq_of_byteLength hsize
  refine (ends_self _ t).mono (fun elements u run => ?_) fun _ _ _ => trivial
  exact .started full known first run

/-- **Appending** to a list whose last part is not over-full. -/
theorem push_ends (le : list.last.count ≤ list.partCapacity) :
    Ends list.push s (list.Pushed s) (fun _ _ => True) := by
  rw [push]
  split
  · next full =>
    rw [ends_bind]
    exact (appendPart_ends full).mono (fun _ _ ht => ht.claim_ends) fun _ _ h => h
  · next hne => exact Opened.claim_ends (.ample (Nat.lt_of_le_of_ne le hne))

end PartList

end RegionPool
