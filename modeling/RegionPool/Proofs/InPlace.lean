import RegionPool.Proofs.Withdrawals

/-!
# Containers that are changed where they are

A caller keeps a container in one place, and an operation that appends to it changes it there: the
region of its elements, its capacity, its count, one after the other, each as soon as it is known.
What was written before something fails stays written. Here the operations are put down that way,
and compared with those that hand the container out anew: if they have a result, the container in
place has become the one that is handed out, and if they fail, nothing of it has been written.

This is a matter of order. What can fail comes before what is written, except for the last step, a
look at the bytes of the slot, which comes after the elements were counted. It does not fail, for
there is room for them.

* `InPlace` — actions on a pool and on a value in place; `Commits` — such an action writes all or
  nothing;
* `GrowArray.pushInPlace`, `GrowArray.pushManyInPlace`, `PartList.pushInPlace` — the operations;
* `GrowArray.pushInPlace_commits` and its like — they agree with those that hand out.
-/

namespace RegionPool

open PoolM

/-! ### Actions in place -/

/-- **An action in place** works on a pool in its world, and on a value of the caller's. -/
abbrev InPlace (γ : Type) := EStateM Failure (PoolState × γ)

namespace InPlace

variable {α β γ δ ε : Type}

/-- An action on the pool. -/
def onPool (action : PoolM α) : InPlace γ α := fun (s, value) =>
  match action s with
  | .ok a t => .ok a (t, value)
  | .error failure t => .error failure (t, value)

/-- The value as it is now. -/
def value : InPlace γ γ := fun s => .ok s.2 s

/-- Write to the value. -/
def store (f : γ → γ) : InPlace γ Unit := fun (s, value) => .ok () (s, f value)

/-- **All or nothing**: an action in place that has a result has made the value what another action
hands out, and one that fails has left it alone. What is handed out consists of the result and the
value. -/
def Commits (action : InPlace γ α) (update : PoolM β) (parts : β → α × γ) (s : PoolState)
    (value : γ) : Prop :=
  action (s, value) =
    match update s with
    | .ok b t => .ok (parts b).1 (t, (parts b).2)
    | .error failure t => .error failure (t, value)

namespace Commits

variable {action : InPlace γ α} {update : PoolM β} {parts : β → α × γ} {next : α → InPlace γ δ}
  {continued : β → PoolM ε} {parts' : ε → δ × γ} {s : PoolState} {value : γ}

/-- The value is looked at. -/
theorem look {next : γ → InPlace γ δ} {update : PoolM ε}
    (h : Commits (next value) update parts' s value) :
    Commits (InPlace.value >>= next) update parts' s value := h

/-- What is done to the pool does not reach the value. -/
theorem onPool {pooled : PoolM α} {next : α → InPlace γ δ} {continued : α → PoolM ε}
    (h : ∀ a t, pooled s = .ok a t → Commits (next a) (continued a) parts' t value) :
    Commits (InPlace.onPool pooled >>= next) (pooled >>= continued) parts' s value := by
  rw [Commits]
  cases run : pooled s with
  | ok a t =>
    rw [bind_of_ok run, ← h a t run]
    simp only [bind, EStateM.bind, InPlace.onPool, run]
  | error failure t =>
    rw [bind_of_error run]
    simp only [bind, EStateM.bind, InPlace.onPool, run]

/-- What is asked of the pool changes nothing. -/
theorem ofPool {f : Pool → Except Failure α} {next : α → InPlace γ δ} {continued : α → PoolM ε}
    (h : ∀ a, f s.pool = .ok a → Commits (next a) (continued a) parts' s value) :
    Commits (InPlace.onPool (PoolM.ofPool f) >>= next) (PoolM.ofPool f >>= continued) parts' s
      value := by
  refine onPool fun a t run => ?_
  have hends : Ends (PoolM.ofPool f) s (fun a t => t = s ∧ f s.pool = .ok a) fun _ _ => True :=
    ends_ofPool.mpr ⟨fun a ha => ⟨rfl, ha⟩, fun _ _ => trivial⟩
  obtain ⟨rfl, ha⟩ := hends.ok_of run
  exact h a ha

/-- **One after the other.** What comes second may write only if it goes through, for what came
first has written already. -/
theorem bind (h : Commits action update parts s value)
    (hnext : ∀ b t, update s = .ok b t → Succeeds (continued b) t (fun _ _ => True) ∧
      Commits (next (parts b).1) (continued b) parts' t (parts b).2) :
    Commits (action >>= next) (update >>= continued) parts' s value := by
  rw [Commits] at h ⊢
  cases run : update s with
  | ok b t =>
    rw [run] at h
    obtain ⟨succeeds, hcommits⟩ := hnext b t run
    -- the rest goes through, so it may write at once
    obtain ⟨c, u, run', -⟩ := succeeds.exists_ok
    rw [Commits, run'] at hcommits
    rw [bind_of_ok run, run']
    simp only [Bind.bind, EStateM.bind, h, hcommits]
  | error failure t =>
    rw [run] at h
    rw [bind_of_error run]
    simp only [Bind.bind, EStateM.bind, h]

/-- **A failure** has written nothing. -/
theorem eq_error (h : Commits action update parts s value) {failure : Failure} {t : PoolState}
    {after : γ} (run : action (s, value) = .error failure (t, after)) :
    after = value ∧ update s = .error failure t := by
  rw [Commits, run] at h
  -- what the other form returned decides, and only a failure fits
  cases hupdate : update s with
  | ok b u =>
    rw [hupdate] at h
    cases h
  | error other u =>
    rw [hupdate] at h
    obtain ⟨rfl, hstate⟩ := EStateM.Result.error.inj h
    obtain ⟨rfl, rfl⟩ := Prod.mk.inj hstate
    exact ⟨rfl, rfl⟩

/-- **A result** comes with the value that is handed out. -/
theorem eq_ok (h : Commits action update parts s value) {a : α} {t : PoolState} {after : γ}
    (run : action (s, value) = .ok a (t, after)) :
    ∃ b, update s = .ok b t ∧ parts b = (a, after) := by
  rw [Commits, run] at h
  -- only a result fits what was run
  cases hupdate : update s with
  | ok b u =>
    rw [hupdate] at h
    obtain ⟨rfl, hstate⟩ := EStateM.Result.ok.inj h
    obtain ⟨rfl, rfl⟩ := Prod.mk.inj hstate
    exact ⟨b, rfl, rfl⟩
  | error failure u =>
    rw [hupdate] at h
    cases h

end Commits

end InPlace

/-! ### Slots -/

section Claims

open InPlace

variable {γ : Type} {s : PoolState} {value : γ} {slot : Slot}

/-- Hand out a slot in place: the region it lies in is looked up, the value counts what is in it,
and then the slot is cut out of the region. -/
def Slot.claimInPlace (slot : Slot) (count : γ → γ) : InPlace γ Slot := do
  InPlace.onPool (discard <| ofPool (·.locate slot.region))
  store count
  InPlace.onPool (discard <| ofPool slot.bytes)
  return slot

/-- **The value may count first**, if the slot lies inside its region. -/
theorem Slot.claimInPlace_commits {count : γ → γ}
    (inside : slot.start + slot.length ≤ slot.region.length) :
    Commits (slot.claimInPlace count) (do discard <| ofPool slot.bytes; return (slot, count value))
      id s value := by
  rw [Commits]
  -- counting cannot fail, so all depends on whether the region is found
  cases hlocate : s.pool.locate slot.region with
  | error failure =>
    have hbytes : slot.bytes s.pool = .error failure := by
      rw [Slot.bytes, Pool.bytesIn, hlocate]
      rfl
    simp only [claimInPlace, discard, Functor.discard, Functor.mapConst, bind,
      EStateM.bind, EStateM.map, Function.comp, InPlace.onPool, ofPool, hlocate, hbytes]
  | ok found =>
    obtain ⟨bytes, hbytes⟩ := Pool.exists_bytesIn hlocate inside
    have hbytes' : slot.bytes s.pool = .ok bytes := hbytes
    simp only [claimInPlace, discard, Functor.discard, Functor.mapConst, bind,
      EStateM.bind, EStateM.map, Function.comp, InPlace.onPool, ofPool, hlocate, hbytes', store,
      pure, EStateM.pure]
    rfl

end Claims

/-! ### Arrays -/

namespace GrowArray

open InPlace

/-- Move the elements in place: the new region is written down once they are there. -/
def relocateInPlace (capacity : Nat) : InPlace GrowArray Unit := do
  let array ← value
  let size ← InPlace.onPool (ofPool fun _ => byteLength capacity array.elementSize)
  let elements ← InPlace.onPool (Pool.alloc size)
  InPlace.onPool (PoolM.onPool fun pool =>
    return ((), ← pool.copy array.elements elements (array.count * array.elementSize)))
  InPlace.onPool (log (.arrayRelocated array.capacity capacity))
  store ({ · with elements })
  store ({ · with capacity })

/-- Make room in place. A region that is lengthened is written down before the capacity is. -/
def growByInPlace (additional size : Nat) (moved : Except Failure Nat) :
    InPlace GrowArray Unit := do
  let array ← value
  match ← InPlace.onPool (PoolM.onPool (·.extend array.elements size)) with
  | some elements =>
    store ({ · with elements })
    store fun array => { array with capacity := array.capacity + additional }
  | none =>
    let capacity ← InPlace.onPool (ofPool fun _ => moved)
    relocateInPlace capacity

/-- Count `n` more elements in place and return their slot. -/
def claimInPlace (n : Nat) : InPlace GrowArray Slot := do
  let array ← value
  let slot : Slot :=
    { region := array.elements, start := array.count * array.elementSize,
      length := n * array.elementSize }
  slot.claimInPlace fun array => { array with count := array.count + n }

/-- **Append one element in place.** -/
def pushInPlace : InPlace GrowArray Slot := do
  let array ← value
  if array.count = array.capacity then
    growByInPlace 1 array.elementSize ((max 1) <$> checkedCount (array.capacity * 2))
    claimInPlace 1
  else claimInPlace 1

/-- **Append `n` elements in place.** -/
def pushManyInPlace (n : Nat) : InPlace GrowArray Slot := do
  let array ← value
  let needed ← InPlace.onPool (ofPool fun _ => checkedCount (array.count + n))
  if array.capacity < needed then
    let size ← InPlace.onPool (ofPool fun _ => byteLength n array.elementSize)
    growByInPlace n size (checkedCount (max n array.capacity * 2))
    claimInPlace n
  else claimInPlace n

variable {s : PoolState} {array : GrowArray} {capacity additional size n : Nat}
  {moved : Except Failure Nat}

/-- Moving writes last. -/
theorem relocateInPlace_commits :
    Commits (relocateInPlace capacity) (array.relocate capacity) (fun array => ((), array)) s
      array :=
  .look <| .onPool fun _ _ _ => .onPool fun _ _ _ => .onPool fun _ _ _ => .onPool fun _ _ _ => rfl

/-- Making room writes last. -/
theorem growByInPlace_commits :
    Commits (growByInPlace additional size moved) (array.growBy additional size moved)
      (fun array => ((), array)) s array := by
  refine .look (.onPool fun extended t _ => ?_)
  cases extended with
  | some elements => rfl
  | none => exact .onPool fun capacity u _ => relocateInPlace_commits

/-- Counting elements writes them down early, but there is room for them. -/
theorem claimInPlace_commits (shaped : array.Shaped) (room : array.count + n ≤ array.capacity) :
    Commits (claimInPlace n) (array.claim n) id s array :=
  .look (Slot.claimInPlace_commits (inside_of_claim shaped room))

/-- **Appending an element in place** writes all or nothing. -/
theorem pushInPlace_commits (fit : s.Fit) (shaped : array.Shaped)
    (guards : s.pool.Guards array.elements) : Commits pushInPlace array.push id s array := by
  have hcount := shaped.count_le
  refine .look ?_
  rw [push]
  split
  · -- once there is room for the element, nothing can go wrong
    refine growByInPlace_commits.bind fun after t run => ?_
    obtain ⟨-, hshaped, hroom, housed⟩ := (growBy_abides fit shaped guards (Nat.one_mul _).symm
      (checkedCount_lawful _).map fun capacity hok => by
        have := succ_le_of_doubled hok
        omega).ok_of run
    exact ⟨claim_succeeds housed (inside_of_claim hshaped hroom),
      claimInPlace_commits hshaped hroom⟩
  · exact claimInPlace_commits shaped (by omega)

/-- **Appending several elements in place** writes all or nothing. -/
theorem pushManyInPlace_commits (fit : s.Fit) (shaped : array.Shaped)
    (guards : s.pool.Guards array.elements) :
    Commits (pushManyInPlace n) (array.pushMany n) id s array := by
  have hcount := shaped.count_le
  -- looking at the sums reads nothing, so it may come first
  refine .look (.ofPool fun needed hneeded => ?_)
  have hsum := eq_of_checkedCount hneeded
  split
  · refine .ofPool fun size hsize => growByInPlace_commits.bind fun after t run => ?_
    obtain ⟨-, hshaped, hroom, housed⟩ := (growBy_abides fit shaped guards (eq_of_byteLength hsize)
      (checkedCount_lawful _) fun capacity hok => by
        have := eq_of_checkedCount hok
        omega).ok_of run
    -- the room was made, so the slot behind the old elements is there
    exact ⟨claim_succeeds housed (inside_of_claim hshaped hroom),
      claimInPlace_commits hshaped hroom⟩
  · exact claimInPlace_commits shaped (by omega)

end GrowArray

/-! ### Lists -/

namespace PartList

open InPlace

/-- Start a new part in place: it is written down once its elements are there. -/
def appendPartInPlace : InPlace PartList Unit := do
  let list ← value
  InPlace.onPool (discard <| ofPool (·.locate list.last.elements))
  let header ← InPlace.onPool (Pool.alloc Layout.listPartHeaderSize)
  let size ← InPlace.onPool (ofPool fun _ => byteLength list.partCapacity list.elementSize)
  let elements ← InPlace.onPool (Pool.alloc size)
  store fun list =>
    { list with earlier := list.parts, last := { header := some header, elements, count := 0 } }
  let list ← value
  InPlace.onPool (log (.listPartAppended list.partCount))

/-- Count one more element in place and return its slot. -/
def claimInPlace : InPlace PartList Slot := do
  let list ← value
  let slot : Slot :=
    { region := list.last.elements, start := list.last.count * list.elementSize,
      length := list.elementSize }
  slot.claimInPlace fun list =>
    { list with last := { list.last with count := list.last.count + 1 } }

/-- **Append one element in place.** -/
def pushInPlace : InPlace PartList Slot := do
  let list ← value
  if list.last.count = list.partCapacity then
    appendPartInPlace
    claimInPlace
  else claimInPlace

variable {s : PoolState} {list : PartList}

/-- A part without elements has room for one. -/
theorem room_of_empty (list : PartList) {part : Part} (hcount : part.count = 0) :
    part.count < list.partCapacity := by
  rw [hcount]
  exact list.partCapacity.2

/-- Starting a part writes last. -/
theorem appendPartInPlace_commits :
    Commits appendPartInPlace list.appendPart (fun list => ((), list)) s list :=
  .look <| .onPool fun _ _ _ => .onPool fun _ _ _ => .onPool fun _ _ _ => .onPool fun _ _ _ => rfl

/-- Counting an element writes it down early, but there is room for it. -/
theorem claimInPlace_commits (shaped : list.Shaped)
    (room : list.last.count < list.partCapacity) : Commits claimInPlace list.claim id s list :=
  .look (Slot.claimInPlace_commits (inside_of_claim shaped room))

/-- **Appending an element in place** writes all or nothing. -/
theorem pushInPlace_commits (fit : s.Fit) (shaped : list.Shaped)
    (guards : s.pool.Guards list.last.elements) : Commits pushInPlace list.push id s list := by
  refine .look ?_
  rw [push]
  split
  · -- once there is a new part, nothing can go wrong
    refine appendPartInPlace_commits.bind fun after t run => ?_
    obtain ⟨-, hshaped, hcount, housed⟩ := (appendPart_abides fit shaped guards).ok_of run
    have hroom := after.room_of_empty hcount
    exact ⟨claim_succeeds housed (inside_of_claim hshaped hroom),
      claimInPlace_commits hshaped hroom⟩
  · next hne =>
    have hlast := list.last_mem_parts
    exact claimInPlace_commits shaped (Nat.lt_of_le_of_ne (shaped.count_le _ hlast) hne)

end PartList

end RegionPool
