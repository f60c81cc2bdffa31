import Mathlib.Data.List.Find
import Mathlib.Data.List.Perm.Basic
import Mathlib.Data.List.ReduceOption
import RegionPool.Pool.LargeTable

/-!
# What the table of large buffers holds

A buffer is looked up by its number, and the newest slot that holds the number wins. Two views of a
table are enough for everything that is built on it: which buffers there are, up to their order, and
which buffer is found under a number.

* `buffers_push`, `buffers_reuse?`, `buffers_take?`, `map_buffers_overwrite` — the buffers after a
  change;
* `find?_push_self`, `find?_reuse?_self` — a buffer that was put in is found under its number;
* `find?_push_of_ne`, `find?_reuse?_of_ne`, `find?_take?_of_ne` — other numbers are not affected;
* `get?_push_of_some`, `get?_reuse?_of_some` — buffers that have a slot keep it;
* `find?_overwrite` — a write reaches the buffer of its slot and no other;
* `map_slots_reuse?_congr`, `map_slots_push_congr` — tables that look the same take a buffer into
  the same slot.
-/

namespace RegionPool

namespace LargeTable

variable {table after : LargeTable} {buffer : Buffer} {wanted : BufferId} {index : Nat}

/-! ### Looking up -/

theorem holds_eq_true_iff :
    table.holds wanted index = true ↔
      ∃ buffer, table.slots[index]? = some (some buffer) ∧ buffer.id = wanted := by
  unfold holds
  split
  · next buffer h => simp [h]
  · next h =>
    constructor
    · intro hfalse
      cases hfalse
    · rintro ⟨buffer, hbuffer, -⟩
      exact absurd hbuffer (h buffer)

/-- The slot found for a number holds a buffer of that number. -/
theorem exists_of_position? (h : table.position? wanted = some index) :
    ∃ buffer, table.slots[index]? = some (some buffer) ∧ buffer.id = wanted :=
  holds_eq_true_iff.mp (List.find?_some h)

theorem get?_eq_some_iff :
    table.get? index = some buffer ↔ table.slots[index]? = some (some buffer) := by
  rw [get?, Option.join_eq_some_iff]

theorem find?_eq_some_iff :
    table.find? wanted = some buffer ↔
      ∃ index, table.position? wanted = some index ∧ table.slots[index]? = some (some buffer) := by
  simp only [find?, Option.bind_eq_some_iff, get?_eq_some_iff]

/-- A number that is found in a slot finds the buffer there. -/
theorem find?_isSome_of_position? (h : table.position? wanted = some index) :
    ∃ buffer, table.find? wanted = some buffer ∧ table.get? index = some buffer := by
  obtain ⟨buffer, hslot, -⟩ := exists_of_position? h
  exact ⟨buffer, find?_eq_some_iff.mpr ⟨index, h, hslot⟩, get?_eq_some_iff.mpr hslot⟩

theorem mem_buffers_iff : buffer ∈ table.buffers ↔ some buffer ∈ table.slots := by
  simp [buffers]

/-- A number is found exactly if a buffer in the table has it. -/
theorem position?_eq_none_iff :
    table.position? wanted = none ↔ ∀ buffer ∈ table.buffers, buffer.id ≠ wanted := by
  rw [position?, List.find?_eq_none]
  constructor
  · intro hnone buffer hmem hid
    -- the search is over indices, so the buffer is traced to its slot
    obtain ⟨index, hslot⟩ := List.mem_iff_getElem?.mp (mem_buffers_iff.mp hmem)
    have hlt : index < table.slots.length := (List.getElem?_eq_some_iff.mp hslot).1
    refine hnone index ?_ (holds_eq_true_iff.mpr ⟨buffer, hslot, hid⟩)
    rwa [List.mem_reverse, List.mem_range]
  · intro hnone index _ hholds
    obtain ⟨buffer, hslot, hid⟩ := holds_eq_true_iff.mp hholds
    exact hnone buffer (mem_buffers_iff.mpr (List.mem_of_getElem? hslot)) hid

theorem buffers_perm : table.buffers.Perm table.slots.reduceOption :=
  (List.reverse_perm _).filterMap _

/-- What is found under a number has that number and is in the table. -/
theorem mem_of_find? (h : table.find? wanted = some buffer) :
    buffer ∈ table.buffers ∧ buffer.id = wanted := by
  obtain ⟨index, hposition, hslot⟩ := find?_eq_some_iff.mp h
  obtain ⟨held, hheld, hid⟩ := exists_of_position? hposition
  -- the slot that the position stands for holds one buffer only
  obtain rfl : held = buffer := by simpa [hslot] using hheld.symm
  exact ⟨mem_buffers_iff.mpr (List.mem_of_getElem? hslot), hid⟩

/-! ### A new slot -/

@[simp] theorem buffers_push : (table.push buffer).buffers = buffer :: table.buffers := by
  simp [buffers, push]

/-- The newest slot is looked at first. -/
private theorem position?_push :
    (table.push buffer).position? wanted =
      if buffer.id = wanted then some table.slots.length else table.position? wanted := by
  -- the search runs from the last slot down: the new slot comes first, the others follow as before
  have hnew : (table.push buffer).holds wanted table.slots.length = (buffer.id == wanted) := by
    simp [holds, push]
  have hold : ∀ index ∈ (List.range table.slots.length).reverse,
      (table.push buffer).holds wanted index = table.holds wanted index := by
    intro index hmem
    rw [List.mem_reverse, List.mem_range] at hmem
    simp [holds, push, List.getElem?_append_left hmem]
  have hlength : (table.push buffer).slots.length = table.slots.length + 1 := by simp [push]
  rw [position?, hlength, List.range_succ, List.reverse_append, List.reverse_singleton,
    List.singleton_append, List.find?_cons, hnew]
  by_cases hid : buffer.id = wanted
  · simp [hid]
  · rw [beq_false_of_ne hid, if_neg hid]
    exact List.find?_congr hold

theorem find?_push_self : (table.push buffer).find? buffer.id = some buffer := by
  rw [find?_eq_some_iff]
  exact ⟨table.slots.length, by rw [position?_push, if_pos rfl], by simp [push]⟩

theorem find?_push_of_ne (h : buffer.id ≠ wanted) :
    (table.push buffer).find? wanted = table.find? wanted := by
  rw [find?, find?, position?_push, if_neg h]
  cases hposition : table.position? wanted with
  | none => rfl
  | some index =>
    obtain ⟨held, hheld, -⟩ := exists_of_position? hposition
    have hlt : index < table.slots.length := (List.getElem?_eq_some_iff.mp hheld).1
    simp [get?, push, List.getElem?_append_left hlt]

/-- Buffers that have a slot keep it. -/
theorem get?_push_of_some {held : Buffer} (h : table.get? index = some held) :
    (table.push buffer).get? index = some held := by
  rw [get?_eq_some_iff] at h ⊢
  exact (List.getElem?_append_left (List.getElem?_eq_some_iff.mp h).1).trans h

/-! ### A slot replaced -/

section Set

variable {old new : Option Buffer}

/-- Replacing what a slot holds leaves all other slots. -/
private theorem slots_set_perm (new : Option Buffer) (h : table.slots[index]? = some old) :
    table.buffers.Perm (old :: table.slots.eraseIdx index).reduceOption ∧
      (table.set index new).buffers.Perm (new :: table.slots.eraseIdx index).reduceOption := by
  obtain ⟨hlt, rfl⟩ := List.getElem?_eq_some_iff.mp h
  constructor
  · exact buffers_perm.trans ((List.getElem_cons_eraseIdx_perm hlt).symm.filterMap _)
  · exact buffers_perm.trans ((List.set_perm_cons_eraseIdx hlt new).filterMap _)

private theorem holds_set_of_ne {other : Nat} (h : index ≠ other) :
    (table.set index new).holds wanted other = table.holds wanted other := by
  simp [holds, set, List.getElem?_set_ne h]

/-- A number that neither the old nor the new content of a slot has is found as before. -/
private theorem find?_set (h : table.slots[index]? = some old)
    (hold : ∀ buffer, old = some buffer → buffer.id ≠ wanted)
    (hnew : ∀ buffer, new = some buffer → buffer.id ≠ wanted) :
    (table.set index new).find? wanted = table.find? wanted := by
  have hlt : index < table.slots.length := (List.getElem?_eq_some_iff.mp h).1
  have hself : (table.set index new).slots[index]? = some new := by simp [set, hlt]
  -- the slot does not hold the number, neither before nor after
  have hunheld : table.holds wanted index = false ∧
      (table.set index new).holds wanted index = false := by
    constructor <;> rw [← Bool.not_eq_true, holds_eq_true_iff]
    · rintro ⟨buffer, hslot, hid⟩
      exact hold buffer (Option.some.inj (h.symm.trans hslot)) hid
    · rintro ⟨buffer, hslot, hid⟩
      exact hnew buffer (Option.some.inj (hself.symm.trans hslot)) hid
  have hposition : (table.set index new).position? wanted = table.position? wanted := by
    have hlength : (table.set index new).slots.length = table.slots.length := by simp [set]
    rw [position?, position?, hlength]
    refine List.find?_congr fun other _ => ?_
    by_cases heq : index = other
    · subst heq
      rw [hunheld.1, hunheld.2]
    · exact holds_set_of_ne heq
  rw [find?, find?, hposition]
  cases hfound : table.position? wanted with
  | none => rfl
  | some other =>
    -- the slot that is found holds the number, so it is another one
    have hne : index ≠ other := by
      rintro rfl
      obtain ⟨held, hslot, hid⟩ := exists_of_position? hfound
      exact hold held (Option.some.inj (h.symm.trans hslot)) hid
    simp [get?, set, List.getElem?_set_ne hne]

end Set

/-! ### A slot filled again -/

/-- Only an empty slot is reused. -/
private theorem exists_of_reuse? (h : table.reuse? buffer = some after) :
    ∃ index, table.slots[index]? = some none ∧ after = table.set index (some buffer) := by
  obtain ⟨index, hfound, rfl⟩ := Option.map_eq_some_iff.mp h
  exact ⟨index, by simpa using List.find?_some hfound, rfl⟩

/-- Buffers that have a slot keep it. -/
theorem get?_reuse?_of_some {held : Buffer} (h : table.reuse? buffer = some after)
    (hheld : table.get? index = some held) : after.get? index = some held := by
  obtain ⟨empty, hempty, rfl⟩ := exists_of_reuse? h
  rw [get?_eq_some_iff] at hheld ⊢
  have hne : empty ≠ index := by
    rintro rfl
    rw [hempty] at hheld
    cases hheld
  exact (List.getElem?_set_ne hne).trans hheld

theorem buffers_reuse? (h : table.reuse? buffer = some after) :
    after.buffers.Perm (buffer :: table.buffers) := by
  obtain ⟨index, hslot, rfl⟩ := exists_of_reuse? h
  obtain ⟨hbefore, hafter⟩ := slots_set_perm (some buffer) hslot
  -- the slot was empty: it adds nothing to what was there before
  rw [List.reduceOption_cons_of_none] at hbefore
  rw [List.reduceOption_cons_of_some] at hafter
  exact hafter.trans (hbefore.symm.cons buffer)

theorem find?_reuse?_of_ne (h : table.reuse? buffer = some after) (hne : buffer.id ≠ wanted) :
    after.find? wanted = table.find? wanted := by
  obtain ⟨index, hslot, rfl⟩ := exists_of_reuse? h
  refine find?_set hslot (fun held hheld => ?_) fun held hheld => ?_
  · cases hheld
  · obtain rfl := Option.some.inj hheld
    exact hne

/-- A buffer whose number is new to the table is found once it is in it. -/
theorem find?_reuse?_self (h : table.reuse? buffer = some after)
    (hfresh : ∀ held ∈ table.buffers, held.id ≠ buffer.id) :
    after.find? buffer.id = some buffer := by
  -- something is found under the number, and of all buffers only the new one has it
  have hmem : buffer ∈ after.buffers := (buffers_reuse? h).mem_iff.mpr List.mem_cons_self
  obtain ⟨index, hslot⟩ := List.mem_iff_getElem?.mp (mem_buffers_iff.mp hmem)
  have hlt : index < after.slots.length := (List.getElem?_eq_some_iff.mp hslot).1
  have hsome : (after.position? buffer.id).isSome := by
    rw [position?, List.find?_isSome]
    exact ⟨index, by simpa using hlt, holds_eq_true_iff.mpr ⟨buffer, hslot, rfl⟩⟩
  obtain ⟨found, hfound⟩ := Option.isSome_iff_exists.mp hsome
  obtain ⟨held, hheld, -⟩ := find?_isSome_of_position? hfound
  obtain ⟨hin, hid⟩ := mem_of_find? hheld
  rcases List.mem_cons.mp ((buffers_reuse? h).mem_iff.mp hin) with rfl | hold
  · exact hheld
  · exact absurd hid (hfresh held hold)

/-! ### A slot emptied -/

/-- Whatever is taken out was in a slot, and only this slot is emptied. -/
theorem exists_of_take? (h : table.take? wanted = some (buffer, after)) :
    ∃ index, table.slots[index]? = some (some buffer) ∧ buffer.id = wanted ∧
      after = table.set index none := by
  unfold take? at h
  split at h
  · cases h
  · next index hposition =>
    obtain ⟨held, hget, heq⟩ := Option.map_eq_some_iff.mp h
    obtain ⟨rfl, rfl⟩ := Prod.mk.inj heq
    have hslot := get?_eq_some_iff.mp hget
    -- the slot that was found is the one that was read
    obtain ⟨held', hheld', hid⟩ := exists_of_position? hposition
    obtain rfl : held' = held := by simpa [hslot] using hheld'.symm
    exact ⟨index, hslot, hid, rfl⟩

theorem take?_eq_none_iff :
    table.take? wanted = none ↔ ∀ buffer ∈ table.buffers, buffer.id ≠ wanted := by
  rw [← position?_eq_none_iff, take?]
  split
  · next hnone => exact iff_of_true rfl hnone
  · next index hposition =>
    -- the slot of a position holds a buffer
    obtain ⟨buffer, -, hget⟩ := find?_isSome_of_position? hposition
    rw [hget, hposition]
    exact iff_of_false nofun nofun

theorem id_of_take? (h : table.take? wanted = some (buffer, after)) : buffer.id = wanted := by
  obtain ⟨-, -, hid, -⟩ := exists_of_take? h
  exact hid

theorem count_take? (h : table.take? wanted = some (buffer, after)) :
    after.count = table.count := by
  obtain ⟨index, -, -, rfl⟩ := exists_of_take? h
  exact count_set table index none

theorem buffers_take? (h : table.take? wanted = some (buffer, after)) :
    table.buffers.Perm (buffer :: after.buffers) := by
  obtain ⟨index, hslot, -, rfl⟩ := exists_of_take? h
  obtain ⟨hbefore, hafter⟩ := slots_set_perm none hslot
  rw [List.reduceOption_cons_of_some] at hbefore
  rw [List.reduceOption_cons_of_none] at hafter
  exact hbefore.trans (hafter.symm.cons buffer)

/-- Emptying a slot leaves what is found under other numbers. -/
theorem find?_set_none_of_ne (h : table.slots[index]? = some (some buffer))
    (hne : buffer.id ≠ wanted) : (table.set index none).find? wanted = table.find? wanted := by
  refine find?_set h (fun held hheld => ?_) nofun
  obtain rfl := Option.some.inj hheld
  exact hne

theorem find?_take?_of_ne {other : BufferId} (h : table.take? wanted = some (buffer, after))
    (hne : wanted ≠ other) : after.find? other = table.find? other := by
  obtain ⟨index, hslot, rfl, rfl⟩ := exists_of_take? h
  exact find?_set_none_of_ne hslot hne

/-! ### Writing -/

section Overwrite

variable {offset : Nat} {data : Bytes}

private theorem getElem?_slots_overwrite (other : Nat) :
    (table.overwrite index offset data).slots[other]? =
      if index = other then table.slots[other]?.map (·.map (·.overwrite offset data))
      else table.slots[other]? := by
  rw [overwrite, List.getElem?_modify]
  split <;> simp

/-- A write does not change where a number is found. -/
@[simp] theorem position?_overwrite :
    (table.overwrite index offset data).position? wanted = table.position? wanted := by
  have hlength : (table.overwrite index offset data).slots.length = table.slots.length := by
    simp [overwrite]
  rw [position?, position?, hlength]
  refine List.find?_congr fun other _ => ?_
  rw [holds, holds, getElem?_slots_overwrite]
  by_cases heq : index = other
  · rw [if_pos heq]
    rcases table.slots[other]? with _ | _ | held <;> rfl
  · rw [if_neg heq]

theorem get?_overwrite (other : Nat) :
    (table.overwrite index offset data).get? other =
      if index = other then (table.get? other).map (·.overwrite offset data)
      else table.get? other := by
  rw [get?, get?, getElem?_slots_overwrite]
  split
  · rcases table.slots[other]? with _ | _ | held <;> rfl
  · rfl

/-- **A write reaches the buffer of its slot and no other.** -/
theorem find?_overwrite :
    (table.overwrite index offset data).find? wanted =
      if table.position? wanted = some index then
        (table.find? wanted).map (·.overwrite offset data)
      else table.find? wanted := by
  rw [find?, find?, position?_overwrite]
  cases hposition : table.position? wanted with
  | none => rfl
  | some other =>
    rw [Option.bind_some, Option.bind_some, get?_overwrite]
    by_cases heq : index = other
    · rw [if_pos heq, if_pos (by rw [heq])]
    · rw [if_neg heq, if_neg fun h => heq (Option.some.inj h).symm]

/-- The slots after a write are the same to whoever does not look at the bytes in them. -/
theorem map_slots_overwrite {β : Type} (f : Buffer → β)
    (hf : ∀ buffer : Buffer, f (buffer.overwrite offset data) = f buffer) :
    (table.overwrite index offset data).slots.map (·.map f) = table.slots.map (·.map f) := by
  refine List.ext_getElem? fun other => ?_
  rw [List.getElem?_map, List.getElem?_map, getElem?_slots_overwrite]
  split
  · rcases table.slots[other]? with _ | _ | held
    · rfl
    · rfl
    · exact congrArg (fun seen => some (some seen)) (hf held)
  · rfl

/-- So are the buffers. -/
theorem map_buffers_overwrite {β : Type} (f : Buffer → β)
    (hf : ∀ buffer : Buffer, f (buffer.overwrite offset data) = f buffer) :
    (table.overwrite index offset data).buffers.map f = table.buffers.map f := by
  have hreduce : ∀ t : LargeTable, t.buffers.map f =
      ((t.slots.map (·.map f)).reverse).reduceOption := fun t => by
    rw [← List.map_reverse, List.reduceOption_map]
    rfl
  rw [hreduce, hreduce, map_slots_overwrite f hf]

/-- A write does not change which buffers there are. -/
theorem ids_overwrite :
    (table.overwrite index offset data).buffers.map Buffer.id = table.buffers.map Buffer.id :=
  map_buffers_overwrite Buffer.id fun _ => rfl

end Overwrite

/-! ### Tables that look the same -/

section Congr

variable {β : Type} {f g : Buffer → β} {twin : LargeTable} {twinBuffer : Buffer}

/-- **Reusing a slot** takes the same one in tables that look the same. -/
theorem map_slots_reuse?_congr (h : twin.slots.map (·.map g) = table.slots.map (·.map f))
    (hbuffer : g twinBuffer = f buffer) :
    (twin.reuse? twinBuffer).map (fun table => table.slots.map (·.map g)) =
      (table.reuse? buffer).map fun table => table.slots.map (·.map f) := by
  -- whether a slot is empty can be told from what is seen of it
  have hempty : ∀ (f : Buffer → β) (table : LargeTable) (index : Nat),
      (table.slots[index]? == some none) =
        ((table.slots.map (·.map f))[index]?.any (·.isNone)) := by
    intro f table index
    rw [List.getElem?_map]
    rcases table.slots[index]? with _ | _ | held <;> rfl
  have hlength : twin.slots.length = table.slots.length := by
    have := congrArg List.length h
    rwa [List.length_map, List.length_map] at this
  have hfound : (twin.reach.find? fun index => twin.slots[index]? == some none) =
      table.reach.find? fun index => table.slots[index]? == some none := by
    rw [reach, reach, hlength]
    refine List.find?_congr fun index _ => ?_
    rw [hempty g, hempty f, h]
  rw [reuse?, reuse?, hfound, Option.map_map, Option.map_map]
  refine congrArg (Option.map · _) (funext fun index => ?_)
  simp only [Function.comp_apply, List.map_set, h, Option.map_some, hbuffer]

/-- **A new slot** is the same. -/
theorem map_slots_push_congr (h : twin.slots.map (·.map g) = table.slots.map (·.map f))
    (hbuffer : g twinBuffer = f buffer) :
    (twin.push twinBuffer).slots.map (·.map g) = (table.push buffer).slots.map (·.map f) := by
  simp only [push, List.map_append, h, List.map_singleton, Option.map_some, hbuffer]

end Congr

end LargeTable

end RegionPool
