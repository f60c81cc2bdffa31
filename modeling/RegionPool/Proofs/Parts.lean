import Mathlib.Algebra.Order.Floor.Div
import RegionPool.Proofs.Capacities

/-!
# The parts of a list

A list in parts never moves an element, and it starts a part only when it needs one. So its shape
can be told from the number of elements that were appended, whatever failed in between: all parts
before the last one are full, and the element at an index is in the part, and at the place there,
that the index divided by the capacity of the parts says.

* `PartList.slot?` — the slot of an element;
* `ListAccount.Foretells` — the shape of a list, told from its account; `Describes.foretells`;
* `PartList.toList_getElem?` — what is read as an element is what its slot holds;
* `PartList.Precedes`, `Session.run_precedes` — no element moves in a list that becomes longer;
* `Session.run_keepsPlaces` — the lists of a caller, after every history.
-/

namespace RegionPool

open PoolM

/-! ### Slots -/

namespace PartList

variable {list longer opened : PartList} {s t : PoolState} {pool : Pool} {slot : Slot} {i : Nat}

/-- The slot of the element at an index, if there is one. -/
def slot? (list : PartList) (i : Nat) : Option Slot :=
  list.parts[i / list.partCapacity]?.bind fun part =>
    if i % list.partCapacity < part.count then
      some { region := part.elements, start := i % list.partCapacity * list.elementSize,
             length := list.elementSize }
    else none

theorem slot?_eq_some_iff : list.slot? i = some slot ↔
    ∃ part, list.parts[i / list.partCapacity]? = some part ∧ i % list.partCapacity < part.count ∧
      slot = { region := part.elements, start := i % list.partCapacity * list.elementSize,
               length := list.elementSize } := by
  simp only [slot?, Option.bind_eq_some_iff, Option.ite_none_right_eq_some, Option.some.injEq,
    eq_comm (a := slot)]

/-- **No element moves** from one list to the other. -/
def Precedes (list longer : PartList) : Prop :=
  ∀ i slot, list.slot? i = some slot → longer.slot? i = some slot

theorem Precedes.refl (list : PartList) : list.Precedes list := fun _ _ h => h

theorem Precedes.trans (h : list.Precedes opened) (h' : opened.Precedes longer) :
    list.Precedes longer := fun i slot hslot => h' i slot (h i slot hslot)

/-- Parts that are kept, and perhaps counted up, keep their elements. -/
private theorem precedes_of_parts (capacity : longer.partCapacity = list.partCapacity)
    (elementSize : longer.elementSize = list.elementSize)
    (parts : ∀ (j : Nat) part, list.parts[j]? = some part → ∃ after, longer.parts[j]? = some after ∧
      after.elements = part.elements ∧ part.count ≤ after.count) : list.Precedes longer := by
  intro i slot h
  obtain ⟨part, hpart, hlt, rfl⟩ := slot?_eq_some_iff.mp h
  obtain ⟨after, hafter, helements, hcount⟩ := parts _ part hpart
  refine slot?_eq_some_iff.mpr ⟨after, ?_, ?_, ?_⟩
  · rw [capacity]
    exact hafter
  · rw [capacity]
    exact Nat.lt_of_lt_of_le hlt hcount
  · rw [capacity, elementSize, helements]

/-- A part is one of the earlier ones, or the last one. -/
theorem getElem?_parts_iff {j : Nat} {part : Part} : list.parts[j]? = some part ↔
    list.earlier[j]? = some part ∨ j = list.earlier.length ∧ list.last = part := by
  rw [parts]
  -- before the last part, the last part itself, or past it
  rcases Nat.lt_trichotomy j list.earlier.length with hlt | rfl | hgt
  · rw [List.getElem?_append_left hlt]
    exact ⟨.inl, fun h => h.resolve_right fun hlast => Nat.ne_of_lt hlt hlast.1⟩
  · simp
  · rw [List.getElem?_eq_none (by rw [List.length_append]; exact hgt),
      List.getElem?_eq_none (Nat.le_of_lt hgt)]
    have hnone : ¬ none = some part := fun h => Option.some_ne_none part h.symm
    exact ⟨fun h => absurd h hnone, fun h => h.elim (fun h => absurd h hnone)
      fun hlast => absurd hlast.1 (Nat.ne_of_gt hgt)⟩

/-- Counting the last part up moves no element. -/
private theorem precedes_counted (list : PartList) : list.Precedes list.counted.2 := by
  refine precedes_of_parts rfl rfl fun j part hpart => ?_
  rcases getElem?_parts_iff.mp hpart with hearlier | ⟨hlast, rfl⟩
  · exact ⟨part, getElem?_parts_iff.mpr (.inl hearlier), rfl, Nat.le_refl _⟩
  · exact ⟨_, getElem?_parts_iff.mpr (.inr ⟨hlast, rfl⟩), rfl, Nat.le_succ _⟩

/-- **Appending moves no element.** -/
theorem Opened.precedes (h : list.Opened s opened t) : list.Precedes opened.counted.2 := by
  refine .trans ?_ (precedes_counted opened)
  cases h with
  | ample _ => exact .refl list
  | started _ _ _ _ =>
    refine precedes_of_parts rfl rfl fun j part hpart => ⟨part, ?_, rfl, Nat.le_refl _⟩
    exact (List.getElem?_append_left (List.getElem?_eq_some_iff.mp hpart).1).trans hpart

end PartList

/-! ### The shape of a list -/

namespace ListAccount

variable {account : ListAccount} {list : PartList} {i : Nat}

/-- **What an account foretells of a list**: how many elements are in which part, how many parts
there are, what is reserved, and which indices have slots. -/
structure Foretells (account : ListAccount) (list : PartList) : Prop where
  full : ∀ part ∈ list.earlier, part.count = account.partCapacity
  last_le : list.last.count ≤ account.partCapacity
  count : list.count = account.count
  partCount : list.partCount = max 1 (account.count ⌈/⌉ (account.partCapacity : Nat))
  isEmpty : list.isEmpty = true ↔ account.count = 0
  reserved : list.reserved = (if account.headed then Layout.listHeaderSize else 0) +
    (list.partCount - 1) * Layout.listPartHeaderSize +
      list.partCount * (account.partCapacity * account.elementSize)
  slots : ∀ i, (list.slot? i).isSome ↔ i < account.count

namespace Describes

/-- **The elements of a list** fill all parts but the last one. -/
private theorem count_eq_mul (h : account.Describes list) :
    account.count = list.earlier.length * list.partCapacity + list.last.count := by
  have hcounts : list.earlier.map Part.count =
      List.replicate list.earlier.length (list.partCapacity : Nat) := by
    rw [List.eq_replicate_iff]
    refine ⟨List.length_map _, fun count hmem => ?_⟩
    obtain ⟨part, hpart, rfl⟩ := List.mem_map.mp hmem
    exact h.full part hpart
  rw [← h.count, PartList.count_eq, hcounts, List.sum_replicate_nat]

private theorem partCount_eq (list : PartList) : list.partCount = list.earlier.length + 1 :=
  List.length_append

/-- So many full parts, and one that is started only if it is needed. -/
private theorem succ_eq_max {full last capacity : Nat} (hcapacity : 0 < capacity)
    (le : last ≤ capacity) (started : full ≠ 0 → 0 < last) :
    full + 1 = max 1 ((full * capacity + last) ⌈/⌉ capacity) := by
  rcases Nat.eq_zero_or_pos full with rfl | hfull
  · rw [max_eq_left]
    rw [ceilDiv_le_iff_le_mul hcapacity]
    omega
  · have hlast := started (Nat.ne_of_gt hfull)
    have hceil : (full * capacity + last) ⌈/⌉ capacity = full + 1 := by
      -- not fewer parts than hold the elements, and not more
      refine Nat.le_antisymm ?_ (Nat.lt_of_not_le fun hle => ?_)
      · rw [ceilDiv_le_iff_le_mul hcapacity, Nat.mul_succ, Nat.mul_comm capacity]
        omega
      · rw [ceilDiv_le_iff_le_mul hcapacity, Nat.mul_comm capacity] at hle
        omega
    rw [hceil, max_eq_right (Nat.le_add_left 1 full)]

private theorem isEmpty_iff (h : account.Describes list) :
    list.isEmpty = true ↔ account.count = 0 := by
  have hcount := h.count_eq_mul
  have hcapacity := list.partCapacity.2
  rw [PartList.isEmpty, beq_iff_eq, PartList.first]
  cases hearlier : list.earlier with
  | nil =>
    rw [hearlier, List.length_nil, Nat.zero_mul, Nat.zero_add] at hcount
    rw [List.headD_nil, hcount]
  -- an earlier part is full, and there is room for an element in every part
  | cons part earlier =>
    have hfull := h.full part (hearlier ▸ List.mem_cons_self)
    rw [hearlier, List.length_cons, Nat.succ_mul] at hcount
    rw [List.headD_cons]
    omega

private theorem reserved_eq (h : account.Describes list) :
    list.reserved = (if account.headed then Layout.listHeaderSize else 0) +
      (list.partCount - 1) * Layout.listPartHeaderSize +
        list.partCount * (list.partCapacity * list.elementSize) := by
  -- all parts are as roomy, so their bytes are a product
  have hrooms : list.parts.map (fun part => part.elements.length) =
      List.replicate list.partCount (list.partCapacity * list.elementSize) := by
    rw [List.eq_replicate_iff]
    refine ⟨List.length_map _, fun room hmem => ?_⟩
    obtain ⟨part, hpart, rfl⟩ := List.mem_map.mp hmem
    exact h.room part hpart
  have hheader : list.header.toList.map Region.length =
      if account.headed then [Layout.listHeaderSize] else [] := by
    have hlength := h.header
    cases hheader : list.header <;> cases hheaded : account.headed <;>
      simp_all
  -- the first part shares the header of the list, every later one has its own
  have hheaders : (list.parts.filterMap Part.header).map Region.length =
      List.replicate list.earlier.length Layout.listPartHeaderSize := by
    calc (list.parts.filterMap Part.header).map Region.length
      _ = (list.parts.map fun part => part.header.map Region.length).filterMap id := by
        rw [List.map_filterMap, List.filterMap_map]
        rfl
      _ = List.replicate list.earlier.length Layout.listPartHeaderSize := by
        rw [h.headers, List.filterMap_cons_none rfl]
        exact List.filterMap_replicate_of_some rfl
  rw [PartList.reserved, List.map_append, hheader, hheaders, hrooms, List.sum_append,
    List.sum_replicate_nat, List.sum_replicate_nat, partCount_eq, Nat.add_sub_cancel]
  cases account.headed <;> rfl

/-- **The slots of a list** are those of its elements. -/
private theorem isSome_slot?_iff (h : account.Describes list) :
    (list.slot? i).isSome ↔ i < account.count := by
  have hcount := h.count_eq_mul
  have hcapacity := list.partCapacity.2
  have hlast := h.last_le
  have hdiv := Nat.div_add_mod' i list.partCapacity
  have hmod := Nat.mod_lt i hcapacity
  rw [Option.isSome_iff_exists]
  constructor
  · rintro ⟨slot, hslot⟩
    obtain ⟨part, hpart, hlt, -⟩ := PartList.slot?_eq_some_iff.mp hslot
    rcases PartList.getElem?_parts_iff.mp hpart with hearlier | ⟨heq, rfl⟩
    · have hlength := (List.getElem?_eq_some_iff.mp hearlier).1
      have hmul := Nat.mul_le_mul_right list.partCapacity (Nat.succ_le_of_lt hlength)
      rw [Nat.succ_mul] at hmul
      omega
    · rw [heq] at hdiv
      omega
  · intro hlt
    rcases Nat.lt_or_ge (i / list.partCapacity) list.earlier.length with hearlier | hge
    · have hpart := List.getElem?_eq_getElem hearlier
      refine ⟨_, PartList.slot?_eq_some_iff.mpr
        ⟨_, PartList.getElem?_parts_iff.mpr (.inl hpart), ?_, rfl⟩⟩
      rw [h.full _ (List.getElem_mem hearlier)]
      exact hmod
    · -- past the full parts there is only the last one
      have hle : i / list.partCapacity ≤ list.earlier.length := by
        refine Nat.le_of_lt_succ (Nat.div_lt_of_lt_mul ?_)
        rw [Nat.mul_comm, Nat.succ_mul]
        omega
      have heq := Nat.le_antisymm hle hge
      refine ⟨_, PartList.slot?_eq_some_iff.mpr
        ⟨_, PartList.getElem?_parts_iff.mpr (.inr ⟨heq, rfl⟩), ?_, rfl⟩⟩
      rw [heq] at hdiv
      omega

/-- **What describes a list foretells its shape.** -/
theorem foretells (h : account.Describes list) : account.Foretells list where
  full part hmem := (h.full part hmem).trans (congrArg Subtype.val h.partCapacity)
  last_le := h.partCapacity ▸ h.last_le
  count := h.count
  partCount := by
    rw [partCount_eq, h.count_eq_mul, ← h.partCapacity]
    refine succ_eq_max list.partCapacity.2 h.last_le fun hne => h.started ?_
    exact fun hnil => hne (congrArg List.length hnil)
  isEmpty := h.isEmpty_iff
  reserved := by
    rw [h.reserved_eq, h.partCapacity, h.elementSize]
  slots _ := h.isSome_slot?_iff

/-- **The slot of the last element.** -/
theorem slot?_last (h : account.Describes list) (hlast : 0 < list.last.count) :
    list.slot? (account.count - 1) =
      some { region := list.last.elements, start := (list.last.count - 1) * list.elementSize,
             length := list.elementSize } := by
  have hle := h.last_le
  -- the elements of the earlier parts come first, and those parts are full
  have hindex : account.count - 1 =
      list.partCapacity * list.earlier.length + (list.last.count - 1) := by
    rw [h.count_eq_mul, Nat.mul_comm, Nat.add_sub_assoc hlast]
  have hlt : list.last.count - 1 < list.partCapacity := by omega
  refine PartList.slot?_eq_some_iff.mpr ⟨list.last, ?_, ?_, ?_⟩
  · rw [hindex, Nat.mul_add_div list.partCapacity.2, Nat.div_eq_of_lt hlt]
    exact PartList.getElem?_parts_iff.mpr (.inr ⟨rfl, rfl⟩)
  · rw [hindex, Nat.mul_add_mod, Nat.mod_eq_of_lt hlt]
    omega
  · rw [hindex, Nat.mul_add_mod, Nat.mod_eq_of_lt hlt]

end Describes

end ListAccount

/-! ### Reading -/

namespace PartList

variable {list : PartList} {pool : Pool}

/-- What a slot reads that starts at the beginning of a region, a slot further on reads as well. -/
private theorem bytes_elementOf {region : Region} {count elementSize index : Nat} {bytes : Bytes}
    (h : Slot.bytes { region, start := 0, length := count * elementSize } pool = .ok bytes)
    (hlt : index < count) :
    Slot.bytes { region, start := index * elementSize, length := elementSize } pool =
      .ok (elementOf bytes elementSize index) := by
  have hstop := element_stop_le elementSize hlt
  obtain ⟨found, hlocate, hguarded⟩ := bind_eq_ok_iff.mp h
  obtain ⟨inside, hload⟩ := guard_eq_ok_iff.mp hguarded
  obtain ⟨buffer, hstore, hslice⟩ := Pool.load_eq_ok_iff.mp hload
  -- the whole was inside the buffer, so the element is
  rw [Buffer.slice?_eq, Bytes.slice?_eq_some_iff] at hslice
  obtain ⟨hlimit, rfl⟩ := hslice
  refine bind_eq_ok_iff.mpr ⟨found, hlocate, guard_eq_ok_iff.mpr ⟨?_, ?_⟩⟩
  · dsimp only at inside ⊢
    omega
  · refine Pool.load_eq_ok_iff.mpr ⟨buffer, hstore, ?_⟩
    rw [Buffer.slice?_eq, Bytes.slice?_eq_some_iff]
    dsimp only at hlimit ⊢
    refine ⟨by omega, ?_⟩
    rw [elementOf, List.drop_take, List.drop_drop, List.take_take, Nat.add_zero,
      Nat.min_eq_left (by omega)]

/-- What a part shows are the elements in the bytes of its first slots. -/
private theorem view_eq_ok {part : Part} {view : PartView} (h : list.view pool part = .ok view) :
    ∃ bytes, Slot.bytes { region := part.elements, start := 0,
                          length := part.count * list.elementSize } pool = .ok bytes ∧
      view.toList = elementsOf bytes list.elementSize part.count := by
  obtain ⟨bytes, hbytes, hview⟩ := bind_eq_ok_iff.mp h
  obtain rfl := pure_eq_ok_iff.mp hview
  exact ⟨bytes, hbytes, rfl⟩

/-- **What a part shows** as an element is what the slot of the element holds. -/
private theorem view_getElem? {part : Part} {view : PartView} {index : Nat}
    (h : list.view pool part = .ok view) (hlt : index < part.count) :
    ∃ bytes, view.toList[index]? = some bytes ∧
      Slot.bytes { region := part.elements, start := index * list.elementSize,
                   length := list.elementSize } pool = .ok bytes := by
  obtain ⟨bytes, hbytes, heq⟩ := view_eq_ok h
  rw [heq, getElem?_elementsOf, if_pos hlt]
  exact ⟨_, rfl, bytes_elementOf hbytes hlt⟩

/-- One part after the other, of which all but the last one are full. -/
private theorem views_getElem? {earlier : List Part} {last part : Part} {views : List PartView}
    {capacity i : Nat} (hcapacity : 0 < capacity) (full : ∀ part ∈ earlier, part.count = capacity)
    (h : (earlier ++ [last]).mapM (list.view pool) = .ok views)
    (hpart : (earlier ++ [last])[i / capacity]? = some part) (hlt : i % capacity < part.count) :
    ∃ bytes, (views.flatMap PartView.toList)[i]? = some bytes ∧
      Slot.bytes { region := part.elements, start := i % capacity * list.elementSize,
                   length := list.elementSize } pool = .ok bytes := by
  induction earlier generalizing i views with
  | nil =>
    rw [List.nil_append, List.mapM_cons] at h
    obtain ⟨view, hview, hrest⟩ := bind_eq_ok_iff.mp h
    obtain ⟨rest, hnil, hviews⟩ := bind_eq_ok_iff.mp hrest
    rw [List.mapM_nil] at hnil
    obtain rfl := pure_eq_ok_iff.mp hnil
    obtain rfl := pure_eq_ok_iff.mp hviews
    cases hindex : i / capacity with
    | succ j => rw [hindex] at hpart; cases hpart
    | zero =>
      rw [hindex] at hpart
      obtain rfl := Option.some.inj hpart
      rw [Nat.mod_eq_of_lt ((Nat.div_eq_zero_iff_lt hcapacity).mp hindex)] at hlt ⊢
      rw [List.flatMap_singleton]
      exact view_getElem? hview hlt
  | cons first earlier ih =>
    rw [List.cons_append, List.mapM_cons] at h
    obtain ⟨view, hview, hrest⟩ := bind_eq_ok_iff.mp h
    obtain ⟨rest, hmapped, hviews⟩ := bind_eq_ok_iff.mp hrest
    obtain rfl := pure_eq_ok_iff.mp hviews
    have hfirst : view.toList.length = capacity := by
      obtain ⟨bytes, -, heq⟩ := view_eq_ok hview
      rw [heq, length_elementsOf]
      exact full first List.mem_cons_self
    rw [List.flatMap_cons]
    rcases Nat.lt_or_ge i capacity with hin | hout
    · rw [Nat.div_eq_of_lt hin] at hpart
      obtain rfl := Option.some.inj hpart
      rw [Nat.mod_eq_of_lt hin] at hlt ⊢
      rw [List.getElem?_append_left (hin.trans_eq hfirst.symm)]
      exact view_getElem? hview hlt
    · -- the element is one of the parts behind the first one
      rw [Nat.div_eq_sub_div hcapacity hout] at hpart
      rw [Nat.mod_eq_sub_mod hout] at hlt ⊢
      rw [List.getElem?_append_right (hfirst.le.trans hout), hfirst]
      exact ih (fun part hmem => full part (List.mem_cons_of_mem _ hmem)) hmapped hpart hlt

/-- **What is read as an element** is what the slot of the element holds. -/
theorem toList_getElem? {values : List Bytes} {slot : Slot} {i : Nat}
    (full : ∀ part ∈ list.earlier, part.count = list.partCapacity)
    (h : list.toList pool = .ok values) (hslot : list.slot? i = some slot) :
    ∃ bytes, values[i]? = some bytes ∧ slot.bytes pool = .ok bytes := by
  obtain ⟨part, hpart, hlt, rfl⟩ := slot?_eq_some_iff.mp hslot
  obtain ⟨views, hviews, hvalues⟩ := bind_eq_ok_iff.mp h
  obtain rfl := pure_eq_ok_iff.mp hvalues
  exact views_getElem? list.partCapacity.2 full hviews hpart hlt

end PartList

/-! ### Every history -/

namespace Session

variable {s : Session} {c : Chronicle} {index : Nat} {list : PartList} {command : Command}
  {taken : List Holding} {history : List Command} {account : ListAccount}

/-- **A list stays in the table**, and no command moves its elements. -/
theorem exec_precedes (shaped : s.Shaped) (found : s.list? index = some list) :
    ∃ longer, (s.exec command).2.list? index = some longer ∧ list.Precedes longer := by
  have hlt := (List.getElem?_eq_some_iff.mp found).1
  have hsame : ∀ {after : Session}, after.lists = s.lists →
      ∃ longer, after.list? index = some longer ∧ list.Precedes longer := fun lists =>
    ⟨list, (congrArg (·[index]?) lists).trans found, .refl list⟩
  have happend : ∀ {after : Session} (other : PartList), after.lists = s.lists ++ [other] →
      ∃ longer, after.list? index = some longer ∧ list.Precedes longer := fun other lists =>
    ⟨list, ((congrArg (·[index]?) lists).trans (List.getElem?_append_left hlt)).trans found,
      .refl list⟩
  have hdealing := s.exec_dealing command
  generalize (s.exec command).1 = reply at hdealing
  generalize (s.exec command).2 = after at hdealing ⊢
  cases hdealing with
  -- only a push that names this list changes its entry
  | aside _ lists _ | reset _ lists | arrayDropped _ lists _ _ => exact hsame lists
  | arrayMade _ _ | arrayPushed _ _ _ _ | arrayCopied _ => exact hsame rfl
  | @listMade _ _ _ _ _ other _ _ _ | @listCopied _ other _ => exact happend other rfl
  | @listPushed _ place _ pool other _ longer t _ _ here there run _ =>
    by_cases heq : place = index
    · subst heq
      obtain rfl := Option.some.inj (found.symm.trans there)
      obtain ⟨opened, hopened, hcounted, -⟩ := shaped.pushedList found run
      have hlonger : opened.counted.2 = longer := congrArg Prod.snd hcounted.symm
      exact ⟨longer, List.getElem?_set_self hlt, hlonger ▸ hopened.precedes⟩
    · exact ⟨list, (List.getElem?_set_ne heq).trans found, .refl list⟩

/-- **No history moves them.** -/
theorem run_precedes (sheltered : s.Sheltered taken) (admitted : s.AdmitsAll history)
    (found : s.list? index = some list) :
    ∃ longer, (s.run history).2.list? index = some longer ∧ list.Precedes longer := by
  induction history generalizing s taken list with
  | nil => exact ⟨list, found, .refl list⟩
  | cons command history ih =>
    obtain ⟨hcommand, hhistory⟩ := admitted
    obtain ⟨later, hlater, precedes⟩ := exec_precedes sheltered.shaped found
    obtain ⟨longer, hlonger, precedes'⟩ := ih (sheltered.exec hcommand) hhistory hlater
    exact ⟨longer, hlonger, precedes.trans precedes'⟩

/-- An account is kept on along a history. -/
private theorem exists_list_chronicle (h : c.lists[index]? = some account) :
    ∃ later, (s.chronicle c history).lists[index]? = some later ∧
      later.lodging.home = account.lodging.home ∧
        account.lodging.resets ≤ later.lodging.resets := by
  induction history generalizing s c account with
  | nil => exact ⟨account, h, rfl, Nat.le_refl _⟩
  | cons command history ih =>
    obtain ⟨next, hnext, hhome, hle⟩ := Chronicle.exists_list_note h
    obtain ⟨later, hlater, hhome', hle'⟩ := ih hnext
    exact ⟨later, hlater, hhome'.trans hhome, Nat.le_trans hle hle'⟩

/-- **A region is at a site** of the pool in a slot, if that is still there. -/
def PlacedAt (s : Session) (home : Nat) (region : Region) (site : Site) : Prop :=
  ∀ pool, s.pool? home = some pool →
    pool.Houses region ∧ pool.siteOf? region.place = some site

/-- **Lists keep the places of their elements**, from the start of a history to its end. There is
one account for each list and foretells its shape; what is read as an element is what its slot
holds. Whoever appends to a list, in whatever pool, is handed the slot of the next index, and finds
the longer list; or is refused, and the list stays as it was. And the slot of an element at any time
is its slot at the end, where it is in the same buffer still if the pool was not reset. -/
structure KeepsPlaces (start : Session) (history : List Command) : Prop where
  foretold : ∀ index list, (start.run history).2.list? index = some list →
    ∃ account, (start.chronicle {} history).lists[index]? = some account ∧
      account.Foretells list ∧
      ∀ pool values i slot, list.toList pool = .ok values → list.slot? i = some slot →
        ∃ bytes, values[i]? = some bytes ∧ slot.bytes pool = .ok bytes
  grows : ∀ index list slot pool, (start.run history).2.list? index = some list →
    (start.run history).2.pool? slot = some pool → ∀ content,
      (∃ appended longer t before u,
        list.push ⟨pool, (start.run history).2.world⟩ = .ok (appended, longer) t ∧
          appended.fill content t = .ok before u ∧
          (start.run history).2.exec (.pushList slot index content) =
            (.bytes before, ((start.run history).2.settle slot u).setList index longer) ∧
          longer.slot? list.count = some appended) ∨
        ∃ failure t,
          list.push ⟨pool, (start.run history).2.world⟩ = .error failure t ∧
          (start.run history).2.exec (.pushList slot index content) =
            (.failed failure, (start.run history).2.settle slot t) ∧
          failure.IsRefusal
  settled : ∀ earlier later, history = earlier ++ later → ∀ index list account,
    (start.run earlier).2.list? index = some list →
      (start.chronicle {} history).lists[index]? = some account →
        ∃ longer, (start.run history).2.list? index = some longer ∧
          ∀ i slot, list.slot? i = some slot → longer.slot? i = some slot ∧
            (account.lodging.resets = 0 → ∃ site,
              (start.run earlier).2.PlacedAt account.lodging.home slot.region site ∧
                (start.run history).2.PlacedAt account.lodging.home slot.region site)

/-- What lodges in a pool is where it was handed out. -/
private theorem placedAt_of_lodges {lodging : Lodging} {regions : List Region} {region : Region}
    {site : Site} {count : Nat} (sheltered : s.Sheltered taken) (lodges : s.Lodges lodging regions)
    (hresets : lodging.resets = 0) (hmem : region ∈ regions)
    (tracks : s.Tracks lodging.home region site count) :
    s.PlacedAt lodging.home region site := by
  intro pool here
  have housed := lodges.houses sheltered.vouched sheltered.retired hresets here region hmem
  refine ⟨housed, tracks.siteOf?_of_held sheltered.retired here fun id hplace => ?_⟩
  obtain ⟨other, hother, -⟩ := housed.site
  exact ⟨other, hplace ▸ hother⟩

namespace Chronicled

/-- **Appending to a list** hands out the slot of the next index, or is refused. -/
private theorem pushList_grows {slot : Nat} {pool : Pool} (h : s.Chronicled c taken)
    (found : s.list? index = some list) (here : s.pool? slot = some pool) (content : Content) :
    (∃ appended longer t before u, list.push ⟨pool, s.world⟩ = .ok (appended, longer) t ∧
      appended.fill content t = .ok before u ∧
      s.exec (.pushList slot index content) =
        (.bytes before, (s.settle slot u).setList index longer) ∧
      longer.slot? list.count = some appended) ∨
    ∃ failure t, list.push ⟨pool, s.world⟩ = .error failure t ∧
      s.exec (.pushList slot index content) = (.failed failure, s.settle slot t) ∧
      failure.IsRefusal := by
  -- the records describe the list, and the pool of its last part answers for that
  obtain ⟨account, -, describes, -⟩ := h.records.list found
  have shaped := h.sheltered.shaped.of_list? found
  have guards := h.sheltered.guarded.guards slot pool here _
    (handles_of_list? found _ list.last_elements_mem_handles)
  have abides := PartList.push_abides (h.sheltered.vouched.fit slot pool here) shaped guards
  rw [exec, pushList, found, withFound]
  rcases perform_fill here (abides.mono fun _ _ _ ht => ht.2) content with
    ⟨appended, longer, t, before, u, run, filled, -, hrun⟩ | ⟨failure, t, run, refusal, hrun⟩
  · refine .inl ⟨appended, longer, t, before, u, run, filled, hrun _, ?_⟩
    obtain ⟨opened, hopened, hcounted, -⟩ := h.sheltered.shaped.pushedList found run
    obtain ⟨rfl, rfl⟩ := Prod.mk.inj hcounted
    rw [describes.count]
    exact (describes.counted hopened).slot?_last (Nat.succ_pos _)
  · exact .inr ⟨failure, t, run, hrun _, refusal⟩

/-- **An element stays in its slot**, and the slot in its buffer. -/
private theorem settled {later : List Command} (h : s.Chronicled c taken)
    (admitted : s.AdmitsAll later) (found : s.list? index = some list)
    (haccount : (s.chronicle c later).lists[index]? = some account) :
    ∃ longer, (s.run later).2.list? index = some longer ∧
      ∀ i slot, list.slot? i = some slot → longer.slot? i = some slot ∧
        (account.lodging.resets = 0 → ∃ site,
          s.PlacedAt account.lodging.home slot.region site ∧
            (s.run later).2.PlacedAt account.lodging.home slot.region site) := by
  have h' := h.run admitted
  have vouched := h.sheltered.vouched
  obtain ⟨longer, hlonger, precedes⟩ := run_precedes h.sheltered admitted found
  refine ⟨longer, hlonger, fun i slot hslot => ⟨precedes i slot hslot, fun hresets => ?_⟩⟩
  -- the account at the start has no resets either, and names the same pool
  obtain ⟨first, hfirst, -, lodges⟩ := h.records.list found
  obtain ⟨same, hsame, hhome, hle⟩ := exists_list_chronicle hfirst
  obtain rfl := Option.some.inj (haccount.symm.trans hsame)
  obtain ⟨same, hsame, -, lodges'⟩ := h'.records.list hlonger
  obtain rfl := Option.some.inj (haccount.symm.trans hsame)
  have hof : ∀ {other : PartList}, other.slot? i = some slot → slot.region ∈ other.handles := by
    intro other hother
    obtain ⟨part, hpart, -, rfl⟩ := PartList.slot?_eq_some_iff.mp hother
    exact List.mem_append_right _
      (List.mem_flatMap.mpr ⟨part, List.mem_of_getElem? hpart, List.mem_cons_self⟩)
  have hmem := hof hslot
  have hmem' := hof (precedes i slot hslot)
  obtain ⟨site, count, tracks, -⟩ := lodges.tracked _ hmem
  have tracks' := tracks.run vouched h.sheltered.accounted admitted
  refine ⟨site, ?_, placedAt_of_lodges h'.sheltered lodges' hresets hmem' (hhome ▸ tracks')⟩
  rw [hhome]
  exact placedAt_of_lodges h.sheltered lodges (Nat.eq_zero_of_le_zero (hresets ▸ hle)) hmem tracks

end Chronicled

/-- **The lists of a caller keep the places of their elements**, along every history. -/
theorem run_keepsPlaces (heap : Heap) (history : List Command)
    (admitted : (Session.ofHeap heap).AdmitsAll history) :
    (Session.ofHeap heap).KeepsPlaces history := by
  have chronicled := (Chronicled.ofHeap heap).run admitted
  refine ⟨fun index list found => ?_, fun index list slot pool found here content =>
    chronicled.pushList_grows found here content,
    fun earlier later hsplit index list account found haccount => ?_⟩
  · obtain ⟨account, haccount, describes, -⟩ := chronicled.records.list found
    exact ⟨account, haccount, describes.foretells, fun pool values i slot hvalues hslot =>
      PartList.toList_getElem? describes.full hvalues hslot⟩
  · subst hsplit
    obtain ⟨hearlier, hlater⟩ := admitsAll_append.mp admitted
    rw [chronicle_append] at haccount
    rw [run_append]
    exact ((Chronicled.ofHeap heap).run hearlier).settled hlater found haccount

/-- A list with a header and parts of two elements, spread over blocks, of which the second could
not be started at first; one whose parts are large buffers; and a push that another pool refuses. -/
def spreadHistory : List Command :=
  [.addAllocator (.failing 1 {}), .createPool { size := 256 } (some ⟨0⟩),
    .createList 0 ⟨2, Nat.two_pos⟩ 40, .pushList 0 0 (.fill 1), .pushList 0 0 (.fill 2),
    .pushList 0 0 (.fill 3), .refill ⟨0⟩ 4, .pushList 0 0 (.fill 3),
    .initList 0 ⟨1, Nat.one_pos⟩ 300, .pushList 0 1 (.fill 4), .pushList 0 1 (.fill 5),
    .pushList 0 0 (.fill 6), .pushList 0 0 (.fill 7), .createPool { size := 112 } none,
    .pushList 1 0 (.fill 8)]

theorem run_keepsPlaces_spreadHistory :
    (Session.ofHeap roomyHeap).AdmitsAll spreadHistory ∧
      (((Session.ofHeap roomyHeap).run spreadHistory).2.lists.map fun list =>
        (list.parts.map Part.count, list.reserved)) = [([2, 2, 1], 344), ([1, 1], 624)] ∧
      (Session.ofHeap roomyHeap).KeepsPlaces spreadHistory := by
  have admitted : (Session.ofHeap roomyHeap).AdmitsAll spreadHistory := by decide +kernel
  exact ⟨admitted, by decide +kernel, run_keepsPlaces roomyHeap spreadHistory admitted⟩

end Session

end RegionPool
