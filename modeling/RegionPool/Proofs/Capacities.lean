import RegionPool.Proofs.Accounts

/-!
# The capacity of an array

An array becomes longer in three ways: there was room for its new elements; or its region is
lengthened, by exactly what they take up, although fewer of them may be missing; or its elements
move to a region with room for twice as many. However these are mixed, the region has room for the
capacity and for no more, and the capacity is at most what was asked for first, or twice what is
needed. So whatever part of the region is looked at, it is there.

* `InRange` — a reading of a region that stays inside;
* `GrowArray.ReadsInRange` — all readings of an array do; `GrowArray.Claims` — the slot of the
  elements that are appended, behind all others;
* `Session.perform_fill` — what is appended is filled, or there was no room made for it;
  `Session.run_provides` — the arrays of a caller, after every history.
-/

namespace RegionPool

open PoolM

/-! ### Readings -/

/-- **A reading in range**: what it finds is as told, nothing but a refusal keeps it from that, and
at home not even a refusal does. -/
structure InRange {α : Type} (x : Except Failure α) (home : Prop) (P : α → Prop) : Prop where
  found : ∀ a, x = .ok a → P a
  lawful : Lawful x
  served : home → ∃ a, x = .ok a

namespace InRange

variable {α β : Type} {x : Except Failure α} {home : Prop} {P : α → Prop} {Q : β → Prop}

theorem ok {a : α} (h : P a) : InRange (.ok a) home P where
  found _ heq := Except.ok.inj heq ▸ h
  lawful := .ok a
  served _ := ⟨a, rfl⟩

theorem bind {next : α → Except Failure β} (h : InRange x home P)
    (hnext : ∀ a, x = .ok a → P a → InRange (next a) home Q) : InRange (x >>= next) home Q where
  found b heq := by
    obtain ⟨a, ha, hb⟩ := bind_eq_ok_iff.mp heq
    exact (hnext a ha (h.found a ha)).found b hb
  lawful := h.lawful.bind fun a ha => (hnext a ha (h.found a ha)).lawful
  served hhome := by
    obtain ⟨a, ha⟩ := h.served hhome
    obtain ⟨b, hb⟩ := (hnext a ha (h.found a ha)).served hhome
    exact ⟨b, bind_eq_ok_iff.mpr ⟨a, ha, hb⟩⟩

end InRange

/-- **A slot inside its region** is read in range. -/
theorem Slot.bytes_inRange {slot : Slot} {pool : Pool} {home : Prop}
    (guards : pool.Guards slot.region) (housed : home → pool.Houses slot.region)
    (inside : slot.start + slot.length ≤ slot.region.length) :
    InRange (slot.bytes pool) home fun bytes => bytes.length = slot.length where
  found _ h := Slot.length_of_bytes h
  lawful := Slot.bytes_lawful guards inside
  served hhome := by
    obtain ⟨store, hlocate⟩ := (housed hhome).exists_locate
    exact Pool.exists_bytesIn hlocate inside

/-- It is written to in range, and houses what was housed. -/
theorem Slot.writeContent_inRange {slot : Slot} {s : PoolState} {home : Prop} (content : Content)
    (fit : s.Fit) (guards : s.pool.Guards slot.region)
    (housed : home → s.pool.Houses slot.region)
    (inside : slot.start + slot.length ≤ slot.region.length) :
    InRange (slot.writeContent s.pool content) home fun after =>
      s.Spares { s with pool := after } ∧ s.pool.Houses slot.region where
  found after h := by
    obtain ⟨bytes, store, hbytes, rfl⟩ := Slot.writeContent_eq_ok h
    obtain ⟨found, hlocate, -⟩ := bind_eq_ok_iff.mp hbytes
    exact ⟨.overwrite fit store _ _, (guards.of_locate hlocate).1⟩
  lawful := Slot.writeContent_lawful guards inside
  served hhome := by
    obtain ⟨bytes, hbytes⟩ := (Slot.bytes_inRange guards housed inside).served hhome
    -- what is written is as long as what was read
    have inside' : slot.start + (content.apply bytes).length ≤ slot.region.length := by
      rwa [Content.length_apply, Slot.length_of_bytes hbytes]
    obtain ⟨after, hafter⟩ := (housed hhome).exists_write inside'
    exact ⟨after, bind_eq_ok_iff.mpr ⟨bytes, hbytes, hafter⟩⟩

/-- **Filling a slot** inside a region that is housed goes through. -/
theorem Slot.exists_fill {slot : Slot} {s : PoolState} (content : Content) (fit : s.Fit)
    (housed : s.pool.Houses slot.region)
    (inside : slot.start + slot.length ≤ slot.region.length) :
    ∃ before t, slot.fill content s = .ok before t ∧ before.length = slot.length := by
  have hhome : True → s.pool.Houses slot.region := fun _ => housed
  have hread := Slot.bytes_inRange housed.guards hhome inside
  have hwrite := Slot.writeContent_inRange content fit housed.guards hhome inside
  refine Ends.exists_ok ?_
  simp only [Slot.fill, ends_bind, ends_pure]
  rw [ends_ofPool]
  -- the slot is read first, and then written to
  refine ⟨fun before hbefore => ?_, fun failure hrun => ?_⟩
  · rw [ends_onPool]
    refine ⟨fun _ _ _ => Slot.length_of_bytes hbefore, fun failure hrun => ?_⟩
    obtain ⟨after, hafter⟩ := hwrite.served trivial
    rw [hafter] at hrun
    cases hrun
  · obtain ⟨bytes, hbytes⟩ := hread.served trivial
    rw [hbytes] at hrun
    cases hrun

/-! ### Arrays -/

namespace GrowArray

variable {array longer : GrowArray} {s t : PoolState} {slot : Slot} {n : Nat}

/-- **All that is read of an array is in range**, in a pool that may be its home: the elements
together, each of them, and any number of them in order; and so is what is written to one of them.
-/
structure ReadsInRange (array : GrowArray) (pool : Pool) (home : Prop) : Prop where
  bytes : InRange (array.bytes pool) home fun bytes =>
    bytes.length = array.count * array.elementSize
  get? : ∀ i, InRange (array.get? pool i) home fun found =>
    found.map List.length = if i < array.count then some array.elementSize else none
  take : ∀ limit, InRange (array.take pool limit) home fun elements =>
    elements.map List.length = List.replicate (min limit array.count) array.elementSize
  set? : ∀ i content, InRange (array.set? i content pool) home fun written =>
    written.1.map List.length = if i < array.count then some array.elementSize else none
  slot? : ∀ i slot, array.slot? i = some slot →
    slot.start + slot.length ≤ array.elements.length

private theorem slot?_eq_some {i : Nat} (h : array.slot? i = some slot) : i < array.count ∧
    slot = { region := array.elements, start := i * array.elementSize,
             length := array.elementSize } := by
  obtain ⟨hlt, heq⟩ := Option.ite_none_right_eq_some.mp h
  exact ⟨hlt, (Option.some.inj heq).symm⟩

/-- An element of a run has its size. -/
private theorem length_elementOf {bytes : Bytes} {elementSize count i : Nat}
    (hlength : bytes.length = count * elementSize) (h : i < count) :
    (elementOf bytes elementSize i).length = elementSize := by
  have hstop := element_stop_le elementSize h
  rw [elementOf, List.length_take, List.length_drop, hlength]
  omega

/-- The slots of an array are in its region. -/
private theorem Shaped.slot?_inside (shaped : array.Shaped) {i : Nat}
    (h : array.slot? i = some slot) : slot.start + slot.length ≤ array.elements.length := by
  obtain ⟨hlt, rfl⟩ := slot?_eq_some h
  rw [shaped.room]
  exact element_stop_le _ (hlt.trans_le shaped.count_le)

/-- **An element is written to** in range. -/
private theorem Shaped.set?_inRange {pool : Pool} {home : Prop} {world : World}
    (shaped : array.Shaped) (fit : PoolState.Fit ⟨pool, world⟩)
    (guards : pool.Guards array.elements) (housed : home → pool.Houses array.elements) (i : Nat)
    (content : Content) : InRange (array.set? i content pool) home fun written =>
      written.1.map List.length = if i < array.count then some array.elementSize else none := by
  -- the region is looked up even if there is no such element
  have hlocate : InRange (discard (pool.locate array.elements)) home fun _ => True := by
    refine ⟨fun _ _ => trivial, (Pool.locate_lawful guards).map, fun hhome => ?_⟩
    obtain ⟨store, hstore⟩ := (housed hhome).exists_locate
    exact ⟨(), by rw [discard, hstore]; rfl⟩
  refine hlocate.bind fun _ _ _ => ?_
  split
  · next hnone =>
    have hge : ¬ i < array.count := fun hlt => by
      rw [GrowArray.slot?, if_pos hlt] at hnone
      cases hnone
    rw [if_neg hge]
    exact .ok rfl
  · next slot hsome =>
    have inside := shaped.slot?_inside hsome
    obtain ⟨hlt, rfl⟩ := slot?_eq_some hsome
    rw [if_pos hlt]
    -- what was written is read back
    have hwrite := Slot.writeContent_inRange content fit guards housed inside
    refine hwrite.bind fun after _ hspares => ?_
    obtain ⟨spares, housed'⟩ := hspares
    have hafter := spares.houses housed'
    exact (Slot.bytes_inRange hafter.guards (fun _ => hafter) inside).bind fun bytes _ hlength =>
      .ok (congrArg some hlength)

/-- **An array of its shape** is read in range. -/
theorem Shaped.readsInRange {pool : Pool} {home : Prop} {world : World} (shaped : array.Shaped)
    (fit : PoolState.Fit ⟨pool, world⟩) (guards : pool.Guards array.elements)
    (housed : home → pool.Houses array.elements) : array.ReadsInRange pool home := by
  have hbytes : InRange (array.bytes pool) home fun bytes =>
      bytes.length = array.count * array.elementSize := by
    refine Slot.bytes_inRange guards housed ?_
    rw [Nat.zero_add, shaped.room]
    exact Nat.mul_le_mul_right _ shaped.count_le
  refine ⟨hbytes, fun i => ?_, fun limit => ?_, shaped.set?_inRange fit guards housed,
    fun _ _ => shaped.slot?_inside⟩
  · refine hbytes.bind fun bytes _ hlength => ?_
    -- an element that there is lies in the bytes that were read
    split
    · next hlt => exact .ok (congrArg some (length_elementOf hlength hlt))
    · exact .ok rfl
  · refine hbytes.bind fun bytes _ hlength => .ok ?_
    rw [List.map_map, List.eq_replicate_iff]
    refine ⟨by rw [List.length_map, List.length_range], fun length hmem => ?_⟩
    obtain ⟨i, hi, rfl⟩ := List.mem_map.mp hmem
    have hlt := List.mem_range.mp hi
    exact length_elementOf hlength (Nat.lt_of_lt_of_le hlt (Nat.min_le_right _ _))

/-- **The slot of `n` elements that are appended**: it has their size and lies in the region of the
array, it consists of the slots of the new elements, and those of all others are in front of it. -/
structure Claims (array : GrowArray) (n : Nat) (slot : Slot) (longer : GrowArray) : Prop where
  count : longer.count = array.count + n
  elementSize : longer.elementSize = array.elementSize
  slot_eq : slot = { region := longer.elements, start := array.count * array.elementSize,
                     length := n * array.elementSize }
  inside : slot.start + slot.length ≤ longer.elements.length
  covers : ∀ i < n, longer.slot? (array.count + i) =
    some { region := longer.elements, start := slot.start + i * array.elementSize,
           length := array.elementSize }
  behind : ∀ i < array.count, ∀ earlier, longer.slot? i = some earlier →
    earlier.region = slot.region ∧ earlier.start + earlier.length ≤ slot.start

/-- **Appending** claims the slot of the new elements. -/
theorem Pushed.claims {pushed : Slot × GrowArray} (h : array.Pushed n s pushed t)
    (shaped : array.Shaped) : array.Claims n pushed.1 pushed.2 := by
  obtain ⟨roomier, hroomier, rfl, -⟩ := h
  obtain ⟨hroom, -, -⟩ := hroomier.capacity_bounds shaped.count_le
  have hlength := hroomier.room shaped.room
  have hcount := hroomier.count_eq
  have hsize := hroomier.elementSize_eq
  -- counting up moves no element, so a slot is told by its index alone
  have hslots : ∀ i < array.count + n, (roomier.counted n).2.slot? i =
      some { region := roomier.elements, start := i * array.elementSize,
             length := array.elementSize } := by
    intro i hlt
    have hlt' : i < (roomier.counted n).2.count := hlt.trans_eq (congrArg (· + n) hcount.symm)
    rw [slot?, if_pos hlt', ← hsize]
    rfl
  refine ⟨congrArg (· + n) hcount, hsize, ?_, ?_, fun i hlt => ?_, fun i hlt earlier hearlier => ?_⟩
  · rw [← hcount, ← hsize]
    rfl
  · change roomier.count * roomier.elementSize + n * roomier.elementSize ≤ roomier.elements.length
    rw [hlength, ← Nat.add_mul, hcount]
    exact Nat.mul_le_mul_right _ hroom
  · rw [hslots _ (Nat.add_lt_add_left hlt _), Nat.add_mul, ← hcount, ← hsize]
    rfl
  · rw [hslots i (Nat.lt_add_right n hlt)] at hearlier
    obtain rfl := Option.some.inj hearlier
    refine ⟨rfl, ?_⟩
    change i * array.elementSize + array.elementSize ≤ roomier.count * roomier.elementSize
    rw [hcount, hsize]
    exact element_stop_le _ hlt

/-- What is appended can be written to. -/
private theorem Growth.push_houses (growth : Growth) (fit : s.Fit) (shaped : array.Shaped)
    (guards : s.pool.Guards array.elements) : Abides (growth.push array) s fun pushed t =>
      t.pool.Houses pushed.1.region ∧
        pushed.1.start + pushed.1.length ≤ pushed.1.region.length := by
  cases growth with
  | one => exact (push_abides fit shaped guards).mono fun _ _ _ ht => ht.2
  | many n => exact (pushMany_abides fit shaped guards).mono fun _ _ _ ht => ht.2

end GrowArray

/-! ### Every history -/

namespace Session

variable {s : Session} {c : Chronicle} {taken : List Holding}

/-- **What is appended is filled**, or the pool has refused to make room for it. -/
theorem perform_fill {α : Type} {push : PoolM (Slot × α)} {slot : Nat} {pool : Pool}
    (here : s.pool? slot = some pool)
    (abides : Abides push ⟨pool, s.world⟩ fun pushed t =>
      t.pool.Houses pushed.1.region ∧
        pushed.1.start + pushed.1.length ≤ pushed.1.region.length) (content : Content) :
    let filling := push >>= fun pushed =>
      pushed.1.fill content >>= fun before => pure (before, pushed.2)
    (∃ appended longer t before u, push ⟨pool, s.world⟩ = .ok (appended, longer) t ∧
        appended.fill content t = .ok before u ∧ before.length = appended.length ∧
        ∀ next : Bytes × α → Session → Reply × Session,
          s.perform slot filling next = next (before, longer) (s.settle slot u)) ∨
      ∃ failure t, push ⟨pool, s.world⟩ = .error failure t ∧ failure.IsRefusal ∧
        ∀ next : Bytes × α → Session → Reply × Session,
          s.perform slot filling next = (.failed failure, s.settle slot t) := by
  intro filling
  -- only making room can fail: the room is housed, so it can be filled
  cases run : push ⟨pool, s.world⟩ with
  | error failure t =>
    have hrun : filling ⟨pool, s.world⟩ = .error failure t := bind_of_error run
    refine .inr ⟨failure, t, rfl, abides.ends.fail_of run, fun next => ?_⟩
    rw [perform, here, withFound, hrun]
  | ok pushed t =>
    obtain ⟨spares, housed, inside⟩ := abides.ok_of run
    obtain ⟨before, u, filled, hlength⟩ := Slot.exists_fill content spares.fit housed inside
    have hrun : filling ⟨pool, s.world⟩ = .ok (before, pushed.2) u :=
      (bind_of_ok run).trans (bind_of_ok filled)
    refine .inl ⟨pushed.1, pushed.2, t, before, u, rfl, filled, hlength, fun next => ?_⟩
    rw [perform, here, withFound, hrun]

/-- **Arrays provide what their accounts say.** There is one account for each array; the array is as
it describes; every pool that the array is shown to reads it in range, and its home before the first
reset does read it. Whoever appends to an array, in whatever pool, is handed the slot of the new
elements, and finds the longer array; or is refused, and the array stays as it was. -/
structure Provides (s : Session) (c : Chronicle) : Prop where
  described : ∀ index array, s.array? index = some array →
    ∃ account, c.arrays[index]? = some account ∧ account.Describes array ∧
      ∀ slot pool, s.pool? slot = some pool →
        array.ReadsInRange pool (slot = account.lodging.home ∧ account.lodging.resets = 0)
  grows : ∀ index array slot pool, s.array? index = some array → s.pool? slot = some pool →
    ∀ (growth : GrowArray.Growth) content,
      (∃ appended longer t before u,
        growth.push array ⟨pool, s.world⟩ = .ok (appended, longer) t ∧
          appended.fill content t = .ok before u ∧
          s.exec (growth.command slot index content) =
            (.bytes before, (s.settle slot u).setArray index (some longer)) ∧
          before.length = growth.size * array.elementSize ∧
          array.Claims growth.size appended longer) ∨
        ∃ failure t, growth.push array ⟨pool, s.world⟩ = .error failure t ∧
          s.exec (growth.command slot index content) = (.failed failure, s.settle slot t) ∧
          failure.IsRefusal

/-- **A session that is chronicled** has arrays that provide what their accounts say. -/
theorem Chronicled.provides (h : s.Chronicled c taken) : s.Provides c := by
  have vouched := h.sheltered.vouched
  refine ⟨fun index array found => ?_, fun index array slot pool found here growth content => ?_⟩
  · obtain ⟨account, haccount, describes, lodges⟩ := h.records.array found
    refine ⟨account, haccount, describes, fun slot pool here => ?_⟩
    have guards := h.sheltered.guards_array found here _ List.mem_cons_self
    refine (h.sheltered.shaped.of_array? found).readsInRange (vouched.fit slot pool here) guards ?_
    -- until the first reset the pool still houses the elements
    rintro ⟨rfl, hresets⟩
    exact lodges.houses vouched h.sheltered.retired hresets here _ List.mem_cons_self
  · have fit := vouched.fit slot pool here
    have shaped := h.sheltered.shaped.of_array? found
    have guards := h.sheltered.guards_array found here _ List.mem_cons_self
    have abides := growth.push_houses fit shaped guards
    rw [exec_growth, pushArray, found, withFound]
    rcases perform_fill here abides content with
      ⟨appended, longer, t, before, u, run, filled, hlength, hrun⟩ |
      ⟨failure, t, run, refusal, hrun⟩
    · have claims : array.Claims growth.size appended longer :=
        (h.sheltered.shaped.pushed found run).claims shaped
      have hbytes : before.length = growth.size * array.elementSize := by
        rw [hlength, claims.slot_eq]
      exact .inl ⟨appended, longer, t, before, u, run, filled, hrun _, hbytes, claims⟩
    · exact .inr ⟨failure, t, run, hrun _, refusal⟩

/-- **The arrays of a caller provide what it asked for**, after every history. -/
theorem run_provides (heap : Heap) (history : List Command)
    (admitted : (Session.ofHeap heap).AdmitsAll history) :
    ((Session.ofHeap heap).run history).2.Provides ((Session.ofHeap heap).chronicle {} history) :=
  ((Chronicled.ofHeap heap).run admitted).provides

/-- An array that is lengthened where it is, although only one of three elements is missing, and
then moved; one with no room and one with no bytes at first; and pushes that another pool refuses.
-/
def lengtheningHistory : List Command :=
  [.createPool { size := 256 } none, .createPool { size := 256 } none, .createArray 0 2 8,
    .pushArray 0 0 (.fill 1), .pushManyArray 0 0 3 (.fill 2), .alloc 0 8, .pushArray 0 0 (.fill 3),
    .pushArray 0 0 (.fill 4), .initArray 0 0 4, .pushArray 0 1 (.fill 5), .initArray 1 3 0,
    .pushManyArray 1 2 7 (.fill 0), .pushArray 1 0 (.fill 6), .cloneArray 0, .reset 1]

theorem run_provides_lengtheningHistory :
    (Session.ofHeap roomyHeap).AdmitsAll lengtheningHistory ∧
      (((Session.ofHeap roomyHeap).run lengtheningHistory).2.arrays.map fun entry =>
        entry.map fun array => (array.count, array.capacity)) =
          [some (6, 10), some (1, 1), some (7, 10), some (6, 10)] ∧
      ((Session.ofHeap roomyHeap).run lengtheningHistory).2.Provides
        ((Session.ofHeap roomyHeap).chronicle {} lengtheningHistory) := by
  have admitted : (Session.ofHeap roomyHeap).AdmitsAll lengtheningHistory := by decide +kernel
  exact ⟨admitted, by decide +kernel, run_provides roomyHeap lengtheningHistory admitted⟩

end Session

end RegionPool
