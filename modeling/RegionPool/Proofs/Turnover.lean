import RegionPool.Proofs.Repetition

/-!
# Slots for large buffers from one reset to the next

A reset empties the slots for large buffers and keeps them, and a large buffer takes an empty slot
if one is within reach. A pool that is put to the same use over and over is therefore expected not
to collect slots. The reach decides whether this is so. Buffers fill the empty slots from the newest
one down, and those that are filled stay between the next empty slot and the end of the table; when
as many are filled as the reach has slots, no empty one is seen any more, and every further buffer
makes a slot. From one reset to the next at most `LargeTable.scanLimit` slots are taken again.

* `LargeTable.LaidOut` — the empty slots are older than those in use; `LaidOut.filled` for one more
  buffer;
* `Pool.fill`, `fill_ends` — requests one after the other;
* `Pool.cycle`, `cycle_ends`, `cycles_ends` — requests and then a reset, once and over and over;
* `Pool.count_of_cycles` — how many slots a pool has then.
-/

namespace RegionPool

open PoolM

/-! ### The layout of the table -/

namespace LargeTable

variable {table after : LargeTable} {buffer : Buffer} {empty live : Nat}

/-- **A table is laid out**: the slots that are empty come first, so they are older than those that
hold a buffer. -/
def LaidOut (table : LargeTable) (empty live : Nat) : Prop :=
  table.slots.map Option.isSome = List.replicate empty false ++ List.replicate live true

/-- What is left empty of `empty` slots once `live` buffers were placed: those out of reach, and
those no buffer was there for. -/
def leftover (empty live : Nat) : Nat := empty - min live scanLimit

namespace LaidOut

theorem count (h : table.LaidOut empty live) : table.count = empty + live := by
  have hlength := congrArg List.length h
  simpa [LargeTable.count] using hlength

/-- The empty slots are the first ones. -/
theorem slot_isEmpty (h : table.LaidOut empty live) {index : Nat} (hlt : index < table.count) :
    (table.slots[index]? == some none) = decide (index < empty) := by
  have hget : (table.slots.map Option.isSome)[index]? =
      (List.replicate empty false ++ List.replicate live true)[index]? := by rw [h]
  rw [List.getElem?_map, List.getElem?_eq_getElem hlt] at hget
  rw [List.getElem?_eq_getElem hlt]
  have hcount := h.count
  -- empty slots are on the left of the ones in use, and the index tells which half it is
  by_cases hempty : index < empty
  · rw [List.getElem?_append_left (by simpa using hempty), List.getElem?_replicate, if_pos hempty]
      at hget
    rw [decide_eq_true hempty]
    cases hslot : table.slots[index] with
    | none => rfl
    | some held => rw [hslot] at hget; cases hget
  · rw [List.getElem?_append_right (by simpa using hempty), List.length_replicate,
      List.getElem?_replicate, if_pos (by omega)] at hget
    rw [decide_eq_false hempty]
    cases hslot : table.slots[index] with
    | none => rw [hslot] at hget; cases hget
    | some held => rfl

/-- **The search for an empty slot** goes past the slots in use. It finds the newest empty one, if
there are fewer in use than the reach has slots. -/
theorem find?_reach (h : table.LaidOut empty live) :
    (table.reach.find? fun index => table.slots[index]? == some none) =
      if 0 < empty ∧ live < scanLimit then some (empty - 1) else none := by
  have hcount : table.slots.length = empty + live := h.count
  -- the slots in use are the newest, so the search sees them first, and then the empty ones
  have hreach : table.reach = ((List.range live).map (empty + ·)).reverse.take scanLimit ++
      (List.range empty).reverse.take (scanLimit - live) := by
    rw [reach, hcount, List.range_add, List.reverse_append, List.take_append, List.length_reverse,
      List.length_map, List.length_range]
  have hused : ((List.range live).map (empty + ·)).reverse.take scanLimit |>.find?
      (fun index => table.slots[index]? == some none) |>.isNone := by
    rw [Option.isNone_iff_eq_none, List.find?_eq_none]
    intro index hmem
    have hmem' := List.mem_reverse.mp (List.mem_of_mem_take hmem)
    obtain ⟨offset, hoffset, rfl⟩ := List.mem_map.mp hmem'
    have hlt : offset < live := List.mem_range.mp hoffset
    rw [h.slot_isEmpty (by rw [h.count]; omega), decide_eq_true_eq]
    omega
  rw [hreach, List.find?_append, Option.isNone_iff_eq_none.mp hused, Option.none_or]
  split
  · next hroom =>
    obtain ⟨older, rfl⟩ := Nat.exists_eq_succ_of_ne_zero (Nat.ne_of_gt hroom.1)
    obtain ⟨further, hfurther⟩ := Nat.exists_eq_succ_of_ne_zero (Nat.sub_ne_zero_of_lt hroom.2)
    have hfirst : (table.slots[older]? == some none) = true := by
      rw [h.slot_isEmpty (by rw [h.count]; omega), decide_eq_true_eq]
      exact Nat.lt_succ_self older
    rw [List.range_succ, List.reverse_append, List.reverse_singleton, List.singleton_append,
      hfurther, List.take_succ_cons, List.find?_cons, hfirst]
    rfl
  · next hnone =>
    -- there is no empty slot, or none is within reach
    rcases Nat.eq_zero_or_pos empty with rfl | hpos
    · rw [List.range_zero, List.reverse_nil, List.take_nil, List.find?_nil]
    · have hfull : scanLimit - live = 0 := by omega
      rw [hfull, List.take_zero, List.find?_nil]

/-- **A buffer takes the newest empty slot** while fewer are in use than the reach has slots. -/
private theorem reuse? (h : table.LaidOut empty live) (hreuse : table.reuse? buffer = some after) :
    0 < empty ∧ live < scanLimit ∧ after.LaidOut (empty - 1) (live + 1) := by
  obtain ⟨index, hfound, rfl⟩ := Option.map_eq_some_iff.mp hreuse
  rw [h.find?_reach] at hfound
  split at hfound
  · next hroom =>
    obtain rfl := Option.some.inj hfound
    refine ⟨hroom.1, hroom.2, ?_⟩
    obtain ⟨older, rfl⟩ := Nat.exists_eq_succ_of_ne_zero (Nat.ne_of_gt hroom.1)
    -- the newest empty slot is the last of them, and joins those in use
    have hlast : (List.replicate (older + 1) false).set older true =
        List.replicate older false ++ [true] := by
      rw [List.replicate_succ', List.set_append_right _ _ (by simp)]
      simp
    calc (table.slots.set older (some buffer)).map Option.isSome
      _ = (List.replicate (older + 1) false ++ List.replicate live true).set older true := by
        rw [List.map_set, h]; rfl
      _ = List.replicate older false ++ [true] ++ List.replicate live true := by
        rw [List.set_append_left _ _ (by simp), hlast]
      _ = List.replicate older false ++ List.replicate (live + 1) true := by
        rw [List.append_assoc, List.singleton_append, ← List.replicate_succ]
  · cases hfound

/-- If it finds none, there is none or too many are in use. -/
private theorem of_reuse?_eq_none (h : table.LaidOut empty live)
    (hreuse : table.reuse? buffer = none) : empty = 0 ∨ scanLimit ≤ live := by
  have hfound := Option.map_eq_none_iff.mp hreuse
  rw [h.find?_reach] at hfound
  split at hfound
  · cases hfound
  · omega

private theorem push (h : table.LaidOut empty live) :
    (table.push buffer).LaidOut empty (live + 1) := by
  calc (table.slots ++ [some buffer]).map Option.isSome
    _ = List.replicate empty false ++ List.replicate live true ++ [true] := by
      rw [List.map_append, h]; rfl
    _ = List.replicate empty false ++ List.replicate (live + 1) true := by
      rw [List.append_assoc, ← List.replicate_succ']

/-- **One more buffer** in a table from which `live` were placed before. -/
theorem filled (h : table.LaidOut (leftover empty live) live)
    (placed : table.reuse? buffer = some after ∨
      table.reuse? buffer = none ∧ after = table.push buffer) :
    after.LaidOut (leftover empty (live + 1)) (live + 1) := by
  rcases placed with hreuse | ⟨hnone, rfl⟩
  -- a slot was taken again, so there is one less
  · obtain ⟨hpos, hlt, hafter⟩ := h.reuse? hreuse
    have hleft : leftover empty (live + 1) = leftover empty live - 1 := by
      rw [leftover, leftover]
      omega
    rwa [hleft]
  -- none was within reach, so as many as the reach allows are taken already
  · have hleft : leftover empty (live + 1) = leftover empty live := by
      have := h.of_reuse?_eq_none hnone
      rw [leftover] at *
      rw [leftover]
      omega
    rw [hleft]
    exact h.push

/-- **A reset** empties every slot and keeps it. -/
theorem emptied (h : table.LaidOut empty live) : table.emptied.LaidOut (empty + live) 0 := by
  calc (table.slots.map fun _ => none).map Option.isSome
    _ = List.replicate table.count false := by
      rw [List.map_map]
      exact List.map_const'
    _ = List.replicate (empty + live) false ++ List.replicate 0 true := by
      rw [h.count, List.replicate_zero, List.append_nil]

end LaidOut

end LargeTable

namespace Pool

variable {s : PoolState} {size empty live : Nat} {sizes : List Nat}

/-! ### Requests one after the other -/

/-- **A large request** puts one buffer into the table: in an empty slot if one is within reach. -/
private theorem allocLarge_fills
    (laid : s.pool.large.LaidOut (LargeTable.leftover empty live) live) :
    Ends (allocLarge size) s
      (fun _ t => t.pool.max = s.pool.max ∧
        t.pool.large.LaidOut (LargeTable.leftover empty (live + 1)) (live + 1))
      fun _ _ => True := by
  simp only [allocLarge, ends_bind, ends_getPool]
  rw [ends_request]
  refine ⟨fun buffer world _ => ?_, fun _ _ _ => trivial⟩
  split
  · next large hreuse =>
    simp only [ends_setPool, ends_log, ends_pure, ends_bind, ends_getPool]
    exact ⟨trivial, laid.filled (.inl hreuse)⟩
  · next hnone =>
    simp only [enterLarge, ends_bind, ends_discard, ends_orRelease, ends_getPool, ends_setPool,
      ends_log, ends_pure]
    -- the record is a small request, which leaves the table alone
    refine Ends.mono allocSmall_enlarges (fun _ t ht => ?_) fun failure t _ => ?_
    · have hlarge : t.pool.large = s.pool.large := ht.1.large
      refine ⟨ht.1.traits.max, ?_⟩
      rw [hlarge]
      exact laid.filled (.inr ⟨hnone, rfl⟩)
    · cases failure with
      | fault fault => trivial
      | refused error => exact ends_release.mpr ⟨fun _ _ => trivial, fun _ _ _ => trivial⟩

/-- Fill a pool: requests of these sizes, one after the other. -/
def fill (sizes : List Nat) : PoolM Unit := sizes.forM fun size => discard (alloc size)

/-- The number of large requests among these. -/
def largeRequests (pool : Pool) (sizes : List Nat) : Nat :=
  sizes.countP fun size => decide (pool.max < size)

/-- **Requests one after the other**: the large ones are placed, the small ones leave the table
alone. -/
theorem fill_ends (laid : s.pool.large.LaidOut (LargeTable.leftover empty live) live) :
    Ends (fill sizes) s
      (fun _ t => t.pool.max = s.pool.max ∧
        t.pool.large.LaidOut (LargeTable.leftover empty (live + s.pool.largeRequests sizes))
          (live + s.pool.largeRequests sizes))
      fun _ _ => True := by
  induction sizes generalizing s live with
  | nil => exact ⟨rfl, laid⟩
  | cons size sizes ih =>
    change Ends (discard (alloc size) >>= fun _ => fill sizes) _ _ _
    rw [ends_bind, ends_discard]
    -- one request, and then the others with what it has left
    have hfirst : Ends (alloc size) s (fun _ t => t.pool.max = s.pool.max ∧
        t.pool.large.LaidOut (LargeTable.leftover empty (live + s.pool.largeRequests [size]))
          (live + s.pool.largeRequests [size])) fun _ _ => True := by
      by_cases hle : size ≤ s.pool.max
      · have hnone : s.pool.largeRequests [size] = 0 := by
          simp [largeRequests, Nat.not_lt_of_le hle]
        rw [hnone]
        refine Ends.mono (allocWith_enlarges hle) (fun _ t ht => ?_) fun _ _ h => h
        obtain ⟨grows, -⟩ := ht
        exact ⟨grows.traits.max, grows.large ▸ laid⟩
      · have hone : s.pool.largeRequests [size] = 1 := by
          simp [largeRequests, Nat.lt_of_not_le hle]
        rw [hone, alloc, allocWith, ends_bind, ends_getPool, if_neg hle]
        exact allocLarge_fills laid
    refine hfirst.mono (fun _ t ht => ?_) fun _ _ h => h
    obtain ⟨hmax, laid'⟩ := ht
    have hsum : live + s.pool.largeRequests (size :: sizes) =
        live + s.pool.largeRequests [size] + t.pool.largeRequests sizes := by
      rw [largeRequests, largeRequests, largeRequests, hmax, ← List.singleton_append,
        List.countP_append, Nat.add_assoc]
    rw [hsum]
    exact (ih laid').mono (fun _ u hu => ⟨hu.1.trans hmax, hu.2⟩) fun _ _ h => h

/-! ### From one reset to the next -/

/-- Fill a pool, and reset it. -/
def cycle (sizes : List Nat) : PoolM Unit := do
  fill sizes
  reset

/-- **From one reset to the next**: of the slots there were, as many are taken again as the reach
allows, and every other buffer has made one. -/
theorem cycle_ends (laid : s.pool.large.LaidOut empty 0) :
    Ends (cycle sizes) s
      (fun _ t => t.pool.max = s.pool.max ∧
        t.pool.large.LaidOut (LargeTable.leftover empty (s.pool.largeRequests sizes) +
          s.pool.largeRequests sizes) 0)
      fun _ _ => True := by
  have hnothing : LargeTable.leftover empty 0 = empty := by
    rw [LargeTable.leftover, Nat.zero_min, Nat.sub_zero]
  -- nothing is in use yet, so all the empty slots are left over
  rw [← hnothing] at laid
  rw [cycle, ends_bind]
  refine (fill_ends laid).mono (fun _ t ht => ?_) fun _ _ h => h
  obtain ⟨hmax, laid'⟩ := ht
  rw [Nat.zero_add] at laid'
  refine (reset_ends []).mono (fun _ u hu => ?_) fun _ _ _ => trivial
  obtain ⟨world, -, -, hpool, -⟩ := hu
  -- the reset empties the slots and keeps every one of them
  rw [hpool]
  exact ⟨hmax, laid'.emptied⟩

/-- **Over and over**: once there are as many slots as are taken again each time, each further cycle
adds those for which there was no reach. -/
theorem cycles_ends {load : Nat} {cycles : List (List Nat)} (laid : s.pool.large.LaidOut empty 0)
    (alike : ∀ sizes ∈ cycles, s.pool.largeRequests sizes = load)
    (enough : min load LargeTable.scanLimit ≤ empty) :
    Ends (cycles.forM cycle) s
      (fun _ t => t.pool.large.LaidOut (empty + cycles.length * (load - LargeTable.scanLimit)) 0)
      fun _ _ => True := by
  induction cycles generalizing s empty with
  | nil => simpa using laid
  | cons sizes cycles ih =>
    change Ends (cycle sizes >>= fun _ => cycles.forM cycle) _ _ _
    rw [ends_bind]
    refine (cycle_ends laid).mono (fun _ t ht => ?_) fun _ _ h => h
    obtain ⟨hmax, laid'⟩ := ht
    rw [alike sizes List.mem_cons_self] at laid'
    -- the slots within reach are filled first, and then some are added
    have hadded : LargeTable.leftover empty load + load =
        empty + (load - LargeTable.scanLimit) := by
      rw [LargeTable.leftover]
      omega
    rw [hadded] at laid'
    have alike' : ∀ sizes ∈ cycles, t.pool.largeRequests sizes = load := fun other hmem => by
      rw [largeRequests, hmax, ← largeRequests]
      exact alike other (List.mem_cons_of_mem sizes hmem)
    have hlength : empty + (sizes :: cycles).length * (load - LargeTable.scanLimit) =
        empty + (load - LargeTable.scanLimit) +
          cycles.length * (load - LargeTable.scanLimit) := by
      rw [List.length_cons, Nat.succ_mul]
      omega
    rw [hlength]
    exact ih laid' alike' (Nat.le_add_right_of_le enough)

variable {config : PoolConfig} {allocator : AllocatorId} {w w' : World} {pool : Pool}
  {t u : PoolState} {load : Nat} {first : List Nat} {more : List (List Nat)}

/-- **The slots of a pool under a steady load.** A new pool is filled and reset over and over, each
time with the same number of large requests, among small ones. After the first time it has a slot
for each of the large requests; each further time adds as many as there are beyond the reach of the
search for an empty slot. So the number stays the same exactly if the load is within this reach. -/
theorem count_of_cycles (created : create config allocator w = (.ok pool, w'))
    (alike : ∀ sizes ∈ first :: more, pool.largeRequests sizes = load)
    (start : cycle first ⟨pool, w'⟩ = .ok () t) (run : more.forM cycle t = .ok () u) :
    t.pool.large.count = load ∧
      u.pool.large.count = t.pool.large.count + more.length * (load - LargeTable.scanLimit) ∧
      (u.pool.large.count = t.pool.large.count ↔ more = [] ∨ load ≤ LargeTable.scanLimit) := by
  obtain ⟨-, buffer, opens⟩ := create_ok created
  have laid : pool.large.LaidOut 0 0 := by
    rw [opens.large]
    rfl
  -- the first time there is nothing to take again, so each request makes a slot
  obtain ⟨hmax, laid'⟩ := (cycle_ends laid).ok_of start
  rw [show (⟨pool, w'⟩ : PoolState).pool.largeRequests first = load from
    alike first List.mem_cons_self, LargeTable.leftover, Nat.zero_sub, Nat.zero_add] at laid'
  have alike' : ∀ sizes ∈ more, t.pool.largeRequests sizes = load := fun sizes hmem => by
    rw [largeRequests, hmax, ← largeRequests]
    exact alike sizes (List.mem_cons_of_mem first hmem)
  -- each further time, as many are left over as there are beyond the reach
  have laid'' := (cycles_ends laid' alike' (Nat.min_le_left _ _)).ok_of run
  have hcount : t.pool.large.count = load := laid'.count
  have hcount' : u.pool.large.count =
      t.pool.large.count + more.length * (load - LargeTable.scanLimit) := by
    rw [laid''.count, hcount, Nat.add_zero]
  refine ⟨hcount, hcount', ?_⟩
  rw [hcount', Nat.add_eq_left, Nat.mul_eq_zero, List.length_eq_zero_iff, Nat.sub_eq_zero_iff_le]

/-! ### A load beyond reach -/

/-- A pool of one small block, made over a heap that grants everything. -/
def smallPool : Except PoolError Pool × World :=
  create { size := 112 } ⟨0⟩ { heap := { place := fun _ _ _ => some 4096 } }

/-- One large request more than the reach has slots. -/
def heavySizes : List Nat := [33, 40, 33, 57, 33]

/-- Each of three times, a new pool gets one large request more than the reach has slots. -/
theorem count_of_cycles_heavySizes :
    ∃ pool w t u, smallPool = (.ok pool, w) ∧
      (∀ sizes ∈ [heavySizes, heavySizes, heavySizes], pool.largeRequests sizes = 5) ∧
      cycle heavySizes ⟨pool, w⟩ = .ok () t ∧
      [heavySizes, heavySizes].forM cycle t = .ok () u ∧
      t.pool.large.count = 5 ∧ u.pool.large.count = t.pool.large.count + 2 * (5 - 4) ∧
      (u.pool.large.count = t.pool.large.count ↔ [heavySizes, heavySizes] = [] ∨ 5 ≤ 4) := by
  have hcheck : ∃ pool ∈ smallPool.1.toOption,
      (∀ sizes ∈ [heavySizes, heavySizes, heavySizes], pool.largeRequests sizes = 5) ∧
      Ends (cycle heavySizes) ⟨pool, smallPool.2⟩
        (fun _ t => Ends ([heavySizes, heavySizes].forM cycle) t (fun _ _ => True)
          fun _ _ => False) fun _ _ => False := by
    decide +kernel
  obtain ⟨pool, hpool, alike, hends⟩ := hcheck
  have created : smallPool = (.ok pool, smallPool.2) :=
    Prod.ext (eq_ok_of_mem_toOption hpool) rfl
  obtain ⟨⟨⟩, t, start, hends'⟩ := hends.exists_ok
  obtain ⟨⟨⟩, u, run, -⟩ := hends'.exists_ok
  exact ⟨pool, smallPool.2, t, u, created, alike, start, run,
    count_of_cycles created alike start run⟩

/-- **A load beyond reach** makes a pool collect slots: it has more after the second time than after
the first one, although both times the requests are the same, all large, and followed by a reset. -/
theorem exists_count_ne_of_cycles :
    ∃ pool w t u, smallPool = (.ok pool, w) ∧ (∀ size ∈ heavySizes, pool.max < size) ∧
      cycle heavySizes ⟨pool, w⟩ = .ok () t ∧ cycle heavySizes t = .ok () u ∧
      t.pool.large.count = 5 ∧ u.pool.large.count = 6 := by
  have hcheck : ∃ pool ∈ smallPool.1.toOption, (∀ size ∈ heavySizes, pool.max < size) ∧
      Ends (cycle heavySizes) ⟨pool, smallPool.2⟩
        (fun _ t => t.pool.large.count = 5 ∧
          Ends (cycle heavySizes) t (fun _ u => u.pool.large.count = 6) fun _ _ => False)
        fun _ _ => False := by
    decide +kernel
  obtain ⟨pool, hpool, large, hends⟩ := hcheck
  obtain ⟨⟨⟩, t, start, hcount, hends'⟩ := hends.exists_ok
  obtain ⟨⟨⟩, u, run, hcount'⟩ := hends'.exists_ok
  exact ⟨pool, smallPool.2, t, u, Prod.ext (eq_ok_of_mem_toOption hpool) rfl, large, start,
    run, hcount, hcount'⟩

end Pool

end RegionPool
