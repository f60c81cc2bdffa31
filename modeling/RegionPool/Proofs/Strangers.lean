import RegionPool.Proofs.Readmission

/-!
# Containers that are strangers to a pool

A container may be shown to a pool that it was not made in, or to its own after a reset. No
operation asks for that up front. It comes out at the first call on the pool, whichever that is for
an array or a list that is full, empty or has room; and it is made before anything is allocated,
counted or given back. So nothing at all happens: not to the container, not to the pool, not to the
world.

It does not come out if the pool was reset a multiple of `2 ^ 32` times. Generations are counted in
32 bits, so the pool then takes the container for one of its own.

* `GrowArray.Shunned`, `PartList.Shunned` — what a pool makes of such a container, and
  `GrowArray.shunned`, `PartList.shunned`;
* `Lodging.refusal?` — why a container is refused, told from where it lodges;
* `Session.run_shuns` — the containers of a caller, after every history;
* `Session.Chronicled.comes_round` — an array whose pool has come round can be read again.
-/

namespace RegionPool

open PoolM

/-! ### The first call on a pool -/

section Calls

variable {s : PoolState} {α : Type} {failure : Failure}

private theorem ofPool_error {f : Pool → Except Failure α} (h : f s.pool = .error failure) :
    ofPool f s = .error failure s := by
  simp only [ofPool, h]

private theorem ofPool_ok {f : Pool → Except Failure α} {a : α} (h : f s.pool = .ok a) :
    ofPool f s = .ok a s := by
  simp only [ofPool, h]

private theorem onPool_error {f : Pool → Except Failure (α × Pool)}
    (h : f s.pool = .error failure) : onPool f s = .error failure s := by
  simp only [onPool, h]

private theorem discard_error {action : PoolM α} (h : action s = .error failure s) :
    discard action s = .error failure s := by
  simp only [discard, Functor.discard, Functor.mapConst, EStateM.map, Function.comp, h]

/-- What is not known is guarded. -/
private theorem Pool.guards_of_resolve {pool : Pool} {region : Region} {error : PoolError}
    (h : pool.resolve region = .error error) : pool.Guards region := fun ⟨found, hfound⟩ => by
  rw [h] at hfound
  cases hfound

end Calls

/-! ### Arrays -/

namespace GrowArray

variable {array : GrowArray} {s : PoolState} {error : PoolError}

/-- **What is said to whoever appends** to an array that the pool refuses: that it is refused,
unless the sizes are out of range already. -/
def Growth.complaint (growth : Growth) (array : GrowArray) (error : PoolError) : PoolError :=
  match growth with
  | .one => error
  | .many n =>
    if wordLimit ≤ array.count + n ∨
        array.capacity < array.count + n ∧ wordLimit ≤ n * array.elementSize then .sizeOverflow
    else error

/-- **A pool shuns an array**: it refuses whatever is to be done with the array, and nothing happens
to the array, to the pool or to the world; only that it was destroyed is told. -/
structure Shunned (array : GrowArray) (s : PoolState) (error : PoolError) : Prop where
  push : ∀ growth : Growth,
    growth.push array s = .error (.refused (growth.complaint array error)) s
  inPlace : ∀ growth : Growth,
    growth.inPlace (s, array) = .error (.refused (growth.complaint array error)) (s, array)
  bytes : array.bytes s.pool = .error (.refused error)
  get? : ∀ i, array.get? s.pool i = .error (.refused error)
  take : ∀ limit, array.take s.pool limit = .error (.refused error)
  set? : ∀ i content, array.set? i content s.pool = .error (.refused error)
  destroy : array.destroy s = .ok 0 { s with world := s.world.log (.arrayDestroyed 0) }

/-- Counting elements looks their slot up. -/
private theorem claim_refused {n : Nat} (h : s.pool.resolve array.elements = .error error) :
    array.claim n s = .error (.refused error) s :=
  bind_of_error (discard_error (ofPool_error (Pool.bytesIn_of_resolve h)))

/-- Making room looks the region up. -/
private theorem growBy_refused {additional size : Nat} {moved : Except Failure Nat}
    (h : s.pool.resolve array.elements = .error error) :
    array.growBy additional size moved s = .error (.refused error) s :=
  bind_of_error (onPool_error ((Pool.Refuses.of_resolve h).extend size))

/-- **Appending** comes to a call on the pool, whatever the array has room for. -/
private theorem Growth.push_refused (growth : Growth)
    (h : s.pool.resolve array.elements = .error error) :
    growth.push array s = .error (.refused (growth.complaint array error)) s := by
  cases growth with
  | one =>
    show array.push s = .error (.refused error) s
    rw [GrowArray.push]
    split
    · exact bind_of_error (growBy_refused h)
    · exact claim_refused h
  | many n =>
    show array.pushMany n s = _
    rw [pushMany, complaint]
    -- the numbers are checked before the pool is asked, so they are what is complained of first
    rcases Nat.lt_or_ge (array.count + n) wordLimit with hword | hover
    · have hneeded : checkedCount (array.count + n) = .ok (array.count + n) := if_pos hword
      rw [bind_of_ok (ofPool_ok hneeded)]
      rcases Nat.lt_or_ge array.capacity (array.count + n) with hfull | hroom
      · rw [if_pos hfull]
        rcases Nat.lt_or_ge (n * array.elementSize) wordLimit with hsize | hsize
        · have hbytes : byteLength n array.elementSize = .ok (n * array.elementSize) :=
            if_pos hsize
          rw [bind_of_ok (ofPool_ok hbytes), if_neg (by omega)]
          exact bind_of_error (growBy_refused h)
        · have hbytes : byteLength n array.elementSize = .error (.refused .sizeOverflow) :=
            if_neg (Nat.not_lt_of_le hsize)
          rw [if_pos (.inr ⟨hfull, hsize⟩)]
          exact bind_of_error (ofPool_error hbytes)
      · rw [if_neg (Nat.not_lt_of_le hroom), if_neg (by omega)]
        exact claim_refused h
    · have hneeded : checkedCount (array.count + n) = .error (.refused .sizeOverflow) :=
        if_neg (Nat.not_lt_of_le hover)
      rw [if_pos (.inl hover)]
      exact bind_of_error (ofPool_error hneeded)

/-- An array is read in a pool that houses its elements. -/
theorem exists_bytes {pool : Pool} (shaped : array.Shaped) (housed : pool.Houses array.elements) :
    ∃ bytes, array.bytes pool = .ok bytes := by
  obtain ⟨store, hlocate⟩ := housed.exists_locate
  refine Pool.exists_bytesIn hlocate ?_
  rw [Nat.zero_add, shaped.room]
  exact Nat.mul_le_mul_right _ shaped.count_le

/-- A region that is refused is not given back. -/
private theorem giveBack_refused {region : Region} (h : s.pool.resolve region = .error error) :
    giveBack region s = .ok 0 s := by
  rw [giveBack, (Pool.Refuses.of_resolve h).reclaim]

/-- **A pool shuns an array** whose regions do not resolve. -/
theorem shunned {refusal : Region → PoolError} (fit : s.Fit) (shaped : array.Shaped)
    (h : ∀ region ∈ array.regions, s.pool.resolve region = .error (refusal region)) :
    array.Shunned s (refusal array.elements) := by
  have helements := h array.elements List.mem_cons_self
  have hbytes : array.bytes s.pool = .error (.refused (refusal array.elements)) :=
    Pool.bytesIn_of_resolve helements
  -- as the region is guarded, the operations in place come to what those that hand out do
  have guards := Pool.guards_of_resolve helements
  refine ⟨fun growth => growth.push_refused helements, fun growth => ?_, hbytes, fun i => ?_,
    fun limit => ?_, fun i content => ?_, ?_⟩
  · have hcommits := growth.commits fit shaped guards
    rwa [InPlace.Commits, growth.push_refused helements] at hcommits
  · rw [get?, hbytes]
    rfl
  · rw [take, hbytes]
    rfl
  · rw [set?, Pool.locate, Pool.resolved, helements]
    rfl
  · rw [destroy, bind_of_ok (giveBack_refused helements)]
    cases hheader : array.header with
    | none => rfl
    | some header =>
      have hof : header ∈ array.regions := by
        rw [regions, hheader]
        exact List.mem_cons_of_mem _ List.mem_cons_self
      dsimp only
      rw [bind_of_ok (giveBack_refused (h header hof))]
      rfl

end GrowArray

/-! ### Lists -/

namespace PartList

variable {list : PartList} {s : PoolState}

/-- **A pool shuns a list**: it refuses whatever is to be done with the list, and nothing happens to
the list, to the pool or to the world. Whoever appends is told of the last part, and whoever reads
of the first one. -/
structure Shunned (list : PartList) (s : PoolState) (refusal : Region → PoolError) : Prop where
  push : list.push s = .error (.refused (refusal list.last.elements)) s
  inPlace : pushInPlace (s, list) = .error (.refused (refusal list.last.elements)) (s, list)
  views : list.views s.pool = .error (.refused (refusal list.first.elements))
  toList : list.toList s.pool = .error (.refused (refusal list.first.elements))

private theorem exists_parts_eq (list : PartList) : ∃ rest, list.parts = list.first :: rest := by
  rw [parts, first]
  cases list.earlier with
  | nil => exact ⟨[], rfl⟩
  | cons part earlier => exact ⟨earlier ++ [list.last], rfl⟩

/-- Appending looks the last part up, also if a new one is to be started. -/
private theorem push_refused {error : PoolError}
    (h : s.pool.resolve list.last.elements = .error error) :
    list.push s = .error (.refused error) s := by
  have hlocate : s.pool.locate list.last.elements = .error (.refused error) := by
    rw [Pool.locate, Pool.resolved, h]
    rfl
  rw [push]
  split
  · exact bind_of_error (bind_of_error (discard_error (ofPool_error hlocate)))
  · exact bind_of_error (discard_error (ofPool_error (Pool.bytesIn_of_resolve h)))

/-- Reading looks the first part up. -/
private theorem views_refused {error : PoolError}
    (h : s.pool.resolve list.first.elements = .error error) :
    list.views s.pool = .error (.refused error) := by
  obtain ⟨rest, hparts⟩ := list.exists_parts_eq
  have hview : list.view s.pool list.first = .error (.refused error) := by
    rw [view, Slot.bytes, Pool.bytesIn_of_resolve h]
    rfl
  rw [views, hparts, List.mapM_cons, hview]
  rfl

/-- **A pool shuns a list** whose regions do not resolve. -/
theorem shunned {refusal : Region → PoolError} (fit : s.Fit) (shaped : list.Shaped)
    (h : ∀ region ∈ list.handles, s.pool.resolve region = .error (refusal region)) :
    list.Shunned s refusal := by
  have hpart : ∀ part ∈ list.parts, s.pool.resolve part.elements = .error (refusal part.elements) :=
    fun part hmem => h _ (List.mem_append_right _
      (List.mem_flatMap.mpr ⟨part, hmem, List.mem_cons_self⟩))
  have hlast := hpart list.last list.last_mem_parts
  -- views start at the first part, pushes at the last one
  have hfirst : list.first ∈ list.parts := by
    obtain ⟨rest, hparts⟩ := list.exists_parts_eq
    rw [hparts]
    exact List.mem_cons_self
  have hviews := views_refused (hpart _ hfirst)
  refine ⟨push_refused hlast, ?_, hviews, ?_⟩
  -- pushing in place asks the same pool, so it is refused as pushing is
  · have hcommits := pushInPlace_commits fit shaped (Pool.guards_of_resolve hlast)
    rwa [InPlace.Commits, push_refused hlast] at hcommits
  · rw [toList, hviews]
    rfl

end PartList

/-! ### Every history -/

/-- **Why the pool in a slot refuses** the regions of a container that lodges elsewhere, or that has
lodged there since before a reset. After a multiple of `2 ^ 32` resets it has no reason to. -/
def Lodging.refusal? (lodging : Lodging) (slot : Nat) (pool : Pool) : Option (Region → PoolError) :=
  if slot ≠ lodging.home then some fun _ => .foreignAllocation
  else if lodging.resets % 2 ^ (32 : Nat) ≠ 0 then
    some fun region => .staleAllocation region.generation pool.generation
  else none

/-- A pool has no reason to refuse what lodges with it, and was made whole rounds of resets ago. -/
theorem Lodging.refusal?_eq_none {lodging : Lodging} {slot : Nat} {pool : Pool}
    (h : lodging.refusal? slot pool = none) :
    slot = lodging.home ∧ lodging.resets % 2 ^ (32 : Nat) = 0 := by
  unfold refusal? at h
  split at h
  · cases h
  · next hhome =>
    split at h
    · cases h
    · next hround => exact ⟨not_not.mp hhome, not_not.mp hround⟩

namespace Session

variable {s : Session} {c : Chronicle} {slot : Nat} {pool : Pool} {taken : List Holding}

/-- **The regions of a container are refused** for this reason. -/
theorem Lodges.resolve_eq_error {lodging : Lodging} {regions : List Region}
    {refusal : Region → PoolError} (lodges : s.Lodges lodging regions) (vouched : s.Vouched)
    (here : s.pool? slot = some pool) (hrefusal : lodging.refusal? slot pool = some refusal) :
    ∀ region ∈ regions, pool.resolve region = .error (refusal region) := by
  intro region hmem
  have hid := vouched.numbered slot pool here
  obtain ⟨site, count, tracks, -, hmod⟩ := lodges.tracked region hmem
  unfold Lodging.refusal? at hrefusal
  rw [Pool.resolve_eq_error_iff]
  -- either the pool is not the home, or it was reset since, and not a whole round of times
  split at hrefusal
  · next hne =>
    obtain rfl := Option.some.inj hrefusal
    refine .foreign fun heq => hne ?_
    exact (vouched.slot_eq here (heq.symm.trans tracks.owner)).symm
  · next hsame =>
    obtain rfl := not_not.mp hsame
    split at hrefusal
    · obtain rfl := Option.some.inj hrefusal
      have hgeneration := tracks.generation pool here
      exact .stale (tracks.owner.trans hid.symm) (by omega)
    · cases hrefusal

/-- **Pools shun the containers of strangers.** An array or a list whose account says that it lodges
with another pool, or in an earlier generation, is refused by the pool whatever is to be done with
it, full, empty or not. A command that was to append to it or to write to it leaves the whole
session as it was, and one that destroys an array gives nothing back. A pool that has no reason to
refuse a container takes its regions for its own, also if it was reset whole rounds since; only a
large one whose buffer was given back is unknown to it. -/
structure Shuns (s : Session) (c : Chronicle) : Prop where
  arrays : ∀ index array account, s.array? index = some array → c.arrays[index]? = some account →
    ∀ slot pool refusal, s.pool? slot = some pool →
      account.lodging.refusal? slot pool = some refusal →
        array.Shunned ⟨pool, s.world⟩ (refusal array.elements) ∧
        (∀ growth : GrowArray.Growth, ∀ content, s.exec (growth.command slot index content) =
          (.failed (.refused (growth.complaint array (refusal array.elements))), s)) ∧
        (∀ place content, s.exec (.setArray slot index place content) =
          (.failed (.refused (refusal array.elements)), s)) ∧
        s.exec (.destroyArray slot index) = (.number 0,
          { s.setArray index none with world := s.world.log (.arrayDestroyed 0) })
  lists : ∀ index list account, s.list? index = some list → c.lists[index]? = some account →
    ∀ slot pool refusal, s.pool? slot = some pool →
      account.lodging.refusal? slot pool = some refusal →
        list.Shunned ⟨pool, s.world⟩ refusal ∧
        ∀ content, s.exec (.pushList slot index content) =
          (.failed (.refused (refusal list.last.elements)), s)
  readmitsArrays : ∀ index array account, s.array? index = some array →
    c.arrays[index]? = some account → ∀ slot pool, s.pool? slot = some pool →
      account.lodging.refusal? slot pool = none →
        (∀ region ∈ array.regions, pool.Readmits region) ∧
        ((∃ bytes, array.bytes pool = .ok bytes) ∨
          array.bytes pool = .error (.refused .unknownAllocation))
  readmitsLists : ∀ index list account, s.list? index = some list →
    c.lists[index]? = some account → ∀ slot pool, s.pool? slot = some pool →
      account.lodging.refusal? slot pool = none → ∀ region ∈ list.handles, pool.Readmits region

/-- **A session that is chronicled** has pools that shun strangers. -/
theorem Chronicled.shuns (h : s.Chronicled c taken) (clocked : s.Clocked) : s.Shuns c := by
  have vouched := h.sheltered.vouched
  refine ⟨fun index array account found haccount slot pool refusal here hrefusal => ?_,
    fun index list account found haccount slot pool refusal here hrefusal => ?_,
    fun index array account found haccount slot pool here hrefusal => ?_,
    fun index list account found haccount slot pool here hrefusal => ?_⟩
  · obtain ⟨same, hsame, -, lodges⟩ := h.records.array found
    obtain rfl := Option.some.inj (haccount.symm.trans hsame)
    have shunned := GrowArray.shunned (vouched.fit slot pool here)
      (h.sheltered.shaped.of_array? found) (lodges.resolve_eq_error vouched here hrefusal)
    refine ⟨shunned, fun growth content => ?_, fun place content => ?_, ?_⟩
    · rw [exec_growth]
      simp only [pushArray, perform, found, here, withFound, bind_of_error (shunned.push growth),
        settle_same here]
    · rw [exec]
      simp only [setElement, perform, found, here, withFound,
        onPool_error (shunned.set? place content), settle_same here]
    · have here' : (s.setArray index none).pool? slot = some pool := here
      rw [exec_destroyArray here found shunned.destroy, settle_same here']
  · obtain ⟨same, hsame, -, lodges⟩ := h.records.list found
    obtain rfl := Option.some.inj (haccount.symm.trans hsame)
    have shunned := PartList.shunned (vouched.fit slot pool here)
      (h.sheltered.shaped.of_list? found)
      (lodges.resolve_eq_error vouched here hrefusal)
    refine ⟨shunned, fun content => ?_⟩
    rw [exec]
    simp only [pushList, perform, found, here, withFound, bind_of_error shunned.push,
      settle_same here]
  · obtain ⟨same, hsame, -, lodges⟩ := h.records.array found
    obtain rfl := Option.some.inj (haccount.symm.trans hsame)
    obtain ⟨rfl, hround⟩ := Lodging.refusal?_eq_none hrefusal
    have readmits := lodges.readmits vouched h.sheltered.retired clocked
      (handles_of_array? found) here hround
    refine ⟨readmits, ?_⟩
    -- what is read are the elements, and they lie in the first of the regions
    rcases readmits array.elements List.mem_cons_self with housed | ⟨-, hunknown⟩
    · exact .inl (GrowArray.exists_bytes (h.sheltered.shaped.of_array? found) housed)
    · exact .inr (Pool.bytesIn_of_resolve hunknown)
  · obtain ⟨same, hsame, -, lodges⟩ := h.records.list found
    obtain rfl := Option.some.inj (haccount.symm.trans hsame)
    obtain ⟨rfl, hround⟩ := Lodging.refusal?_eq_none hrefusal
    exact lodges.readmits vouched h.sheltered.retired clocked (handles_of_list? found) here hround

/-- **Pools shun the containers of strangers**, after every history. -/
theorem run_shuns (heap : Heap) (history : List Command)
    (admitted : (Session.ofHeap heap).AdmitsAll history) :
    ((Session.ofHeap heap).run history).2.Shuns ((Session.ofHeap heap).chronicle {} history) :=
  ((Chronicled.ofHeap heap).run admitted).shuns
    ((Clocked.ofHeap heap).run (.ofHeap heap) (.ofHeap heap) admitted)

/-- A pool that was reset, with an array that is full, an array of elements without bytes and a list
whose last part is full; and another pool, with an array that has room. -/
def estrangedHistory : List Command :=
  [.createPool { size := 256 } none, .createPool { size := 256 } none, .createArray 0 1 8,
    .pushArray 0 0 (.fill 1), .initArray 0 0 0, .createList 0 ⟨1, Nat.one_pos⟩ 8,
    .pushList 0 0 (.fill 2), .initArray 1 2 8, .reset 0]

theorem run_shuns_estrangedHistory :
    (Session.ofHeap roomyHeap).AdmitsAll estrangedHistory ∧
      (∀ command ∈ [Command.pushArray 0 0 (.fill 3), .pushManyArray 0 1 2 (.fill 3),
        .pushList 0 0 (.fill 3)],
          (((Session.ofHeap roomyHeap).run estrangedHistory).2.exec command).1 =
            .failed (.refused (.staleAllocation 0 1))) ∧
      (∀ command ∈ [Command.pushArray 1 0 (.fill 3), .pushArray 0 2 (.fill 3)],
          (((Session.ofHeap roomyHeap).run estrangedHistory).2.exec command).1 =
            .failed (.refused .foreignAllocation)) ∧
      ((Session.ofHeap roomyHeap).run estrangedHistory).2.Shuns
        ((Session.ofHeap roomyHeap).chronicle {} estrangedHistory) := by
  have admitted : (Session.ofHeap roomyHeap).AdmitsAll estrangedHistory := by decide +kernel
  exact ⟨admitted, by decide +kernel, by decide +kernel,
    run_shuns roomyHeap estrangedHistory admitted⟩

/-! ### When the generation comes round -/

/-- **An array whose pool has come round** can be read again, though the pool was reset since. -/
theorem Chronicled.comes_round {index block offset : Nat} {array : GrowArray}
    {account : ArrayAccount} (h : s.Chronicled c taken) (clocked : s.Clocked)
    (found : s.array? index = some array) (haccount : c.arrays[index]? = some account)
    (fresh : account.lodging.resets = 0) (here : s.pool? account.lodging.home = some pool)
    (hplace : array.elements.place = .block block offset) {resets : List Command}
    (hresets : resets = List.replicate (2 ^ (32 : Nat)) (.reset account.lodging.home)) :
    s.AdmitsAll resets ∧ (s.run resets).2.array? index = some array ∧
      (s.chronicle c resets).arrays[index]? =
        some { account with lodging := ⟨account.lodging.home, 2 ^ (32 : Nat)⟩ } ∧
      ∃ after bytes, (s.run resets).2.pool? account.lodging.home = some after ∧
        array.bytes after = .ok bytes := by
  subst hresets
  have vouched := h.sheltered.vouched
  have accounted := h.sheltered.accounted
  obtain ⟨admitted, harrays, ⟨after, hafter⟩, hchronicle⟩ :=
    run_replicate_reset vouched accounted here (2 ^ (32 : Nat))
  have hfound : (s.run (List.replicate (2 ^ (32 : Nat)) (.reset account.lodging.home))).2.array?
      index = some array := by
    rw [array?, harrays]
    exact found
  have hnoted := Chronicle.iterate_afterReset haccount rfl (2 ^ (32 : Nat))
  rw [← hchronicle, fresh, Nat.zero_add] at hnoted
  refine ⟨admitted, hfound, hnoted, after, ?_⟩
  -- the pool has no reason to refuse the array, and its elements are not in a large buffer
  have shuns := (h.run admitted).shuns (clocked.run vouched accounted admitted)
  have hnone : Lodging.refusal? ⟨account.lodging.home, 2 ^ (32 : Nat)⟩ account.lodging.home after =
      none := by
    rw [Lodging.refusal?, if_neg (not_not.mpr rfl), if_neg (not_not.mpr (Nat.mod_self _))]
  obtain ⟨readmits, -⟩ := shuns.readmitsArrays index array _ hfound hnoted _ after hafter hnone
  rcases readmits array.elements List.mem_cons_self with housed | ⟨⟨id, hlarge⟩, -⟩
  · obtain ⟨bytes, hbytes⟩ := GrowArray.exists_bytes (h.sheltered.shaped.of_array? found) housed
    exact ⟨bytes, hafter, hbytes⟩
  · exact nomatch hlarge.symm.trans hplace

/-- An array is made in a pool. -/
def settledHistory : List Command := [.createPool { size := 256 } none, .initArray 0 2 8]

/-- An array is made in one of two pools, and the other one is reset. -/
def aloofHistory : List Command :=
  [.createPool { size := 256 } none, .createPool { size := 256 } none, .initArray 0 2 8, .reset 1]

/-- **Not every pool that was reset since refuses a container**: its own does not if its generation
has come round. And another pool does so for being another, whether it was reset or not. -/
theorem not_shuns_of_reset :
    (¬ ∀ (heap : Heap) (history : List Command), (Session.ofHeap heap).AdmitsAll history →
      ∀ index array account,
        ((Session.ofHeap heap).run history).2.array? index = some array →
        ((Session.ofHeap heap).chronicle {} history).arrays[index]? = some account →
          ∀ pool, ((Session.ofHeap heap).run history).2.pool? account.lodging.home = some pool →
            account.lodging.resets ≠ 0 → ∃ error, array.bytes pool = .error (.refused error)) ∧
    (Session.ofHeap roomyHeap).AdmitsAll aloofHistory ∧
      (((Session.ofHeap roomyHeap).run aloofHistory).2.exec (.pushArray 1 0 (.fill 3))).1 =
        .failed (.refused .foreignAllocation) := by
  refine ⟨fun refuses => ?_, by decide +kernel, by decide +kernel⟩
  have hadmitted : (Session.ofHeap roomyHeap).AdmitsAll settledHistory := by decide +kernel
  have hplace : (((Session.ofHeap roomyHeap).run settledHistory).2.array? 0).map
      (·.elements.place) = some (.block 0 80) := by decide +kernel
  have haccount : ((Session.ofHeap roomyHeap).chronicle {} settledHistory).arrays[0]? =
      some { lodging := { home := 0 }, capacity := 2, elementSize := 8 } := by decide +kernel
  have hhere : (((Session.ofHeap roomyHeap).run settledHistory).2.pool? 0).isSome := by
    decide +kernel
  obtain ⟨array, found, hblock⟩ := Option.map_eq_some_iff.mp hplace
  obtain ⟨pool, here⟩ := Option.isSome_iff_exists.mp hhere
  have clocked := (Clocked.ofHeap roomyHeap).run (.ofHeap _) (.ofHeap _) hadmitted
  -- the resets get a name, for nothing here may unfold a list of that length
  obtain ⟨resets, hround⟩ : ∃ resets, resets =
      List.replicate (2 ^ (32 : Nat)) (Command.reset 0) := ⟨_, rfl⟩
  obtain ⟨hresets, hfound, hnoted, after, bytes, hafter, hbytes⟩ :=
    ((Chronicled.ofHeap roomyHeap).run hadmitted).comes_round clocked found haccount rfl here hblock
      hround
  -- the array is shown to its own pool, a whole round of resets after it was made
  have hrun : ((Session.ofHeap roomyHeap).run (settledHistory ++ resets)).2 =
      (((Session.ofHeap roomyHeap).run settledHistory).2.run resets).2 := by rw [run_append]
  rw [← hrun] at hfound hafter
  rw [← chronicle_append] at hnoted
  obtain ⟨error, herror⟩ := refuses roomyHeap (settledHistory ++ resets)
    (admitsAll_append.mpr ⟨hadmitted, hresets⟩) 0 array _ hfound hnoted after hafter
    (Nat.two_pow_pos 32).ne'
  rw [hbytes] at herror
  cases herror

end Session

end RegionPool
