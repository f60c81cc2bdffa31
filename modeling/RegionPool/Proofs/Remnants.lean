import RegionPool.Proofs.Repetition
import RegionPool.Proofs.Resolution
import RegionPool.Proofs.Turns
import RegionPool.Proofs.Withdrawals

/-!
# What an operation that fails leaves behind

A request that is refused leaves the pool as it was. An operation that makes two requests, one for a
header or a record and one for what belongs to it, does not take the first one back if the second
one is refused: but for large buffers a pool gives nothing back before it is reset. So what such an
operation leaves behind when it fails is its opening reservation, and nothing else.

* `Composite` — the operations that open with a reservation;
* `Composite.remnant` — the pool once the opening is made; `Composite.leaves` — an operation that
  fails leaves just that;
* `Session.run_leaves` — after every history.
-/

namespace RegionPool

open PoolM

/-! ### Operations that open with a reservation -/

/-- **An operation of several requests.** -/
inductive Composite where
  | addCleanup (dataSize : Nat)
  | createArray (capacity elementSize : Nat)
  | createList (partCapacity : PartCapacity) (elementSize : Nat)
  | pushList (list : PartList)
  deriving Repr, DecidableEq

namespace Composite

/-- Carry out an operation. -/
def action : Composite → PoolM Unit
  | .addCleanup dataSize => discard (Pool.addCleanup dataSize)
  | .createArray capacity elementSize => discard (GrowArray.create capacity elementSize)
  | .createList partCapacity elementSize => discard (PartList.create partCapacity elementSize)
  | .pushList list => discard list.push

/-- The number of bytes that an operation reserves first, for its record or its header. -/
def openingSize : Composite → Nat
  | .addCleanup _ => Layout.cleanupRecordSize
  | .createArray _ _ => Layout.arrayHeaderSize
  | .createList _ _ => Layout.listHeaderSize
  | .pushList _ => Layout.listPartHeaderSize

/-- **The opening**: the reservation that an operation starts with, if it makes one. Appending to a
list only does if the last part is full, and still there. -/
def opening? (pool : Pool) : Composite → Option (PoolM Region)
  | .addCleanup _ => some (Pool.allocSmall Layout.cleanupRecordSize .aligned)
  | .createArray _ _ => some (Pool.alloc Layout.arrayHeaderSize)
  | .createList _ _ => some (Pool.alloc Layout.listHeaderSize)
  | .pushList list =>
    if list.last.count = list.partCapacity ∧ (pool.locate list.last.elements).toOption.isSome then
      some (Pool.alloc Layout.listPartHeaderSize)
    else none

/-- **What the opening leaves behind**: the pool as it is once the reservation is made, or as it was
if there is none or it is refused. -/
def remnant (composite : Composite) (s : PoolState) : Pool :=
  match composite.opening? s.pool with
  | none => s.pool
  | some reserve =>
    match reserve s with
    | .ok _ t => t.pool
    | .error _ _ => s.pool

variable {composite : Composite} {s : PoolState} {reserve : PoolM Region}

/-- An opening that is served leaves just what it did itself. -/
private theorem opening_ends {ok : Region → PoolState → Prop}
    (opens : composite.opening? s.pool = some reserve)
    (h : Ends reserve s ok fun _ t => t.pool = s.pool) :
    Ends reserve s (fun region t => ok region t ∧ t.pool = composite.remnant s)
      fun _ t => t.pool = composite.remnant s := by
  rw [remnant, opens]
  dsimp only
  -- the remnant is what the opening left, served or refused
  cases run : reserve s with
  | ok region t =>
    rw [ends_of_ok run]
    exact ⟨h.ok_of run, rfl⟩
  | error failure t =>
    rw [ends_of_error run]
    exact h.fail_of run

/-- Room for a record: a request that blocks always serve. -/
private theorem allocRecord_withdraws (fit : s.Fit) :
    Ends (Pool.allocSmall Layout.cleanupRecordSize .aligned) s (fun _ t => s.Spares t)
      fun _ t => t.pool = s.pool := by
  have hrecord : Layout.cleanupRecordSize ≤ Layout.minMaxAlloc := by decide
  refine (Pool.allocSmall_ends fit (fit.sized.serves_record hrecord)).mono (fun _ t ht => ?_)
    fun _ t ht => ?_
  · obtain ⟨calls, hsupplied, -⟩ := ht
    exact hsupplied.spares
  · obtain ⟨calls, hdeclined, -⟩ := ht
    exact hdeclined.pool

/-- Registering a record: once there is room for it, its bytes are requested. -/
private theorem addCleanup_leaves (fit : s.Fit) (dataSize : Nat) :
    Ends (Pool.addCleanup dataSize) s (fun _ _ => True)
      fun _ t => t.pool = (addCleanup dataSize).remnant s := by
  rw [Pool.addCleanup, ends_bind, ends_discard]
  refine (opening_ends rfl (allocRecord_withdraws fit)).mono (fun region t ht => ?_) fun _ _ h => h
  obtain ⟨hspares, hremnant⟩ := ht
  rw [← hremnant]
  -- from here on only the request for the bytes can fail
  split
  · simp only [ends_bind, ends_pure, ends_getPool, ends_setPool, ends_log]
  · simp only [ends_bind, ends_map, ends_pure, ends_getPool, ends_setPool, ends_log]
    exact (Pool.alloc_withdraws hspares.fit).mono (fun _ _ _ => trivial) fun _ _ h => h

/-- A header, and then what belongs to it. -/
private theorem create_leaves {α β : Type} {size : Nat} {init : PoolM α} {finish : Region → α → β}
    (fit : s.Fit) (opens : composite.opening? s.pool = some (Pool.alloc size))
    (hinit : ∀ t : PoolState, t.Fit → Withdraws init t) :
    Ends (do
        let header ← Pool.alloc size
        let made ← init
        return finish header made) s
      (fun _ _ => True) fun _ t => t.pool = composite.remnant s := by
  simp only [ends_bind, ends_pure]
  refine (opening_ends opens (Pool.alloc_withdraws fit)).mono (fun region t ht => ?_) fun _ _ h => h
  obtain ⟨⟨hspares, -, -⟩, hremnant⟩ := ht
  rw [← hremnant]
  exact hinit t hspares.fit

/-- Appending to a list: once there is room for the header of a new part, its elements are
requested, and the first of them is there to be claimed. -/
private theorem pushList_leaves (fit : s.Fit) (list : PartList) :
    Ends list.push s (fun _ _ => True) fun _ t => t.pool = (pushList list).remnant s := by
  have hunopened : (pushList list).opening? s.pool = none → (pushList list).remnant s = s.pool := by
    intro hnone
    rw [remnant, hnone]
  rw [PartList.push]
  split
  · next full =>
    simp only [ends_bind, PartList.appendPart, ends_discard]
    rw [ends_ofPool]
    constructor
    · intro found hlocate
      have opens : (pushList list).opening? s.pool = some (Pool.alloc Layout.listPartHeaderSize) :=
        if_pos ⟨full, by rw [hlocate]; rfl⟩
      refine (opening_ends opens (Pool.alloc_withdraws fit)).mono (fun header t ht => ?_)
        fun _ _ h => h
      obtain ⟨⟨hspares, -, -⟩, hremnant⟩ := ht
      rw [← hremnant, ends_ofPool]
      refine ⟨fun size hsize => ?_, fun _ _ => rfl⟩
      refine (Pool.alloc_withdraws hspares.fit).mono (fun elements u hu => ?_) fun _ _ h => h
      obtain ⟨-, hlength, housed⟩ := hu
      simp only [ends_log, ends_pure]
      -- the first element of the new part is inside of it
      have inside : 0 * list.elementSize + list.elementSize ≤ elements.length := by
        rw [hlength, eq_of_byteLength hsize, Nat.zero_mul, Nat.zero_add]
        exact Nat.le_mul_of_pos_left _ list.partCapacity.2
      exact Ends.mono (PartList.claim_succeeds housed inside) (fun _ _ h => h) fun _ _ h => h.elim
    · intro failure hlocate
      refine (hunopened (if_neg fun h => ?_)).symm
      rw [hlocate] at h
      exact Bool.noConfusion h.2
  · next room =>
    rw [hunopened (if_neg fun h => room h.1)]
    simp only [PartList.claim, ends_bind, ends_discard, ends_pure]
    exact Withdraws.ofPool

/-- **An operation that fails** leaves just its opening behind. -/
theorem leaves (fit : s.Fit) (composite : Composite) :
    Ends composite.action s (fun _ _ => True) fun _ t => t.pool = composite.remnant s := by
  cases composite with
  | addCleanup dataSize => exact ends_discard.mpr (addCleanup_leaves fit dataSize)
  | createArray capacity elementSize =>
    exact ends_discard.mpr (create_leaves fit rfl fun _ fit' => GrowArray.init_withdraws fit')
  | createList partCapacity elementSize =>
    exact ends_discard.mpr (create_leaves fit rfl fun _ fit' => PartList.init_withdraws fit')
  | pushList list => exact ends_discard.mpr (pushList_leaves fit list)

/-- **The opening registers no record**, and takes a large buffer only if it is too large for
blocks. -/
theorem remnant_spares (fit : s.Fit) (composite : Composite) :
    (composite.remnant s).cleanups = s.pool.cleanups ∧
      (composite.openingSize ≤ s.pool.max → (composite.remnant s).large = s.pool.large) := by
  have hsmall : ∀ size, Ends (Pool.allocSmall size .aligned) s
      (fun _ t => t.pool.large = s.pool.large) fun _ _ => True := fun size =>
    Pool.allocSmall_keeps.mono (fun _ _ ht => ht.1) fun _ _ h => h
  -- an opening is a request that spares every site, and small if its size allows
  have hopen : ∀ reserve : PoolM Region, Ends reserve s (fun _ t => s.Spares t)
      (fun _ t => t.pool = s.pool) → (composite.openingSize ≤ s.pool.max →
        Ends reserve s (fun _ t => t.pool.large = s.pool.large) fun _ _ => True) →
      composite.opening? s.pool = some reserve →
      (composite.remnant s).cleanups = s.pool.cleanups ∧
        (composite.openingSize ≤ s.pool.max → (composite.remnant s).large = s.pool.large) := by
    intro reserve hspares hlarge opens
    rw [remnant, opens]
    dsimp only
    cases run : reserve s with
    | ok region t => exact ⟨(hspares.ok_of run).cleanups, fun hle => (hlarge hle).ok_of run⟩
    | error failure t => exact ⟨rfl, fun _ => rfl⟩
  have halloc : ∀ size, composite.openingSize = size →
      composite.opening? s.pool = some (Pool.alloc size) →
      (composite.remnant s).cleanups = s.pool.cleanups ∧
        (composite.openingSize ≤ s.pool.max → (composite.remnant s).large = s.pool.large) := by
    intro size hsize opens
    refine hopen _ ((Pool.alloc_withdraws fit).mono (fun _ _ ht => ht.1.toSpares) fun _ _ h => h)
      (fun hle => ?_) opens
    rw [Ends, Pool.alloc, Pool.allocWith_of_le (hsize ▸ hle)]
    exact hsmall size
  cases composite with
  | addCleanup dataSize => exact hopen _ (allocRecord_withdraws fit) (fun _ => hsmall _) rfl
  | createArray capacity elementSize => exact halloc _ rfl rfl
  | createList partCapacity elementSize => exact halloc _ rfl rfl
  | pushList list =>
    by_cases hopens : list.last.count = list.partCapacity ∧
        (s.pool.locate list.last.elements).toOption.isSome
    · exact halloc _ rfl (if_pos hopens)
    · have hnone : (pushList list).opening? s.pool = none := if_neg hopens
      rw [remnant, hnone]
      exact ⟨rfl, fun _ => rfl⟩

end Composite

/-! ### After every history -/

namespace Session

/-- **After every history**, an operation that fails leaves its opening behind and nothing else: the
blocks and the large buffers are what they were before, or what the reservation of the record or the
header alone has made of them. The cleanup records are the ones there were, and so are the large
buffers, unless the header is itself too large for blocks. -/
theorem run_leaves (heap : Heap) (history : List Command) {slot : Nat} {pool : Pool}
    (here : ((Session.ofHeap heap).run history).2.pool? slot = some pool) (composite : Composite)
    {failure : Failure} {t : PoolState}
    (failed : composite.action ⟨pool, ((Session.ofHeap heap).run history).2.world⟩ =
      .error failure t) :
    t.pool = composite.remnant ⟨pool, ((Session.ofHeap heap).run history).2.world⟩ ∧
      t.pool.cleanups = pool.cleanups ∧
      (composite.openingSize ≤ pool.max → t.pool.large = pool.large) := by
  have vouched : ((Session.ofHeap heap).run history).2.Vouched := (Vouched.ofHeap heap).run
  generalize ((Session.ofHeap heap).run history).2 = s at here failed vouched ⊢
  have fit := vouched.fit slot pool here
  have hleft := (composite.leaves fit).fail_of failed
  obtain ⟨hcleanups, hlarge⟩ := composite.remnant_spares fit
  exact ⟨hleft, hleft ▸ hcleanups, fun hle => hleft ▸ hlarge hle⟩

/-- A raw allocator that grants a block and nothing else. -/
def meagreHistory : List Command :=
  [.addAllocator (.failing 1 {}), .createPool {} (some ⟨0⟩)]

/-- Room for a record is found, but its bytes are refused. -/
theorem run_leaves_meagreHistory : ∃ pool failure t,
    ((Session.ofHeap roomyHeap).run meagreHistory).2.pool? 0 = some pool ∧
      (Composite.addCleanup 5000).action
        ⟨pool, ((Session.ofHeap roomyHeap).run meagreHistory).2.world⟩ = .error failure t ∧
      t.pool = (Composite.addCleanup 5000).remnant
        ⟨pool, ((Session.ofHeap roomyHeap).run meagreHistory).2.world⟩ ∧
      t.pool.cleanups = pool.cleanups ∧
      ((Composite.addCleanup 5000).openingSize ≤ pool.max → t.pool.large = pool.large) := by
  have hcheck : ∃ pool ∈ ((Session.ofHeap roomyHeap).run meagreHistory).2.pool? 0,
      Ends (Composite.addCleanup 5000).action
        ⟨pool, ((Session.ofHeap roomyHeap).run meagreHistory).2.world⟩ (fun _ _ => False)
        fun _ _ => True := by
    decide +kernel
  obtain ⟨pool, here, hends⟩ := hcheck
  obtain ⟨failure, t, failed, -⟩ := hends.exists_error
  exact ⟨pool, failure, t, here, failed, run_leaves roomyHeap meagreHistory here _ failed⟩

/-- **A cleanup record that is not registered** may still take its room: the bytes it is to own are
refused, and twenty-four bytes of the first block are in use afterwards where none were before. -/
theorem exists_used_ne_of_refused : ∃ pool failure t,
    ((Session.ofHeap roomyHeap).run meagreHistory).2.pool? 0 = some pool ∧
      Pool.addCleanup 5000 ⟨pool, ((Session.ofHeap roomyHeap).run meagreHistory).2.world⟩ =
        .error failure t ∧
      pool.chain.stats.map BlockStats.used = [0] ∧
      t.pool.chain.stats.map BlockStats.used = [24] := by
  have hcheck : ∃ pool ∈ ((Session.ofHeap roomyHeap).run meagreHistory).2.pool? 0,
      pool.chain.stats.map BlockStats.used = [0] ∧
      Ends (Pool.addCleanup 5000) ⟨pool, ((Session.ofHeap roomyHeap).run meagreHistory).2.world⟩
        (fun _ _ => False) fun _ t => t.pool.chain.stats.map BlockStats.used = [24] := by
    decide +kernel
  obtain ⟨pool, here, hbefore, hends⟩ := hcheck
  obtain ⟨failure, t, failed, hafter⟩ := hends.exists_error
  exact ⟨pool, failure, t, here, failed, hbefore, hafter⟩

end Session

end RegionPool
