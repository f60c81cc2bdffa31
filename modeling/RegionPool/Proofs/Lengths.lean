import RegionPool.Proofs.Courses
import RegionPool.Proofs.Sites

/-!
# How long buffers are

Offsets and lengths are counted in machine words. No sum of them leaves the range of a word as long
as they stay inside a buffer, for no layout exists of more than half of that range.

* `Buffer.IsMeasured`, `World.measured_of_request` — a granted buffer is shorter than half the
  range;
* `Session.Measured.exec` — the buffers of every pool are.
-/

namespace RegionPool

open PoolM Relation

/-- Every length for which a layout exists is below this bound, and so two lengths together are a
machine word. -/
def lengthLimit : Nat := 2 ^ (63 : Nat)

theorem lt_lengthLimit_of_isLayout {size align : Nat} (h : isLayout size align = true) :
    size < lengthLimit := by
  rw [isLayout, Bool.and_eq_true, decide_eq_true_iff] at h
  obtain ⟨hpower, hsize⟩ := h
  have hpos : align ≠ 0 := fun hzero => by
    rw [hzero] at hpower
    cases hpower
  rw [lengthLimit]
  omega

/-- **A buffer is measured**: its length is one for which a layout exists. -/
def Buffer.IsMeasured (buffer : Buffer) : Prop := buffer.length < lengthLimit

namespace World

variable {w w' : World} {id : AllocatorId} {request : Request} {buffer : Buffer}

/-- **A buffer that is granted is measured.** -/
theorem measured_of_request (h : w.request id request = (.ok buffer, w')) :
    buffer.IsMeasured := by
  rw [Buffer.IsMeasured, length_of_request h]
  exact lt_lengthLimit_of_isLayout (placed_of_request h).1

end World

/-! ### Commands -/

namespace Session

variable {s : Session} {command : Command}

/-- **The buffers of every pool are measured.** -/
def Measured (s : Session) : Prop :=
  ∀ slot pool, s.pool? slot = some pool → ∀ buffer ∈ pool.buffers, buffer.IsMeasured

namespace Measured

/-- Buffers that are granted are measured, and they stay as long as they are. -/
private theorem lasting (heap : Heap) : Pool.Lasting heap fun pool hand =>
    ∀ buffer ∈ pool.buffers ++ hand, buffer.IsMeasured :=
  .of_buffers
    (fun buffer offset data => by rw [Buffer.IsMeasured, Buffer.length_overwrite_any]; rfl)
    fun _ _ _ _ _ _ call => World.measured_of_request call

/-- The buffers of every pool, wherever its slot is. -/
private theorem iff_every : s.Measured ↔
    ∀ pool, some pool ∈ s.pools → ∀ buffer ∈ pool.buffers ++ [], buffer.IsMeasured := by
  simp only [List.append_nil]
  constructor
  · intro measured pool hmem
    obtain ⟨slot, hslot⟩ := List.mem_iff_getElem?.mp hmem
    exact measured slot pool (pool?_eq_some_iff.mpr hslot)
  · intro every slot pool here
    exact every pool (mem_pools_of_pool? here)

/-- **Every command** leaves the buffers of every pool measured. -/
theorem exec (measured : s.Measured) (sized : s.Sized) : (s.exec command).2.Measured :=
  iff_every.mpr ((lasting _).exec sized (iff_every.mp measured))

/-- **Every history** does. -/
theorem run {history : List Command} (measured : s.Measured) (sized : s.Sized) :
    (s.run history).2.Measured := by
  induction history generalizing s with
  | nil => exact measured
  | cons command history ih => exact ih (measured.exec sized) sized.exec

/-- A caller who holds nothing yet. -/
theorem ofHeap (heap : Heap) : (Session.ofHeap heap).Measured :=
  fun _ _ here => nomatch pool?_eq_some_iff.mp here

end Measured

end Session

end RegionPool
