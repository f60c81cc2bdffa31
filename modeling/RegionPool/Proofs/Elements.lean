import RegionPool.Bytes.Content
import RegionPool.Container.Slot

/-!
# Elements in a run of bytes

A container keeps elements of one size one behind the other in a run of bytes. `elementsOf` cuts the
run into them; the lemmas say what becomes of the elements when the run is written to.

* `flatten_elementsOf` — the elements together are the bytes they fill;
* `elementsOf_add` — elements appended are the elements of the bytes behind;
* `elementsOf_overwrite`, `elementsOf_overwrite_end` — an element that is overwritten is replaced,
  elements written behind the others are appended, and all others stay.
-/

namespace RegionPool

/-- The first `count` elements of a run of bytes, each of `size` bytes. -/
def elementsOf (bytes : Bytes) (size count : Nat) : List Bytes :=
  (List.range count).map (elementOf bytes size)

section

variable {bytes bytes' data : Bytes} {size count index : Nat}

@[simp] theorem length_elementsOf : (elementsOf bytes size count).length = count := by
  simp [elementsOf]

theorem getElem?_elementsOf (index : Nat) :
    (elementsOf bytes size count)[index]? =
      if index < count then some (elementOf bytes size index) else none := by
  by_cases h : index < count
  · simp [elementsOf, h]
  · rw [if_neg h, List.getElem?_eq_none (by rw [length_elementsOf]; omega)]

/-- An element ends where the next one starts. -/
theorem element_stop_le (size : Nat) (h : index < count) :
    index * size + size ≤ count * size := by
  calc index * size + size
    _ = (index + 1) * size := (Nat.succ_mul index size).symm
    _ ≤ count * size := Nat.mul_le_mul_right size h

/-- Bytes behind the elements do not matter. -/
theorem elementsOf_take {limit : Nat} (h : count * size ≤ limit) :
    elementsOf (bytes.take limit) size count = elementsOf bytes size count := by
  refine List.map_congr_left fun index hmem => ?_
  have hstop := element_stop_le size (List.mem_range.mp hmem)
  rw [elementOf, elementOf, List.drop_take, List.take_take, Nat.min_eq_left (by omega)]

/-- Runs that start alike have the same elements there. -/
theorem elementsOf_congr (h : bytes'.take (count * size) = bytes.take (count * size)) :
    elementsOf bytes' size count = elementsOf bytes size count := by
  rw [← elementsOf_take (Nat.le_refl (count * size)), h, elementsOf_take (Nat.le_refl _)]

theorem elementsOf_add (more : Nat) :
    elementsOf bytes size (count + more) =
      elementsOf bytes size count ++ elementsOf (bytes.drop (count * size)) size more := by
  rw [elementsOf, List.range_add, List.map_append, List.map_map]
  refine congrArg (_ ++ ·) (List.map_congr_left fun index _ => ?_)
  rw [Function.comp_apply, elementOf, elementOf, List.drop_drop, Nat.add_mul]

theorem elementsOf_one (h : bytes.length = size) : elementsOf bytes size 1 = [bytes] := by
  simp [elementsOf, elementOf, ← h]

/-- **The elements together** are the bytes they fill. -/
theorem flatten_elementsOf (h : count * size ≤ bytes.length) :
    (elementsOf bytes size count).flatten = bytes.take (count * size) := by
  induction count with
  | zero => simp [elementsOf]
  | succ count ih =>
    rw [Nat.succ_mul] at h
    -- the last element is the first one of the bytes behind the others
    have hlast : elementsOf (bytes.drop (count * size)) size 1 =
        [(bytes.drop (count * size)).take size] := by
      simp [elementsOf, elementOf]
    rw [elementsOf_add, hlast, List.flatten_append, ih (by omega), List.flatten_singleton,
      Nat.succ_mul, List.take_add]

/-- An element is a slice. -/
private theorem slice?_eq_elementOf (bytes : Bytes) (h : index * size + size ≤ bytes.length) :
    bytes.slice? (index * size) size = some (elementOf bytes size index) :=
  Bytes.slice?_eq_some_iff.mpr ⟨h, rfl⟩

/-- **An element that is overwritten** is replaced, and the others stay as they are. -/
theorem elementsOf_overwrite (hlength : count * size ≤ bytes.length) (hindex : index < count)
    (hdata : data.length = size) :
    elementsOf (bytes.overwrite (index * size) data) size count =
      (elementsOf bytes size count).set index data := by
  subst hdata
  have hstop : index * data.length + data.length ≤ bytes.length :=
    Nat.le_trans (element_stop_le _ hindex) hlength
  refine List.ext_getElem? fun other => ?_
  rw [List.getElem?_set, length_elementsOf, getElem?_elementsOf, getElem?_elementsOf]
  by_cases hother : other < count
  · have hfits : other * data.length + data.length ≤ bytes.length :=
      Nat.le_trans (element_stop_le _ hother) hlength
    have hwritten := slice?_eq_elementOf (bytes.overwrite (index * data.length) data)
      (by rw [Bytes.length_overwrite hstop]; exact hfits)
    by_cases heq : index = other
    · subst heq
      rw [if_pos hother, if_pos rfl, if_pos hother, ← hwritten]
      exact Bytes.slice?_overwrite_self hstop
    · rw [if_pos hother, if_pos hother, if_neg heq, ← hwritten, ← slice?_eq_elementOf bytes hfits]
      refine Bytes.slice?_overwrite_of_disjoint hstop ?_
      -- two elements are apart, whichever of them comes first
      rcases Nat.lt_or_gt_of_ne heq with hlt | hgt
      · have := element_stop_le data.length hlt
        omega
      · have := element_stop_le data.length hgt
        omega
  · have hne : index ≠ other := by omega
    rw [if_neg hother, if_neg hne, if_neg hother]

/-- **Elements written behind the others** are appended, and the others stay as they are. -/
theorem elementsOf_overwrite_end {more : Nat} (hlength : (count + more) * size ≤ bytes.length)
    (hdata : data.length = more * size) :
    elementsOf (bytes.overwrite (count * size) data) size (count + more) =
      elementsOf bytes size count ++ elementsOf data size more := by
  rw [Nat.add_mul] at hlength
  have hfirst : (bytes.take (count * size)).length = count * size := by
    rw [List.length_take]
    omega
  -- the run is cut where the new data starts: old elements before it, new ones behind
  have hbefore : (bytes.overwrite (count * size) data).take (count * size) =
      bytes.take (count * size) := by
    rw [Bytes.overwrite, List.append_assoc, List.take_left' hfirst]
  have hbehind : ((bytes.overwrite (count * size) data).drop (count * size)).take (more * size) =
      data.take (more * size) := by
    rw [Bytes.overwrite, List.append_assoc, List.drop_left' hfirst, List.take_left' hdata,
      List.take_of_length_le (Nat.le_of_eq hdata)]
  rw [elementsOf_add, elementsOf_congr hbefore, elementsOf_congr hbehind]

end

end RegionPool
