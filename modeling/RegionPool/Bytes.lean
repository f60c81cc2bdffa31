/-!
# Byte regions

Memory is read and written a region at a time: `slice?` takes the bytes of a region out of a longer
run, `overwrite` puts bytes back in place. The laws that programs over memory need:

* `slice?_eq_some_iff` — a region can be read exactly when it lies inside the run;
* `length_overwrite` — a write inside the run keeps its length;
* `getElem?_overwrite` — after a write, each position holds the new byte inside the written region
  and the old byte everywhere else;
* `slice?_overwrite_self`, `slice?_overwrite_of_disjoint` — reading back a region, and a region
  apart from it;
* `overwrite_append_right`, `overwrite_append_left` — writing to one of two runs that follow one
  another, and across their border.
-/

namespace RegionPool

/-- A run of bytes. -/
abbrev Bytes := List UInt8

namespace Bytes

/-- The low eight bits of a number. -/
def lowByte (n : Nat) : UInt8 := UInt8.ofNat n

/-- The `length` bytes from `offset` on, if the run has that many. -/
def slice? (bytes : Bytes) (offset length : Nat) : Option Bytes :=
  if offset + length ≤ bytes.length then some ((bytes.drop offset).take length) else none

/-- `bytes` with the region from `offset` on replaced by `data`. Meant for `data` that ends inside
the run; the callers check this. -/
def overwrite (bytes : Bytes) (offset : Nat) (data : Bytes) : Bytes :=
  bytes.take offset ++ data ++ bytes.drop (offset + data.length)

/-! ### Reading -/

theorem slice?_eq_some_iff {bytes out : Bytes} {offset length : Nat} :
    slice? bytes offset length = some out ↔
      offset + length ≤ bytes.length ∧ (bytes.drop offset).take length = out := by
  unfold slice?
  split
  · simp_all
  · exact ⟨fun h => by simp at h, fun h => absurd h.1 ‹_›⟩

theorem length_of_slice? {bytes out : Bytes} {offset length : Nat}
    (h : slice? bytes offset length = some out) : out.length = length := by
  obtain ⟨hle, rfl⟩ := slice?_eq_some_iff.mp h
  simp; omega

/-! ### Writing -/

theorem length_overwrite {bytes data : Bytes} {offset : Nat}
    (h : offset + data.length ≤ bytes.length) :
    (overwrite bytes offset data).length = bytes.length := by
  simp [overwrite]; omega

/-- Each position holds the new byte inside the written region and the old byte elsewhere. -/
theorem getElem?_overwrite {bytes data : Bytes} {offset : Nat}
    (h : offset + data.length ≤ bytes.length) (i : Nat) :
    (overwrite bytes offset data)[i]? =
      if offset ≤ i ∧ i < offset + data.length then data[i - offset]? else bytes[i]? := by
  have htake : (bytes.take offset).length = offset := by simp; omega
  unfold overwrite
  rw [List.append_assoc]
  -- before the written range, inside it, or behind
  by_cases h₁ : i < offset
  · rw [List.getElem?_append_left (by omega), if_neg (by omega), List.getElem?_take_of_lt h₁]
  · rw [List.getElem?_append_right (by omega), htake]
    by_cases h₂ : i < offset + data.length
    · rw [List.getElem?_append_left (by omega), if_pos (by omega)]
    · rw [List.getElem?_append_right (by omega), if_neg (by omega), List.getElem?_drop]
      congr 1; omega

/-- Writing inside a region of the run is writing to the bytes of the region. -/
theorem take_drop_overwrite {bytes data : Bytes} {offset length start : Nat}
    (h : offset + length ≤ bytes.length) (inside : start + data.length ≤ length) :
    ((overwrite bytes (offset + start) data).drop offset).take length =
      overwrite ((bytes.drop offset).take length) start data := by
  have hregion : ((bytes.drop offset).take length).length = length := by simp; omega
  refine List.ext_getElem? fun i => ?_
  rw [getElem?_overwrite (by omega)]
  by_cases hi : i < length
  · rw [List.getElem?_take_of_lt hi, List.getElem?_drop, getElem?_overwrite (by omega),
      List.getElem?_take_of_lt hi, List.getElem?_drop]
    by_cases hwritten : start ≤ i ∧ i < start + data.length
    · rw [if_pos hwritten, if_pos (by omega)]
      congr 1
      omega
    · rw [if_neg hwritten, if_neg (by omega)]
  -- past the region there is nothing on either side
  · rw [if_neg (by omega), List.getElem?_eq_none (by simp; omega),
      List.getElem?_eq_none (by omega)]

theorem slice?_overwrite_self {bytes data : Bytes} {offset : Nat}
    (h : offset + data.length ≤ bytes.length) :
    slice? (overwrite bytes offset data) offset data.length = some data := by
  have htake : (bytes.take offset).length = offset := by simp; omega
  refine slice?_eq_some_iff.mpr ⟨by rw [length_overwrite h]; exact h, ?_⟩
  rw [overwrite, List.append_assoc, List.drop_append_of_le_length (by omega),
    List.drop_of_length_le (by omega)]
  simp

/-- A write behind the first of two runs is a write to the second. -/
theorem overwrite_append_right {first second data : Bytes} {offset : Nat}
    (h : first.length ≤ offset) :
    overwrite (first ++ second) offset data =
      first ++ overwrite second (offset - first.length) data := by
  have hstop : offset + data.length - first.length = offset - first.length + data.length := by omega
  rw [overwrite, overwrite, List.take_append, List.take_of_length_le h, List.drop_append,
    List.drop_of_length_le (by omega), hstop]
  simp

/-- A write that starts in the first of two runs goes on at the start of the second. -/
theorem overwrite_append_left {first second data : Bytes} {offset : Nat}
    (h : offset ≤ first.length) :
    overwrite first offset (data.take (first.length - offset)) ++
        overwrite second 0 (data.drop (first.length - offset)) =
      overwrite (first ++ second) offset data := by
  have htail : first.drop (offset + (data.take (first.length - offset)).length) =
      first.drop (offset + data.length) := by
    rw [List.length_take]
    by_cases hdata : data.length ≤ first.length - offset
    · rw [Nat.min_eq_right hdata]
    · rw [List.drop_of_length_le (by omega), List.drop_of_length_le (by omega)]
  -- either the data ends in the first run, or it fills the rest of that
  by_cases hdata : data.length ≤ first.length - offset
  · rw [overwrite, htail, List.take_of_length_le hdata, List.drop_of_length_le hdata]
    have hskip : offset + data.length - first.length = 0 := by omega
    simp [overwrite, List.take_append_of_le_length h, List.drop_append, hskip]
  · have hpast : first.drop (offset + data.length) = [] := List.drop_of_length_le (by omega)
    have hskip : offset + data.length - first.length = data.length - (first.length - offset) := by
      omega
    rw [overwrite, htail, hpast, overwrite, overwrite, List.take_append_of_le_length h,
      List.drop_append, hpast, hskip]
    simp only [List.take_zero, List.nil_append, List.append_nil, List.append_assoc, Nat.zero_add,
      List.length_drop, List.append_cancel_left_eq]
    rw [← List.append_assoc, List.take_append_drop]

/-- A write leaves every region apart from it as it was; an empty one is apart from all others. -/
theorem slice?_overwrite_of_disjoint {bytes data : Bytes} {offset start length : Nat}
    (h : offset + data.length ≤ bytes.length)
    (apart : data.length = 0 ∨ length = 0 ∨ start + length ≤ offset ∨
      offset + data.length ≤ start) :
    slice? (overwrite bytes offset data) start length = slice? bytes start length := by
  unfold slice?
  rw [length_overwrite h]
  split
  · congr 1
    apply List.ext_getElem?
    intro i
    -- what is read lies apart from what was written, byte by byte
    by_cases hi : i < length
    · rw [List.getElem?_take_of_lt hi, List.getElem?_take_of_lt hi, List.getElem?_drop,
        List.getElem?_drop, getElem?_overwrite h, if_neg (by omega)]
    · rw [List.getElem?_eq_none (by simp; omega), List.getElem?_eq_none (by simp; omega)]
  · rfl

end Bytes

end RegionPool
