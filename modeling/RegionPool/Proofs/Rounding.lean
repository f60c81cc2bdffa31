import Mathlib.Order.Bounds.Basic
import RegionPool.Layout

/-!
# Rounding up to an alignment

Rounding is done on bits: what is below the alignment is added, and the low bits of the sum are
cleared. What it is there for is divisibility: it finds the least multiple of the alignment that is
not below a value. For a power of two the two come to the same, for every value that a machine word
holds.

Everything follows from one fact. A number and what is left of it when its low bits are cleared lie
on the same side of every multiple of the alignment (`Layout.clearBits_lt_iff`). At the multiples
next to the result it says that the result is the least one. At the end of the range of a word,
which is a multiple of every alignment, it says that the sum is a word just when the result is: so
no multiple is missed because the sum is tested and not the result.

* `Layout.isLeast_alignUp` — the result is the least multiple that is not below the value, from
  which it follows that rounding is idempotent and monotone;
* `Layout.checkedAlignUp?_two_pow` — the test of the sum is one of the result;
* `Word.alignUp`, `Word.checkedAlignUp?`, `Word.isAligned` — the same on machine words, whose
  arithmetic goes round at the end of the range, and `Layout.agreesOnWords`, which says that words
  find what is found among the numbers, at every alignment;
* `Layout.roundsExactly_two_pow` — rounding is exact up to the end of the range.
-/

namespace RegionPool

/-! ### Divisibility -/

namespace Layout

variable {value other bound k : Nat}

/-- **The multiples of an alignment that are not below a value.** -/
def multiplesFrom (value align : Nat) : Set Nat := { n | align ∣ n ∧ value ≤ n }

/-- A greater value has fewer of them. -/
theorem multiplesFrom_subset (hle : value ≤ other) (align : Nat) :
    multiplesFrom other align ⊆ multiplesFrom value align := by
  rintro n ⟨hdvd, hother⟩
  exact ⟨hdvd, Nat.le_trans hle hother⟩

/-- **Clearing low bits crosses no multiple**: a number and what is left of it are on the same side
of each. -/
theorem clearBits_lt_iff (hbound : 2 ^ k ∣ bound) :
    clearBits value (2 ^ k - 1) < bound ↔ value < bound := by
  obtain ⟨n, rfl⟩ := hbound
  have hpos : 0 < 2 ^ k := Nat.two_pow_pos k
  rw [clearBits_two_pow_sub_one, Nat.mul_lt_mul_left hpos, Nat.div_lt_iff_lt_mul hpos, Nat.mul_comm]

theorem two_pow_dvd_alignUp (value k : Nat) : 2 ^ k ∣ alignUp value (2 ^ k) := by
  rw [alignUp, clearBits_two_pow_sub_one]
  exact Nat.dvd_mul_right (2 ^ k) _

/-- **Rounding up finds the least multiple** that is not below the value. -/
theorem isLeast_alignUp (value k : Nat) :
    IsLeast (multiplesFrom value (2 ^ k)) (alignUp value (2 ^ k)) := by
  have hpos : 0 < 2 ^ k := Nat.two_pow_pos k
  refine ⟨⟨two_pow_dvd_alignUp value k, ?_⟩, ?_⟩
  · -- the next multiple after the result is above the sum
    have hnext : 2 ^ k ∣ alignUp value (2 ^ k) + 2 ^ k :=
      Nat.dvd_add (two_pow_dvd_alignUp value k) (Nat.dvd_refl _)
    have hsum : value + (2 ^ k - 1) < alignUp value (2 ^ k) + 2 ^ k :=
      (clearBits_lt_iff hnext).mp (Nat.lt_add_of_pos_right hpos)
    omega
  · rintro n ⟨⟨m, rfl⟩, hle⟩
    -- the sum is below the next multiple after this one, and so is the result
    have hnext : alignUp value (2 ^ k) < 2 ^ k * (m + 1) := by
      rw [alignUp, clearBits_lt_iff (Nat.dvd_mul_right _ _), Nat.mul_succ]
      omega
    obtain ⟨q, hq⟩ := two_pow_dvd_alignUp value k
    rw [hq] at hnext ⊢
    exact Nat.mul_le_mul_left _ (Nat.le_of_lt_succ (Nat.lt_of_mul_lt_mul_left hnext))

/-- **A multiple** is rounded to itself. -/
theorem alignUp_of_dvd (hdvd : 2 ^ k ∣ value) : alignUp value (2 ^ k) = value :=
  (isLeast_alignUp value k).unique ⟨⟨hdvd, Nat.le_refl _⟩, fun _ h => h.2⟩

/-- **A greater value** is not rounded to less. -/
theorem alignUp_mono (hle : value ≤ other) : alignUp value (2 ^ k) ≤ alignUp other (2 ^ k) :=
  (isLeast_alignUp other k).mono (isLeast_alignUp value k) (multiplesFrom_subset hle _)

/-- The end of the range of a word is a multiple of every alignment. -/
theorem two_pow_dvd_wordLimit (hk : k < 64) : 2 ^ k ∣ wordLimit :=
  Nat.pow_dvd_pow 2 (Nat.le_of_lt hk)

/-- **The sum is tested, but it is the result that counts**: the one is a word just when the other
is. -/
theorem checkedAlignUp?_two_pow (hk : k < 64) : checkedAlignUp? value (2 ^ k) =
    if alignUp value (2 ^ k) < wordLimit then some (alignUp value (2 ^ k)) else none := by
  have htest : alignUp value (2 ^ k) < wordLimit ↔ value + (2 ^ k - 1) < wordLimit :=
    clearBits_lt_iff (two_pow_dvd_wordLimit hk)
  simp only [checkedAlignUp?, htest]

/-- **A multiple is found** where it is the least one, and a word. -/
theorem checkedAlignUp?_eq_some_iff (hk : k < 64) {rounded : Nat} :
    checkedAlignUp? value (2 ^ k) = some rounded ↔
      rounded < wordLimit ∧ IsLeast (multiplesFrom value (2 ^ k)) rounded := by
  rw [checkedAlignUp?_two_pow hk, Option.ite_none_right_eq_some, Option.some.injEq]
  constructor
  · rintro ⟨hword, rfl⟩
    exact ⟨hword, isLeast_alignUp value k⟩
  · rintro ⟨hword, hleast⟩
    obtain rfl := (isLeast_alignUp value k).unique hleast
    exact ⟨hword, rfl⟩

/-- **No multiple is found** where none is a word. -/
theorem checkedAlignUp?_eq_none_iff (hk : k < 64) :
    checkedAlignUp? value (2 ^ k) = none ↔
      ∀ multiple ∈ multiplesFrom value (2 ^ k), wordLimit ≤ multiple := by
  have hleast := isLeast_alignUp value k
  rw [checkedAlignUp?_two_pow hk, ite_eq_right_iff]
  constructor
  · intro hnone multiple hmem
    by_contra hlt
    -- the least multiple would be a word like this one
    have hword := Nat.lt_of_le_of_lt (hleast.2 hmem) (Nat.lt_of_not_le hlt)
    cases hnone hword
  · intro hnone hword
    exact absurd hword (Nat.not_lt_of_le (hnone _ hleast.1))

end Layout

/-! ### On machine words -/

/-- **A machine word.** Sums and differences of words go round at the end of their range. -/
abbrev Word := BitVec 64

namespace Word

/-- `Layout.alignUp` on words. The whole alignment is added and one taken off afterwards, so the
sum may go round the end of the range and come back. -/
def alignUp (value align : Word) : Word := (value + align - 1) &&& ~~~(align - 1)

/-- `Layout.checkedAlignUp?` on words. What is below the alignment is added, and nothing is found
where that sum goes round. -/
def checkedAlignUp? (value align : Word) : Option Word :=
  if value.uaddOverflow (align - 1) then none
  else some ((value + (align - 1)) &&& ~~~(align - 1))

/-- `Layout.isAligned` on words. -/
def isAligned (value align : Word) : Bool := value &&& (align - 1) == 0

variable {value align : Word}

/-- **Clearing bits** by the complement of a mask takes off the number that the mask selects. -/
theorem toNat_and_not (value mask : Word) :
    (value &&& ~~~mask).toNat = Layout.clearBits value.toNat mask.toNat := by
  -- what the mask selects and what it leaves have no bit in common, and make up the word
  have hapart : (value &&& mask) &&& (value &&& ~~~mask) = 0#64 := by
    calc (value &&& mask) &&& (value &&& ~~~mask)
        = (value &&& value) &&& (mask &&& ~~~mask) := by ac_rfl
      _ = 0#64 := by rw [BitVec.and_not_self]; exact BitVec.and_zero
  have hwhole : (value &&& mask) ||| (value &&& ~~~mask) = value := by
    rw [← BitVec.and_or_distrib_left, BitVec.or_not_self, BitVec.and_allOnes]
  have hparts : value.toNat = (value.toNat &&& mask.toNat) + (value &&& ~~~mask).toNat := by
    calc value.toNat
        = ((value &&& mask) + (value &&& ~~~mask)).toNat := by
          rw [BitVec.add_eq_or_of_and_eq_zero _ _ hapart, hwhole]
      _ = (value.toNat &&& mask.toNat) + (value &&& ~~~mask).toNat := by
          rw [BitVec.toNat_add_of_and_eq_zero hapart, BitVec.toNat_and]
  rw [Layout.clearBits]
  omega

/-- The mask of an alignment is the number below it. -/
theorem toNat_sub_one (hpos : 0 < align.toNat) : (align - 1).toNat = align.toNat - 1 := by
  apply BitVec.toNat_sub_of_le
  rw [BitVec.le_def]
  exact hpos

/-- A sum of words goes round where the sum of the numbers is not a word. -/
theorem uaddOverflow_iff (value summand : Word) :
    value.uaddOverflow summand = true ↔ wordLimit ≤ value.toNat + summand.toNat :=
  decide_eq_true_iff

/-- The checked rounding finds what it finds among the numbers. -/
theorem map_toNat_checkedAlignUp? (hpos : 0 < align.toNat) :
    (checkedAlignUp? value align).map BitVec.toNat =
      Layout.checkedAlignUp? value.toNat align.toNat := by
  have hmask := toNat_sub_one hpos
  rw [checkedAlignUp?, Layout.checkedAlignUp?]
  -- the sum overflows on words exactly if it is too large as a number
  by_cases hround : value.uaddOverflow (align - 1) = true
  · have hsum := (uaddOverflow_iff value (align - 1)).mp hround
    rw [hmask] at hsum
    rw [if_pos hround, if_neg (Nat.not_lt_of_le hsum), Option.map_none]
  · have hsum := Nat.lt_of_not_le ((uaddOverflow_iff value (align - 1)).not.mp hround)
    rw [if_neg hround, Option.map_some, toNat_and_not, BitVec.toNat_add_of_lt hsum, hmask]
    rw [hmask] at hsum
    rw [if_pos hsum, Layout.alignUp]

/-- Without the test the result is the same: it makes no difference to a sum that goes round whether
one is taken off the alignment or off the sum. -/
theorem alignUp_of_checkedAlignUp? {rounded : Word}
    (found : checkedAlignUp? value align = some rounded) : alignUp value align = rounded := by
  obtain ⟨-, hrounded⟩ := Option.ite_none_left_eq_some.mp found
  obtain rfl := Option.some.inj hrounded
  rw [alignUp, BitVec.sub_eq_add_neg, BitVec.add_assoc, ← BitVec.sub_eq_add_neg]

theorem isAligned_eq (hpos : 0 < align.toNat) :
    isAligned value align = Layout.isAligned value.toNat align.toNat := by
  rw [isAligned, Layout.isAligned, ← toNat_sub_one hpos, ← BitVec.toNat_and, Bool.eq_iff_iff,
    beq_iff_eq, beq_iff_eq]
  exact BitVec.toNat_inj.symm

end Word

namespace Layout

/-- **Words agree with numbers** at an alignment. -/
structure AgreesOnWords (align : Nat) : Prop where
  checked : ∀ value : Word, (Word.checkedAlignUp? value (.ofNat 64 align)).map BitVec.toNat =
    checkedAlignUp? value.toNat align
  unchecked : ∀ (value : Word) (rounded : Nat), checkedAlignUp? value.toNat align = some rounded →
    (Word.alignUp value (.ofNat 64 align)).toNat = rounded
  /-- Where something is found, the unchecked sum goes round for one value alone: the one that lies
  an alignment below the end. It matters there, and nowhere else, that words do not stop at the
  end. -/
  carry : ∀ (value : Word) (rounded : Nat), checkedAlignUp? value.toNat align = some rounded →
    (value.uaddOverflow (.ofNat 64 align) = true ↔ value.toNat = wordLimit - align)
  aligned : ∀ value : Word, Word.isAligned value (.ofNat 64 align) = isAligned value.toNat align

/-- **At every alignment** that is a word, whether a power of two or not, they do. -/
theorem agreesOnWords {align : Nat} (hpos : 0 < align) (hword : align < wordLimit) :
    AgreesOnWords align := by
  -- the alignment is a word, so nothing is lost by writing it as one
  have halign : (BitVec.ofNat 64 align).toNat = align := Nat.mod_eq_of_lt hword
  have hpos' : 0 < (BitVec.ofNat 64 align).toNat := by rwa [halign]
  have hchecked (value : Word) : (Word.checkedAlignUp? value (.ofNat 64 align)).map BitVec.toNat =
      checkedAlignUp? value.toNat align := by
    rw [Word.map_toNat_checkedAlignUp? hpos', halign]
  refine ⟨hchecked, fun value rounded found => ?_, fun value rounded found => ?_, fun value => ?_⟩
  · obtain ⟨word, hfound, rfl⟩ := Option.map_eq_some_iff.mp ((hchecked value).trans found)
    rw [Word.alignUp_of_checkedAlignUp? hfound]
  · obtain ⟨hfit, -⟩ := Option.ite_none_right_eq_some.mp found
    rw [Word.uaddOverflow_iff, halign]
    omega
  · rw [Word.isAligned_eq hpos', halign]

/-! ### Up to the end of the range -/

/-- **Rounding is exact** at an alignment, for every value that a machine word holds. The checked
rounding finds the least multiple that is not below the value, where such a multiple is a word, and
finds nothing just where there is none; the other one comes to the same wherever something is found.
What counts as aligned is what the alignment divides. So rounding what was rounded changes nothing,
and a smaller value is rounded to no more. -/
structure RoundsExactly (align : Nat) : Prop where
  least : ∀ value < wordLimit, ∀ rounded, checkedAlignUp? value align = some rounded ↔
    rounded < wordLimit ∧ IsLeast (multiplesFrom value align) rounded
  absent : ∀ value < wordLimit, checkedAlignUp? value align = none ↔
    ∀ multiple ∈ multiplesFrom value align, wordLimit ≤ multiple
  unchecked : ∀ value < wordLimit, ∀ rounded, checkedAlignUp? value align = some rounded →
    alignUp value align = rounded
  aligned : ∀ value < wordLimit, isAligned value align = true ↔ align ∣ value
  idempotent : ∀ value < wordLimit, ∀ rounded, checkedAlignUp? value align = some rounded →
    checkedAlignUp? rounded align = some rounded ∧ alignUp rounded align = rounded
  monotone : ∀ value other, value ≤ other → other < wordLimit →
    ∀ above, checkedAlignUp? other align = some above →
      ∃ below ≤ above, checkedAlignUp? value align = some below
  onWords : AgreesOnWords align

/-- **At every power of two** that is a word, rounding is exact. -/
theorem roundsExactly_two_pow {k : Nat} (hk : k < 64) : RoundsExactly (2 ^ k) where
  least _ _ _ := checkedAlignUp?_eq_some_iff hk
  absent _ _ := checkedAlignUp?_eq_none_iff hk
  -- the checked value is the unchecked one, if it is there at all
  unchecked value _ rounded found := by
    obtain ⟨-, hrounded⟩ := Option.ite_none_right_eq_some.mp found
    exact Option.some.inj hrounded
  aligned value _ := (isAligned_two_pow_iff value k).trans Nat.dvd_iff_mod_eq_zero.symm
  idempotent value _ rounded found := by
    -- a multiple is its own least multiple from above
    obtain ⟨hword, hleast⟩ := (checkedAlignUp?_eq_some_iff hk).mp found
    have hself : alignUp rounded (2 ^ k) = rounded := alignUp_of_dvd hleast.1.1
    rw [checkedAlignUp?_two_pow hk, hself, if_pos hword]
    exact ⟨rfl, rfl⟩
  monotone value other hle _ above found := by
    obtain ⟨hword, hleast⟩ := (checkedAlignUp?_eq_some_iff hk).mp found
    obtain rfl := (isLeast_alignUp other k).unique hleast
    have hmono : alignUp value (2 ^ k) ≤ alignUp other (2 ^ k) := alignUp_mono hle
    refine ⟨alignUp value (2 ^ k), hmono, ?_⟩
    rw [checkedAlignUp?_two_pow hk, if_pos (Nat.lt_of_le_of_lt hmono hword)]
  onWords := agreesOnWords (Nat.two_pow_pos k) (Nat.pow_lt_pow_right Nat.one_lt_two hk)

/-- Pages at the end of the range: the last multiple is found from just above the one before it and
from itself, where the sum goes round and comes back; one further there is none. -/
theorem roundsExactly_pages : 12 < 64 ∧
    checkedAlignUp? (2 ^ (64 : Nat) - 8191) (2 ^ (12 : Nat)) = some (2 ^ (64 : Nat) - 4096) ∧
    checkedAlignUp? (2 ^ (64 : Nat) - 4096) (2 ^ (12 : Nat)) = some (2 ^ (64 : Nat) - 4096) ∧
    Word.alignUp 0xfffffffffffff000 0x1000 = 0xfffffffffffff000 ∧
    checkedAlignUp? (2 ^ (64 : Nat) - 4095) (2 ^ (12 : Nat)) = none ∧
    RoundsExactly (2 ^ (12 : Nat)) :=
  ⟨by decide, by decide, by decide, by decide, by decide, roundsExactly_two_pow (by decide)⟩

end Layout

end RegionPool
