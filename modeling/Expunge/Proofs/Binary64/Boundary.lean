import Expunge.Binary64.Shortest
import Expunge.Proofs.Binary64.Finite

/-!
# Floats at the boundary of the 64-bit integers

The integers up to `2 ^ 63 + 1024` in magnitude are rounded to `2 ^ 63` at most, the last of them
because ties go to the even significand; all larger ones are rounded to something above it
(`limitRank_lt_rankOfDecimal_iff`). So a float that comes from a numeral past the boundary equals a
64-bit integer only if it is `-2 ^ 63`.
-/

namespace Expunge.Binary64

/-! ## Integers of 64 bits -/

theorem powerRank_zero : powerRank 0 = oneRank := by
  have hunits : 1 * unitsPerOne = unitsOfRank oneRank * 1 := by
    rw [unitsOfRank_oneRank, Nat.pow_zero, Nat.mul_one]
  have hrank : powerRank 0 = rankOfUnits (1 * unitsPerOne) 1 := rankOfDecimal_zero 1
  rw [hrank, hunits, rankOfUnits_unitsOfRank Nat.one_pos]

/-- A product with one is the other factor. -/
theorem mulRank_oneRank {rank : Nat} (h : rank < infinityRank) : mulRank rank oneRank = rank := by
  rw [mulRank, unitsOfRank_oneRank, Nat.pow_zero, Nat.one_mul,
    rankOfUnits_unitsOfRank unitsPerOne_pos]
  exact Nat.min_eq_left h.le

/-- A significand that is not scaled is rounded once. -/
theorem scaledRank?_zero {significand : Nat} (h : significand < 2 ^ 64) :
    scaledRank? significand 0 = some (rankOfDecimal significand 0) := by
  have hfinite : rankOfDecimal significand 0 < infinityRank :=
    Nat.lt_of_le_of_lt (rankOfDecimal_le_wordRank h.le) wordRank_lt_infinityRank
  show (if rankOfDecimal significand 0 = 0 then some 0
    else if powerLimit < 0 then none
    else if mulRank (rankOfDecimal significand 0) (powerRank 0) < infinityRank then
      some (mulRank (rankOfDecimal significand 0) (powerRank 0))
    else none) = some (rankOfDecimal significand 0)
  rw [powerRank_zero, mulRank_oneRank hfinite, if_neg (Nat.not_lt_zero _), if_pos hfinite]
  split
  · next hzero => rw [hzero]
  · rfl

/-! ## The boundary -/

/-- The rank of `2 ^ 63`. -/
def limitRank : Nat := (1085 + 1) * binade

theorem unitsOfRank_limitRank : unitsOfRank limitRank = 2 ^ 63 * unitsPerOne :=
  unitsOfRank_mul_binade rfl

theorem limitRank_lt_wordRank : limitRank < wordRank :=
  Nat.mul_lt_mul_of_pos_right (by decide) (Nat.two_pow_pos 52)

/-- What is at least `2 ^ 63` is rounded to something that is, too. -/
theorem limitRank_le_rankOfDecimal {coefficient : Nat} (h : 2 ^ 63 ≤ coefficient) :
    limitRank ≤ rankOfDecimal coefficient 0 := by
  rw [rankOfDecimal_zero]
  refine le_rankOfUnits Nat.one_pos ?_
  rw [unitsOfRank_limitRank, Nat.mul_one]
  exact Nat.mul_le_mul_right _ h

/-- The magnitude of an integer has the bits of the integer and 1074 more. -/
theorem log2_mul_unitsPerOne {coefficient bits : Nat} (hlow : 2 ^ bits ≤ coefficient)
    (hhigh : coefficient < 2 ^ (bits + 1)) : (coefficient * unitsPerOne).log2 = bits + 1074 := by
  have hcoefficient : 0 < coefficient := Nat.lt_of_lt_of_le (Nat.two_pow_pos _) hlow
  rw [Nat.log2_eq_iff (Nat.mul_ne_zero hcoefficient.ne' unitsPerOne_pos.ne'),
    ← two_pow_mul_unitsPerOne, Nat.add_right_comm, ← two_pow_mul_unitsPerOne]
  exact ⟨Nat.mul_le_mul_right _ hlow, Nat.mul_lt_mul_of_pos_right hhigh unitsPerOne_pos⟩

/-- An integer with more than 53 bits is rounded to the 53 highest ones. -/
theorem rankOfDecimal_of_bounds {coefficient dropped : Nat}
    (hlow : 2 ^ (dropped + 52) ≤ coefficient) (hhigh : coefficient < 2 ^ (dropped + 52 + 1)) :
    rankOfDecimal coefficient 0 = (dropped + 1074) * binade +
      roundHalfEven (coefficient * unitsPerOne) (2 ^ dropped * unitsPerOne) := by
  have hshift : shiftOf (coefficient * unitsPerOne / 1) = dropped + 1074 := by
    rw [Nat.div_one, shiftOf, log2_mul_unitsPerOne hlow hhigh, Nat.add_right_comm,
      Nat.add_sub_cancel]
  rw [rankOfDecimal_zero, rankOfUnits_eq, hshift, Nat.one_mul, two_pow_mul_unitsPerOne]

/-- From `2 ^ 63` on, what is at most 1024 above it is rounded to it and what is more is not. -/
theorem limitRank_lt_rankOfDecimal_iff {coefficient : Nat} (hlow : 2 ^ 63 ≤ coefficient)
    (hhigh : coefficient < 2 ^ 64) :
    limitRank < rankOfDecimal coefficient 0 ↔ 2 ^ 63 + 1024 < coefficient := by
  have hrank : rankOfDecimal coefficient 0 = (11 + 1074) * binade +
      roundHalfEven (coefficient * unitsPerOne) (2 ^ 11 * unitsPerOne) :=
    rankOfDecimal_of_bounds hlow hhigh
  have hden : 0 < 2 ^ 11 * unitsPerOne := Nat.mul_pos (Nat.two_pow_pos _) unitsPerOne_pos
  have hsplit : limitRank = (11 + 1074) * binade + binade := Nat.succ_mul (11 + 1074) binade
  rw [hrank, hsplit, Nat.add_lt_add_iff_left, lt_roundHalfEven_iff hden]
  have hleft : (2 * binade + 1) * (2 ^ 11 * unitsPerOne) = (2 ^ 64 + 2 ^ 11) * unitsPerOne := by
    rw [← Nat.mul_assoc]
    congr 1
  rw [hleft, ← Nat.mul_assoc 2 coefficient, Nat.mul_lt_mul_right unitsPerOne_pos]
  have heven : ¬ binade % 2 = 1 := by decide
  simp only [heven, and_false, or_false]
  omega

/-! ## Numerals of more than 64 bits -/

/-- The magnitude of a rank in the middle of a binade. -/
theorem unitsOfRank_mul_binade_add {shift exponent : Nat} (h : 51 + shift = exponent + 1074) :
    unitsOfRank (shift * binade + 3 * 2 ^ 51) = 3 * 2 ^ exponent * unitsPerOne := by
  have hlow : binade ≤ 3 * 2 ^ 51 := by decide
  have hhigh : 3 * 2 ^ 51 ≤ 2 * binade := by decide
  rw [unitsOfRank_shifted (.inr hlow) hhigh, Nat.mul_assoc, ← Nat.pow_add, Nat.mul_assoc 3,
    two_pow_mul_unitsPerOne, h]

/-- A power of ten with a zero is at least eight. -/
theorem le_powerRank {zeros : Nat} (hpos : 1 ≤ zeros) (hlimit : zeros ≤ powerLimit) :
    (1025 + 1) * binade ≤ powerRank zeros := by
  have hlimit : zeros ≤ exponentLimit := Nat.le_trans hlimit (by decide)
  have height : unitsOfRank ((1025 + 1) * binade) = 2 ^ 3 * unitsPerOne :=
    unitsOfRank_mul_binade rfl
  have hten : 10 ^ 1 ≤ 10 ^ zeros := Nat.pow_le_pow_right (by decide) hpos
  rw [powerRank, rankOfDecimal_ofNat hlimit, Nat.one_mul]
  refine le_rankOfUnits Nat.one_pos ?_
  rw [height, Nat.mul_one]
  exact Nat.mul_le_mul_right _ (by omega)

/-- A significand of 61 bits or more that is scaled up is above `2 ^ 63`. -/
theorem limitRank_lt_of_scaledRank? {significand zeros rank : Nat}
    (hsignificand : 3 * 2 ^ 59 ≤ significand) (hzeros : 1 ≤ zeros)
    (h : scaledRank? significand zeros = some rank) : limitRank < rank := by
  have hthree : unitsOfRank (1082 * binade + 3 * 2 ^ 51) = 3 * 2 ^ 59 * unitsPerOne :=
    unitsOfRank_mul_binade_add rfl
  have hfactor : 1082 * binade + 3 * 2 ^ 51 ≤ rankOfDecimal significand 0 := by
    rw [rankOfDecimal_zero]
    refine le_rankOfUnits Nat.one_pos ?_
    rw [hthree, Nat.mul_one]
    exact Nat.mul_le_mul_right _ hsignificand
  have hlimit : limitRank < 1085 * binade + 3 * 2 ^ 51 := by decide
  have hnonzero : rankOfDecimal significand 0 ≠ 0 := by
    have : 0 < 1082 * binade + 3 * 2 ^ 51 := by decide
    omega
  have h : (if rankOfDecimal significand 0 = 0 then some 0
    else if powerLimit < zeros then none
    else if mulRank (rankOfDecimal significand 0) (powerRank zeros) < infinityRank then
      some (mulRank (rankOfDecimal significand 0) (powerRank zeros))
    else none) = some rank := h
  rw [if_neg hnonzero] at h
  split at h
  · cases h
  · next hpower =>
    split at h
    · rw [← Option.some.inj h, mulRank, lt_min_iff]
      refine ⟨Nat.lt_of_lt_of_le hlimit (le_rankOfUnits unitsPerOne_pos ?_), ?_⟩
      · have hproduct : unitsOfRank (1085 * binade + 3 * 2 ^ 51) = 3 * 2 ^ 62 * unitsPerOne :=
          unitsOfRank_mul_binade_add rfl
        have height : unitsOfRank ((1025 + 1) * binade) = 2 ^ 3 * unitsPerOne :=
          unitsOfRank_mul_binade rfl
        calc unitsOfRank (1085 * binade + 3 * 2 ^ 51) * unitsPerOne
            = unitsOfRank (1082 * binade + 3 * 2 ^ 51) *
                unitsOfRank ((1025 + 1) * binade) := by
              rw [hproduct, hthree, height]
              ring
          _ ≤ _ := Nat.mul_le_mul (unitsOfRank_le_iff.2 hfactor)
              (unitsOfRank_le_iff.2 (le_powerRank hzeros (Nat.le_of_not_lt hpower)))
      · exact Nat.lt_trans limitRank_lt_wordRank wordRank_lt_infinityRank
    · cases h

/-! ## Floats that equal an integer -/

/-- A finite float of rank `limitRank` is `2 ^ 63` or its opposite. -/
theorem toInt?_of_rank_eq {x : Binary64} (h : x.rank.val = limitRank) :
    x.toInt? = some (Text.signed x.negative (2 ^ 63)) := by
  have hfinite : x.isFinite = true := by
    rw [isFinite, h]
    exact decide_eq_true (Nat.lt_trans limitRank_lt_wordRank wordRank_lt_infinityRank)
  have hunits : x.units = 2 ^ 63 * unitsPerOne := by
    rw [units, h, unitsOfRank_limitRank]
  rw [toInt?, hunits, Nat.mul_mod_left, Nat.mul_div_cancel _ unitsPerOne_pos, if_pos ⟨hfinite, rfl⟩]

/-- A float above `2 ^ 63` in magnitude equals no 64-bit integer. -/
theorem int64?_toInt?_of_lt_rank {x : Binary64} (h : limitRank < x.rank.val) :
    x.toInt?.bind Text.int64? = none := by
  rw [toInt?]
  split
  · next hinteger =>
    have hunits : 2 ^ 63 * unitsPerOne < x.units := by
      rw [← unitsOfRank_limitRank, units]
      exact Nat.lt_of_not_le fun hle => Nat.not_le_of_lt h (unitsOfRank_le_iff.1 hle)
    have hquot : 2 ^ 63 < x.units / unitsPerOne := by
      rw [← Nat.div_mul_cancel (Nat.dvd_of_mod_eq_zero hinteger.2)] at hunits
      exact Nat.lt_of_mul_lt_mul_right hunits
    rw [Option.bind_some, Text.int64?, if_neg]
    rintro ⟨hlow, hhigh⟩
    have hmin : Int64.minValue.toInt = -2 ^ 63 := by decide
    have hmax : Int64.maxValue.toInt = 2 ^ 63 - 1 := by decide
    generalize x.units / unitsPerOne = quotient at *
    cases hnegative : x.negative with
    | true =>
      simp only [Text.signed, hnegative, if_true] at hlow
      omega
    | false =>
      simp only [Text.signed, hnegative, Bool.false_eq_true, if_false] at hhigh
      omega
  · rfl

/-- A zero equals the integer zero. -/
theorem toInt?_of_rank_eq_zero {x : Binary64} (h : x.rank.val = 0) : x.toInt? = some 0 := by
  have hfinite : x.isFinite = true := by
    rw [isFinite, h]
    exact decide_eq_true (Nat.lt_trans (Nat.mul_pos (by decide) (Nat.two_pow_pos 52))
      (Nat.lt_trans limitRank_lt_wordRank wordRank_lt_infinityRank))
  have hunits : x.units = 0 := by
    rw [units, h]
    rfl
  rw [toInt?, hunits, Nat.zero_mod, Nat.zero_div, if_pos ⟨hfinite, rfl⟩, Text.signed]
  split <;> rfl

/-- A finite float is written as its sign, the digits before the point, and the digits after it if
there are any. -/
theorem toText_of_isFinite {x : Binary64} (h : x.isFinite = true) :
    x.toText = (if x.negative then ['-'] else []) ++
      Text.ofDigitList (Decimal.layOut (Text.digits (x.shortest .larger).coefficient)
        (x.shortest .larger).exponent).1 ++
      if (Decimal.layOut (Text.digits (x.shortest .larger).coefficient)
          (x.shortest .larger).exponent).2.isEmpty then []
      else '.' :: Text.ofDigitList (Decimal.layOut (Text.digits (x.shortest .larger).coefficient)
        (x.shortest .larger).exponent).2 := by
  have hnan : x.isNaN = false := by
    simp only [isFinite, isNaN, decide_eq_true_eq, decide_eq_false_iff_not] at h ⊢
    omega
  simp [toText, hnan, h]

end Expunge.Binary64
