import Expunge.Proofs.Binary64.Exact
import Mathlib.Algebra.Order.Field.Basic

/-!
# Nearest numbers

Rounding gives the nearest magnitude, and of two equally near ones that of the even rank
(`rankOfUnits_nearest`). So the float of a 64-bit integer is the nearest number to it
(`isNearest_ofInt`), and nothing else is (`IsNearest.unique`).
-/

namespace Expunge.Binary64

/-- How far a numerator is from a multiple of its denominator. -/
def distance (num den multiple : Nat) : Nat :=
  ((num : ℤ) - (multiple * den : Nat)).natAbs

/-! ## Rounding to an integer -/

/-- An integer is rounded down from at most the middle, and up from at least the middle; from the
middle itself to the even one. -/
theorem roundHalfEven_cases (num : Nat) {den : Nat} (hden : 0 < den) :
    ∃ quotient remainder, num = quotient * den + remainder ∧ remainder < den ∧
      ((2 * remainder ≤ den ∧ roundHalfEven num den = quotient ∧
          (2 * remainder = den → quotient % 2 = 0)) ∨
        (den ≤ 2 * remainder ∧ roundHalfEven num den = quotient + 1 ∧
          (2 * remainder = den → (quotient + 1) % 2 = 0))) := by
  refine ⟨num / den, num % den, (Nat.div_add_mod' num den).symm, Nat.mod_lt num hden, ?_⟩
  rw [roundHalfEven]
  split <;> [skip; split] <;> omega

/-- A quotient is rounded to the nearest integer, and from the middle of two to the even one. -/
theorem roundHalfEven_nearest (num : Nat) {den : Nat} (hden : 0 < den) (m : Nat) :
    distance num den (roundHalfEven num den) ≤ distance num den m ∧
      (distance num den m = distance num den (roundHalfEven num den) →
        m ≠ roundHalfEven num den → roundHalfEven num den % 2 = 0) := by
  obtain ⟨quotient, remainder, rfl, hlt, hcases⟩ := roundHalfEven_cases num hden
  have hsucc : (quotient + 1) * den = quotient * den + den := Nat.succ_mul quotient den
  have hm : m = quotient ∨ m = quotient + 1 ∨ m * den + den ≤ quotient * den ∨
      quotient * den + 2 * den ≤ m * den := by
    rcases Nat.lt_trichotomy m quotient with hbelow | rfl | habove
    · have hmul := Nat.mul_le_mul_right den hbelow
      rw [Nat.succ_mul] at hmul
      omega
    · exact .inl rfl
    · rcases Nat.eq_or_lt_of_le habove with rfl | hfar
      · exact .inr (.inl rfl)
      · have hmul := Nat.mul_le_mul_right den hfar
        rw [Nat.succ_mul, hsucc] at hmul
        omega
  rcases hcases with ⟨hhalf, hround, heven⟩ | ⟨hhalf, hround, heven⟩
  · rw [hround, distance, distance]
    rcases hm with rfl | rfl | hfar | hfar <;> omega
  · rw [hround, distance, distance]
    rcases hm with rfl | rfl | hfar | hfar <;> omega

/-! ## Rounding a magnitude -/

theorem distance_mul (num den multiple factor : Nat) :
    distance num den (multiple * factor) = distance num (den * factor) multiple := by
  rw [distance, distance, Nat.mul_assoc, Nat.mul_comm factor]

theorem distance_lt {num den multiple other : Nat} (hden : 0 < den) (h : multiple < other)
    (hle : other * den ≤ num) : distance num den other < distance num den multiple := by
  have hmul := Nat.mul_lt_mul_of_pos_right h hden
  rw [distance, distance]
  omega

/-- A magnitude that is not below the first one of 53 bits at a shift has no lower bits. -/
theorem unitsOfRank_grid (shift rank : Nat) :
    (∃ m, unitsOfRank rank = m * 2 ^ shift) ∨
      (0 < shift ∧ unitsOfRank rank < binade * 2 ^ shift) := by
  rcases Nat.eq_zero_or_pos shift with rfl | hpos
  · exact .inl ⟨unitsOfRank rank, (Nat.mul_one _).symm⟩
  have hfirst : unitsOfRank (shift * binade + binade) = binade * 2 ^ shift :=
    unitsOfRank_shifted (.inr (Nat.le_refl _)) (by omega)
  rcases Nat.lt_or_ge rank (shift * binade + binade) with hlt | hge
  · refine .inr ⟨hpos, ?_⟩
    rw [← hfirst, Nat.lt_iff_le_and_not_ge, unitsOfRank_le_iff, unitsOfRank_le_iff]
    omega
  · have hbinade : binade ≤ rank := Nat.le_trans (Nat.le_add_left _ _) hge
    have hshift : shift ≤ rank / binade - 1 := by
      have hquot : shift + 1 ≤ rank / binade := by
        rw [Nat.le_div_iff_mul_le (by decide), Nat.succ_mul]
        exact hge
      omega
    refine .inl ⟨(binade + rank % binade) * 2 ^ (rank / binade - 1 - shift), ?_⟩
    rw [unitsOfRank_of_le hbinade, Nat.mul_assoc, ← Nat.pow_add, Nat.sub_add_cancel hshift]

/-- A magnitude is rounded to the nearest one that has a rank, and from the middle of two to the one
of the even rank. -/
theorem rankOfUnits_nearest (num : Nat) {den : Nat} (hden : 0 < den) (rank : Nat) :
    distance num den (unitsOfRank (rankOfUnits num den)) ≤ distance num den (unitsOfRank rank) ∧
      (distance num den (unitsOfRank rank) =
          distance num den (unitsOfRank (rankOfUnits num den)) →
        rank ≠ rankOfUnits num den → rankOfUnits num den % 2 = 0) := by
  obtain ⟨hlow, hhigh⟩ := significandOf_bounds num den
  have hunits : unitsOfRank (rankOfUnits num den) =
      significandOf num den * 2 ^ shiftOf (num / den) := unitsOfRank_shifted hlow hhigh
  have hpos : 0 < den * 2 ^ shiftOf (num / den) := Nat.mul_pos hden (Nat.two_pow_pos _)
  have hnearest := roundHalfEven_nearest num hpos
  rw [hunits, distance_mul]
  rcases unitsOfRank_grid (shiftOf (num / den)) rank with ⟨m, hm⟩ | ⟨hshift, hbelow⟩
  · rw [hm, distance_mul]
    refine ⟨(hnearest m).1, fun hequal hne => ?_⟩
    have heven : significandOf num den % 2 = 0 := by
      refine (hnearest m).2 hequal ?_
      rintro rfl
      refine hne (Nat.le_antisymm ?_ ?_) <;> rw [← unitsOfRank_le_iff, hm, hunits] <;>
        exact Nat.le_refl _
    have hbinade : binade % 2 = 0 := by decide
    show (shiftOf (num / den) * binade + significandOf num den) % 2 = 0
    rw [Nat.add_mod, Nat.mul_mod, hbinade, heven, Nat.mul_zero, Nat.zero_mod]
  · -- below the first magnitude of 53 bits all are farther than that one is
    have hfirst := (hnearest binade).1
    have hle : binade * 2 ^ shiftOf (num / den) * den ≤ num :=
      (Nat.le_div_iff_mul_le hden).1 (binade_mul_le hshift)
    have hlt : distance num (den * 2 ^ shiftOf (num / den)) binade <
        distance num den (unitsOfRank rank) := by
      rw [← distance_mul]
      exact distance_lt hden hbelow hle
    exact ⟨(hfirst.trans_lt hlt).le, fun hequal => absurd hequal (hfirst.trans_lt hlt).ne'⟩

/-! ## The nearest number -/

/-- A number is what a rational number is rounded to: it is finite and has the sign of the rational
number, no finite number is nearer, and if one of another magnitude is equally near, the last bit of
its pattern is not set. -/
structure IsNearest (q : ℚ) (x : Binary64) : Prop where
  finite : x.isFinite = true
  negative : x.negative = decide (q < 0)
  nearest : ∀ y : Binary64, y.isFinite = true → |q - x.toRat| ≤ |q - y.toRat|
  even : ∀ y : Binary64, y.isFinite = true → |q - y.toRat| = |q - x.toRat| → y.rank ≠ x.rank →
    x.rank.val % 2 = 0

theorem abs_toRat (x : Binary64) : |x.toRat| = (x.units : ℚ) / unitsPerOne := by
  rw [toRat, abs_div, Nat.abs_cast, ← Int.cast_abs, ← Nat.cast_natAbs, natAbs_signed]

/-- How far a magnitude is from an integer. -/
theorem abs_sub_units (n units : Nat) :
    |(n : ℚ) - (units : ℚ) / unitsPerOne| =
      (distance (n * unitsPerOne) 1 units : ℚ) / unitsPerOne := by
  have hpos : (0 : ℚ) < unitsPerOne := Nat.cast_pos.2 unitsPerOne_pos
  rw [distance, Nat.cast_natAbs, Int.cast_abs, ← abs_of_pos hpos, ← abs_div, abs_of_pos hpos,
    Nat.mul_one, Int.cast_sub, Int.cast_natCast, Int.cast_natCast, Nat.cast_mul, sub_div,
    mul_div_cancel_right₀ _ hpos.ne']

theorem toRat_nonpos {x : Binary64} (h : x.negative = true) : x.toRat ≤ 0 := by
  rw [toRat_eq, h, if_pos rfl, neg_one_mul, neg_nonpos]
  exact mul_nonneg (Nat.cast_nonneg _) (zpow_pos two_pos _).le

theorem toRat_nonneg {x : Binary64} (h : x.negative = false) : 0 ≤ x.toRat := by
  rw [toRat_eq, h, if_neg Bool.false_ne_true, one_mul]
  exact mul_nonneg (Nat.cast_nonneg _) (zpow_pos two_pos _).le

/-- A number with the sign of a rational number is as far from it as its magnitude is. -/
theorem abs_sub_toRat {q : ℚ} {x : Binary64} (h : x.negative = decide (q < 0)) :
    |q - x.toRat| = abs (|q| - |x.toRat|) := by
  rcases lt_or_ge q 0 with hneg | hnonneg
  · rw [abs_of_neg hneg, abs_of_nonpos (toRat_nonpos (h.trans (decide_eq_true hneg))), neg_sub_neg,
      abs_sub_comm]
  · rw [abs_of_nonneg hnonneg,
      abs_of_nonneg (toRat_nonneg (h.trans (decide_eq_false hnonneg.not_gt)))]

theorem rank_ofInt (i : Int64) :
    (ofInt i.toInt).rank.val = rankOfUnits (i.toInt.natAbs * unitsPerOne) 1 := by
  rw [← rankOfDecimal_zero]
  exact rank_ofRank (isFinite_ofRank.1 (isFinite_ofInt i))

/-- The float of a 64-bit integer is the nearest number to it. -/
theorem isNearest_ofInt (i : Int64) : IsNearest (i.toInt : ℚ) (ofInt i.toInt) := by
  have hpos : (0 : ℚ) < unitsPerOne := Nat.cast_pos.2 unitsPerOne_pos
  have hfinite := isFinite_ofInt i
  have hnegative : (ofInt i.toInt).negative = decide (i.toInt < 0) := rfl
  have hunits : (ofInt i.toInt).units =
      unitsOfRank (rankOfUnits (i.toInt.natAbs * unitsPerOne) 1) := by
    rw [units, rank_ofInt]
  -- the float has the sign of the integer, so they are as far apart as their magnitudes are
  have hself : |(i.toInt : ℚ) - (ofInt i.toInt).toRat| =
      (distance (i.toInt.natAbs * unitsPerOne) 1 (ofInt i.toInt).units : ℚ) / unitsPerOne := by
    rw [← abs_sub_units, ← abs_toRat, Nat.cast_natAbs, Int.cast_abs]
    exact abs_sub_toRat (hnegative.trans (decide_eq_decide.2 Int.cast_lt_zero.symm))
  have hother (y : Binary64) :
      (distance (i.toInt.natAbs * unitsPerOne) 1 y.units : ℚ) / unitsPerOne ≤
        |(i.toInt : ℚ) - y.toRat| := by
    rw [← abs_sub_units, ← abs_toRat, Nat.cast_natAbs, Int.cast_abs]
    exact abs_abs_sub_abs_le _ _
  have hnearest := rankOfUnits_nearest (i.toInt.natAbs * unitsPerOne) Nat.one_pos
  refine ⟨hfinite, ?_, ?_, ?_⟩
  · rw [hnegative]
    exact decide_eq_decide.2 Int.cast_lt_zero.symm
  · intro y _
    refine le_trans ?_ (hother y)
    rw [hself, hunits, div_le_div_iff_of_pos_right hpos, Nat.cast_le]
    exact (hnearest y.rank).1
  · intro y _ hequal hne
    rw [rank_ofInt]
    refine (hnearest y.rank).2 (Nat.le_antisymm ?_ (hnearest y.rank).1) ?_
    · have hle := hother y
      rw [hequal, hself, hunits, div_le_div_iff_of_pos_right hpos, Nat.cast_le] at hle
      exact hle
    · rw [← rank_ofInt]
      exact fun heq => hne (Fin.ext heq)

theorem unitsOfRank_lt_iff {a b : Nat} : unitsOfRank a < unitsOfRank b ↔ a < b := by
  rw [← Nat.not_le, unitsOfRank_le_iff, Nat.not_le]

/-- Numbers of one sign are in the order of their ranks, or in the reverse order. -/
theorem toRat_between {x y z : Binary64} (hxy : x.negative = y.negative)
    (hyz : y.negative = z.negative) (hxy' : x.rank < y.rank) (hyz' : y.rank < z.rank) :
    (x.toRat < y.toRat ∧ y.toRat < z.toRat) ∨ (z.toRat < y.toRat ∧ y.toRat < x.toRat) := by
  have hpos : (0 : ℚ) < (2 : ℚ) ^ (-1074 : ℤ) := zpow_pos two_pos _
  have hx : (x.units : ℚ) * (2 : ℚ) ^ (-1074 : ℤ) < y.units * (2 : ℚ) ^ (-1074 : ℤ) :=
    mul_lt_mul_of_pos_right (Nat.cast_lt.2 (unitsOfRank_lt_iff.2 hxy')) hpos
  have hz : (y.units : ℚ) * (2 : ℚ) ^ (-1074 : ℤ) < z.units * (2 : ℚ) ^ (-1074 : ℤ) :=
    mul_lt_mul_of_pos_right (Nat.cast_lt.2 (unitsOfRank_lt_iff.2 hyz')) hpos
  rw [toRat_eq, toRat_eq, toRat_eq, hxy, hyz]
  cases z.negative with
  | true =>
    right
    simp only [if_true, neg_one_mul, neg_lt_neg_iff]
    exact ⟨hz, hx⟩
  | false =>
    left
    simp only [Bool.false_eq_true, if_false, one_mul]
    exact ⟨hx, hz⟩

/-- Of two numbers that are equally far from a third one, neither is nearer than what lies between
them. -/
theorem abs_sub_lt_of_between {q a b c : ℚ} (h : |q - a| = |q - b|)
    (hc : (a < c ∧ c < b) ∨ (b < c ∧ c < a)) : |q - c| < |q - a| := by
  have hmiddle : q - a = -(q - b) := by
    rcases abs_eq_abs.1 h with heq | heq
    · rcases hc with hc | hc <;> linarith [hc.1, hc.2]
    · exact heq
  rcases hc with ⟨hac, hcb⟩ | ⟨hbc, hca⟩
  · rw [abs_of_pos (by linarith : 0 < q - a), abs_lt]
    constructor <;> linarith
  · rw [abs_of_neg (by linarith : q - a < 0), abs_lt]
    constructor <;> linarith

/-- The rank of a nearest number is not below that of another nearest one. -/
theorem IsNearest.rank_le {q : ℚ} {x y : Binary64} (hx : IsNearest q x) (hy : IsNearest q y) :
    y.rank ≤ x.rank := by
  by_contra hlt
  have hlt : x.rank.val < y.rank.val := Nat.lt_of_not_le hlt
  have hequal : |q - x.toRat| = |q - y.toRat| :=
    le_antisymm (hx.nearest y hy.finite) (hy.nearest x hx.finite)
  have heven := hx.even y hy.finite hequal.symm fun h => hlt.ne' (congrArg Fin.val h)
  have heven' := hy.even x hx.finite hequal fun h => hlt.ne (congrArg Fin.val h)
  -- both ranks are even, so there is a number between the two
  have hroom : x.rank.val + 1 < y.rank.val := by omega
  have hyfinite : y.rank.val < infinityRank := of_decide_eq_true hy.finite
  let z : Binary64 := ⟨q < 0, ⟨x.rank.val + 1, Nat.lt_trans hroom y.rank.isLt⟩⟩
  have hfinite : z.isFinite = true := decide_eq_true (Nat.lt_trans hroom hyfinite)
  have hbetween := toRat_between (y := z) hx.negative hy.negative.symm
    (Nat.lt_succ_self x.rank.val) hroom
  exact absurd (hx.nearest z hfinite) (not_le.2 (abs_sub_lt_of_between hequal hbetween))

/-- There is one nearest number at most. -/
theorem IsNearest.unique {q : ℚ} {x y : Binary64} (hx : IsNearest q x) (hy : IsNearest q y) :
    x = y := by
  have hrank : x.rank = y.rank := Fin.le_antisymm (hy.rank_le hx) (hx.rank_le hy)
  have hnegative : x.negative = y.negative := hx.negative.trans hy.negative.symm
  cases x
  cases y
  cases hrank
  cases hnegative
  rfl

/-! ## Integers that are numbers -/

theorem roundHalfEven_mul_self {num den : Nat} (hden : 0 < den) (h : den ∣ num) :
    roundHalfEven num den * den = num := by
  obtain ⟨quotient, rfl⟩ := h
  rw [Nat.mul_comm den, roundHalfEven_mul_right hden]

/-- A magnitude without set bits where bits are rounded away is not changed by rounding. -/
theorem unitsOfRank_rankOfUnits {units : Nat} (h : 2 ^ shiftOf units ∣ units) :
    unitsOfRank (rankOfUnits units 1) = units := by
  obtain ⟨hlow, hhigh⟩ := significandOf_bounds units 1
  rw [Nat.div_one] at hlow
  have hunits : unitsOfRank (rankOfUnits units 1) =
      significandOf units 1 * 2 ^ shiftOf units := by
    rw [rankOfUnits_eq, Nat.div_one]
    rw [significandOf, Nat.div_one] at hlow hhigh ⊢
    exact unitsOfRank_shifted hlow hhigh
  rw [hunits, significandOf, Nat.div_one, Nat.one_mul]
  exact roundHalfEven_mul_self (Nat.two_pow_pos _) h

/-- A significand of 53 bits or fewer has no bits that are rounded away. -/
theorem two_pow_shiftOf_dvd {significand exponent : Nat} (h : significand < 2 ^ 53) :
    2 ^ shiftOf (significand * 2 ^ exponent) ∣ significand * 2 ^ exponent := by
  rcases Nat.eq_zero_or_pos significand with rfl | hpos
  · rw [Nat.zero_mul]
    exact Nat.dvd_zero _
  have hlog : (significand * 2 ^ exponent).log2 < 53 + exponent := by
    rw [Nat.log2_lt (Nat.mul_ne_zero hpos.ne' (Nat.two_pow_pos _).ne'), Nat.pow_add]
    exact Nat.mul_lt_mul_of_pos_right h (Nat.two_pow_pos _)
  have hshift : shiftOf (significand * 2 ^ exponent) ≤ exponent := by
    rw [shiftOf]
    omega
  exact Nat.dvd_mul_left_of_dvd (Nat.pow_dvd_pow 2 hshift) significand

/-- A number is equal to a 64-bit integer only if the float of the integer is. -/
theorem exists_toRat_eq_iff (i : Int64) :
    (∃ x : Binary64, x.isFinite = true ∧ x.toRat = i.toInt) ↔ (ofInt i.toInt).toRat = i.toInt := by
  constructor
  · rintro ⟨x, hfinite, hequal⟩
    have hnearest := (isNearest_ofInt i).nearest x hfinite
    rw [hequal, sub_self, abs_zero] at hnearest
    exact (sub_eq_zero.1 (abs_nonpos_iff.1 hnearest)).symm
  · intro h
    exact ⟨_, isFinite_ofInt i, h⟩

/-- A significand at a power of two that is a multiple of a unit is a number of units at a power of
two, too, and has no more bits. -/
theorem exists_significand {n significand : Nat} (shift : Nat) (hlt : significand < 2 ^ 53)
    (h : significand * 2 ^ shift = n * unitsPerOne) :
    ∃ significand exponent, n = significand * 2 ^ exponent ∧ significand < 2 ^ 53 := by
  rcases Nat.le_total shift 1074 with hle | hle
  · have hunit : unitsPerOne = 2 ^ (1074 - shift) * 2 ^ shift := by
      rw [← Nat.pow_add, Nat.sub_add_cancel hle, unitsPerOne]
    rw [hunit, ← Nat.mul_assoc] at h
    have h := Nat.eq_of_mul_eq_mul_right (Nat.two_pow_pos _) h
    have hn : n ≤ significand := by
      rw [h]
      exact Nat.le_mul_of_pos_right _ (Nat.two_pow_pos _)
    exact ⟨n, 0, (Nat.mul_one n).symm, hn.trans_lt hlt⟩
  · have hpow : 2 ^ shift = 2 ^ (shift - 1074) * unitsPerOne := by
      rw [two_pow_mul_unitsPerOne, Nat.sub_add_cancel hle]
    rw [hpow, ← Nat.mul_assoc] at h
    exact ⟨significand, shift - 1074, (Nat.eq_of_mul_eq_mul_right unitsPerOne_pos h).symm, hlt⟩

theorem signed_natAbs (n : Int) : Text.signed (decide (n < 0)) n.natAbs = n := by
  rw [Text.signed]
  split
  · next h =>
    have h := of_decide_eq_true h
    omega
  · next h =>
    have h := of_decide_eq_false (Bool.eq_false_of_not_eq_true h)
    omega

/-- The float of a 64-bit integer is equal to the integer if no more than 53 bits are between its
highest and its lowest one. -/
theorem toRat_ofInt_iff (i : Int64) :
    (ofInt i.toInt).toRat = i.toInt ↔
      ∃ significand exponent, i.toInt.natAbs = significand * 2 ^ exponent ∧
        significand < 2 ^ 53 := by
  constructor
  · intro h
    have hunits := units_of_toRat_eq h
    rw [units] at hunits
    generalize (ofInt i.toInt).rank.val = rank at hunits
    generalize i.toInt.natAbs = n at hunits ⊢
    rcases Nat.lt_or_ge rank binade with hsmall | hlarge
    · rw [unitsOfRank_of_lt hsmall] at hunits
      have hlt : rank < 2 ^ 53 := hsmall.trans (by decide)
      exact exists_significand 0 hlt (by rw [Nat.pow_zero, Nat.mul_one, hunits])
    · rw [unitsOfRank_of_le hlarge] at hunits
      have hlt : binade + rank % binade < 2 ^ 53 := by
        have hmod := Nat.mod_lt rank (show 0 < binade by decide)
        simp only [binade] at hmod ⊢
        omega
      exact exists_significand _ hlt hunits
  · rintro ⟨significand, exponent, habs, hlt⟩
    have hmagnitude : i.toInt.natAbs * unitsPerOne = significand * 2 ^ (exponent + 1074) := by
      rw [habs, Nat.mul_assoc, two_pow_mul_unitsPerOne]
    have hunits : (ofInt i.toInt).units = i.toInt.natAbs * unitsPerOne := by
      rw [units, rank_ofInt, hmagnitude]
      exact unitsOfRank_rankOfUnits (two_pow_shiftOf_dvd hlt)
    have hnegative : (ofInt i.toInt).negative = decide (i.toInt < 0) := rfl
    rw [toRat_eq_intCast_iff, hunits, signed_mul, hnegative, signed_natAbs]

end Expunge.Binary64
