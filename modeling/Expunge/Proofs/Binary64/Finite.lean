import Expunge.Binary64.Scaling
import Expunge.Proofs.Binary64.Rounding

/-!
# Finite results

What the readers of numbers return is finite: a rounded integer of 64 bits (`isFinite_ofInt`), a
decimal that is read with a check (`isFinite_of_ofDecimal?`), and a significand of 64 bits that is
scaled by a power of ten (`lt_infinityRank_of_scaledRank?`). The scaling checks its products only;
its quotients need no check because a power of ten is at least one.
-/

namespace Expunge.Binary64

theorem isFinite_ofRank {negative : Bool} {rank : Nat} :
    (ofRank negative rank).isFinite = true ↔ rank < infinityRank := by
  simp [isFinite, ofRank]

/-- A rank below infinity is the rank of the number made from it. -/
theorem rank_ofRank {negative : Bool} {rank : Nat} (h : rank < infinityRank) :
    (ofRank negative rank).rank.val = rank :=
  Nat.min_eq_left h.le

/-! ## Integers -/

/-- The rank of a natural number times a power of ten. -/
theorem rankOfDecimal_ofNat {coefficient exponent : Nat} (h : exponent ≤ exponentLimit) :
    rankOfDecimal coefficient exponent =
      rankOfUnits (coefficient * 10 ^ exponent * unitsPerOne) 1 := by
  have hlow : ¬ (exponentLimit : Int) < (exponent : Int) := by omega
  have hhigh : ¬ (exponent : Int) + coefficient.log2 + exponentLimit < 0 := by omega
  rw [rankOfDecimal.eq_def, if_neg hlow, if_neg hhigh]
  split
  · rename_i hzero
    simp [hzero, rankOfUnits, roundHalfEven]
  · rfl

/-- The rank of a natural number. -/
theorem rankOfDecimal_zero (coefficient : Nat) :
    rankOfDecimal coefficient 0 = rankOfUnits (coefficient * unitsPerOne) 1 := by
  have hrank : rankOfDecimal coefficient (0 : Nat) =
      rankOfUnits (coefficient * 10 ^ 0 * unitsPerOne) 1 := rankOfDecimal_ofNat (Nat.zero_le _)
  rwa [Nat.pow_zero, Nat.mul_one] at hrank

theorem two_pow_mul_unitsPerOne (exponent : Nat) :
    2 ^ exponent * unitsPerOne = 2 ^ (exponent + 1074) := by
  simp only [unitsPerOne, Nat.pow_add]

theorem unitsPerOne_pos : 0 < unitsPerOne := by
  decide +kernel

/-- The magnitude of a rank that starts a binade is a power of two. -/
theorem unitsOfRank_mul_binade {shift exponent : Nat} (h : shift + 52 = exponent + 1074) :
    unitsOfRank ((shift + 1) * binade) = 2 ^ exponent * unitsPerOne := by
  rw [two_pow_mul_unitsPerOne, ← h, Nat.add_mul, Nat.one_mul,
    unitsOfRank_shifted (.inr (Nat.le_refl _)) (Nat.le_mul_of_pos_left _ Nat.two_pos), binade,
    Nat.mul_comm, Nat.pow_add]

/-- The rank of one. -/
def oneRank : Nat := (1022 + 1) * binade

theorem unitsOfRank_oneRank : unitsOfRank oneRank = 2 ^ 0 * unitsPerOne :=
  unitsOfRank_mul_binade (show 1022 + 52 = 0 + 1074 from rfl)

/-- The rank of `2 ^ 64`. -/
def wordRank : Nat := (1086 + 1) * binade

theorem unitsOfRank_wordRank : unitsOfRank wordRank = 2 ^ 64 * unitsPerOne :=
  unitsOfRank_mul_binade (show 1086 + 52 = 64 + 1074 from rfl)

/-- A natural number up to `2 ^ 64` is rounded to `2 ^ 64` at most. -/
theorem rankOfDecimal_le_wordRank {coefficient : Nat} (h : coefficient ≤ 2 ^ 64) :
    rankOfDecimal coefficient 0 ≤ wordRank := by
  rw [rankOfDecimal_zero]
  refine rankOfUnits_le Nat.one_pos ?_
  rw [unitsOfRank_wordRank, Nat.mul_one]
  exact Nat.mul_le_mul_right _ h

theorem wordRank_lt_infinityRank : wordRank < infinityRank := by
  simp only [wordRank, infinityRank, binade]
  omega

/-- A 64-bit integer is rounded to a finite number. -/
theorem isFinite_ofInt (i : Int64) : (ofInt i.toInt).isFinite = true := by
  refine isFinite_ofRank.2 (Nat.lt_of_le_of_lt (rankOfDecimal_le_wordRank ?_)
    wordRank_lt_infinityRank)
  have hlow := Int64.le_toInt i
  have hhigh := Int64.toInt_lt i
  show i.toInt.natAbs ≤ 2 ^ 64
  omega

/-! ## Decimals -/

theorem isFinite_of_ofDecimal? {d : Decimal} {x : Binary64} (h : ofDecimal? d = some x) :
    x.isFinite = true := by
  simp only [ofDecimal?] at h
  split at h
  · rename_i hfinite
    cases h
    exact hfinite
  · cases h

/-! ## Scaling -/

/-- A power of ten is at least one. -/
theorem oneRank_le_powerRank {exponent : Nat} (h : exponent ≤ powerLimit) :
    oneRank ≤ powerRank exponent := by
  have hlimit : exponent ≤ exponentLimit := Nat.le_trans h (by decide)
  rw [powerRank, rankOfDecimal_ofNat hlimit]
  refine le_rankOfUnits Nat.one_pos ?_
  rw [unitsOfRank_oneRank, Nat.pow_zero, Nat.one_mul, Nat.mul_one, Nat.one_mul]
  exact Nat.le_mul_of_pos_left _ (by positivity)

/-- A quotient by a magnitude of at least one is at most the dividend. -/
theorem divRank_le {rank divisor : Nat} (h : oneRank ≤ divisor) : divRank rank divisor ≤ rank := by
  have hunits : unitsPerOne ≤ unitsOfRank divisor := by
    rw [← Nat.one_mul unitsPerOne, ← Nat.pow_zero 2, ← unitsOfRank_oneRank]
    exact unitsOfRank_le_iff.2 h
  have hpos : 0 < unitsOfRank divisor := Nat.lt_of_lt_of_le (Nat.two_pow_pos _) hunits
  exact Nat.le_trans (Nat.min_le_left _ _) (rankOfUnits_le hpos (Nat.mul_le_mul_left _ hunits))

/-- Scaling down makes nothing larger. -/
theorem scaleDown_le (rank exponent : Nat) : scaleDown rank exponent ≤ rank := by
  induction rank, exponent using scaleDown.induct with
  | case1 rank exponent hlimit =>
    rw [scaleDown, if_pos hlimit]
    exact divRank_le (oneRank_le_powerRank hlimit)
  | case2 exponent hlimit =>
    rw [scaleDown, if_neg hlimit, if_pos rfl]
  | case3 rank exponent hlimit hzero ih =>
    rw [scaleDown, if_neg hlimit, if_neg hzero]
    exact Nat.le_trans ih (divRank_le (oneRank_le_powerRank (Nat.le_refl _)))

/-- A significand of 64 bits scaled by a power of ten is finite. -/
theorem lt_infinityRank_of_scaledRank? {significand rank : Nat} {exponent : Int}
    (hsignificand : significand < 2 ^ 64) (h : scaledRank? significand exponent = some rank) :
    rank < infinityRank := by
  have hfinite : rankOfDecimal significand 0 < infinityRank :=
    Nat.lt_of_le_of_lt (rankOfDecimal_le_wordRank hsignificand.le) wordRank_lt_infinityRank
  cases exponent with
  | ofNat exponent =>
    simp only [scaledRank?] at h
    split at h
    · cases h
      exact Nat.mul_pos (by decide) (Nat.two_pow_pos 52)
    · split at h
      · cases h
      · split at h
        · rename_i hproduct
          rw [← Option.some.inj h]
          exact hproduct
        · cases h
  | negSucc n =>
    simp only [scaledRank?] at h
    cases h
    exact Nat.lt_of_le_of_lt (scaleDown_le _ _) hfinite

end Expunge.Binary64
