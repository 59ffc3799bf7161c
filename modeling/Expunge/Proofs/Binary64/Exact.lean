import Expunge.Proofs.Binary64.Finite
import Mathlib.Algebra.Field.Rat
import Mathlib.Algebra.Order.Ring.Rat
import Mathlib.Tactic.FieldSimp
import Mathlib.Tactic.NormNum

/-!
# Exact values

The rational number that a pattern of 64 bits stands for, read off its three fields (`decode?`), is
the one that its magnitude in units says (`decode?_eq`). So a number is equal to an integer exactly
if the integer is found (`toInt?_eq_some_iff`).
-/

namespace Expunge.Binary64

/-- The rational number that a finite number is equal to. -/
def toRat (x : Binary64) : ℚ :=
  (Text.signed x.negative x.units : ℚ) / unitsPerOne

/-- The rational number that a pattern of 64 bits stands for: the highest bit is the sign, the
eleven bits after it are the exponent and the others are the fraction. The highest exponent is that
of the infinities and NaNs, and the lowest one that of the numbers without a leading one. -/
def decode? (bits : UInt64) : Option ℚ :=
  let sign : ℚ := if bits.toNat / 2 ^ 63 = 0 then 1 else -1
  let exponent : Nat := bits.toNat / 2 ^ 52 % 2 ^ 11
  let fraction : Nat := bits.toNat % 2 ^ 52
  if exponent = 2047 then none
  else if exponent = 0 then some (sign * (fraction * (2 : ℚ) ^ (-1074 : ℤ)))
  else some (sign * ((2 ^ 52 + fraction : Nat) * (2 : ℚ) ^ (exponent - 1075 : ℤ)))

/-! ## Patterns and magnitudes -/

theorem toNat_toBits (x : Binary64) :
    x.toBits.toNat = (if x.negative then 2 ^ 63 else 0) + x.rank.val := by
  have hrank := x.rank.isLt
  rw [toBits, UInt64.toNat_ofNat', Nat.mod_eq_of_lt]
  split <;> omega

/-- The pattern of a number is read as the number. -/
theorem ofBits_toBits (x : Binary64) : ofBits x.toBits = x := by
  obtain ⟨negative, rank, hrank⟩ := x
  have hbits := toNat_toBits ⟨negative, rank, hrank⟩
  cases negative <;> simp [ofBits, hbits] <;> omega

/-- The bit pattern of a number tells which number it is. -/
theorem toBits_inj {x y : Binary64} : x.toBits = y.toBits ↔ x = y :=
  (Function.LeftInverse.injective ofBits_toBits).eq_iff

/-- The magnitude of a rank below the first binade is the rank. -/
theorem unitsOfRank_of_lt {rank : Nat} (h : rank < binade) : unitsOfRank rank = rank := by
  have hshifted : unitsOfRank (0 * binade + rank) = rank * 2 ^ 0 :=
    unitsOfRank_shifted (.inl rfl) (by omega)
  rwa [Nat.zero_mul, Nat.zero_add, Nat.pow_zero, Nat.mul_one] at hshifted

/-- The magnitude of a rank in a later binade has a leading one. -/
theorem unitsOfRank_of_le {rank : Nat} (h : binade ≤ rank) :
    unitsOfRank rank = (binade + rank % binade) * 2 ^ (rank / binade - 1) := by
  have hpos : 0 < binade := by decide
  have hrank : rank = (rank / binade - 1) * binade + (binade + rank % binade) := by
    have hdiv := Nat.div_add_mod' rank binade
    have hquot := Nat.div_pos h hpos
    obtain ⟨shift, hshift⟩ := Nat.exists_eq_add_of_le' hquot
    rw [hshift, Nat.add_mul] at hdiv
    rw [hshift, Nat.add_sub_cancel]
    omega
  have hmod := Nat.mod_lt rank hpos
  conv => lhs; rw [hrank]
  exact unitsOfRank_shifted (.inr (by omega)) (by omega)

theorem cast_two_pow (exponent : Nat) : ((2 ^ exponent : Nat) : ℚ) = (2 : ℚ) ^ (exponent : ℤ) := by
  rw [Nat.cast_pow, Nat.cast_ofNat, zpow_natCast]

/-- A number is its sign times its magnitude. -/
theorem toRat_eq (x : Binary64) :
    x.toRat = (if x.negative then -1 else 1) * (x.units * (2 : ℚ) ^ (-1074 : ℤ)) := by
  have hunit : (unitsPerOne : ℚ) = (2 : ℚ) ^ (1074 : ℤ) := by
    simpa only [unitsPerOne, Nat.cast_ofNat] using cast_two_pow 1074
  rw [toRat, hunit, div_eq_mul_inv, ← zpow_neg, ← mul_assoc, Text.signed]
  cases x.negative <;> simp

/-- The rational number of a pattern is the one of its sign and its magnitude. -/
theorem decode?_eq (bits : UInt64) :
    decode? bits = if (ofBits bits).isFinite then some (ofBits bits).toRat else none := by
  have hbits : bits.toNat < 2 ^ 64 := bits.toNat_lt
  have hsign : (if bits.toNat / 2 ^ 63 = 0 then (1 : ℚ) else -1) =
      if (ofBits bits).negative then -1 else 1 := by
    by_cases h : bits.toNat / 2 ^ 63 = 0
    · rw [if_pos h, if_neg (by simp [ofBits]; omega)]
    · rw [if_neg h, if_pos (by simp [ofBits]; omega)]
  have hexponent : bits.toNat / 2 ^ 52 % 2 ^ 11 = (ofBits bits).rank.val / binade := by
    simp only [ofBits, binade]
    omega
  have hfraction : bits.toNat % 2 ^ 52 = (ofBits bits).rank.val % binade := by
    simp only [ofBits, binade]
    omega
  have hrank := (ofBits bits).rank.isLt
  rw [decode?, hsign, hexponent, hfraction, toRat_eq, units, isFinite]
  generalize (ofBits bits).rank.val = rank at hrank ⊢
  generalize (if (ofBits bits).negative = true then (-1 : ℚ) else 1) = sign
  have hquot : rank / binade ≤ 2047 := by
    simp only [binade]
    omega
  rcases Nat.lt_or_ge rank infinityRank with hfinite | hinfinite
  · have hlt : rank / binade < 2047 := Nat.div_lt_of_lt_mul (by rwa [Nat.mul_comm])
    rw [decide_eq_true hfinite, if_pos rfl, if_neg hlt.ne]
    rcases Nat.lt_or_ge rank binade with hsmall | hlarge
    · rw [Nat.div_eq_of_lt hsmall, if_pos rfl, Nat.mod_eq_of_lt hsmall, unitsOfRank_of_lt hsmall]
    · have hpos : 1 ≤ rank / binade := Nat.div_pos hlarge (by decide)
      have hexponent : ((rank / binade : Nat) : ℤ) - 1075 =
          ((rank / binade - 1 : Nat) : ℤ) + -1074 := by omega
      rw [if_neg (Nat.pos_iff_ne_zero.1 hpos), unitsOfRank_of_le hlarge, hexponent,
        zpow_add₀ two_ne_zero, Nat.cast_mul, cast_two_pow, mul_assoc]
      rfl
  · have hge : 2047 ≤ rank / binade := (Nat.le_div_iff_mul_le (by decide)).2 hinfinite
    rw [decide_eq_false (Nat.not_lt.2 hinfinite), if_pos (Nat.le_antisymm hquot hge),
      if_neg Bool.false_ne_true]

/-! ## Integers -/

theorem signed_mul (negative : Bool) (magnitude factor : Nat) :
    Text.signed negative (magnitude * factor) = Text.signed negative magnitude * factor := by
  rw [Text.signed, Text.signed]
  split
  · rw [Nat.cast_mul, neg_mul]
  · rw [Nat.cast_mul]

theorem natAbs_signed (negative : Bool) (magnitude : Nat) :
    (Text.signed negative magnitude).natAbs = magnitude := by
  rw [Text.signed]
  split
  · rw [Int.natAbs_neg, Int.natAbs_natCast]
  · rw [Int.natAbs_natCast]

theorem toRat_eq_intCast_iff {x : Binary64} {n : Int} :
    x.toRat = n ↔ Text.signed x.negative x.units = n * unitsPerOne := by
  rw [toRat, div_eq_iff (Nat.cast_ne_zero.2 unitsPerOne_pos.ne')]
  exact_mod_cast Iff.rfl

/-- A number that is equal to an integer has the magnitude of the integer. -/
theorem units_of_toRat_eq {x : Binary64} {n : Int} (h : x.toRat = n) :
    x.units = n.natAbs * unitsPerOne := by
  have habs := congrArg Int.natAbs (toRat_eq_intCast_iff.1 h)
  rwa [natAbs_signed, Int.natAbs_mul, Int.natAbs_natCast] at habs

/-- The integer of a number is found if there is one. -/
theorem toInt?_eq_some_iff {x : Binary64} {n : Int} :
    x.toInt? = some n ↔ x.isFinite = true ∧ x.toRat = n := by
  rw [toInt?]
  constructor
  · intro h
    split at h
    · next hwhole =>
      cases h
      refine ⟨hwhole.1, toRat_eq_intCast_iff.2 ?_⟩
      rw [← signed_mul, Nat.div_mul_cancel (Nat.dvd_of_mod_eq_zero hwhole.2)]
    · cases h
  · rintro ⟨hfinite, hequal⟩
    have hsigned := toRat_eq_intCast_iff.1 hequal
    rw [units_of_toRat_eq hequal, signed_mul] at hsigned
    rw [units_of_toRat_eq hequal, Nat.mul_mod_left, Nat.mul_div_cancel _ unitsPerOne_pos,
      if_pos ⟨hfinite, rfl⟩]
    exact congrArg some (Int.eq_of_mul_eq_mul_right
      (Nat.cast_ne_zero.2 unitsPerOne_pos.ne') hsigned)

end Expunge.Binary64
