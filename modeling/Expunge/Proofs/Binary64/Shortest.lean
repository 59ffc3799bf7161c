import Expunge.Binary64.Shortest
import Expunge.Proofs.Binary64.Finite

/-!
# The fewest digits read back

The decimal that is written for a finite number is one that the number is nearest to
(`rankOfDecimal_shortest`). Every candidate of the search was read back before it was taken, and
what is taken if there were none is the exact value; so only the zeros that are stripped off the
coefficient need an argument, which is that a decimal is read by its value, however it is scaled
(`rankOfDecimal_mul_pow`).
-/

namespace Expunge.Binary64

/-! ## Decimals of one value -/

/-- A magnitude is rounded by its value, however it is written as a fraction. -/
theorem rankOfUnits_congr {num den num' den' : Nat} (hden : 0 < den) (hden' : 0 < den')
    (h : num * den' = num' * den) : rankOfUnits num den = rankOfUnits num' den' :=
  Nat.le_antisymm (rankOfUnits_mono hden hden' h.le) (rankOfUnits_mono hden' hden h.ge)

/-- Half a unit or less is rounded to nothing. -/
theorem rankOfUnits_eq_zero {num den : Nat} (hden : 0 < den) (h : 2 * num ≤ den) :
    rankOfUnits num den = 0 := by
  have hround : roundHalfEven num den = 0 := by
    by_contra hne
    rcases (lt_roundHalfEven_iff hden).1 (Nat.pos_of_ne_zero hne) with hlt | ⟨_, hodd⟩
    · omega
    · cases hodd
  have hshift : shiftOf (num / den) = 0 := by
    rw [Nat.div_eq_of_lt (by omega)]
    rfl
  rw [rankOfUnits_eq, hshift, Nat.zero_mul, Nat.zero_add, Nat.pow_zero, Nat.mul_one, hround]

/-- A decimal with an exponent far below its number of bits is less than half a unit. -/
theorem two_mul_mul_unitsPerOne_le {coefficient places : Nat}
    (h : coefficient.log2 + exponentLimit < places) :
    2 * (coefficient * unitsPerOne) ≤ 10 ^ places := by
  have hcoefficient : coefficient ≤ 2 ^ (coefficient.log2 + 1) := Nat.lt_log2_self.le
  calc 2 * (coefficient * unitsPerOne)
      ≤ 2 * (2 ^ (coefficient.log2 + 1) * unitsPerOne) :=
        Nat.mul_le_mul_left _ (Nat.mul_le_mul_right _ hcoefficient)
    _ = 2 ^ (coefficient.log2 + 1 + 1074 + 1) := by
        rw [two_pow_mul_unitsPerOne, Nat.pow_succ 2 (coefficient.log2 + 1 + 1074), Nat.mul_comm]
    _ ≤ 2 ^ (3 * places) := Nat.pow_le_pow_right (by decide) (by
        simp only [exponentLimit] at h
        omega)
    _ = (2 ^ 3) ^ places := Nat.pow_mul ..
    _ ≤ 10 ^ places := Nat.pow_le_pow_left (by decide) _

/-- An exponent that is not too large is read as the power of ten it stands for. -/
theorem rankOfDecimal_of_le {coefficient : Nat} {exponent : Int}
    (h : exponent ≤ (exponentLimit : Int)) :
    rankOfDecimal coefficient exponent =
      rankOfUnits (coefficient * 10 ^ exponent.toNat * unitsPerOne) (10 ^ (-exponent).toNat) := by
  have hden : 0 < 10 ^ (-exponent).toNat := Nat.pow_pos (by decide)
  rw [rankOfDecimal.eq_def]
  split
  · next hzero =>
    rw [hzero, Nat.zero_mul, Nat.zero_mul, rankOfUnits_eq_zero hden (Nat.zero_le _)]
  · rw [if_neg (Int.not_lt.2 h)]
    split
    · next hlow =>
      have hplaces : coefficient.log2 + exponentLimit < (-exponent).toNat := by omega
      have hwhole : exponent.toNat = 0 := by omega
      rw [hwhole, Nat.pow_zero, Nat.mul_one,
        rankOfUnits_eq_zero hden (two_mul_mul_unitsPerOne_le hplaces)]
    · cases exponent with
      | ofNat e =>
        have hplaces : (-Int.ofNat e).toNat = 0 := by
          rw [Int.ofNat_eq_natCast]
          omega
        rw [hplaces, Nat.pow_zero]
        rfl
      | negSucc n =>
        show _ = rankOfUnits (coefficient * 1 * unitsPerOne) (10 ^ (n + 1))
        rw [Nat.mul_one]

/-- A decimal is read by its value: zeros at the end of the coefficient may be counted by the
exponent. -/
theorem rankOfDecimal_mul_pow {coefficient zeros : Nat} {exponent : Int}
    (h : exponent + zeros ≤ (exponentLimit : Int)) :
    rankOfDecimal (coefficient * 10 ^ zeros) exponent =
      rankOfDecimal coefficient (exponent + zeros) := by
  have hpowers : 10 ^ zeros * 10 ^ exponent.toNat * 10 ^ (-(exponent + zeros)).toNat =
      10 ^ (exponent + zeros).toNat * 10 ^ (-exponent).toNat := by
    rw [← Nat.pow_add, ← Nat.pow_add, ← Nat.pow_add]
    congr 1
    omega
  rw [rankOfDecimal_of_le h, rankOfDecimal_of_le (by omega)]
  refine rankOfUnits_congr (Nat.pow_pos (by decide)) (Nat.pow_pos (by decide)) ?_
  calc coefficient * 10 ^ zeros * 10 ^ exponent.toNat * unitsPerOne *
        10 ^ (-(exponent + zeros)).toNat
      = coefficient * unitsPerOne *
          (10 ^ zeros * 10 ^ exponent.toNat * 10 ^ (-(exponent + zeros)).toNat) := by ring
    _ = coefficient * unitsPerOne * (10 ^ (exponent + zeros).toNat * 10 ^ (-exponent).toNat) := by
        rw [hpowers]
    _ = coefficient * 10 ^ (exponent + zeros).toNat * unitsPerOne * 10 ^ (-exponent).toNat := by
        ring

/-! ## Finite decimals -/

theorem unitsOfRank_infinityRank_le :
    unitsOfRank infinityRank ≤ 10 ^ exponentLimit * unitsPerOne := by
  decide +kernel

/-- A positive decimal that is read as a finite number has an exponent below the limit. -/
theorem lt_exponentLimit_of_rankOfDecimal_lt {coefficient : Nat} {exponent : Int}
    (hne : coefficient ≠ 0) (h : rankOfDecimal coefficient exponent < infinityRank) :
    exponent < (exponentLimit : Int) := by
  by_contra hlimit
  refine Nat.not_le.2 h ?_
  rcases Int.lt_or_eq_of_le (Int.not_lt.1 hlimit) with hlt | rfl
  · rw [rankOfDecimal.eq_def, if_neg hne, if_pos hlt]
  · rw [rankOfDecimal_ofNat (Nat.le_refl _)]
    refine le_rankOfUnits Nat.one_pos ?_
    rw [Nat.mul_one]
    exact Nat.le_trans unitsOfRank_infinityRank_le
      (Nat.mul_le_mul_right _ (Nat.le_mul_of_pos_left _ (Nat.pos_of_ne_zero hne)))

/-- Stripping zeros does not change what a finite decimal is read as. -/
theorem rankOfDecimal_stripZeros {fuel coefficient : Nat} {exponent : Int} {rank : Nat}
    (hrank : rank < infinityRank) (h : rankOfDecimal coefficient exponent = rank) :
    rankOfDecimal (Decimal.stripZeros fuel coefficient exponent).1
      (Decimal.stripZeros fuel coefficient exponent).2 = rank := by
  induction fuel generalizing coefficient exponent with
  | zero => exact h
  | succ fuel ih =>
    rw [Decimal.stripZeros]
    split
    · next hzero =>
      have hlimit := lt_exponentLimit_of_rankOfDecimal_lt hzero.1 (h ▸ hrank)
      have hscale : rankOfDecimal (coefficient / 10 * 10 ^ 1) exponent =
          rankOfDecimal (coefficient / 10) (exponent + 1) :=
        rankOfDecimal_mul_pow (Int.add_one_le_of_lt hlimit)
      refine ih ?_
      rw [← hscale, Nat.pow_one, Nat.div_mul_cancel (Nat.dvd_of_mod_eq_zero hzero.2), h]
    · exact h

/-! ## The search -/

/-- The exact value of a rank is read as the rank. -/
theorem rankOfDecimal_exactCoefficient (rank : Nat) :
    rankOfDecimal (exactCoefficient rank) (-1074) = rank := by
  have hunit (places : Nat) : 5 ^ places * 2 ^ places = 10 ^ places := (Nat.mul_pow 5 2 places).symm
  have hpos (places : Nat) : 0 < 10 ^ places := Nat.pow_pos (by decide)
  have hwhole : (-1074 : Int).toNat = 0 := rfl
  have hplaces : (-(-1074 : Int)).toNat = 1074 := rfl
  rw [rankOfDecimal_of_le (by decide), hwhole, hplaces, exactCoefficient, Nat.pow_zero, Nat.mul_one,
    Nat.mul_assoc, unitsPerOne, hunit 1074, rankOfUnits_unitsOfRank (hpos 1074)]

theorem readsBack_iff {rank coefficient : Nat} {exponent : Int} :
    readsBack rank coefficient exponent = true ↔ rankOfDecimal coefficient exponent = rank := by
  rw [readsBack, beq_iff_eq, eq_comm]

/-- A candidate reads back. -/
theorem rankOfDecimal_of_candidate? {tie : Tie} {rank dropped coefficient : Nat} {exponent : Int}
    (h : candidate? tie rank dropped = some (coefficient, exponent)) :
    rankOfDecimal coefficient exponent = rank := by
  rw [candidate?] at h
  split at h
  · next hbelow habove =>
    obtain ⟨rfl, rfl⟩ := Prod.mk.inj (Option.some.inj h)
    split
    · exact readsBack_iff.1 habove
    · exact readsBack_iff.1 hbelow
  · next hbelow _ =>
    obtain ⟨rfl, rfl⟩ := Prod.mk.inj (Option.some.inj h)
    exact readsBack_iff.1 hbelow
  · next _ habove =>
    obtain ⟨rfl, rfl⟩ := Prod.mk.inj (Option.some.inj h)
    exact readsBack_iff.1 habove
  · cases h

/-- The shortest decimal of a finite rank reads back. -/
theorem rankOfDecimal_shortestOfRank {tie : Tie} {rank coefficient : Nat} {exponent : Int}
    (h : rank < infinityRank) (hshortest : shortestOfRank tie rank = (coefficient, exponent)) :
    rankOfDecimal coefficient exponent = rank := by
  have hfound (found : Option (Nat × Int))
      (hall : ∀ coefficient exponent, found = some (coefficient, exponent) →
        rankOfDecimal coefficient exponent = rank) :
      rankOfDecimal (found.getD (exactCoefficient rank, -1074)).1
        (found.getD (exactCoefficient rank, -1074)).2 = rank := by
    cases found with
    | none => exact rankOfDecimal_exactCoefficient rank
    | some pair => exact hall pair.1 pair.2 rfl
  have hread : rankOfDecimal (shortestOfRank tie rank).1 (shortestOfRank tie rank).2 = rank := by
    rw [shortestOfRank]
    refine rankOfDecimal_stripZeros h (hfound _ fun coefficient exponent hsome => ?_)
    obtain ⟨n, _, hcandidate⟩ := List.exists_of_findSome?_eq_some hsome
    exact rankOfDecimal_of_candidate? hcandidate
  rwa [hshortest] at hread

/-- The shortest decimal of a positive number is that of its rank, with its sign. -/
theorem shortest_of_pos {tie : Tie} {x : Binary64} {coefficient : Nat} {exponent : Int}
    (h : x.rank.val ≠ 0) (hshortest : shortestOfRank tie x.rank = (coefficient, exponent)) :
    x.shortest tie = ⟨x.negative, coefficient, exponent⟩ := by
  -- `rw` would try to close the goal by running the search
  rewrite [shortest, if_neg h, hshortest]
  rfl

/-- A zero is written as a zero of its sign. -/
theorem shortest_of_zero {tie : Tie} {x : Binary64} (h : x.rank.val = 0) :
    x.shortest tie = ⟨x.negative, 0, 0⟩ := by
  rw [shortest, if_pos h]

theorem negative_shortest (tie : Tie) (x : Binary64) : (x.shortest tie).negative = x.negative := by
  by_cases h : x.rank.val = 0
  · rw [shortest_of_zero h]
  · cases hshortest : shortestOfRank tie x.rank with
    | mk coefficient exponent => rw [shortest_of_pos h hshortest]

/-- The shortest decimal of a finite number reads back. -/
theorem rankOfDecimal_shortest {tie : Tie} {x : Binary64} (h : x.isFinite = true) :
    rankOfDecimal (x.shortest tie).coefficient (x.shortest tie).exponent = x.rank := by
  by_cases hzero : x.rank.val = 0
  · rw [shortest_of_zero hzero, hzero, rankOfDecimal.eq_def, if_pos rfl]
  · cases hshortest : shortestOfRank tie x.rank with
    | mk coefficient exponent =>
      rw [shortest_of_pos hzero hshortest]
      exact rankOfDecimal_shortestOfRank (of_decide_eq_true h) hshortest

end Expunge.Binary64
