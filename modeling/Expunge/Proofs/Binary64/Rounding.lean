import Expunge.Binary64.Basic
import Mathlib.Tactic.Linarith
import Mathlib.Tactic.Ring

/-!
# Rounding magnitudes

Ranks and magnitudes in units stand in for one another: the rank of a magnitude that has one is that
rank (`rankOfUnits_unitsOfRank`), and rounding keeps the order of magnitudes (`rankOfUnits_mono`).
So a rounded magnitude lies on the same side of every representable one as the exact magnitude does
(`le_rankOfUnits`, `rankOfUnits_le`), which is what bounds on results are read off from.
-/

namespace Expunge.Binary64

/-! ## Rounding to an integer -/

/-- The nearest integer is above `m` if the quotient is above the middle between `m` and `m + 1`, or
in the middle and `m` is odd. -/
theorem lt_roundHalfEven_iff {num den m : Nat} (hden : 0 < den) :
    m < roundHalfEven num den ↔
      (2 * m + 1) * den < 2 * num ∨ ((2 * m + 1) * den = 2 * num ∧ m % 2 = 1) := by
  have hnum := Nat.div_add_mod num den
  have hrem := Nat.mod_lt num hden
  simp only [roundHalfEven]
  generalize num / den = quotient at *
  generalize num % den = remainder at *
  rcases lt_trichotomy m quotient with hlt | rfl | hgt
  · have hle : (m + 1) * den ≤ quotient * den := Nat.mul_le_mul_right den hlt
    have hleft : (2 * m + 1) * den < 2 * num := by nlinarith
    have hright : quotient ≤ if 2 * remainder < den then quotient
        else if den < 2 * remainder then quotient + 1 else quotient + quotient % 2 := by
      split <;> [skip; split] <;> omega
    simp only [hleft, true_or, iff_true]
    omega
  · have hmid : 2 * num = 2 * m * den + 2 * remainder := by rw [← hnum]; ring
    have hsplit : (2 * m + 1) * den = 2 * m * den + den := by ring
    rw [hmid, hsplit]
    split <;> [skip; split] <;> omega
  · have hle : (quotient + 1) * den ≤ m * den := Nat.mul_le_mul_right den hgt
    have hleft : 2 * num < (2 * m + 1) * den := by nlinarith
    have hright : (if 2 * remainder < den then quotient
        else if den < 2 * remainder then quotient + 1 else quotient + quotient % 2) ≤ m := by
      split <;> [skip; split] <;> omega
    constructor
    · intro h
      omega
    · rintro (h | ⟨h, _⟩) <;> omega

/-- Rounding to an integer keeps the order of quotients. -/
theorem roundHalfEven_mono {num den num' den' : Nat} (hden : 0 < den) (hden' : 0 < den')
    (h : num * den' ≤ num' * den) : roundHalfEven num den ≤ roundHalfEven num' den' := by
  by_contra hlt
  have hlow := (lt_roundHalfEven_iff hden).1 (Nat.not_le.1 hlt)
  have hself : ¬ roundHalfEven num' den' < roundHalfEven num' den' := Nat.lt_irrefl _
  refine hself ((lt_roundHalfEven_iff hden').2 ?_)
  generalize roundHalfEven num' den' = m at *
  rcases hlow with hlow | ⟨hlow, hodd⟩
  · left
    have h1 : (2 * m + 1) * den * den' < 2 * num * den' := Nat.mul_lt_mul_of_pos_right hlow hden'
    nlinarith
  · have h1 : (2 * m + 1) * den * den' = 2 * num * den' := by rw [hlow]
    have h2 : (2 * m + 1) * den' * den ≤ 2 * num' * den := by nlinarith
    rcases Nat.lt_or_eq_of_le (Nat.le_of_mul_le_mul_right h2 hden) with h3 | h3
    · exact .inl h3
    · exact .inr ⟨h3, hodd⟩

/-- An integer is rounded to itself. -/
theorem roundHalfEven_mul_right {den : Nat} (hden : 0 < den) (m : Nat) :
    roundHalfEven (m * den) den = m := by
  simp [roundHalfEven, Nat.mul_div_cancel m hden, hden]

/-- The nearest integer is at most one above the quotient. -/
theorem roundHalfEven_bounds (num den : Nat) :
    num / den ≤ roundHalfEven num den ∧ roundHalfEven num den ≤ num / den + 1 := by
  simp only [roundHalfEven]
  split <;> [skip; split] <;> omega

/-! ## Ranks and magnitudes -/

/-- The shift at which a magnitude of the given whole number of units is rounded: its lowest
`shift` bits are rounded away. -/
def shiftOf (units : Nat) : Nat :=
  units.log2 - 52

/-- A magnitude of which bits are rounded away has 53 bits that are not. -/
theorem binade_mul_le {units : Nat} (h : 0 < shiftOf units) :
    binade * 2 ^ shiftOf units ≤ units := by
  have hunits : units ≠ 0 := by
    rintro rfl
    simp [shiftOf] at h
  rw [binade, ← Nat.pow_add]
  refine Nat.le_trans (Nat.pow_le_pow_right (by decide) ?_) (Nat.log2_self_le hunits)
  simp only [shiftOf] at h ⊢
  omega

theorem rankOfUnits_eq (num den : Nat) :
    rankOfUnits num den = shiftOf (num / den) * binade +
      roundHalfEven num (den * 2 ^ shiftOf (num / den)) := rfl

/-- What a rank with a given shift stands for. -/
theorem unitsOfRank_shifted {shift significand : Nat} (hlow : shift = 0 ∨ binade ≤ significand)
    (hhigh : significand ≤ 2 * binade) :
    unitsOfRank (shift * binade + significand) = significand * 2 ^ shift := by
  have hpos : 0 < binade := by decide
  rw [unitsOfRank, Nat.mul_comm shift, Nat.mul_add_div hpos]
  rcases Nat.lt_or_eq_of_le hhigh with hlt | rfl
  · have hquot : significand / binade ≤ 1 := Nat.lt_succ_iff.1 (Nat.div_lt_of_lt_mul (by omega))
    have hshift : shift + significand / binade - 1 = shift := by
      rcases hlow with rfl | hlow
      · omega
      · have := Nat.div_pos hlow hpos
        omega
    simp only [hshift, Nat.mul_comm shift binade, Nat.add_sub_cancel_left]
  · have hquot : 2 * binade / binade = 2 := Nat.mul_div_cancel 2 hpos
    have hrank : binade * shift + 2 * binade - (shift + 1) * binade = binade := by
      have : (shift + 1) * binade = binade * shift + binade := by ring
      omega
    rw [hquot, show shift + 2 - 1 = shift + 1 by omega, hrank, Nat.pow_succ]
    ring

/-- The significand that a magnitude is rounded to. -/
def significandOf (num den : Nat) : Nat :=
  roundHalfEven num (den * 2 ^ shiftOf (num / den))

/-- The significand has 53 bits, or fewer if nothing is rounded away; it is the next power of two if
all its bits are rounded up. -/
theorem significandOf_bounds (num den : Nat) :
    (shiftOf (num / den) = 0 ∨ binade ≤ significandOf num den) ∧
      significandOf num den ≤ 2 * binade := by
  obtain ⟨hlow, hhigh⟩ := roundHalfEven_bounds num (den * 2 ^ shiftOf (num / den))
  rw [← Nat.div_div_eq_div_mul] at hlow hhigh
  have hpos : 0 < 2 ^ shiftOf (num / den) := Nat.two_pow_pos _
  constructor
  · rcases Nat.eq_zero_or_pos (shiftOf (num / den)) with hshift | hshift
    · exact .inl hshift
    · right
      refine Nat.le_trans ?_ hlow
      rw [Nat.le_div_iff_mul_le hpos]
      exact binade_mul_le hshift
  · refine Nat.le_trans hhigh (Nat.div_lt_of_lt_mul ?_)
    have hlt : num / den < 2 ^ ((num / den).log2 + 1) := Nat.lt_log2_self
    refine Nat.lt_of_lt_of_le hlt ?_
    rw [show 2 * binade = 2 ^ 53 by decide, ← Nat.pow_add]
    refine Nat.pow_le_pow_right (by decide) ?_
    simp only [shiftOf]
    omega

/-- Rounding keeps the order of magnitudes. -/
theorem rankOfUnits_mono {num den num' den' : Nat} (hden : 0 < den) (hden' : 0 < den')
    (h : num * den' ≤ num' * den) : rankOfUnits num den ≤ rankOfUnits num' den' := by
  have hunits : num / den ≤ num' / den' := by
    rw [Nat.le_div_iff_mul_le hden']
    refine Nat.le_of_mul_le_mul_right ?_ hden
    calc num / den * den' * den = num / den * den * den' := by ring
      _ ≤ num * den' := Nat.mul_le_mul_right _ (Nat.div_mul_le_self _ _)
      _ ≤ num' * den := h
  have hshift : shiftOf (num / den) ≤ shiftOf (num' / den') := by
    have hlog : (num / den).log2 ≤ (num' / den').log2 := by
      rcases Nat.eq_zero_or_pos (num / den) with hzero | hpos
      · simp [hzero]
      · rw [Nat.le_log2 (by omega)]
        exact Nat.le_trans (Nat.log2_self_le hpos.ne') hunits
    simp only [shiftOf]
    omega
  rw [rankOfUnits_eq, rankOfUnits_eq]
  rcases Nat.lt_or_eq_of_le hshift with hlt | heq
  · have hhigh := (significandOf_bounds num den).2
    have hlow := (significandOf_bounds num' den').1.resolve_left (by omega)
    have hstep : (shiftOf (num / den) + 1) * binade ≤ shiftOf (num' / den') * binade :=
      Nat.mul_le_mul_right _ hlt
    simp only [significandOf] at hhigh hlow
    rw [Nat.add_mul] at hstep
    omega
  · rw [heq]
    refine Nat.add_le_add_left (roundHalfEven_mono (by positivity) (by positivity) ?_) _
    calc num * (den' * 2 ^ shiftOf (num' / den'))
        = num * den' * 2 ^ shiftOf (num' / den') := by ring
      _ ≤ num' * den * 2 ^ shiftOf (num' / den') := Nat.mul_le_mul_right _ h
      _ = num' * (den * 2 ^ shiftOf (num' / den')) := by ring

/-- A magnitude that has a rank is rounded to it. -/
theorem rankOfUnits_unitsOfRank {den : Nat} (hden : 0 < den) (rank : Nat) :
    rankOfUnits (unitsOfRank rank * den) den = rank := by
  have hpos : 0 < binade := by decide
  obtain ⟨shift, significand, hrank, hlow, hhigh⟩ :
      ∃ shift significand, rank = shift * binade + significand ∧
        (shift = 0 ∨ binade ≤ significand) ∧ significand < 2 * binade := by
    have hdiv := Nat.div_add_mod rank binade
    have hmod := Nat.mod_lt rank hpos
    rw [Nat.mul_comm] at hdiv
    cases hquot : rank / binade with
    | zero =>
      rw [hquot] at hdiv
      exact ⟨0, rank, by omega, .inl rfl, by omega⟩
    | succ shift =>
      rw [hquot, Nat.add_mul] at hdiv
      exact ⟨shift, binade + rank % binade, by omega, .inr (by omega), by omega⟩
  rw [hrank, unitsOfRank_shifted hlow hhigh.le, rankOfUnits_eq, Nat.mul_div_cancel _ hden]
  have hshift : shiftOf (significand * 2 ^ shift) = shift := by
    rcases hlow with rfl | hlow
    · rcases Nat.eq_zero_or_pos significand with rfl | hsignificand
      · rfl
      · have : significand.log2 < 53 := (Nat.log2_lt hsignificand.ne').2 hhigh
        simp only [shiftOf, Nat.pow_zero, Nat.mul_one]
        omega
    · have hne : significand * 2 ^ shift ≠ 0 := by
        have hsignificand : 0 < significand := Nat.lt_of_lt_of_le hpos hlow
        positivity
      have hge : 52 + shift ≤ (significand * 2 ^ shift).log2 := by
        rw [Nat.le_log2 hne, Nat.pow_add]
        exact Nat.mul_le_mul_right _ hlow
      have hlt : (significand * 2 ^ shift).log2 < 53 + shift := by
        rw [Nat.log2_lt hne, Nat.pow_add]
        exact Nat.mul_lt_mul_of_pos_right hhigh (Nat.two_pow_pos _)
      simp only [shiftOf]
      omega
  rw [hshift]
  congr 1
  rw [show significand * 2 ^ shift * den = significand * (den * 2 ^ shift) by ring]
  exact roundHalfEven_mul_right (by positivity) _

/-- The ranks are in the order of their magnitudes. -/
theorem unitsOfRank_le_iff {a b : Nat} : unitsOfRank a ≤ unitsOfRank b ↔ a ≤ b := by
  have hrank (rank : Nat) : rankOfUnits (unitsOfRank rank) 1 = rank := by
    simpa using rankOfUnits_unitsOfRank Nat.one_pos rank
  have hmono {x y : Nat} (h : unitsOfRank x ≤ unitsOfRank y) : x ≤ y := by
    rw [← hrank x, ← hrank y]
    exact rankOfUnits_mono Nat.one_pos Nat.one_pos (by omega)
  constructor
  · exact hmono
  · intro h
    by_contra hlt
    have heq : a = b := Nat.le_antisymm h (hmono (Nat.le_of_not_le hlt))
    exact hlt (heq ▸ Nat.le_refl _)

/-- A magnitude that has a rank bounds the rounded magnitude from below if it bounds the exact
one. -/
theorem le_rankOfUnits {rank num den : Nat} (hden : 0 < den) (h : unitsOfRank rank * den ≤ num) :
    rank ≤ rankOfUnits num den := by
  rw [← rankOfUnits_unitsOfRank hden rank]
  exact rankOfUnits_mono hden hden (Nat.mul_le_mul_right _ h)

/-- A magnitude that has a rank bounds the rounded magnitude from above if it bounds the exact
one. -/
theorem rankOfUnits_le {rank num den : Nat} (hden : 0 < den) (h : num ≤ unitsOfRank rank * den) :
    rankOfUnits num den ≤ rank := by
  rw [← rankOfUnits_unitsOfRank hden rank]
  exact rankOfUnits_mono hden hden (Nat.mul_le_mul_right _ h)

end Expunge.Binary64
