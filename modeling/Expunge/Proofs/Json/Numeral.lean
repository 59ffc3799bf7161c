import Expunge.Proofs.Binary64.Finite
import Expunge.Value

/-!
# Numerals as values

A numeral is read as a 64-bit integer if it is one and as a float otherwise. The float is finite
(`Numeral.isFinite_of_toBinary64?`), because the significand that is scaled has 64 bits at most
however many digits the numeral has.
-/

namespace Expunge

namespace Numeral

/-- Taking digits never lets a significand grow past its limit. -/
theorem takeDigits_lt {significand : Nat} {digits : List Digit}
    (h : significand < significandLimit) :
    (takeDigits significand digits).1 < significandLimit := by
  induction digits generalizing significand with
  | nil => exact h
  | cons d rest ih =>
    rw [takeDigits]
    split
    · next hfits => exact ih hfits
    · exact h

/-- Appending digits never makes a significand smaller. -/
theorem le_foldl_digits (significand : Nat) (digits : List Digit) :
    significand ≤ digits.foldl (fun n d => 10 * n + d.val) significand := by
  induction digits generalizing significand with
  | nil => exact Nat.le_refl _
  | cons d rest ih =>
    have hrest := ih (10 * significand + d.val)
    rw [List.foldl_cons]
    omega

/-- Digits that fit into a significand are all taken. -/
theorem takeDigits_eq_of_lt {significand : Nat} {digits : List Digit}
    (h : digits.foldl (fun n d => 10 * n + d.val) significand < significandLimit) :
    takeDigits significand digits =
      (digits.foldl (fun n d => 10 * n + d.val) significand, []) := by
  induction digits generalizing significand with
  | nil => rfl
  | cons d rest ih =>
    have hfits := Nat.lt_of_le_of_lt (le_foldl_digits (10 * significand + d.val) rest) h
    rw [takeDigits, if_pos hfits]
    exact ih h

/-- Where digits are left, one more of them would not fit. -/
theorem le_of_takeDigits_ne_nil {significand : Nat} {digits : List Digit}
    (h : (takeDigits significand digits).2 ≠ []) :
    significandLimit ≤ 10 * (takeDigits significand digits).1 + 9 := by
  induction digits generalizing significand with
  | nil => exact absurd rfl h
  | cons d rest ih =>
    rw [takeDigits] at h ⊢
    by_cases hfits : 10 * significand + d.val < significandLimit
    · rw [if_pos hfits] at h ⊢
      exact ih h
    · have hd := d.isLt
      rw [if_neg hfits]
      simp only
      omega

/-- Where no digits are left, the significand is what all of them spell. -/
theorem takeDigits_eq_of_nil {significand : Nat} {digits : List Digit}
    (h : (takeDigits significand digits).2 = []) :
    (takeDigits significand digits).1 =
      digits.foldl (fun n d => 10 * n + d.val) significand := by
  induction digits generalizing significand with
  | nil => rfl
  | cons d rest ih =>
    rw [takeDigits] at h ⊢
    by_cases hfits : 10 * significand + d.val < significandLimit
    · rw [if_pos hfits] at h ⊢
      exact ih h
    · rw [if_neg hfits] at h
      cases h

theorem scaled_lt (n : Numeral) : n.scaled.1 < significandLimit :=
  takeDigits_lt (takeDigits_lt (by decide))

/-- The float that a numeral is read as is finite. -/
theorem isFinite_of_toBinary64? {n : Numeral} {x : Binary64} (h : n.toBinary64? = some x) :
    x.isFinite = true := by
  obtain ⟨rank, hrank, rfl⟩ := Option.map_eq_some_iff.1 h
  exact Binary64.isFinite_ofRank.2 (Binary64.lt_infinityRank_of_scaledRank? n.scaled_lt hrank)

end Numeral

namespace Value

/-- No infinity and no NaN. -/
def IsFinite : Value → Prop
  | .float x => x.isFinite = true
  | .integer _ => True
  | .text _ => True

/-- A value that a document holds is finite. -/
theorem isFinite_of_decode? {json : Json} {value : Value} (h : decode? json = some value) :
    value.IsFinite := by
  cases json with
  | number n =>
    simp only [decode?, ofNumeral?] at h
    split at h
    · cases h
      trivial
    · obtain ⟨x, hx, rfl⟩ := Option.map_eq_some_iff.1 h
      exact Numeral.isFinite_of_toBinary64? hx
  | string text =>
    obtain ⟨text, _, rfl⟩ := Option.map_eq_some_iff.1 h
    trivial
  | malformed => cases h
  | null => cases h
  | bool value => cases h
  | array items => cases h
  | object members => cases h

end Value

end Expunge
