import Expunge.Proofs.Binary64.Shortest
import Expunge.Proofs.Json.Numeral
import Expunge.Proofs.Text.Digits

/-!
# Floats as numerals

The numeral of a finite float spells a decimal that the float is the nearest one to
(`ofDecimal?_ofBinary64`). So a reader that rounds numerals correctly gets the float back; whether
the reader at hand does so for a numeral is `Numeral.IsReadNearest`.
-/

namespace Expunge

namespace Numeral

/-- The decimal that a numeral spells. -/
def toDecimal (n : Numeral) : Decimal :=
  .ofParts n.negative (Text.digits n.whole) n.fraction (n.exponent.getD 0)

/-- A numeral is read correctly rounded: as the float nearest to the decimal it spells. -/
def IsReadNearest (n : Numeral) : Prop :=
  n.toBinary64? = Binary64.ofDecimal? n.toDecimal

/-! ## Layouts -/

/-- The first digit of a number and its other digits are the digits of the number. -/
theorem toDecimal_scientific (negative : Bool) (coefficient : Nat) (exponent : Int) :
    toDecimal ⟨negative, Text.ofDigits ((Text.digits coefficient).take 1),
      (Text.digits coefficient).drop 1, some (exponent + (Text.digits coefficient).length - 1)⟩ =
        ⟨negative, coefficient, exponent⟩ := by
  obtain ⟨d, ds, hdigits⟩ := List.exists_cons_of_ne_nil (Text.digits_ne_nil coefficient)
  have hspelled := Text.ofDigits_digits coefficient
  have hfirst : Text.digits (Text.ofDigits [d]) = [d] := Text.digits_ofDigits (.inr rfl)
  rw [hdigits] at hspelled
  simp only [toDecimal, Decimal.ofParts, hdigits, List.take_succ_cons, List.take_zero,
    List.drop_succ_cons, List.drop_zero, hfirst, List.singleton_append, hspelled,
    List.length_cons, Option.getD_some, Decimal.mk.injEq, true_and]
  omega

/-- The numeral of digits around a point; a zero stands after the point if no other digit does. -/
def positional (negative : Bool) (parts : List Digit × List Digit) : Numeral :=
  ⟨negative, Text.ofDigits parts.1, if parts.2.isEmpty then Text.digits 0 else parts.2, none⟩

theorem toDecimal_positional {negative : Bool} {whole fraction : List Digit}
    (hwhole : Text.digits (Text.ofDigits whole) = whole) (hfraction : fraction ≠ []) :
    (positional negative (whole, fraction)).toDecimal =
      ⟨negative, Text.ofDigits (whole ++ fraction), -fraction.length⟩ := by
  have hempty : fraction.isEmpty = false := by simpa using hfraction
  simp only [toDecimal, positional, hempty, Bool.false_eq_true, if_false, Decimal.ofParts, hwhole,
    Option.getD_none, zero_sub]

/-- A number scaled up has a zero after the point. -/
theorem toDecimal_positional_whole (negative : Bool) (whole : List Digit) :
    (positional negative (whole, [])).toDecimal = ⟨negative, Text.ofDigits whole * 10, -1⟩ := by
  have hzero : Text.digits 0 = [0] := by
    rw [Text.digits]
    rfl
  simp only [toDecimal, positional, List.isEmpty_nil, if_true, Decimal.ofParts, hzero,
    Text.ofDigits_append_singleton, Text.ofDigits_digits, Option.getD_none, Fin.val_zero,
    Nat.add_zero, Nat.mul_comm 10, List.length_singleton, Nat.cast_one, zero_sub]

/-- Digits that are scaled down spell their number around the point. -/
theorem toDecimal_layOut_negSucc (negative : Bool) (coefficient n : Nat) :
    (positional negative (Decimal.layOut (Text.digits coefficient) (.negSucc n))).toDecimal =
      ⟨negative, coefficient, .negSucc n⟩ := by
  obtain ⟨d, ds, hdigits⟩ := List.exists_cons_of_ne_nil (Text.digits_ne_nil coefficient)
  have hspelled := Text.ofDigits_digits coefficient
  have hne : Text.digits coefficient ≠ [] := Text.digits_ne_nil coefficient
  rw [Decimal.layOut]
  split
  · next hplaces =>
    have hsplit : (Text.digits coefficient).length - (n + 1) =
        (Text.digits coefficient).length - (n + 1) - 1 + 1 := by omega
    have hwhole : Text.digits (Text.ofDigits ((Text.digits coefficient).take
        ((Text.digits coefficient).length - (n + 1)))) =
          (Text.digits coefficient).take ((Text.digits coefficient).length - (n + 1)) := by
      rw [hsplit, hdigits, List.take_succ_cons]
      refine Text.digits_ofDigits ((Text.head_digits hdigits).imp_right ?_)
      rintro rfl
      exact List.take_nil
    rw [List.splitAt_eq, toDecimal_positional hwhole, List.take_append_drop, hspelled,
      List.length_drop]
    · congr 1
      omega
    · rw [Ne, List.drop_eq_nil_iff]
      omega
  · next hplaces =>
    have hzeros (zeros : Nat) : [0] ++ (List.replicate zeros 0 ++ Text.digits coefficient) =
        List.replicate (zeros + 1) 0 ++ Text.digits coefficient := rfl
    rw [toDecimal_positional (Text.digits_ofDigits (.inr rfl)), hzeros,
      Text.ofDigits_zeros_append, hspelled, List.length_append, List.length_replicate]
    · congr 1
      omega
    · exact List.append_ne_nil_of_right_ne_nil _ hne

/-- The numeral of a float is its shortest decimal, in one of two layouts. -/
theorem ofBinary64_cases {x : Binary64} {d : Decimal} (h : x.shortest .even = d) :
    ofBinary64 x = positional d.negative (Decimal.layOut (Text.digits d.coefficient) d.exponent) ∨
      ofBinary64 x = ⟨d.negative, Text.ofDigits ((Text.digits d.coefficient).take 1),
        (Text.digits d.coefficient).drop 1,
        some (d.exponent + (Text.digits d.coefficient).length - 1)⟩ := by
  rewrite [ofBinary64, h]
  split
  · exact .inl rfl
  · exact .inr rfl

/-- The numeral of a float spells its shortest decimal, or the same number with zeros that fill it
up to the point and one after it. -/
theorem toDecimal_ofBinary64 {x : Binary64} {d : Decimal} (h : x.shortest .even = d) :
    (ofBinary64 x).toDecimal = d ∨ ∃ zeros : Nat, d.exponent = zeros ∧
      (ofBinary64 x).toDecimal = ⟨d.negative, d.coefficient * 10 ^ (zeros + 1), -1⟩ := by
  rcases ofBinary64_cases h with hnumeral | hnumeral
  · rw [hnumeral]
    obtain ⟨negative, coefficient, exponent⟩ := d
    cases exponent with
    | negSucc n => exact .inl (toDecimal_layOut_negSucc negative coefficient n)
    | ofNat zeros =>
      refine .inr ⟨zeros, rfl, ?_⟩
      rw [Decimal.layOut, toDecimal_positional_whole, Text.ofDigits_append_zeros,
        Text.ofDigits_digits, Nat.pow_succ, Nat.mul_assoc]
  · rw [hnumeral]
    exact .inl (toDecimal_scientific ..)

/-- A float is no integer when it is written. -/
theorem isInteger_ofBinary64 (x : Binary64) : (ofBinary64 x).isInteger = false := by
  rcases ofBinary64_cases (d := x.shortest .even) rfl with hnumeral | hnumeral
  · have hfraction (fraction : List Digit) :
        (if fraction.isEmpty then Text.digits 0 else fraction).isEmpty = false := by
      cases fraction with
      | nil => simpa using Text.digits_ne_nil 0
      | cons d ds => rfl
    rw [hnumeral, isInteger, positional, hfraction, Bool.false_and]
  · rw [hnumeral, isInteger, Option.isNone_some, Bool.and_false]

end Numeral

namespace Binary64

/-- A finite number is the one nearest to a decimal that is read as its rank. -/
theorem ofDecimal?_of_rank {d : Decimal} {x : Binary64} (hnegative : d.negative = x.negative)
    (hrank : rankOfDecimal d.coefficient d.exponent = x.rank) (h : x.isFinite = true) :
    ofDecimal? d = some x := by
  have hx : ofDecimal d = x := by
    rw [ofDecimal, hnegative, hrank, ofRank]
    congr 1
    exact Fin.ext (Nat.min_eq_left (of_decide_eq_true h : x.rank.val < infinityRank).le)
  rw [ofDecimal?, hx]
  exact if_pos h

end Binary64

/-- A finite float is the nearest one to the decimal that its numeral spells. -/
theorem Numeral.ofDecimal?_ofBinary64 {x : Binary64} (h : x.isFinite = true) :
    Binary64.ofDecimal? (ofBinary64 x).toDecimal = some x := by
  have hnegative := Binary64.negative_shortest .even x
  have hrank : Binary64.rankOfDecimal (x.shortest .even).coefficient (x.shortest .even).exponent =
    x.rank := Binary64.rankOfDecimal_shortest h
  cases hshortest : x.shortest .even with
  | mk negative coefficient exponent =>
    rw [hshortest] at hnegative hrank
    rcases toDecimal_ofBinary64 hshortest with hdecimal | ⟨zeros, hzeros, hdecimal⟩
    · rw [hdecimal]
      exact Binary64.ofDecimal?_of_rank hnegative hrank h
    · have hfinite : x.rank.val < Binary64.infinityRank := of_decide_eq_true h
      have hscaled : Binary64.rankOfDecimal (coefficient * 10 ^ (zeros + 1)) (-1) = x.rank := by
        have hexponent : -1 + ((zeros + 1 : Nat) : Int) = exponent := by
          simp only at hzeros
          omega
        rcases Nat.eq_zero_or_pos coefficient with rfl | hpos
        · rw [← hrank, Nat.zero_mul, Binary64.rankOfDecimal.eq_def, if_pos rfl,
            Binary64.rankOfDecimal.eq_def, if_pos rfl]
        · have hlimit := Binary64.lt_exponentLimit_of_rankOfDecimal_lt hpos.ne' (hrank ▸ hfinite)
          rw [Binary64.rankOfDecimal_mul_pow (by rw [hexponent]; exact hlimit.le), hexponent, hrank]
      rw [hdecimal]
      exact Binary64.ofDecimal?_of_rank hnegative hscaled h

end Expunge
