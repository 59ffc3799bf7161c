import Expunge.Column.Cast
import Expunge.Json.Token
import Expunge.Proofs.Binary64.Boundary
import Expunge.Proofs.Json.Numeral
import Expunge.Proofs.Text.Digits

/-!
# Integer literals

What becomes of a JSON literal that spells an integer, whatever its size. In the range of the 64-bit
integers it is read as the integer it spells; only `-0` is a float there. Past that range it is read
as a float, which keeps the literal only up to rounding: `toInteger?_eq_some_iff`,
`toText_eq_iff` and `ofNumeral?_eq_iff` say which literals come back from it as the integer, as the
text, and as a value of their own.
-/

namespace Expunge

/-! ## The float of a literal -/

namespace Numeral

theorem isInteger_iff {n : Numeral} : n.isInteger = true ↔ n.fraction = [] ∧ n.exponent = none := by
  simp [isInteger]

/-- The float of a numeral of an integer is scaled by the digits that do not fit into the
significand. -/
theorem toBinary64?_of_isInteger {n : Numeral} (h : n.isInteger = true) :
    n.toBinary64? =
      (Binary64.scaledRank? (takeDigits 0 (Text.digits n.whole)).1
        (takeDigits 0 (Text.digits n.whole)).2.length).map (Binary64.ofRank n.negative) := by
  obtain ⟨hfraction, hexponent⟩ := isInteger_iff.1 h
  simp only [toBinary64?, scaled, hfraction, hexponent, takeDigits, List.length_nil,
    Option.getD_none, Nat.cast_zero, add_zero, sub_zero]

/-- A float has the sign of its numeral. -/
theorem negative_of_toBinary64? {n : Numeral} {x : Binary64} (h : n.toBinary64? = some x) :
    x.negative = n.negative := by
  obtain ⟨_, _, rfl⟩ := Option.map_eq_some_iff.1 h
  rfl

/-- An integer of 64 bits is read as the nearest float. -/
theorem toBinary64?_of_lt {n : Numeral} (h : n.isInteger = true) (hlt : n.whole < 2 ^ 64) :
    n.toBinary64? = some (Binary64.ofRank n.negative (Binary64.rankOfDecimal n.whole 0)) := by
  have hspelled : (Text.digits n.whole).foldl (fun n d => 10 * n + d.val) 0 = n.whole :=
    Text.ofDigits_digits n.whole
  have htake := takeDigits_eq_of_lt (hspelled.trans_lt hlt)
  have hscaled := Binary64.scaledRank?_zero hlt
  rw [toBinary64?_of_isInteger h, htake, hspelled, List.length_nil, Nat.cast_zero, hscaled]
  rfl

/-- An integer of more than 64 bits is read as a float above `2 ^ 63`. -/
theorem limitRank_lt_of_toBinary64? {n : Numeral} {x : Binary64} (h : n.isInteger = true)
    (hge : 2 ^ 64 ≤ n.whole) (hx : n.toBinary64? = some x) :
    Binary64.limitRank < x.rank.val := by
  have hspelled : (Text.digits n.whole).foldl (fun n d => 10 * n + d.val) 0 = n.whole :=
    Text.ofDigits_digits n.whole
  have hleft : (takeDigits 0 (Text.digits n.whole)).2 ≠ [] := by
    intro hnil
    have hlt : (takeDigits 0 (Text.digits n.whole)).1 < significandLimit :=
      takeDigits_lt (by decide)
    rw [takeDigits_eq_of_nil hnil, hspelled] at hlt
    exact Nat.not_lt.2 hge hlt
  have hsignificand := le_of_takeDigits_ne_nil hleft
  have hlimit : significandLimit = 2 ^ 64 := rfl
  have hfinite := isFinite_of_toBinary64? hx
  rw [toBinary64?_of_isInteger h] at hx
  obtain ⟨rank, hrank, rfl⟩ := Option.map_eq_some_iff.1 hx
  rw [Binary64.rank_ofRank (Binary64.isFinite_ofRank.1 hfinite)]
  exact Binary64.limitRank_lt_of_scaledRank? (by omega) (List.length_pos_of_ne_nil hleft) hrank

end Numeral

/-! ## The text of a literal -/

namespace Numeral

/-- The integer that a numeral without a point and a power of ten spells. -/
def spelled (n : Numeral) : Int :=
  Text.signed n.negative n.whole

/-- The sign of a numeral as text. -/
def sign (n : Numeral) : List Char :=
  if n.negative then ['-'] else []

end Numeral

/-- A literal that spells an integer, read as a numeral. -/
structure IsIntegerLiteral (word : List Char) (n : Numeral) : Prop where
  spells : Json.readNumeral? word = some n
  isInteger : n.isInteger = true

namespace Numeral

/-- Two numerals of integers are equal if they have the same sign and the same digits. -/
theorem eq_of_isInteger {n m : Numeral} (hn : n.isInteger = true) (hm : m.isInteger = true)
    (hnegative : n.negative = m.negative) (hwhole : n.whole = m.whole) : n = m := by
  rw [isInteger_iff] at hn hm
  cases n
  cases m
  simp_all

end Numeral

namespace Json

/-- A natural number is spelled in one way only. -/
theorem ofNat_of_readWhole? {text : List Char} {whole : Nat} (h : readWhole? text = some whole) :
    Text.ofNat whole = text := by
  rw [readWhole?.eq_def] at h
  split at h
  · cases h
  · next hlead =>
    rw [Text.readNat?] at h
    split at h
    · cases h
    · next hne =>
      obtain ⟨ds, hds, rfl⟩ := Option.map_eq_some_iff.1 h
      have htext := Text.ofDigitList_of_readDigits? hds
      cases ds with
      | nil =>
        rw [← htext] at hne
        exact absurd rfl hne
      | cons d ds =>
        have hzero : d.val ≠ 0 ∨ ds = [] := by
          by_contra hboth
          obtain ⟨hd, hmore⟩ := not_or.1 hboth
          obtain rfl : d = 0 := Fin.ext (not_not.1 hd)
          obtain ⟨e, rest, rfl⟩ := List.exists_cons_of_ne_nil hmore
          exact hlead e.toChar (Text.ofDigitList rest) htext.symm
        rw [Text.ofNat, Text.digits_ofDigits hzero, htext]

/-- A part that reads as no digits is nothing. -/
theorem eq_of_readFraction?_nil {text rest : List Char} (h : readFraction? text = some ([], rest)) :
    rest = text := by
  rw [readFraction?.eq_def] at h
  split at h
  · next after =>
    simp only [Option.bind_eq_bind, Option.bind_eq_some_iff, Option.guard_eq_some', exists_const,
      Option.pure_def, Option.some.injEq, Prod.mk.injEq] at h
    obtain ⟨hne, ds, hds, rfl, _⟩ := h
    have htext := Text.ofDigitList_of_readDigits? hds
    rw [← htext] at hne
    cases hne
  · cases h
    rfl

/-- A part that reads as no power of ten is nothing. -/
theorem eq_nil_of_readExponent?_none {text : List Char} (h : readExponent? text = some none) :
    text = [] := by
  cases text with
  | nil => rfl
  | cons mark rest =>
    rw [readExponent?] at h
    split at h
    · obtain ⟨_, _, heq⟩ := Option.map_eq_some_iff.1 h
      cases heq
    · cases h

end Json

namespace IsIntegerLiteral

variable {word word' : List Char} {n m : Numeral}

/-- A literal is its sign and the digits of its number. -/
theorem word_eq (h : IsIntegerLiteral word n) : word = n.sign ++ Text.ofNat n.whole := by
  obtain ⟨hspells, hinteger⟩ := h
  rw [Numeral.isInteger_iff] at hinteger
  obtain ⟨hfraction, hexponent⟩ := hinteger
  rw [Json.readNumeral?.eq_def] at hspells
  split at hspells
  next negative unsigned heq =>
    simp only [Option.bind_eq_bind, Option.bind_eq_some_iff, Option.pure_def,
      Option.some.injEq] at hspells
    obtain ⟨whole, hwhole, ⟨fraction, rest⟩, hrest, exponent, hexp, rfl⟩ := hspells
    cases hfraction
    cases hexponent
    have hnil : rest = [] := Json.eq_nil_of_readExponent?_none hexp
    have hdrop := Json.eq_of_readFraction?_nil hrest
    have hunsigned : unsigned = Text.ofNat whole := by
      rw [Json.ofNat_of_readWhole? hwhole]
      conv => lhs; rw [← List.takeWhile_append_dropWhile (p := Char.isDigit) (l := unsigned)]
      rw [← hdrop, hnil, List.append_nil]
    rw [Numeral.sign, ← hunsigned]
    split at heq <;> cases heq <;> rfl

/-- Literals differ exactly if their numerals do. -/
theorem word_eq_iff (h : IsIntegerLiteral word n) (h' : IsIntegerLiteral word' m) :
    word = word' ↔ n = m := by
  constructor
  · rintro rfl
    have hspells := h.spells
    rw [h'.spells] at hspells
    exact (Option.some.inj hspells).symm
  · rintro rfl
    rw [h.word_eq, h'.word_eq]

end IsIntegerLiteral

/-! ## The value of a literal -/

/-- A 64-bit integer is found if there is one. -/
theorem Text.int64?_eq_some_iff {i : Int} {value : Int64} :
    int64? i = some value ↔ value.toInt = i := by
  have hmin : Int64.minValue.toInt = -2 ^ 63 := by decide
  have hmax : Int64.maxValue.toInt = 2 ^ 63 - 1 := by decide
  rw [int64?, hmin, hmax]
  constructor
  · intro h
    split at h
    · next hrange =>
      cases h
      exact Int64.toInt_ofInt_of_le hrange.1 (by omega)
    · cases h
  · rintro rfl
    have hlow := Int64.le_toInt value
    have hhigh := Int64.toInt_lt value
    rw [if_pos ⟨hlow, by omega⟩, Int64.ofInt_toInt]

namespace Numeral

variable {n m : Numeral}

/-- A numeral whose integer is one of 64 bits. -/
def Fits (n : Numeral) : Prop :=
  -2 ^ 63 ≤ n.spelled ∧ n.spelled < 2 ^ 63

/-- The one numeral of an integer that is read as a float although its integer has 64 bits. -/
def IsNegativeZero (n : Numeral) : Prop :=
  n.negative = true ∧ n.whole = 0

/-- A numeral whose integer is below those of 64 bits, but by so little that its float is the least
of them. -/
def IsRoundedUp (n : Numeral) : Prop :=
  -2 ^ 63 - 1024 ≤ n.spelled ∧ n.spelled < -2 ^ 63

/-- The value of a numeral of an integer is that integer, or a float if the integer does not fit or
is a negative zero. -/
theorem cases_of_ofNumeral? (h : n.isInteger = true) {value : Value}
    (hvalue : Value.ofNumeral? n = some value) :
    (∃ i : Int64, value = .integer i ∧ i.toInt = n.spelled ∧ ¬ n.IsNegativeZero) ∨
      ∃ x, value = .float x ∧ n.toBinary64? = some x ∧ (n.IsNegativeZero ∨ ¬ n.Fits) := by
  rw [Value.ofNumeral?] at hvalue
  split at hvalue
  · next i hi =>
    cases hvalue
    obtain ⟨spelled, hspelled, hi⟩ := Option.bind_eq_some_iff.1 hi
    rw [toInt?, h] at hspelled
    split at hspelled
    · next hzero =>
      cases hspelled
      refine .inl ⟨i, rfl, Text.int64?_eq_some_iff.1 hi, ?_⟩
      rintro ⟨hnegative, hwhole⟩
      simp [hnegative, hwhole] at hzero
    · cases hspelled
  · next hnone =>
    obtain ⟨x, hx, rfl⟩ := Option.map_eq_some_iff.1 hvalue
    refine .inr ⟨x, rfl, hx, ?_⟩
    by_contra hboth
    obtain ⟨hzero, hfits⟩ := not_or.1 hboth
    obtain ⟨hlow, hhigh⟩ := not_not.1 hfits
    have hspelled : n.toInt? = some n.spelled := by
      rw [toInt?, h, if_pos]
      · rfl
      · simp only [IsNegativeZero, not_and] at hzero
        cases hnegative : n.negative with
        | true => simpa using hzero hnegative
        | false => rfl
    have hi : Text.int64? n.spelled = some (Int64.ofInt n.spelled) :=
      Text.int64?_eq_some_iff.2 (Int64.toInt_ofInt_of_le hlow hhigh)
    rw [hspelled, Option.bind_some, hi] at hnone
    cases hnone

theorem rank_eq_zero_of_isNegativeZero {x : Binary64} (h : n.isInteger = true)
    (hzero : n.IsNegativeZero) (hx : n.toBinary64? = some x) : x.rank.val = 0 := by
  have hlt : n.whole < 2 ^ 64 := by
    rw [hzero.2]
    decide
  rw [toBinary64?_of_lt h hlt, hzero.2] at hx
  cases hx
  rfl

/-- The magnitude of an integer that does not fit. -/
theorem le_whole_of_not_fits (h : ¬ n.Fits) :
    2 ^ 63 ≤ n.whole ∧ (n.negative = true → 2 ^ 63 < n.whole) := by
  rw [Fits, spelled, Text.signed] at h
  cases hnegative : n.negative with
  | true =>
    simp only [hnegative, if_true] at h
    omega
  | false =>
    simp only [hnegative, Bool.false_eq_true, if_false] at h
    refine ⟨?_, by simp⟩
    omega

/-- The float of an integer that does not fit is at least `2 ^ 63` in magnitude. -/
theorem limitRank_le_of_not_fits {x : Binary64} (h : n.isInteger = true) (hfits : ¬ n.Fits)
    (hx : n.toBinary64? = some x) : Binary64.limitRank ≤ x.rank.val := by
  rcases Nat.lt_or_ge n.whole (2 ^ 64) with hlt | hge
  · have hfinite := isFinite_of_toBinary64? hx
    rw [toBinary64?_of_lt h hlt] at hx
    cases hx
    rw [Binary64.rank_ofRank (Binary64.isFinite_ofRank.1 hfinite)]
    exact Binary64.limitRank_le_rankOfDecimal (le_whole_of_not_fits hfits).1
  · exact (limitRank_lt_of_toBinary64? h hge hx).le

theorem rank_pos_of_not_fits {x : Binary64} (h : n.isInteger = true) (hfits : ¬ n.Fits)
    (hx : n.toBinary64? = some x) : 0 < x.rank.val :=
  Nat.lt_of_lt_of_le (Nat.mul_pos (by decide) (Nat.two_pow_pos 52))
    (limitRank_le_of_not_fits h hfits hx)

/-- An integer that does not fit is read as a float. -/
theorem exists_float_of_not_fits (h : n.isInteger = true) (hfits : ¬ n.Fits) {value : Value}
    (hvalue : Value.ofNumeral? n = some value) :
    ∃ x, value = .float x ∧ n.toBinary64? = some x := by
  rcases cases_of_ofNumeral? h hvalue with ⟨i, rfl, hi, _⟩ | ⟨x, rfl, hx, _⟩
  · exact absurd ⟨hi ▸ Int64.le_toInt i, hi ▸ Int64.toInt_lt i⟩ hfits
  · exact ⟨x, rfl, hx⟩

/-- Numerals that spell the same integer are equal unless one is a negative zero. -/
theorem eq_of_spelled_eq (hn : n.isInteger = true) (hm : m.isInteger = true)
    (hzero : ¬ n.IsNegativeZero) (hzero' : ¬ m.IsNegativeZero) (h : n.spelled = m.spelled) :
    n = m := by
  rw [IsNegativeZero] at hzero hzero'
  rw [spelled, spelled, Text.signed, Text.signed] at h
  have hnegative : n.negative = m.negative := by
    cases hneg : n.negative <;> cases hneg' : m.negative <;>
      simp [hneg, hneg'] at h hzero hzero' ⊢ <;> omega
  refine eq_of_isInteger hn hm hnegative ?_
  rw [hnegative] at h
  split at h <;> omega

/-- The float of an integer that does not fit equals a 64-bit integer only if it is rounded up to
the least one. -/
theorem toInteger?_float_eq_some_iff {x : Binary64} (h : n.isInteger = true) (hfits : ¬ n.Fits)
    (hx : n.toBinary64? = some x) {i : Int64} :
    (Value.float x).toInteger? = some i ↔ i = Int64.minValue ∧ n.IsRoundedUp := by
  obtain ⟨hge, hnegative⟩ := le_whole_of_not_fits hfits
  have hsign := negative_of_toBinary64? hx
  have hspelled : n.IsRoundedUp ↔ n.negative = true ∧ n.whole ≤ 2 ^ 63 + 1024 := by
    rw [IsRoundedUp, spelled, Text.signed]
    cases hneg : n.negative with
    | true =>
      have := hnegative hneg
      simp only [if_true, true_and]
      omega
    | false =>
      simp only [Bool.false_eq_true, if_false, false_and, iff_false]
      omega
  have habove : Binary64.limitRank < x.rank.val ↔ ¬ n.whole ≤ 2 ^ 63 + 1024 := by
    rcases Nat.lt_or_ge n.whole (2 ^ 64) with hlt | hge'
    · have hfinite := isFinite_of_toBinary64? hx
      rw [toBinary64?_of_lt h hlt] at hx
      cases hx
      rw [Binary64.rank_ofRank (Binary64.isFinite_ofRank.1 hfinite),
        Binary64.limitRank_lt_rankOfDecimal_iff hge hlt, Nat.not_le]
    · have := limitRank_lt_of_toBinary64? h hge' hx
      simp only [this, true_iff]
      omega
  rw [Value.toInteger?, hspelled]
  rcases Nat.lt_or_ge (2 ^ 63 + 1024) n.whole with hlarge | hsmall
  · rw [Binary64.int64?_toInt?_of_lt_rank (habove.2 (Nat.not_le.2 hlarge))]
    constructor
    · intro h
      cases h
    · rintro ⟨_, _, hle⟩
      omega
  · have hrank : x.rank.val = Binary64.limitRank := by
      refine Nat.le_antisymm ?_ (limitRank_le_of_not_fits h hfits hx)
      exact Nat.le_of_not_lt fun hlt => habove.1 hlt hsmall
    rw [Binary64.toInt?_of_rank_eq hrank, hsign, Option.bind_some, Text.int64?_eq_some_iff]
    cases hneg : n.negative with
    | true =>
      have hmin : Int64.minValue.toInt = Text.signed true (2 ^ 63) := by decide
      rw [← hmin, Int64.toInt_inj]
      constructor
      · rintro rfl
        exact ⟨rfl, rfl, hsmall⟩
      · rintro ⟨rfl, _⟩
        rfl
    | false =>
      have hhigh := Int64.toInt_lt i
      simp only [Text.signed, Bool.false_eq_true, if_false, false_and, and_false, iff_false]
      omega

/-- The value of a literal is cast to the integer that the literal spells and to no other, except
that the float of a literal just below the 64-bit integers is cast to the least of them. -/
theorem toInteger?_eq_some_iff (h : n.isInteger = true) {value : Value}
    (hvalue : Value.ofNumeral? n = some value) {i : Int64} :
    value.toInteger? = some i ↔
      i.toInt = n.spelled ∨ (i = Int64.minValue ∧ n.IsRoundedUp) := by
  have hlow := Int64.le_toInt i
  have hhigh := Int64.toInt_lt i
  rcases cases_of_ofNumeral? h hvalue with ⟨j, rfl, hj, _⟩ | ⟨x, rfl, hx, hzero | hfits⟩
  · have hjlow := Int64.le_toInt j
    have hrounded : ¬ n.IsRoundedUp := by
      rintro ⟨_, hlt⟩
      omega
    rw [Value.toInteger?, Option.some.injEq, ← hj, Int64.toInt_inj, eq_comm]
    simp [hrounded]
  · have hspelled : n.spelled = 0 := by
      rw [spelled, hzero.2, Text.signed]
      split <;> rfl
    have hrounded : ¬ n.IsRoundedUp := by
      rintro ⟨_, hlt⟩
      omega
    have hrank := rank_eq_zero_of_isNegativeZero h hzero hx
    rw [Value.toInteger?, Binary64.toInt?_of_rank_eq_zero hrank,
      Option.bind_some, Text.int64?_eq_some_iff, hspelled]
    simp [hrounded]
  · have hother : ¬ i.toInt = n.spelled := by
      intro heq
      exact hfits ⟨heq ▸ hlow, heq ▸ hhigh⟩
    rw [toInteger?_float_eq_some_iff h hfits hx]
    simp [hother]

/-- A numeral whose float is written with the digits that the numeral has. -/
def IsWrittenBack (n : Numeral) : Prop :=
  ∃ (x : Binary64) (zeros : Nat), n.toBinary64? = some x ∧
    (x.shortest .larger).exponent = zeros ∧
    (x.shortest .larger).coefficient * 10 ^ zeros = n.whole

/-- The float of an integer that does not fit is written as the literal only if its shortest decimal
is the integer. -/
theorem toText_float_eq_iff {word : List Char} {x : Binary64} (hword : IsIntegerLiteral word n)
    (hfits : ¬ n.Fits) (hx : n.toBinary64? = some x) :
    x.toText = word ↔ n.IsWrittenBack := by
  have hback : n.IsWrittenBack ↔ ∃ zeros : Nat, (x.shortest .larger).exponent = zeros ∧
      (x.shortest .larger).coefficient * 10 ^ zeros = n.whole := by
    simp [IsWrittenBack, hx]
  have hsign : (if x.negative then ['-'] else []) = n.sign := by
    rw [sign, negative_of_toBinary64? hx]
  have hpoint : '.' ∉ word := by
    rw [hword.word_eq, List.mem_append, sign, Text.ofNat, Text.ofDigitList]
    rintro (h | h)
    · split at h <;> simp at h
    · obtain ⟨d, _, hd⟩ := List.mem_map.1 h
      have := d.isDigit_toChar
      rw [hd] at this
      cases this
  rw [hback, Binary64.toText_of_isFinite (isFinite_of_toBinary64? hx), hsign, hword.word_eq]
  cases hexponent : (x.shortest .larger).exponent with
  | ofNat zeros =>
    simp only [Decimal.layOut, List.isEmpty_nil, if_true, List.append_nil,
      List.append_cancel_left_eq, Text.ofNat, Text.ofDigitList_injective.eq_iff]
    constructor
    · intro h
      refine ⟨zeros, rfl, ?_⟩
      have hdigits := congrArg Text.ofDigits h
      rwa [Text.ofDigits_append_zeros, Text.ofDigits_digits, Text.ofDigits_digits] at hdigits
    · rintro ⟨_, heq, h⟩
      cases heq
      have hpos : 0 < (x.shortest .larger).coefficient := by
        have hwhole := (le_whole_of_not_fits hfits).1
        rw [Nat.pos_iff_ne_zero]
        intro hzero
        rw [hzero, Nat.zero_mul] at h
        omega
      rw [← h, Text.digits_mul_pow hpos]
  | negSucc places =>
    have hne : (Decimal.layOut (Text.digits (x.shortest .larger).coefficient)
        (.negSucc places)).2 ≠ [] :=
      Decimal.layOut_negSucc_ne_nil (Text.digits_ne_nil _) places
    constructor
    · intro h
      rw [hword.word_eq, ← h] at hpoint
      simp [hne] at hpoint
    · rintro ⟨zeros, h, _⟩
      cases h

/-- The value of a literal is written as the literal, except that the float of one that does not fit
need not be. -/
theorem toText_eq_iff {word : List Char} (hword : IsIntegerLiteral word n) {value : Value}
    (hvalue : Value.ofNumeral? n = some value) :
    value.toText = String.ofList word ↔ n.Fits ∨ n.IsWrittenBack := by
  rcases cases_of_ofNumeral? hword.isInteger hvalue with
    ⟨i, rfl, hi, hzero⟩ | ⟨x, rfl, hx, hzero | hfits⟩
  · have hfits : n.Fits := ⟨hi ▸ Int64.le_toInt i, hi ▸ Int64.toInt_lt i⟩
    simp only [hfits, true_or, iff_true]
    rw [Value.toText, hi, hword.word_eq, Text.ofInt, spelled, Text.signed, sign]
    cases hnegative : n.negative with
    | true =>
      have hwhole : n.whole ≠ 0 := fun h => hzero ⟨hnegative, h⟩
      have hspelled : -(n.whole : Int) < 0 := by omega
      rw [if_pos rfl, if_pos hspelled, if_pos rfl, Int.natAbs_neg, Int.natAbs_natCast]
      rfl
    | false =>
      have hspelled : ¬ (n.whole : Int) < 0 := by omega
      rw [if_neg Bool.false_ne_true, if_neg hspelled, if_neg Bool.false_ne_true, Int.natAbs_natCast]
      rfl
  · have hfits : n.Fits := by
      rw [Fits, spelled, hzero.2, Text.signed, hzero.1]
      decide
    simp only [hfits, true_or, iff_true]
    have hrank := rank_eq_zero_of_isNegativeZero hword.isInteger hzero hx
    have hshortest : x.shortest .larger = ⟨x.negative, 0, 0⟩ := by
      rw [Binary64.shortest, if_pos hrank]
    rw [Value.toText, Binary64.toText_of_isFinite (isFinite_of_toBinary64? hx), hshortest,
      hword.word_eq, hzero.2, sign, negative_of_toBinary64? hx]
    have hlayout : Decimal.layOut (Text.digits 0) 0 = (Text.digits 0, []) :=
      congrArg (·, []) (List.append_nil _)
    simp [hlayout, Text.ofNat]
  · simp only [hfits, false_or]
    rw [Value.toText, String.ofList_inj, toText_float_eq_iff hword hfits hx]

/-- Two literals have the same value only if they are the same, or none of them fits and they are
read as the same float. -/
theorem ofNumeral?_eq_iff (hn : n.isInteger = true) (hm : m.isInteger = true)
    {value value' : Value} (hvalue : Value.ofNumeral? n = some value)
    (hvalue' : Value.ofNumeral? m = some value') :
    value = value' ↔
      n = m ∨ (¬ n.Fits ∧ ¬ m.Fits ∧ n.toBinary64? = m.toBinary64?) := by
  constructor
  · rintro rfl
    rcases cases_of_ofNumeral? hn hvalue with ⟨i, rfl, hi, hzero⟩ | ⟨x, rfl, hx, hfloat⟩
    · rcases cases_of_ofNumeral? hm hvalue' with ⟨j, heq, hj, hzero'⟩ | ⟨_, heq, _⟩
      · cases heq
        exact .inl (eq_of_spelled_eq hn hm hzero hzero' (hi.symm.trans hj))
      · cases heq
    · rcases cases_of_ofNumeral? hm hvalue' with ⟨_, heq, _⟩ | ⟨_, heq, hx', hfloat'⟩
      · cases heq
      · cases heq
        -- the rank of the one float says of both literals whether they are a negative zero
        rcases hfloat with hzero | hfits
        · have hrank := rank_eq_zero_of_isNegativeZero hn hzero hx
          rcases hfloat' with hzero' | hfits'
          · exact .inl (eq_of_isInteger hn hm (hzero.1.trans hzero'.1.symm)
              (hzero.2.trans hzero'.2.symm))
          · exact absurd hrank (rank_pos_of_not_fits hm hfits' hx').ne'
        · have hrank := rank_pos_of_not_fits hn hfits hx
          rcases hfloat' with hzero' | hfits'
          · exact absurd (rank_eq_zero_of_isNegativeZero hm hzero' hx') hrank.ne'
          · exact .inr ⟨hfits, hfits', hx.trans hx'.symm⟩
  · rintro (rfl | ⟨hfits, hfits', heq⟩)
    · rw [hvalue] at hvalue'
      exact Option.some.inj hvalue'
    · obtain ⟨x, rfl, hx⟩ := exists_float_of_not_fits hn hfits hvalue
      obtain ⟨x', rfl, hx'⟩ := exists_float_of_not_fits hm hfits' hvalue'
      rw [hx, hx'] at heq
      rw [Option.some.inj heq]

end Numeral

end Expunge
