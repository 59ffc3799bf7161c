import Expunge.Proofs.Column.Cast
import Expunge.Proofs.Json.Literal
import Expunge.Proofs.Match.Site

/-!
# Integer literals in entries

What becomes of a JSON literal that spells an integer when it stands in an entry of a queue and is
compiled against a column. A literal in the range of the 64-bit integers keeps its text and its
integer and is a value of its own. Past that range a literal is read as a float, and
`literal_compiles` says exactly how much of it is left: its text only if the float is written with
the same digits, an integer of its own never (those just below the range become its least integer),
and literals are one match if their floats are one.
-/

namespace Expunge

/-- The float of an integer is that of its numeral. -/
theorem Numeral.toBinary64?_eq_ofInt {n : Numeral} (h : n.isInteger = true) {i : Int64}
    (hi : i.toInt = n.spelled) (hzero : ¬ n.IsNegativeZero) :
    n.toBinary64? = some (.ofInt i.toInt) := by
  have hlow := Int64.le_toInt i
  have hhigh := Int64.toInt_lt i
  have hsign : n.negative = decide (i.toInt < 0) ∧ n.whole = i.toInt.natAbs := by
    rw [IsNegativeZero] at hzero
    rw [hi, spelled, Text.signed]
    cases hnegative : n.negative with
    | true =>
      have hwhole : n.whole ≠ 0 := fun hwhole => hzero ⟨hnegative, hwhole⟩
      rw [if_pos rfl]
      exact ⟨(decide_eq_true (by omega)).symm, by omega⟩
    | false =>
      rw [if_neg Bool.false_ne_true]
      exact ⟨(decide_eq_false (by omega)).symm, by omega⟩
  obtain ⟨hnegative, hwhole⟩ := hsign
  rw [toBinary64?_of_lt h (by omega), hnegative, hwhole]
  rfl

/-- What the value of a literal is cast to, for a path and the kind that it resolves to: to a text,
which is the literal only if the literal fits or is written back; to the integer that the literal
spells and to no other, except for literals that are rounded up to the least one; or to the float of
the literal. -/
structure LiteralCasts (word : List Char) (n : Numeral) (value : Value) (columns : List Column)
    (path : String) (kind : PrimitiveKind) : Prop where
  textual : kind.isTextual = true →
    ∃ text, Column.cast value path columns = .ok (.text text) ∧
      (text = String.ofList word ↔ n.Fits ∨ n.IsWrittenBack)
  integral : kind.isIntegral = true → ∀ typed, Column.cast value path columns = .ok typed ↔
    ∃ i : Int64, typed = .integer i ∧
      (i.toInt = n.spelled ∨ (i = Int64.minValue ∧ n.IsRoundedUp))
  floating : kind.isTextual = false → kind.isIntegral = false →
    ∃ x, n.toBinary64? = some x ∧ Column.cast value path columns = .ok (.float x)

/-- The value of a literal is cast as the text, the integer or the float of the literal. -/
theorem literalCasts_of_ofNumeral? {word : List Char} {n : Numeral} {value : Value}
    (hword : IsIntegerLiteral word n) (hvalue : Value.ofNumeral? n = some value)
    {columns : List Column} {path : String} {kind : PrimitiveKind}
    (hkind : Column.resolve columns path = .ok kind) :
    LiteralCasts word n value columns path kind := by
  have hcast {typed : Value} :
      Column.cast value path columns = .ok typed ↔ value.castTo? kind = some typed := by
    rw [Column.cast_eq_ok_iff, hkind]
    simp
  refine ⟨?_, ?_, ?_⟩
  · intro htextual
    exact ⟨value.toText, hcast.2 (Value.castTo?_textual htextual),
      Numeral.toText_eq_iff hword hvalue⟩
  · intro hintegral typed
    rw [hcast, Value.castTo?_integral hintegral, Option.map_eq_some_iff]
    refine exists_congr fun i => ?_
    rw [Numeral.toInteger?_eq_some_iff hword.isInteger hvalue, and_comm, eq_comm]
  · intro htextual hintegral
    rcases Numeral.cases_of_ofNumeral? hword.isInteger hvalue with
      ⟨i, rfl, hi, hzero⟩ | ⟨x, rfl, hx, _⟩
    · refine ⟨_, Numeral.toBinary64?_eq_ofInt hword.isInteger hi hzero, hcast.2 ?_⟩
      exact Value.castTo?_floating htextual hintegral
    · exact ⟨x, hx, hcast.2 (Value.castTo?_floating htextual hintegral)⟩

namespace Match

/-- An entry with a literal is read as a match with the literal's value at the literal's place. The
value is cast as `LiteralCasts` says, and the entry with another literal is read as the same match
only if the literals are the same, or none of them fits and they are read as the same float. -/
theorem literal_compiles {site : Json → Json} {room : Nat} {word : List Char} {n : Numeral}
    {request : Match} (hsite : IsSite site) (hword : IsIntegerLiteral word n)
    (hdecode : decode room (site (.number n)) = .ok request) :
    ∃ place value, IsPlace place ∧ request = place value ∧
      (∀ columns path kind, Column.resolve columns path = .ok kind →
        LiteralCasts word n value columns path kind) ∧
      ∀ word' n' request', IsIntegerLiteral word' n' →
        decode room (site (.number n')) = .ok request' →
        (request = request' ↔
          word = word' ∨ (¬ n.Fits ∧ ¬ n'.Fits ∧ n.toBinary64? = n'.toBinary64?)) := by
  obtain ⟨place, hplace, hread⟩ := exists_place hsite room
  obtain ⟨value, hvalue, rfl⟩ := hread n request hdecode
  refine ⟨place, value, hplace, rfl, ?_, ?_⟩
  · intro columns path kind hkind
    exact literalCasts_of_ofNumeral? hword hvalue hkind
  · intro word' n' request' hword' hdecode'
    obtain ⟨value', hvalue', rfl⟩ := hread n' request' hdecode'
    rw [hplace.injective.eq_iff, hword.word_eq_iff hword',
      Numeral.ofNumeral?_eq_iff hword.isInteger hword'.isInteger hvalue hvalue']

/-! Literals just past the range of the 64-bit integers. -/

namespace PastRange

/-- An entry whose identifier is a numeral. -/
def entry (value : Json) : Json :=
  .object [(some "match_id", value)]

/-- The numeral of an integer with the given sign. -/
def numeral (negative : Bool) (whole : Nat) : Numeral :=
  ⟨negative, whole, [], none⟩

/-- The match with `2 ^ 63`, or its opposite, as its value. -/
def request (negative : Bool) : Match :=
  .simple (.float (.ofRank negative Binary64.limitRank)) []

theorem isIntegerLiteral :
    IsIntegerLiteral ("9223372036854775809".toList) (numeral false 9223372036854775809) :=
  ⟨by decide +kernel, rfl⟩

theorem decode_entry :
    decode Json.depthLimit (entry (.number (numeral false 9223372036854775809))) =
      .ok (request false) := by
  decide +kernel

end PastRange

theorem literal_compiles_pastRange :
    IsIntegerLiteral ("9223372036854775809".toList) (PastRange.numeral false 9223372036854775809) ∧
      decode Json.depthLimit
        (PastRange.entry (.number (PastRange.numeral false 9223372036854775809))) =
          .ok (PastRange.request false) ∧
      ∃ place value, IsPlace place ∧ PastRange.request false = place value ∧
        (∀ columns path kind, Column.resolve columns path = .ok kind →
          LiteralCasts ("9223372036854775809".toList)
            (PastRange.numeral false 9223372036854775809) value columns path kind) ∧
        ∀ word' n' request', IsIntegerLiteral word' n' →
          decode Json.depthLimit (PastRange.entry (.number n')) = .ok request' →
          (PastRange.request false = request' ↔ "9223372036854775809".toList = word' ∨
            (¬ (PastRange.numeral false 9223372036854775809).Fits ∧ ¬ n'.Fits ∧
              (PastRange.numeral false 9223372036854775809).toBinary64? = n'.toBinary64?)) :=
  ⟨PastRange.isIntegerLiteral, PastRange.decode_entry,
    literal_compiles (.simple (.member [] [])) PastRange.isIntegerLiteral PastRange.decode_entry⟩

/-- Two literals past the range are one match, which is not cast to the text of the first one; and a
literal below the range is cast to the least integer. -/
theorem literal_changed_pastRange :
    decode Json.depthLimit
        (PastRange.entry (.number (PastRange.numeral false 9223372036854775809))) =
          .ok (PastRange.request false) ∧
      decode Json.depthLimit
        (PastRange.entry (.number (PastRange.numeral false 9223372036854775810))) =
          .ok (PastRange.request false) ∧
      Column.cast (.float (.ofRank false Binary64.limitRank)) "id" [⟨"id", "string"⟩] =
        .ok (.text "9223372036854776000") ∧
      decode Json.depthLimit
        (PastRange.entry (.number (PastRange.numeral true 9223372036854775809))) =
          .ok (PastRange.request true) ∧
      Column.cast (.float (.ofRank true Binary64.limitRank)) "id" [⟨"id", "bigint"⟩] =
        .ok (.integer Int64.minValue) := by
  refine ⟨PastRange.decode_entry, by decide +kernel, ?_, by decide +kernel, ?_⟩
  · exact Column.cast_eq_ok_iff.2 ⟨.string, by decide +kernel, by decide +kernel⟩
  · exact Column.cast_eq_ok_iff.2 ⟨.bigint, by decide +kernel, by decide +kernel⟩

end Match

end Expunge
