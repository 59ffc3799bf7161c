import Expunge.Proofs.Binary64.Nearest
import Expunge.Proofs.Column.Integral

/-!
# Integers as values of columns

What an integer becomes in a column is decided by the shape of the column's type
(`Value.IsIntegerAs`): its decimal text, the integer itself, or the float nearest to it. Its decimal
text becomes the same in every column (`Column.cast_toString`). A cast of an integer never fails, so
the type of a column holds what it gives only where the type has the integer among its values
(`castTo?_integer_faithful_iff`): the narrower types of integers are not told from the widest, and
beyond `2 ^ 53` integers share a float.
-/

namespace Expunge

namespace Text

/-- The text of an integer is its sign and its digits. -/
theorem ofInt_eq_append (i : Int) :
    ∃ sign ∈ signs (decide (i < 0)), ofInt i = sign ++ Nat.toDigits 10 i.natAbs := by
  rw [ofInt, ofNat_eq_toDigits]
  by_cases h : i < 0
  · rw [if_pos h, decide_eq_true h]
    exact ⟨['-'], by simp [signs], rfl⟩
  · rw [if_neg h, decide_eq_false h]
    exact ⟨[], by simp [signs], rfl⟩

end Text

namespace Value

/-- An integer as a value of a shape: its decimal text, the integer, or the float nearest to it. -/
inductive IsIntegerAs (i : Int64) : Shape → Value → Prop
  | text : IsIntegerAs i .text (.text (toString i.toInt))
  | integer : IsIntegerAs i .integer (.integer i)
  | float {x : Binary64} : Binary64.IsNearest (i.toInt : ℚ) x → IsIntegerAs i .float (.float x)

/-- An integer is cast to what it is as a value of the shape that is asked for, and to nothing
else. -/
theorem castTo?_integer_eq_some_iff {i : Int64} {kind : PrimitiveKind} {typed : Value} :
    (integer i).castTo? kind = some typed ↔ IsIntegerAs i kind.shape typed := by
  rw [castTo?_eq]
  cases kind.shape with
  | text =>
    rw [toText, Text.ofInt_eq_toString, Option.some.injEq]
    constructor
    · rintro rfl
      exact .text
    · rintro ⟨⟩
      rfl
  | integer =>
    rw [toInteger?, Option.map_some, Option.some.injEq]
    constructor
    · rintro rfl
      exact .integer
    · rintro ⟨⟩
      rfl
  | float =>
    rw [toFloat?, Option.map_some, Option.some.injEq]
    constructor
    · rintro rfl
      exact .float (Binary64.isNearest_ofInt i)
    · intro h
      cases h with
      | float hnearest => rw [hnearest.unique (Binary64.isNearest_ofInt i)]

/-- The text of an integer is cast to what the integer is cast to. -/
theorem castTo?_toString (i : Int64) (kind : PrimitiveKind) :
    (text (toString i.toInt)).castTo? kind = (integer i).castTo? kind := by
  have hne : Nat.toDigits 10 i.toInt.natAbs ≠ [] := Nat.toDigits_ne_nil
  have hdigits : ∀ c ∈ Nat.toDigits 10 i.toInt.natAbs, c.isDigit = true := fun c hc =>
    Nat.isDigit_of_mem_toDigits (by decide) (by decide) hc
  obtain ⟨sign, hsign, htext⟩ := Text.ofInt_eq_append i.toInt
  have hspells : Text.Spells (Text.ofInt i.toInt) i.toInt := by
    refine ⟨_, sign, hsign, _, htext, hne, hdigits, ?_⟩
    rw [Nat.ofDigitChars_ten_toDigits, Binary64.signed_natAbs]
  have htrim : Text.trim (toString i.toInt).toList = Text.ofInt i.toInt := by
    rw [← Text.ofInt_eq_toString, String.toList_ofList, hspells.trim_eq]
  rw [castTo?_eq, castTo?_eq]
  cases kind.shape with
  | text => rw [toText, toText, Text.ofInt_eq_toString]
  | integer =>
    rw [toInteger?, toInteger?, htrim, Text.readInt?_eq_some_iff.2 hspells, Option.bind_some,
      Text.int64?_eq_some_iff.2 rfl]
  | float =>
    rw [toFloat?, toFloat?, htrim, htext, Decimal.read?_append hsign hne hdigits,
      Nat.ofDigitChars_ten_toDigits, Option.bind_some, Binary64.ofDecimal?]
    exact congrArg (Option.map _) (if_pos (Binary64.isFinite_ofInt i))

end Value

namespace Column

/-- An integer and its decimal text are the same value or the same error in every column: the text,
the integer, or the float nearest to it, as the type of the column asks. -/
theorem cast_toString (i : Int64) :
    (∀ path columns,
      cast (.text (toString i.toInt)) path columns = cast (.integer i) path columns) ∧
    ∀ kind typed, (Value.integer i).castTo? kind = some typed ↔
      Value.IsIntegerAs i kind.shape typed := by
  refine ⟨?_, fun kind typed => Value.castTo?_integer_eq_some_iff⟩
  intro path columns
  rw [cast, cast]
  simp only [Value.castTo?_toString, Value.toText, Text.ofInt_eq_toString]

end Column

/-! ## Integers that a type holds -/

/-- A type has an integer among its values. The types of integers have those of 8, 16, 32 or 64
bits, the types of floats those that a float is equal to, and every integer has a text. -/
def PrimitiveKind.Represents : PrimitiveKind → Int → Prop
  | tinyint, n => -2 ^ 7 ≤ n ∧ n < 2 ^ 7
  | smallint, n => -2 ^ 15 ≤ n ∧ n < 2 ^ 15
  | int, n => -2 ^ 31 ≤ n ∧ n < 2 ^ 31
  | bigint, n => -2 ^ 63 ≤ n ∧ n < 2 ^ 63
  | double, n | float, n => ∃ x : Binary64, x.isFinite = true ∧ x.toRat = n
  | char, _ | string, _ | varchar, _ => True

namespace PrimitiveKind

variable {kind : PrimitiveKind}

theorem shape_eq_text_iff : kind.shape = .text ↔ kind.isTextual = true := by
  cases kind <;> decide

theorem shape_eq_float_iff :
    kind.shape = .float ↔ kind.isTextual = false ∧ kind.isIntegral = false := by
  cases kind <;> decide

/-- A type of floats has the integers that a float is equal to. -/
theorem represents_iff_of_shape_float (h : kind.shape = .float) (i : Int64) :
    kind.Represents i.toInt ↔ (Binary64.ofInt i.toInt).toRat = i.toInt := by
  rw [← Binary64.exists_toRat_eq_iff]
  cases kind <;> first | exact Iff.rfl | cases h

end PrimitiveKind

/-- An integer is cast faithfully: to a value that denotes it and that the type has, or to none if
the type does not have it. -/
def PrimitiveKind.IsFaithfulTo (kind : PrimitiveKind) (i : Int64) : Prop :=
  (∀ typed, (Value.integer i).castTo? kind = some typed →
    typed.Denotes i.toInt ∧ kind.Represents i.toInt) ∧
  (¬ kind.Represents i.toInt → (Value.integer i).castTo? kind = none)

namespace Value

/-- A value denotes one integer at most. -/
theorem Denotes.unique {value : Value} {n m : Int} (h : value.Denotes n) (h' : value.Denotes m) :
    n = m := by
  obtain ⟨i, rfl⟩ := h.exists_int64
  obtain ⟨j, rfl⟩ := h'.exists_int64
  rw [← toInteger?_eq_some_iff] at h h'
  rw [h, Option.some.injEq] at h'
  rw [h']

theorem exists_castTo?_integer (i : Int64) (kind : PrimitiveKind) :
    ∃ typed, (integer i).castTo? kind = some typed := by
  rw [castTo?_eq]
  cases kind.shape with
  | text | integer | float => exact ⟨_, rfl⟩

section
variable {kind : PrimitiveKind} (h : kind.isTextual = false)
include h

/-- Where a type has an integer, what the integer is cast to denotes it. -/
theorem IsIntegerAs.denotes {i : Int64} {typed : Value} (htyped : IsIntegerAs i kind.shape typed)
    (hrepresents : kind.Represents i.toInt) : typed.Denotes i.toInt := by
  generalize hshape : kind.shape = shape at htyped
  cases htyped with
  | text =>
    rw [PrimitiveKind.shape_eq_text_iff, h] at hshape
    cases hshape
  | integer => exact .integer rfl
  | float hnearest =>
    rw [hnearest.unique (Binary64.isNearest_ofInt i), ← toInteger?_eq_some_iff,
      toInteger?_float_iff_toRat]
    exact ⟨Binary64.isFinite_ofInt i,
      (PrimitiveKind.represents_iff_of_shape_float hshape i).1 hrepresents⟩

/-- A cast of an integer is faithful exactly if the type has the integer. -/
theorem isFaithfulTo_iff {i : Int64} : kind.IsFaithfulTo i ↔ kind.Represents i.toInt := by
  constructor
  · intro hfaithful
    obtain ⟨typed, htyped⟩ := exists_castTo?_integer i kind
    exact (hfaithful.1 typed htyped).2
  · intro hrepresents
    refine ⟨fun typed htyped => ⟨?_, hrepresents⟩, fun hnot => absurd hrepresents hnot⟩
    exact (castTo?_integer_eq_some_iff.1 htyped).denotes h hrepresents

/-- Two integers are cast to the same value only if they are the same, or one float is the nearest
to both. -/
theorem castTo?_integer_eq_iff {i j : Int64} :
    (integer i).castTo? kind = (integer j).castTo? kind ↔ i = j ∨ kind.isIntegral = false ∧
      ∃ x, Binary64.IsNearest (i.toInt : ℚ) x ∧ Binary64.IsNearest (j.toInt : ℚ) x := by
  constructor
  · intro heq
    obtain ⟨typed, hi⟩ := exists_castTo?_integer i kind
    have hj := heq ▸ hi
    rw [castTo?_integer_eq_some_iff] at hi hj
    generalize hshape : kind.shape = shape at hi hj
    cases hi with
    | text =>
      rw [PrimitiveKind.shape_eq_text_iff, h] at hshape
      cases hshape
    | integer =>
      cases hj
      exact .inl rfl
    | float hnearest =>
      cases hj with
      | float hnearest' =>
        exact .inr ⟨(PrimitiveKind.shape_eq_float_iff.1 hshape).2, _, hnearest, hnearest'⟩
  · rintro (rfl | ⟨hintegral, x, hi, hj⟩)
    · rfl
    · have hshape : kind.shape = .float := PrimitiveKind.shape_eq_float_iff.2 ⟨h, hintegral⟩
      have hcast {i : Int64} (hi : Binary64.IsNearest (i.toInt : ℚ) x) :
          (integer i).castTo? kind = some (.float x) := by
        rw [castTo?_integer_eq_some_iff, hshape]
        exact .float hi
      rw [hcast hi, hcast hj]

/-- Every integer is cast to a column of numbers, as itself or as the nearest float. So a cast is
faithful exactly if the type of the column has the integer: for the types of integers if it is in
their range, and for those of floats if it has at most 53 significant bits. Two integers become the
same value if one float is the nearest to both, which is not so for two that the type has. -/
theorem castTo?_integer_faithful_iff :
    (∀ i : Int64, ∃ typed, (integer i).castTo? kind = some typed ∧
      IsIntegerAs i kind.shape typed) ∧
    (∀ i : Int64, kind.IsFaithfulTo i ↔ kind.Represents i.toInt) ∧
    (kind.isIntegral = false → ∀ i : Int64, kind.Represents i.toInt ↔
      ∃ significand exponent, i.toInt.natAbs = significand * 2 ^ exponent ∧
        significand < 2 ^ 53) ∧
    (∀ i j : Int64, (integer i).castTo? kind = (integer j).castTo? kind ↔
      i = j ∨ kind.isIntegral = false ∧
        ∃ x, Binary64.IsNearest (i.toInt : ℚ) x ∧ Binary64.IsNearest (j.toInt : ℚ) x) ∧
    ∀ i j : Int64, kind.Represents i.toInt → kind.Represents j.toInt →
      (integer i).castTo? kind = (integer j).castTo? kind → i = j := by
  refine ⟨?_, fun i => isFaithfulTo_iff h, ?_, fun i j => castTo?_integer_eq_iff h, ?_⟩
  · intro i
    obtain ⟨typed, htyped⟩ := exists_castTo?_integer i kind
    exact ⟨typed, htyped, castTo?_integer_eq_some_iff.1 htyped⟩
  · intro hintegral i
    rw [← Binary64.toRat_ofInt_iff]
    exact PrimitiveKind.represents_iff_of_shape_float
      (PrimitiveKind.shape_eq_float_iff.2 ⟨h, hintegral⟩) i
  · intro i j hi hj heq
    obtain ⟨typed, htyped⟩ := exists_castTo?_integer i kind
    have hi := (castTo?_integer_eq_some_iff.1 htyped).denotes h hi
    have hj := (castTo?_integer_eq_some_iff.1 (heq ▸ htyped)).denotes h hj
    exact Int64.toInt_inj.1 (hi.unique hj)

end

/-- Of `2 ^ 53` and the integer after it, a column of floats takes the first one faithfully. -/
theorem castTo?_integer_faithful_iff_neighbours :
    PrimitiveKind.double.isTextual = false ∧
      PrimitiveKind.double.IsFaithfulTo 9007199254740992 ∧
      ¬ PrimitiveKind.double.IsFaithfulTo 9007199254740993 := by
  have hdouble : PrimitiveKind.double.isTextual = false := rfl
  obtain ⟨_, hfaithful, hbits, _⟩ := castTo?_integer_faithful_iff hdouble
  refine ⟨hdouble, ?_, ?_⟩
  · rw [hfaithful, hbits rfl]
    exact ⟨1, 53, by decide, by decide⟩
  · rw [hfaithful, hbits rfl]
    rintro ⟨significand, exponent, habs, hlt⟩
    have hodd : Int64.toInt 9007199254740993 = 9007199254740993 := by decide
    rw [hodd] at habs
    cases exponent with
    | zero => omega
    | succ exponent =>
      rw [Nat.pow_succ, ← Nat.mul_assoc] at habs
      omega

/-- A column of the narrowest integers takes an integer of more than 8 bits, and in a column of
floats an integer that no float is equal to is the same value as the integer before it. -/
theorem integers_cast_unfaithfully :
    (integer 300).castTo? .tinyint = some (.integer 300) ∧
      ¬ PrimitiveKind.tinyint.Represents (Int64.toInt 300) ∧
      (integer 9007199254740992).castTo? .double = (integer 9007199254740993).castTo? .double ∧
      (integer 9007199254740992).castTo? .float = (integer 9007199254740993).castTo? .float := by
  refine ⟨rfl, ?_, by decide +kernel, by decide +kernel⟩
  rintro ⟨_, hlt⟩
  exact absurd hlt (by decide)

end Value

end Expunge
