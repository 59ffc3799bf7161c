import Expunge.Proofs.Binary64.Exact
import Expunge.Proofs.Column.Cast
import Expunge.Proofs.Json.Literal
import Expunge.Proofs.Text.Blank

/-!
# Exact integers

A column of integers is searched for the integer that a value denotes, and for nothing else: an
integer is not rounded, cut off or wrapped on the way (`castTo?_integral_exact`). What a value
denotes (`Value.Denotes`) is said of its bits or of its characters.
-/

namespace Expunge

/-- What spells an integer has no white space at its ends. -/
theorem Text.Spells.trim_eq {text : List Char} {n : Int} (h : Spells text n) :
    trim text = text := by
  obtain ⟨negative, sign, hsign, digits, rfl, hne, hdigits, _⟩ := h
  have hblank : ∀ c ∈ sign ++ digits, isBlank c = false := by
    intro c hc
    rcases List.mem_append.1 hc with hc | hc
    · have hsign : c = '-' ∨ c = '+' := by
        cases negative with
        | true =>
          obtain rfl : sign = ['-'] := by simpa [signs] using hsign
          exact .inl (List.mem_singleton.1 hc)
        | false =>
          obtain rfl | rfl : sign = [] ∨ sign = ['+'] := by simpa [signs] using hsign
          · cases hc
          · exact .inr (List.mem_singleton.1 hc)
      rcases hsign with rfl | rfl <;> decide
    · exact isBlank_eq_false_of_isAlphanum (by simp [Char.isAlphanum, hdigits c hc])
  refine trim_eq_self ?_ ?_
  · intro c hc
    exact hblank c (List.mem_of_mem_head? hc)
  · intro c hc
    exact hblank c (List.mem_of_mem_getLast? hc)

namespace Value

/-- A value denotes an integer of 64 bits: it is that integer; or a float whose pattern stands for
it; or a text that spells it with nothing but white space around. -/
inductive Denotes : Value → Int → Prop
  | integer {i : Int64} {n : Int} : i.toInt = n → Denotes (.integer i) n
  | float {bits : UInt64} {n : Int} : Binary64.decode? bits = some (n : ℚ) →
      -2 ^ 63 ≤ n → n < 2 ^ 63 → Denotes (.float (.ofBits bits)) n
  | text {text : String} {before spelled after : List Char} {n : Int} :
      text.toList = before ++ spelled ++ after → (∀ c ∈ before, Text.isBlank c = true) →
      (∀ c ∈ after, Text.isBlank c = true) → Text.Spells spelled n →
      -2 ^ 63 ≤ n → n < 2 ^ 63 → Denotes (.text text) n

theorem Denotes.exists_int64 {value : Value} {n : Int} (h : value.Denotes n) :
    ∃ i : Int64, i.toInt = n := by
  cases h with
  | integer h => exact ⟨_, h⟩
  | float _ hlow hhigh | text _ _ _ _ hlow hhigh =>
    exact ⟨Int64.ofInt n, Int64.toInt_ofInt_of_le hlow hhigh⟩

/-- A float is read as the integer that it is equal to. -/
theorem toInteger?_float_iff_toRat {x : Binary64} {i : Int64} :
    (float x).toInteger? = some i ↔ x.isFinite = true ∧ x.toRat = i.toInt := by
  rw [toInteger?, Option.bind_eq_some_iff]
  simp only [Text.int64?_eq_some_iff, Binary64.toInt?_eq_some_iff, exists_eq_right']

theorem toInteger?_float_eq_some_iff {x : Binary64} {i : Int64} :
    (float x).toInteger? = some i ↔ Denotes (.float x) i.toInt := by
  rw [toInteger?_float_iff_toRat]
  constructor
  · rintro ⟨hfinite, hequal⟩
    rw [← Binary64.ofBits_toBits x] at hfinite hequal ⊢
    refine .float ?_ (Int64.le_toInt i) (Int64.toInt_lt i)
    rw [Binary64.decode?_eq, if_pos hfinite, hequal]
  · generalize hvalue : Value.float x = value
    intro h
    cases h with
    | integer | text => cases hvalue
    | float hdecode =>
      cases hvalue
      rw [Binary64.decode?_eq] at hdecode
      split at hdecode
      · next hfinite => exact ⟨hfinite, Option.some.inj hdecode⟩
      · cases hdecode

theorem toInteger?_text_eq_some_iff {content : String} {i : Int64} :
    (text content).toInteger? = some i ↔ Denotes (.text content) i.toInt := by
  rw [toInteger?, Option.bind_eq_some_iff]
  simp only [Text.int64?_eq_some_iff, Text.readInt?_eq_some_iff]
  constructor
  · rintro ⟨n, hspells, rfl⟩
    obtain ⟨before, after, hbefore, hafter, heq⟩ := Text.eq_append_trim_append content.toList
    exact .text heq hbefore hafter hspells (Int64.le_toInt i) (Int64.toInt_lt i)
  · generalize hvalue : Value.text content = value
    intro h
    cases h with
    | integer | float => cases hvalue
    | text heq hbefore hafter hspells =>
      cases hvalue
      refine ⟨_, ?_, rfl⟩
      rw [heq, Text.trim_append_append hbefore hafter hspells.trim_eq]
      exact hspells

/-- A value is read as the integer that it denotes. -/
theorem toInteger?_eq_some_iff {value : Value} {i : Int64} :
    value.toInteger? = some i ↔ value.Denotes i.toInt := by
  cases value with
  | integer j =>
    rw [toInteger?, Option.some.injEq, ← Int64.toInt_inj]
    constructor
    · intro h
      exact .integer h
    · intro h
      cases h with
      | integer h => exact h
  | float x => exact toInteger?_float_eq_some_iff
  | text content => exact toInteger?_text_eq_some_iff

/-- A column of integers takes the values that denote an integer of 64 bits, each as this integer,
and no others. -/
theorem castTo?_integral_exact {kind : PrimitiveKind} (h : kind.isIntegral = true)
    (value : Value) :
    (∀ n : Int, (∃ i : Int64, i.toInt = n ∧ value.castTo? kind = some (.integer i)) ↔
      value.Denotes n) ∧
    (value.castTo? kind = none ↔ ∀ n, ¬ value.Denotes n) := by
  have hcast (i : Int64) :
      value.castTo? kind = some (.integer i) ↔ value.Denotes i.toInt := by
    rw [castTo?_integral h, ← toInteger?_eq_some_iff]
    simp
  refine ⟨?_, ?_⟩
  · intro n
    constructor
    · rintro ⟨i, rfl, hi⟩
      exact (hcast i).1 hi
    · intro hn
      obtain ⟨i, rfl⟩ := hn.exists_int64
      exact ⟨i, rfl, (hcast i).2 hn⟩
  · rw [castTo?_integral h, Option.map_eq_none_iff, Option.eq_none_iff_forall_ne_some]
    constructor
    · intro hnone n hn
      obtain ⟨i, rfl⟩ := hn.exists_int64
      exact hnone i (toInteger?_eq_some_iff.2 hn)
    · intro hnone i hi
      exact hnone _ (toInteger?_eq_some_iff.1 hi)

/-- The least integer as a text and as a float, and the integer after the greatest one. -/
theorem castTo?_integral_exact_bounds :
    PrimitiveKind.tinyint.isIntegral = true ∧
      Denotes (.text " -09223372036854775808\t") (-9223372036854775808) ∧
      (∀ n, ¬ Denotes (.text "+9223372036854775808") n) ∧
      Denotes (.float (.ofBits 0xC3E0000000000000)) (-9223372036854775808) ∧
      ∀ n, ¬ Denotes (.float (.ofBits 0x43E0000000000000)) n := by
  have hintegral : PrimitiveKind.tinyint.isIntegral = true := rfl
  refine ⟨hintegral, ?_, ?_, ?_, ?_⟩
  · exact ((castTo?_integral_exact hintegral _).1 _).1
      ⟨Int64.minValue, by decide, by decide +kernel⟩
  · exact (castTo?_integral_exact hintegral _).2.1 (by decide +kernel)
  · exact ((castTo?_integral_exact hintegral _).1 _).1
      ⟨Int64.minValue, by decide, by decide +kernel⟩
  · exact (castTo?_integral_exact hintegral _).2.1 (by decide +kernel)

end Value

end Expunge
