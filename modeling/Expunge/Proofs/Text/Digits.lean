import Expunge.Proofs.Outcomes
import Expunge.Text.Decimal
import Mathlib.Data.List.Induction

/-!
# Numbers and their digits

A list of digits that does not start with a needless zero is the list of the digits of the number it
spells (`digits_ofDigits`). So a number is spelled in one way, and scaling it by a power of ten
appends zeros (`digits_mul_pow`).
-/

namespace Expunge

/-! ## Characters -/

/-- The character that a digit is read from is the one it is written as. -/
theorem Digit.toChar_of_ofChar? {c : Char} {d : Digit} (h : ofChar? c = some d) : d.toChar = c := by
  rw [ofChar?] at h
  split at h
  · next hbounds =>
    cases h
    rw [toChar, Nat.add_sub_cancel' hbounds.1]
    exact Char.ofNat_toNat c
  · cases h

theorem Digit.toChar_injective : Function.Injective toChar := by
  intro d e h
  have hread := congrArg ofChar? h
  rwa [ofChar?_toChar, ofChar?_toChar, Option.some.injEq] at hread

theorem Digit.isDigit_toChar (d : Digit) : d.toChar.isDigit = true := by
  revert d
  decide

theorem Digit.toChar_eq_digitChar (d : Digit) : d.toChar = Nat.digitChar d.val := by
  revert d
  decide

theorem Digit.toNat_toChar (d : Digit) : d.toChar.toNat = '0'.toNat + d.val := by
  revert d
  decide

/-- A character that is a digit is read as one. -/
theorem Digit.exists_toChar {c : Char} (h : c.isDigit = true) : ∃ d : Digit, d.toChar = c := by
  have hbounds : '0'.toNat ≤ c.toNat ∧ c.toNat ≤ '9'.toNat := by
    rw [Char.isDigit, Bool.and_eq_true, decide_eq_true_eq, decide_eq_true_eq] at h
    exact h
  have hnine : '9'.toNat = '0'.toNat + 9 := rfl
  exact ⟨_, Digit.toChar_of_ofChar? (dif_pos ⟨hbounds.1, by omega⟩)⟩

namespace Text

theorem ofDigitList_injective : Function.Injective ofDigitList :=
  List.map_injective_iff.2 Digit.toChar_injective

/-- Digits are read off the text that they are written as. -/
theorem ofDigitList_of_readDigits? {text : List Char} {ds : List Digit}
    (h : readDigits? text = some ds) : ofDigitList ds = text := by
  have hall := Outcome.mapM_eq_some_iff.1 h
  clear h
  induction hall with
  | nil => rfl
  | cons hd _ ih => exact List.cons_eq_cons.2 ⟨Digit.toChar_of_ofChar? hd, ih⟩

/-- The text of digits is read as these digits. -/
theorem readDigits?_ofDigitList (ds : List Digit) : readDigits? (ofDigitList ds) = some ds := by
  rw [readDigits?, Outcome.mapM_eq_some_iff, ofDigitList, List.forall₂_map_left_iff]
  exact List.forall₂_same.2 fun d _ => Digit.ofChar?_toChar d

/-- The text of digits ends where a character is no digit. -/
theorem takeWhile_ofDigitList_append (ds : List Digit) {rest : List Char}
    (h : ∀ c ∈ rest.head?, c.isDigit = false) :
    (ofDigitList ds ++ rest).takeWhile Char.isDigit = ofDigitList ds ∧
      (ofDigitList ds ++ rest).dropWhile Char.isDigit = rest := by
  have hall : ∀ c ∈ ofDigitList ds, c.isDigit = true := by
    intro c hc
    obtain ⟨d, _, rfl⟩ := List.mem_map.1 hc
    exact d.isDigit_toChar
  rw [List.takeWhile_append_of_pos hall, List.dropWhile_append_of_pos hall]
  cases rest with
  | nil => simp
  | cons c rest => simp [h c rfl]

/-! ## The digits of a number -/

/-- One more digit. -/
theorem digits_append_singleton {n : Nat} (h : 0 < n) (d : Digit) :
    digits (10 * n + d.val) = digits n ++ [d] := by
  have hd := d.isLt
  have hquot : (10 * n + d.val) / 10 = n := by omega
  have hrem : (10 * n + d.val) % 10 = d.val := by omega
  rw [digits, dif_neg (by omega), hquot]
  exact congrArg (digits n ++ [·]) (Fin.ext hrem)

/-- Digits without a needless zero in front are the digits of the number that they spell. -/
theorem digits_ofDigits {d : Digit} {ds : List Digit} (h : d.val ≠ 0 ∨ ds = []) :
    digits (ofDigits (d :: ds)) = d :: ds := by
  have hsingle : digits (ofDigits [d]) = [d] := by
    have hd := d.isLt
    simp [ofDigits, digits, hd]
  induction ds using List.reverseRecOn with
  | nil => exact hsingle
  | append_singleton ds e ih =>
    have hd : d.val ≠ 0 := h.resolve_right (by simp)
    have ih := ih (.inl hd)
    have hpos : 0 < ofDigits (d :: ds) := by
      rw [Nat.pos_iff_ne_zero]
      intro hzero
      rw [hzero, digits] at ih
      exact hd (congrArg Fin.val (List.cons_eq_cons.1 ih).1.symm)
    rw [← List.cons_append, ofDigits_append_singleton, digits_append_singleton hpos, ih]

/-- Zeros at the end scale the number that digits spell. -/
theorem ofDigits_append_zeros (ds : List Digit) (zeros : Nat) :
    ofDigits (ds ++ List.replicate zeros 0) = ofDigits ds * 10 ^ zeros := by
  induction zeros with
  | zero => simp
  | succ zeros ih =>
    rw [List.replicate_succ', ← List.append_assoc, ofDigits_append_singleton, ih, Nat.pow_succ,
      Fin.val_zero, Nat.add_zero, Nat.mul_left_comm, Nat.mul_comm 10]

/-- Scaling a number by a power of ten appends zeros to its digits. -/
theorem digits_mul_pow {n : Nat} (h : 0 < n) (zeros : Nat) :
    digits (n * 10 ^ zeros) = digits n ++ List.replicate zeros 0 := by
  induction zeros with
  | zero => simp
  | succ zeros ih =>
    have hpos : 0 < n * 10 ^ zeros := Nat.mul_pos h (Nat.pow_pos (by decide))
    rw [List.replicate_succ', ← List.append_assoc, ← ih, ← digits_append_singleton hpos 0,
      Nat.pow_succ, Fin.val_zero, Nat.add_zero, ← Nat.mul_assoc, Nat.mul_comm 10]

theorem digits_ne_nil (n : Nat) : digits n ≠ [] := by
  rw [digits]
  split <;> simp

/-- The number that digits spell when more digits follow them. -/
theorem ofDigits_append (ds es : List Digit) :
    ofDigits (ds ++ es) = ofDigits ds * 10 ^ es.length + ofDigits es := by
  induction es using List.reverseRecOn with
  | nil => simp [ofDigits]
  | append_singleton es e ih =>
    rw [← List.append_assoc, ofDigits_append_singleton, ih, ofDigits_append_singleton,
      List.length_append, List.length_singleton, Nat.pow_succ, ← Nat.mul_assoc]
    omega

/-- Zeros in front do not change the number that digits spell. -/
theorem ofDigits_zeros_append (zeros : Nat) (ds : List Digit) :
    ofDigits (List.replicate zeros 0 ++ ds) = ofDigits ds := by
  have hzeros : ofDigits (List.replicate zeros 0) = 0 := by
    simpa [ofDigits] using ofDigits_append_zeros [] zeros
  rw [ofDigits_append, hzeros, Nat.zero_mul, Nat.zero_add]

/-- No needless zero starts the digits of a number. -/
theorem head_digits {n : Nat} {d : Digit} {ds : List Digit} (h : digits n = d :: ds) :
    d.val ≠ 0 ∨ ds = [] := by
  induction n using Nat.strongRecOn generalizing d ds with
  | ind n ih =>
    rw [digits] at h
    split at h
    · exact .inr (List.cons_eq_cons.1 h).2.symm
    · next hn =>
      obtain ⟨e, es, hes⟩ := List.exists_cons_of_ne_nil (digits_ne_nil (n / 10))
      rw [hes, List.cons_append] at h
      obtain ⟨rfl, rfl⟩ := List.cons_eq_cons.1 h
      refine .inl fun hzero => ?_
      -- a zero in front would be all of the digits of a positive number
      obtain rfl := (ih (n / 10) (by omega) hes).resolve_left (not_not.2 hzero)
      have hspelled := ofDigits_digits (n / 10)
      rw [hes] at hspelled
      simp only [ofDigits, List.foldl_cons, List.foldl_nil] at hspelled
      omega

/-- The text of a natural number starts with a digit. -/
theorem exists_cons_ofNat (n : Nat) : ∃ c rest, ofNat n = c :: rest ∧ c.isDigit = true := by
  obtain ⟨d, ds, hdigits⟩ := List.exists_cons_of_ne_nil (digits_ne_nil n)
  refine ⟨d.toChar, ofDigitList ds, ?_, d.isDigit_toChar⟩
  rw [ofNat, hdigits]
  rfl

/-- The text of a natural number is the one of the standard library. -/
theorem ofNat_eq_toDigits (n : Nat) : ofNat n = Nat.toDigits 10 n := by
  induction n using Nat.strongRecOn with
  | ind n ih =>
    rw [ofNat, digits, Nat.toDigits_eq_if (by decide)]
    split
    · simp [ofDigitList, Digit.toChar_eq_digitChar]
    · next hn =>
      rw [← ih (n / 10) (by omega), ofNat, ofDigitList, ofDigitList, List.map_append,
        List.map_singleton, Digit.toChar_eq_digitChar]

/-- The text of an integer is the one of the standard library. -/
theorem ofInt_eq_toString (i : Int) : String.ofList (ofInt i) = toString i := by
  rw [Int.toString_eq_repr, Int.repr_eq_if, ofInt, ofNat_eq_toDigits]
  split
  · next hneg =>
    rw [if_neg (by omega), Nat.repr_eq_ofList_toDigits, show (-i).toNat = i.natAbs by omega]
    rw [← String.toList_inj]
    simp only [String.toList_append, String.toList_ofList]
    rfl
  · next hnonneg =>
    rw [if_pos (by omega), Nat.repr_eq_ofList_toDigits, show i.toNat = i.natAbs by omega]

/-- The text of a natural number is read as the number. -/
theorem readNat?_ofNat (n : Nat) : readNat? (ofNat n) = some n := by
  have hne : (ofNat n).isEmpty = false := by
    obtain ⟨c, rest, htext, _⟩ := exists_cons_ofNat n
    rw [htext]
    rfl
  rw [readNat?, hne, ofNat, readDigits?_ofDigitList]
  simp

end Text

/-! ## Reading numbers -/

namespace Text

/-- A text is made of digits if each of its characters is one. -/
theorem exists_ofDigitList {text : List Char} (h : ∀ c ∈ text, c.isDigit = true) :
    ∃ ds, ofDigitList ds = text := by
  induction text with
  | nil => exact ⟨[], rfl⟩
  | cons c text ih =>
    obtain ⟨hc, htext⟩ := List.forall_mem_cons.1 h
    obtain ⟨d, rfl⟩ := Digit.exists_toChar hc
    obtain ⟨ds, rfl⟩ := ih htext
    exact ⟨d :: ds, rfl⟩

/-- Digits spell the same number as their characters do. -/
theorem ofDigits_eq_ofDigitChars (ds : List Digit) :
    ofDigits ds = Nat.ofDigitChars 10 (ofDigitList ds) 0 := by
  simp only [ofDigits, Nat.ofDigitChars, ofDigitList, List.foldl_map, Digit.toNat_toChar,
    Nat.add_sub_cancel_left]

/-- A natural number is read from one or more digits, as the number that they spell. -/
theorem readNat?_eq_some_iff {text : List Char} {n : Nat} :
    readNat? text = some n ↔
      text ≠ [] ∧ (∀ c ∈ text, c.isDigit = true) ∧ n = Nat.ofDigitChars 10 text 0 := by
  constructor
  · intro h
    rw [readNat?] at h
    split at h
    · cases h
    · next hne =>
      obtain ⟨ds, hds, rfl⟩ := Option.map_eq_some_iff.1 h
      obtain rfl := ofDigitList_of_readDigits? hds
      refine ⟨by simpa using hne, ?_, ofDigits_eq_ofDigitChars ds⟩
      intro c hc
      obtain ⟨d, _, rfl⟩ := List.mem_map.1 hc
      exact d.isDigit_toChar
  · rintro ⟨hne, hdigits, rfl⟩
    obtain ⟨ds, rfl⟩ := exists_ofDigitList hdigits
    rw [readNat?, if_neg (by simpa using hne), readDigits?_ofDigitList, ← ofDigits_eq_ofDigitChars]
    rfl

/-- What may stand before the digits of a number of the given sign. -/
def signs : Bool → List (List Char)
  | true => [['-']]
  | false => [[], ['+']]

/-- What stands before the rest of a text is its sign. -/
theorem readSign_eq (text : List Char) :
    ∃ sign ∈ signs (readSign text).1, text = sign ++ (readSign text).2 := by
  rw [readSign.eq_def]
  split
  · exact ⟨['-'], by simp [signs], rfl⟩
  · exact ⟨['+'], by simp [signs], rfl⟩
  · exact ⟨[], by simp [signs], rfl⟩

/-- A sign before digits is split off. -/
theorem readSign_append {negative : Bool} {sign digits : List Char} (hsign : sign ∈ signs negative)
    (hne : digits ≠ []) (hdigits : ∀ c ∈ digits, c.isDigit = true) :
    readSign (sign ++ digits) = (negative, digits) := by
  cases negative with
  | true =>
    obtain rfl : sign = ['-'] := by simpa [signs] using hsign
    rfl
  | false =>
    obtain rfl | rfl : sign = [] ∨ sign = ['+'] := by simpa [signs] using hsign
    · obtain ⟨c, rest, rfl⟩ := List.exists_cons_of_ne_nil hne
      have hc := hdigits c List.mem_cons_self
      rw [List.nil_append, readSign.eq_def]
      split
      · next heq =>
        cases heq
        cases hc
      · next heq =>
        cases heq
        cases hc
      · rfl
    · rfl

/-- A text spells an integer in one or more digits with at most one sign before them. -/
def Spells (text : List Char) (n : Int) : Prop :=
  ∃ negative, ∃ sign ∈ signs negative, ∃ digits, text = sign ++ digits ∧ digits ≠ [] ∧
    (∀ c ∈ digits, c.isDigit = true) ∧ n = signed negative (Nat.ofDigitChars 10 digits 0)

/-- An integer is read from what spells it. -/
theorem readInt?_eq_some_iff {text : List Char} {n : Int} :
    readInt? text = some n ↔ Spells text n := by
  constructor
  · intro h
    rw [readInt?] at h
    obtain ⟨magnitude, hmagnitude, rfl⟩ := Option.map_eq_some_iff.1 h
    obtain ⟨hne, hdigits, rfl⟩ := readNat?_eq_some_iff.1 hmagnitude
    obtain ⟨sign, hsign, htext⟩ := readSign_eq text
    exact ⟨_, sign, hsign, _, htext, hne, hdigits, rfl⟩
  · rintro ⟨negative, sign, hsign, digits, rfl, hne, hdigits, rfl⟩
    rw [readInt?, readSign_append hsign hne hdigits]
    exact Option.map_eq_some_iff.2 ⟨_, readNat?_eq_some_iff.2 ⟨hne, hdigits, rfl⟩, rfl⟩

end Text

/-! ## Digits around a point -/

namespace Decimal

/-- What spells an integer is read as a decimal without a fraction. -/
theorem read?_append {negative : Bool} {sign digits : List Char}
    (hsign : sign ∈ Text.signs negative) (hne : digits ≠ [])
    (hdigits : ∀ c ∈ digits, c.isDigit = true) :
    read? (sign ++ digits) = some ⟨negative, Nat.ofDigitChars 10 digits 0, 0⟩ := by
  have hread := Text.readSign_append hsign hne hdigits
  obtain ⟨ds, rfl⟩ := Text.exists_ofDigitList hdigits
  have hspan : spanDigits (Text.ofDigitList ds) = (Text.ofDigitList ds, []) := by
    have hend : ∀ c ∈ ([] : List Char).head?, c.isDigit = false := by simp
    obtain ⟨htake, hdrop⟩ := Text.takeWhile_ofDigitList_append ds hend
    rw [List.append_nil] at htake hdrop
    rw [spanDigits, htake, hdrop]
  have hnonempty : (Text.ofDigitList ds).isEmpty = false := by simpa using hne
  rw [read?, hread]
  simp only [hspan, hnonempty, Bool.false_and, Bool.not_false, guard_true, Option.pure_def,
    Text.readDigits?_ofDigitList, Option.bind_eq_bind, Option.bind_some]
  have hparts : ofParts negative ds [] 0 = ⟨negative, Text.ofDigits ds, 0⟩ := by
    rw [ofParts, List.append_nil]
    rfl
  rw [← Text.ofDigits_eq_ofDigitChars, ← hparts]
  rfl

/-- Scaled down, digits have some of them after the point. -/
theorem layOut_negSucc_ne_nil {digits : List Digit} (h : digits ≠ []) (n : Nat) :
    (layOut digits (.negSucc n)).2 ≠ [] := by
  simp only [layOut]
  split
  · next hplaces =>
    rw [List.splitAt_eq, Ne, List.drop_eq_nil_iff]
    omega
  · exact List.append_ne_nil_of_right_ne_nil _ h

end Decimal

end Expunge
