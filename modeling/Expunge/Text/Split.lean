/-!
# Splitting texts

A text as its pieces around the occurrences of a separator. There is always a piece
(`splitAll_ne_nil`), and the pieces with the separator between them are the text
(`intercalate_splitAll`).
-/

namespace Expunge.Text

/-- The pieces of a text between the occurrences of a separator. -/
def splitAll (separator : Char) : List Char → List (List Char)
  | [] => [[]]
  | c :: rest =>
    if c = separator then [] :: splitAll separator rest
    else match splitAll separator rest with
      | [] => [[c]]
      | piece :: pieces => (c :: piece) :: pieces

theorem splitAll_ne_nil (separator : Char) (text : List Char) : splitAll separator text ≠ [] := by
  cases text with
  | nil => simp [splitAll]
  | cons c rest =>
    simp only [splitAll]
    split
    · simp
    · split <;> simp

/-- Nothing of the text is lost. -/
theorem intercalate_splitAll (separator : Char) (text : List Char) :
    [separator].intercalate (splitAll separator text) = text := by
  induction text with
  | nil => rfl
  | cons c rest ih =>
    cases hs : splitAll separator rest with
    | nil => exact absurd hs (splitAll_ne_nil _ _)
    | cons piece pieces =>
      rw [hs] at ih
      by_cases h : c = separator
      · simp only [splitAll, h, if_pos, hs]
        conv => rhs; rw [← ih]
        simp [List.intercalate]
      · simp only [splitAll, h, if_false, hs]
        conv => rhs; rw [← ih]
        cases pieces <;> simp [List.intercalate]

end Expunge.Text
