import Expunge.Text.Blank

/-!
# Brackets in type definitions

Type definitions nest in angle brackets and in parentheses. The two sorts are counted together:
either one opens and either one closes. This module measures how deep a text ends and splits a
text at the commas outside all brackets.
-/

namespace Expunge.ColumnType

/-- Whether a character opens a bracket. -/
def opens (c : Char) : Bool :=
  c = '<' || c = '('

/-- Whether a character closes a bracket. -/
def closes (c : Char) : Bool :=
  c = '>' || c = ')'

/-- How many brackets are open after a text that starts inside `depth` of them; none if it closes
more than are open. -/
def depthAfter? : Nat → List Char → Option Nat
  | depth, [] => some depth
  | depth, c :: rest =>
    if opens c then depthAfter? (depth + 1) rest
    else if closes c then
      match depth with
      | 0 => none
      | depth + 1 => depthAfter? depth rest
    else depthAfter? depth rest

/-- Whether the brackets of a text close one another. -/
def isBalanced (text : List Char) : Bool :=
  depthAfter? 0 text = some 0

/-- Puts a character in front of the first piece. -/
def consFirst (c : Char) : List (List Char) → List (List Char)
  | [] => [[c]]
  | piece :: pieces => (c :: piece) :: pieces

/-- The pieces between the commas outside all brackets of a text that starts inside `depth` of
them; none unless the brackets close one another. -/
def piecesFrom? : Nat → List Char → Option (List (List Char))
  | depth, [] => if depth = 0 then some [[]] else none
  | depth, c :: rest =>
    if opens c then (piecesFrom? (depth + 1) rest).map (consFirst c)
    else if closes c then
      match depth with
      | 0 => none
      | depth + 1 => (piecesFrom? depth rest).map (consFirst c)
    else if c = ',' ∧ depth = 0 then (piecesFrom? 0 rest).map ([] :: ·)
    else (piecesFrom? depth rest).map (consFirst c)

/-- The pieces between the commas outside all brackets. Fails unless the brackets close one
another and no piece is blank. -/
def splitTopLevel? (body : List Char) : Option (List (List Char)) := do
  let pieces ← piecesFrom? 0 body
  guard !(pieces.any Text.isBlankText)
  return pieces

theorem length_le_of_mem_consFirst {c : Char} {pieces : List (List Char)} {piece : List Char}
    {n : Nat} (h : ∀ p ∈ pieces, p.length ≤ n) (hp : piece ∈ consFirst c pieces) :
    piece.length ≤ n + 1 := by
  cases pieces with
  | nil => simp only [consFirst, List.mem_singleton] at hp; subst hp; simp
  | cons first rest =>
    simp only [consFirst, List.mem_cons] at hp
    rcases hp with rfl | hp
    · have := h first (by simp); simp only [List.length_cons]; omega
    · have := h piece (by simp [hp]); omega

/-- No piece is longer than the text. -/
theorem length_le_of_mem_piecesFrom? {text : List Char} {depth : Nat} {pieces : List (List Char)}
    (h : piecesFrom? depth text = some pieces) : ∀ piece ∈ pieces, piece.length ≤ text.length := by
  induction text generalizing depth pieces with
  | nil =>
    simp only [piecesFrom?] at h
    split at h
    · cases h; simp
    · cases h
  | cons c rest ih =>
    have step : ∀ {depth' : Nat}, (piecesFrom? depth' rest).map (consFirst c) = some pieces →
        ∀ piece ∈ pieces, piece.length ≤ (c :: rest).length := by
      intro depth' h piece hp
      obtain ⟨inner, hi, rfl⟩ := Option.map_eq_some_iff.1 h
      exact length_le_of_mem_consFirst (ih hi) hp
    simp only [piecesFrom?] at h
    split at h
    · exact step h
    · split at h
      · split at h
        · cases h
        · exact step h
      · split at h
        · obtain ⟨inner, hi, rfl⟩ := Option.map_eq_some_iff.1 h
          intro piece hp
          rcases List.mem_cons.1 hp with rfl | hp
          · simp
          · have := ih hi piece hp; simp only [List.length_cons]; omega
        · exact step h

/-- No piece is longer than the body it is split off. -/
theorem length_le_of_mem_splitTopLevel? {body : List Char} {pieces : List (List Char)}
    (h : splitTopLevel? body = some pieces) : ∀ piece ∈ pieces, piece.length ≤ body.length := by
  rw [splitTopLevel?] at h
  obtain ⟨found, hf, h⟩ := Option.bind_eq_some_iff.1 h
  obtain ⟨_, _, h⟩ := Option.bind_eq_some_iff.1 h
  cases h
  exact length_le_of_mem_piecesFrom? hf

end Expunge.ColumnType
