import Expunge.ColumnType.Brackets
import Mathlib.Data.List.Basic
import Mathlib.Data.Option.Basic

/-!
# Pieces between commas

A text is cut into the pieces between its outer commas exactly if the pieces with commas between
them are the text, and each of them closes its brackets and has no outer comma
(`piecesFrom?_eq_some_iff`). A part that stands between brackets may hold any commas
(`pieceDepth?_succ`).
-/

namespace Expunge.ColumnType

/-! ## The depth of a piece -/

/-- How many brackets are open after a character that comes inside `depth` of them. -/
def stepDepth? (depth : Nat) (c : Char) : Option Nat :=
  if opens c then some (depth + 1)
  else if closes c then
    match depth with
    | 0 => none
    | depth + 1 => some depth
  else some depth

/-- As `stepDepth?`, but a comma outside all brackets is refused. -/
def pieceStep? (depth : Nat) (c : Char) : Option Nat :=
  if c = ',' ∧ depth = 0 then none else stepDepth? depth c

/-- How many brackets are open after a piece that starts inside `depth` of them; none if it closes
more than are open or has a comma outside all brackets. -/
def pieceDepth? (depth : Nat) (text : List Char) : Option Nat :=
  text.foldlM pieceStep? depth

/-- A text that may stand between two commas: its brackets close one another and it has no comma
outside them. -/
def IsPiece (text : List Char) : Prop :=
  pieceDepth? 0 text = some 0

/-- A character that is no bracket and no comma. -/
def IsPlain (c : Char) : Prop :=
  opens c = false ∧ closes c = false ∧ c ≠ ','

/-- The depth of a text is found character by character. -/
theorem depthAfter?_eq_foldlM (depth : Nat) (text : List Char) :
    depthAfter? depth text = text.foldlM stepDepth? depth := by
  induction text generalizing depth with
  | nil => rfl
  | cons c rest ih =>
    rw [List.foldlM_cons, depthAfter?.eq_def, stepDepth?.eq_def]
    simp only [ih]
    split
    · rfl
    · split
      · cases depth <;> rfl
      · rfl

/-- Where every step of one pass is one of another, whole passes are. -/
theorem foldlM_eq_some_of_step {α σ : Type} {f g : σ → α → Option σ} (φ : σ → σ)
    (hstep : ∀ state x next, f state x = some next → g (φ state) x = some (φ next))
    {xs : List α} {state final : σ} (h : xs.foldlM f state = some final) :
    xs.foldlM g (φ state) = some (φ final) := by
  induction xs generalizing state with
  | nil =>
    cases h
    rfl
  | cons x xs ih =>
    rw [List.foldlM_cons, Option.bind_eq_bind, Option.bind_eq_some_iff] at h ⊢
    obtain ⟨next, hnext, h⟩ := h
    exact ⟨φ next, hstep state x next hnext, ih h⟩

/-- A text that goes on is as deep as its second part after its first one. -/
theorem pieceDepth?_append {depth middle : Nat} {first : List Char}
    (h : pieceDepth? depth first = some middle) (second : List Char) :
    pieceDepth? depth (first ++ second) = pieceDepth? middle second := by
  rw [pieceDepth?] at h
  rw [pieceDepth?, List.foldlM_append, h]
  rfl

theorem depthAfter?_append {depth middle : Nat} {first : List Char}
    (h : depthAfter? depth first = some middle) (second : List Char) :
    depthAfter? depth (first ++ second) = depthAfter? middle second := by
  rw [depthAfter?_eq_foldlM] at h
  rw [depthAfter?_eq_foldlM, depthAfter?_eq_foldlM, List.foldlM_append, h]
  rfl

/-- Inside a bracket commas do not matter. -/
theorem pieceDepth?_succ {depth final : Nat} {text : List Char}
    (h : depthAfter? depth text = some final) :
    pieceDepth? (depth + 1) text = some (final + 1) := by
  rw [depthAfter?_eq_foldlM] at h
  refine foldlM_eq_some_of_step (· + 1) ?_ h
  intro depth c next h
  rw [pieceStep?, if_neg (by simp)]
  rw [stepDepth?.eq_def] at h ⊢
  split at h
  · next hopens =>
    cases h
    rw [if_pos hopens]
  · next hopens =>
    rw [if_neg hopens]
    split at h
    · next hcloses =>
      rw [if_pos hcloses]
      cases depth <;> cases h
      rfl
    · next hcloses =>
      cases h
      rw [if_neg hcloses]

/-- A piece is as deep as any text. -/
theorem depthAfter?_of_pieceDepth? {depth final : Nat} {text : List Char}
    (h : pieceDepth? depth text = some final) : depthAfter? depth text = some final := by
  rw [depthAfter?_eq_foldlM]
  refine foldlM_eq_some_of_step id ?_ h
  intro depth c next h
  rw [pieceStep?] at h
  split at h
  · cases h
  · exact h

/-- Plain characters keep the depth. -/
theorem pieceDepth?_of_isPlain {text : List Char} (h : ∀ c ∈ text, IsPlain c) (depth : Nat) :
    pieceDepth? depth text = some depth := by
  induction text with
  | nil => rfl
  | cons c rest ih =>
    obtain ⟨hopens, hcloses, hcomma⟩ := h c List.mem_cons_self
    have hstep : pieceStep? depth c = some depth := by
      simp [pieceStep?, stepDepth?, hopens, hcloses, hcomma]
    rw [pieceDepth?, List.foldlM_cons, hstep]
    exact ih fun d hd => h d (List.mem_cons_of_mem _ hd)

/-- Characters that are no brackets keep the depth of a text. -/
theorem depthAfter?_of_no_bracket {text : List Char}
    (h : ∀ c ∈ text, opens c = false ∧ closes c = false) (depth : Nat) :
    depthAfter? depth text = some depth := by
  induction text with
  | nil => rfl
  | cons c rest ih =>
    obtain ⟨⟨hopens, hcloses⟩, hrest⟩ := List.forall_mem_cons.1 h
    rw [depthAfter?.eq_def]
    simp only [hopens, hcloses]
    exact ih hrest

theorem IsPiece.append {first second : List Char} (hfirst : IsPiece first)
    (hsecond : IsPiece second) : IsPiece (first ++ second) := by
  rw [IsPiece, pieceDepth?_append hfirst]
  exact hsecond

/-- A text whose brackets close one another is a piece between two brackets. -/
theorem isPiece_enclosed {text : List Char} (opening closing : Char)
    (hopening : opens opening = true) (hclosing : closes closing = true)
    (hother : opens closing = false) (h : depthAfter? 0 text = some 0) :
    IsPiece (opening :: text ++ [closing]) := by
  have hfirst : pieceDepth? 0 [opening] = some 1 := by
    have hcomma : opening ≠ ',' := by
      rintro rfl
      cases hopening
    simp [pieceDepth?, pieceStep?, stepDepth?, hopening, hcomma]
  have hlast : pieceDepth? 1 [closing] = some 0 := by
    simp [pieceDepth?, pieceStep?, stepDepth?, hclosing, hother]
  have hbody := pieceDepth?_append (pieceDepth?_append hfirst text ▸ pieceDepth?_succ h) [closing]
  exact hbody.trans hlast

/-- A piece has no comma before its first bracket. -/
theorem IsPiece.not_mem_comma {first second : List Char} (h : IsPiece (first ++ second))
    (hbracket : ∀ c ∈ first, opens c = false ∧ closes c = false) : ',' ∉ first := by
  induction first with
  | nil => exact List.not_mem_nil
  | cons c first ih =>
    obtain ⟨⟨hopens, hcloses⟩, hfirst⟩ := List.forall_mem_cons.1 hbracket
    rw [IsPiece, pieceDepth?, List.cons_append, List.foldlM_cons] at h
    by_cases hcomma : c = ','
    · rw [pieceStep?, if_pos ⟨hcomma, rfl⟩] at h
      cases h
    · have hstep : pieceStep? 0 c = some 0 := by
        simp [pieceStep?, stepDepth?, hopens, hcloses, hcomma]
      rw [hstep] at h
      rw [List.mem_cons, not_or]
      exact ⟨Ne.symm hcomma, ih h hfirst⟩

/-! ## Cutting -/

/-- A text is cut at a comma outside all brackets, and nowhere else. -/
theorem piecesFrom?_cons (depth : Nat) (c : Char) (rest : List Char) :
    piecesFrom? depth (c :: rest) =
      if c = ',' ∧ depth = 0 then (piecesFrom? 0 rest).map ([] :: ·)
      else (stepDepth? depth c).bind fun next => (piecesFrom? next rest).map (consFirst c) := by
  rw [piecesFrom?.eq_def, stepDepth?.eq_def]
  by_cases hcomma : c = ',' ∧ depth = 0
  · obtain ⟨rfl, rfl⟩ := hcomma
    rfl
  · simp only [hcomma, if_false]
    split
    · rfl
    · split
      · cases depth <;> rfl
      · rfl

/-- A text is cut into pieces exactly if they make up the text with commas between them, and each of
them is a piece; the first one may start inside brackets. -/
theorem piecesFrom?_eq_some_iff {depth : Nat} {text : List Char} {pieces : List (List Char)} :
    piecesFrom? depth text = some pieces ↔
      ∃ first rest, pieces = first :: rest ∧ text = [','].intercalate pieces ∧
        pieceDepth? depth first = some 0 ∧ ∀ piece ∈ rest, IsPiece piece := by
  induction text generalizing depth pieces with
  | nil =>
    rw [piecesFrom?]
    constructor
    · intro h
      split at h
      · next hdepth =>
        cases h
        exact ⟨[], [], rfl, rfl, congrArg some hdepth, by simp⟩
      · cases h
    · rintro ⟨first, rest, rfl, htext, hfirst, _⟩
      cases rest with
      | nil =>
        rw [List.intercalate_singleton] at htext
        subst htext
        rw [if_pos (Option.some.inj hfirst)]
      | cons second rest =>
        rw [List.intercalate_cons_cons] at htext
        simp at htext
  | cons c text ih =>
    rw [piecesFrom?_cons]
    by_cases hcomma : c = ',' ∧ depth = 0
    · rw [if_pos hcomma]
      obtain ⟨rfl, rfl⟩ := hcomma
      constructor
      · intro h
        obtain ⟨pieces, hpieces, rfl⟩ := Option.map_eq_some_iff.1 h
        obtain ⟨first, rest, rfl, rfl, hfirst, hrest⟩ := ih.1 hpieces
        refine ⟨[], first :: rest, rfl, rfl, rfl, ?_⟩
        exact List.forall_mem_cons.2 ⟨hfirst, hrest⟩
      · rintro ⟨first, rest, rfl, htext, hfirst, hrest⟩
        cases first with
        | nil =>
          cases rest with
          | nil => simp at htext
          | cons second rest =>
            obtain ⟨hsecond, hrest⟩ := List.forall_mem_cons.1 hrest
            have htext : text = [','].intercalate (second :: rest) := by simpa using htext
            rw [ih.2 ⟨second, rest, rfl, htext, hsecond, hrest⟩]
            rfl
        | cons d first =>
          rw [List.intercalate_cons_cons_left] at htext
          cases htext
          cases hfirst
    · rw [if_neg hcomma, Option.bind_eq_some_iff]
      constructor
      · rintro ⟨next, hnext, h⟩
        obtain ⟨pieces, hpieces, rfl⟩ := Option.map_eq_some_iff.1 h
        obtain ⟨first, rest, rfl, rfl, hfirst, hrest⟩ := ih.1 hpieces
        refine ⟨c :: first, rest, rfl, List.intercalate_cons_cons_left.symm, ?_, hrest⟩
        rw [pieceDepth?, List.foldlM_cons, pieceStep?, if_neg hcomma, hnext]
        exact hfirst
      · rintro ⟨first, rest, rfl, htext, hfirst, hrest⟩
        cases first with
        | nil =>
          cases rest with
          | nil => simp at htext
          | cons second rest =>
            rw [List.intercalate_cons_cons] at htext
            cases htext
            cases hfirst
            exact absurd ⟨rfl, rfl⟩ hcomma
        | cons d first =>
          rw [List.intercalate_cons_cons_left] at htext
          cases htext
          rw [pieceDepth?, List.foldlM_cons, pieceStep?, if_neg hcomma, Option.bind_eq_bind,
            Option.bind_eq_some_iff] at hfirst
          obtain ⟨next, hnext, hfirst⟩ := hfirst
          refine ⟨next, hnext, ?_⟩
          rw [ih.2 ⟨first, rest, rfl, rfl, hfirst, hrest⟩]
          rfl

/-- A text has its outer commas between pieces that are not blank, exactly if it is cut into them.
-/
theorem splitTopLevel?_eq_some_iff {body : List Char} {pieces : List (List Char)} :
    splitTopLevel? body = some pieces ↔
      pieces ≠ [] ∧ body = [','].intercalate pieces ∧
        ∀ piece ∈ pieces, IsPiece piece ∧ Text.isBlankText piece = false := by
  simp only [splitTopLevel?, Option.bind_eq_bind, Option.bind_eq_some_iff, Option.guard_eq_some',
    exists_const, Option.pure_def, Option.some.injEq, Bool.not_eq_true', List.any_eq_false,
    Bool.not_eq_true]
  constructor
  · rintro ⟨_, hpieces, hblank, rfl⟩
    obtain ⟨first, rest, rfl, hbody, hfirst, hrest⟩ := piecesFrom?_eq_some_iff.1 hpieces
    have hall : ∀ piece ∈ first :: rest, IsPiece piece := List.forall_mem_cons.2 ⟨hfirst, hrest⟩
    refine ⟨List.cons_ne_nil _ _, hbody, fun piece hpiece => ?_⟩
    exact ⟨hall piece hpiece, hblank piece hpiece⟩
  · rintro ⟨hne, hbody, hall⟩
    obtain ⟨first, rest, rfl⟩ := List.exists_cons_of_ne_nil hne
    refine ⟨_, piecesFrom?_eq_some_iff.2 ⟨first, rest, rfl, hbody, ?_, ?_⟩, ?_, rfl⟩
    · exact (hall first List.mem_cons_self).1
    · intro piece hpiece
      exact (hall piece (List.mem_cons_of_mem _ hpiece)).1
    · intro piece hpiece
      exact (hall piece hpiece).2

/-- Pieces with commas between them close their brackets together. -/
theorem depthAfter?_intercalate {pieces : List (List Char)} (h : ∀ piece ∈ pieces, IsPiece piece) :
    depthAfter? 0 ([','].intercalate pieces) = some 0 := by
  induction pieces with
  | nil => rfl
  | cons first rest ih =>
    obtain ⟨hfirst, hrest⟩ := List.forall_mem_cons.1 h
    have hfirst := depthAfter?_of_pieceDepth? hfirst
    cases rest with
    | nil =>
      rw [List.intercalate_singleton]
      exact hfirst
    | cons second rest =>
      rw [List.intercalate_cons_cons, List.append_assoc, depthAfter?_append hfirst,
        depthAfter?_append (show depthAfter? 0 [','] = some 0 by decide)]
      exact ih hrest

end Expunge.ColumnType
