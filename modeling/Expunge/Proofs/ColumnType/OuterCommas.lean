import Expunge.Proofs.ColumnType.Parser

/-!
# Commas outside all brackets

Where brackets close one another is said by their numbers (`IsBalancedText`), and a comma is an
outer one if as many brackets are opened as closed before it (`isOuterComma`). The scan of a generic
type's body and the split at commas measure the same depth (`depthAfter?_eq_some_iff`): a text is
cut at its outer commas exactly if its brackets close one another (`piecesFrom?_eq`). Main result:
`splits_at_outer_commas`.
-/

namespace Expunge.ColumnType

/-- A text whose brackets close one another: no start of it closes more brackets than it opens, and
the whole text closes as many as it opens. -/
structure IsBalancedText (text : List Char) : Prop where
  le : ∀ front, front <+: text → front.countP closes ≤ front.countP opens
  eq : text.countP closes = text.countP opens

/-- The characters of a text, each with all that stands before it. -/
def placesAfter (before : List Char) : List Char → List (List Char × Char)
  | [] => []
  | c :: rest => (before, c) :: placesAfter (before ++ [c]) rest

/-- Whether a comma stands at a place outside all brackets. -/
def isOuterComma (place : List Char × Char) : Bool :=
  place.2 = ',' && place.1.countP opens = place.1.countP closes

/-- The pieces between the outer commas of a text that comes after another one. -/
def outerPiecesAfter (before text : List Char) : List (List Char) :=
  ((placesAfter before text).splitOnP isOuterComma).map (·.map Prod.snd)

/-- The pieces between the outer commas of a text. -/
def outerPieces (text : List Char) : List (List Char) :=
  outerPiecesAfter [] text

/-! ## Depths and numbers of brackets -/

theorem closes_eq_false_of_opens {c : Char} (h : opens c = true) : closes c = false := by
  rw [opens, Bool.or_eq_true, decide_eq_true_eq, decide_eq_true_eq] at h
  rcases h with rfl | rfl <;> rfl

/-- A character changes the depth by the brackets that it is. -/
theorem stepDepth?_eq_some_iff {depth next : Nat} {c : Char} :
    stepDepth? depth c = some next ↔
      next + [c].countP closes = depth + [c].countP opens := by
  rw [stepDepth?.eq_def, List.countP_singleton, List.countP_singleton]
  split
  · next hopens =>
    rw [closes_eq_false_of_opens hopens]
    simp [eq_comm]
  · split
    · cases depth <;> simp [eq_comm]
    · simp [eq_comm]

theorem depthAfter?_cons (depth : Nat) (c : Char) (rest : List Char) :
    depthAfter? depth (c :: rest) = (stepDepth? depth c).bind (depthAfter? · rest) := by
  simp only [depthAfter?_eq_foldlM, List.foldlM_cons, Option.bind_eq_bind]

/-- The depth after a text is what the numbers of its brackets say, unless a start of it closes more
of them than are open. -/
theorem depthAfter?_eq_some_iff {depth final : Nat} {text : List Char} :
    depthAfter? depth text = some final ↔
      (∀ front, front <+: text → front.countP closes ≤ depth + front.countP opens) ∧
        final + text.countP closes = depth + text.countP opens := by
  induction text generalizing depth with
  | nil => simp [depthAfter?, eq_comm]
  | cons c rest ih =>
    have hcount (p : Char → Bool) (text : List Char) :
        (c :: text).countP p = [c].countP p + text.countP p := by
      rw [← List.countP_append, List.singleton_append]
    rw [depthAfter?_cons, Option.bind_eq_some_iff]
    simp only [stepDepth?_eq_some_iff, ih, hcount _ rest]
    constructor
    · rintro ⟨next, hnext, hle, hfinal⟩
      refine ⟨?_, by omega⟩
      intro front hfront
      rcases List.prefix_cons_iff.1 hfront with rfl | ⟨shorter, rfl, hshorter⟩
      · exact Nat.zero_le _
      · have := hle shorter hshorter
        rw [hcount closes shorter, hcount opens shorter]
        omega
    · rintro ⟨hle, hfinal⟩
      have hfirst := hle [c] (List.cons_prefix_cons.2 ⟨rfl, List.nil_prefix⟩)
      refine ⟨depth + [c].countP opens - [c].countP closes, by omega, ?_, by omega⟩
      intro front hfront
      have := hle (c :: front) (List.cons_prefix_cons.2 ⟨rfl, hfront⟩)
      rw [hcount closes front, hcount opens front] at this
      omega

/-- The scan of a body finds out whether its brackets close one another. -/
theorem depthAfter?_zero_iff {text : List Char} :
    depthAfter? 0 text = some 0 ↔ IsBalancedText text := by
  rw [depthAfter?_eq_some_iff]
  simp only [Nat.zero_add]
  exact ⟨fun h => ⟨h.1, h.2⟩, fun h => ⟨h.le, h.eq⟩⟩

/-! ## Pieces -/

theorem outerPiecesAfter_cons (before : List Char) (c : Char) (rest : List Char) :
    outerPiecesAfter before (c :: rest) =
      if isOuterComma (before, c) then [] :: outerPiecesAfter (before ++ [c]) rest
      else consFirst c (outerPiecesAfter (before ++ [c]) rest) := by
  rw [outerPiecesAfter, placesAfter, List.splitOnP_cons_eq_if_modifyHead]
  split
  · rfl
  · rw [outerPiecesAfter]
    cases hpieces : (placesAfter (before ++ [c]) rest).splitOnP isOuterComma with
    | nil => exact absurd hpieces (List.splitOnP_ne_nil _ _)
    | cons first pieces => rfl

/-- A text is cut exactly if the scan before finds that its brackets close one another, and then it
is cut at the outer commas. -/
theorem piecesFrom?_eq {depth : Nat} {text : List Char} (before : List Char)
    (h : before.countP opens = depth + before.countP closes) :
    piecesFrom? depth text =
      if depthAfter? depth text = some 0 then some (outerPiecesAfter before text) else none := by
  induction text generalizing depth before with
  | nil =>
    simp only [piecesFrom?, depthAfter?, Option.some.injEq]
    rfl
  | cons c rest ih =>
    have houter : isOuterComma (before, c) = true ↔ c = ',' ∧ depth = 0 := by
      simp [isOuterComma, h]
    rw [piecesFrom?_cons, depthAfter?_cons, outerPiecesAfter_cons]
    simp only [houter]
    split
    · next hcomma =>
      obtain ⟨rfl, rfl⟩ := hcomma
      have hstep : stepDepth? 0 ',' = some 0 := rfl
      have hcount : (before ++ [',']).countP opens = 0 + (before ++ [',']).countP closes := by
        rw [List.countP_append, List.countP_append, h]
        rfl
      rw [hstep, Option.bind_some, ih _ hcount]
      split <;> rfl
    · cases hstep : stepDepth? depth c with
      | none => rfl
      | some next =>
        have hcount : (before ++ [c]).countP opens = next + (before ++ [c]).countP closes := by
          have := stepDepth?_eq_some_iff.1 hstep
          rw [List.countP_append, List.countP_append, h]
          omega
        rw [Option.bind_some, Option.bind_some, ih _ hcount]
        split <;> rfl

theorem piecesFrom?_zero_eq_some_iff {text : List Char} {pieces : List (List Char)} :
    piecesFrom? 0 text = some pieces ↔ IsBalancedText text ∧ pieces = outerPieces text := by
  rw [piecesFrom?_eq [] rfl, Option.ite_none_right_eq_some, depthAfter?_zero_iff,
    Option.some.injEq, outerPieces, eq_comm]

/-- A body is split exactly if it is cut and no piece is blank. -/
theorem splitTopLevel?_eq_some_iff_outer {body : List Char} {pieces : List (List Char)} :
    splitTopLevel? body = some pieces ↔
      IsBalancedText body ∧ pieces = outerPieces body ∧
        ∀ piece ∈ pieces, Text.isBlankText piece = false := by
  simp only [splitTopLevel?, Option.bind_eq_bind, Option.bind_eq_some_iff, Option.guard_eq_some',
    exists_const, Option.pure_def, Option.some.injEq, Bool.not_eq_true', List.any_eq_false,
    Bool.not_eq_true, piecesFrom?_zero_eq_some_iff]
  constructor
  · rintro ⟨_, ⟨hbalanced, rfl⟩, hblank, rfl⟩
    exact ⟨hbalanced, rfl, hblank⟩
  · rintro ⟨hbalanced, rfl, hblank⟩
    exact ⟨_, ⟨hbalanced, rfl⟩, hblank, rfl⟩

/-- A text without a comma outside all brackets. -/
def HasNoOuterComma (text : List Char) : Prop :=
  ∀ before after, text = before ++ ',' :: after → before.countP opens ≠ before.countP closes

/-- A piece has no outer comma. -/
theorem IsPiece.hasNoOuterComma {piece : List Char} (h : IsPiece piece) :
    HasNoOuterComma piece := by
  rintro before after rfl hcount
  rw [IsPiece, pieceDepth?, List.foldlM_append, Option.bind_eq_bind,
    Option.bind_eq_some_iff] at h
  obtain ⟨depth, hdepth, h⟩ := h
  obtain ⟨_, hfinal⟩ := depthAfter?_eq_some_iff.1 (depthAfter?_of_pieceDepth? hdepth)
  -- the comma is refused, since the part before it ends outside all brackets
  obtain rfl : depth = 0 := by omega
  cases h

/-- A body is split exactly if its brackets close one another and no piece between its outer commas
is blank, and then into these pieces. With commas between them they are the body, and each of them
closes its brackets and has no outer comma. The brackets of a generic type's body were found to
close one another, so it is cut in any case, and only a blank piece keeps it from being split. -/
theorem splits_at_outer_commas (body : List Char) :
    (∀ pieces, splitTopLevel? body = some pieces ↔
      IsBalancedText body ∧ pieces = outerPieces body ∧
        ∀ piece ∈ pieces, Text.isBlankText piece = false) ∧
    (∀ pieces, splitTopLevel? body = some pieces →
      [','].intercalate pieces = body ∧
        ∀ piece ∈ pieces, IsBalancedText piece ∧ HasNoOuterComma piece) ∧
    ∀ keyword definition, genericBody keyword definition = .body body →
      IsBalancedText body ∧ piecesFrom? 0 body = some (outerPieces body) ∧
        (splitTopLevel? body = none ↔
          ∃ piece ∈ outerPieces body, Text.isBlankText piece = true) := by
  refine ⟨fun pieces => splitTopLevel?_eq_some_iff_outer, ?_, ?_⟩
  · intro pieces h
    obtain ⟨_, hbody, hpieces⟩ := splitTopLevel?_eq_some_iff.1 h
    refine ⟨hbody.symm, fun piece hpiece => ?_⟩
    have hpiece := (hpieces piece hpiece).1
    exact ⟨depthAfter?_zero_iff.1 (depthAfter?_of_pieceDepth? hpiece), hpiece.hasNoOuterComma⟩
  · intro keyword definition h
    have hbalanced := depthAfter?_zero_iff.1 (genericBody_eq_body_iff.1 h).2.1
    refine ⟨hbalanced, piecesFrom?_zero_eq_some_iff.2 ⟨hbalanced, rfl⟩, ?_⟩
    rw [Option.eq_none_iff_forall_ne_some]
    simp only [ne_eq, splitTopLevel?_eq_some_iff_outer]
    constructor
    · intro hnone
      by_contra hblank
      refine hnone _ ⟨hbalanced, rfl, fun piece hpiece => ?_⟩
      exact Bool.eq_false_iff.2 fun htrue => hblank ⟨piece, hpiece, htrue⟩
    · rintro ⟨piece, hpiece, htrue⟩ pieces ⟨_, rfl, hblank⟩
      rw [hblank piece hpiece] at htrue
      cases htrue

theorem splits_at_outer_commas_decimal :
    splitTopLevel? "decimal(10,2),array<int>".toList =
        some ["decimal(10,2)".toList, "array<int>".toList] ∧
      [','].intercalate ["decimal(10,2)".toList, "array<int>".toList] =
        "decimal(10,2),array<int>".toList ∧
      (∀ piece ∈ ["decimal(10,2)".toList, "array<int>".toList],
        IsBalancedText piece ∧ HasNoOuterComma piece) ∧
      genericBody structKeyword "struct<a:decimal(10,2), >".toList =
        .body "a:decimal(10,2), ".toList ∧
      splitTopLevel? "a:decimal(10,2), ".toList = none := by
  have hsplit : splitTopLevel? "decimal(10,2),array<int>".toList =
      some ["decimal(10,2)".toList, "array<int>".toList] := by decide
  have hbody : genericBody structKeyword "struct<a:decimal(10,2), >".toList =
      .body "a:decimal(10,2), ".toList := by decide
  obtain ⟨hjoined, hpieces⟩ := (splits_at_outer_commas _).2.1 _ hsplit
  obtain ⟨_, _, hnone⟩ := (splits_at_outer_commas _).2.2 _ _ hbody
  exact ⟨hsplit, hjoined, hpieces, hbody, hnone.2 ⟨[' '], by decide, by decide⟩⟩

end Expunge.ColumnType
