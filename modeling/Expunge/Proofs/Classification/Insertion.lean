import Expunge.Proofs.Classification.Composite

/-!
# Matches that make no difference

A copy of a match that comes after the match, and a composite match that names a column which is not
configured, add nothing to the matches that a data mapper keeps (`kept_insert_of_mem`,
`kept_insert_of_not_keeps`). So any number of them may be inserted into a list of matches, in
whatever places, without an effect on what is classified, be it groups or an error
(`classify_of_isPadded`).
-/

namespace Expunge.Classification

/-- A list of matches in which copies of matches are inserted, each somewhere after a match that it
is a copy of, and composite matches that name a column which is not configured, anywhere. -/
inductive IsPadded (mapper : Mapper) (requests : List Match) : List Match → Prop
  | refl : IsPadded mapper requests requests
  | copy {before after : List Match} {request : Match} :
      IsPadded mapper requests (before ++ after) → request ∈ before →
      IsPadded mapper requests (before ++ request :: after)
  | unconfigured {before after : List Match} {pairs : List ColumnValue} {scope : List String}
      {pair : ColumnValue} : IsPadded mapper requests (before ++ after) → pair ∈ pairs →
      pair.column ∉ mapper.columns →
      IsPadded mapper requests (before ++ .composite pairs scope :: after)

section
variable {mapper : Mapper} {before : List Match} {request : Match}

/-- A match that is not kept may be inserted anywhere. -/
theorem kept_insert_of_not_keeps (h : mapper.keeps request = false) (after : List Match) :
    kept mapper (before ++ request :: after) = kept mapper (before ++ after) := by
  rw [kept, List.filter_append, List.filter_cons_of_neg (by simp [h]), ← List.filter_append]
  rfl

/-- A copy of a match may be inserted after the match. -/
theorem kept_insert_of_mem (h : request ∈ before) (after : List Match) :
    kept mapper (before ++ request :: after) = kept mapper (before ++ after) := by
  cases hkeeps : mapper.keeps request with
  | false => exact kept_insert_of_not_keeps hkeeps after
  | true =>
    have hmem : request ∈ before.filter mapper.keeps := List.mem_filter.2 ⟨h, hkeeps⟩
    rw [kept, List.filter_append, List.filter_cons_of_pos hkeeps, distinct_insert hmem,
      ← List.filter_append]
    rfl

/-- A composite match is kept only if all of its columns are configured. -/
theorem keeps_eq_false {pairs : List ColumnValue} {scope : List String} {pair : ColumnValue}
    (hpair : pair ∈ pairs) (hcolumn : pair.column ∉ mapper.columns) :
    mapper.keeps (.composite pairs scope) = false := by
  have hall : (pairs.all fun pair => mapper.columns.contains pair.column) = false := by
    rw [List.all_eq_false]
    exact ⟨pair, hpair, by simpa using hcolumn⟩
  rw [Mapper.keeps, Match.isConfigured, hall, Bool.and_false]

end

/-- Copies of earlier matches and composite matches that name a column which is not configured are
invisible, however many of them are inserted and wherever: the groups stay the same, or the error
does. -/
theorem classify_of_isPadded {mapper : Mapper} {requests padded : List Match}
    (h : IsPadded mapper requests padded) (table : Table) :
    classify padded mapper table = classify requests mapper table := by
  refine classify_congr ?_ table
  induction h with
  | refl => rfl
  | copy _ hmem ih => rw [kept_insert_of_mem hmem, ih]
  | unconfigured _ hpair hcolumn ih =>
    rw [kept_insert_of_not_keeps (keeps_eq_false hpair hcolumn), ih]

/-! Matches for bookings of which the second one asks for a cast that fails, with copies of both
around it and with a match over another column in front of it, in which nothing would cast. -/

namespace Padding

/-- A match that is compiled. -/
def first : Match :=
  .composite [⟨"room", .integer 12⟩, ⟨"guest", .text "A"⟩] []

/-- A match that asks for a cast that fails. -/
def second : Match :=
  .composite [⟨"room", .text "two"⟩] []

/-- A match that names a column which is not configured. -/
def stray : Match :=
  .composite [⟨"room", .text "three"⟩, ⟨"email", .text "a@b"⟩] []

theorem isPadded :
    IsPadded Bookings.mapper [first, second] [first, stray, first, second, first, second] := by
  have h₁ : IsPadded Bookings.mapper [first, second] ([first, second] ++ [second]) :=
    .copy (.refl) (by decide)
  have h₂ : IsPadded Bookings.mapper [first, second] ([first, second] ++ first :: [second]) :=
    .copy h₁ (by decide)
  have h₃ : IsPadded Bookings.mapper [first, second]
      ([first] ++ first :: [second, first, second]) :=
    .copy h₂ (by decide)
  show IsPadded Bookings.mapper [first, second]
    ([first] ++ stray :: [first, second, first, second])
  exact .unconfigured h₃ (List.mem_cons_of_mem _ List.mem_cons_self) (by decide)

end Padding

theorem classify_padding :
    IsPadded Bookings.mapper [Padding.first, Padding.second]
        [Padding.first, Padding.stray, Padding.first, Padding.second, Padding.first,
          Padding.second] ∧
      classify [Padding.first, Padding.stray, Padding.first, Padding.second, Padding.first,
          Padding.second] Bookings.mapper Bookings.table =
        classify [Padding.first, Padding.second] Bookings.mapper Bookings.table ∧
      classify [Padding.first, Padding.second] Bookings.mapper Bookings.table =
        .error (.uncastable "room" "two" .int) := by
  refine ⟨Padding.isPadded, classify_of_isPadded Padding.isPadded Bookings.table, ?_⟩
  simp only [classify, composites, sortColumns_eq_insertionSort]
  decide +kernel

end Expunge.Classification
