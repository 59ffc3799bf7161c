import Expunge.Proofs.Classification.Kept

/-!
# How classification fails

The matches of a job ask for casts in a certain order: first the values of the simple ones, for one
configured column after the other (`simpleCasts`), then the values of the composite ones, match by
match in the order of the columns. Classification fails with the error of the first of these casts
that fails, and succeeds if none does (`classify_fails_first`). The casts are those of all matches
that the data mapper keeps, repeated or not: repetitions ask for casts that have been asked for
before, so leaving them out hides no failure and changes nothing about which one is the first.
-/

namespace Expunge

/-! ## Searching lists that are made up of others -/

theorem findSome?_flatMap {α β γ : Type} (g : α → List β) (f : β → Option γ) (xs : List α) :
    (xs.flatMap g).findSome? f = xs.findSome? fun x => (g x).findSome? f := by
  induction xs with
  | nil => rfl
  | cons x xs ih =>
    rw [List.flatMap_cons, List.findSome?_append, List.findSome?_cons, ih]
    cases (g x).findSome? f <;> rfl

theorem findSome?_filterMap {α β γ : Type} (g : α → Option β) (f : β → Option γ) (xs : List α) :
    (xs.filterMap g).findSome? f = xs.findSome? fun x => (g x).bind f := by
  induction xs with
  | nil => rfl
  | cons x xs ih =>
    rw [List.findSome?_cons, ← ih]
    cases hx : g x with
    | none => rw [List.filterMap_cons_none hx]; rfl
    | some y => rw [List.filterMap_cons_some hx, List.findSome?_cons]; rfl

namespace Classification

/-! ## Casts -/

/-- The error of the cast of a value to the type of a column, if it fails. -/
def castError? (table : Table) (pair : ColumnValue) : Option ColumnError :=
  Outcome.error? (Column.cast pair.value pair.column table.columns)

/-- Of some casts, in their order, the first one that fails does so with an error. -/
def FirstFails (table : Table) (casts : List ColumnValue) (error : ColumnError) : Prop :=
  ∃ before pair after, casts = before ++ pair :: after ∧
    (∀ other ∈ before, ∃ typed,
      Column.cast other.value other.column table.columns = .ok typed) ∧
    Column.cast pair.value pair.column table.columns = .error error

theorem firstFails_iff {table : Table} {casts : List ColumnValue} {error : ColumnError} :
    FirstFails table casts error ↔ casts.findSome? (castError? table) = some error := by
  rw [List.findSome?_eq_some_iff]
  simp only [castError?, Outcome.error?_eq_some_iff, Outcome.error?_eq_none_iff, FirstFails]
  constructor
  · rintro ⟨before, pair, after, hcasts, hbefore, herror⟩
    exact ⟨before, pair, after, hcasts, herror, hbefore⟩
  · rintro ⟨before, pair, after, hcasts, herror, hbefore⟩
    exact ⟨before, pair, after, hcasts, hbefore, herror⟩

/-- The casts that values ask for: all of them for the first column, then for the next one. -/
def castsFor (columns : List String) (values : List Value) : List ColumnValue :=
  columns.flatMap fun column => values.map fun value => ⟨column, value⟩

/-- The simple groups fail with the first of the casts that their values ask for. -/
theorem error?_simpleGroups (columns : List String) (table : Table) (values : List Value) :
    Outcome.error? (simpleGroups columns table values) =
      (castsFor columns values).findSome? (castError? table) := by
  by_cases hvalues : values = []
  · have hnone : (castsFor columns []).findSome? (castError? table) = none := by
      rw [castsFor, findSome?_flatMap, List.findSome?_eq_none_iff]
      intros
      rfl
    rw [hvalues, hnone]
    rfl
  rw [simpleGroups, if_neg (by simpa using hvalues), Outcome.error?_mapM, castsFor,
    findSome?_flatMap]
  refine congrArg (columns.findSome? ·) (funext fun column => ?_)
  rw [Outcome.error?_bind_pure, Outcome.error?_mapM, List.findSome?_map]
  rfl

/-- The rows of composite matches fail with the first of the casts that the matches ask for. -/
theorem error?_mapM_castRow (table : Table) (composites : List (List ColumnValue)) :
    Outcome.error? (composites.mapM (castRow table)) =
      composites.flatten.findSome? (castError? table) := by
  rw [Outcome.error?_mapM, ← List.flatMap_id, findSome?_flatMap]
  refine congrArg (composites.findSome? ·) (funext fun pairs => ?_)
  rw [castRow, Outcome.error?_bind_pure, castTuple, Outcome.error?_mapM]
  rfl

/-! ## Repetitions -/

/-- Repeated matches have no part in a search among what some of the matches give. -/
theorem findSome?_filterMap_kept {α β : Type} (mapper : Mapper) (requests : List Match)
    (g : Match → Option α) (f : α → Option β) :
    ((kept mapper requests).filterMap g).findSome? f =
      ((requests.filter mapper.keeps).filterMap g).findSome? f := by
  rw [findSome?_filterMap, findSome?_filterMap, kept, findSome?_distinct]

/-- The simple matches among those that a data mapper keeps are the simple ones that apply to it. -/
theorem simpleValues_filter_keeps (mapper : Mapper) (requests : List Match) :
    simpleValues (requests.filter mapper.keeps) =
      simpleValues (requests.filter (·.appliesTo mapper.id)) := by
  rw [← simpleValues_filter mapper.columns (requests.filter (·.appliesTo mapper.id)),
    List.filter_filter]
  refine congrArg simpleValues (List.filter_congr ?_)
  intro request _
  rw [Mapper.keeps, Bool.and_comm]

theorem findSome?_castsFor_kept (mapper : Mapper) (requests : List Match)
    (f : ColumnValue → Option ColumnError) :
    (castsFor mapper.columns (simpleValues (kept mapper requests))).findSome? f =
      (castsFor mapper.columns
        (simpleValues (requests.filter (·.appliesTo mapper.id)))).findSome? f := by
  rw [castsFor, castsFor, findSome?_flatMap, findSome?_flatMap, ← simpleValues_filter_keeps]
  refine congrArg (mapper.columns.findSome? ·) (funext fun column => ?_)
  rw [List.findSome?_map, List.findSome?_map]
  exact findSome?_filterMap_kept mapper requests _ _

theorem findSome?_composites_kept (mapper : Mapper) (requests : List Match)
    (f : ColumnValue → Option ColumnError) :
    (composites (kept mapper requests)).flatten.findSome? f =
      (composites (requests.filter mapper.keeps)).flatten.findSome? f := by
  rw [← List.flatMap_id, ← List.flatMap_id, findSome?_flatMap, findSome?_flatMap]
  exact findSome?_filterMap_kept mapper requests _ _

/-- Classification fails with the first failing one of the casts that are asked for. -/
theorem error?_classify (requests : List Match) (mapper : Mapper) (table : Table) :
    Outcome.error? (classify requests mapper table) =
      (castsFor mapper.columns (simpleValues (requests.filter (·.appliesTo mapper.id))) ++
        (composites (requests.filter mapper.keeps)).flatten).findSome? (castError? table) := by
  have hrows : ∀ simple : List Group,
      Outcome.error? (do
        let rows ← (composites (kept mapper requests)).mapM (castRow table)
        return simple ++ (collect rows).map fun group => .composite group.1 group.2) =
      (composites (requests.filter mapper.keeps)).flatten.findSome? (castError? table) := by
    intro simple
    rw [Outcome.error?_bind_pure, error?_mapM_castRow, findSome?_composites_kept]
  rw [classify_eq, Outcome.error?_bind hrows, error?_simpleGroups, findSome?_castsFor_kept,
    List.findSome?_append]

/-! ## The first failure -/

/-- A cast of a value to the type of a column fails. -/
def CastFails (table : Table) (value : Value) (column : String) : Prop :=
  ∃ error, Column.cast value column table.columns = .error error

/-- A match asks for a cast that fails: a simple one that applies to the data mapper for some
configured column, or a composite one that applies and names configured columns only for one of
these. -/
def AsksInVain (mapper : Mapper) (table : Table) (requests : List Match) : Prop :=
  (∃ value scope column, .simple value scope ∈ requests ∧
    (Match.simple value scope).appliesTo mapper.id = true ∧ column ∈ mapper.columns ∧
    CastFails table value column) ∨
  ∃ pairs pair, IsKept mapper requests pairs ∧ pair ∈ pairs ∧
    CastFails table pair.value pair.column

theorem exists_castError?_iff {table : Table} {casts : List ColumnValue} :
    (∃ error, casts.findSome? (castError? table) = some error) ↔
      ∃ pair ∈ casts, CastFails table pair.value pair.column := by
  rw [← Option.isSome_iff_exists, List.findSome?_isSome_iff]
  simp only [Option.isSome_iff_exists, castError?, Outcome.error?_eq_some_iff, CastFails]

theorem mem_castsFor_iff {columns : List String} {values : List Value} {pair : ColumnValue} :
    pair ∈ castsFor columns values ↔ pair.column ∈ columns ∧ pair.value ∈ values := by
  simp only [castsFor, List.mem_flatMap, List.mem_map]
  constructor
  · rintro ⟨column, hcolumn, value, hvalue, rfl⟩
    exact ⟨hcolumn, hvalue⟩
  · rintro ⟨hcolumn, hvalue⟩
    exact ⟨pair.column, hcolumn, pair.value, hvalue, rfl⟩

/-- Some match asks for a cast that fails exactly if there is such a cast among those that are asked
for. -/
theorem asksInVain_iff {mapper : Mapper} {table : Table} {requests : List Match} :
    AsksInVain mapper table requests ↔
      ∃ pair ∈ castsFor mapper.columns (simpleValues (requests.filter (·.appliesTo mapper.id))) ++
          (composites (requests.filter mapper.keeps)).flatten,
        CastFails table pair.value pair.column := by
  constructor
  · rintro (⟨value, scope, column, hmem, happlies, hcolumn, hfails⟩ |
      ⟨pairs, pair, hkept, hpair, hfails⟩)
    · have hvalue : value ∈ simpleValues (requests.filter (·.appliesTo mapper.id)) :=
        mem_simpleValues_iff.2 ⟨scope, List.mem_filter.2 ⟨hmem, happlies⟩⟩
      refine ⟨⟨column, value⟩, List.mem_append_left _ ?_, hfails⟩
      exact mem_castsFor_iff.2 ⟨hcolumn, hvalue⟩
    · obtain ⟨scope, hmem⟩ := isKept_iff.1 hkept
      have hsorted := mem_composites_iff.2 ⟨pairs, scope, hmem, rfl⟩
      refine ⟨pair, List.mem_append_right _ (List.mem_flatten.2 ⟨_, hsorted, ?_⟩), hfails⟩
      exact (isOrdering_sortColumns pairs).mem_iff.2 hpair
  · rintro ⟨pair, hpair, hfails⟩
    rcases List.mem_append.1 hpair with hpair | hpair
    · obtain ⟨hcolumn, hvalue⟩ := mem_castsFor_iff.1 hpair
      obtain ⟨scope, hmem⟩ := mem_simpleValues_iff.1 hvalue
      obtain ⟨hmem, happlies⟩ := List.mem_filter.1 hmem
      exact .inl ⟨_, scope, _, hmem, happlies, hcolumn, hfails⟩
    · obtain ⟨sorted, hsorted, hpair⟩ := List.mem_flatten.1 hpair
      obtain ⟨pairs, scope, hmem, rfl⟩ := mem_composites_iff.1 hsorted
      have hpair := (isOrdering_sortColumns pairs).mem_iff.1 hpair
      exact .inr ⟨pairs, pair, isKept_iff.2 ⟨scope, hmem⟩, hpair, hfails⟩

/-- The matches that a data mapper does not keep have no part in what is classified for it. -/
theorem classify_filter_keeps (requests : List Match) (mapper : Mapper) (table : Table) :
    classify (requests.filter mapper.keeps) mapper table = classify requests mapper table := by
  refine classify_congr ?_ table
  rw [kept, List.filter_filter]
  simp only [Bool.and_self]
  rfl

/-- Classification fails exactly with the error of the first of the casts that are asked for and
fail: those of the applicable simple values, column by column in configured order, and then those of
the kept composite matches, match by match in the order of the columns. So it fails if and only if
some match asks for a cast that fails; and matches that do not apply or name a column which is not
configured never make it fail, since they may as well be left out. -/
theorem classify_fails_first (requests : List Match) (mapper : Mapper) (table : Table) :
    (∃ orderings,
      List.Forall₂ IsOrdering ((requests.filter mapper.keeps).filterMap Match.pairs?) orderings ∧
      ∀ error, classify requests mapper table = .error error ↔
        FirstFails table
          (castsFor mapper.columns (simpleValues (requests.filter (·.appliesTo mapper.id))) ++
            orderings.flatten) error) ∧
    ((∃ error, classify requests mapper table = .error error) ↔
      AsksInVain mapper table requests) ∧
    classify (requests.filter mapper.keeps) mapper table = classify requests mapper table := by
  have herror : ∀ error, classify requests mapper table = .error error ↔
      (castsFor mapper.columns (simpleValues (requests.filter (·.appliesTo mapper.id))) ++
        (composites (requests.filter mapper.keeps)).flatten).findSome? (castError? table) =
          some error := by
    intro error
    rw [← Outcome.error?_eq_some_iff, error?_classify]
  refine ⟨⟨composites (requests.filter mapper.keeps), ?_, ?_⟩, ?_,
    classify_filter_keeps requests mapper table⟩
  · rw [composites_eq_map, List.forall₂_map_right_iff, List.forall₂_same]
    intro pairs _
    exact isOrdering_sortColumns pairs
  · intro error
    rw [herror, firstFails_iff]
  · rw [asksInVain_iff, ← exists_castError?_iff]
    exact exists_congr herror

end Classification

end Expunge
