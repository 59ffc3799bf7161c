import Expunge.Proofs.Classification

/-!
# Matches that have a part in classification

A data mapper keeps the matches that apply to it and name no column that is not configured. What is
classified for it is decided by the distinct ones among them, in order (`classify_eq`): they are all
cast, and nothing else is. So two lists of matches that have the same kept ones are classified alike
(`classify_congr`).
-/

namespace Expunge

namespace Match

/-- A match names configured columns only; a simple one names none. -/
def isConfigured (columns : List String) : Match → Bool
  | simple _ _ => true
  | composite pairs _ => pairs.all fun pair => columns.contains pair.column

/-- The columns and values of a composite match. -/
def pairs? : Match → Option (List ColumnValue)
  | simple _ _ => none
  | composite pairs _ => some pairs

end Match

/-- Whether a match has a part in what is compiled for a data mapper: it applies to it and names
configured columns only. -/
def Mapper.keeps (mapper : Mapper) (request : Match) : Bool :=
  request.appliesTo mapper.id && request.isConfigured mapper.columns

/-- A composite match is kept if it applies and all of its columns are configured. -/
theorem Mapper.keeps_composite_iff {mapper : Mapper} {pairs : List ColumnValue}
    {scope : List String} :
    mapper.keeps (.composite pairs scope) = true ↔
      (Match.composite pairs scope).appliesTo mapper.id = true ∧
        ∀ pair ∈ pairs, pair.column ∈ mapper.columns := by
  simp [keeps, Match.isConfigured]

namespace Classification

/-- A list of matches has a composite one that a data mapper keeps, for the given columns and
values. -/
def IsKept (mapper : Mapper) (requests : List Match) (pairs : List ColumnValue) : Prop :=
  ∃ scope, .composite pairs scope ∈ requests ∧
    (Match.composite pairs scope).appliesTo mapper.id = true ∧
    ∀ pair ∈ pairs, pair.column ∈ mapper.columns

theorem isKept_iff {mapper : Mapper} {requests : List Match} {pairs : List ColumnValue} :
    IsKept mapper requests pairs ↔
      ∃ scope, .composite pairs scope ∈ requests.filter mapper.keeps := by
  simp only [IsKept, List.mem_filter, Mapper.keeps_composite_iff]

/-- The matches that a data mapper keeps, each once. -/
def kept (mapper : Mapper) (requests : List Match) : List Match :=
  distinct (requests.filter mapper.keeps)

/-- The kept matches are the applicable ones that name configured columns only. -/
theorem filter_applicable (mapper : Mapper) (requests : List Match) :
    (applicable mapper.id requests).filter (·.isConfigured mapper.columns) =
      kept mapper requests := by
  rw [applicable, filter_distinct, List.filter_filter, kept]
  refine congrArg _ (List.filter_congr ?_)
  intro request _
  rw [Mapper.keeps, Bool.and_comm]

/-- Every simple match names configured columns only. -/
theorem simpleValues_filter (columns : List String) (requests : List Match) :
    simpleValues (requests.filter (·.isConfigured columns)) = simpleValues requests := by
  rw [simpleValues, List.filterMap_filter]
  refine List.filterMap_congr ?_
  intro request _
  cases request with
  | simple value scope => rfl
  | composite pairs scope => exact ite_self none

/-- Composite matches may be left out before or after their columns are sorted. -/
theorem composites_filter (columns : List String) (requests : List Match) :
    composites (requests.filter (·.isConfigured columns)) =
      (composites requests).filter fun pairs =>
        pairs.all fun pair => columns.contains pair.column := by
  rw [composites, composites, List.filterMap_filter, List.filter_filterMap]
  refine List.filterMap_congr ?_
  intro request _
  cases request with
  | simple value scope => rfl
  | composite pairs scope =>
    rw [Option.filter_some, (perm_sortColumns pairs).all_eq]
    rfl

theorem composites_eq_map (requests : List Match) :
    composites requests = (requests.filterMap Match.pairs?).map sortColumns := by
  rw [composites, List.map_filterMap]
  refine List.filterMap_congr ?_
  intro request _
  cases request <;> rfl

/-- What is classified for a data mapper is decided by the matches that it keeps: the values of the
simple ones are cast for every configured column, and each composite one adds its row. -/
theorem classify_eq (requests : List Match) (mapper : Mapper) (table : Table) :
    classify requests mapper table = (do
      let simple ← simpleGroups mapper.columns table (simpleValues (kept mapper requests))
      let rows ← (composites (kept mapper requests)).mapM (castRow table)
      return simple ++ (collect rows).map fun group => .composite group.1 group.2) := by
  have hcomposites := composites_filter mapper.columns (applicable mapper.id requests)
  rw [filter_applicable] at hcomposites
  rw [← filter_applicable, simpleValues_filter, filter_applicable, hcomposites, classify]
  simp only [compositeTuples_eq]
  cases simpleGroups mapper.columns table (simpleValues (applicable mapper.id requests)) with
  | error error => rfl
  | ok simple =>
    cases List.mapM (castRow table) _ with
    | error error => rfl
    | ok rows => rfl

/-- Lists of matches that a data mapper keeps the same of are classified alike. -/
theorem classify_congr {mapper : Mapper} {requests others : List Match}
    (h : kept mapper requests = kept mapper others) (table : Table) :
    classify requests mapper table = classify others mapper table := by
  rw [classify_eq, h, classify_eq]

end Classification

end Expunge
