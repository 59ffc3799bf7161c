import Expunge.Proofs.Classification.Kept
import Expunge.Proofs.Classification.Simple
import Mathlib.Data.List.Nodup

/-!
# What is searched for in several columns at once

The composite matches that apply to a data mapper and name configured columns only, without repeated
ones (`firstComposites`), add a row each: the names of their columns in order and the values for
them (`IsRowOf`). The composite groups are these rows, collected by the columns they are for
(`composite_groups_exact`). The order of the columns is unique (`IsOrdering.unique`), so a row says
nothing about the order in which its match lists them, unless a column is repeated.
-/

namespace Expunge

/-! ## Sameness of matches -/

/-- Two column values name the same column and hold the same value. -/
def ColumnValue.isSame (a b : ColumnValue) : Bool :=
  a.column == b.column && a.value.isSame b.value

theorem ColumnValue.isSame_eq_beq : ColumnValue.isSame = fun a b => a == b := by
  funext a b
  rw [Bool.eq_iff_iff, isSame, Bool.and_eq_true, Value.isSame_iff, beq_iff_eq, beq_iff_eq,
    ColumnValue.mk.injEq]

namespace Match

/-- Two matches are of the same kind and have the same values, floats of the same bits, and the same
scope. -/
def isSame : Match → Match → Bool
  | simple value scope, simple value' scope' => value.isSame value' && scope == scope'
  | composite pairs scope, composite pairs' scope' =>
    pairs.isEqv pairs' ColumnValue.isSame && scope == scope'
  | _, _ => false

theorem isSame_iff (a b : Match) : a.isSame b = true ↔ a = b := by
  cases a <;> cases b <;>
    simp [isSame, Value.isSame_iff, ColumnValue.isSame_eq_beq, List.isEqv_eq]

end Match

namespace Classification

/-- The composite matches that apply to a data mapper and name configured columns only, in order, of
several that are the same only the first. -/
def firstComposites (mapper : Mapper) (requests : List Match) : List (List ColumnValue) :=
  ((requests.filter mapper.keeps).eraseDupsBy Match.isSame).filterMap Match.pairs?

/-- The composite matches that are kept are the first ones. -/
theorem composites_kept (mapper : Mapper) (requests : List Match) :
    composites (kept mapper requests) = (firstComposites mapper requests).map sortColumns := by
  rw [composites_eq_map, kept, distinct_eq_eraseDupsBy Match.isSame_iff, firstComposites]

/-! ## Rows -/

/-- The row of a composite match: the names of its columns in order, and for each of them the value
that the match has for it, cast to its type. -/
def IsRowOf (table : Table) (pairs : List ColumnValue) (row : List String × List Value) : Prop :=
  ∃ sorted, IsOrdering pairs sorted ∧ row.1 = sorted.map (·.column) ∧
    List.Forall₂ (fun pair typed => Column.cast pair.value pair.column table.columns = .ok typed)
      sorted row.2

theorem isRowOf_iff {table : Table} {pairs : List ColumnValue} {row : List String × List Value} :
    IsRowOf table pairs row ↔ castRow table (sortColumns pairs) = .ok row := by
  rw [castRow_eq_ok_iff, castTuple, Outcome.mapM_eq_ok_iff]
  constructor
  · rintro ⟨sorted, hsorted, hnames, htuple⟩
    cases hsorted.unique (isOrdering_sortColumns pairs)
    exact ⟨htuple, hnames⟩
  · rintro ⟨htuple, hnames⟩
    exact ⟨sortColumns pairs, isOrdering_sortColumns pairs, hnames, htuple⟩

/-- Pairs with distinct columns may be listed in any order. -/
theorem filter_eq_of_perm {pairs others : List ColumnValue} (hnodup : (pairs.map (·.column)).Nodup)
    (hperm : others.Perm pairs) (column : String) :
    others.filter (fun pair => pair.column = column) =
      pairs.filter fun pair => pair.column = column := by
  refine @List.Perm.eq_of_pairwise _ (fun _ _ => True) _ _ ?_ (List.pairwise_of_forall ?_)
    (List.pairwise_of_forall ?_) (hperm.filter _)
  · intro a b ha hb _ _
    simp only [List.mem_filter, decide_eq_true_eq] at ha hb
    exact List.inj_on_of_nodup_map hnodup (hperm.mem_iff.1 ha.1) hb.1 (ha.2.trans hb.2.symm)
  · intros
    trivial
  · intros
    trivial

theorem IsOrdering.of_perm {pairs others sorted : List ColumnValue}
    (hnodup : (pairs.map (·.column)).Nodup) (hperm : others.Perm pairs)
    (h : IsOrdering pairs sorted) : IsOrdering others sorted where
  ordered := h.ordered
  stable := fun column => (h.stable column).trans (filter_eq_of_perm hnodup hperm column).symm

/-- A match that lists distinct columns in another order has the same row. -/
theorem isRowOf_iff_of_perm {table : Table} {pairs others : List ColumnValue}
    (hnodup : (pairs.map (·.column)).Nodup) (hperm : others.Perm pairs)
    (row : List String × List Value) : IsRowOf table others row ↔ IsRowOf table pairs row := by
  have hnodup' : (others.map (·.column)).Nodup := (hperm.map _).nodup_iff.2 hnodup
  constructor
  · rintro ⟨sorted, hsorted, hrow⟩
    exact ⟨sorted, hsorted.of_perm hnodup' hperm.symm, hrow⟩
  · rintro ⟨sorted, hsorted, hrow⟩
    exact ⟨sorted, hsorted.of_perm hnodup hperm, hrow⟩

/-! ## The groups -/

/-- The simple groups come first; after them come the groups of the rows that the first composite
matches have. -/
theorem exists_rows_of_classify {requests : List Match} {mapper : Mapper} {table : Table}
    {groups : List Group} (h : classify requests mapper table = .ok groups) :
    ∃ simple rows, List.Forall₂ (IsRowOf table) (firstComposites mapper requests) rows ∧
      groups = simple ++ (collect rows).map (fun group => .composite group.1 group.2) ∧
      ∀ group ∈ simple, ∃ column ids, group = .simple column ids := by
  rw [classify_eq] at h
  obtain ⟨simple, hsimple, h⟩ := Outcome.bind_eq_ok_iff.1 h
  obtain ⟨rows, hrows, h⟩ := Outcome.bind_eq_ok_iff.1 h
  cases h
  rw [Outcome.mapM_eq_ok_iff, composites_kept, List.forall₂_map_left_iff] at hrows
  refine ⟨simple, rows, hrows.imp fun _ _ hrow => isRowOf_iff.2 hrow, rfl, ?_⟩
  intro group hgroup
  obtain ⟨_, column, _, ids, _, rfl⟩ := (mem_simpleGroups_iff hsimple).1 hgroup
  exact ⟨column, ids, rfl⟩

/-- Every first composite match has one row, and the composite groups are these rows: a group for
each list of columns, in the order in which the rows first name them, with the tuples of its rows in
order. The row is the same in whichever order a match lists distinct columns. -/
theorem composite_groups_exact {requests : List Match} {mapper : Mapper} {table : Table}
    {groups : List Group} (h : classify requests mapper table = .ok groups) :
    (∃ simple rows, List.Forall₂ (IsRowOf table) (firstComposites mapper requests) rows ∧
      groups = simple ++ (collect rows).map (fun group => .composite group.1 group.2) ∧
      (∀ group ∈ simple, ∃ column ids, group = .simple column ids) ∧
      ((collect rows).map (·.1)).Nodup) ∧
    ∀ pairs others, (pairs.map ColumnValue.column).Nodup → others.Perm pairs →
      ∀ row, IsRowOf table others row ↔ IsRowOf table pairs row := by
  obtain ⟨simple, rows, hrows, hgroups, hsimple⟩ := exists_rows_of_classify h
  refine ⟨⟨simple, rows, hrows, hgroups, hsimple, nodup_collect rows⟩, ?_⟩
  intro pairs others hnodup hperm row
  exact isRowOf_iff_of_perm hnodup hperm row

/-! A queue with two lists of columns in turn, a match in another order of its columns and with
another value for the same room, a repeated match, matches that are left out because of a column or
of the scope, and a match with a column twice. -/

namespace Bookings

/-- A data mapper for a table of bookings. -/
def mapper : Mapper where
  id := "bookings"
  executor := .athena
  catalog := .glue
  database := "hotel"
  table := "bookings"
  columns := ["room", "guest"]
  format := .parquet
  roleArn := none
  deleteOldVersions := none

/-- The table. -/
def table : Table :=
  ⟨"hotel", "bookings", [⟨"guest", "string"⟩, ⟨"room", "int"⟩], []⟩

/-- The composite matches of the queue, among others that are left out and a simple one. -/
def requests : List Match :=
  [.composite [⟨"room", .integer 12⟩, ⟨"guest", .text "A"⟩] [],
    .composite [⟨"guest", .text "B"⟩] ["bookings"],
    .composite [⟨"email", .text "a@b"⟩, ⟨"room", .text "twelve"⟩] [],
    .composite [⟨"guest", .text "A"⟩, ⟨"room", .text "12"⟩] [],
    .composite [⟨"room", .integer 12⟩, ⟨"guest", .text "A"⟩] [],
    .simple (.integer 7) [],
    .composite [⟨"room", .text "two"⟩] ["staff"],
    .composite [⟨"room", .integer 4⟩, ⟨"room", .text "3"⟩] []]

/-- The composite matches that have a row, without the repeated one. -/
def kept : List (List ColumnValue) :=
  [[⟨"room", .integer 12⟩, ⟨"guest", .text "A"⟩], [⟨"guest", .text "B"⟩],
    [⟨"guest", .text "A"⟩, ⟨"room", .text "12"⟩], [⟨"room", .integer 4⟩, ⟨"room", .text "3"⟩]]

/-- The groups that the queue gives for the data mapper. -/
def groups : List Group :=
  [.simple "room" [.integer 7], .simple "guest" [.text "7"],
    .composite ["guest", "room"] [[.text "A", .integer 12], [.text "A", .integer 12]],
    .composite ["guest"] [[.text "B"]],
    .composite ["room", "room"] [[.integer 4, .integer 3]]]

theorem classify_requests : classify requests mapper table = .ok groups := by
  simp only [classify, composites, sortColumns_eq_insertionSort]
  decide +kernel

end Bookings

theorem composite_groups_bookings :
    classify Bookings.requests Bookings.mapper Bookings.table = .ok Bookings.groups ∧
      firstComposites Bookings.mapper Bookings.requests = Bookings.kept ∧
      ∃ simple rows, List.Forall₂ (IsRowOf Bookings.table) Bookings.kept rows ∧
        Bookings.groups =
          simple ++ (collect rows).map (fun group => .composite group.1 group.2) ∧
        ((collect rows).map (·.1)).Nodup ∧
        ∀ row, IsRowOf Bookings.table [⟨"room", .text "12"⟩, ⟨"guest", .text "A"⟩] row ↔
          IsRowOf Bookings.table [⟨"guest", .text "A"⟩, ⟨"room", .text "12"⟩] row := by
  have h := Bookings.classify_requests
  have hkept : firstComposites Bookings.mapper Bookings.requests = Bookings.kept := by
    decide +kernel
  obtain ⟨⟨simple, rows, hrows, hgroups, _, hnodup⟩, hreordered⟩ := composite_groups_exact h
  refine ⟨h, hkept, simple, rows, hkept ▸ hrows, hgroups, hnodup, ?_⟩
  exact hreordered _ _ (by decide) (List.Perm.swap _ _ _)

end Classification

end Expunge
