import Expunge.Proofs.Classification.Composite
import Mathlib.Data.String.Basic

/-!
# What composite groups are keyed by

A composite group is for the columns that its matches name, with repetitions: matches are in the
same group exactly if they name the same columns, each the same number of times (`IsKeyed`). Where
no match names a column twice, the columns of every group are strictly increasing and the groups
correspond to sets of columns. Nothing keeps a queue from naming a column twice, however, and then
matches that name the same set of columns are torn apart (`same_columns_torn_apart`).
-/

namespace Expunge.Classification

/-- The names of the columns of a composite match, as the match lists them. -/
def names (pairs : List ColumnValue) : List String :=
  pairs.map (·.column)

/-- A composite match is in a group: the group is for the columns of its row and holds its tuple. -/
def IsIn (table : Table) (pairs : List ColumnValue) (group : Group) : Prop :=
  ∃ columns tuple ids, IsRowOf table pairs (columns, tuple) ∧ group = .composite columns ids ∧
    tuple ∈ ids

/-- The composite groups are keyed by the columns that their matches name. -/
structure IsKeyed (requests : List Match) (mapper : Mapper) (table : Table) (groups : List Group) :
    Prop where
  /-- Every kept match is in exactly one group. -/
  grouped : ∀ pairs, IsKept mapper requests pairs →
    ∃! group, group ∈ groups ∧ IsIn table pairs group
  /-- In every composite group there is a kept match. -/
  occupied : ∀ columns ids, .composite columns ids ∈ groups →
    ∃ pairs, IsKept mapper requests pairs ∧ IsIn table pairs (.composite columns ids)
  /-- The columns of a group are in order. -/
  ordered : ∀ columns ids, .composite columns ids ∈ groups → columns.Pairwise (· ≤ ·)
  /-- They are strictly increasing if and only if the matches in the group name no column twice. -/
  strict_iff : ∀ columns ids, .composite columns ids ∈ groups → ∀ pairs,
    IsKept mapper requests pairs → IsIn table pairs (.composite columns ids) →
      (columns.Pairwise (· < ·) ↔ (names pairs).Nodup)
  /-- Matches are in the same group if and only if they name the same columns, each the same number
  of times. -/
  together_iff : ∀ pairs others, IsKept mapper requests pairs → IsKept mapper requests others →
    ((∃ group ∈ groups, IsIn table pairs group ∧ IsIn table others group) ↔
      (names pairs).Perm (names others))
  /-- Matches that name no column twice are in the same group if and only if they name the same
  set of columns. -/
  together_iff_of_nodup : ∀ pairs others, IsKept mapper requests pairs →
    IsKept mapper requests others → (names pairs).Nodup → (names others).Nodup →
      ((∃ group ∈ groups, IsIn table pairs group ∧ IsIn table others group) ↔
        ∀ column, column ∈ names pairs ↔ column ∈ names others)

/-! ## Rows -/

section
variable {table : Table} {pairs : List ColumnValue} {row row' : List String × List Value}

/-- A match has one row only. -/
theorem IsRowOf.unique (h : IsRowOf table pairs row) (h' : IsRowOf table pairs row') :
    row = row' := by
  have h := isRowOf_iff.1 h
  rw [isRowOf_iff.1 h'] at h
  cases h
  rfl

/-- A row is for the columns that its match names. -/
theorem IsRowOf.perm (h : IsRowOf table pairs row) : row.1.Perm (names pairs) := by
  rw [(castRow_eq_ok_iff.1 (isRowOf_iff.1 h)).2]
  exact (perm_sortColumns pairs).map _

/-- The columns of a row are in order. -/
theorem IsRowOf.ordered (h : IsRowOf table pairs row) : row.1.Pairwise (· ≤ ·) := by
  obtain ⟨sorted, hsorted, hnames, _⟩ := h
  rw [hnames]
  exact List.pairwise_map.2 hsorted.ordered

end

/-! ## Columns in order -/

/-- Lists in order are the same if and only if they are orderings of lists with the same items, each
as often. -/
theorem eq_iff_perm {columns columns' list list' : List String} (h : columns.Pairwise (· ≤ ·))
    (h' : columns'.Pairwise (· ≤ ·)) (hperm : columns.Perm list) (hperm' : columns'.Perm list') :
    columns = columns' ↔ list.Perm list' := by
  constructor
  · intro heq
    exact hperm.symm.trans (heq ▸ hperm')
  · intro hlist
    refine List.Perm.eq_of_pairwise ?_ h h' (hperm.trans (hlist.trans hperm'.symm))
    intro a b _ _
    exact String.le_antisymm

theorem pairwise_lt_iff {columns : List String} (h : columns.Pairwise (· ≤ ·)) :
    columns.Pairwise (· < ·) ↔ columns.Nodup := by
  constructor
  · intro hlt
    exact hlt.imp fun hab heq => absurd (heq ▸ hab) (String.lt_irrefl _)
  · intro hnodup
    exact (h.and hnodup).imp fun hab => lt_of_le_of_ne hab.1 hab.2

/-! ## Groups -/

section
variable {requests : List Match} {mapper : Mapper} {table : Table} {groups : List Group}

theorem mem_firstComposites_iff {pairs : List ColumnValue} :
    pairs ∈ firstComposites mapper requests ↔ IsKept mapper requests pairs := by
  rw [firstComposites, ← distinct_eq_eraseDupsBy Match.isSame_iff, List.mem_filterMap, isKept_iff]
  simp only [mem_distinct_iff]
  constructor
  · rintro ⟨request, hmem, hpairs⟩
    cases request with
    | simple value scope => cases hpairs
    | composite pairs scope => cases hpairs; exact ⟨scope, hmem⟩
  · rintro ⟨scope, hmem⟩
    exact ⟨_, hmem, rfl⟩

/-- The composite groups hold the rows of the kept matches and no others. -/
theorem exists_rows_of_isKept (h : classify requests mapper table = .ok groups) :
    ∃ rows, (∀ pairs, IsKept mapper requests pairs → ∃ row ∈ rows, IsRowOf table pairs row) ∧
      (∀ row ∈ rows, ∃ pairs, IsKept mapper requests pairs ∧ IsRowOf table pairs row) ∧
      ∀ columns ids, .composite columns ids ∈ groups ↔
        (columns, ids) ∈ collect rows := by
  obtain ⟨simple, rows, hrows, rfl, hsimple⟩ := exists_rows_of_classify h
  refine ⟨rows, ?_, ?_, ?_⟩
  · intro pairs hkept
    exact Outcome.exists_right_of_forall₂ hrows (mem_firstComposites_iff.2 hkept)
  · intro row hrow
    obtain ⟨pairs, hpairs, hrow⟩ := Outcome.exists_left_of_forall₂ hrows hrow
    exact ⟨pairs, mem_firstComposites_iff.1 hpairs, hrow⟩
  · intro columns ids
    have hnot : Group.composite columns ids ∉ simple := by
      intro hmem
      obtain ⟨_, _, heq⟩ := hsimple _ hmem
      cases heq
    rw [List.mem_append, or_iff_right hnot, List.mem_map]
    constructor
    · rintro ⟨group, hgroup, heq⟩
      cases heq
      exact hgroup
    · intro hgroup
      exact ⟨_, hgroup, rfl⟩

/-- No two composite groups are for the same columns. -/
theorem ids_unique (h : classify requests mapper table = .ok groups) {columns : List String}
    {ids ids' : List (List Value)} (hgroup : .composite columns ids ∈ groups)
    (hgroup' : .composite columns ids' ∈ groups) : ids = ids' := by
  obtain ⟨rows, _, _, hgroups⟩ := exists_rows_of_isKept h
  obtain ⟨_, rfl⟩ := mem_collect_iff.1 ((hgroups _ _).1 hgroup)
  obtain ⟨_, rfl⟩ := mem_collect_iff.1 ((hgroups _ _).1 hgroup')
  rfl

/-- A kept match is in the group for its columns in order, and in no other one. -/
theorem exists_group_of_isKept (h : classify requests mapper table = .ok groups)
    {pairs : List ColumnValue} (hkept : IsKept mapper requests pairs) :
    ∃ columns ids, columns.Pairwise (· ≤ ·) ∧ columns.Perm (names pairs) ∧
      .composite columns ids ∈ groups ∧
      ∀ group ∈ groups, IsIn table pairs group ↔ group = .composite columns ids := by
  obtain ⟨rows, hrows, _, hgroups⟩ := exists_rows_of_isKept h
  obtain ⟨row, hmem, hrow⟩ := hrows pairs hkept
  have hgroup := (hgroups _ _).2 (mem_collect_iff.2 ⟨List.mem_map_of_mem hmem, rfl⟩)
  refine ⟨row.1, _, hrow.ordered, hrow.perm, hgroup, ?_⟩
  intro group hmem'
  constructor
  · rintro ⟨columns, tuple, ids, hrow', rfl, _⟩
    cases hrow.unique hrow'
    exact congrArg _ (ids_unique h hmem' hgroup)
  · rintro rfl
    refine ⟨row.1, row.2, _, hrow, rfl, ?_⟩
    exact List.mem_map_of_mem (List.mem_filter.2 ⟨hmem, by simp⟩)

/-- In every composite group there is a kept match. -/
theorem exists_isKept_of_mem (h : classify requests mapper table = .ok groups)
    {columns : List String} {ids : List (List Value)} (hgroup : .composite columns ids ∈ groups) :
    ∃ pairs, IsKept mapper requests pairs ∧ IsIn table pairs (.composite columns ids) := by
  obtain ⟨rows, _, hrows, hgroups⟩ := exists_rows_of_isKept h
  obtain ⟨hcolumns, rfl⟩ := mem_collect_iff.1 ((hgroups _ _).1 hgroup)
  obtain ⟨row, hmem, rfl⟩ := List.mem_map.1 hcolumns
  obtain ⟨pairs, hkept, hrow⟩ := hrows row hmem
  refine ⟨pairs, hkept, row.1, row.2, _, hrow, rfl, ?_⟩
  exact List.mem_map_of_mem (List.mem_filter.2 ⟨hmem, by simp⟩)

/-- Kept matches are together in a group exactly if they name the same columns, each as often. -/
theorem together_iff_perm (h : classify requests mapper table = .ok groups)
    {pairs others : List ColumnValue} (hkept : IsKept mapper requests pairs)
    (hkept' : IsKept mapper requests others) :
    (∃ group ∈ groups, IsIn table pairs group ∧ IsIn table others group) ↔
      (names pairs).Perm (names others) := by
  obtain ⟨columns, ids, hordered, hperm, hmem, hin⟩ := exists_group_of_isKept h hkept
  obtain ⟨columns', ids', hordered', hperm', hmem', hin'⟩ := exists_group_of_isKept h hkept'
  rw [← eq_iff_perm hordered hordered' hperm hperm']
  constructor
  · rintro ⟨group, hgroup, hpairs, hothers⟩
    have heq := ((hin group hgroup).1 hpairs).symm.trans ((hin' group hgroup).1 hothers)
    cases heq
    rfl
  · rintro rfl
    cases ids_unique h hmem hmem'
    exact ⟨_, hmem, (hin _ hmem).2 rfl, (hin' _ hmem).2 rfl⟩

/-- Composite groups are keyed by the columns that their matches name, each as often as they name
it. They are keyed by sets of columns as far as no match names a column twice, and the columns of a
group are strictly increasing exactly if its matches name none twice. -/
theorem keyed_of_classify (h : classify requests mapper table = .ok groups) :
    IsKeyed requests mapper table groups where
  grouped := by
    intro pairs hkept
    obtain ⟨columns, ids, _, _, hmem, hin⟩ := exists_group_of_isKept h hkept
    refine ⟨.composite columns ids, ⟨hmem, (hin _ hmem).2 rfl⟩, ?_⟩
    rintro group ⟨hgroup, hpairs⟩
    exact (hin group hgroup).1 hpairs
  occupied := fun _ _ => exists_isKept_of_mem h
  ordered := by
    intro columns ids hgroup
    obtain ⟨pairs, _, _, _, _, hrow, heq, _⟩ := exists_isKept_of_mem h hgroup
    cases heq
    exact hrow.ordered
  strict_iff := by
    rintro columns ids _ pairs _ ⟨_, _, _, hrow, heq, _⟩
    cases heq
    rw [pairwise_lt_iff hrow.ordered, hrow.perm.nodup_iff]
  together_iff := fun _ _ => together_iff_perm h
  together_iff_of_nodup := by
    intro pairs others hkept hkept' hnodup hnodup'
    rw [together_iff_perm h hkept hkept', List.perm_ext_iff_of_nodup hnodup hnodup']

end

theorem keyed_bookings :
    classify Bookings.requests Bookings.mapper Bookings.table = .ok Bookings.groups ∧
      IsKeyed Bookings.requests Bookings.mapper Bookings.table Bookings.groups :=
  ⟨Bookings.classify_requests, keyed_of_classify Bookings.classify_requests⟩

/-! A queue with a match for a room and a match that gives this room twice. -/

namespace Twice

/-- A room as a document holds it, with the name of its column. -/
def room : Json :=
  .ofFields [("column", .ofString "room"), ("value", .ofInt 7)]

/-- The queue as a document holds it. -/
def queue : Json :=
  .array [.ofFields [("match_id", .array [room])], .ofFields [("match_id", .array [room, room])]]

/-- The columns and values of the two matches. -/
def pairs : List ColumnValue × List ColumnValue :=
  ([⟨"room", .integer 7⟩], [⟨"room", .integer 7⟩, ⟨"room", .integer 7⟩])

/-- The matches that the entries of the queue are read as. -/
def requests : List Match :=
  [.composite pairs.1 [], .composite pairs.2 []]

/-- The groups that the queue gives for the data mapper of bookings. -/
def groups : List Group :=
  [.composite ["room"] [[.integer 7]], .composite ["room", "room"] [[.integer 7, .integer 7]]]

end Twice

/-- Two matches of a queue name the same set of columns, and are not in the same group; the columns
of one of the groups are not strictly increasing. -/
theorem same_columns_torn_apart :
    Match.decodeList Json.depthLimit Twice.queue = .ok Twice.requests ∧
      classify Twice.requests Bookings.mapper Bookings.table = .ok Twice.groups ∧
      (∀ column, column ∈ names Twice.pairs.1 ↔ column ∈ names Twice.pairs.2) ∧
      (¬ ∃ group ∈ Twice.groups, IsIn Bookings.table Twice.pairs.1 group ∧
        IsIn Bookings.table Twice.pairs.2 group) ∧
      ∃ columns ids, .composite columns ids ∈ Twice.groups ∧ ¬ columns.Pairwise (· < ·) := by
  have h : classify Twice.requests Bookings.mapper Bookings.table = .ok Twice.groups := by
    simp only [classify, composites, sortColumns_eq_insertionSort]
    decide +kernel
  refine ⟨by decide +kernel, h, by simp [names, Twice.pairs], ?_, ["room", "room"],
    [[.integer 7, .integer 7]], by decide, by decide⟩
  have hkept : IsKept Bookings.mapper Twice.requests Twice.pairs.1 :=
    ⟨[], List.mem_cons_self, by decide, by decide⟩
  have hkept' : IsKept Bookings.mapper Twice.requests Twice.pairs.2 :=
    ⟨[], List.mem_cons_of_mem _ List.mem_cons_self, by decide, by decide⟩
  rw [together_iff_perm h hkept hkept']
  intro hperm
  exact absurd hperm.length_eq (by decide)

end Expunge.Classification
