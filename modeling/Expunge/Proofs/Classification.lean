import Expunge.Proofs.Classification.Distinct
import Expunge.Proofs.Outcomes
import Mathlib.Data.List.Sort

/-!
# What classification keeps and what it makes up

The groups of a data mapper against the matches they come from. `simple_mem_iff` says which typed
values the simple groups hold and `composite_mem_iff` which tuples the composite ones do, both as an
equivalence with the applicable matches, so that nothing is lost and nothing is invented. The
`exists_` lemmas beside them say that every cast a match asks for has succeeded.

Two facts carry this. The order of the columns of a match is unique (`IsOrdering.unique`). The loop
over the composite matches collects their rows (`compositeTuples_eq`): one more match adds its tuple
to the rows collected so far as `addTuple_collect` says.
-/

namespace Expunge.Classification

/-! ## Applicable matches -/

/-- The matches that are compiled for a data mapper are those in whose scope it is. -/
theorem mem_applicable_iff {mapper : String} {requests : List Match} {request : Match} :
    request ∈ applicable mapper requests ↔
      request ∈ requests ∧ request.appliesTo mapper = true := by
  rw [applicable, mem_distinct_iff, List.mem_filter]

theorem mem_simpleValues_iff {requests : List Match} {value : Value} :
    value ∈ simpleValues requests ↔ ∃ scope, .simple value scope ∈ requests := by
  rw [simpleValues, List.mem_filterMap]
  constructor
  · rintro ⟨request, hmem, h⟩
    cases request with
    | simple _ scope => cases h; exact ⟨scope, hmem⟩
    | composite _ _ => cases h
  · rintro ⟨scope, hmem⟩
    exact ⟨_, hmem, rfl⟩

theorem mem_composites_iff {requests : List Match} {sorted : List ColumnValue} :
    sorted ∈ composites requests ↔
      ∃ pairs scope, .composite pairs scope ∈ requests ∧ sorted = sortColumns pairs := by
  rw [composites, List.mem_filterMap]
  constructor
  · rintro ⟨request, hmem, h⟩
    cases request with
    | simple _ _ => cases h
    | composite pairs scope => cases h; exact ⟨pairs, scope, hmem, rfl⟩
  · rintro ⟨pairs, scope, hmem, rfl⟩
    exact ⟨_, hmem, rfl⟩

/-! ## The order of the columns -/

/-- A list holds the columns of a composite match in the order of their names, columns of one name
in the order of the match. -/
structure IsOrdering (pairs sorted : List ColumnValue) : Prop where
  ordered : sorted.Pairwise fun a b => a.column ≤ b.column
  stable : ∀ column : String,
    sorted.filter (fun pair => pair.column = column) =
      pairs.filter fun pair => pair.column = column

/-- Lists that hold the same pairs for every column hold the same pairs. -/
theorem mem_iff_of_filter_eq {pairs others : List ColumnValue}
    (h : ∀ column : String,
      pairs.filter (fun pair => pair.column = column) =
        others.filter fun pair => pair.column = column)
    {pair : ColumnValue} : pair ∈ pairs ↔ pair ∈ others := by
  have hfilter : ∀ list : List ColumnValue,
      pair ∈ list ↔ pair ∈ list.filter fun other => other.column = pair.column := by
    intro list
    simp
  rw [hfilter pairs, h, ← hfilter others]

/-- An ordering holds the pairs of the match and no others. -/
theorem IsOrdering.mem_iff {pairs sorted : List ColumnValue} (h : IsOrdering pairs sorted)
    {pair : ColumnValue} : pair ∈ sorted ↔ pair ∈ pairs :=
  mem_iff_of_filter_eq h.stable

/-- Lists in the order of the columns that hold the same pairs for every column, in the same order,
are the same. -/
theorem eq_of_ordered {sorted others : List ColumnValue}
    (h : sorted.Pairwise fun a b => a.column ≤ b.column)
    (h' : others.Pairwise fun a b => a.column ≤ b.column)
    (hfilter : ∀ column : String,
      sorted.filter (fun pair => pair.column = column) =
        others.filter fun pair => pair.column = column) : sorted = others := by
  induction sorted generalizing others with
  | nil =>
    cases others with
    | nil => rfl
    | cons first' rest' => simpa using (mem_iff_of_filter_eq hfilter).2 List.mem_cons_self
  | cons first rest ih =>
    cases others with
    | nil => simpa using (mem_iff_of_filter_eq hfilter).1 List.mem_cons_self
    | cons first' rest' =>
      obtain ⟨hle, hrest⟩ := List.pairwise_cons.1 h
      obtain ⟨hle', hrest'⟩ := List.pairwise_cons.1 h'
      have hleast : ∀ pair ∈ first :: rest, first.column ≤ pair.column :=
        List.forall_mem_cons.2 ⟨String.le_refl _, hle⟩
      have hleast' : ∀ pair ∈ first' :: rest', first'.column ≤ pair.column :=
        List.forall_mem_cons.2 ⟨String.le_refl _, hle'⟩
      -- both lists start with the least column, hence with the first pair for it
      have hcolumn : first.column = first'.column := by
        refine String.le_antisymm ?_ ?_
        · exact hleast _ ((mem_iff_of_filter_eq hfilter).2 List.mem_cons_self)
        · exact hleast' _ ((mem_iff_of_filter_eq hfilter).1 List.mem_cons_self)
      have hfirst := hfilter first.column
      rw [List.filter_cons_of_pos (by simp), List.filter_cons_of_pos (by simp [hcolumn]),
        List.cons.injEq] at hfirst
      obtain ⟨rfl, hsame⟩ := hfirst
      refine congrArg _ (ih hrest hrest' ?_)
      intro column
      by_cases heq : first.column = column
      · exact heq ▸ hsame
      · have hothers := hfilter column
        rwa [List.filter_cons_of_neg (by simpa using heq),
          List.filter_cons_of_neg (by simpa using heq)] at hothers

/-- There is only one ordering of a match. -/
theorem IsOrdering.unique {pairs sorted sorted' : List ColumnValue} (h : IsOrdering pairs sorted)
    (h' : IsOrdering pairs sorted') : sorted = sorted' :=
  eq_of_ordered h.ordered h'.ordered fun column => (h.stable column).trans (h'.stable column).symm

/-- A sort is an ordering if it is stable: it keeps the pairs that are in order already. -/
theorem IsOrdering.of_perm_of_sublist {pairs sorted : List ColumnValue}
    (hordered : sorted.Pairwise fun a b => a.column ≤ b.column) (hperm : sorted.Perm pairs)
    (hstable : ∀ {kept : List ColumnValue}, kept.Pairwise (fun a b => a.column ≤ b.column) →
      kept.Sublist pairs → kept.Sublist sorted) : IsOrdering pairs sorted where
  ordered := hordered
  stable := by
    intro column
    have hkept : (pairs.filter fun pair => pair.column = column).Pairwise
        fun a b => a.column ≤ b.column := by
      refine List.pairwise_of_forall_mem_list ?_
      intro a ha b hb
      simp only [List.mem_filter, decide_eq_true_eq] at ha hb
      simp [ha.2, hb.2]
    have hsub := (hstable hkept List.filter_sublist).filter
      fun pair => decide (pair.column = column)
    simp only [List.filter_filter, Bool.and_self] at hsub
    have hlength := (hperm.filter fun pair => decide (pair.column = column)).length_eq
    exact (hsub.eq_of_length hlength.symm).symm

/-- Sorting loses no column and adds none. -/
theorem perm_sortColumns (pairs : List ColumnValue) : (sortColumns pairs).Perm pairs :=
  List.mergeSort_perm pairs _

/-- Columns are put in order by a stable sort. -/
theorem isOrdering_sortColumns (pairs : List ColumnValue) :
    IsOrdering pairs (sortColumns pairs) := by
  have htrans : ∀ a b c : ColumnValue, decide (a.column ≤ b.column) = true →
      decide (b.column ≤ c.column) = true → decide (a.column ≤ c.column) = true := by
    simp only [decide_eq_true_eq]
    exact fun _ _ _ => String.le_trans
  have htotal : ∀ a b : ColumnValue,
      (decide (a.column ≤ b.column) || decide (b.column ≤ a.column)) = true := by
    simp only [Bool.or_eq_true, decide_eq_true_eq]
    exact fun a b => String.le_total a.column b.column
  refine .of_perm_of_sublist ?_ (perm_sortColumns pairs) ?_
  · have h := List.pairwise_mergeSort htrans htotal pairs
    simpa only [sortColumns, decide_eq_true_eq] using h
  · intro kept hkept hsub
    exact List.sublist_mergeSort htrans htotal (by simpa only [decide_eq_true_eq]) hsub

/-- Sorting by insertion comes to the same order. Unlike the sort by merging, it is a structural
recursion, hence can be evaluated. -/
theorem sortColumns_eq_insertionSort :
    sortColumns = List.insertionSort fun a b => a.column ≤ b.column := by
  have : IsTrans ColumnValue fun a b => a.column ≤ b.column := ⟨fun _ _ _ => String.le_trans⟩
  have : Std.Total fun a b : ColumnValue => a.column ≤ b.column :=
    ⟨fun a b => String.le_total a.column b.column⟩
  funext pairs
  refine (isOrdering_sortColumns pairs).unique (.of_perm_of_sublist ?_ ?_ ?_)
  · exact List.pairwise_insertionSort _ pairs
  · exact List.perm_insertionSort _ pairs
  · exact fun hkept hsub => List.sublist_insertionSort hkept hsub

/-! ## Simple groups -/

/-- A column's typed values are the single values, each cast to the type of the column. -/
def IsCastOf (table : Table) (column : String) (values ids : List Value) : Prop :=
  List.Forall₂ (fun value typed => Column.cast value column table.columns = .ok typed) values ids

/-- Casting gives the same list every time. -/
theorem IsCastOf.unique {table : Table} {column : String} {values ids ids' : List Value}
    (h : IsCastOf table column values ids) (h' : IsCastOf table column values ids') :
    ids = ids' := by
  have h := Outcome.mapM_eq_ok_iff.2 h
  have h' := Outcome.mapM_eq_ok_iff.2 h'
  rw [h] at h'
  cases h'
  rfl

/-- With single values there is a simple group for each configured column, in order. -/
theorem forall₂_of_simpleGroups {columns : List String} {table : Table} {values : List Value}
    {groups : List Group} (hvalues : values ≠ [])
    (h : simpleGroups columns table values = .ok groups) :
    List.Forall₂ (fun column group =>
      ∃ ids, IsCastOf table column values ids ∧ group = .simple column ids) columns groups := by
  rw [simpleGroups, if_neg (by simpa using hvalues)] at h
  refine (Outcome.mapM_eq_ok_iff.1 h).imp ?_
  intro column group hgroup
  obtain ⟨ids, hids, h⟩ := Outcome.bind_eq_ok_iff.1 hgroup
  cases h
  exact ⟨ids, Outcome.mapM_eq_ok_iff.1 hids, rfl⟩

/-- The simple groups are exactly those of the configured columns, if there is a value at all. -/
theorem mem_simpleGroups_iff {columns : List String} {table : Table} {values : List Value}
    {groups : List Group} (h : simpleGroups columns table values = .ok groups) {group : Group} :
    group ∈ groups ↔ values ≠ [] ∧
      ∃ column ∈ columns, ∃ ids, IsCastOf table column values ids ∧ group = .simple column ids := by
  by_cases hvalues : values = []
  · subst hvalues
    cases h
    simp
  have hall := forall₂_of_simpleGroups hvalues h
  constructor
  · intro hgroup
    obtain ⟨column, hcolumn, hids⟩ := Outcome.exists_left_of_forall₂ hall hgroup
    exact ⟨hvalues, column, hcolumn, hids⟩
  · rintro ⟨_, column, hcolumn, ids, hids, rfl⟩
    obtain ⟨group, hgroup, ids', hids', rfl⟩ := Outcome.exists_right_of_forall₂ hall hcolumn
    rwa [hids.unique hids']

/-! ## Composite groups -/

/-- The tuples of rows by the columns they are for: the lists of columns in the order in which the
rows first name them, and under each of them the tuples of its rows in order. -/
def collect (rows : List (List String × List Value)) : List (List String × List (List Value)) :=
  (rows.map (·.1)).eraseDups.map fun columns => (columns, (rows.filter (·.1 = columns)).map (·.2))

/-- The lists of columns that tuples are collected under are distinct. -/
theorem nodup_collect (rows : List (List String × List Value)) :
    ((collect rows).map (·.1)).Nodup := by
  rw [collect, List.map_map]
  simpa only [Function.comp_def, List.map_id'] using nodup_eraseDups (rows.map (·.1))

theorem mem_collect_iff {rows : List (List String × List Value)} {columns : List String}
    {tuples : List (List Value)} :
    (columns, tuples) ∈ collect rows ↔
      columns ∈ rows.map (·.1) ∧ (rows.filter (·.1 = columns)).map (·.2) = tuples := by
  rw [collect, List.mem_map]
  constructor
  · rintro ⟨_, hmem, heq⟩
    cases heq
    exact ⟨List.mem_eraseDups.1 hmem, rfl⟩
  · rintro ⟨hmem, rfl⟩
    exact ⟨columns, List.mem_eraseDups.2 hmem, rfl⟩

/-- Adding a tuple to groups under distinct columns: it comes last under its own columns, which come
last if they are new. -/
theorem addTuple_map {keys : List (List String)} {tuples : List String → List (List Value)}
    {columns : List String} {tuple : List Value} (hnodup : keys.Nodup)
    (hnew : columns ∉ keys → tuples columns = []) :
    addTuple columns tuple (keys.map fun names => (names, tuples names)) =
      (keys ++ if columns ∈ keys then [] else [columns]).map fun names =>
        (names, tuples names ++ if columns = names then [tuple] else []) := by
  induction keys with
  | nil => simp [addTuple, hnew List.not_mem_nil]
  | cons key keys ih =>
    obtain ⟨hkey, hkeys⟩ := List.nodup_cons.1 hnodup
    rw [List.map_cons, addTuple]
    split
    · next heq =>
      -- no key after the first one is the same, so the other groups stay as they are
      cases heq
      rw [if_pos List.mem_cons_self, List.append_nil, List.map_cons, if_pos rfl]
      refine congrArg _ (List.map_congr_left ?_)
      intro names hnames
      have hne : key ≠ names := fun h => hkey (h ▸ hnames)
      rw [if_neg hne, List.append_nil]
    · next hne =>
      rw [ih hkeys fun h => hnew (by simp [Ne.symm hne, h]), List.cons_append, List.map_cons,
        if_neg (Ne.symm hne), List.append_nil]
      simp only [List.mem_cons, Ne.symm hne, false_or]

/-- Adding the tuple of one more row to the tuples of rows collects the tuples of all of them. -/
theorem addTuple_collect (rows : List (List String × List Value)) (columns : List String)
    (tuple : List Value) :
    addTuple columns tuple (collect rows) = collect (rows ++ [(columns, tuple)]) := by
  have htuples : ∀ names : List String,
      ((rows ++ [(columns, tuple)]).filter (·.1 = names)).map (·.2) =
        (rows.filter (·.1 = names)).map (·.2) ++ if columns = names then [tuple] else [] := by
    intro names
    rw [List.filter_append, List.map_append]
    split <;> simp_all
  have hkeys : ((rows ++ [(columns, tuple)]).map (·.1)).eraseDups =
      (rows.map (·.1)).eraseDups ++
        if columns ∈ (rows.map (·.1)).eraseDups then [] else [columns] := by
    rw [List.map_append, List.map_singleton, eraseDups_append_singleton]
    simp only [List.mem_eraseDups]
  have hnew : columns ∉ (rows.map (·.1)).eraseDups →
      (rows.filter (·.1 = columns)).map (·.2) = [] := by
    intro h
    rw [List.map_eq_nil_iff, List.filter_eq_nil_iff]
    intro row hrow hcolumns
    refine h (List.mem_eraseDups.2 (List.mem_map.2 ⟨row, hrow, ?_⟩))
    simpa using hcolumns
  rw [collect, addTuple_map (nodup_eraseDups _) hnew, collect, hkeys]
  simp only [htuples]

/-- The row that a composite match adds: the columns it names, in the order in which it is given
them, and its values, each cast to the type of its column. -/
def castRow (table : Table) (pairs : List ColumnValue) :
    Except ColumnError (List String × List Value) := do
  return (pairs.map (·.column), ← castTuple table pairs)

theorem castRow_eq_ok_iff {table : Table} {pairs : List ColumnValue}
    {row : List String × List Value} :
    castRow table pairs = .ok row ↔
      castTuple table pairs = .ok row.2 ∧ row.1 = pairs.map (·.column) := by
  obtain ⟨columns, tuple⟩ := row
  rw [castRow, Outcome.bind_eq_ok_iff]
  constructor
  · rintro ⟨_, htuple, h⟩
    cases h
    exact ⟨htuple, rfl⟩
  · rintro ⟨htuple, rfl⟩
    exact ⟨tuple, htuple, rfl⟩

/-- Collecting tuples one match after the other collects the rows of all matches. -/
theorem collectTuples_eq (table : Table) (composites : List (List ColumnValue))
    (rows : List (List String × List Value)) :
    composites.foldlM (fun groups (pairs : List ColumnValue) => do
      let tuple ← castTuple table pairs
      return addTuple (pairs.map ColumnValue.column) tuple groups) (collect rows) =
    (composites.mapM (castRow table)).map fun more => collect (rows ++ more) := by
  induction composites generalizing rows with
  | nil => exact congrArg (Except.ok ∘ collect) (List.append_nil rows).symm
  | cons pairs rest ih =>
    rw [List.foldlM_cons, List.mapM_cons, castRow]
    cases castTuple table pairs with
    | error error => rfl
    | ok tuple =>
      have hrest := ih (rows ++ [(pairs.map ColumnValue.column, tuple)])
      rw [← addTuple_collect] at hrest
      refine hrest.trans ?_
      cases rest.mapM (castRow table) with
      | error error => rfl
      | ok more => exact congrArg (Except.ok ∘ collect) (List.append_assoc rows _ more)

/-- The rows of the composite matches whose columns are all configured are collected. -/
theorem compositeTuples_eq (columns : List String) (table : Table)
    (composites : List (List ColumnValue)) :
    compositeTuples columns table composites =
      ((composites.filter fun pairs => pairs.all fun pair => columns.contains pair.column).mapM
        (castRow table)).map collect :=
  collectTuples_eq table _ []

/-- A tuple is collected under the columns that it is for. -/
def HasTuple (groups : List (List String × List (List Value))) (columns : List String)
    (tuple : List Value) : Prop :=
  ∃ tuples, (columns, tuples) ∈ groups ∧ tuple ∈ tuples

/-- Rows have the tuples that are collected from them. -/
theorem hasTuple_collect_iff {rows : List (List String × List Value)} {columns : List String}
    {tuple : List Value} : HasTuple (collect rows) columns tuple ↔ (columns, tuple) ∈ rows := by
  constructor
  · rintro ⟨_, hmem, htuple⟩
    obtain ⟨_, rfl⟩ := mem_collect_iff.1 hmem
    simpa using htuple
  · intro hrow
    refine ⟨_, mem_collect_iff.2 ⟨List.mem_map_of_mem hrow, rfl⟩, ?_⟩
    simpa using hrow

theorem ne_nil_of_mem_collect {rows : List (List String × List Value)}
    {group : List String × List (List Value)} (h : group ∈ collect rows) : group.2 ≠ [] := by
  obtain ⟨columns, tuples⟩ := group
  obtain ⟨hmem, rfl⟩ := mem_collect_iff.1 h
  obtain ⟨row, hrow, rfl⟩ := List.mem_map.1 hmem
  exact List.ne_nil_of_mem (List.mem_map_of_mem (List.mem_filter.2 ⟨hrow, by simp⟩))

/-- The composite matches whose columns are all configured are cast, and the others left out: the
groups hold the tuples of the former, none of them being empty. -/
theorem compositeTuples_spec {columns : List String} {table : Table}
    {composites : List (List ColumnValue)} {groups : List (List String × List (List Value))}
    (h : compositeTuples columns table composites = .ok groups) :
    (∀ pairs ∈ composites, (∀ pair ∈ pairs, pair.column ∈ columns) →
        ∃ tuple, castTuple table pairs = .ok tuple) ∧
      (∀ group ∈ groups, group.2 ≠ []) ∧
      ∀ names tuple, HasTuple groups names tuple ↔ ∃ pairs ∈ composites,
        (∀ pair ∈ pairs, pair.column ∈ columns) ∧ names = pairs.map (·.column) ∧
          castTuple table pairs = .ok tuple := by
  rw [compositeTuples_eq, Outcome.map_eq_ok_iff] at h
  obtain ⟨rows, hrows, rfl⟩ := h
  have hrows := Outcome.mapM_eq_ok_iff.1 hrows
  have hfilter : ∀ pairs : List ColumnValue,
      pairs ∈ (composites.filter fun pairs => pairs.all fun pair => columns.contains pair.column) ↔
        pairs ∈ composites ∧ ∀ pair ∈ pairs, pair.column ∈ columns := by
    intro pairs
    simp
  refine ⟨?_, fun _ hgroup => ne_nil_of_mem_collect hgroup, ?_⟩
  · intro pairs hpairs hcolumns
    obtain ⟨row, _, hrow⟩ :=
      Outcome.exists_right_of_forall₂ hrows ((hfilter pairs).2 ⟨hpairs, hcolumns⟩)
    exact ⟨row.2, (castRow_eq_ok_iff.1 hrow).1⟩
  · intro names tuple
    rw [hasTuple_collect_iff]
    constructor
    · intro hrow
      obtain ⟨pairs, hpairs, hcast⟩ := Outcome.exists_left_of_forall₂ hrows hrow
      obtain ⟨hmem, hcolumns⟩ := (hfilter pairs).1 hpairs
      obtain ⟨htuple, hnames⟩ := castRow_eq_ok_iff.1 hcast
      exact ⟨pairs, hmem, hcolumns, hnames, htuple⟩
    · rintro ⟨pairs, hmem, hcolumns, rfl, htuple⟩
      obtain ⟨row, hrow, hcast⟩ :=
        Outcome.exists_right_of_forall₂ hrows ((hfilter pairs).2 ⟨hmem, hcolumns⟩)
      obtain ⟨htuple', hnames⟩ := castRow_eq_ok_iff.1 hcast
      rw [htuple] at htuple'
      cases htuple'
      exact hnames ▸ hrow

/-! ## Groups of a data mapper -/

section
variable {requests : List Match} {mapper : Mapper} {table : Table} {groups : List Group}

/-- The simple groups come first and the composite ones after them. -/
theorem exists_of_classify (h : classify requests mapper table = .ok groups) :
    ∃ simple tuples,
      simpleGroups mapper.columns table (simpleValues (applicable mapper.id requests)) =
        .ok simple ∧
      compositeTuples mapper.columns table (composites (applicable mapper.id requests)) =
        .ok tuples ∧
      groups = simple ++ tuples.map fun group => .composite group.1 group.2 := by
  rw [classify] at h
  obtain ⟨simple, hsimple, h⟩ := Outcome.bind_eq_ok_iff.1 h
  obtain ⟨tuples, htuples, h⟩ := Outcome.bind_eq_ok_iff.1 h
  cases h
  exact ⟨simple, tuples, hsimple, htuples, rfl⟩

/-- The simple groups are those of the configured columns, each with the single values of all
applicable matches, if there are any. -/
theorem simple_mem_iff (h : classify requests mapper table = .ok groups) {column : String}
    {ids : List Value} :
    .simple column ids ∈ groups ↔ column ∈ mapper.columns ∧
      simpleValues (applicable mapper.id requests) ≠ [] ∧
      IsCastOf table column (simpleValues (applicable mapper.id requests)) ids := by
  obtain ⟨simple, tuples, hsimple, _, rfl⟩ := exists_of_classify h
  have hcomposite : Group.simple column ids ∉
      tuples.map fun group => Group.composite group.1 group.2 := by simp
  rw [List.mem_append, or_iff_left hcomposite, mem_simpleGroups_iff hsimple]
  constructor
  · rintro ⟨hvalues, column', hcolumn, ids', hids, heq⟩
    cases heq
    exact ⟨hcolumn, hvalues, hids⟩
  · rintro ⟨hcolumn, hvalues, hids⟩
    exact ⟨hvalues, column, hcolumn, ids, hids, rfl⟩

/-- A simple match in scope has its value cast for every configured column. -/
theorem exists_simple_of_mem (h : classify requests mapper table = .ok groups) {value : Value}
    {scope : List String} (hmem : .simple value scope ∈ requests)
    (happlies : (Match.simple value scope).appliesTo mapper.id = true) {column : String}
    (hcolumn : column ∈ mapper.columns) :
    ∃ ids, .simple column ids ∈ groups ∧
      ∃ typed ∈ ids, Column.cast value column table.columns = .ok typed := by
  have hvalue : value ∈ simpleValues (applicable mapper.id requests) :=
    mem_simpleValues_iff.2 ⟨scope, mem_applicable_iff.2 ⟨hmem, happlies⟩⟩
  have hvalues := List.ne_nil_of_mem hvalue
  obtain ⟨simple, tuples, hsimple, _, rfl⟩ := exists_of_classify h
  obtain ⟨group, hgroup, ids, hids, rfl⟩ :=
    Outcome.exists_right_of_forall₂ (forall₂_of_simpleGroups hvalues hsimple) hcolumn
  obtain ⟨typed, htyped, hcast⟩ := Outcome.exists_right_of_forall₂ hids hvalue
  exact ⟨ids, List.mem_append_left _ hgroup, typed, htyped, hcast⟩

/-- A composite group is not empty. -/
theorem composite_ne_nil (h : classify requests mapper table = .ok groups) {columns : List String}
    {ids : List (List Value)} (hgroup : .composite columns ids ∈ groups) : ids ≠ [] := by
  obtain ⟨simple, tuples, hsimple, htuples, rfl⟩ := exists_of_classify h
  rcases List.mem_append.1 hgroup with hgroup | hgroup
  · obtain ⟨_, _, _, _, _, heq⟩ := (mem_simpleGroups_iff hsimple).1 hgroup
    cases heq
  · obtain ⟨group, hmem, heq⟩ := List.mem_map.1 hgroup
    cases heq
    exact (compositeTuples_spec htuples).2.1 group hmem

/-- The tuples of the composite groups are those of the applicable composite matches whose columns
are all configured, with their columns in order. -/
theorem composite_mem_iff (h : classify requests mapper table = .ok groups) {columns : List String}
    {tuple : List Value} :
    (∃ ids, .composite columns ids ∈ groups ∧ tuple ∈ ids) ↔
      ∃ pairs scope, .composite pairs scope ∈ requests ∧
        (Match.composite pairs scope).appliesTo mapper.id = true ∧
        (∀ pair ∈ pairs, pair.column ∈ mapper.columns) ∧
        columns = (sortColumns pairs).map (·.column) ∧
        castTuple table (sortColumns pairs) = .ok tuple := by
  obtain ⟨simple, tuples, hsimple, htuples, rfl⟩ := exists_of_classify h
  have hhas : (∃ ids, Group.composite columns ids ∈
      simple ++ tuples.map (fun group => Group.composite group.1 group.2) ∧ tuple ∈ ids) ↔
      HasTuple tuples columns tuple := by
    have hsimple : ∀ ids, Group.composite columns ids ∉ simple := by
      intro ids hmem
      obtain ⟨_, _, _, _, _, heq⟩ := (mem_simpleGroups_iff hsimple).1 hmem
      cases heq
    simp [HasTuple, hsimple]
  rw [hhas, (compositeTuples_spec htuples).2.2]
  have hsorted : ∀ pairs : List ColumnValue,
      (∀ pair ∈ sortColumns pairs, pair.column ∈ mapper.columns) ↔
        ∀ pair ∈ pairs, pair.column ∈ mapper.columns := by
    intro pairs
    simp only [(isOrdering_sortColumns pairs).mem_iff]
  constructor
  · rintro ⟨sorted, hsorted', hcolumns, rfl, hcast⟩
    obtain ⟨pairs, scope, happlicable, rfl⟩ := mem_composites_iff.1 hsorted'
    obtain ⟨hmem, happlies⟩ := mem_applicable_iff.1 happlicable
    exact ⟨pairs, scope, hmem, happlies, (hsorted pairs).1 hcolumns, rfl, hcast⟩
  · rintro ⟨pairs, scope, hmem, happlies, hcolumns, rfl, hcast⟩
    exact ⟨sortColumns pairs,
      mem_composites_iff.2 ⟨pairs, scope, mem_applicable_iff.2 ⟨hmem, happlies⟩, rfl⟩,
      (hsorted pairs).2 hcolumns, rfl, hcast⟩

/-- A composite match in scope whose columns are all configured has its values cast. -/
theorem exists_castTuple_of_mem (h : classify requests mapper table = .ok groups)
    {pairs : List ColumnValue} {scope : List String} (hmem : .composite pairs scope ∈ requests)
    (happlies : (Match.composite pairs scope).appliesTo mapper.id = true)
    (hcolumns : ∀ pair ∈ pairs, pair.column ∈ mapper.columns) :
    ∃ tuple, castTuple table (sortColumns pairs) = .ok tuple := by
  obtain ⟨simple, tuples, _, htuples, rfl⟩ := exists_of_classify h
  refine (compositeTuples_spec htuples).1 (sortColumns pairs) ?_ ?_
  · exact mem_composites_iff.2 ⟨pairs, scope, mem_applicable_iff.2 ⟨hmem, happlies⟩, rfl⟩
  · simpa only [(isOrdering_sortColumns pairs).mem_iff] using hcolumns

end

end Expunge.Classification
