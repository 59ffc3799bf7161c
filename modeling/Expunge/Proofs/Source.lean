import Expunge.Proofs.Outcomes
import Expunge.Source.Memory
import Mathlib.Data.List.Induction
import Mathlib.Data.List.Nodup

/-!
# Tables by their names

A list of entries answers with the first entry that describes a table, and a store with the last one
that was loaded (`TableStore.find_ofList`). Which order the entries come in matters only where two
of them have the same names (`CatalogEntry.find_perm`). What a catalog answers with is
`Catalog.AnswersWith`: the description of the table, and its partitions without the pages that they
come in.
-/

namespace Expunge

namespace CatalogEntry

theorem describes_iff {database table : String} {entry : CatalogEntry} :
    entry.describes database table = true ↔
      entry.table.database = database ∧ entry.table.name = table := by
  simp [describes]

/-- The names under which a table is looked up. -/
def names (entry : CatalogEntry) : String × String :=
  (entry.table.database, entry.table.name)

theorem describes_iff_names {database table : String} {entry : CatalogEntry} :
    entry.describes database table = true ↔ entry.names = (database, table) := by
  simp [names, describes]

theorem find_cons (entry : CatalogEntry) (rest : List CatalogEntry) (database table : String) :
    find (entry :: rest) database table =
      if entry.describes database table then .ok entry else find rest database table := by
  rw [find, List.find?_cons]
  cases entry.describes database table <;> rfl

/-- An entry that is found is one of the list and describes the table it is looked up for. -/
theorem mem_of_find {entries : List CatalogEntry} {database table : String} {entry : CatalogEntry}
    (h : find entries database table = .ok entry) :
    entry ∈ entries ∧ entry.describes database table = true := by
  rw [find] at h
  split at h
  · next hfound =>
    cases h
    exact ⟨List.mem_of_find?_eq_some hfound, List.find?_some hfound⟩
  · cases h

/-- An entry that is found describes the table it is looked up for. -/
theorem names_of_find {entries : List CatalogEntry} {database table : String}
    {entry : CatalogEntry} (h : find entries database table = .ok entry) :
    entry.table.database = database ∧ entry.table.name = table :=
  describes_iff.1 (mem_of_find h).2

/-- If no entry describes a table, looking it up says that it is not there. -/
theorem find_eq_error_iff {entries : List CatalogEntry} {database table : String}
    {error : SourceError} :
    find entries database table = .error error ↔
      (∀ entry ∈ entries, entry.describes database table = false) ∧
        error = .tableNotFound database table := by
  rw [find]
  split
  · next entry hfound =>
    refine ⟨nofun, ?_⟩
    rintro ⟨hnone, _⟩
    have hdescribes := List.find?_some hfound
    rw [hnone entry (List.mem_of_find?_eq_some hfound)] at hdescribes
    cases hdescribes
  · next hnone =>
    have hnone : ∀ entry ∈ entries, entry.describes database table = false := by
      simpa using hnone
    rw [and_iff_right hnone, Except.error.injEq, eq_comm]

/-- Entries that do not describe a table have no part in looking it up. -/
theorem find_filter {keep : CatalogEntry → Bool} {entries : List CatalogEntry}
    {database table : String}
    (hkeep : ∀ entry ∈ entries, entry.describes database table = true → keep entry = true) :
    find (entries.filter keep) database table = find entries database table := by
  induction entries with
  | nil => rfl
  | cons entry rest ih =>
    have ih := ih fun other hother => hkeep other (List.mem_cons_of_mem _ hother)
    rw [List.filter_cons, find_cons]
    split
    · rw [find_cons, ih]
    · next hdropped =>
      rw [ih, if_neg (mt (hkeep entry List.mem_cons_self) hdropped)]

/-- Where no two entries have the same names, every entry is found under its names. -/
theorem find_eq_ok_iff_mem {entries : List CatalogEntry} (hnodup : (entries.map names).Nodup)
    {database table : String} {entry : CatalogEntry} :
    find entries database table = .ok entry ↔
      entry ∈ entries ∧ entry.describes database table = true := by
  refine ⟨mem_of_find, ?_⟩
  rintro ⟨hmem, hdescribes⟩
  cases hfind : find entries database table with
  | error error =>
    have hnone := (find_eq_error_iff.1 hfind).1 entry hmem
    rw [hdescribes] at hnone
    cases hnone
  | ok found =>
    obtain ⟨hfound, hnames⟩ := mem_of_find hfind
    have hsame : found.names = entry.names :=
      (describes_iff_names.1 hnames).trans (describes_iff_names.1 hdescribes).symm
    rw [List.inj_on_of_nodup_map hnodup hfound hmem hsame]

/-- Where no two entries have the same names, their order has no part in looking a table up. -/
theorem find_perm {entries others : List CatalogEntry} (hperm : others.Perm entries)
    (hnodup : (entries.map names).Nodup) (database table : String) :
    find others database table = find entries database table := by
  have hnodup' : (others.map names).Nodup := (hperm.map names).nodup_iff.2 hnodup
  cases hfind : find entries database table with
  | ok entry =>
    obtain ⟨hmem, hdescribes⟩ := mem_of_find hfind
    exact (find_eq_ok_iff_mem hnodup').2 ⟨hperm.mem_iff.2 hmem, hdescribes⟩
  | error error =>
    obtain ⟨hnone, herror⟩ := find_eq_error_iff.1 hfind
    exact find_eq_error_iff.2 ⟨fun entry hentry => hnone entry (hperm.mem_iff.1 hentry), herror⟩

end CatalogEntry

namespace TableStore

/-- A table that is loaded is found under its names, and any other one as before. -/
theorem find_insert (store : TableStore) (entry : CatalogEntry) (database table : String) :
    CatalogEntry.find (store.insert entry).entries database table =
      if entry.describes database table then .ok entry
      else CatalogEntry.find store.entries database table := by
  rw [insert, CatalogEntry.find_cons]
  split
  · rfl
  · next hother =>
    -- an entry for these names is not among those that the loaded one replaces
    refine CatalogEntry.find_filter ?_
    intro other _ hdescribes
    obtain ⟨rfl, rfl⟩ := CatalogEntry.describes_iff.1 hdescribes
    rw [Bool.not_eq_true', Bool.eq_false_iff]
    intro hreplaced
    obtain ⟨hdatabase, hname⟩ := CatalogEntry.describes_iff.1 hreplaced
    exact hother (CatalogEntry.describes_iff.2 ⟨hdatabase.symm, hname.symm⟩)

theorem ofList_append_singleton (entries : List CatalogEntry) (entry : CatalogEntry) :
    ofList (entries ++ [entry]) = (ofList entries).insert entry := by
  simp [ofList]

/-- Of several tables with the same names the one that was loaded last is found. -/
theorem find_ofList (entries : List CatalogEntry) (database table : String) :
    CatalogEntry.find (ofList entries).entries database table =
      CatalogEntry.find entries.reverse database table := by
  induction entries using List.reverseRecOn with
  | nil => rfl
  | append_singleton entries entry ih =>
    rw [ofList_append_singleton, find_insert, List.reverse_append, List.reverse_singleton,
      List.singleton_append, CatalogEntry.find_cons, ih]

end TableStore

/-- What a feed delivers to its end, its failure included, without the pages it comes in. -/
def Feed.delivered (feed : Feed) : List (Except SourceError Partition) :=
  feed.filterMap fun
    | .page => none
    | .row row => some (.ok row)
    | .fault error => some (.error error)

namespace Feed

@[simp] theorem delivered_failed (error : SourceError) :
    (failed error).delivered = [.error error] :=
  rfl

/-- The rows of a feed are what it delivers, unless it fails. -/
theorem rows_eq_mapM (feed : Feed) : feed.rows = feed.delivered.mapM id := by
  induction feed with
  | nil => rfl
  | cons step rest ih =>
    cases step with
    | page => exact ih
    | fault error => rfl
    | row row =>
      have hdelivered : delivered (.row row :: rest) = .ok row :: delivered rest := rfl
      rw [rows, ih, hdelivered, List.mapM_cons]
      rfl

/-- A feed has rows if it delivers them and nothing else. -/
theorem rows_eq_ok_iff {feed : Feed} {rows : List Partition} :
    feed.rows = .ok rows ↔ feed.delivered = rows.map .ok := by
  rw [rows_eq_mapM, Outcome.mapM_eq_ok_iff, ← List.forall₂_eq_eq_eq, List.forall₂_map_right_iff]
  rfl

/-- Paging changes nothing about what is delivered. -/
@[simp] theorem delivered_paged (pageSize : Nat) (rows : List Partition) :
    (paged pageSize rows).delivered = rows.map .ok := by
  have hpage : ∀ page : List Partition,
      Feed.delivered (.page :: page.map .row) = page.map .ok := by
    intro page
    simp [delivered, List.filterMap_map]
  have hpages : (paged pageSize rows).delivered =
      (pieces pageSize rows).flatMap fun page => page.map .ok := by
    rw [paged, delivered, List.filterMap_flatMap]
    exact congrArg (List.flatMap · _) (funext hpage)
  rw [hpages, List.flatMap_def, ← List.map_flatten, flatten_pieces]

end Feed

namespace Catalog

/-- What looking a table up makes a catalog deliver: the partitions of the entry, or the error. -/
def partitionsOf : Except SourceError CatalogEntry → List (Except SourceError Partition)
  | .ok entry => entry.partitions.map .ok
  | .error error => [.error error]

/-- A catalog answers for the names of a table with an entry, in both of the requests that it takes,
or with an error in both. -/
structure AnswersWith (catalog : Catalog) (database name : String)
    (answer : Except SourceError CatalogEntry) : Prop where
  table : catalog.table database name = answer.map (·.table)
  partitions : (catalog.partitions database name).delivered = partitionsOf answer

/-- The catalog of a list of entries answers with the first one, however long its pages are. -/
theorem answersWith_ofEntries (pageSize : Nat) (entries : List CatalogEntry)
    (database name : String) :
    (ofEntries pageSize entries).AnswersWith database name
      (CatalogEntry.find entries database name) where
  table := rfl
  partitions := by
    simp only [ofEntries]
    cases CatalogEntry.find entries database name <;> simp [partitionsOf]

end Catalog

end Expunge
