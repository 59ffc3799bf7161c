import Expunge.Proofs.Binary64.Exact
import Expunge.Proofs.Classification
import Expunge.Proofs.Column.Cast

/-!
# What is searched for in a single column

The values of the simple matches that apply to a data mapper, without those of repeated matches, in
the order of the queue (`firstValues`). They are defined from the matches alone, by comparing values
and scopes two at a time, floats by their bits; the pass over all matches at once keeps the same
ones (`simpleValues_applicable`). The simple groups hold exactly these values, for every configured
column in the type of the column (`simple_groups_exact`).
-/

namespace Expunge

/-! ## Sameness of values -/

namespace Value

/-- Two values have the same shape and the same content; floats have the same bits. -/
def isSame : Value → Value → Bool
  | integer a, integer b => a = b
  | float a, float b => a.toBits = b.toBits
  | text a, text b => a = b
  | _, _ => false

theorem isSame_iff (a b : Value) : a.isSame b = true ↔ a = b := by
  cases a <;> cases b <;> simp [isSame, Binary64.toBits_inj]

end Value

namespace Classification

/-! ## The values of the first matches -/

/-- What a simple match gives: its value, and the scope that it was given with. -/
def scopedValue? : Match → Option (Value × List String)
  | .simple value scope => some (value, scope)
  | .composite _ _ => none

/-- The value and the scope of a simple match tell which match it is. -/
theorem eq_of_scopedValue? {request other : Match} {pair : Value × List String}
    (h : scopedValue? request = some pair) (h' : scopedValue? other = some pair) :
    request = other := by
  cases request with
  | simple value scope =>
    cases h
    cases other with
    | simple _ _ => cases h'; rfl
    | composite _ _ => cases h'
  | composite _ _ => cases h

/-- Two values are the same and were given with the same scope. -/
def isSameScoped (a b : Value × List String) : Bool :=
  a.1.isSame b.1 && a.2 == b.2

theorem isSameScoped_iff (a b : Value × List String) : isSameScoped a b = true ↔ a = b := by
  rw [isSameScoped, Bool.and_eq_true, Value.isSame_iff, beq_iff_eq, Prod.ext_iff]

/-- The values of the simple matches that apply to a data mapper, in order, of several that are the
same and were given with the same scope only the first. -/
def firstValues (mapper : String) (requests : List Match) : List Value :=
  (((requests.filter (·.appliesTo mapper)).filterMap scopedValue?).eraseDupsBy isSameScoped).map
    Prod.fst

/-- Repeated matches may be left out before or after telling simple matches from composite ones. -/
theorem simpleValues_applicable (mapper : String) (requests : List Match) :
    simpleValues (applicable mapper requests) = firstValues mapper requests := by
  have hvalues : ∀ list : List Match,
      simpleValues list = (list.filterMap scopedValue?).map Prod.fst := by
    intro list
    rw [simpleValues, List.map_filterMap]
    refine List.filterMap_congr ?_
    intro request _
    cases request <;> rfl
  rw [hvalues, applicable, filterMap_distinct eq_of_scopedValue?,
    distinct_eq_eraseDupsBy isSameScoped_iff, firstValues]

/-! ## The groups -/

/-- All values of a column are cast to one kind, which the column resolves to. -/
theorem exists_kind_of_isCastOf {table : Table} {column : String} {values ids : List Value}
    (hvalues : values ≠ []) (h : IsCastOf table column values ids) :
    ∃ kind, Column.resolve table.columns column = .ok kind ∧
      List.Forall₂ (fun value typed => value.castTo? kind = some typed) values ids := by
  cases h with
  | nil => exact absurd rfl hvalues
  | @cons value typed _ _ hfirst hrest =>
    obtain ⟨kind, hkind, htyped⟩ := Column.cast_eq_ok_iff.1 hfirst
    refine ⟨kind, hkind, .cons htyped (hrest.imp ?_)⟩
    intro other typed' hcast
    obtain ⟨kind', hkind', htyped'⟩ := Column.cast_eq_ok_iff.1 hcast
    rw [hkind] at hkind'
    cases hkind'
    exact htyped'

/-- A simple group holds the given values, in order, in the type of the column it is for. -/
def IsSimpleGroup (table : Table) (values : List Value) (column : String) (group : Group) : Prop :=
  ∃ kind ids, Column.resolve table.columns column = .ok kind ∧
    List.Forall₂ (fun value typed => value.castTo? kind = some typed) values ids ∧
    group = .simple column ids

/-- The simple groups come before all composite ones. Without a value to search for there are none;
otherwise there is one for each configured column, in order, and it holds the values of the first
matches. -/
theorem simple_groups_exact {requests : List Match} {mapper : Mapper} {table : Table}
    {groups : List Group} (h : classify requests mapper table = .ok groups) :
    ∃ simple others, groups = simple ++ others ∧
      (∀ group ∈ others, ∃ columns ids, group = .composite columns ids) ∧
      (firstValues mapper.id requests = [] → simple = []) ∧
      (firstValues mapper.id requests ≠ [] →
        List.Forall₂ (IsSimpleGroup table (firstValues mapper.id requests)) mapper.columns
          simple) := by
  obtain ⟨simple, tuples, hsimple, _, rfl⟩ := exists_of_classify h
  rw [simpleValues_applicable] at hsimple
  refine ⟨simple, _, rfl, ?_, ?_, ?_⟩
  · intro group hgroup
    obtain ⟨tuple, _, rfl⟩ := List.mem_map.1 hgroup
    exact ⟨_, _, rfl⟩
  · intro hvalues
    rw [hvalues] at hsimple
    cases hsimple
    rfl
  · intro hvalues
    refine (forall₂_of_simpleGroups hvalues hsimple).imp ?_
    rintro column group ⟨ids, hids, rfl⟩
    obtain ⟨kind, hkind, htyped⟩ := exists_kind_of_isCastOf hvalues hids
    exact ⟨kind, ids, hkind, htyped, rfl⟩

/-! A queue with a repeated match, the same integer in another scope and as a text, the two zeros, a
match for another data mapper that would not cast, and a composite match in between. -/

namespace Readings

/-- A data mapper for a table of readings. -/
def mapper : Mapper where
  id := "readings"
  executor := .athena
  catalog := .glue
  database := "lab"
  table := "readings"
  columns := ["level", "tag"]
  format := .parquet
  roleArn := none
  deleteOldVersions := none

/-- The table. -/
def table : Table :=
  ⟨"lab", "readings", [⟨"tag", "string"⟩, ⟨"level", "double"⟩], []⟩

/-- Zero and negative zero. -/
def zeros : Binary64 × Binary64 :=
  (.ofBits 0, .ofBits 0x8000000000000000)

/-- The queue. -/
def requests : List Match :=
  [.simple (.integer 7) [], .simple (.text "low") ["staff"], .simple (.float zeros.2) [],
    .composite [⟨"tag", .integer 7⟩] [], .simple (.integer 7) [], .simple (.text "7") [],
    .simple (.integer 7) ["readings", "staff"], .simple (.float zeros.1) []]

/-- The values to search for. -/
def values : List Value :=
  [.integer 7, .float zeros.2, .text "7", .integer 7, .float zeros.1]

/-- The groups that the queue gives for the data mapper. -/
def groups : List Group :=
  [.simple "level" [.float (.ofInt 7), .float zeros.2, .float (.ofInt 7), .float (.ofInt 7),
      .float zeros.1],
    .simple "tag" [.text "7", .text "-0", .text "7", .text "7", .text "0"],
    .composite ["tag"] [[.text "7"]]]

end Readings

theorem simple_groups_readings :
    classify Readings.requests Readings.mapper Readings.table = .ok Readings.groups ∧
      firstValues "readings" Readings.requests = Readings.values ∧
      ∃ simple others, Readings.groups = simple ++ others ∧
        (∀ group ∈ others, ∃ columns ids, group = .composite columns ids) ∧
        List.Forall₂ (IsSimpleGroup Readings.table Readings.values) ["level", "tag"] simple := by
  have h : classify Readings.requests Readings.mapper Readings.table = .ok Readings.groups := by
    decide +kernel
  have hvalues : firstValues "readings" Readings.requests = Readings.values := by
    decide +kernel
  obtain ⟨simple, others, hgroups, hothers, _, hsimple⟩ := simple_groups_exact h
  have hsimple := hsimple (hvalues ▸ by decide)
  exact ⟨h, hvalues, simple, others, hgroups, hothers, hvalues ▸ hsimple⟩

end Classification

end Expunge
