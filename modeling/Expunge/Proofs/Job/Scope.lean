import Expunge.Job
import Expunge.Source.Memory

/-!
# Matches for other data mappers

What a data mapper's dataset compiles to is decided by the matches that apply to the data mapper.
The others may be dropped (`compileMapper_filter`), wherever they stand and whatever they hold: they
are not cast, they do not count as repetitions of a match, and no table is asked for on their
account. So two lists of matches that have the same applicable ones in the same order lead to the
same run (`compileMapper_eq_of_filter_eq`).
-/

namespace Expunge

namespace Classification

/-- The matches that do not apply to a data mapper have no part in what is classified for it. -/
theorem applicable_filter (mapper : String) (requests : List Match) :
    applicable mapper (requests.filter (·.appliesTo mapper)) = applicable mapper requests := by
  rw [applicable, List.filter_filter]
  simp only [Bool.and_self]
  rfl

theorem classify_filter (requests : List Match) (mapper : Mapper) (table : Table) :
    classify (requests.filter (·.appliesTo mapper.id)) mapper table =
      classify requests mapper table := by
  rw [classify, applicable_filter]
  rfl

end Classification

namespace Job

/-- The matches that do not apply to a data mapper have no part in compiling it: neither in what it
comes to nor in what it asks of the catalog. -/
theorem compileMapper_filter (catalog : Catalog) (requests : List Match) (mapper : Mapper) :
    compileMapper catalog (requests.filter (·.appliesTo mapper.id)) mapper =
      compileMapper catalog requests mapper := by
  have hany : (requests.filter (·.appliesTo mapper.id)).any (·.appliesTo mapper.id) =
      requests.any (·.appliesTo mapper.id) := by
    rw [List.any_filter]
    simp only [Bool.and_self]
  rw [compileMapper, hany]
  simp only [Classification.classify_filter]
  rfl

/-- Matches that apply to other data mappers only are invisible: two lists of matches whose
applicable ones are the same, in the same order, compile to the same queries or the same error, and
ask the same of the catalog in the same order. A run asks for a table and then for its partitions,
at most once each, so a catalog that answers differently later makes no difference either. -/
theorem compileMapper_eq_of_filter_eq (catalog : Catalog) (mapper : Mapper)
    {requests others : List Match}
    (h : requests.filter (·.appliesTo mapper.id) = others.filter (·.appliesTo mapper.id)) :
    compileMapper catalog requests mapper = compileMapper catalog others mapper := by
  rw [← compileMapper_filter catalog requests, h, compileMapper_filter]

/-! A queue in which the matches for one data mapper stand between matches for another: one that
would not cast, one that repeats a match in its scope but for the scope itself, and one that names a
column which is not there. -/

namespace Guests

/-- A data mapper for a table of guests. -/
def mapper : Mapper where
  id := "guests"
  executor := .athena
  catalog := .glue
  database := "hotel"
  table := "guests"
  columns := ["room"]
  format := .json
  roleArn := none
  deleteOldVersions := none

/-- The catalog that describes the table. -/
def catalog : Catalog :=
  TableStore.catalog ⟨[⟨⟨"hotel", "guests", [⟨"room", "int"⟩], []⟩, []⟩]⟩ 1

/-- The matches that apply. -/
def requests : List Match :=
  [.simple (.integer 7) [], .composite [⟨"room", .text "9"⟩] ["guests"]]

/-- The same matches among others. -/
def crowded : List Match :=
  [.simple (.text "seven") ["staff"], .simple (.integer 7) ["staff"], .simple (.integer 7) [],
    .composite [⟨"name", .text "A"⟩] ["staff"], .composite [⟨"room", .text "9"⟩] ["guests"],
    .composite [⟨"room", .text "nine"⟩] ["staff", "suppliers"]]

end Guests

theorem compileMapper_crowded :
    Guests.requests.filter (·.appliesTo Guests.mapper.id) =
        Guests.crowded.filter (·.appliesTo Guests.mapper.id) ∧
      compileMapper Guests.catalog Guests.requests Guests.mapper =
        compileMapper Guests.catalog Guests.crowded Guests.mapper := by
  have h : Guests.requests.filter (·.appliesTo Guests.mapper.id) =
      Guests.crowded.filter (·.appliesTo Guests.mapper.id) := by decide
  exact ⟨h, compileMapper_eq_of_filter_eq Guests.catalog Guests.mapper h⟩

end Job

end Expunge
