import Expunge.Proofs.Outcomes
import Expunge.Query

/-!
# Data mappers and their records

A record configures a data mapper exactly if the two say the same (`ofRecord_eq_ok_iff`): the
services that it names are looked up by their names, and all else is taken over. What a query
repeats of a record is `Query.IsOf`.
-/

namespace Expunge

/-- A list has every value under its own name, and no value under another one. -/
structure IsNaming {α : Type} (nameOf : α → String) (named : List (String × α)) : Prop where
  own : ∀ entry ∈ named, nameOf entry.2 = entry.1
  all : ∀ value, named.lookup (nameOf value) = some value

namespace IsNaming

variable {α : Type} {nameOf : α → String} {named : List (String × α)} {name : String} {value : α}

/-- Look-up finds the value of a name. -/
theorem lookup_eq_some_iff (h : IsNaming nameOf named) :
    named.lookup name = some value ↔ nameOf value = name := by
  constructor
  · intro hfound
    obtain ⟨before, after, rfl, _⟩ := List.lookup_eq_some_iff.1 hfound
    exact h.own (name, value) (by simp)
  · rintro rfl
    exact h.all value

/-- What succeeds with what look-up finds, and fails without, gives the value of a name. -/
theorem eq_ok_iff {ε : Type} {outcome : Except ε α} (h : IsNaming nameOf named)
    (houtcome : outcome.toOption = named.lookup name) :
    outcome = .ok value ↔ nameOf value = name := by
  rw [← h.lookup_eq_some_iff, ← houtcome]
  cases outcome <;> simp [Except.toOption]

end IsNaming

theorem QueryExecutor.isNaming_named : IsNaming name named :=
  ⟨by decide, by rintro ⟨⟩; rfl⟩

theorem CatalogProvider.isNaming_named : IsNaming name named :=
  ⟨by decide, by rintro ⟨⟩; rfl⟩

theorem DataFormat.isNaming_named : IsNaming name named :=
  ⟨by decide, by rintro ⟨⟩ <;> rfl⟩

theorem QueryExecutor.ofName_eq_ok_iff {name : String} {executor : QueryExecutor} :
    ofName name = .ok executor ↔ executor.name = name :=
  isNaming_named.eq_ok_iff (by rw [ofName]; cases named.lookup name <;> rfl)

theorem CatalogProvider.ofName_eq_ok_iff {name : String} {provider : CatalogProvider} :
    ofName name = .ok provider ↔ provider.name = name :=
  isNaming_named.eq_ok_iff (by rw [ofName]; cases named.lookup name <;> rfl)

theorem DataFormat.ofName_eq_ok_iff {name : String} {format : DataFormat} :
    ofName name = .ok format ↔ format.name = name :=
  isNaming_named.eq_ok_iff (by rw [ofName]; cases named.lookup name <;> rfl)

/-- A record configures a data mapper if the data mapper says what the record says, its services
being those that the record names. -/
theorem Mapper.ofRecord_eq_ok_iff {record : MapperRecord} {mapper : Mapper} :
    ofRecord record = .ok mapper ↔
      mapper.id = record.id ∧ mapper.executor.name = record.queryExecutor ∧
      mapper.catalog.name = record.catalogProvider ∧ mapper.database = record.database ∧
      mapper.table = record.table ∧ mapper.columns = record.columns ∧
      mapper.format.name = record.format ∧ mapper.roleArn = record.roleArn ∧
      mapper.deleteOldVersions = record.deleteOldVersions := by
  simp only [ofRecord, Outcome.bind_eq_ok_iff, QueryExecutor.ofName_eq_ok_iff,
    CatalogProvider.ofName_eq_ok_iff, DataFormat.ofName_eq_ok_iff]
  constructor
  · rintro ⟨executor, hexecutor, provider, hprovider, format, hformat, h⟩
    cases h
    exact ⟨rfl, hexecutor, hprovider, rfl, rfl, rfl, hformat, rfl, rfl⟩
  · rintro ⟨hid, hexecutor, hprovider, hdatabase, htable, hcolumns, hformat, hrole, hdelete⟩
    refine ⟨_, hexecutor, _, hprovider, _, hformat, ?_⟩
    rw [← hid, ← hdatabase, ← htable, ← hcolumns, ← hrole, ← hdelete]
    rfl

/-- A query repeats what a record says: whom it is for, what runs it on which table and how, and
whether old versions are deleted, which they are unless the record says otherwise. -/
structure Query.IsOf (query : Query) (record : MapperRecord) : Prop where
  mapper : query.mapper = record.id
  executor : query.executor.name = record.queryExecutor
  format : query.format.name = record.format
  database : query.database = record.database
  table : query.table = record.table
  roleArn : query.roleArn = record.roleArn
  deleteOldVersions : query.deleteOldVersions = record.deleteOldVersions.getD true

end Expunge
