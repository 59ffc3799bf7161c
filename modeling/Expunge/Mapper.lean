import Expunge.Json.Decode

/-!
# Data mappers

A data mapper names a dataset that erasure jobs cover: a table, the columns to search, and how the
queries against it are run. A registry holds records, which name their services freely; a record
configures a data mapper only if all of these services are supported.
-/

namespace Expunge

/-- What runs the queries. -/
inductive QueryExecutor
  | athena
deriving DecidableEq, Repr

/-- What describes the tables. -/
inductive CatalogProvider
  | glue
deriving DecidableEq, Repr

/-- How the data is stored. -/
inductive DataFormat
  | parquet
  | json
deriving DecidableEq, Repr

/-- A service that a record names and that is not supported. -/
inductive ConfigurationError
  | unsupportedQueryExecutor (name : String)
  | unsupportedCatalogProvider (name : String)
  | unsupportedFormat (name : String)
deriving DecidableEq, Repr

namespace ConfigurationError

/-- The text of an error. -/
def message : ConfigurationError → String
  | unsupportedQueryExecutor name => "Unsupported query executor: " ++ name
  | unsupportedCatalogProvider name => "Unsupported data catalog provider: " ++ name
  | unsupportedFormat name => "Unsupported data format: " ++ name

end ConfigurationError

namespace QueryExecutor

/-- The name of an executor. -/
def name : QueryExecutor → String
  | athena => "athena"

/-- The executors by their names. -/
def named : List (String × QueryExecutor) :=
  [("athena", athena)]

/-- The executor with the given name. -/
def ofName (name : String) : Except ConfigurationError QueryExecutor :=
  match named.lookup name with
  | some executor => .ok executor
  | none => .error (.unsupportedQueryExecutor name)

end QueryExecutor

namespace CatalogProvider

/-- The name of a provider. -/
def name : CatalogProvider → String
  | glue => "glue"

/-- The providers by their names. -/
def named : List (String × CatalogProvider) :=
  [("glue", glue)]

/-- The provider with the given name. -/
def ofName (name : String) : Except ConfigurationError CatalogProvider :=
  match named.lookup name with
  | some provider => .ok provider
  | none => .error (.unsupportedCatalogProvider name)

end CatalogProvider

namespace DataFormat

/-- The name of a format. -/
def name : DataFormat → String
  | parquet => "parquet"
  | json => "json"

/-- The formats by their names. -/
def named : List (String × DataFormat) :=
  [("parquet", parquet), ("json", json)]

/-- The format with the given name. -/
def ofName (name : String) : Except ConfigurationError DataFormat :=
  match named.lookup name with
  | some format => .ok format
  | none => .error (.unsupportedFormat name)

end DataFormat

/-- A data mapper as it is registered. -/
structure MapperRecord where
  id : String
  queryExecutor : String
  columns : List String
  format : String
  catalogProvider : String
  database : String
  table : String
  roleArn : Option String
  deleteOldVersions : Option Bool
deriving DecidableEq, Repr

/-- A data mapper whose services are supported. -/
structure Mapper where
  id : String
  executor : QueryExecutor
  catalog : CatalogProvider
  database : String
  table : String
  columns : List String
  format : DataFormat
  roleArn : Option String
  deleteOldVersions : Option Bool
deriving DecidableEq, Repr

namespace Mapper

/-- Whether old versions of the data are deleted too, which they are by default. -/
def deletesOldVersions (mapper : Mapper) : Bool :=
  mapper.deleteOldVersions.getD true

/-- The data mapper that a record configures. Of several unsupported services the executor is
reported first, then the catalog provider, then the format. -/
def ofRecord (record : MapperRecord) : Except ConfigurationError Mapper := do
  let executor ← QueryExecutor.ofName record.queryExecutor
  let catalog ← CatalogProvider.ofName record.catalogProvider
  let format ← DataFormat.ofName record.format
  return {
    id := record.id
    executor := executor
    catalog := catalog
    database := record.database
    table := record.table
    columns := record.columns
    format := format
    roleArn := record.roleArn
    deleteOldVersions := record.deleteOldVersions }

end Mapper

namespace MapperRecord

/-- A record as a document holds it; optional parts are left out if there are none. -/
def toJson (record : MapperRecord) : Json :=
  .ofFields (
    [("data_mapper_id", .ofString record.id),
     ("query_executor", .ofString record.queryExecutor),
     ("columns", .ofStrings record.columns),
     ("format", .ofString record.format),
     ("query_executor_parameters", .ofFields
       [("data_catalog_provider", .ofString record.catalogProvider),
        ("database", .ofString record.database),
        ("table", .ofString record.table)])]
    ++ (record.roleArn.map fun arn => ("role_arn", Json.ofString arn)).toList
    ++ (record.deleteOldVersions.map fun delete =>
      ("delete_old_versions", Json.bool delete)).toList)

/-- The record that a document holds. -/
def decode? (room : Nat) (value : Json) : Option MapperRecord := do
  let field ← value.fields? room ["data_mapper_id", "query_executor", "columns", "format",
    "query_executor_parameters", "role_arn", "delete_old_versions"]
  let parameter ← (← field "query_executor_parameters").fields? (room - 1)
    ["data_catalog_provider", "database", "table"]
  return {
    id := ← (← field "data_mapper_id").text?
    queryExecutor := ← (← field "query_executor").text?
    columns := ← (← field "columns").texts? (room - 1)
    format := ← (← field "format").text?
    catalogProvider := ← (← parameter "data_catalog_provider").text?
    database := ← (← parameter "database").text?
    table := ← (← parameter "table").text?
    roleArn := ← Json.orNull Json.text? (field "role_arn")
    deleteOldVersions := ← Json.orNull Json.bool? (field "delete_old_versions") }

end MapperRecord

end Expunge
