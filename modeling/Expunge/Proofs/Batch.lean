import Expunge.Batch
import Expunge.Proofs.Json.Decode
import Expunge.Proofs.Json.Document
import Expunge.Proofs.Json.Float
import Expunge.Proofs.Json.Literal

/-!
# Messages on lines

A message is read off its line as it was sent (`read_toLine`), whatever texts it holds, provided
that its floats are finite and their numerals are read correctly rounded (`Value.IsExact`).
-/

namespace Expunge

/-! ## Integers -/

namespace Numeral

/-- The numeral of an integer is read as the integer. -/
theorem toInt?_ofInt (i : Int) : (ofInt i).toInt? = some i := by
  have hnonzero :
      ((ofInt i).isInteger && !((ofInt i).negative && (ofInt i).whole == 0)) = true := by
    simp [ofInt, isInteger]
    omega
  rw [toInt?, if_pos hnonzero, ofInt, Text.signed, Option.some.injEq]
  simp only [decide_eq_true_eq]
  split <;> omega

theorem isSome_toBinary64?_ofInt {i : Int} (h : i.natAbs < 2 ^ 64) :
    (ofInt i).toBinary64?.isSome = true := by
  rw [toBinary64?_of_lt rfl h]
  rfl

end Numeral

/-- A natural number of 64 bits is read as itself. -/
theorem Json.nat?_ofNat {n : Nat} (h : n < 2 ^ 64) : (Json.ofNat n).nat? = some n := by
  have hnegative : (Numeral.ofInt n).negative = false := by
    simp [Numeral.ofInt]
  have hguard : (!(Numeral.ofInt n).negative && decide ((n : Int).toNat < 2 ^ 64)) = true := by
    rw [hnegative, Int.toNat_natCast, decide_eq_true h]
    rfl
  rw [Json.ofNat, Json.ofInt, Json.nat?, Numeral.toInt?_ofInt, Option.bind_eq_bind,
    Option.bind_some, hguard, Int.toNat_natCast]
  rfl

/-! ## Values -/

namespace Value

/-- A value whose number is not lost between writing and reading. Texts and integers never are. -/
def IsExact : Value → Prop
  | .float x => x.isFinite = true ∧ (Numeral.ofBinary64 x).IsReadNearest
  | .integer _ => True
  | .text _ => True

variable {value : Value}

/-- A finite value is not lost if its numeral is read correctly rounded. -/
theorem isExact_of_isFinite (hfinite : value.IsFinite)
    (hnearest : ∀ x, value = .float x → (Numeral.ofBinary64 x).IsReadNearest) : value.IsExact := by
  cases value with
  | integer i => trivial
  -- an infinity or a NaN would be written as `null`
  | float x => exact ⟨hfinite, hnearest x rfl⟩
  | text text => trivial

/-- The numeral of a finite float that is read correctly rounded is read as the float. -/
theorem toBinary64?_ofBinary64 {x : Binary64} (h : IsExact (.float x)) :
    (Numeral.ofBinary64 x).toBinary64? = some x := by
  have hnearest : (Numeral.ofBinary64 x).toBinary64? =
    Binary64.ofDecimal? (Numeral.ofBinary64 x).toDecimal := h.2
  rw [hnearest, Numeral.ofDecimal?_ofBinary64 h.1]

/-- A value is read as it was written, in its shape. -/
theorem decode?_toJson (h : value.IsExact) : decode? value.toJson = some value := by
  cases value with
  | integer i =>
    have hi : Text.int64? i.toInt = some i := Text.int64?_eq_some_iff.2 rfl
    rw [toJson, Json.ofInt, decode?, ofNumeral?, Numeral.toInt?_ofInt, Option.bind_some, hi]
  | float x =>
    have hinteger : (Numeral.ofBinary64 x).toInt? = none := by
      rw [Numeral.toInt?, Numeral.isInteger_ofBinary64]
      rfl
    rw [toJson, Json.ofBinary64, if_pos h.1, decode?, ofNumeral?, hinteger, Option.bind_none,
      toBinary64?_ofBinary64 h]
    rfl
  | text text => rfl

theorem isReadable_toJson {room : Nat} (h : value.IsExact) :
    value.toJson.isReadable room = true := by
  cases value with
  | integer i =>
    have hlow := Int64.le_toInt i
    have hhigh := Int64.toInt_lt i
    rw [toJson, Json.ofInt, Json.isReadable]
    exact Numeral.isSome_toBinary64?_ofInt (by omega)
  | float x =>
    rw [toJson, Json.ofBinary64, if_pos h.1, Json.isReadable, toBinary64?_ofBinary64 h]
    rfl
  | text text => exact Json.isReadable_ofString

end Value

/-! ## Groups -/

namespace Group

/-- The values that a group gives. -/
def values : Group → List Value
  | simple _ ids => ids
  | composite _ ids => ids.flatten

theorem decodeValues?_valuesToJson {room : Nat} {values : List Value}
    (h : ∀ value ∈ values, value.IsExact) :
    decodeValues? (room + 1) (valuesToJson values) = some values :=
  Json.list?_map (Nat.succ_pos _) fun value hvalue => Value.decode?_toJson (h value hvalue)

theorem isReadable_valuesToJson {room : Nat} {values : List Value}
    (h : ∀ value ∈ values, value.IsExact) : (valuesToJson values).isReadable (room + 1) = true := by
  rw [valuesToJson, Json.isReadable_array, List.forall_mem_map]
  exact fun value hvalue => Value.isReadable_toJson (h value hvalue)

/-- The tag that a group is written with. -/
def tag : Group → String
  | simple .. => "Simple"
  | composite .. => "Composite"

/-- The fields that a group is written with beside its tag. -/
def content : Group → List (String × Json)
  | simple column ids => [("column", .ofString column), ("match_ids", valuesToJson ids)]
  | composite columns ids =>
    [("columns", .ofStrings columns), ("match_ids", .array (ids.map valuesToJson))]

theorem toJson_eq (group : Group) :
    group.toJson = .ofFields (("type", .ofString group.tag) :: group.content) := by
  cases group <;> rfl

theorem isReadable_content {room : Nat} {group : Group}
    (h : ∀ value ∈ group.values, value.IsExact) :
    (Json.ofFields group.content).isReadable (room + 3) = true := by
  cases group with
  | simple column ids =>
    have hids : (valuesToJson ids).isReadable (room + 2) = true := isReadable_valuesToJson h
    rw [content, Json.isReadable_ofFields]
    simpa using hids
  | composite columns ids =>
    have hids : ∀ tuple ∈ ids, (valuesToJson tuple).isReadable (room + 1) = true :=
      fun tuple htuple => isReadable_valuesToJson fun value hvalue =>
        h value (List.mem_flatten.2 ⟨tuple, htuple, hvalue⟩)
    rw [content, Json.isReadable_ofFields]
    simpa [Json.isReadable_array, Json.ofStrings] using hids

theorem isReadable_toJson {room : Nat} {group : Group} (h : ∀ value ∈ group.values, value.IsExact) :
    group.toJson.isReadable (room + 3) = true := by
  have hcontent : (Json.ofFields group.content).isReadable (room + 3) = true := isReadable_content h
  rw [Json.isReadable_ofFields] at hcontent
  rw [toJson_eq, Json.isReadable_ofFields, List.forall_mem_cons]
  exact ⟨Json.isReadable_ofString, hcontent⟩

/-- The content of a group is read as it was written. -/
theorem decodeContent?_content {room : Nat} {group : Group}
    (h : ∀ value ∈ group.values, value.IsExact) :
    decodeContent? (room + 3) (group.tag = "Simple") (.ofFields group.content) = some group := by
  cases group with
  | simple column ids =>
    have hread : decodeValues? (room + 2) (valuesToJson ids) = some ids :=
      decodeValues?_valuesToJson h
    rw [decodeContent?, if_pos (by simp [tag]), content,
      Json.fields?_ofFields (Nat.succ_pos _) (by simp)]
    simp [List.lookup_cons, hread]
  | composite columns ids =>
    have hread : Json.list? (room + 2) (decodeValues? (room + 1)) (.array (ids.map valuesToJson)) =
        some ids :=
      Json.list?_map (Nat.succ_pos _) fun tuple htuple =>
        decodeValues?_valuesToJson fun value hvalue =>
          h value (List.mem_flatten.2 ⟨tuple, htuple, hvalue⟩)
    rw [decodeContent?, if_neg (by simp [tag]), content,
      Json.fields?_ofFields (Nat.succ_pos _) (by simp)]
    simp [List.lookup_cons, hread, Json.texts?_ofStrings]

/-- A record with a tag is read as the tag and what is left without it. -/
theorem decode?_ofFields {reading : Json.Reading} {room : Nat} {tag : String} {isSimple : Bool}
    {fields : List (String × Json)}
    (htag : [("Simple", true), ("Composite", false)].lookup tag = some isSimple)
    (hnodup : ("type" :: fields.map (·.1)).Nodup)
    (hreadable : (Json.ofFields fields).isReadable (room + 1) = true) :
    decode? reading (room + 1) (.ofFields (("type", .ofString tag) :: fields)) =
      decodeContent? (room + 1) isSimple (.ofFields fields) := by
  have hnamed : Json.members? ["type"]
      ((("type", .ofString tag) :: fields).map fun field => (some field.1, field.2)) =
        some (("type", .ofString tag) :: fields) := Json.members?_map hnodup
  have htype : "type" ∉ fields.map (·.1) := (List.nodup_cons.1 hnodup).1
  have hcontent : ((("type", Json.ofString tag) :: fields).map
      fun field => (some field.1, field.2)).filter (fun member => member.1 ≠ some "type") =
        fields.map fun field => (some field.1, field.2) := by
    rw [List.map_cons, List.filter_cons_of_neg (by simp), List.filter_eq_self]
    intro member hmember
    obtain ⟨field, hfield, rfl⟩ := List.mem_map.1 hmember
    have hname : field.1 ≠ "type" := fun h => htype (h ▸ List.mem_map_of_mem hfield)
    simpa using hname
  have hkind : isSimpleTag? reading (.ofString tag) = some isSimple := htag
  rw [Json.ofFields, Json.isReadable] at hreadable
  rw [Json.ofFields, decode?, hnamed]
  simp only [Option.bind_eq_bind, Option.bind_some, List.lookup_cons_self, hkind, hcontent,
    Nat.add_sub_cancel, hreadable, Nat.succ_pos, guard_true, Option.pure_def]
  rfl

/-- A group is read as it was written; its content can be held back until its tag is known. -/
theorem decode?_toJson {reading : Json.Reading} {room : Nat} {group : Group}
    (h : ∀ value ∈ group.values, value.IsExact) :
    decode? reading (room + 3) group.toJson = some group := by
  have htag : [("Simple", true), ("Composite", false)].lookup group.tag =
      some (decide (group.tag = "Simple")) := by
    cases group <;> rfl
  have hnodup : ("type" :: group.content.map (·.1)).Nodup := by
    cases group <;> simp [content]
  rw [toJson_eq, decode?_ofFields htag hnodup (isReadable_content h), decodeContent?_content h]

end Group

/-! ## Queries -/

namespace KeyValue

variable {pair : KeyValue} {room : Nat}

theorem decode?_toJson (h : pair.value.IsExact) : decode? (room + 1) pair.toJson = some pair := by
  rw [toJson, decode?, Json.fields?_ofFields (Nat.succ_pos _) (by simp)]
  simp [List.lookup_cons, Value.decode?_toJson h]

theorem isReadable_toJson (h : pair.value.IsExact) : pair.toJson.isReadable (room + 1) = true := by
  rw [toJson, Json.isReadable_ofFields]
  simpa using Value.isReadable_toJson h

end KeyValue

@[simp] theorem QueryExecutor.lookup_name (executor : QueryExecutor) :
    named.lookup executor.name = some executor := by
  cases executor
  rfl

@[simp] theorem DataFormat.lookup_name (format : DataFormat) :
    named.lookup format.name = some format := by
  cases format <;> rfl

namespace Query

/-- The values that a query holds. -/
def values (query : Query) : List Value :=
  query.columns.flatMap Group.values ++ query.partitionKeys.map KeyValue.value

variable {query : Query} {room : Nat}

theorem mem_values_of_mem_columns {group : Group} (hgroup : group ∈ query.columns) {value : Value}
    (hvalue : value ∈ group.values) : value ∈ query.values :=
  List.mem_append_left _ (List.mem_flatMap.2 ⟨group, hgroup, hvalue⟩)

theorem mem_values_of_mem_keys {pair : KeyValue} (hpair : pair ∈ query.partitionKeys) :
    pair.value ∈ query.values :=
  List.mem_append_right _ (List.mem_map_of_mem hpair)

theorem isReadable_toJson (h : ∀ value ∈ query.values, value.IsExact) :
    query.toJson.isReadable (room + 5) = true := by
  have hcolumns : ∀ group ∈ query.columns, group.toJson.isReadable (room + 3) = true :=
    fun group hgroup => Group.isReadable_toJson fun value hvalue =>
      h value (mem_values_of_mem_columns hgroup hvalue)
  have hkeys : ∀ pair ∈ query.partitionKeys, pair.toJson.isReadable (room + 3) = true :=
    fun pair hpair => KeyValue.isReadable_toJson (h pair.value (mem_values_of_mem_keys hpair))
  rw [toJson, Json.isReadable_ofFields]
  cases query.roleArn <;> simpa [Json.isReadable_array] using ⟨hcolumns, hkeys⟩

/-- The fields that a query is written with. -/
def fields (query : Query) : List (String × Json) :=
  [("data_mapper_id", .ofString query.mapper),
   ("query_executor", .ofString query.executor.name),
   ("format", .ofString query.format.name),
   ("database", .ofString query.database),
   ("table", .ofString query.table),
   ("columns", .array (query.columns.map Group.toJson)),
   ("partition_keys", .array (query.partitionKeys.map KeyValue.toJson))]
  ++ (query.roleArn.map fun arn => ("role_arn", Json.ofString arn)).toList
  ++ [("delete_old_versions", .bool query.deleteOldVersions)]

theorem nodup_fields (query : Query) : (query.fields.map (·.1)).Nodup := by
  rw [fields]
  cases query.roleArn <;> simp

theorem lookup_role (query : Query) :
    query.fields.lookup "role_arn" = query.roleArn.map Json.ofString := by
  rw [fields]
  cases query.roleArn <;> simp [List.lookup_cons]

/-- A query is read as it was written, with or without a role. -/
theorem decode?_toJson {reading : Json.Reading} (h : ∀ value ∈ query.values, value.IsExact) :
    decode? reading (room + 5) query.toJson = some query := by
  have hcolumns : Json.list? (room + 4) (Group.decode? reading (room + 3))
      (.array (query.columns.map Group.toJson)) = some query.columns :=
    Json.list?_map (Nat.succ_pos _) fun group hgroup => Group.decode?_toJson fun value hvalue =>
      h value (mem_values_of_mem_columns hgroup hvalue)
  have hkeys : Json.list? (room + 4) (KeyValue.decode? (room + 3))
      (.array (query.partitionKeys.map KeyValue.toJson)) = some query.partitionKeys :=
    Json.list?_map (Nat.succ_pos _) fun pair hpair =>
      KeyValue.decode?_toJson (h pair.value (mem_values_of_mem_keys hpair))
  have hrole : Json.orNull Json.text? (query.fields.lookup "role_arn") = some query.roleArn := by
    rw [query.lookup_role]
    cases query.roleArn <;> rfl
  have hfield {name : String} {value : Json} (hmem : (name, value) ∈ query.fields) :
      query.fields.lookup name = some value := Json.lookup_of_mem query.nodup_fields hmem
  have hmapper : query.fields.lookup "data_mapper_id" = some (.ofString query.mapper) :=
    hfield (by simp [fields])
  have hexecutor : query.fields.lookup "query_executor" = some (.ofString query.executor.name) :=
    hfield (by simp [fields])
  have hformat : query.fields.lookup "format" = some (.ofString query.format.name) :=
    hfield (by simp [fields])
  have hdatabase : query.fields.lookup "database" = some (.ofString query.database) :=
    hfield (by simp [fields])
  have htable : query.fields.lookup "table" = some (.ofString query.table) :=
    hfield (by simp [fields])
  have hcolumnField : query.fields.lookup "columns" =
      some (.array (query.columns.map Group.toJson)) :=
    hfield (by simp [fields])
  have hkeyField : query.fields.lookup "partition_keys" =
      some (.array (query.partitionKeys.map KeyValue.toJson)) :=
    hfield (by simp [fields])
  have hflag : Json.orDefault true Json.bool? (query.fields.lookup "delete_old_versions") =
      some query.deleteOldVersions := by
    rw [hfield (show (_, Json.bool query.deleteOldVersions) ∈ _ by simp [fields])]
    rfl
  have hwrite : query.toJson = .ofFields query.fields := rfl
  rw [hwrite, decode?, Json.fields?_ofFields (Nat.succ_pos _) query.nodup_fields]
  refine Option.bind_eq_some_iff.2 ⟨_, rfl, ?_⟩
  refine Option.bind_eq_some_iff.2 ⟨_, hmapper, ?_⟩
  refine Option.bind_eq_some_iff.2 ⟨_, Json.text?_ofString _, ?_⟩
  refine Option.bind_eq_some_iff.2 ⟨_, hexecutor, ?_⟩
  refine Option.bind_eq_some_iff.2 ⟨_, query.executor.lookup_name, ?_⟩
  refine Option.bind_eq_some_iff.2 ⟨_, hformat, ?_⟩
  refine Option.bind_eq_some_iff.2 ⟨_, query.format.lookup_name, ?_⟩
  refine Option.bind_eq_some_iff.2 ⟨_, hdatabase, ?_⟩
  refine Option.bind_eq_some_iff.2 ⟨_, Json.text?_ofString _, ?_⟩
  refine Option.bind_eq_some_iff.2 ⟨_, htable, ?_⟩
  refine Option.bind_eq_some_iff.2 ⟨_, Json.text?_ofString _, ?_⟩
  refine Option.bind_eq_some_iff.2 ⟨_, hcolumnField, ?_⟩
  refine Option.bind_eq_some_iff.2 ⟨_, hcolumns, ?_⟩
  refine Option.bind_eq_some_iff.2 ⟨_, hkeyField, ?_⟩
  refine Option.bind_eq_some_iff.2 ⟨_, hkeys, ?_⟩
  refine Option.bind_eq_some_iff.2 ⟨_, hrole, ?_⟩
  refine Option.bind_eq_some_iff.2 ⟨_, hflag, ?_⟩
  rfl

end Query

/-! ## Batches -/

namespace Batch

/-- A batch whose numbers are not lost between writing and reading. -/
def IsExact (batch : Batch) : Prop :=
  ∀ query ∈ batch.queries, ∀ value ∈ query.values, value.IsExact

variable {batch : Batch} {room : Nat}

theorem isReadable_toJson (h : batch.IsExact) : batch.toJson.isReadable (room + 7) = true := by
  have hqueries : ∀ query ∈ batch.queries, query.toJson.isReadable (room + 5) = true :=
    fun query hquery => Query.isReadable_toJson (h query hquery)
  have hsequence : (Json.ofNat batch.sequence.toNat).isReadable (room + 6) = true := by
    have hlt := batch.sequence.toNat_lt
    rw [Json.ofNat, Json.ofInt, Json.isReadable]
    exact Numeral.isSome_toBinary64?_ofInt (by omega)
  rw [toJson, Json.isReadable_ofFields]
  simpa [Json.isReadable_array] using ⟨hsequence, hqueries⟩

/-- A batch is read as it was written. -/
theorem decode?_toJson {reading : Json.Reading} (h : batch.IsExact) :
    decode? reading (room + 7) batch.toJson = some batch := by
  have hqueries : Json.list? (room + 6) (Query.decode? reading (room + 5))
      (.array (batch.queries.map Query.toJson)) = some batch.queries :=
    Json.list?_map (Nat.succ_pos _) fun query hquery => Query.decode?_toJson (h query hquery)
  have hsequence : (Json.ofNat batch.sequence.toNat).nat? = some batch.sequence.toNat :=
    Json.nat?_ofNat batch.sequence.toNat_lt
  rw [toJson, decode?, Json.fields?_ofFields (Nat.succ_pos _) (by simp)]
  simp [List.lookup_cons, hqueries, hsequence]

end Batch

/-! ## Messages -/

namespace Message

/-- The batch of a message. -/
def batch : Message → Batch
  | queryBatch batch => batch

/-- The values that a message holds. -/
def values (message : Message) : List Value :=
  message.batch.queries.flatMap Query.values

variable {message : Message} {room : Nat}

theorem isReadable_toJson (h : message.batch.IsExact) :
    message.toJson.isReadable (room + 8) = true := by
  cases message with
  | queryBatch batch =>
    have hbatch : batch.toJson.isReadable (room + 7) = true := Batch.isReadable_toJson h
    rw [toJson, Json.isReadable_ofFields]
    simpa using hbatch

/-- A message is read as it was written: its kind comes first, so its data need not be held back. -/
theorem decode?_toJson (h : message.batch.IsExact) :
    decode? (room + 8) message.toJson = some message := by
  cases message with
  | queryBatch batch =>
    have hbatch : Batch.decode? .direct (room + 7) batch.toJson = some batch :=
      Batch.decode?_toJson h
    have hnamed : Json.members? ["message_type", "data"]
        ([("message_type", .ofString "QueryBatch"), ("data", batch.toJson)].map
          fun field => (some field.1, field.2)) =
        some [("message_type", .ofString "QueryBatch"), ("data", batch.toJson)] :=
      Json.members?_map (by simp)
    rw [toJson, Json.ofFields, decode?, hnamed]
    simp [List.lookup_cons, hbatch, kinds]

/-- The line of a message is read as the message. -/
theorem read_toLine (h : message.batch.IsExact) :
    read (Text.symbols message.toLine) = .ok message := by
  have hreadable : message.toJson.isReadable Json.depthLimit = true := isReadable_toJson h
  have hdecode : decode? Json.depthLimit message.toJson = some message := decode?_toJson h
  rw [toLine, read, Json.ofSymbols_write hreadable, Json.Document.readShape, Json.Document.read,
    hdecode]
  rfl

end Message

end Expunge
