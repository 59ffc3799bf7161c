import Expunge.Proofs.Delivery
import Expunge.Proofs.Match
import Expunge.Proofs.Message

/-!
# What is written is read back

Messages and entries of queues are read off their texts as they were written: every value keeps its
shape, every float its bits and every text its characters. Main results: `Message.read_sent` and
`Match.read_written`. Floats have to be finite, since infinities and NaNs are written as `null`, and
their numerals have to be read correctly rounded, which the reader does not do for all of them.
-/

namespace Expunge

/-! ## Messages -/

namespace Message

/-- A message is read off its line as it was sent exactly if its values are finite, and then none of
them has changed its shape or its number, and nothing else in its queries has changed. It makes no
difference whether the line is read as a text or as bytes. -/
theorem read_sent (message : Message)
    (hnearest : ∀ x, .float x ∈ message.values → (Numeral.ofBinary64 x).IsReadNearest) :
    (read (Text.symbols message.toLine) = .ok message ↔
        ∀ value ∈ message.values, value.IsFinite) ∧
      LineOutput.readLine (LineOutput.bytes message.toLine) =
        read (Text.symbols message.toLine) := by
  refine ⟨⟨?_, ?_⟩, ?_⟩
  · intro hread
    exact isFinite_of_decode? (Json.Document.readShape_eq_ok hread)
  · intro hfinite
    refine read_toLine fun query hquery value hvalue => ?_
    have hmem : value ∈ message.values := List.mem_flatMap.2 ⟨query, hquery, hvalue⟩
    exact Value.isExact_of_isFinite (hfinite value hmem) fun x hx => hnearest x (hx ▸ hmem)
  · exact LineOutput.readLine_bytes message

end Message

/-! Values that are easily taken for others, in a message. -/

namespace LookAlikes

/-- The float 7.0, negative zero and the float nearest to `10 ^ 300`. -/
def floats : List Binary64 :=
  [.ofBits 0x401C000000000000, .ofBits 0x8000000000000000, .ofBits 0x7E37E43C8800759C]

/-- The floats, an integer, a text that looks like it and one that is written with escapes. -/
def values : List Value :=
  floats.map .float ++ [.integer 7, .text "7", .text "\"\\\n\u0001é"]

theorem mem_floats {x : Binary64} (h : .float x ∈ values) : x ∈ floats := by
  simpa [values] using h

theorem isFinite_of_mem {value : Value} (h : value ∈ values) : value.IsFinite := by
  have hfloats : ∀ x ∈ floats, x.isFinite = true := by decide
  cases value with
  | float x => exact hfloats x (mem_floats h)
  | integer i => trivial
  | text text => trivial

theorem isReadNearest_of_mem {x : Binary64} (h : .float x ∈ values) :
    (Numeral.ofBinary64 x).IsReadNearest := by
  have hfloats : ∀ x ∈ floats, (Numeral.ofBinary64 x).toBinary64? =
      Binary64.ofDecimal? (Numeral.ofBinary64 x).toDecimal := by
    decide +kernel
  exact hfloats x (mem_floats h)

/-- A message with the values in groups, in tuples and in partition keys. -/
def message : Message :=
  .queryBatch
    { job := "job"
      sequence := 3
      queries :=
        [{ mapper := "m"
           executor := .athena
           format := .parquet
           database := "lab"
           table := "visits"
           columns := [.simple "id" values, .composite ["name", "visit"] [values, values]]
           partitionKeys := values.map fun value => ⟨"day", value⟩
           roleArn := some "role"
           deleteOldVersions := false }] }

theorem mem_of_mem_message {value : Value} (h : value ∈ message.values) : value ∈ values := by
  simpa [Message.values, message, Message.batch, Query.values, Group.values] using h

end LookAlikes

open LookAlikes (message) in
theorem Message.read_sent_lookAlikes :
    (∀ x, .float x ∈ message.values → (Numeral.ofBinary64 x).IsReadNearest) ∧
      (∀ value ∈ message.values, value.IsFinite) ∧
      LineOutput.readLine (LineOutput.bytes message.toLine) = .ok message := by
  have hnearest : ∀ x, .float x ∈ message.values → (Numeral.ofBinary64 x).IsReadNearest :=
    fun x hx => LookAlikes.isReadNearest_of_mem (LookAlikes.mem_of_mem_message hx)
  have hfinite : ∀ value ∈ message.values, value.IsFinite :=
    fun value hvalue => LookAlikes.isFinite_of_mem (LookAlikes.mem_of_mem_message hvalue)
  obtain ⟨hread, hbytes⟩ := read_sent message hnearest
  exact ⟨hnearest, hfinite, hbytes.trans (hread.2 hfinite)⟩

/-! ## Matches -/

namespace ColumnValue

variable {pair : ColumnValue} {room : Nat}

/-- A column value is read as it was written. -/
theorem decode?_toJson (h : pair.value.IsExact) : decode? (room + 1) pair.toJson = some pair := by
  rw [toJson, decode?, Json.fields?_ofFields (Nat.succ_pos _) (by simp)]
  simp [List.lookup_cons, Value.decode?_toJson h]

theorem isReadable_toJson (h : pair.value.IsExact) : pair.toJson.isReadable (room + 1) = true := by
  rw [toJson, Json.isReadable_ofFields]
  simpa using Value.isReadable_toJson h

end ColumnValue

namespace Match

variable {request : Match} {room : Nat}

/-- The identifier that a match is written with. -/
def identifier : Match → Identifier
  | simple value _ => .single value
  | composite pairs _ => .columns pairs

/-- An identifier as a document holds it. -/
def Identifier.toJson : Identifier → Json
  | single value => value.toJson
  | columns pairs => .array (pairs.map ColumnValue.toJson)

theorem toJson_eq (request : Match) :
    request.toJson = .ofFields [("match_id", request.identifier.toJson),
      ("type", .ofString request.kind.name), ("data_mappers", .ofStrings request.scope)] := by
  cases request <;> rfl

/-- The value of a match is no list when it is written, and so is not taken for one. -/
theorem toJson_ne_array {value : Value} (items : List Json) : value.toJson ≠ .array items := by
  cases value with
  | integer i => exact Json.noConfusion
  | text text => exact Json.noConfusion
  | float x =>
    rw [Value.toJson, Json.ofBinary64]
    split <;> exact Json.noConfusion

theorem isReadable_identifier (h : ∀ value ∈ request.values, value.IsExact) :
    request.identifier.toJson.isReadable (room + 2) = true := by
  cases request with
  | simple value scope => exact Value.isReadable_toJson (h value List.mem_cons_self)
  | composite pairs scope =>
    rw [identifier, Identifier.toJson, Json.isReadable_array, List.forall_mem_map]
    exact fun pair hpair => ColumnValue.isReadable_toJson (h pair.value (List.mem_map_of_mem hpair))

/-- The identifier of a match is read as it was written: a single value or a list. -/
theorem decodeIdentifier?_toJson (h : ∀ value ∈ request.values, value.IsExact) :
    decodeIdentifier? (room + 2) request.identifier.toJson = some request.identifier := by
  have hreadable : request.identifier.toJson.isReadable (room + 2) = true := isReadable_identifier h
  cases request with
  | simple value scope =>
    rw [identifier, Identifier.toJson, decodeIdentifier?_of_not_array toJson_ne_array,
      Value.decode?_toJson (h value List.mem_cons_self), Option.map_some]
  | composite pairs scope =>
    refine decodeIdentifier?_array_eq_some_iff.2 ⟨hreadable, pairs, ?_, rfl⟩
    rw [Outcome.mapM_eq_some_iff, List.forall₂_map_left_iff]
    exact List.forall₂_same.2 fun pair hpair =>
      ColumnValue.decode?_toJson (h pair.value (List.mem_map_of_mem hpair))

theorem isReadable_toJson (h : ∀ value ∈ request.values, value.IsExact) :
    request.toJson.isReadable (room + 3) = true := by
  have hidentifier : request.identifier.toJson.isReadable (room + 2) = true :=
    isReadable_identifier h
  rw [toJson_eq, Json.isReadable_ofFields]
  simpa [Json.ofStrings, Json.isReadable_array] using hidentifier

/-- The parts of an entry are read as they were written. -/
theorem decodeEntry?_toJson (h : ∀ value ∈ request.values, value.IsExact) :
    decodeEntry? (room + 3) request.toJson =
      some (request.identifier, some request.kind, request.scope) := by
  have hkind : Json.orNull (Json.variant? .direct (room + 2) kinds)
      (some (.ofString request.kind.name)) = some (some request.kind) := by
    cases request <;> rfl
  rw [toJson_eq, decodeEntry?_eq_some_iff]
  exact ⟨_, _, Json.fields?_ofFields (Nat.succ_pos _) (by simp), rfl, decodeIdentifier?_toJson h,
    hkind, Json.texts?_ofStrings (Nat.succ_pos _) request.scope⟩

/-- A match is read as it was written, unless it is a composite one that names no column. -/
theorem decode_toJson (hcolumn : request.NamesColumn)
    (h : ∀ value ∈ request.values, value.IsExact) :
    decode (room + 3) request.toJson = .ok request := by
  refine decode_eq_ok_iff.2 ⟨_, _, _, decodeEntry?_toJson h, ofEntry_eq_ok_iff.2 ?_⟩
  cases request with
  | simple value scope => exact .inl ⟨value, rfl, nofun, rfl⟩
  | composite pairs scope => exact .inr ⟨pairs, rfl, hcolumn, nofun, rfl⟩

/-- A match is read off its text as it was written exactly if its values are finite and it names a
column; and a match that was read off any text, written again, is read as the same match. -/
theorem read_written (request : Match)
    (hnearest : ∀ x, .float x ∈ request.values → (Numeral.ofBinary64 x).IsReadNearest) :
    (read (Text.symbols request.toJson.write) = .ok request ↔
        (∀ value ∈ request.values, value.IsFinite) ∧ request.NamesColumn) ∧
      ∀ text, read text = .ok request → read (Text.symbols request.toJson.write) = .ok request := by
  have hread {text : List Text.Symbol} (h : read text = .ok request) :
      (∀ value ∈ request.values, value.IsFinite) ∧ request.NamesColumn := by
    have hdecode := Json.Document.read_eq_ok h
    exact ⟨fun value hvalue => isFinite_of_decode hdecode hvalue, namesColumn_of_decode hdecode⟩
  have hwritten (h : (∀ value ∈ request.values, value.IsFinite) ∧ request.NamesColumn) :
      read (Text.symbols request.toJson.write) = .ok request := by
    have hexact : ∀ value ∈ request.values, value.IsExact := fun value hvalue =>
      Value.isExact_of_isFinite (h.1 value hvalue) fun x hx => hnearest x (hx ▸ hvalue)
    have hreadable : request.toJson.isReadable Json.depthLimit = true := isReadable_toJson hexact
    have hdecode : decode Json.depthLimit request.toJson = .ok request := decode_toJson h.2 hexact
    rw [read, Json.ofSymbols_write hreadable, Json.Document.read, hdecode]
    rfl
  exact ⟨⟨hread, hwritten⟩, fun text h => hwritten (hread h)⟩

end Match

/-! The same values in a match. -/

namespace LookAlikes

/-- A match with the values, for some data mappers only. -/
def request : Match :=
  .composite (values.map fun value => ⟨"visit", value⟩) ["m", "n"]

/-- A text of that match which is not the one that is written for it: arrays of fields in place of
records, no kind, and other spellings of the values. -/
def entry : String :=
  "[[[\"visit\", 70e-1], [\"visit\", -0], [\"visit\", 1e300], [\"visit\", 7]," ++
    " [\"visit\", \"\\u0037\"], [\"visit\", \"\\\"\\\\\\n\\u0001\\u00e9\"]], null, [\"m\", \"n\"]]"

theorem read_entry : Match.read (Text.symbols entry) = .ok request := by
  decide +kernel

theorem mem_of_mem_request {value : Value} (h : value ∈ request.values) : value ∈ values := by
  simpa [Match.values, request] using h

end LookAlikes

open LookAlikes (request entry) in
theorem Match.read_written_lookAlikes :
    (∀ x, .float x ∈ request.values → (Numeral.ofBinary64 x).IsReadNearest) ∧
      (∀ value ∈ request.values, value.IsFinite) ∧ request.NamesColumn ∧
      read (Text.symbols request.toJson.write) = .ok request ∧
      read (Text.symbols entry) = .ok request := by
  have hnearest : ∀ x, .float x ∈ request.values → (Numeral.ofBinary64 x).IsReadNearest :=
    fun x hx => LookAlikes.isReadNearest_of_mem (LookAlikes.mem_of_mem_request hx)
  have hfinite : ∀ value ∈ request.values, value.IsFinite :=
    fun value hvalue => LookAlikes.isFinite_of_mem (LookAlikes.mem_of_mem_request hvalue)
  have hcolumn : request.NamesColumn := List.cons_ne_nil _ _
  obtain ⟨hwritten, _⟩ := read_written request hnearest
  exact ⟨hnearest, hfinite, hcolumn, hwritten.2 ⟨hfinite, hcolumn⟩, LookAlikes.read_entry⟩

end Expunge
