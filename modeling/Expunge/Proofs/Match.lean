import Expunge.Match
import Expunge.Proofs.Json.Numeral
import Expunge.Proofs.Outcomes

/-!
# Matches read off documents

What a match is when it has been read off a document: which parts of the document it repeats, that
all of its values are finite (`Match.isFinite_of_decode`), and that it names a column if it is a
composite one (`Match.namesColumn_of_decode`).
-/

namespace Expunge

/-- A column value is read off a record with a text and a value. -/
theorem ColumnValue.decode?_eq_some_iff {room : Nat} {json : Json} {pair : ColumnValue} :
    decode? room json = some pair ↔
      ∃ field column value, json.fields? room ["column", "value"] = some field ∧
        field "column" = some column ∧ column.text? = some pair.column ∧
        field "value" = some value ∧ Value.decode? value = some pair.value := by
  simp only [decode?, Option.bind_eq_bind, Option.bind_eq_some_iff, Option.pure_def,
    Option.some.injEq]
  constructor
  · rintro ⟨field, hfield, column, hcolumn, name, hname, item, hitem, value, hvalue, rfl⟩
    exact ⟨field, column, item, hfield, hcolumn, hname, hitem, hvalue⟩
  · rintro ⟨field, column, item, hfield, hcolumn, hname, hitem, hvalue⟩
    exact ⟨field, hfield, column, hcolumn, _, hname, item, hitem, _, hvalue, rfl⟩

/-- What is read off a document is read off its tree. -/
theorem Json.Document.read_eq_ok {α : Type} {decode : Json → Except Refusal α}
    {document : Document} {result : α} (h : document.read decode = .ok result) :
    decode document.root = .ok result := by
  obtain ⟨value, hvalue, h⟩ := Outcome.bind_eq_ok_iff.1 h
  split at h
  · cases h
  · cases h
    exact hvalue

/-- What is read off a document by its shape is read off its tree. -/
theorem Json.Document.readShape_eq_ok {α : Type} {decode? : Json → Option α}
    {document : Document} {result : α} (h : document.readShape decode? = .ok result) :
    decode? document.root = some result := by
  have hroot : Refusal.unlessSome (decode? document.root) = .ok result := read_eq_ok h
  cases hdecode : decode? document.root with
  | none =>
    rw [hdecode] at hroot
    cases hroot
  | some value =>
    rw [hdecode] at hroot
    cases hroot
    rfl

namespace Match

/-- The values that a match searches for. -/
def values : Match → List Value
  | simple value _ => [value]
  | composite pairs _ => pairs.map (·.value)

/-- The kind that a match is written with. -/
def kind : Match → Kind
  | simple .. => .simple
  | composite .. => .composite

/-- The name of a kind. -/
def Kind.name : Kind → String
  | simple => "Simple"
  | composite => "Composite"

/-- An entry with a single value is a simple match, unless it says that it is a composite one. An
entry with a list is a composite match, unless it says that it is a simple one or the list is
empty. -/
theorem ofEntry_eq_ok_iff {identifier : Identifier} {kind : Option Kind} {scope : List String}
    {request : Match} :
    ofEntry identifier kind scope = .ok request ↔
      (∃ value, identifier = .single value ∧ kind ≠ some .composite ∧
        request = .simple value scope) ∨
      ∃ pairs, identifier = .columns pairs ∧ pairs ≠ [] ∧ kind ≠ some .simple ∧
        request = .composite pairs scope := by
  cases identifier with
  | single value =>
    rcases kind with _ | _ | _ <;> simp [ofEntry, eq_comm]
  | columns pairs =>
    cases pairs <;> rcases kind with _ | _ | _ <;> simp [ofEntry, eq_comm]

/-- The parts of an entry are read off the fields of a record. -/
theorem decodeEntry?_eq_some_iff {room : Nat} {json : Json} {identifier : Identifier}
    {kind : Option Kind} {scope : List String} :
    decodeEntry? room json = some (identifier, kind, scope) ↔
      ∃ field item, json.fields? room ["match_id", "type", "data_mappers"] = some field ∧
        field "match_id" = some item ∧ decodeIdentifier? (room - 1) item = some identifier ∧
        Json.orNull (Json.variant? .direct (room - 1) kinds) (field "type") = some kind ∧
        Json.orDefault [] (Json.texts? (room - 1)) (field "data_mappers") = some scope := by
  simp only [Option.bind_eq_bind, decodeEntry?, Option.bind_eq_some_iff, Option.pure_def,
    Option.some.injEq, Prod.mk.injEq]
  constructor
  · rintro ⟨field, hfield, item, hitem, _, hidentifier, _, hkind, _, hscope, rfl, rfl, rfl⟩
    exact ⟨field, item, hfield, hitem, hidentifier, hkind, hscope⟩
  · rintro ⟨field, item, hfield, hitem, hidentifier, hkind, hscope⟩
    exact ⟨field, hfield, item, hitem, _, hidentifier, _, hkind, _, hscope, rfl, rfl, rfl⟩

/-- A match is read off a document that holds the parts of an entry which go together. -/
theorem decode_eq_ok_iff {room : Nat} {json : Json} {request : Match} :
    decode room json = .ok request ↔
      ∃ identifier kind scope, decodeEntry? room json = some (identifier, kind, scope) ∧
        ofEntry identifier kind scope = .ok request := by
  rw [decode]
  split
  · next identifier kind scope hentry =>
    constructor
    · intro h
      exact ⟨identifier, kind, scope, hentry, h⟩
    · rintro ⟨_, _, _, hentry', h⟩
      rw [hentry] at hentry'
      cases hentry'
      exact h
  · next hentry =>
    constructor
    · intro h
      cases h
    · rintro ⟨_, _, _, hentry', _⟩
      rw [hentry] at hentry'
      cases hentry'

/-- An identifier that is not a list is a single value. -/
theorem decodeIdentifier?_of_not_array {room : Nat} {json : Json}
    (h : ∀ items, json ≠ .array items) :
    decodeIdentifier? room json = (Value.decode? json).map .single := by
  cases json with
  | array items => exact absurd rfl (h items)
  | malformed => rfl
  | null => rfl
  | bool value => rfl
  | number n => rfl
  | string text => rfl
  | object members => rfl

/-- An identifier that is a list is one of column values, and all of it is readable. -/
theorem decodeIdentifier?_array_eq_some_iff {room : Nat} {items : List Json}
    {identifier : Identifier} :
    decodeIdentifier? room (.array items) = some identifier ↔
      Json.isReadable room (.array items) = true ∧
        ∃ pairs, items.mapM (ColumnValue.decode? (room - 1)) = some pairs ∧
          identifier = .columns pairs := by
  simp only [decodeIdentifier?, Option.bind_eq_bind, Option.bind_eq_some_iff, Option.pure_def,
    Option.some.injEq, Option.guard_eq_some', exists_const]
  constructor
  · rintro ⟨hreadable, pairs, hpairs, rfl⟩
    exact ⟨hreadable, pairs, hpairs, rfl⟩
  · rintro ⟨hreadable, pairs, hpairs, rfl⟩
    exact ⟨hreadable, pairs, hpairs, rfl⟩

/-- A match that names a column if it is a composite one. -/
def NamesColumn : Match → Prop
  | simple .. => True
  | composite pairs _ => pairs ≠ []

/-- A match that is read off a document names a column if it is a composite one. -/
theorem namesColumn_of_decode {room : Nat} {json : Json} {request : Match}
    (h : decode room json = .ok request) : request.NamesColumn := by
  obtain ⟨identifier, kind, _, _, h⟩ := decode_eq_ok_iff.1 h
  rcases ofEntry_eq_ok_iff.1 h with ⟨_, _, _, rfl⟩ | ⟨_, _, hne, _, rfl⟩
  · trivial
  · exact hne

/-- An entry that is read off a document holds finite values only. -/
theorem isFinite_of_decode {room : Nat} {json : Json} {request : Match}
    (h : decode room json = .ok request) {value : Value} (hvalue : value ∈ request.values) :
    value.IsFinite := by
  obtain ⟨identifier, kind, scope, hentry, h⟩ := decode_eq_ok_iff.1 h
  obtain ⟨field, item, _, _, hidentifier, _, _⟩ := decodeEntry?_eq_some_iff.1 hentry
  by_cases harray : ∃ items, item = .array items
  · obtain ⟨items, rfl⟩ := harray
    obtain ⟨_, pairs, hpairs, rfl⟩ := decodeIdentifier?_array_eq_some_iff.1 hidentifier
    rcases ofEntry_eq_ok_iff.1 h with ⟨_, heq, _, _⟩ | ⟨_, heq, _, _, rfl⟩
    · cases heq
    · cases heq
      obtain ⟨pair, hpair, rfl⟩ := List.mem_map.1 hvalue
      obtain ⟨json, _, hdecode⟩ :=
        Outcome.exists_left_of_forall₂ (Outcome.mapM_eq_some_iff.1 hpairs) hpair
      obtain ⟨_, _, _, _, _, _, _, hvalue⟩ := ColumnValue.decode?_eq_some_iff.1 hdecode
      exact Value.isFinite_of_decode? hvalue
  · rw [decodeIdentifier?_of_not_array (not_exists.1 harray)] at hidentifier
    obtain ⟨single, hsingle, rfl⟩ := Option.map_eq_some_iff.1 hidentifier
    rcases ofEntry_eq_ok_iff.1 h with ⟨_, heq, _, rfl⟩ | ⟨_, heq, _, _, _⟩
    · cases heq
      rw [values, List.mem_singleton] at hvalue
      exact hvalue ▸ Value.isFinite_of_decode? hsingle
    · cases heq

/-- The entries of a list that is read off a document hold finite values only. -/
theorem isFinite_of_decodeList {room : Nat} {json : Json} {requests : List Match}
    (h : decodeList room json = .ok requests) :
    ∀ request ∈ requests, ∀ value ∈ request.values, value.IsFinite := by
  obtain ⟨items, _, hitems⟩ := Outcome.bind_eq_ok_iff.1 h
  intro request hrequest value hvalue
  obtain ⟨item, _, hdecode⟩ :=
    Outcome.exists_left_of_forall₂ (Outcome.mapM_eq_ok_iff.1 hitems) hrequest
  exact isFinite_of_decode hdecode hvalue

end Match

end Expunge
