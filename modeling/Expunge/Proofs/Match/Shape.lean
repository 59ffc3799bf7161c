import Expunge.Proofs.Match.Site

/-!
# What the shape of an identifier decides

The members of an entry may come in any order and among others. A record with one more member is
read as the record without it, with that field added (`fields?_insert_eq_some_iff`). So the type of
an entry may be left out, and one that is added has to be the kind that the shape of the identifier
calls for (`decode_insert_type`); and a scope that is left out is empty (`decode_insert_scope`).
Main result: `identifier_decides`.
-/

namespace Expunge

/-! ## Members of objects -/

namespace Json

variable {room : Nat} {names : List String} {name : String} {members : List (Option String × Json)}
  {field : Fields}

/-- One more member counts for its name only. -/
theorem count_hole (front back : List (String × Json)) (value : Json) (asked : String) :
    ((front ++ (name, value) :: back).map (·.1)).count asked =
      ((front ++ back).map (·.1)).count asked + if asked = name then 1 else 0 := by
  simp only [List.map_append, List.map_cons, List.count_append, List.count_cons, beq_iff_eq,
    eq_comm (a := name)]
  omega

/-- One more member of a new name is found under that name only. -/
theorem lookup_hole_eq {front back : List (String × Json)}
    (h : name ∉ (front ++ back).map (·.1)) (value : Json) :
    (fun asked => (front ++ (name, value) :: back).lookup asked) =
      fun asked => if asked = name then some value else (front ++ back).lookup asked := by
  rw [List.map_append, List.mem_append, not_or] at h
  funext asked
  split
  · next hasked => rw [hasked, lookup_hole h.1]
  · next hasked => exact lookup_hole_of_ne hasked value front back

/-- A record with one more member is read exactly if it is read without it and has no other member
of that name. Only the field of that name is another one. -/
theorem fields?_insert_eq_some_iff (hname : name ∈ names)
    {before after : List (Option String × Json)} {value : Json} :
    (object (before ++ (some name, value) :: after)).fields? room names = some field ↔
      ∃ other, (object (before ++ after)).fields? room names = some other ∧ other name = none ∧
        field = fun asked => if asked = name then some value else other asked := by
  simp only [fields?_object_eq_some_iff]
  constructor
  · rintro ⟨hroom, _, hnamed, honce, rfl⟩
    obtain ⟨front, back, hfront, hback, rfl⟩ := readable?_hole_eq_some_iff.1 hnamed
    simp only [count_hole] at honce
    have hfree : name ∉ (front ++ back).map (·.1) := by
      have := honce name hname
      rw [if_pos rfl] at this
      exact List.count_eq_zero.1 (by omega)
    have hnamed := readable?_append_eq_some_iff.2 ⟨front, back, hfront, hback, rfl⟩
    refine ⟨_, ⟨hroom, _, hnamed, ?_, rfl⟩, lookup_eq_none_iff_not_mem.2 hfree,
      lookup_hole_eq hfree value⟩
    exact fun asked hasked => Nat.le_of_add_right_le (honce asked hasked)
  · rintro ⟨_, ⟨hroom, _, hnamed, honce, rfl⟩, hnone, rfl⟩
    obtain ⟨front, back, hfront, hback, rfl⟩ := readable?_append_eq_some_iff.1 hnamed
    have hfree := lookup_eq_none_iff_not_mem.1 hnone
    refine ⟨hroom, _, readable?_hole_eq_some_iff.2 ⟨front, back, hfront, hback, rfl⟩, ?_,
      (lookup_hole_eq hfree value).symm⟩
    intro asked hasked
    rw [count_hole]
    split
    · next heq =>
      rw [heq, List.count_eq_zero.2 hfree]
    · exact honce asked hasked

/-- What is found under a name asked for is the value of the member of that name. -/
theorem fields?_object_apply_iff (hname : name ∈ names)
    (h : (object members).fields? room names = some field) {value : Json} :
    field name = some value ↔ (some name, value) ∈ members := by
  constructor
  · intro hfound
    obtain ⟨_, named, hnamed, _, rfl⟩ := fields?_object_eq_some_iff.1 h
    obtain ⟨front, back, rfl, _⟩ := List.lookup_eq_some_iff.1 hfound
    obtain ⟨⟨key, item⟩, hmem, hread⟩ :=
      Outcome.exists_left_of_forall₂ (Outcome.mapM_eq_some_iff.1 hnamed)
        (List.mem_append_right _ List.mem_cons_self)
    obtain ⟨_, rfl, heq⟩ := Option.map_eq_some_iff.1 hread
    cases heq
    exact hmem
  · intro hmem
    obtain ⟨before, after, rfl⟩ := List.append_of_mem hmem
    obtain ⟨_, _, _, rfl⟩ := (fields?_insert_eq_some_iff hname).1 h
    exact if_pos rfl

/-- Nothing is found under a name asked for that no member has. -/
theorem fields?_object_apply_eq_none (hname : name ∈ names)
    (h : (object members).fields? room names = some field)
    (hnone : ∀ value, (some name, value) ∉ members) : field name = none := by
  rw [Option.eq_none_iff_forall_ne_some]
  exact fun value hvalue => hnone value ((fields?_object_apply_iff hname h).1 hvalue)

end Json

/-! ## Entries -/

namespace Match

/-- What an identifier means by its shape alone: a number or a text is the value of a simple match,
a list with an item at least is a composite match of the column values that its items are read
as. -/
inductive IsGivenBy (room : Nat) : Json → Match → Prop
  | number {n : Numeral} {value : Value} {scope : List String}
    (h : Value.ofNumeral? n = some value) : IsGivenBy room (.number n) (.simple value scope)
  | text {text : String} {scope : List String} :
    IsGivenBy room (.string (some text)) (.simple (.text text) scope)
  | list {items : List Json} {pairs : List ColumnValue} {scope : List String} (hne : items ≠ [])
    (h : List.Forall₂ (fun item pair => ColumnValue.decode? room item = some pair) items pairs) :
    IsGivenBy room (.array items) (.composite pairs scope)

/-- A kind as an entry may spell it. -/
def Kind.spellings (kind : Kind) : List Json :=
  [.ofString kind.name, .object [(some kind.name, .null)]]

/-- The rule that an entry breaks if it names a kind that its identifier does not call for. -/
def Kind.rule : Kind → EntryRule
  | simple => .simpleValue
  | composite => .compositeList

/-- A spelling of a kind is read as the kind. -/
theorem variant?_of_mem_spellings {kind : Kind} {tag : Json} (h : tag ∈ kind.spellings)
    (room : Nat) : Json.variant? .direct (room + 1) kinds tag = some kind := by
  rw [Kind.spellings, List.mem_cons, List.mem_singleton] at h
  rcases h with rfl | rfl <;> cases kind <;> rfl

variable {room : Nat} {before after : List (Option String × Json)} {request : Match}

/-- An identifier means what its shape says. -/
theorem isGivenBy_of_decodeIdentifier? {json : Json} {identifier : Identifier} {kind : Option Kind}
    {scope : List String} (h : decodeIdentifier? room json = some identifier)
    (hrequest : ofEntry identifier kind scope = .ok request) :
    IsGivenBy (room - 1) json request := by
  by_cases harray : ∃ items, json = .array items
  · obtain ⟨items, rfl⟩ := harray
    obtain ⟨_, pairs, hpairs, rfl⟩ := decodeIdentifier?_array_eq_some_iff.1 h
    rcases ofEntry_eq_ok_iff.1 hrequest with ⟨_, heq, _⟩ | ⟨_, heq, hne, _, rfl⟩
    · cases heq
    · cases heq
      have hpairs := Outcome.mapM_eq_some_iff.1 hpairs
      refine .list ?_ hpairs
      rintro rfl
      cases hpairs
      exact hne rfl
  · rw [decodeIdentifier?_of_not_array (not_exists.1 harray)] at h
    obtain ⟨value, hvalue, rfl⟩ := Option.map_eq_some_iff.1 h
    rcases ofEntry_eq_ok_iff.1 hrequest with ⟨_, heq, _, rfl⟩ | ⟨_, heq, _⟩
    · cases heq
      cases json with
      | number n => exact .number hvalue
      | string text =>
        obtain ⟨text, rfl, rfl⟩ := Option.map_eq_some_iff.1 hvalue
        exact .text
      | malformed | null | bool | array | object => cases hvalue
    · cases heq

/-- The kind of an entry may be left out. -/
theorem ofEntry_none {identifier : Identifier} {kind : Option Kind} {scope : List String}
    (h : ofEntry identifier kind scope = .ok request) :
    ofEntry identifier none scope = .ok request := by
  rcases ofEntry_eq_ok_iff.1 h with ⟨value, rfl, _, rfl⟩ | ⟨pairs, rfl, hne, _, rfl⟩
  · rfl
  · exact ofEntry_eq_ok_iff.2 (.inr ⟨pairs, rfl, hne, by simp, rfl⟩)

/-- A kind that is named has to be the one of the match. -/
theorem ofEntry_some {identifier : Identifier} {kind : Option Kind} {scope : List String}
    (h : ofEntry identifier kind scope = .ok request) (named : Kind) :
    ofEntry identifier (some named) scope =
      if named = request.kind then .ok request else .error (.entry named.rule) := by
  rcases ofEntry_eq_ok_iff.1 h with ⟨value, rfl, _, rfl⟩ | ⟨pairs, rfl, hne, _, rfl⟩
  · cases named <;> rfl
  · cases named with
    | simple => rfl
    | composite => exact ofEntry_eq_ok_iff.2 (.inr ⟨pairs, rfl, hne, by simp, rfl⟩)

/-- A match is read off the fields of a record. -/
theorem decode_eq_ok_iff_fields {json : Json} :
    decode room json = .ok request ↔
      ∃ field item identifier kind scope,
        json.fields? room ["match_id", "type", "data_mappers"] = some field ∧
        field "match_id" = some item ∧ decodeIdentifier? (room - 1) item = some identifier ∧
        Json.orNull (Json.variant? .direct (room - 1) kinds) (field "type") = some kind ∧
        Json.orDefault [] (Json.texts? (room - 1)) (field "data_mappers") = some scope ∧
        ofEntry identifier kind scope = .ok request := by
  rw [decode_eq_ok_iff]
  constructor
  · rintro ⟨identifier, kind, scope, hentry, hrequest⟩
    obtain ⟨field, item, hfield, hitem, hidentifier, hkind, hscope⟩ :=
      decodeEntry?_eq_some_iff.1 hentry
    exact ⟨field, item, identifier, kind, scope, hfield, hitem, hidentifier, hkind, hscope,
      hrequest⟩
  · rintro ⟨field, item, identifier, kind, scope, hfield, hitem, hidentifier, hkind, hscope,
      hrequest⟩
    exact ⟨identifier, kind, scope,
      decodeEntry?_eq_some_iff.2 ⟨field, item, hfield, hitem, hidentifier, hkind, hscope⟩, hrequest⟩

/-- An entry that is read has one identifier, which means the match by its shape. -/
theorem exists_identifier_of_decode {members : List (Option String × Json)}
    (h : decode room (.object members) = .ok request) :
    ∃ item, (∀ other, (some "match_id", other) ∈ members ↔ other = item) ∧
      IsGivenBy (room - 1 - 1) item request := by
  obtain ⟨field, item, _, _, _, hfield, hitem, hidentifier, _, _, hrequest⟩ :=
    decode_eq_ok_iff_fields.1 h
  refine ⟨item, fun other => ?_, isGivenBy_of_decodeIdentifier? hidentifier hrequest⟩
  rw [← Json.fields?_object_apply_iff (by simp) hfield, hitem, Option.some.injEq, eq_comm]

/-- The type of an entry may be left out. -/
theorem decode_erase_type {tag : Json}
    (h : decode room (.object (before ++ (some "type", tag) :: after)) = .ok request) :
    decode room (.object (before ++ after)) = .ok request := by
  obtain ⟨_, item, identifier, kind, scope, hinserted, hitem, hidentifier, _, hscope, hrequest⟩ :=
    decode_eq_ok_iff_fields.1 h
  obtain ⟨field, hfield, htype, rfl⟩ := (Json.fields?_insert_eq_some_iff (by simp)).1 hinserted
  have hkind : Json.orNull (Json.variant? .direct (room - 1) kinds) (field "type") = some none := by
    rw [htype]
    rfl
  exact decode_eq_ok_iff_fields.2 ⟨field, item, identifier, none, scope, hfield, hitem,
    hidentifier, hkind, hscope, ofEntry_none hrequest⟩

/-- A type that is added to an entry has to be the kind that the shape of the identifier calls
for. -/
theorem decode_insert_type (hroom : 1 < room)
    (hnone : ∀ tag, (some "type", tag) ∉ before ++ after)
    (h : decode room (.object (before ++ after)) = .ok request) {kind : Kind} {tag : Json}
    (htag : tag ∈ kind.spellings) :
    decode room (.object (before ++ (some "type", tag) :: after)) =
      if kind = request.kind then .ok request else .error (.entry kind.rule) := by
  obtain ⟨field, item, identifier, _, scope, hfield, hitem, hidentifier, _, hscope, hrequest⟩ :=
    decode_eq_ok_iff_fields.1 h
  have htype : field "type" = none := Json.fields?_object_apply_eq_none (by simp) hfield hnone
  have hkind : Json.orNull (Json.variant? .direct (room - 1) kinds) (some tag) =
      some (some kind) := by
    obtain ⟨smaller, hsmaller⟩ : ∃ smaller, room - 1 = smaller + 1 := ⟨room - 2, by omega⟩
    have hvariant := variant?_of_mem_spellings htag smaller
    rw [hsmaller]
    cases tag with
    | null => cases hvariant
    | _ => exact congrArg (Option.map some) hvariant
  have hentry : decodeEntry? room (.object (before ++ (some "type", tag) :: after)) =
      some (identifier, some kind, scope) :=
    decodeEntry?_eq_some_iff.2
      ⟨_, item, (Json.fields?_insert_eq_some_iff (by simp)).2 ⟨field, hfield, htype, rfl⟩, hitem,
        hidentifier, hkind, hscope⟩
  rw [decode, hentry]
  exact ofEntry_some hrequest kind

/-- A scope that is left out is empty. -/
theorem decode_insert_scope (hroom : 1 < room)
    (hnone : ∀ scope, (some "data_mappers", scope) ∉ before ++ after) :
    decode room (.object (before ++ (some "data_mappers", .array []) :: after)) =
      decode room (.object (before ++ after)) := by
  have hempty : Json.texts? (room - 1) (.array []) = some [] := by
    have hpos : 0 < room - 1 := by omega
    simp [Json.texts?, Json.list?, Json.items?, hpos]
  have hentry : decodeEntry? room (.object (before ++ (some "data_mappers", .array []) :: after)) =
      decodeEntry? room (.object (before ++ after)) := by
    ext ⟨identifier, kind, scope⟩
    rw [decodeEntry?_eq_some_iff, decodeEntry?_eq_some_iff]
    constructor
    · rintro ⟨_, item, hinserted, hitem, hidentifier, hkind, hscope⟩
      obtain ⟨field, hfield, hmissing, rfl⟩ :=
        (Json.fields?_insert_eq_some_iff (by simp)).1 hinserted
      refine ⟨field, item, hfield, hitem, hidentifier, hkind, ?_⟩
      rw [hmissing]
      exact hempty.symm.trans hscope
    · rintro ⟨field, item, hfield, hitem, hidentifier, hkind, hscope⟩
      have hmissing : field "data_mappers" = none :=
        Json.fields?_object_apply_eq_none (by simp) hfield hnone
      refine ⟨_, item, (Json.fields?_insert_eq_some_iff (by simp)).2 ⟨field, hfield, hmissing, rfl⟩,
        hitem, hidentifier, hkind, ?_⟩
      rw [hmissing] at hscope
      exact hempty.trans hscope
  rw [decode, decode, hentry]

/-- An entry is read as what the shape of its identifier means, whatever order its members have and
whatever others there are. A type that it has may be left out. One that it does not have may be
added if it is the kind that the identifier calls for; the other one is refused. A scope that it
does not have may be added as an empty list. There has to be room for the entry and for a value in
it, as there is wherever entries are read off a text or off a list in a text. -/
theorem identifier_decides {room : Nat} (hroom : 1 < room)
    (before after : List (Option String × Json)) :
    (∀ tag request, decode room (.object (before ++ (some "type", tag) :: after)) = .ok request →
      decode room (.object (before ++ after)) = .ok request) ∧
    (∀ request, decode room (.object (before ++ after)) = .ok request →
      (∃ item, (∀ other, (some "match_id", other) ∈ before ++ after ↔ other = item) ∧
        IsGivenBy (room - 1 - 1) item request) ∧
      ((∀ tag, (some "type", tag) ∉ before ++ after) → ∀ kind, ∀ tag ∈ kind.spellings,
        decode room (.object (before ++ (some "type", tag) :: after)) =
          if kind = request.kind then .ok request else .error (.entry kind.rule))) ∧
    ((∀ scope, (some "data_mappers", scope) ∉ before ++ after) →
      decode room (.object (before ++ (some "data_mappers", .array []) :: after)) =
        decode room (.object (before ++ after))) := by
  refine ⟨fun tag request => decode_erase_type, fun request h => ⟨?_, ?_⟩, ?_⟩
  · exact exists_identifier_of_decode h
  · exact fun hnone kind tag htag => decode_insert_type hroom hnone h htag
  · exact decode_insert_scope hroom

/-! An entry with a note and a list of one column value. -/

namespace Noted

/-- The members of the entry. -/
def note : List (Option String × Json) :=
  [(some "note", .string none)]

def identifier : List (Option String × Json) :=
  [(some "match_id", .array [.ofFields [("column", .ofString "id"), ("value", .ofInt 7)]])]

/-- The match that the entry is read as. -/
def listed : Match :=
  .composite [⟨"id", .integer 7⟩] []

end Noted

open Noted in
theorem identifier_decides_noted :
    1 < Json.depthLimit ∧
      decode Json.depthLimit (.object (note ++ identifier)) = .ok listed ∧
      (∃ item, (∀ other, (some "match_id", other) ∈ note ++ identifier ↔ other = item) ∧
        IsGivenBy (Json.depthLimit - 1 - 1) item listed) ∧
      decode Json.depthLimit
        (.object (note ++ (some "type", .ofString "Composite") :: identifier)) = .ok listed ∧
      decode Json.depthLimit
        (.object (note ++ (some "type", .ofString "Simple") :: identifier)) =
          .error (.entry .simpleValue) ∧
      decode Json.depthLimit
        (.object (note ++ (some "data_mappers", .array []) :: identifier)) = .ok listed := by
  have hroom : 1 < Json.depthLimit := by decide
  obtain ⟨herase, hread, hscope⟩ := identifier_decides hroom note identifier
  have hnamed : decode Json.depthLimit
      (.object (note ++ (some "type", .ofString "Composite") :: identifier)) = .ok listed := by
    decide +kernel
  have hdecode := herase _ _ hnamed
  obtain ⟨hitem, htype⟩ := hread listed hdecode
  have hsimple := htype (by simp [note, identifier]) .simple _ List.mem_cons_self
  exact ⟨hroom, hdecode, hitem, hnamed, hsimple,
    (hscope (by simp [note, identifier])).trans hdecode⟩

end Match

end Expunge
