import Expunge.Proofs.Match

/-!
# Values at their places in entries

An entry of a queue with a hole where a value stands: as the identifier of a simple match, or as the
value of one column of a composite one. Whatever numeral stands there, the match that the entry is
read as has the value of the numeral at one and the same place, and all else in it is the same
(`exists_place`).
-/

namespace Expunge

/-! ## Records with a hole -/

namespace Json

/-- A record with a hole in the field of a name: an object with such a member, or an array of fields
with an item at the place of the name. -/
inductive IsFieldSite (names : List String) (name : String) : (Json → Json) → Prop
  | member (before after : List (Option String × Json)) :
    IsFieldSite names name fun value => .object (before ++ (some name, value) :: after)
  | item (before after : List Json) (h : names[before.length]? = some name) :
    IsFieldSite names name fun value => .array (before ++ value :: after)

/-- A name is found exactly if a member has it. -/
theorem lookup_eq_none_iff_not_mem {name : String} {named : List (String × Json)} :
    named.lookup name = none ↔ name ∉ named.map (·.1) := by
  rw [List.lookup_eq_none_iff, List.mem_map]
  simp only [bne_iff_ne, ne_eq, not_exists, not_and]
  exact forall₂_congr fun member _ => not_congr eq_comm

/-- What is found under another name does not depend on what is in the hole. -/
theorem lookup_hole_of_ne {name other : String} (h : other ≠ name) (value : Json)
    (before after : List (String × Json)) :
    (before ++ (name, value) :: after).lookup other = (before ++ after).lookup other := by
  have hne : (other == name) = false := by simpa using h
  rw [List.lookup_append, List.lookup_append, List.lookup_cons, hne]

/-- What is found under the name of the hole is what is in it. -/
theorem lookup_hole {name : String} {before : List (String × Json)}
    (h : name ∉ before.map (·.1)) (value : Json) (after : List (String × Json)) :
    (before ++ (name, value) :: after).lookup name = some value := by
  rw [List.lookup_append, lookup_eq_none_iff_not_mem.2 h, List.lookup_cons, beq_self_eq_true]
  rfl

/-- The members of an object whose names are readable. -/
def readable? (members : List (Option String × Json)) : Option (List (String × Json)) :=
  members.mapM fun member => member.1.map fun name => (name, member.2)

/-- Two parts of the members of an object are read by themselves. -/
theorem readable?_append_eq_some_iff {before after : List (Option String × Json)}
    {named : List (String × Json)} :
    readable? (before ++ after) = some named ↔
      ∃ front back, readable? before = some front ∧ readable? after = some back ∧
        named = front ++ back := by
  rw [readable?, List.mapM_append]
  simp only [Option.bind_eq_bind, Option.bind_eq_some_iff, Option.pure_def, Option.some.injEq]
  constructor
  · rintro ⟨front, hfront, back, hback, rfl⟩
    exact ⟨front, back, hfront, hback, rfl⟩
  · rintro ⟨front, back, hfront, hback, rfl⟩
    exact ⟨front, hfront, back, hback, rfl⟩

theorem readable?_cons (name : String) (value : Json) (after : List (Option String × Json)) :
    readable? ((some name, value) :: after) = (readable? after).map ((name, value) :: ·) := by
  rw [readable?, List.mapM_cons, Option.map_some, Option.bind_eq_bind, Option.bind_some, readable?,
    Option.map_eq_bind]
  rfl

/-- The members around a hole are read by themselves. -/
theorem readable?_hole_eq_some_iff {name : String} {value : Json}
    {before after : List (Option String × Json)} {members : List (String × Json)} :
    readable? (before ++ (some name, value) :: after) = some members ↔
      ∃ front back, readable? before = some front ∧ readable? after = some back ∧
        members = front ++ (name, value) :: back := by
  rw [readable?_append_eq_some_iff]
  simp only [readable?_cons, Option.map_eq_some_iff]
  constructor
  · rintro ⟨front, _, hfront, ⟨back, hback, rfl⟩, rfl⟩
    exact ⟨front, back, hfront, hback, rfl⟩
  · rintro ⟨front, back, hfront, hback, rfl⟩
    exact ⟨front, _, hfront, ⟨back, hback, rfl⟩, rfl⟩

/-- An object is read as a record if its names are readable and none of those asked for stands there
twice. -/
theorem fields?_object_eq_some_iff {room : Nat} {names : List String}
    {members : List (Option String × Json)} {field : Fields} :
    (object members).fields? room names = some field ↔
      0 < room ∧ ∃ named, readable? members = some named ∧
        (∀ name ∈ names, (named.map (·.1)).count name ≤ 1) ∧
        field = fun name => named.lookup name := by
  simp only [fields?, members?, Option.bind_eq_bind, Option.bind_eq_some_iff, Option.guard_eq_some',
    exists_const, Option.pure_def, Option.some.injEq, decide_eq_true_eq, List.all_eq_true]
  constructor
  · rintro ⟨hroom, named, ⟨_, hnamed, honce, rfl⟩, rfl⟩
    exact ⟨hroom, _, hnamed, honce, rfl⟩
  · rintro ⟨hroom, named, hnamed, honce, rfl⟩
    exact ⟨hroom, named, ⟨_, hnamed, honce, rfl⟩, rfl⟩

/-- A record with a hole is refused whatever is in the hole, or else its fields are found among
members with the same hole. -/
theorem IsFieldSite.fields?_eq {names : List String} {name : String} {site : Json → Json}
    (h : IsFieldSite names name site) (hname : name ∈ names) (hnodup : names.Nodup) (room : Nat) :
    ∃ before after : List (String × Json), ∀ value field,
      (site value).fields? room names = some field →
        field name = some value ∧
          ∀ other, other ≠ name → field other = (before ++ after).lookup other := by
  cases h with
  | member before after =>
    refine ⟨(readable? before).getD [], (readable? after).getD [], ?_⟩
    intro value field hfield
    obtain ⟨_, members, hread, honce, rfl⟩ := fields?_object_eq_some_iff.1 hfield
    obtain ⟨front, back, hfront, hback, rfl⟩ := readable?_hole_eq_some_iff.1 hread
    have hfree : name ∉ front.map (·.1) := by
      intro hmem
      have hcount := honce name hname
      have := List.count_pos_iff.2 hmem
      simp at hcount
      omega
    refine ⟨lookup_hole hfree value back, ?_⟩
    intro other hother
    rw [hfront, hback]
    exact lookup_hole_of_ne hother value front back
  | item before after hat =>
    obtain ⟨front, back, rfl, hlength⟩ : ∃ front back, names = front ++ name :: back ∧
        front.length = before.length := by
      obtain ⟨hlt, hget⟩ := List.getElem?_eq_some_iff.1 hat
      refine ⟨names.take before.length, names.drop (before.length + 1), ?_, ?_⟩
      · rw [← hget, List.getElem_cons_drop, List.take_append_drop]
      · simp [Nat.le_of_lt hlt]
    refine ⟨front.zip before, back.zip after, ?_⟩
    intro value field hfield
    simp only [fields?, Option.bind_eq_bind, Option.bind_eq_some_iff, Option.guard_eq_some',
      exists_const, Option.pure_def, Option.some.injEq] at hfield
    obtain ⟨_, rfl⟩ := hfield
    have hzip : (front ++ name :: back).zip (before ++ value :: after) =
        front.zip before ++ (name, value) :: back.zip after := by
      rw [List.zip_append hlength, List.zip_cons_cons]
    have hfree : name ∉ (front.zip before).map (·.1) := by
      intro hmem
      rw [List.map_fst_zip hlength.le] at hmem
      exact (List.nodup_append.1 hnodup).2.2 name hmem name (List.mem_cons_self) rfl
    rw [hzip]
    refine ⟨lookup_hole hfree value _, ?_⟩
    intro other hother
    exact lookup_hole_of_ne hother value _ _

end Json

/-! ## Entries with a hole -/

namespace Match

/-- An entry with a hole for a value: as its identifier, or as the value of one column. -/
inductive IsSite : (Json → Json) → Prop
  | simple {entry : Json → Json}
    (h : Json.IsFieldSite ["match_id", "type", "data_mappers"] "match_id" entry) : IsSite entry
  | composite {entry pair : Json → Json}
    (h : Json.IsFieldSite ["match_id", "type", "data_mappers"] "match_id" entry)
    (hpair : Json.IsFieldSite ["column", "value"] "value" pair) (before after : List Json) :
    IsSite fun value => entry (.array (before ++ pair value :: after))

/-- A match with a hole for a value. -/
inductive IsPlace : (Value → Match) → Prop
  | simple (scope : List String) : IsPlace fun value => .simple value scope
  | composite (before : List ColumnValue) (column : String) (after : List ColumnValue)
    (scope : List String) :
    IsPlace fun value => .composite (before ++ ⟨column, value⟩ :: after) scope

/-- Different values make different matches. -/
theorem IsPlace.injective {place : Value → Match} (h : IsPlace place) :
    Function.Injective place := by
  intro value other heq
  cases h with
  | simple scope =>
    cases heq
    rfl
  | composite before column after scope =>
    simpa using heq

/-- A column value with a hole for its value is read as one with the value at that place. -/
theorem exists_column_of_isFieldSite {pair : Json → Json}
    (h : Json.IsFieldSite ["column", "value"] "value" pair) (room : Nat) :
    ∃ column, ∀ n read, ColumnValue.decode? room (pair (.number n)) = some read →
      ∃ value, Value.ofNumeral? n = some value ∧ read = ⟨column, value⟩ := by
  obtain ⟨before, after, hfields⟩ := h.fields?_eq (by decide) (by decide) room
  refine ⟨(((before ++ after).lookup "column").bind Json.text?).getD "", ?_⟩
  intro n read hread
  obtain ⟨field, column, value, hfield, hcolumn, hname, hvalue, hdecode⟩ :=
    ColumnValue.decode?_eq_some_iff.1 hread
  obtain ⟨hhole, hother⟩ := hfields _ _ hfield
  rw [hhole] at hvalue
  cases hvalue
  rw [← hother "column" (by decide), hcolumn, Option.bind_some, hname]
  exact ⟨read.value, hdecode, rfl⟩

/-- The matches that an entry with a hole is read as have the value in the hole at one place, and
are otherwise the same. -/
theorem exists_place {site : Json → Json} (h : IsSite site) (room : Nat) :
    ∃ place, IsPlace place ∧ ∀ n request, decode room (site (.number n)) = .ok request →
      ∃ value, Value.ofNumeral? n = some value ∧ request = place value := by
  cases h with
  | simple h =>
    obtain ⟨before, after, hfields⟩ := h.fields?_eq (by decide) (by decide) room
    refine ⟨_, .simple ((Json.orDefault [] (Json.texts? (room - 1))
      ((before ++ after).lookup "data_mappers")).getD []), ?_⟩
    intro n request hrequest
    obtain ⟨identifier, kind, scope, hentry, hrequest⟩ := decode_eq_ok_iff.1 hrequest
    obtain ⟨field, item, hfield, hitem, hidentifier, _, hscope⟩ :=
      decodeEntry?_eq_some_iff.1 hentry
    obtain ⟨hhole, hother⟩ := hfields _ _ hfield
    rw [hhole] at hitem
    cases hitem
    rw [decodeIdentifier?_of_not_array (by simp)] at hidentifier
    obtain ⟨value, hvalue, rfl⟩ := Option.map_eq_some_iff.1 hidentifier
    rcases ofEntry_eq_ok_iff.1 hrequest with ⟨_, heq, _, rfl⟩ | ⟨_, heq, _⟩
    · cases heq
      rw [← hother "data_mappers" (by decide), hscope]
      exact ⟨value, hvalue, rfl⟩
    · cases heq
  | composite h hpair before after =>
    rename_i entry pair
    obtain ⟨front, back, hfields⟩ := h.fields?_eq (by decide) (by decide) room
    obtain ⟨column, hcolumn⟩ := exists_column_of_isFieldSite hpair (room - 1 - 1)
    let read (items : List Json) := items.mapM (ColumnValue.decode? (room - 1 - 1))
    refine ⟨_, .composite ((read before).getD []) column ((read after).getD [])
      ((Json.orDefault [] (Json.texts? (room - 1))
        ((front ++ back).lookup "data_mappers")).getD []), ?_⟩
    intro n request hrequest
    obtain ⟨identifier, kind, scope, hentry, hrequest⟩ := decode_eq_ok_iff.1 hrequest
    obtain ⟨field, item, hfield, hitem, hidentifier, _, hscope⟩ :=
      decodeEntry?_eq_some_iff.1 hentry
    obtain ⟨hhole, hother⟩ := hfields _ _ hfield
    rw [hhole] at hitem
    cases hitem
    obtain ⟨_, pairs, hpairs, rfl⟩ := decodeIdentifier?_array_eq_some_iff.1 hidentifier
    rcases ofEntry_eq_ok_iff.1 hrequest with ⟨_, heq, _⟩ | ⟨_, heq, _, _, rfl⟩
    · cases heq
    · cases heq
      simp only [List.mapM_append, List.mapM_cons, Option.bind_eq_bind, Option.bind_eq_some_iff,
        Option.pure_def, Option.some.injEq] at hpairs
      obtain ⟨before', hbefore, _, ⟨hole, hhole, after', hafter, rfl⟩, rfl⟩ := hpairs
      obtain ⟨value, hvalue, rfl⟩ := hcolumn n hole hhole
      refine ⟨value, hvalue, ?_⟩
      rw [← hother "data_mappers" (by decide), hscope]
      simp only [read, hbefore, hafter, Option.getD_some]

end Match

end Expunge
