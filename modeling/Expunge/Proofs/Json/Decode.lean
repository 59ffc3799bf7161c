import Expunge.Json.Decode
import Expunge.Proofs.Outcomes
import Mathlib.Data.List.Nodup

/-!
# Reading written trees

A record that is written field by field is read as the look-up of its fields (`fields?_ofFields`),
and an array item by item (`list?_map`). Which trees can be held back is said by one equivalence for
each constructor.
-/

namespace Expunge.Json

/-! ## Readable trees -/

theorem areReadable_iff {room : Nat} {items : List Json} :
    areReadable room items = true ↔ ∀ item ∈ items, item.isReadable room = true := by
  induction items with
  | nil => simp [areReadable]
  | cons item items ih => simp [areReadable, ih]

theorem membersReadable_iff {room : Nat} {members : List (Option String × Json)} :
    membersReadable room members = true ↔
      ∀ member ∈ members, member.1.isSome = true ∧ member.2.isReadable room = true := by
  induction members with
  | nil => simp [membersReadable]
  | cons member members ih => simp [membersReadable, ih]

theorem isReadable_array {room : Nat} {items : List Json} :
    (array items).isReadable (room + 1) = true ↔ ∀ item ∈ items, item.isReadable room = true := by
  rw [isReadable, areReadable_iff]

theorem isReadable_ofFields {room : Nat} {fields : List (String × Json)} :
    (ofFields fields).isReadable (room + 1) = true ↔
      ∀ field ∈ fields, field.2.isReadable room = true := by
  rw [ofFields, isReadable, membersReadable_iff, List.forall_mem_map]
  simp

@[simp] theorem isReadable_ofString {room : Nat} {text : String} :
    (ofString text).isReadable room = true := by
  simp [ofString, isReadable]

@[simp] theorem isReadable_bool {room : Nat} {value : Bool} :
    (bool value).isReadable room = true := by
  simp [isReadable]

/-! ## Records and arrays -/

/-- Distinct readable names are found as they are. -/
theorem members?_map {names : List String} {fields : List (String × Json)}
    (h : (fields.map (·.1)).Nodup) :
    members? names (fields.map fun field => (some field.1, field.2)) = some fields := by
  have hread : (fields.map fun field => (some field.1, field.2)).mapM
      (fun member : Option String × Json => member.1.map fun name => (name, member.2)) =
        some fields := by
    rw [Outcome.mapM_eq_some_iff, List.forall₂_map_left_iff]
    exact List.forall₂_same.2 fun _ _ => rfl
  have honce : (names.all fun name => (fields.map (·.1)).count name ≤ 1) = true :=
    List.all_eq_true.2 fun name _ => decide_eq_true (List.nodup_iff_count_le_one.1 h name)
  rw [members?, hread, Option.bind_eq_bind, Option.bind_some, honce]
  rfl

/-- The fields of a record with distinct names are looked up by their names. -/
theorem fields?_ofFields {room : Nat} {names : List String} {fields : List (String × Json)}
    (hroom : 0 < room) (h : (fields.map (·.1)).Nodup) :
    (ofFields fields).fields? room names = some fun name => fields.lookup name := by
  rw [ofFields, fields?, members?_map h]
  simp [hroom]

/-- A field of a record with distinct names is found by its name. -/
theorem lookup_of_mem {fields : List (String × Json)} {name : String} {value : Json}
    (h : (fields.map (·.1)).Nodup) (hmem : (name, value) ∈ fields) :
    fields.lookup name = some value := by
  induction fields with
  | nil => cases hmem
  | cons field fields ih =>
    obtain ⟨hfirst, hrest⟩ := List.nodup_cons.1 h
    rcases List.mem_cons.1 hmem with rfl | hmem
    · exact List.lookup_cons_self
    · have hname : (name == field.1) = false := by
        rw [beq_eq_false_iff_ne]
        intro heq
        exact hfirst (List.mem_map.2 ⟨_, hmem, heq⟩)
      rw [List.lookup_cons, hname]
      exact ih hrest hmem

/-- The items of an array are read one by one. -/
theorem list?_map {α : Type} {room : Nat} {item? : Json → Option α} {toJson : α → Json}
    {values : List α} (hroom : 0 < room)
    (h : ∀ value ∈ values, item? (toJson value) = some value) :
    (array (values.map toJson)).list? room item? = some values := by
  have hread : (values.map toJson).mapM item? = some values := by
    rw [Outcome.mapM_eq_some_iff, List.forall₂_map_left_iff]
    exact List.forall₂_same.2 h
  rw [list?, items?, if_pos hroom, Option.bind_eq_bind, Option.bind_some, hread]

/-- What holds of everything that is read as an item holds of all items of an array. -/
theorem forall_of_list? {α : Type} {room : Nat} {item? : Json → Option α} {P : α → Prop}
    {json : Json} {values : List α} (h : json.list? room item? = some values)
    (hitem : ∀ item value, item? item = some value → P value) : ∀ value ∈ values, P value := by
  obtain ⟨items, _, hitems⟩ := Option.bind_eq_some_iff.1 h
  intro value hvalue
  obtain ⟨item, _, hread⟩ :=
    Outcome.exists_left_of_forall₂ (Outcome.mapM_eq_some_iff.1 hitems) hvalue
  exact hitem item value hread

@[simp] theorem text?_ofString (text : String) : (ofString text).text? = some text :=
  rfl

theorem texts?_ofStrings {room : Nat} (hroom : 0 < room) (texts : List String) :
    (ofStrings texts).texts? room = some texts :=
  list?_map hroom fun text _ => text?_ofString text

/-- The name of a variant is read as the variant. -/
@[simp] theorem variant?_ofString {α : Type} {reading : Reading} {room : Nat}
    {variants : List (String × α)} {name : String} :
    (ofString name).variant? reading room variants = variants.lookup name := by
  rw [ofString, variant?]

/-- What is read as a variant stands under a name. -/
theorem exists_lookup_of_variant? {α : Type} {reading : Reading} {room : Nat}
    {variants : List (String × α)} {json : Json} {variant : α}
    (h : json.variant? reading room variants = some variant) :
    ∃ name, variants.lookup name = some variant := by
  match json, h with
  | .string (some name), h => exact ⟨name, h⟩
  | .object [(some name, content)], h => exact ⟨name, (Option.ite_none_right_eq_some.1 h).2⟩

end Expunge.Json
