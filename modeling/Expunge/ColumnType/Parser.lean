import Expunge.ColumnType.Basic
import Expunge.ColumnType.Brackets

/-!
# Reading type definitions

A definition is `struct<name:type,…>`, `map<type,type>`, `array<type>`, or a scalar name with
optional parameters in parentheses. Keywords and scalar names count in any letter case, and white
space is allowed around every part. `ColumnType.parse?` reads a definition, or refuses it as a
whole.
-/

namespace Expunge.ColumnType

/-- How a definition relates to a generic type such as `array`. -/
inductive GenericBody
  /-- It is not of this type: it starts otherwise, or no bracket follows the keyword. -/
  | absent
  /-- It starts like this type, but its brackets do not fit or hold nothing. -/
  | malformed
  /-- It is of this type, with the given text between the brackets. -/
  | body (text : List Char)
deriving DecidableEq, Repr

/-- What follows a keyword, which counts in any ASCII letter case. -/
def afterKeyword? : List Char → List Char → Option (List Char)
  | [], text => some text
  | _ :: _, [] => none
  | k :: keyword, c :: text => if c.toLower = k then afterKeyword? keyword text else none

/-- Relates a definition without outer white space to the generic type with the given lower-case
keyword. The bracket after the keyword has to close at the end of the definition. -/
def genericBody (keyword definition : List Char) : GenericBody :=
  match afterKeyword? keyword definition with
  | none => .absent
  | some rest =>
    match Text.trimStart rest with
    | '<' :: rest =>
      if rest.getLast? = some '>' then
        let body := rest.dropLast
        if isBalanced body && !Text.isBlankText body then .body body else .malformed
      else .malformed
    | _ => .absent

/-- A text as its two parts around the first occurrence of a separator. -/
def splitAtFirst? (separator : Char) : List Char → Option (List Char × List Char)
  | [] => none
  | c :: rest =>
    if c = separator then some ([], rest)
    else (splitAtFirst? separator rest).map fun parts => (c :: parts.1, parts.2)

/-- The field that a piece of a struct's body declares: its name and the text of its type. -/
def field? (piece : List Char) : Option (String × List Char) := do
  let (name, definition) ← splitAtFirst? ':' piece
  let name := Text.trim name
  guard !(name.isEmpty || name.any fun c => opens c || closes c)
  return (String.ofList name, definition)

/-- Whether a character may stand in the name of a scalar type. -/
def isNameChar (c : Char) : Bool :=
  c.isAlphanum || c = '_' || c = ' '

/-- Whether the text that follows an opening parenthesis is a list of parameters that ends with the
definition. -/
def isParameters (text : List Char) : Bool :=
  text.getLast? = some ')' && !(text.dropLast.any fun c => opens c || closes c || c = ':')

/-- The name of the scalar that a definition without outer white space spells. -/
def scalarName? (definition : List Char) : Option (List Char) :=
  match splitAtFirst? '(' definition with
  | some (name, rest) => if isParameters rest then some (Text.trim name) else none
  | none => some definition

/-- The scalar type that a definition without outer white space spells. -/
def scalar? (definition : List Char) : Option ColumnType := do
  let name ← scalarName? definition
  guard (!name.isEmpty && name.all isNameChar)
  return ofScalarName name

/-- The keyword of struct types. -/
def structKeyword : List Char := ['s', 't', 'r', 'u', 'c', 't']

/-- The keyword of map types. -/
def mapKeyword : List Char := ['m', 'a', 'p']

/-- The keyword of array types. -/
def arrayKeyword : List Char := ['a', 'r', 'r', 'a', 'y']

theorem length_afterKeyword?_le {keyword text rest : List Char}
    (h : afterKeyword? keyword text = some rest) : rest.length ≤ text.length := by
  induction keyword generalizing text with
  | nil => simp only [afterKeyword?, Option.some.injEq] at h; simp [h]
  | cons k keyword ih =>
    cases text with
    | nil => simp [afterKeyword?] at h
    | cons c text =>
      simp only [afterKeyword?] at h
      split at h
      · have := ih h; simp only [List.length_cons]; omega
      · cases h

/-- A body is shorter than its definition. -/
theorem length_genericBody_lt {keyword definition body : List Char}
    (h : genericBody keyword definition = .body body) : body.length < definition.length := by
  simp only [genericBody] at h
  split at h
  · cases h
  · next rest hrest =>
    have hle := length_afterKeyword?_le hrest
    split at h
    · next inner hinner =>
      have hlt : inner.length < (Text.trimStart rest).length := by simp [hinner]
      have := Text.length_trimStart_le rest
      split at h
      · split at h
        · cases h; simp only [List.length_dropLast]; omega
        · cases h
      · cases h
    · cases h

theorem length_splitAtFirst?_lt {separator : Char} {text : List Char}
    {parts : List Char × List Char} (h : splitAtFirst? separator text = some parts) :
    parts.2.length < text.length := by
  induction text generalizing parts with
  | nil => cases h
  | cons c rest ih =>
    simp only [splitAtFirst?] at h
    split at h
    · cases h; simp
    · obtain ⟨inner, hi, rfl⟩ := Option.map_eq_some_iff.1 h
      have := ih hi; simp only [List.length_cons]; omega

/-- The text of a field's type is shorter than the field. -/
theorem length_field?_lt {piece : List Char} {field : String × List Char}
    (h : field? piece = some field) : field.2.length < piece.length := by
  rw [field?] at h
  obtain ⟨parts, hp, h⟩ := Option.bind_eq_some_iff.1 h
  obtain ⟨_, _, h⟩ := Option.bind_eq_some_iff.1 h
  cases h
  exact length_splitAtFirst?_lt hp

/-- The fields that a struct's body declares, with the texts of their types. -/
def fields? (body : List Char) : Option (List (String × List Char)) := do
  (← splitTopLevel? body).mapM field?

theorem exists_mem_of_mapM_eq_some {α β : Type} {f : α → Option β} {xs : List α} {ys : List β}
    (h : xs.mapM f = some ys) {y : β} (hy : y ∈ ys) : ∃ x ∈ xs, f x = some y := by
  induction xs generalizing ys with
  | nil => simp only [List.mapM_nil, Option.pure_def, Option.some.injEq] at h; subst h; cases hy
  | cons x xs ih =>
    simp only [List.mapM_cons, Option.bind_eq_bind, Option.bind_eq_some_iff, Option.pure_def,
      Option.some.injEq] at h
    obtain ⟨z, hz, zs, hzs, rfl⟩ := h
    rcases List.mem_cons.1 hy with rfl | hy
    · exact ⟨x, by simp, hz⟩
    · obtain ⟨w, hw, hfw⟩ := ih hzs hy
      exact ⟨w, by simp [hw], hfw⟩

/-- The text of a field's type is shorter than the struct's body. -/
theorem length_lt_of_mem_fields? {body : List Char} {fields : List (String × List Char)}
    (h : fields? body = some fields) {field : String × List Char} (hf : field ∈ fields) :
    field.2.length < body.length := by
  simp only [fields?, Option.bind_eq_bind, Option.bind_eq_some_iff] at h
  obtain ⟨pieces, hp, h⟩ := h
  obtain ⟨piece, hmem, hfield⟩ := exists_mem_of_mapM_eq_some h hf
  have := length_field?_lt hfield
  have := length_le_of_mem_splitTopLevel? hp piece hmem
  omega

/-- The two halves of a map's body: the texts of its key and value types. -/
def halves? (body : List Char) : Option (List Char × List Char) := do
  match ← splitTopLevel? body with
  | [key, value] => some (key, value)
  | _ => none

/-- The halves of a map's body are no longer than the body. -/
theorem length_halves?_le {body : List Char} {entry : List Char × List Char}
    (h : halves? body = some entry) :
    entry.1.length ≤ body.length ∧ entry.2.length ≤ body.length := by
  simp only [halves?, Option.bind_eq_bind, Option.bind_eq_some_iff] at h
  obtain ⟨pieces, hp, h⟩ := h
  have hle := length_le_of_mem_splitTopLevel? hp
  split at h
  · cases h; exact ⟨hle _ (by simp), hle _ (by simp)⟩
  · cases h

/-- The outermost part of a definition, with the texts of the types inside it. -/
inductive Outline
  | scalar (type : ColumnType)
  | struct (fields : List (String × List Char))
  | map (key value : List Char)
  | array (element : List Char)
deriving Repr

/-- The outermost part of a definition. A definition that starts like a generic type is never read
as a scalar unless no bracket follows the keyword. -/
def outline? (definition : List Char) : Option Outline :=
  let definition := Text.trim definition
  match genericBody structKeyword definition with
  | .malformed => none
  | .body body => (fields? body).map .struct
  | .absent =>
    match genericBody mapKeyword definition with
    | .malformed => none
    | .body body => (halves? body).map fun entry => .map entry.1 entry.2
    | .absent =>
      match genericBody arrayKeyword definition with
      | .malformed => none
      | .body body => some (.array body)
      | .absent => (scalar? definition).map .scalar

namespace Outline

/-- The texts of the types inside an outline. -/
def parts : Outline → List (List Char)
  | .scalar _ => []
  | .struct fields => fields.map (·.2)
  | .map key value => [key, value]
  | .array element => [element]

end Outline

/-- The types inside a definition have shorter texts. -/
theorem length_lt_of_mem_parts {definition : List Char} {outline : Outline}
    (h : outline? definition = some outline) :
    ∀ part ∈ outline.parts, part.length < definition.length := by
  have htrim := Text.length_trim_le definition
  simp only [outline?] at h
  split at h
  · cases h
  · next body hbody =>
    have := length_genericBody_lt hbody
    obtain ⟨fields, hf, rfl⟩ := Option.map_eq_some_iff.1 h
    intro part hp
    obtain ⟨field, hmem, rfl⟩ := List.mem_map.1 hp
    have := length_lt_of_mem_fields? hf hmem
    omega
  · split at h
    · cases h
    · next body hbody =>
      have := length_genericBody_lt hbody
      obtain ⟨entry, he, rfl⟩ := Option.map_eq_some_iff.1 h
      have := length_halves?_le he
      intro part hp
      simp only [Outline.parts, List.mem_cons, List.not_mem_nil, or_false] at hp
      rcases hp with rfl | rfl <;> omega
    · split at h
      · cases h
      · next body hbody =>
        have := length_genericBody_lt hbody
        cases h
        intro part hp
        simp only [Outline.parts, List.mem_cons, List.not_mem_nil, or_false] at hp
        subst hp; omega
      · obtain ⟨type, _, rfl⟩ := Option.map_eq_some_iff.1 h
        intro part hp
        cases hp

/-- The type that a definition spells, over characters. -/
def ofChars? (definition : List Char) : Option ColumnType :=
  match _h : outline? definition with
  | none => none
  | some (.scalar type) => some type
  | some (.struct fields) => do
    let types ← fields.attach.mapM fun field => do
      let type ← ofChars? field.val.2
      return (field.val.1, type)
    return .struct types
  | some (.map key value) => do
    let key ← ofChars? key
    let value ← ofChars? value
    return .map key value
  | some (.array element) => do
    let element ← ofChars? element
    return .array element
termination_by definition.length
decreasing_by
  all_goals apply length_lt_of_mem_parts _h
  · exact List.mem_map.2 ⟨field.val, field.property, rfl⟩
  all_goals simp [Outline.parts]

/-- The type that a definition spells. -/
def parse? (definition : String) : Option ColumnType :=
  ofChars? definition.toList

end Expunge.ColumnType
