import Expunge.Proofs.ColumnType.Grammar

/-!
# The texts of structs

A definition of a struct is a frame around the texts of its fields, with commas between them
(`ofChars?_eq_struct_iff`). The pieces of such a text are what an edit of a definition replaces,
puts in or takes out. Each carries what makes it a piece: `FieldText` that it declares a field of a
type, `StructFrame` that it is the keyword and the brackets of a struct.
-/

namespace Expunge.ColumnType

instance : DecidablePred IsGap := fun text =>
  decidable_of_iff (text.all Text.isBlank = true) List.all_eq_true

instance : DecidablePred IsFieldName := fun name =>
  decidable_of_iff (name ≠ [] ∧ (name.all fun c => c ∉ ['<', '>', '(', ')', ',', ':']) = true ∧
      Text.trim name = name) <| by
    simp only [List.all_eq_true, decide_eq_true_eq]
    exact ⟨fun ⟨hne, hchars, htrimmed⟩ => ⟨hne, hchars, htrimmed⟩,
      fun h => ⟨h.ne_nil, h.chars, h.trimmed⟩⟩

/-- The text of a field in the definition of a struct: a name between white space, a colon, and the
text of a type. -/
structure FieldText where
  before : List Char
  chars : List Char
  gap : List Char
  definition : List Char
  type : ColumnType
  isGap_before : IsGap before
  isFieldName : IsFieldName chars
  isGap_gap : IsGap gap
  parses : ofChars? definition = some type

namespace FieldText

/-- The name of a field. -/
def name (field : FieldText) : String :=
  String.ofList field.chars

/-- A field as it is written. -/
def text (field : FieldText) : List Char :=
  field.before ++ field.chars ++ field.gap ++ ':' :: field.definition

/-- A field as it is read. -/
def entry (field : FieldText) : String × ColumnType :=
  (field.name, field.type)

/-- A field with another text for its type. -/
def retype (field : FieldText) {definition : List Char} {type : ColumnType}
    (h : ofChars? definition = some type) : FieldText :=
  { field with definition := definition, type := type, parses := h }

@[simp] theorem entry_retype (field : FieldText) {definition : List Char} {type : ColumnType}
    (h : ofChars? definition = some type) : (field.retype h).entry = (field.name, type) := rfl

theorem isReadField_text (field : FieldText) : IsReadField field.text field.entry :=
  isReadField field.isGap_before field.isFieldName field.isGap_gap
    (isRead_of_spells (ofChars?_eq_some_iff.1 field.parses))

end FieldText

/-- What a definition of a struct has around its fields: the keyword and white space. -/
structure StructFrame where
  before : List Char
  keyword : List Char
  gap : List Char
  after : List Char
  isGap_before : IsGap before
  isKeyword : IsKeyword "struct" keyword
  isGap_gap : IsGap gap
  isGap_after : IsGap after

/-- The definition of a struct with the given fields. -/
def StructFrame.enclose (frame : StructFrame) (fields : List FieldText) : List Char :=
  frame.before ++ frame.keyword ++ frame.gap ++
    '<' :: [','].intercalate (fields.map FieldText.text) ++ '>' :: frame.after

/-- A frame around fields is read as the struct of what they are read as. -/
theorem ofChars?_enclose (frame : StructFrame) {fields : List FieldText} (hne : fields ≠ []) :
    ofChars? (frame.enclose fields) = some (.struct (fields.map FieldText.entry)) := by
  have hgeneric : IsGenericText structKeyword (frame.enclose fields)
      ([','].intercalate (fields.map FieldText.text)) :=
    ⟨_, _, _, _, frame.isGap_before, frame.isKeyword, frame.isGap_gap, frame.isGap_after, rfl⟩
  have hfields : List.Forall₂ IsReadField (fields.map FieldText.text)
      (fields.map FieldText.entry) := by
    rw [List.forall₂_map_left_iff, List.forall₂_map_right_iff, List.forall₂_same]
    exact fun field _ => field.isReadField_text
  exact (isRead_struct hgeneric ⟨_, by simpa using hne, rfl, hfields⟩).reads

/-- A text that spells fields is made up of the texts of fields. -/
theorem exists_fieldTexts {body : List Char} {entries : List (String × ColumnType)}
    (h : SpellsFields body entries) :
    ∃ fields : List FieldText, fields ≠ [] ∧
      body = [','].intercalate (fields.map FieldText.text) ∧
      fields.map FieldText.entry = entries := by
  cases h with
  | one hbefore hname hgap hspells =>
    exact ⟨[⟨_, _, _, _, _, hbefore, hname, hgap, ofChars?_eq_some_iff.2 hspells⟩],
      List.cons_ne_nil _ _, List.intercalate_singleton.symm, rfl⟩
  | more hbefore hname hgap hspells hrest =>
    obtain ⟨fields, hne, rfl, rfl⟩ := exists_fieldTexts hrest
    obtain ⟨first, rest, rfl⟩ := List.exists_cons_of_ne_nil hne
    refine ⟨⟨_, _, _, _, _, hbefore, hname, hgap, ofChars?_eq_some_iff.2 hspells⟩ :: first :: rest,
      List.cons_ne_nil _ _, ?_, rfl⟩
    simp only [List.map_cons, List.intercalate_cons_cons]
    simp [FieldText.text]

/-- A scalar is no struct. -/
theorem ofScalarName_ne_struct (name : List Char) (entries : List (String × ColumnType)) :
    ofScalarName name ≠ .struct entries := by
  rw [ofScalarName]
  split <;> simp

/-- A definition is read as a struct exactly if it is a frame around the texts of its fields. -/
theorem ofChars?_eq_struct_iff {definition : List Char} {entries : List (String × ColumnType)} :
    ofChars? definition = some (.struct entries) ↔
      ∃ (frame : StructFrame) (fields : List FieldText), fields ≠ [] ∧
        definition = frame.enclose fields ∧ fields.map FieldText.entry = entries := by
  constructor
  · intro h
    have h := ofChars?_eq_some_iff.1 h
    generalize htype : ColumnType.struct entries = type at h
    cases h with
    | scalar | parameterized => exact absurd htype.symm (ofScalarName_ne_struct _ _)
    | array | map => cases htype
    | struct hbefore hkeyword hgap hfields hafter =>
      cases htype
      obtain ⟨fields, hne, rfl, rfl⟩ := exists_fieldTexts hfields
      exact ⟨⟨_, _, _, _, hbefore, hkeyword, hgap, hafter⟩, fields, hne, rfl, rfl⟩
  · rintro ⟨frame, fields, hne, rfl, rfl⟩
    exact ofChars?_enclose frame hne

end Expunge.ColumnType
