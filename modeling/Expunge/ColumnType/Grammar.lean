import Expunge.ColumnType.Basic
import Expunge.Text.Blank

/-!
# The grammar of type definitions

What a definition may look like, said without a reader: `Spells definition type` holds when the
definition derives from the rules below and the type is the tree of its derivation. White space is
allowed around every part, and keywords count in any ASCII letter case.
-/

namespace Expunge.ColumnType

/-- White space, possibly none. -/
def IsGap (text : List Char) : Prop :=
  ∀ c ∈ text, Text.isBlank c = true

/-- A text is a keyword in some letter case. -/
def IsKeyword (keyword : String) (text : List Char) : Prop :=
  text.map Char.toLower = keyword.toList

/-- A name of a scalar type: letters, digits, underscores, and spaces that are not at its ends. -/
structure IsScalarName (name : List Char) : Prop where
  ne_nil : name ≠ []
  chars : ∀ c ∈ name, c.isAlphanum ∨ c = '_' ∨ c = ' '
  head : name.head? ≠ some ' '
  last : name.getLast? ≠ some ' '

/-- Parameters of a scalar type: anything without brackets and colons. -/
def IsParameterList (text : List Char) : Prop :=
  ∀ c ∈ text, c ∉ ['(', ')', '<', '>', ':']

/-- A name of a field: anything without brackets, commas and colons, and without white space at its
ends. -/
structure IsFieldName (name : List Char) : Prop where
  ne_nil : name ≠ []
  chars : ∀ c ∈ name, c ∉ ['<', '>', '(', ')', ',', ':']
  trimmed : Text.trim name = name

mutual

/-- A definition spells a type. -/
inductive Spells : List Char → ColumnType → Prop
  | scalar {before name after : List Char} :
      IsGap before → IsScalarName name → IsGap after →
      Spells (before ++ name ++ after) (ofScalarName name)
  | parameterized {before name gap parameters after : List Char} :
      IsGap before → IsScalarName name → IsGap gap → IsParameterList parameters → IsGap after →
      Spells (before ++ name ++ gap ++ '(' :: parameters ++ ')' :: after) (ofScalarName name)
  | array {before keyword gap definition after : List Char} {element : ColumnType} :
      IsGap before → IsKeyword "array" keyword → IsGap gap → Spells definition element →
      IsGap after →
      Spells (before ++ keyword ++ gap ++ '<' :: definition ++ '>' :: after) (.array element)
  | map {before keyword gap first second after : List Char} {key value : ColumnType} :
      IsGap before → IsKeyword "map" keyword → IsGap gap → Spells first key →
      Spells second value → IsGap after →
      Spells (before ++ keyword ++ gap ++ '<' :: first ++ ',' :: second ++ '>' :: after)
        (.map key value)
  | struct {before keyword gap body after : List Char} {fields : List (String × ColumnType)} :
      IsGap before → IsKeyword "struct" keyword → IsGap gap → SpellsFields body fields →
      IsGap after →
      Spells (before ++ keyword ++ gap ++ '<' :: body ++ '>' :: after) (.struct fields)

/-- A text spells the fields of a struct, with commas between them. -/
inductive SpellsFields : List Char → List (String × ColumnType) → Prop
  | one {before name gap definition : List Char} {type : ColumnType} :
      IsGap before → IsFieldName name → IsGap gap → Spells definition type →
      SpellsFields (before ++ name ++ gap ++ ':' :: definition) [(String.ofList name, type)]
  | more {before name gap definition rest : List Char} {type : ColumnType}
      {fields : List (String × ColumnType)} :
      IsGap before → IsFieldName name → IsGap gap → Spells definition type →
      SpellsFields rest fields →
      SpellsFields (before ++ name ++ gap ++ ':' :: definition ++ ',' :: rest)
        ((String.ofList name, type) :: fields)

end

end Expunge.ColumnType
