import Expunge.Column.Resolution
import Expunge.Proofs.ColumnType.Outline

/-!
# The reader reads the grammar

A definition is read as a type exactly if it spells that type. What is read is spelled, by induction
on the length of the definition (`spells_of_ofChars?`); what is spelled is read, by induction on its
derivation (`isRead_of_spells`), which also says that a spelled text may stand between two commas.
So `parsedType_spec` says what the type of a column is, and when it has none.
-/

namespace Expunge.ColumnType

/-! ## Plain characters -/

theorem isPlain_of_isAlphanum {c : Char} (h : c.isAlphanum = true) : IsPlain c := by
  refine ⟨?_, ?_, ?_⟩
  · simp only [opens, Bool.or_eq_false_iff, decide_eq_false_iff_not]
    constructor <;> rintro rfl <;> cases h
  · simp only [closes, Bool.or_eq_false_iff, decide_eq_false_iff_not]
    constructor <;> rintro rfl <;> cases h
  · rintro rfl
    cases h

/-- A character is a letter if it is one in lower case. -/
theorem isAlpha_of_toLower {c : Char} (h : c.toLower.isAlpha = true) : c.isAlpha = true := by
  by_cases hupper : c.isUpper = true
  · exact Bool.or_eq_true_iff.2 (.inl hupper)
  · have hlower : c.toLower = c := dif_neg fun hrange => hupper (decide_eq_true hrange)
    rwa [hlower] at h

/-- A keyword consists of letters. -/
theorem isAlphanum_of_keyword {keyword head : List Char}
    (hkeyword : keyword.all Char.isAlpha = true) (hhead : head.map Char.toLower = keyword) :
    ∀ c ∈ head, c.isAlphanum = true := by
  intro c hc
  have hlower := List.all_eq_true.1 hkeyword c.toLower (hhead ▸ List.mem_map_of_mem hc)
  exact Bool.or_eq_true_iff.2 (.inl (isAlpha_of_toLower hlower))

theorem IsGap.append {first second : List Char} (hfirst : IsGap first) (hsecond : IsGap second) :
    IsGap (first ++ second) := by
  intro c hc
  rcases List.mem_append.1 hc with hc | hc
  · exact hfirst c hc
  · exact hsecond c hc

theorem IsGap.isPlain {gap : List Char} (h : IsGap gap) : ∀ c ∈ gap, IsPlain c := by
  intro c hc
  have hnot {d : Char} (hd : d ∈ ['<', '>', '(', ')', ',', ':', '_']) : c ≠ d := by
    rintro rfl
    exact h.not_mem hd hc
  refine ⟨?_, ?_, hnot (by simp)⟩
  · simp [opens, hnot (d := '<'), hnot (d := '(')]
  · simp [closes, hnot (d := '>'), hnot (d := ')')]

theorem IsScalarName.isPlain {name : List Char} (h : IsScalarName name) :
    ∀ c ∈ name, IsPlain c := by
  intro c hc
  rcases h.chars c hc with hchar | rfl | rfl
  · exact isPlain_of_isAlphanum hchar
  · exact ⟨by decide, by decide, by decide⟩
  · exact ⟨by decide, by decide, by decide⟩

theorem isPiece_of_isPlain {text : List Char} (h : ∀ c ∈ text, IsPlain c) : IsPiece text :=
  pieceDepth?_of_isPlain h 0

/-! ## Generic types -/

/-- The text of a generic type: a keyword, and a body in angle brackets, with white space around the
two. -/
def IsGenericText (keyword definition body : List Char) : Prop :=
  ∃ before head gap after, IsGap before ∧ head.map Char.toLower = keyword ∧ IsGap gap ∧
    IsGap after ∧ definition = before ++ head ++ gap ++ '<' :: body ++ '>' :: after

/-- A definition has the body of a generic type exactly if it has the text of one around a body that
closes its brackets and is not blank. -/
theorem genericBody_trim_iff {keyword definition body : List Char} (hne : keyword ≠ [])
    (hkeyword : keyword.all Char.isAlpha = true) :
    genericBody keyword (Text.trim definition) = .body body ↔
      IsGenericText keyword definition body ∧ depthAfter? 0 body = some 0 ∧
        Text.isBlankText body = false := by
  rw [genericBody_eq_body_iff]
  refine and_congr_left fun _ => ?_
  constructor
  · rintro ⟨head, gap, hhead, hgap, heq⟩
    obtain ⟨before, after, hbefore, hafter, hdefinition⟩ := Text.eq_append_trim_append definition
    refine ⟨before, head, gap, after, hbefore, hhead, hgap, hafter, ?_⟩
    rw [hdefinition, heq]
    simp
  · rintro ⟨before, head, gap, after, hbefore, hhead, hgap, hafter, rfl⟩
    have htrimmed : Text.trim (head ++ gap ++ '<' :: (body ++ ['>'])) =
        head ++ gap ++ '<' :: (body ++ ['>']) := by
      refine Text.trim_eq_self ?_ ?_
      · intro c hc
        cases head with
        | nil => exact absurd hhead.symm hne
        | cons d head =>
          cases hc
          exact Text.isBlank_eq_false_of_isAlphanum
            (isAlphanum_of_keyword hkeyword hhead _ List.mem_cons_self)
      · intro c hc
        have hlast : (head ++ gap ++ '<' :: (body ++ ['>'])).getLast? = some '>' := by
          rw [← List.cons_append, ← List.append_assoc, List.getLast?_concat]
        rw [hlast] at hc
        cases hc
        decide
    have htrim : Text.trim (before ++ head ++ gap ++ '<' :: body ++ '>' :: after) =
        head ++ gap ++ '<' :: (body ++ ['>']) := by
      have hsplit : before ++ head ++ gap ++ '<' :: body ++ '>' :: after =
          before ++ (head ++ gap ++ '<' :: (body ++ ['>'])) ++ after := by simp
      rw [hsplit, Text.trim_append_append hbefore hafter htrimmed]
    exact ⟨head, gap, hhead, hgap, htrim⟩

/-- The text of a generic type is a piece and is not blank. -/
theorem IsGenericText.isPiece {keyword definition body : List Char}
    (h : IsGenericText keyword definition body) (hkeyword : keyword.all Char.isAlpha = true)
    (hbody : depthAfter? 0 body = some 0) :
    IsPiece definition ∧ Text.isBlankText definition = false := by
  obtain ⟨before, head, gap, after, hbefore, hhead, hgap, hafter, rfl⟩ := h
  have hhead : ∀ c ∈ head, IsPlain c := fun c hc =>
    isPlain_of_isAlphanum (isAlphanum_of_keyword hkeyword hhead c hc)
  have hpiece := ((((isPiece_of_isPlain hbefore.isPlain).append (isPiece_of_isPlain hhead)).append
    (isPiece_of_isPlain hgap.isPlain)).append
    (isPiece_enclosed '<' '>' rfl rfl rfl hbody)).append
    (isPiece_of_isPlain hafter.isPlain)
  constructor
  · simpa using hpiece
  · exact Text.isBlankText_eq_false (c := '<') (by simp) (by decide)

/-- The text of a generic type is found to have its body, and is a piece that is not blank. -/
theorem IsGenericText.found {keyword definition body : List Char}
    (h : IsGenericText keyword definition body) (hne : keyword ≠ [])
    (hkeyword : keyword.all Char.isAlpha = true) (hbody : depthAfter? 0 body = some 0)
    (hblank : Text.isBlankText body = false) :
    genericBody keyword (Text.trim definition) = .body body ∧ IsPiece definition ∧
      Text.isBlankText definition = false :=
  ⟨(genericBody_trim_iff hne hkeyword).2 ⟨h, hbody, hblank⟩, h.isPiece hkeyword hbody⟩

/-! ## What is read is spelled -/

/-- A piece spells a field: its name and its type. -/
def SpellsField (piece : List Char) (field : String × ColumnType) : Prop :=
  ∃ before name gap definition, IsGap before ∧ IsFieldName name ∧ IsGap gap ∧
    Spells definition field.2 ∧ field.1 = String.ofList name ∧
    piece = before ++ name ++ gap ++ ':' :: definition

/-- Pieces that spell fields spell them together. -/
theorem spellsFields_of_forall₂ {pieces : List (List Char)} {fields : List (String × ColumnType)}
    (h : List.Forall₂ SpellsField pieces fields) (hne : pieces ≠ []) :
    SpellsFields ([','].intercalate pieces) fields := by
  induction h with
  | nil => exact absurd rfl hne
  | @cons piece field pieces fields hfirst hrest ih =>
    obtain ⟨name, type⟩ := field
    obtain ⟨before, chars, gap, definition, hbefore, hname, hgap, hspells, hfield, rfl⟩ := hfirst
    cases hfield
    cases pieces with
    | nil =>
      cases hrest
      rw [List.intercalate_singleton]
      exact .one hbefore hname hgap hspells
    | cons second pieces =>
      have hmore := SpellsFields.more hbefore hname hgap hspells (ih (List.cons_ne_nil _ _))
      rw [List.intercalate_cons_cons, List.append_assoc]
      exact hmore

/-- The name in a piece is the name of a field. -/
theorem isFieldName_of_isPiece {piece before name gap definition : List Char}
    (h : IsFieldShape piece before name gap definition) (hpiece : IsPiece piece) :
    IsFieldName name := by
  obtain ⟨rfl, hbefore, _, hne, htrimmed, hbracket, hcolon⟩ := h
  have hpiece : IsPiece ((before ++ name) ++ (gap ++ ':' :: definition)) := by
    simpa using hpiece
  have hcomma : ',' ∉ before ++ name := by
    refine hpiece.not_mem_comma ?_
    intro c hc
    rcases List.mem_append.1 hc with hc | hc
    · exact ⟨(hbefore.isPlain c hc).1, (hbefore.isPlain c hc).2.1⟩
    · exact hbracket c hc
  refine ⟨hne, ?_, htrimmed⟩
  intro c hc hmem
  obtain ⟨hopens, hcloses⟩ := hbracket c hc
  simp only [List.mem_cons, List.not_mem_nil, or_false] at hmem
  rcases hmem with rfl | rfl | rfl | rfl | rfl | rfl
  · cases hopens
  · cases hcloses
  · cases hopens
  · cases hcloses
  · exact hcomma (List.mem_append_right _ hc)
  · exact hcolon hc

/-- Fields that are read off pieces are spelled by them, if their types are spelled. -/
theorem forall₂_spellsField {pieces : List (List Char)} {raw : List (String × List Char)}
    {fields : List (String × ColumnType)} (hpieces : ∀ piece ∈ pieces, IsPiece piece)
    (hraw : List.Forall₂ (fun piece entry => field? piece = some entry) pieces raw)
    (hfields : List.Forall₂ (fun entry field =>
      (ofChars? entry.2).map (entry.1, ·) = some field) raw fields)
    (hspells : ∀ entry ∈ raw, ∀ type, ofChars? entry.2 = some type → Spells entry.2 type) :
    List.Forall₂ SpellsField pieces fields := by
  induction hraw generalizing fields with
  | nil =>
    cases hfields
    exact .nil
  | @cons piece entry pieces raw hfirst _ ih =>
    cases hfields with
    | cons hfield hrest =>
      obtain ⟨hpiece, hpieces⟩ := List.forall_mem_cons.1 hpieces
      obtain ⟨hspell, hspells⟩ := List.forall_mem_cons.1 hspells
      obtain ⟨type, htype, rfl⟩ := Option.map_eq_some_iff.1 hfield
      obtain ⟨before, chars, gap, hshape, hname⟩ := field?_eq_some_iff.1 hfirst
      refine .cons ?_ (ih hpieces hrest hspells)
      exact ⟨before, chars, gap, entry.2, hshape.before, isFieldName_of_isPiece hshape hpiece,
        hshape.gap, hspell type htype, hname, hshape.eq⟩

/-- What is read is spelled. -/
theorem spells_of_ofChars? {definition : List Char} {type : ColumnType}
    (h : ofChars? definition = some type) : Spells definition type := by
  induction hlength : definition.length using Nat.strongRecOn generalizing definition type with
  | ind n ih =>
    subst hlength
    rw [ofChars?_eq_bind] at h
    obtain ⟨outline, houtline, h⟩ := Option.bind_eq_some_iff.1 h
    have hparts : ∀ part ∈ outline.parts, ∀ {type}, ofChars? part = some type →
        Spells part type := by
      intro part hpart type htype
      exact ih part.length (length_lt_of_mem_parts houtline part hpart) htype rfl
    cases outline with
    | scalar scalar =>
      cases h
      obtain ⟨name, hshape, rfl⟩ :=
        (scalar?_eq_some_iff (Text.trim_trim definition)).1 (outline?_eq_scalar_iff.1 houtline)
      obtain ⟨before, after, hbefore, hafter, hdefinition⟩ := Text.eq_append_trim_append definition
      rw [hdefinition]
      generalize Text.trim definition = core at *
      cases hshape with
      | name hname => exact .scalar hbefore hname hafter
      | parameterized hbefore' hname hgap hparameters =>
        have hgap' := IsGap.append hbefore hbefore'
        have hspells := Spells.parameterized hgap' hname hgap hparameters hafter
        simpa using hspells
    | struct raw =>
      obtain ⟨body, hbody, hread⟩ := outline?_eq_struct_iff.1 houtline
      obtain ⟨fields, hfields, rfl⟩ := Option.map_eq_some_iff.1 h
      rw [fields?, Option.bind_eq_bind] at hread
      obtain ⟨pieces, hsplit, hraw⟩ := Option.bind_eq_some_iff.1 hread
      obtain ⟨hne, rfl, hpieces⟩ := splitTopLevel?_eq_some_iff.1 hsplit
      obtain ⟨⟨before, head, gap, after, hbefore, hhead, hgap, hafter, rfl⟩, _⟩ :=
        (genericBody_trim_iff (by decide) (by decide)).1 hbody
      refine .struct hbefore hhead hgap (spellsFields_of_forall₂ ?_ hne) hafter
      refine forall₂_spellsField (fun piece hpiece => (hpieces piece hpiece).1)
        (Outcome.mapM_eq_some_iff.1 hraw) (Outcome.mapM_eq_some_iff.1 hfields) ?_
      intro entry hentry type htype
      exact hparts entry.2 (List.mem_map_of_mem hentry) htype
    | map key value =>
      obtain ⟨body, hbody, hhalves⟩ := outline?_eq_map_iff.1 houtline
      obtain ⟨first, hfirst, h⟩ := Option.bind_eq_some_iff.1 h
      obtain ⟨second, hsecond, rfl⟩ := Option.map_eq_some_iff.1 h
      obtain ⟨_, rfl⟩ := halves?_eq_some_iff.1 hhalves
      obtain ⟨⟨before, head, gap, after, hbefore, hhead, hgap, hafter, rfl⟩, _⟩ :=
        (genericBody_trim_iff (by decide) (by decide)).1 hbody
      have hkey := hparts key (by simp [Outline.parts]) hfirst
      have hvalue := hparts value (by simp [Outline.parts]) hsecond
      have hspells := Spells.map hbefore hhead hgap hkey hvalue hafter
      simpa using hspells
    | array element =>
      have hbody := outline?_eq_array_iff.1 houtline
      obtain ⟨inner, hinner, rfl⟩ := Option.map_eq_some_iff.1 h
      obtain ⟨⟨before, head, gap, after, hbefore, hhead, hgap, hafter, rfl⟩, _⟩ :=
        (genericBody_trim_iff (by decide) (by decide)).1 hbody
      exact .array hbefore hhead hgap (hparts element (by simp [Outline.parts]) hinner) hafter

/-! ## What is spelled is read -/

/-- A definition is read as a type, and may stand between two commas. -/
structure IsRead (definition : List Char) (type : ColumnType) : Prop where
  reads : ofChars? definition = some type
  is_piece : IsPiece definition
  not_blank : Text.isBlankText definition = false

/-- A piece is read as a field, and may stand between two commas. -/
structure IsReadField (piece : List Char) (field : String × ColumnType) : Prop where
  reads : ∃ definition, field? piece = some (field.1, definition) ∧
    ofChars? definition = some field.2
  is_piece : IsPiece piece
  not_blank : Text.isBlankText piece = false

/-- A text is the pieces, with commas between them, that are read as the fields. -/
def IsReadFields (body : List Char) (fields : List (String × ColumnType)) : Prop :=
  ∃ pieces, pieces ≠ [] ∧ body = [','].intercalate pieces ∧ List.Forall₂ IsReadField pieces fields

/-- The text of a scalar is trimmed, a piece, and not blank. -/
theorem IsScalarShape.isPiece {text name : List Char} (h : IsScalarShape text name)
    (htrimmed : Text.trim text = text) : IsPiece text ∧ Text.isBlankText text = false := by
  cases h with
  | name hname =>
    refine ⟨isPiece_of_isPlain hname.isPlain, ?_⟩
    obtain ⟨c, rest, rfl⟩ := List.exists_cons_of_ne_nil hname.ne_nil
    exact Text.isBlankText_eq_false List.mem_cons_self
      (Text.isBlank_head?_of_trim_eq htrimmed c rfl)
  | @parameterized before _ gap parameters hbefore hname hgap hparameters =>
    have hdepth : depthAfter? 0 parameters = some 0 := by
      refine depthAfter?_of_no_bracket ?_ 0
      intro c hc
      have hnot := hparameters c hc
      simp only [List.mem_cons, List.not_mem_nil, or_false, not_or] at hnot
      simp [opens, closes, hnot]
    have hpiece := (((isPiece_of_isPlain hbefore.isPlain).append
      (isPiece_of_isPlain hname.isPlain)).append (isPiece_of_isPlain hgap.isPlain)).append
      (isPiece_enclosed '(' ')' rfl rfl rfl hdepth)
    constructor
    · simpa using hpiece
    · exact Text.isBlankText_eq_false (c := '(') (by simp) (by decide)

/-- A scalar is read, with white space around it. -/
theorem isRead_scalar {before text after name : List Char} (hbefore : IsGap before)
    (hshape : IsScalarShape text name) (htrimmed : Text.trim text = text) (hafter : IsGap after) :
    IsRead (before ++ text ++ after) (ofScalarName name) := by
  obtain ⟨hpiece, hblank⟩ := hshape.isPiece htrimmed
  obtain ⟨c, hc, hc'⟩ := List.all_eq_false.1 hblank
  refine ⟨?_, ?_, ?_⟩
  · have hscalar : scalar? (Text.trim (before ++ text ++ after)) = some (ofScalarName name) := by
      rw [Text.trim_append_append hbefore hafter htrimmed]
      exact (scalar?_eq_some_iff htrimmed).2 ⟨name, hshape, rfl⟩
    rw [ofChars?_eq_bind, outline?_eq_scalar_iff.2 hscalar, Option.bind_some, ofOutline?]
  · exact ((isPiece_of_isPlain hbefore.isPlain).append hpiece).append
      (isPiece_of_isPlain hafter.isPlain)
  · exact Text.isBlankText_eq_false (by simp [hc]) (Bool.eq_false_iff.2 hc')

/-- A scalar with parameters is read. -/
theorem isRead_parameterized {before name gap parameters after : List Char}
    (hbefore : IsGap before) (hname : IsScalarName name) (hgap : IsGap gap)
    (hparameters : IsParameterList parameters) (hafter : IsGap after) :
    IsRead (before ++ name ++ gap ++ '(' :: parameters ++ ')' :: after) (ofScalarName name) := by
  have hshape : IsScalarShape ([] ++ name ++ gap ++ '(' :: parameters ++ [')']) name :=
    .parameterized (by simp [IsGap]) hname hgap hparameters
  have htrimmed : Text.trim (name ++ gap ++ '(' :: parameters ++ [')']) =
      name ++ gap ++ '(' :: parameters ++ [')'] := by
    refine Text.trim_eq_self ?_ ?_
    · intro c hc
      obtain ⟨d, rest, rfl⟩ := List.exists_cons_of_ne_nil hname.ne_nil
      exact Text.isBlank_head?_of_trim_eq hname.trim_eq c hc
    · intro c hc
      rw [List.getLast?_concat] at hc
      cases hc
      decide
  have hread := isRead_scalar hbefore hshape htrimmed hafter
  simpa using hread

section
variable {definition body : List Char}

/-- An array of what is read is read. -/
theorem isRead_array {element : ColumnType} (hgeneric : IsGenericText arrayKeyword definition body)
    (h : IsRead body element) : IsRead definition (.array element) := by
  have hbalanced := depthAfter?_of_pieceDepth? h.is_piece
  obtain ⟨hbody, hpiece, hblank⟩ := hgeneric.found (by decide) (by decide) hbalanced h.not_blank
  refine ⟨?_, hpiece, hblank⟩
  rw [ofChars?_eq_bind, outline?_eq_array_iff.2 hbody, Option.bind_some, ofOutline?, h.reads,
    Option.map_some]

/-- A map of what is read is read. -/
theorem isRead_map {first second : List Char} {key value : ColumnType}
    (hgeneric : IsGenericText mapKeyword definition (first ++ ',' :: second))
    (hkey : IsRead first key) (hvalue : IsRead second value) :
    IsRead definition (.map key value) := by
  have hbalanced : depthAfter? 0 (first ++ ',' :: second) = some 0 := by
    have hpieces : ∀ piece ∈ [first, second], IsPiece piece := by
      simp [hkey.is_piece, hvalue.is_piece]
    simpa using depthAfter?_intercalate hpieces
  have hnot_blank : Text.isBlankText (first ++ ',' :: second) = false :=
    Text.isBlankText_eq_false (c := ',') (by simp) (by decide)
  obtain ⟨hbody, hpiece, hblank⟩ := hgeneric.found (by decide) (by decide) hbalanced hnot_blank
  have hhalves : halves? (first ++ ',' :: second) = some (first, second) :=
    halves?_eq_some_iff.2
      ⟨⟨⟨hkey.is_piece, hkey.not_blank⟩, hvalue.is_piece, hvalue.not_blank⟩, rfl⟩
  refine ⟨?_, hpiece, hblank⟩
  rw [ofChars?_eq_bind, outline?_eq_map_iff.2 ⟨_, hbody, hhalves⟩, Option.bind_some, ofOutline?,
    hkey.reads, Option.bind_some, hvalue.reads, Option.map_some]

/-- A field of what is read is read. -/
theorem isReadField {before name gap : List Char} {type : ColumnType} (hbefore : IsGap before)
    (hname : IsFieldName name) (hgap : IsGap gap) (h : IsRead definition type) :
    IsReadField (before ++ name ++ gap ++ ':' :: definition) (String.ofList name, type) := by
  have hplain : ∀ c ∈ name, IsPlain c ∧ c ≠ ':' := by
    intro c hc
    have hnot := hname.chars c hc
    simp only [List.mem_cons, List.not_mem_nil, or_false, not_or] at hnot
    simp [IsPlain, opens, closes, hnot]
  have hshape : IsFieldShape (before ++ name ++ gap ++ ':' :: definition) before name gap
      definition := by
    refine ⟨rfl, hbefore, hgap, hname.ne_nil, hname.trimmed, ?_, fun hmem => ?_⟩
    · intro c hc
      exact ⟨(hplain c hc).1.1, (hplain c hc).1.2.1⟩
    · exact (hplain _ hmem).2 rfl
  have hcolon : ∀ c ∈ [':'], IsPlain c := by
    simp [IsPlain, opens, closes]
  have hpiece := (((isPiece_of_isPlain hbefore.isPlain).append
    (isPiece_of_isPlain fun c hc => (hplain c hc).1)).append
    (isPiece_of_isPlain hgap.isPlain)).append
    ((isPiece_of_isPlain hcolon).append h.is_piece)
  refine ⟨⟨definition, ?_, h.reads⟩, hpiece, ?_⟩
  · exact field?_eq_some_iff.2 ⟨before, name, gap, hshape, rfl⟩
  · exact Text.isBlankText_eq_false (c := ':') (by simp) (by decide)

/-- The entries that are read off pieces, before their types are. -/
theorem exists_entries_of_forall₂ {pieces : List (List Char)}
    {fields : List (String × ColumnType)} (h : List.Forall₂ IsReadField pieces fields) :
    ∃ raw, pieces.mapM field? = some raw ∧
      (raw.mapM fun entry => (ofChars? entry.2).map (entry.1, ·)) = some fields := by
  simp only [Outcome.mapM_eq_some_iff]
  induction h with
  | nil => exact ⟨[], .nil, .nil⟩
  | @cons piece field pieces fields hfield _ ih =>
    obtain ⟨raw, hraw, hfields⟩ := ih
    obtain ⟨definition, hentry, htype⟩ := hfield.reads
    refine ⟨(field.1, definition) :: raw, .cons hentry hraw, .cons ?_ hfields⟩
    rw [htype, Option.map_some]

/-- A struct of fields that are read is read. -/
theorem isRead_struct {fields : List (String × ColumnType)}
    (hgeneric : IsGenericText structKeyword definition body) (h : IsReadFields body fields) :
    IsRead definition (.struct fields) := by
  obtain ⟨pieces, hne, rfl, hfields⟩ := h
  have hpieces : ∀ piece ∈ pieces, IsPiece piece ∧ Text.isBlankText piece = false := by
    intro piece hpiece
    obtain ⟨field, _, hfield⟩ := Outcome.exists_right_of_forall₂ hfields hpiece
    exact ⟨hfield.is_piece, hfield.not_blank⟩
  have hbalanced := depthAfter?_intercalate fun piece hpiece => (hpieces piece hpiece).1
  have hnot_blank : Text.isBlankText ([','].intercalate pieces) = false := by
    obtain ⟨first, rest, rfl⟩ := List.exists_cons_of_ne_nil hne
    cases rest with
    | nil =>
      rw [List.intercalate_singleton]
      exact (hpieces first List.mem_cons_self).2
    | cons second rest =>
      rw [List.intercalate_cons_cons]
      exact Text.isBlankText_eq_false (c := ',') (by simp) (by decide)
  obtain ⟨hbody, hpiece, hblank⟩ := hgeneric.found (by decide) (by decide) hbalanced hnot_blank
  obtain ⟨raw, hraw, htypes⟩ := exists_entries_of_forall₂ hfields
  have hread : fields? ([','].intercalate pieces) = some raw := by
    rw [fields?, splitTopLevel?_eq_some_iff.2 ⟨hne, rfl, hpieces⟩]
    exact hraw
  refine ⟨?_, hpiece, hblank⟩
  rw [ofChars?_eq_bind, outline?_eq_struct_iff.2 ⟨_, hbody, hread⟩, Option.bind_some, ofOutline?,
    htypes, Option.map_some]

end

mutual

/-- What is spelled is read. -/
theorem isRead_of_spells {definition : List Char} {type : ColumnType} :
    Spells definition type → IsRead definition type
  | .scalar hbefore hname hafter => isRead_scalar hbefore (.name hname) hname.trim_eq hafter
  | .parameterized hbefore hname hgap hparameters hafter =>
    isRead_parameterized hbefore hname hgap hparameters hafter
  | .array hbefore hkeyword hgap hdefinition hafter =>
    isRead_array ⟨_, _, _, _, hbefore, hkeyword, hgap, hafter, rfl⟩ (isRead_of_spells hdefinition)
  | .map hbefore hkeyword hgap hfirst hsecond hafter =>
    isRead_map ⟨_, _, _, _, hbefore, hkeyword, hgap, hafter, by simp⟩ (isRead_of_spells hfirst)
      (isRead_of_spells hsecond)
  | .struct hbefore hkeyword hgap hbody hafter =>
    isRead_struct ⟨_, _, _, _, hbefore, hkeyword, hgap, hafter, rfl⟩
      (isReadFields_of_spellsFields hbody)

/-- Fields that are spelled are read. -/
theorem isReadFields_of_spellsFields {body : List Char} {fields : List (String × ColumnType)} :
    SpellsFields body fields → IsReadFields body fields
  | .one hbefore hname hgap hdefinition =>
    ⟨[_], List.cons_ne_nil _ _, List.intercalate_singleton.symm,
      .cons (isReadField hbefore hname hgap (isRead_of_spells hdefinition)) .nil⟩
  | .more hbefore hname hgap hdefinition hrest => by
    obtain ⟨pieces, hne, rfl, hfields⟩ := isReadFields_of_spellsFields hrest
    have hfield := isReadField hbefore hname hgap (isRead_of_spells hdefinition)
    refine ⟨_ :: pieces, List.cons_ne_nil _ _, ?_, .cons hfield hfields⟩
    obtain ⟨first, rest, rfl⟩ := List.exists_cons_of_ne_nil hne
    rw [List.intercalate_cons_cons]
    simp

end

/-- A definition is read as a type exactly if it spells it. -/
theorem ofChars?_eq_some_iff {definition : List Char} {type : ColumnType} :
    ofChars? definition = some type ↔ Spells definition type :=
  ⟨spells_of_ofChars?, fun h => (isRead_of_spells h).reads⟩

/-- The grammar is unambiguous. -/
theorem Spells.unique {definition : List Char} {first second : ColumnType}
    (hfirst : Spells definition first) (hsecond : Spells definition second) : first = second :=
  Option.some.inj ((ofChars?_eq_some_iff.2 hfirst).symm.trans (ofChars?_eq_some_iff.2 hsecond))

/-! ## Names of scalars -/

/-- The names of the scalars that a query can match on, in lower case, with their kinds. -/
def scalarNames : List (String × PrimitiveKind) :=
  [("char", .char), ("string", .string), ("varchar", .varchar), ("bigint", .bigint),
    ("int", .int), ("integer", .int), ("smallint", .smallint), ("tinyint", .tinyint),
    ("double", .double), ("float", .float)]

/-- A name names a kind exactly if it is listed with it. -/
theorem ofName?_eq_some_iff {name : String} {kind : PrimitiveKind} :
    PrimitiveKind.ofName? name = some kind ↔ (name, kind) ∈ scalarNames := by
  constructor
  · intro h
    rw [PrimitiveKind.ofName?] at h
    split at h
    · next hname =>
      cases h
      simp [hname, scalarNames]
    · have hname := List.find?_some h
      rw [decide_eq_true_eq] at hname
      subst hname
      cases kind <;> simp [PrimitiveKind.name, scalarNames]
  · intro h
    simp only [scalarNames, List.mem_cons, Prod.mk.injEq, List.not_mem_nil, or_false] at h
    rcases h with ⟨rfl, rfl⟩ | ⟨rfl, rfl⟩ | ⟨rfl, rfl⟩ | ⟨rfl, rfl⟩ | ⟨rfl, rfl⟩ | ⟨rfl, rfl⟩ |
      ⟨rfl, rfl⟩ | ⟨rfl, rfl⟩ | ⟨rfl, rfl⟩ | ⟨rfl, rfl⟩ <;> decide

/-- A scalar is of a kind exactly if its name in lower case is listed with it. -/
theorem ofScalarName_eq_primitive_iff {name : List Char} {kind : PrimitiveKind} :
    ofScalarName name = .primitive kind ↔
      (String.ofList (name.map Char.toLower), kind) ∈ scalarNames := by
  rw [← ofName?_eq_some_iff, ofScalarName]
  cases PrimitiveKind.ofName? (String.ofList (name.map Char.toLower)) <;> simp

/-- A scalar is named only, in lower case, exactly if the name is not listed. -/
theorem ofScalarName_eq_unsupported_iff {name : List Char} {other : String} :
    ofScalarName name = .unsupported other ↔
      other = String.ofList (name.map Char.toLower) ∧ ∀ kind, (other, kind) ∉ scalarNames := by
  simp only [← ofName?_eq_some_iff, ofScalarName]
  split
  · next kind hkind =>
    constructor
    · intro h
      cases h
    · rintro ⟨rfl, hnone⟩
      exact absurd hkind (hnone kind)
  · next hnone =>
    constructor
    · intro h
      cases h
      simp [hnone]
    · rintro ⟨rfl, _⟩
      rfl

end Expunge.ColumnType

namespace Expunge.Column

/-- The type of a column is the one that its definition spells. If it spells none, the definition is
refused as it stands. A scalar is of the kind listed with its name in lower case, and of none if the
name is not listed. -/
theorem parsedType_spec (column : Column) :
    (∀ type, column.parsedType = .ok type ↔ ColumnType.Spells column.type.toList type) ∧
      (∀ error, column.parsedType = .error error ↔
        error = .invalidSchema column.type ∧
          ∀ type, ¬ ColumnType.Spells column.type.toList type) ∧
      ∀ name : List Char,
        (∀ kind, ColumnType.ofScalarName name = .primitive kind ↔
          (String.ofList (name.map Char.toLower), kind) ∈ ColumnType.scalarNames) ∧
        ∀ other, ColumnType.ofScalarName name = .unsupported other ↔
          other = String.ofList (name.map Char.toLower) ∧
            ∀ kind, (other, kind) ∉ ColumnType.scalarNames := by
  refine ⟨?_, ?_, fun name => ⟨fun kind => ColumnType.ofScalarName_eq_primitive_iff,
    fun other => ColumnType.ofScalarName_eq_unsupported_iff⟩⟩
  · intro type
    rw [← ColumnType.ofChars?_eq_some_iff, parsedType, ColumnType.parse?]
    cases ColumnType.ofChars? column.type.toList <;> simp
  · intro error
    simp only [← ColumnType.ofChars?_eq_some_iff, parsedType, ColumnType.parse?]
    cases ColumnType.ofChars? column.type.toList <;> simp [eq_comm]

end Expunge.Column
