import Expunge.ColumnType.Grammar
import Expunge.ColumnType.Parser
import Expunge.Proofs.ColumnType.Brackets
import Expunge.Proofs.Text.Blank

/-!
# What the reader takes a definition for

For every step of the reader, the definitions that it accepts and what it finds in them, said by the
shape of the text: keywords (`afterKeyword?_eq_some_iff`), brackets after them
(`genericBody_eq_body_iff`), fields (`field?_eq_some_iff`) and scalars (`scalar?_eq_some_iff`). The
grammar is put together from the same shapes.
-/

namespace Expunge.ColumnType

/-! ## Keywords -/

/-- A keyword is found at the start of a text in any letter case. -/
theorem afterKeyword?_eq_some_iff {keyword text rest : List Char} :
    afterKeyword? keyword text = some rest ↔
      ∃ head, head.map Char.toLower = keyword ∧ text = head ++ rest := by
  induction keyword generalizing text with
  | nil => simp [afterKeyword?, eq_comm]
  | cons k keyword ih =>
    cases text with
    | nil =>
      rw [afterKeyword?]
      constructor
      · intro h
        cases h
      · rintro ⟨head, hhead, htext⟩
        obtain ⟨rfl, _⟩ := List.append_eq_nil_iff.1 htext.symm
        cases hhead
    | cons c text =>
      rw [afterKeyword?]
      constructor
      · intro h
        split at h
        · next hc =>
          obtain ⟨head, hhead, rfl⟩ := ih.1 h
          exact ⟨c :: head, by rw [List.map_cons, hc, hhead], rfl⟩
        · cases h
      · rintro ⟨head, hhead, htext⟩
        cases head with
        | nil => cases hhead
        | cons d head =>
          rw [List.map_cons, List.cons_eq_cons] at hhead
          obtain ⟨rfl, hrest⟩ := List.cons_eq_cons.1 htext
          rw [if_pos hhead.1, ih]
          exact ⟨head, hhead.2, hrest⟩

/-- A text starts with a bracket after white space exactly if it does so untrimmed. -/
theorem trimStart_eq_cons_iff {text inner : List Char} :
    Text.trimStart text = '<' :: inner ↔ ∃ gap, IsGap gap ∧ text = gap ++ '<' :: inner := by
  constructor
  · intro h
    obtain ⟨gap, hgap, heq⟩ := Text.eq_append_trimStart text
    exact ⟨gap, hgap, h ▸ heq⟩
  · rintro ⟨gap, hgap, rfl⟩
    rw [Text.trimStart_append hgap]
    refine Text.trimStart_eq_self ?_
    intro c hc
    cases hc
    exact Text.isBlank_eq_false_of_mem (by simp)

/-- A text starts like the generic type of a keyword, with the given text after the opening
bracket. -/
def IsGeneric (keyword definition inner : List Char) : Prop :=
  ∃ head gap, head.map Char.toLower = keyword ∧ IsGap gap ∧
    definition = head ++ gap ++ '<' :: inner

/-- A text that does not start like a generic type is not of that type. -/
theorem genericBody_eq_absent {keyword definition : List Char}
    (h : ∀ inner, ¬ IsGeneric keyword definition inner) :
    genericBody keyword definition = .absent := by
  rw [genericBody]
  split
  · rfl
  · next rest hrest =>
    obtain ⟨head, hhead, rfl⟩ := afterKeyword?_eq_some_iff.1 hrest
    split
    · next inner hinner =>
      obtain ⟨gap, hgap, rfl⟩ := trimStart_eq_cons_iff.1 hinner
      exact absurd ⟨head, gap, hhead, hgap, (List.append_assoc _ _ _).symm⟩ (h inner)
    · rfl

/-- A text that starts like a generic type is of that type or malformed. -/
theorem genericBody_of_isGeneric {keyword definition inner : List Char}
    (h : IsGeneric keyword definition inner) :
    genericBody keyword definition =
      if inner.getLast? = some '>' then
        if isBalanced inner.dropLast && !Text.isBlankText inner.dropLast then .body inner.dropLast
        else .malformed
      else .malformed := by
  obtain ⟨head, gap, hhead, hgap, rfl⟩ := h
  have hkeyword : afterKeyword? keyword (head ++ gap ++ '<' :: inner) =
      some (gap ++ '<' :: inner) :=
    afterKeyword?_eq_some_iff.2 ⟨head, hhead, List.append_assoc _ _ _⟩
  have htrim : Text.trimStart (gap ++ '<' :: inner) = '<' :: inner :=
    trimStart_eq_cons_iff.2 ⟨gap, hgap, rfl⟩
  rw [genericBody, hkeyword]
  simp only [htrim]

/-- The body of a generic type stands between its first bracket and the one at the end, closes its
brackets and is not blank. -/
theorem genericBody_eq_body_iff {keyword definition body : List Char} :
    genericBody keyword definition = .body body ↔
      IsGeneric keyword definition (body ++ ['>']) ∧ depthAfter? 0 body = some 0 ∧
        Text.isBlankText body = false := by
  have hbalanced (text : List Char) :
      (isBalanced text && !Text.isBlankText text) = true ↔
        depthAfter? 0 text = some 0 ∧ Text.isBlankText text = false := by
    simp [isBalanced]
  constructor
  · intro h
    by_cases hgeneric : ∃ inner, IsGeneric keyword definition inner
    · obtain ⟨inner, hgeneric⟩ := hgeneric
      rw [genericBody_of_isGeneric hgeneric] at h
      split at h
      · next hlast =>
        split at h
        · next hbody =>
          cases h
          rw [List.dropLast_append_getLast? '>' hlast]
          exact ⟨hgeneric, (hbalanced _).1 hbody⟩
        · cases h
      · cases h
    · rw [genericBody_eq_absent (not_exists.1 hgeneric)] at h
      cases h
  · rintro ⟨hgeneric, hbody⟩
    rw [genericBody_of_isGeneric hgeneric, List.getLast?_concat, if_pos rfl, List.dropLast_concat,
      if_pos ((hbalanced body).2 hbody)]

/-! ## Fields -/

/-- A text is split at the first place where the separator stands. -/
theorem splitAtFirst?_eq_some_iff {separator : Char} {text first second : List Char} :
    splitAtFirst? separator text = some (first, second) ↔
      text = first ++ separator :: second ∧ separator ∉ first := by
  induction text generalizing first with
  | nil => simp [splitAtFirst?]
  | cons c text ih =>
    rw [splitAtFirst?]
    split
    · next hc =>
      subst hc
      constructor
      · intro h
        cases h
        exact ⟨rfl, List.not_mem_nil⟩
      · rintro ⟨htext, hfirst⟩
        cases first with
        | nil =>
          cases htext
          rfl
        | cons d first =>
          obtain ⟨rfl, _⟩ := List.cons_eq_cons.1 htext
          exact absurd List.mem_cons_self hfirst
    · next hc =>
      constructor
      · intro h
        obtain ⟨⟨first, second⟩, hparts, heq⟩ := Option.map_eq_some_iff.1 h
        cases heq
        obtain ⟨rfl, hfirst⟩ := ih.1 hparts
        exact ⟨rfl, by simp [hfirst, Ne.symm hc]⟩
      · rintro ⟨htext, hfirst⟩
        cases first with
        | nil =>
          cases htext
          exact absurd rfl hc
        | cons d first =>
          obtain ⟨rfl, rfl⟩ := List.cons_eq_cons.1 htext
          rw [ih.2 ⟨rfl, fun hmem => hfirst (List.mem_cons_of_mem _ hmem)⟩]
          rfl

/-- A text is not split if the separator stands nowhere in it. -/
theorem splitAtFirst?_eq_none_iff {separator : Char} {text : List Char} :
    splitAtFirst? separator text = none ↔ separator ∉ text := by
  induction text with
  | nil => simp [splitAtFirst?]
  | cons c text ih =>
    rw [splitAtFirst?]
    split
    · next hc => simp [hc]
    · next hc => simp [ih, Ne.symm hc]

/-- White space holds no bracket, comma or colon. -/
theorem IsGap.not_mem {gap : List Char} (h : IsGap gap) {c : Char}
    (hc : c ∈ ['<', '>', '(', ')', ',', ':', '_']) : c ∉ gap := by
  intro hmem
  have hblank := h c hmem
  rw [Text.isBlank_eq_false_of_mem hc] at hblank
  cases hblank

/-- The shape of a field: a name between white space, a colon, and the text of the type. The name
has no bracket and no colon. -/
structure IsFieldShape (piece before name gap definition : List Char) : Prop where
  eq : piece = before ++ name ++ gap ++ ':' :: definition
  before : IsGap before
  gap : IsGap gap
  ne_nil : name ≠ []
  trimmed : Text.trim name = name
  no_bracket : ∀ c ∈ name, opens c = false ∧ closes c = false
  no_colon : ':' ∉ name

/-- A piece declares a field exactly if it has the shape of one. -/
theorem field?_eq_some_iff {piece definition : List Char} {name : String} :
    field? piece = some (name, definition) ↔
      ∃ before chars gap, IsFieldShape piece before chars gap definition ∧
        name = String.ofList chars := by
  have hbrackets (chars : List Char) :
      (!(chars.isEmpty || chars.any fun c => opens c || closes c)) = true ↔
        chars ≠ [] ∧ ∀ c ∈ chars, opens c = false ∧ closes c = false := by
    simp
  simp only [field?, Option.bind_eq_bind, Option.bind_eq_some_iff, Option.guard_eq_some',
    exists_const, Option.pure_def, Option.some.injEq, Prod.mk.injEq, hbrackets]
  constructor
  · rintro ⟨⟨raw, rest⟩, hsplit, ⟨hne, hbracket⟩, rfl, rfl⟩
    obtain ⟨rfl, hcolon⟩ := splitAtFirst?_eq_some_iff.1 hsplit
    obtain ⟨before, gap, hbefore, hgap, heq⟩ := Text.eq_append_trim_append raw
    refine ⟨before, Text.trim raw, gap, ⟨?_, hbefore, hgap, hne, Text.trim_trim raw, hbracket, ?_⟩,
      rfl⟩
    · rw [← heq]
    · intro hmem
      rw [heq] at hcolon
      exact hcolon (List.mem_append_left _ (List.mem_append_right _ hmem))
  · rintro ⟨before, chars, gap, ⟨rfl, hbefore, hgap, hne, htrimmed, hbracket, hcolon⟩, rfl⟩
    have hsplit : splitAtFirst? ':' (before ++ chars ++ gap ++ ':' :: definition) =
        some (before ++ chars ++ gap, definition) := by
      refine splitAtFirst?_eq_some_iff.2 ⟨rfl, ?_⟩
      simp only [List.mem_append, not_or]
      exact ⟨⟨hbefore.not_mem (by simp), hcolon⟩, hgap.not_mem (by simp)⟩
    have htrim : Text.trim (before ++ chars ++ gap) = chars :=
      Text.trim_append_append hbefore hgap htrimmed
    refine ⟨_, hsplit, ?_, ?_, rfl⟩
    · rw [htrim]
      exact ⟨hne, hbracket⟩
    · rw [htrim]

/-! ## Scalars -/

/-- A character of a scalar name is no white space but the space. -/
theorem isBlank_eq_false_of_scalar {c : Char} (h : c.isAlphanum = true ∨ c = '_') :
    Text.isBlank c = false := by
  rcases h with h | rfl
  · exact Text.isBlank_eq_false_of_isAlphanum h
  · decide

/-- A scalar name is trimmed. -/
theorem IsScalarName.trim_eq {name : List Char} (h : IsScalarName name) :
    Text.trim name = name := by
  refine Text.trim_eq_self ?_ ?_
  · intro c hc
    rcases h.chars c (List.mem_of_mem_head? hc) with hchar | hchar | rfl
    · exact isBlank_eq_false_of_scalar (.inl hchar)
    · exact isBlank_eq_false_of_scalar (.inr hchar)
    · exact absurd hc h.head
  · intro c hc
    rcases h.chars c (List.mem_of_mem_getLast? hc) with hchar | hchar | rfl
    · exact isBlank_eq_false_of_scalar (.inl hchar)
    · exact isBlank_eq_false_of_scalar (.inr hchar)
    · exact absurd hc h.last

/-- A trimmed text is a scalar name exactly if it is one by its characters. -/
theorem isScalarName_iff {name : List Char} (h : Text.trim name = name) :
    IsScalarName name ↔ name ≠ [] ∧ name.all isNameChar = true := by
  have hchars : name.all isNameChar = true ↔
      ∀ c ∈ name, c.isAlphanum = true ∨ c = '_' ∨ c = ' ' := by
    simp [isNameChar, or_assoc]
  constructor
  · intro hname
    exact ⟨hname.ne_nil, hchars.2 hname.chars⟩
  · rintro ⟨hne, hall⟩
    refine ⟨hne, hchars.1 hall, ?_, ?_⟩
    · intro hhead
      have hblank := Text.isBlank_head?_of_trim_eq h ' ' hhead
      cases hblank
    · intro hlast
      have hblank := Text.isBlank_getLast?_of_trim_eq h ' ' hlast
      cases hblank

/-- A name or a parameter list holds none of the characters that they may not hold. -/
theorem IsScalarName.not_mem {name : List Char} (h : IsScalarName name) {c : Char}
    (hc : c ∈ ['<', '>', '(', ')', ',', ':']) : c ∉ name := by
  intro hmem
  have hchar := h.chars c hmem
  simp only [List.mem_cons, List.not_mem_nil, or_false] at hc
  rcases hc with rfl | rfl | rfl | rfl | rfl | rfl <;> simp at hchar

/-- What follows an opening parenthesis is a list of parameters that ends the definition. -/
theorem isParameters_iff {text : List Char} :
    isParameters text = true ↔
      ∃ parameters, IsParameterList parameters ∧ text = parameters ++ [')'] := by
  have hchars (parameters : List Char) :
      (!(parameters.any fun c => opens c || closes c || c = ':')) = true ↔
        IsParameterList parameters := by
    rw [Bool.not_eq_true', List.any_eq_false, IsParameterList]
    refine forall₂_congr fun c _ => ?_
    simp [opens, closes]
    tauto
  rw [isParameters, Bool.and_eq_true, decide_eq_true_eq, hchars]
  constructor
  · rintro ⟨hlast, hparameters⟩
    exact ⟨text.dropLast, hparameters, (List.dropLast_append_getLast? ')' hlast).symm⟩
  · rintro ⟨parameters, hparameters, rfl⟩
    rw [List.getLast?_concat, List.dropLast_concat]
    exact ⟨rfl, hparameters⟩

/-- The shape of a scalar: its name alone, or its name and parameters. -/
inductive IsScalarShape : List Char → List Char → Prop
  | name {name : List Char} : IsScalarName name → IsScalarShape name name
  | parameterized {before name gap parameters : List Char} :
    IsGap before → IsScalarName name → IsGap gap → IsParameterList parameters →
    IsScalarShape (before ++ name ++ gap ++ '(' :: parameters ++ [')']) name

/-- A trimmed definition spells a scalar exactly if it has the shape of one. -/
theorem scalar?_eq_some_iff {definition : List Char} {type : ColumnType}
    (h : Text.trim definition = definition) :
    scalar? definition = some type ↔
      ∃ name, IsScalarShape definition name ∧ type = ofScalarName name := by
  have hname (name : List Char) (htrim : Text.trim name = name) :
      (!name.isEmpty && name.all isNameChar) = true ↔ IsScalarName name := by
    rw [isScalarName_iff htrim]
    simp
  simp only [scalar?, Option.bind_eq_bind, Option.bind_eq_some_iff, Option.guard_eq_some',
    exists_const, Option.pure_def, Option.some.injEq]
  constructor
  · rintro ⟨name, hscalar, hvalid, rfl⟩
    refine ⟨name, ?_, rfl⟩
    rw [scalarName?] at hscalar
    split at hscalar
    · next raw rest hsplit =>
      obtain ⟨rfl, _⟩ := splitAtFirst?_eq_some_iff.1 hsplit
      split at hscalar
      · next hends =>
        cases hscalar
        obtain ⟨parameters, hparameters, rfl⟩ := isParameters_iff.1 hends
        obtain ⟨before, gap, hbefore, hgap, heq⟩ := Text.eq_append_trim_append raw
        rw [hname _ (Text.trim_trim raw)] at hvalid
        have hshape := IsScalarShape.parameterized hbefore hvalid hgap hparameters
        rw [← heq, List.append_assoc, List.cons_append] at hshape
        exact hshape
      · cases hscalar
    · cases hscalar
      exact .name ((hname _ h).1 hvalid)
  · rintro ⟨name, hshape, rfl⟩
    cases hshape with
    | name hscalar =>
      refine ⟨definition, ?_, (hname _ hscalar.trim_eq).2 hscalar, rfl⟩
      rw [scalarName?, splitAtFirst?_eq_none_iff.2 (hscalar.not_mem (by simp))]
    | parameterized hbefore hscalar hgap hparameters =>
      rename_i before gap parameters
      have hsplit : splitAtFirst? '(' (before ++ name ++ gap ++ '(' :: parameters ++ [')']) =
          some (before ++ name ++ gap, parameters ++ [')']) := by
        refine splitAtFirst?_eq_some_iff.2 ⟨by simp, ?_⟩
        simp only [List.mem_append, not_or]
        exact ⟨⟨hbefore.not_mem (by simp), hscalar.not_mem (by simp)⟩, hgap.not_mem (by simp)⟩
      refine ⟨name, ?_, (hname _ hscalar.trim_eq).2 hscalar, rfl⟩
      rw [scalarName?, hsplit]
      simp only [isParameters_iff.2 ⟨parameters, hparameters, rfl⟩, if_true]
      rw [Text.trim_append_append hbefore hgap hscalar.trim_eq]

/-- A scalar holds no angle bracket. -/
theorem IsScalarShape.not_mem {definition name : List Char} (h : IsScalarShape definition name) :
    '<' ∉ definition := by
  cases h with
  | name hname => exact hname.not_mem (by simp)
  | parameterized hbefore hname hgap hparameters =>
    simp only [List.mem_append, List.mem_cons, List.not_mem_nil, or_false, not_or]
    refine ⟨⟨⟨⟨hbefore.not_mem (by simp), hname.not_mem (by simp)⟩, hgap.not_mem (by simp)⟩,
      by decide, ?_⟩, by decide⟩
    intro hmem
    exact hparameters _ hmem (by simp)

end Expunge.ColumnType
