import Expunge.Proofs.ColumnType.Parser
import Expunge.Proofs.Outcomes

/-!
# Reading a definition from the outside in

A definition has one outline: the three generic types start with different letters, and a scalar
holds no angle bracket. So the reader's order of trying them does not matter
(`outline?_eq_struct_iff` and the like), and what it reads is put together from what it reads inside
(`ofChars?_of_struct` and the like).
-/

namespace Expunge.ColumnType

/-! ## Outlines -/

/-- A text that starts like a generic type starts with the first letter of its keyword. -/
theorem IsGeneric.map_head? {keyword definition inner : List Char}
    (h : IsGeneric keyword definition inner) (hne : keyword ≠ []) :
    definition.head?.map Char.toLower = keyword.head? := by
  obtain ⟨head, gap, rfl, _, rfl⟩ := h
  cases head with
  | nil => exact absurd rfl hne
  | cons c head => rfl

/-- A text that starts like one generic type is not of another one. -/
theorem IsGeneric.genericBody_eq_absent {keyword other definition inner : List Char}
    (h : IsGeneric keyword definition inner) (hne : keyword ≠ []) (hother : other ≠ [])
    (hheads : keyword.head? ≠ other.head?) : genericBody other definition = .absent := by
  refine ColumnType.genericBody_eq_absent ?_
  intro inner' h'
  exact hheads ((h.map_head? hne).symm.trans (h'.map_head? hother))

/-- A text without an angle bracket is of no generic type. -/
theorem genericBody_of_not_mem {keyword definition : List Char} (h : '<' ∉ definition) :
    genericBody keyword definition = .absent := by
  refine genericBody_eq_absent ?_
  rintro inner ⟨head, gap, _, _, rfl⟩
  exact h (List.mem_append_right _ List.mem_cons_self)

/-- The halves of a map's body are two pieces that are not blank, with a comma between them. -/
theorem halves?_eq_some_iff {body key value : List Char} :
    halves? body = some (key, value) ↔
      ((IsPiece key ∧ Text.isBlankText key = false) ∧
        (IsPiece value ∧ Text.isBlankText value = false)) ∧ body = key ++ ',' :: value := by
  have hpair : halves? body = some (key, value) ↔ splitTopLevel? body = some [key, value] := by
    rw [halves?, Option.bind_eq_bind, Option.bind_eq_some_iff]
    constructor
    · rintro ⟨pieces, hsplit, h⟩
      split at h
      · cases h
        exact hsplit
      · cases h
    · intro hsplit
      exact ⟨_, hsplit, rfl⟩
  rw [hpair, splitTopLevel?_eq_some_iff]
  simp [and_comm]

section
variable {definition : List Char}

/-- A definition is of a struct type if it has the keyword and a body of fields. -/
theorem outline?_eq_struct_iff {fields : List (String × List Char)} :
    outline? definition = some (.struct fields) ↔
      ∃ body, genericBody structKeyword (Text.trim definition) = .body body ∧
        fields? body = some fields := by
  rw [outline?]
  constructor
  · intro h
    split at h
    · cases h
    · next body hbody =>
      obtain ⟨fields, hfields, heq⟩ := Option.map_eq_some_iff.1 h
      cases heq
      exact ⟨body, hbody, hfields⟩
    · split at h
      · cases h
      · obtain ⟨_, _, heq⟩ := Option.map_eq_some_iff.1 h
        cases heq
      · split at h
        · cases h
        · cases h
        · obtain ⟨_, _, heq⟩ := Option.map_eq_some_iff.1 h
          cases heq
  · rintro ⟨body, hbody, hfields⟩
    simp only [hbody, hfields]
    rfl

/-- A definition is of a map type if it has the keyword and a body of two types. -/
theorem outline?_eq_map_iff {key value : List Char} :
    outline? definition = some (.map key value) ↔
      ∃ body, genericBody mapKeyword (Text.trim definition) = .body body ∧
        halves? body = some (key, value) := by
  rw [outline?]
  constructor
  · intro h
    split at h
    · cases h
    · obtain ⟨_, _, heq⟩ := Option.map_eq_some_iff.1 h
      cases heq
    · split at h
      · cases h
      · next body hbody =>
        obtain ⟨⟨key, value⟩, hhalves, heq⟩ := Option.map_eq_some_iff.1 h
        cases heq
        exact ⟨body, hbody, hhalves⟩
      · split at h
        · cases h
        · cases h
        · obtain ⟨_, _, heq⟩ := Option.map_eq_some_iff.1 h
          cases heq
  · rintro ⟨body, hbody, hhalves⟩
    have hgeneric := (genericBody_eq_body_iff.1 hbody).1
    have hstruct : genericBody structKeyword (Text.trim definition) = .absent :=
      hgeneric.genericBody_eq_absent (by decide) (by decide) (by decide)
    simp only [hstruct, hbody, hhalves]
    rfl

/-- A definition is of an array type if it has the keyword and a body. -/
theorem outline?_eq_array_iff {element : List Char} :
    outline? definition = some (.array element) ↔
      genericBody arrayKeyword (Text.trim definition) = .body element := by
  rw [outline?]
  constructor
  · intro h
    split at h
    · cases h
    · obtain ⟨_, _, heq⟩ := Option.map_eq_some_iff.1 h
      cases heq
    · split at h
      · cases h
      · obtain ⟨_, _, heq⟩ := Option.map_eq_some_iff.1 h
        cases heq
      · split at h
        · cases h
        · next body hbody =>
          cases h
          exact hbody
        · obtain ⟨_, _, heq⟩ := Option.map_eq_some_iff.1 h
          cases heq
  · intro hbody
    have hgeneric := (genericBody_eq_body_iff.1 hbody).1
    have hstruct : genericBody structKeyword (Text.trim definition) = .absent :=
      hgeneric.genericBody_eq_absent (by decide) (by decide) (by decide)
    have hmap : genericBody mapKeyword (Text.trim definition) = .absent :=
      hgeneric.genericBody_eq_absent (by decide) (by decide) (by decide)
    simp only [hstruct, hmap, hbody]

/-- A definition is of a scalar type if its text is that of a scalar. -/
theorem outline?_eq_scalar_iff {type : ColumnType} :
    outline? definition = some (.scalar type) ↔ scalar? (Text.trim definition) = some type := by
  rw [outline?]
  constructor
  · intro h
    split at h
    · cases h
    · obtain ⟨_, _, heq⟩ := Option.map_eq_some_iff.1 h
      cases heq
    · split at h
      · cases h
      · obtain ⟨_, _, heq⟩ := Option.map_eq_some_iff.1 h
        cases heq
      · split at h
        · cases h
        · cases h
        · obtain ⟨type, htype, heq⟩ := Option.map_eq_some_iff.1 h
          cases heq
          exact htype
  · intro h
    obtain ⟨name, hshape, rfl⟩ := (scalar?_eq_some_iff (Text.trim_trim definition)).1 h
    have hmem := hshape.not_mem
    simp only [genericBody_of_not_mem hmem, h]
    rfl

end

/-! ## Types -/

/-- The type of an outline, with the types of the texts inside it. -/
def ofOutline? : Outline → Option ColumnType
  | .scalar type => some type
  | .struct fields =>
    (fields.mapM fun field => (ofChars? field.2).map (field.1, ·)).map .struct
  | .map key value =>
    (ofChars? key).bind fun key => (ofChars? value).map fun value => .map key value
  | .array element => (ofChars? element).map .array

/-- A pass over the items of a list with their membership is a pass over the items. -/
theorem mapM_attach {α β : Type} (f : α → Option β) (xs : List α) :
    (xs.attach.mapM fun x => f x.val) = xs.mapM f := by
  refine Option.ext fun ys => ?_
  rw [Outcome.mapM_eq_some_iff, Outcome.mapM_eq_some_iff]
  conv => rhs; rw [← List.attach_map_subtype_val xs]
  rw [List.forall₂_map_left_iff]

/-- The type of a definition is that of its outline. -/
theorem ofChars?_eq_bind (definition : List Char) :
    ofChars? definition = (outline? definition).bind ofOutline? := by
  rw [ofChars?]
  split
  · next h => rw [h]; rfl
  · next h => rw [h]; rfl
  · next fields h =>
    have hattach := mapM_attach (fun field => (ofChars? field.2).map (field.1, ·)) fields
    rw [h, Option.bind_some, ofOutline?, ← hattach]
    simp only [Option.bind_eq_bind, Option.pure_def, Option.map_eq_bind]
    rfl
  · next key value h =>
    rw [h, Option.bind_some, ofOutline?]
    simp only [Option.bind_eq_bind, Option.pure_def, Option.map_eq_bind]
    rfl
  · next element h =>
    rw [h, Option.bind_some, ofOutline?]
    simp only [Option.bind_eq_bind, Option.pure_def, Option.map_eq_bind]
    rfl

end Expunge.ColumnType
