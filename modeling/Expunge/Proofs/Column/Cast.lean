import Expunge.Column.Cast
import Expunge.Proofs.Json.Numeral
import Expunge.Proofs.Outcomes

/-!
# What a cast gives

A cast depends on the shape that the kind of the column asks for (`Value.castTo?_eq`). It gives a
value of this shape, and no infinity and no NaN unless it was given one
(`PrimitiveKind.holds_of_castTo?`).
-/

namespace Expunge

/-! ## Shapes -/

/-- The shape of a value. -/
inductive Shape
  | text
  | integer
  | float
deriving DecidableEq, Repr

/-- The shape that a value has. -/
def Value.shape : Value → Shape
  | .text _ => .text
  | .integer _ => .integer
  | .float _ => .float

/-- The shape that a kind asks for. -/
def PrimitiveKind.shape (kind : PrimitiveKind) : Shape :=
  if kind.isTextual then .text else if kind.isIntegral then .integer else .float

namespace Value

/-- A cast depends on the shape that a kind asks for. -/
theorem castTo?_eq (value : Value) (kind : PrimitiveKind) :
    value.castTo? kind =
      match kind.shape with
      | .text => some (.text value.toText)
      | .integer => value.toInteger?.map .integer
      | .float => value.toFloat?.map .float := by
  rw [castTo?, PrimitiveKind.shape]
  cases kind.isTextual <;> cases kind.isIntegral <;> rfl

/-- A value that is cast has the shape that was asked for. -/
theorem shape_of_castTo? {value typed : Value} {kind : PrimitiveKind}
    (h : value.castTo? kind = some typed) : kind.shape = typed.shape := by
  rw [castTo?_eq] at h
  cases hshape : kind.shape with
  | text =>
    rw [hshape] at h
    cases h
    rfl
  | integer | float =>
    rw [hshape] at h
    obtain ⟨_, _, rfl⟩ := Option.map_eq_some_iff.1 h
    rfl

/-- A digit is cast to whatever is asked for. -/
theorem exists_castTo?_one (kind : PrimitiveKind) :
    ∃ typed, (text "1").castTo? kind = some typed := by
  have hinteger : (text "1").toInteger?.isSome = true := by decide +kernel
  have hfloat : (text "1").toFloat?.isSome = true := by decide +kernel
  rw [castTo?_eq, ← Option.isSome_iff_exists]
  cases kind.shape with
  | text => rfl
  | integer => rw [Option.isSome_map, hinteger]
  | float => rw [Option.isSome_map, hfloat]

end Value

/-! ## Values of a kind -/

/-- A kind holds the values of its shape: texts, integers, or floats that are finite. -/
def PrimitiveKind.Holds : PrimitiveKind → Value → Prop
  | char, typed | string, typed | varchar, typed => ∃ text, typed = .text text
  | bigint, typed | int, typed | smallint, typed | tinyint, typed => ∃ i, typed = .integer i
  | double, typed | float, typed => ∃ x, typed = .float x ∧ x.isFinite = true

namespace Value

theorem castTo?_textual {value : Value} {kind : PrimitiveKind} (h : kind.isTextual = true) :
    value.castTo? kind = some (.text value.toText) := by
  rw [castTo?, if_pos h]

theorem castTo?_integral {value : Value} {kind : PrimitiveKind} (h : kind.isIntegral = true) :
    value.castTo? kind = value.toInteger?.map .integer := by
  have htextual : kind.isTextual = false := by
    cases kind <;> first | rfl | cases h
  rw [castTo?, htextual, if_neg Bool.false_ne_true, if_pos h]

theorem castTo?_floating {value : Value} {kind : PrimitiveKind} (htextual : kind.isTextual = false)
    (hintegral : kind.isIntegral = false) :
    value.castTo? kind = value.toFloat?.map .float := by
  rw [castTo?, htextual, hintegral, if_neg Bool.false_ne_true, if_neg Bool.false_ne_true]

/-- A finite value is read as a finite float. -/
theorem isFinite_of_toFloat? {value : Value} {x : Binary64} (hvalue : value.IsFinite)
    (h : value.toFloat? = some x) : x.isFinite = true := by
  cases value with
  | integer i =>
    cases h
    exact Binary64.isFinite_ofInt i
  | float y =>
    cases h
    exact hvalue
  | text text =>
    obtain ⟨d, _, hd⟩ := Option.bind_eq_some_iff.1 h
    exact Binary64.isFinite_of_ofDecimal? hd

end Value

/-- A finite value stays finite when it is cast. -/
theorem Value.isFinite_of_castTo? {value typed : Value} {kind : PrimitiveKind}
    (hvalue : value.IsFinite) (h : value.castTo? kind = some typed) : typed.IsFinite := by
  rw [castTo?_eq] at h
  cases hshape : kind.shape with
  | text =>
    rw [hshape] at h
    cases h
    trivial
  | integer =>
    rw [hshape] at h
    obtain ⟨i, _, rfl⟩ := Option.map_eq_some_iff.1 h
    trivial
  | float =>
    rw [hshape] at h
    obtain ⟨x, hx, rfl⟩ := Option.map_eq_some_iff.1 h
    exact isFinite_of_toFloat? hvalue hx

namespace PrimitiveKind

/-- What a kind holds are the finite values of its shape. -/
theorem holds_iff {kind : PrimitiveKind} {typed : Value} :
    kind.Holds typed ↔ kind.shape = typed.shape ∧ typed.IsFinite := by
  cases kind <;> cases typed <;>
    simp [Holds, shape, isTextual, isIntegral, Value.shape, Value.IsFinite]

/-- A finite value that is cast to a kind becomes one that the kind holds. -/
theorem holds_of_castTo? {kind : PrimitiveKind} {value typed : Value}
    (hvalue : value.IsFinite) (h : value.castTo? kind = some typed) : kind.Holds typed :=
  holds_iff.2 ⟨Value.shape_of_castTo? h, Value.isFinite_of_castTo? hvalue h⟩

/-- What a kind holds is finite. -/
theorem Holds.isFinite {kind : PrimitiveKind} {typed : Value} (h : kind.Holds typed) :
    typed.IsFinite :=
  (holds_iff.1 h).2

end PrimitiveKind

namespace Column

/-- A value is cast to what a path resolves to. -/
theorem cast_eq_ok_iff {value typed : Value} {path : String} {columns : List Column} :
    cast value path columns = .ok typed ↔
      ∃ kind, resolve columns path = .ok kind ∧ value.castTo? kind = some typed := by
  rw [cast, Outcome.bind_eq_ok_iff]
  refine exists_congr fun kind => and_congr_right fun _ => ?_
  cases value.castTo? kind <;> simp

/-- A cast fails if the path does not resolve, or if the value is not cast to what it resolves
to. -/
theorem cast_eq_error_iff {value : Value} {path : String} {columns : List Column}
    {error : ColumnError} :
    cast value path columns = .error error ↔ resolve columns path = .error error ∨
      ∃ kind, resolve columns path = .ok kind ∧ value.castTo? kind = none ∧
        error = .uncastable path value.toText kind := by
  rw [cast]
  cases resolve columns path with
  | error other => simp [bind, Except.bind]
  | ok kind =>
    cases hcast : value.castTo? kind <;> simp [bind, Except.bind, hcast, eq_comm]

/-- A value is of the type of the column that a path resolves to. -/
def IsTyped (columns : List Column) (path : String) (typed : Value) : Prop :=
  ∃ kind, resolve columns path = .ok kind ∧ kind.Holds typed

theorem IsTyped.isFinite {columns : List Column} {path : String} {typed : Value}
    (h : IsTyped columns path typed) : typed.IsFinite := by
  obtain ⟨kind, _, hholds⟩ := h
  exact hholds.isFinite

/-- A finite value that is cast to a column is of the column's type. -/
theorem isTyped_of_cast {value typed : Value} {path : String} {columns : List Column}
    (hvalue : value.IsFinite) (h : cast value path columns = .ok typed) :
    IsTyped columns path typed := by
  obtain ⟨kind, hkind, htyped⟩ := cast_eq_ok_iff.1 h
  exact ⟨kind, hkind, PrimitiveKind.holds_of_castTo? hvalue htyped⟩

end Column

end Expunge
