import Expunge.Run
import Mathlib.Data.List.Forall2
import Mathlib.Data.Option.Basic

/-!
# Outcomes of computations

What a successful outcome says about the steps it is made of: a sequence succeeds if both of its
steps do (`bind_eq_ok_iff`), a pass over a list if it does on every item (`mapM_eq_ok_iff`), and
then the results stand to the items one by one. Otherwise the error of a sequence is that of the
first step that fails (`error?_bind`, `error?_mapM`, `mapM_eq_error_iff`).
-/

namespace Expunge.Outcome

variable {ε α β : Type}

/-- Whether two outcomes are equal can be decided if it can for their values and errors. -/
instance instDecidableEqExcept [DecidableEq ε] [DecidableEq α] : DecidableEq (Except ε α)
  | .ok value, .ok other => decidable_of_iff (value = other) (by simp)
  | .error error, .error other => decidable_of_iff (error = other) (by simp)
  | .ok _, .error _ => .isFalse (by simp)
  | .error _, .ok _ => .isFalse (by simp)

/-- A sequence succeeds if its first step does and its second one does on what the first gave. -/
theorem bind_eq_ok_iff {first : Except ε α} {next : α → Except ε β} {result : β} :
    first >>= next = .ok result ↔ ∃ value, first = .ok value ∧ next value = .ok result := by
  cases first with
  | ok value =>
    constructor
    · intro h
      exact ⟨value, rfl, h⟩
    · rintro ⟨_, h, hnext⟩
      cases h
      exact hnext
  | error error =>
    constructor
    · intro h
      cases h
    · rintro ⟨_, h, _⟩
      cases h

/-- Changing what a success gives changes no failure into one. -/
theorem map_eq_ok_iff {f : α → β} {first : Except ε α} {result : β} :
    first.map f = .ok result ↔ ∃ value, first = .ok value ∧ f value = result := by
  cases first <;> simp [Except.map]

section
variable {δ : Type} {rename : ε → δ}

@[simp] theorem mapError_ok (value : α) :
    (Except.ok value).mapError rename = .ok value := rfl

@[simp] theorem mapError_error (error : ε) :
    (Except.error error : Except ε α).mapError rename = .error (rename error) := rfl

/-- Renaming errors changes no success. -/
theorem mapError_eq_ok_iff {first : Except ε α} {value : α} :
    first.mapError rename = .ok value ↔ first = .ok value := by
  cases first <;> simp

end

/-- A pass over a list succeeds if it does on every item, and gives the results in order. -/
theorem mapM_eq_ok_iff {f : α → Except ε β} {xs : List α} {ys : List β} :
    xs.mapM f = .ok ys ↔ List.Forall₂ (fun x y => f x = .ok y) xs ys := by
  induction xs generalizing ys with
  | nil =>
    rw [List.mapM_nil, List.forall₂_nil_left_iff]
    constructor
    · intro h
      cases h
      rfl
    · rintro rfl
      rfl
  | cons x xs ih =>
    rw [List.mapM_cons, bind_eq_ok_iff]
    constructor
    · rintro ⟨y, hy, h⟩
      obtain ⟨rest, hrest, h⟩ := bind_eq_ok_iff.1 h
      cases h
      exact .cons hy (ih.1 hrest)
    · intro h
      cases h with
      | cons hy hrest => exact ⟨_, hy, bind_eq_ok_iff.2 ⟨_, ih.2 hrest, rfl⟩⟩

/-- A pass over a list that may give nothing gives something if it does on every item, and then
gives the results in order. -/
theorem mapM_eq_some_iff {f : α → Option β} {xs : List α} {ys : List β} :
    xs.mapM f = some ys ↔ List.Forall₂ (fun x y => f x = some y) xs ys := by
  induction xs generalizing ys with
  | nil =>
    rw [List.mapM_nil, List.forall₂_nil_left_iff]
    constructor
    · intro h
      cases h
      rfl
    · rintro rfl
      rfl
  | cons x xs ih =>
    rw [List.mapM_cons, Option.bind_eq_bind, Option.bind_eq_some_iff]
    constructor
    · rintro ⟨y, hy, h⟩
      obtain ⟨rest, hrest, h⟩ := Option.bind_eq_some_iff.1 h
      cases h
      exact .cons hy (ih.1 hrest)
    · intro h
      cases h with
      | cons hy hrest => exact ⟨_, hy, Option.bind_eq_some_iff.2 ⟨_, ih.2 hrest, rfl⟩⟩

/-- The error of an outcome that is one. -/
def error? : Except ε α → Option ε
  | .ok _ => none
  | .error error => some error

@[simp] theorem error?_ok (value : α) : error? (.ok value : Except ε α) = none := rfl

@[simp] theorem error?_error (error : ε) : error? (.error error : Except ε α) = some error := rfl

theorem error?_eq_some_iff {first : Except ε α} {error : ε} :
    error? first = some error ↔ first = .error error := by
  cases first <;> simp

theorem error?_eq_none_iff {first : Except ε α} :
    error? first = none ↔ ∃ value, first = .ok value := by
  cases first <;> simp

/-- A sequence fails with the error of its first step, or else with that of its second one; here the
latter is the same whatever the first step gives. -/
theorem error?_bind {first : Except ε α} {next : α → Except ε β} {error : Option ε}
    (h : ∀ value, error? (next value) = error) :
    error? (first >>= next) = (error? first).or error := by
  cases first with
  | ok value => exact h value
  | error => rfl

theorem error?_bind_pure (f : α → β) (first : Except ε α) :
    error? (first >>= fun value => pure (f value)) = error? first := by
  cases first <;> rfl

/-- A pass over a list fails with the error of the first item that it fails on. -/
theorem error?_mapM (f : α → Except ε β) (xs : List α) :
    error? (xs.mapM f) = xs.findSome? fun x => error? (f x) := by
  induction xs with
  | nil => rfl
  | cons x xs ih =>
    have hrest : ∀ y, error? (do let ys ← xs.mapM f; return y :: ys) =
        xs.findSome? fun x => error? (f x) := by
      intro y
      rw [error?_bind_pure, ih]
    rw [List.mapM_cons, error?_bind hrest, List.findSome?_cons]
    cases error? (f x) <;> rfl

/-- A pass over a list fails if it does on an item and on none before it. -/
theorem mapM_eq_error_iff {f : α → Except ε β} {xs : List α} {error : ε} :
    xs.mapM f = .error error ↔ ∃ before x after, xs = before ++ x :: after ∧
      (∀ y ∈ before, ∃ value, f y = .ok value) ∧ f x = .error error := by
  rw [← error?_eq_some_iff, error?_mapM, List.findSome?_eq_some_iff]
  simp only [error?_eq_some_iff, error?_eq_none_iff]
  exact exists_congr fun before => exists_congr fun x => exists_congr fun after =>
    and_congr_right fun _ => and_comm

/-- In lists that stand to one another one by one, an item of the first has its partner in the
second. -/
theorem exists_right_of_forall₂ {R : α → β → Prop} {xs : List α} {ys : List β}
    (h : List.Forall₂ R xs ys) {x : α} (hx : x ∈ xs) : ∃ y ∈ ys, R x y := by
  induction h with
  | nil => cases hx
  | cons hxy _ ih =>
    rcases List.mem_cons.1 hx with rfl | hx
    · exact ⟨_, by simp, hxy⟩
    · obtain ⟨y, hy, hR⟩ := ih hx
      exact ⟨y, by simp [hy], hR⟩

/-- In lists that stand to one another one by one, an item of the second has its partner in the
first. -/
theorem exists_left_of_forall₂ {R : α → β → Prop} {xs : List α} {ys : List β}
    (h : List.Forall₂ R xs ys) {y : β} (hy : y ∈ ys) : ∃ x ∈ xs, R x y :=
  exists_right_of_forall₂ h.flip hy

/-- Lists that stand to one another one by one in two ways do so in both at once. -/
theorem forall₂_and {R S : α → β → Prop} {xs : List α} {ys : List β} (h : List.Forall₂ R xs ys)
    (h' : List.Forall₂ S xs ys) : List.Forall₂ (fun x y => R x y ∧ S x y) xs ys := by
  induction h with
  | nil => exact .nil
  | cons hxy _ ih =>
    cases h' with
    | cons hxy' h' => exact .cons ⟨hxy, hxy'⟩ (ih h')

/-- Items that each have a partner stand to a list of partners one by one. -/
theorem exists_forall₂ {R : α → β → Prop} {xs : List α} (h : ∀ x ∈ xs, ∃ y, R x y) :
    ∃ ys, List.Forall₂ R xs ys := by
  induction xs with
  | nil => exact ⟨[], .nil⟩
  | cons x xs ih =>
    obtain ⟨y, hxy⟩ := h x List.mem_cons_self
    obtain ⟨ys, hys⟩ := ih fun x' hx' => h x' (List.mem_cons_of_mem _ hx')
    exact ⟨y :: ys, .cons hxy hys⟩

end Expunge.Outcome

namespace Expunge.Run

/-- A run of two steps succeeds if its first step does and its second one does on what the first
gave. -/
theorem outcome_bind_eq_ok_iff {α β : Type} {first : Run α} {next : α → Run β} {result : β} :
    (first >>= next).outcome = .ok result ↔
      ∃ value, first.outcome = .ok value ∧ (next value).outcome = .ok result := by
  rw [outcome_bind, Outcome.bind_eq_ok_iff]

end Expunge.Run
