import Expunge.Classification
import Mathlib.Data.List.Basic

/-!
# Distinct items

Leaving out repetitions keeps the first occurrence of every item: which items are left
(`mem_distinct_iff`, `nodup_distinct`), what commutes with it (`filterMap_distinct`,
`filter_distinct`), and what cannot tell the difference (`findSome?_distinct`, `distinct_insert`).
-/

namespace Expunge.Classification

section
variable {α : Type} [DecidableEq α]

/-- Leaving out repetitions and the items seen before loses no other item. -/
theorem mem_distinctFrom_iff {seen xs : List α} {x : α} :
    x ∈ distinctFrom seen xs ↔ x ∈ xs ∧ x ∉ seen := by
  induction xs generalizing seen with
  | nil => simp [distinctFrom]
  | cons y rest ih =>
    rw [distinctFrom]
    split
    · next hy =>
      rw [ih, List.mem_cons]
      constructor
      · rintro ⟨hx, hseen⟩
        exact ⟨.inr hx, hseen⟩
      · rintro ⟨rfl | hx, hseen⟩
        · exact absurd hy hseen
        · exact ⟨hx, hseen⟩
    · next hy =>
      rw [List.mem_cons, ih, List.mem_cons, List.mem_cons]
      by_cases hxy : x = y
      · subst hxy
        simp [hy]
      · simp [hxy]

/-- Leaving out repetitions loses no item. -/
theorem mem_distinct_iff {xs : List α} {x : α} : x ∈ distinct xs ↔ x ∈ xs := by
  simp [distinct, mem_distinctFrom_iff]

theorem nodup_distinctFrom (seen xs : List α) : (distinctFrom seen xs).Nodup := by
  induction xs generalizing seen with
  | nil => exact List.nodup_nil
  | cons x rest ih =>
    rw [distinctFrom]
    split
    · exact ih seen
    · refine List.nodup_cons.2 ⟨?_, ih (x :: seen)⟩
      simp [mem_distinctFrom_iff]

/-- No item is left twice. -/
theorem nodup_distinct (xs : List α) : (distinct xs).Nodup :=
  nodup_distinctFrom [] xs

theorem distinctFrom_eq_eraseDupsBy {same : α → α → Bool}
    (hsame : ∀ a b, same a b = true ↔ a = b) (seen xs : List α) :
    distinctFrom seen xs = (xs.filter fun x => x ∉ seen).eraseDupsBy same := by
  induction xs generalizing seen with
  | nil => rfl
  | cons x rest ih =>
    by_cases hx : x ∈ seen
    · simp [distinctFrom, hx, ih]
    · -- what is kept of the rest is neither `x` nor among the items seen before it
      have hrest : (rest.filter fun y => y ∉ x :: seen) =
          (rest.filter fun y => y ∉ seen).filter fun y => same y x = false := by
        rw [List.filter_filter]
        refine List.filter_congr ?_
        intro y _
        simp [← hsame]
      rw [distinctFrom, if_neg hx, List.filter_cons_of_pos (by simpa using hx),
        List.eraseDupsBy_cons, ih, hrest]

/-- What an equality test leaves of a list is the distinct items. -/
theorem distinct_eq_eraseDupsBy {same : α → α → Bool} (hsame : ∀ a b, same a b = true ↔ a = b)
    (xs : List α) : distinct xs = xs.eraseDupsBy same := by
  simp [distinct, distinctFrom_eq_eraseDupsBy hsame]

theorem distinct_eq_eraseDups [BEq α] [LawfulBEq α] (xs : List α) : distinct xs = xs.eraseDups :=
  distinct_eq_eraseDupsBy (fun _ _ => beq_iff_eq) xs

/-- A copy of an item after the item makes no difference. -/
theorem distinct_insert {xs : List α} {x : α} (h : x ∈ xs) (ys : List α) :
    distinct (xs ++ x :: ys) = distinct (xs ++ ys) := by
  have hys : (x :: ys).removeAll xs = ys.removeAll xs := by simp [List.cons_removeAll, h]
  rw [distinct_eq_eraseDups, distinct_eq_eraseDups, List.eraseDups_append, List.eraseDups_append,
    hys]

/-! ## Searching and selecting -/

theorem findSome?_distinctFrom {β : Type} {f : α → Option β} {seen : List α}
    (hseen : ∀ x ∈ seen, f x = none) (xs : List α) :
    (distinctFrom seen xs).findSome? f = xs.findSome? f := by
  induction xs generalizing seen with
  | nil => rfl
  | cons x rest ih =>
    rw [distinctFrom, List.findSome?_cons]
    split
    · next hx =>
      rw [hseen x hx]
      exact ih hseen
    · rw [List.findSome?_cons]
      cases hfx : f x with
      | some b => rfl
      | none =>
        refine ih ?_
        rintro y hy
        rcases List.mem_cons.1 hy with rfl | hy
        · exact hfx
        · exact hseen y hy

/-- The first item with a result is the first of the distinct items that has one. -/
theorem findSome?_distinct {β : Type} (f : α → Option β) (xs : List α) :
    (distinct xs).findSome? f = xs.findSome? f :=
  findSome?_distinctFrom (by simp) xs

variable {β : Type} [DecidableEq β]

theorem filterMap_distinctFrom {f : α → Option β}
    (hinj : ∀ {a a' b}, f a = some b → f a' = some b → a = a') (seen xs : List α) :
    (distinctFrom seen xs).filterMap f = distinctFrom (seen.filterMap f) (xs.filterMap f) := by
  induction xs generalizing seen with
  | nil => rfl
  | cons x rest ih =>
    have hseen : ∀ {b}, f x = some b → (b ∈ seen.filterMap f ↔ x ∈ seen) := by
      intro b hb
      rw [List.mem_filterMap]
      refine ⟨?_, fun hx => ⟨x, hx, hb⟩⟩
      rintro ⟨a, ha, hab⟩
      rwa [hinj hb hab]
    rw [distinctFrom]
    cases hfx : f x with
    | none => split <;> simp [hfx, ih]
    | some b =>
      rw [List.filterMap_cons_some hfx, distinctFrom]
      split
      · next hx => rw [ih, if_pos ((hseen hfx).2 hx)]
      · next hx =>
        rw [List.filterMap_cons_some hfx, ih, List.filterMap_cons_some hfx,
          if_neg (mt (hseen hfx).1 hx)]

/-- Under a part of the items that tells them apart, the distinct items become the distinct
images. -/
theorem filterMap_distinct {f : α → Option β}
    (hinj : ∀ {a a' b}, f a = some b → f a' = some b → a = a') (xs : List α) :
    (distinct xs).filterMap f = distinct (xs.filterMap f) :=
  filterMap_distinctFrom hinj [] xs

/-- Items may be left out before or after their repetitions. -/
theorem filter_distinct (p : α → Bool) (xs : List α) :
    (distinct xs).filter p = distinct (xs.filter p) := by
  have hinj : ∀ {x y z : α}, Option.guard p x = some z → Option.guard p y = some z → x = y := by
    intro x y z hx hy
    rw [Option.guard_eq_some_iff] at hx hy
    rw [hx.1, hy.1]
  have h := filterMap_distinct hinj xs
  rwa [List.filterMap_eq_filter] at h

end

/-! ## Distinct items of a list that grows -/

section
variable {α : Type} [BEq α] [LawfulBEq α]

theorem eraseDups_append_singleton (xs : List α) (x : α) :
    (xs ++ [x]).eraseDups = xs.eraseDups ++ if x ∈ xs then [] else [x] := by
  rw [List.eraseDups_append, List.cons_removeAll]
  by_cases h : x ∈ xs
  · simp [h, List.removeAll]
  · simp [h, List.removeAll, List.eraseDups_cons]

theorem nodup_eraseDups [DecidableEq α] (xs : List α) : xs.eraseDups.Nodup := by
  rw [← distinct_eq_eraseDups]
  exact nodup_distinct xs

end

end Expunge.Classification
