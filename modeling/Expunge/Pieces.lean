/-!
# Lists in pieces

A list cut into consecutive pieces of one size. Partitions are served and queries are sent in such
pieces. `flatten_pieces` says that cutting loses nothing.
-/

namespace Expunge

/-- A list in consecutive pieces of the given size, the last one possibly shorter and none empty.
The size 0 counts as 1. -/
def pieces {α : Type} (size : Nat) (items : List α) : List (List α) :=
  match items with
  | [] => []
  | first :: rest => (first :: rest.take (size - 1)) :: pieces size (rest.drop (size - 1))
termination_by items.length
decreasing_by simp only [List.length_drop, List.length_cons]; omega

section
variable {α : Type} {size : Nat}

@[simp] theorem pieces_nil : pieces size ([] : List α) = [] := by
  rw [pieces]

theorem pieces_cons (first : α) (rest : List α) :
    pieces size (first :: rest) =
      (first :: rest.take (size - 1)) :: pieces size (rest.drop (size - 1)) := by
  rw [pieces]

@[simp] theorem flatten_pieces (items : List α) : (pieces size items).flatten = items := by
  induction h : items.length using Nat.strongRecOn generalizing items with
  | ind n ih =>
    cases items with
    | nil => simp
    | cons first rest =>
      subst h
      rw [pieces_cons, List.flatten_cons,
        ih _ (by simp only [List.length_drop, List.length_cons]; omega) _ rfl]
      simp

end

end Expunge
