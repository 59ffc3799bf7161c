import Expunge.Pieces
import Mathlib.Algebra.Order.Floor.Div

/-!
# Pieces and slices

The pieces of a list are its consecutive slices, as many as are needed to cover it
(`pieces_eq_map_slice`).
-/

namespace Expunge

section
variable {α : Type}

/-- The slice of the given number when a list is cut into slices of a size. The size 0 counts
as 1. -/
def slice (size : Nat) (items : List α) (number : Nat) : List α :=
  (items.drop (number * max size 1)).take (max size 1)

/-- A list has one slice more than what is left after its first slice. -/
theorem ceilDiv_succ (length size : Nat) :
    (length + 1) ⌈/⌉ (size + 1) = (length - size) ⌈/⌉ (size + 1) + 1 := by
  simp only [Nat.ceilDiv_eq_add_pred_div, Nat.add_succ_sub_one]
  rcases Nat.le_total size length with hle | hle
  · have hshift : length + 1 + size = length + (size + 1) := by omega
    rw [Nat.sub_add_cancel hle, hshift, Nat.add_div_right _ (Nat.succ_pos size)]
  · have hone : (length + 1 + size) / (size + 1) = 1 :=
      Nat.div_eq_of_lt_le (by omega) (by omega)
    rw [Nat.sub_eq_zero_of_le hle, hone, Nat.zero_add, Nat.div_eq_of_lt (Nat.lt_succ_self size)]

/-- Up to an item there are the slices before the one that it is in, and that one. -/
theorem succ_ceilDiv (index : Nat) {size : Nat} (h : 0 < size) :
    (index + 1) ⌈/⌉ size = index / size + 1 := by
  rw [Nat.ceilDiv_eq_add_pred_div, Nat.add_right_comm, Nat.add_sub_cancel, Nat.add_div_right _ h]

/-- The pieces of a list are its slices, as many as are needed to cover it. -/
theorem pieces_eq_map_slice (size : Nat) (items : List α) :
    pieces size items = (List.range (items.length ⌈/⌉ max size 1)).map (slice size items) := by
  have hsize : max size 1 = size - 1 + 1 := by omega
  induction items using pieces.induct size with
  | case1 => simp
  | case2 first rest ih =>
    have hslice (number : Nat) :
        slice size (first :: rest) (number + 1) = slice size (rest.drop (size - 1)) number := by
      rw [slice, slice, hsize, Nat.succ_mul, ← Nat.add_assoc, List.drop_succ_cons, List.drop_drop,
        Nat.add_comm (number * _)]
    rw [pieces_cons, ih, hsize, List.length_cons, ceilDiv_succ, ← List.length_drop,
      List.range_succ_eq_map, List.map_cons, List.map_map]
    congr 1
    · rw [slice, Nat.zero_mul, List.drop_zero, hsize, List.take_succ_cons]
    · exact List.map_congr_left fun number _ => (hslice number).symm

end

end Expunge
