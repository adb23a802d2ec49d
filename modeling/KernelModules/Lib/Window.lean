import Mathlib.Algebra.Order.Ring.Int

/-!
# The newest elements of a history

`newest k xs` is what a store of `k` slots keeps of the history `xs`: its last `k` elements, oldest first. Appending to
a store with a free slot adds an element; appending to a full one also drops the first (`newest_concat_of_lt`,
`newest_concat_of_ge`). Index `i` of the store is index `xs.length - k + i` of the history (`getElem?_newest`).
-/

namespace KernelModules.Lib

universe u

variable {α : Type u} {β : Type u} {k : Nat} {xs : List α}

/-- The last `k` elements. -/
def newest (k : Nat) (xs : List α) : List α := xs.drop (xs.length - k)

theorem newest_of_le (h : xs.length ≤ k) : newest k xs = xs := by
  unfold newest
  rw [Nat.sub_eq_zero_of_le h, List.drop_zero]

theorem newest_concat_of_lt (x : α) (h : xs.length < k) : newest k (xs ++ [x]) = newest k xs ++ [x] := by
  rw [newest_of_le (Nat.le_of_lt h), newest_of_le]
  rw [List.length_append, List.length_singleton]
  exact h

theorem newest_concat_of_ge (x : α) (h : k ≤ xs.length) (hk : 0 < k) :
    newest k (xs ++ [x]) = (newest k xs).drop 1 ++ [x] := by
  unfold newest
  rw [List.length_append, List.length_singleton, List.drop_append_of_le_length (by omega), List.drop_drop]
  congr 2
  omega

theorem getElem?_newest (k : Nat) (xs : List α) (i : Nat) : (newest k xs)[i]? = xs[xs.length - k + i]? := by
  unfold newest
  rw [List.getElem?_drop]

theorem map_newest (f : α → β) (k : Nat) (xs : List α) : (newest k xs).map f = newest k (xs.map f) := by
  unfold newest
  rw [List.map_drop, List.length_map]

end KernelModules.Lib
