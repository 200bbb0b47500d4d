import Mathlib

/-! Binary min-heaps laid out in an array: the parent of entry `i > 0` is entry
`(i - 1) / 2`. The order condition, and the fact every priority queue built on
it relies on: an ordered array has a minimum at its root. -/
namespace Xv6.MinHeap

variable {α β : Type} [LinearOrder β]

/-- Every entry but the root is at least its parent under `key`. -/
def Ordered (key : α → β) (arr : List α) : Prop :=
  ∀ i (h : i < arr.length), 0 < i → key arr[(i - 1) / 2] ≤ key arr[i]

instance (key : α → β) (arr : List α) : Decidable (Ordered key arr) :=
  inferInstanceAs (Decidable (∀ i (h : i < arr.length), 0 < i → key arr[(i - 1) / 2] ≤ key arr[i]))

theorem Ordered.root_le {key : α → β} {arr : List α} (ordered : Ordered key arr)
    (i : Nat) (h : i < arr.length) : key arr[0] ≤ key arr[i] := by
  induction i using Nat.strongRecOn with
  | ind i ih =>
    rcases Nat.eq_zero_or_pos i with rfl | positive
    · exact le_rfl
    · calc key arr[0] ≤ key arr[(i - 1) / 2] := ih _ (by omega) (by omega)
        _ ≤ key arr[i] := ordered i h positive

theorem Ordered.root_le_of_mem {key : α → β} {arr : List α} (ordered : Ordered key arr)
    (nonempty : 0 < arr.length) {x : α} (member : x ∈ arr) : key arr[0] ≤ key x := by
  obtain ⟨i, h, rfl⟩ := List.getElem_of_mem member
  exact ordered.root_le i h

end Xv6.MinHeap
