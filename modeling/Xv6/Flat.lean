import Mathlib

/-! Flat memory: a function from addresses to cells. `read mem a n` is the
list of the `n` cells from `a` on, and `write mem a cells` is the memory with
`cells` stored from `a` on and every other cell as it was. A copy loop that
moves one cell per iteration refines a single `write` of what it read: the
step lemmas below (`write_cons` going up, `write_concat` going down) add one
cell to a `write`, and `read_update` says when a store leaves the cells still
to be read alone. -/
namespace Flat

variable {β : Type}

/-- The `n` cells of `mem` from `a` on. -/
def read (mem : Nat → β) (a n : Nat) : List β := (List.range n).map fun k => mem (a + k)

/-- `mem` with `cells` stored from `a` on. -/
def write (mem : Nat → β) (a : Nat) (cells : List β) : Nat → β := fun x =>
  if a ≤ x then cells[x - a]?.getD (mem x) else mem x

@[simp]
theorem length_read (mem : Nat → β) (a n : Nat) : (read mem a n).length = n := by
  simp [read]

@[simp]
theorem getElem_read (mem : Nat → β) (a n k : Nat) (inside : k < (read mem a n).length) :
    (read mem a n)[k] = mem (a + k) := by
  simp [read]

theorem cell_of_read_replicate {mem : Nat → β} {a n : Nat} {b : β} (same : read mem a n = List.replicate n b) {k : Nat}
    (inside : k < n) : mem (a + k) = b := by
  have cell := congrArg (fun cells => cells[k]?) same
  simp only [read, List.getElem?_map, List.getElem?_range inside, List.getElem?_replicate, if_pos inside,
    Option.map_some] at cell
  exact Option.some.inj cell

theorem cell_of_read_eq {mem mem' : Nat → β} {a b n : Nat} (same : read mem a n = read mem' b n) {k : Nat}
    (inside : k < n) : mem (a + k) = mem' (b + k) := by
  have cell := congrArg (fun cells => cells[k]?) same
  simp only [read, List.getElem?_map, List.getElem?_range inside, Option.map_some] at cell
  exact Option.some.inj cell

@[simp]
theorem read_zero (mem : Nat → β) (a : Nat) : read mem a 0 = [] := rfl

theorem read_succ (mem : Nat → β) (a n : Nat) : read mem a (n + 1) = mem a :: read mem (a + 1) n := by
  apply List.ext_getElem
  · simp
  · intro k inside _
    cases k with
    | zero => simp
    | succ k =>
      simp only [getElem_read, List.getElem_cons_succ]
      congr 1
      omega

theorem read_concat (mem : Nat → β) (a n : Nat) : read mem a (n + 1) = read mem a n ++ [mem (a + n)] := by
  simp [read, List.range_succ]

theorem read_add (mem : Nat → β) (a m n : Nat) : read mem a (m + n) = read mem a m ++ read mem (a + m) n := by
  simp [read, List.range_add, Nat.add_assoc]

theorem read_update [DecidableEq β] {mem : Nat → β} {a n x : Nat} (v : β) (outside : x < a ∨ a + n ≤ x) :
    read (Function.update mem x v) a n = read mem a n := by
  apply List.map_congr_left
  intro k member
  have bound : k < n := List.mem_range.mp member
  exact Function.update_of_ne (show a + k ≠ x by omega) v mem

theorem write_inside (mem : Nat → β) (a : Nat) (cells : List β) {k : Nat} (inside : k < cells.length) :
    write mem a cells (a + k) = cells[k] := by
  simp [write, List.getElem?_eq_getElem inside]

theorem write_outside (mem : Nat → β) (a : Nat) (cells : List β) {x : Nat}
    (outside : x < a ∨ a + cells.length ≤ x) : write mem a cells x = mem x := by
  unfold write
  split
  · rw [List.getElem?_eq_none (by omega), Option.getD_none]
  · rfl

theorem read_write (mem : Nat → β) (a : Nat) (cells : List β) : read (write mem a cells) a cells.length = cells := by
  apply List.ext_getElem (by simp)
  intro k inside _
  rw [getElem_read, write_inside mem a cells (by simpa using inside)]

theorem read_write_outside (mem : Nat → β) (a : Nat) (cells : List β) {b n : Nat}
    (outside : a + cells.length ≤ b ∨ b + n ≤ a) : read (write mem a cells) b n = read mem b n := by
  apply List.map_congr_left
  intro k member
  have bound : k < n := List.mem_range.mp member
  exact write_outside mem a cells (by omega)

@[simp]
theorem write_nil (mem : Nat → β) (a : Nat) : write mem a [] = mem := by
  funext x
  exact write_outside mem a [] (by simp only [List.length_nil]; omega)

/-- Two writes end to end are one write of both. -/
theorem write_append (mem : Nat → β) (a : Nat) (cells more : List β) :
    write (write mem a cells) (a + cells.length) more = write mem a (cells ++ more) := by
  funext x
  by_cases before : x < a + cells.length
  · rw [write_outside _ _ _ (Or.inl before)]
    by_cases below : x < a
    · rw [write_outside _ _ _ (Or.inl below), write_outside _ _ _ (Or.inl below)]
    · obtain ⟨k, rfl⟩ : ∃ k, x = a + k := ⟨x - a, by omega⟩
      rw [write_inside _ _ _ (by omega), write_inside _ _ _ (by simp; omega), List.getElem_append_left (by omega)]
  · by_cases after : x < a + cells.length + more.length
    · obtain ⟨k, rfl⟩ : ∃ k, x = a + cells.length + k := ⟨x - (a + cells.length), by omega⟩
      rw [write_inside _ _ _ (by omega), Nat.add_assoc, write_inside _ _ _ (by simp; omega),
        List.getElem_append_right (by omega)]
      simp
    · rw [write_outside _ _ _ (Or.inr (by omega)), write_outside _ _ _ (Or.inr (by omega)),
        write_outside _ _ _ (Or.inr (by simp; omega))]

/-- Going up: storing `c` at `a` and then `cells` from `a + 1` stores `c :: cells` from `a`. -/
theorem write_cons [DecidableEq β] (mem : Nat → β) (a : Nat) (c : β) (cells : List β) :
    write (Function.update mem a c) (a + 1) cells = write mem a (c :: cells) := by
  funext x
  by_cases at_a : x = a
  · subst at_a
    have stored := write_inside mem x (c :: cells) (k := 0) (by simp)
    rw [Nat.add_zero, List.getElem_cons_zero] at stored
    rw [write_outside _ _ _ (by omega), Function.update_self, stored]
  · by_cases above : a < x
    · obtain ⟨k, rfl⟩ : ∃ k, x = a + 1 + k := ⟨x - (a + 1), by omega⟩
      simp only [write, if_pos (show a + 1 ≤ a + 1 + k by omega), if_pos (show a ≤ a + 1 + k by omega),
        show a + 1 + k - (a + 1) = k by omega, show a + 1 + k - a = k + 1 by omega,
        List.getElem?_cons_succ, Function.update_of_ne at_a]
    · rw [write_outside _ _ _ (by omega), write_outside _ _ _ (by omega), Function.update_of_ne at_a]

/-- Going down: storing `c` just past `cells` and then `cells` stores `cells ++ [c]`. -/
theorem write_concat [DecidableEq β] (mem : Nat → β) (a : Nat) (cells : List β) (c : β) :
    write (Function.update mem (a + cells.length) c) a cells = write mem a (cells ++ [c]) := by
  funext x
  by_cases at_end : x = a + cells.length
  · subst at_end
    rw [write_outside _ _ _ (by omega), Function.update_self, write_inside mem a _ (by simp)]
    simp
  · by_cases inside : a ≤ x ∧ x < a + cells.length
    · obtain ⟨k, rfl⟩ : ∃ k, x = a + k := ⟨x - a, by omega⟩
      rw [write_inside _ a cells (by omega), write_inside _ a _ (by simp; omega),
        List.getElem_append_left (by omega)]
    · rw [write_outside _ _ _ (by omega), write_outside _ _ _ (by simp; omega),
        Function.update_of_ne at_end]

end Flat
