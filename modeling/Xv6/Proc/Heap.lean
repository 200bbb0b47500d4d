import Mathlib
import Xv6.MinHeap

/-! The sift routines of `kernel/proc.c` over the array `arr[0..n)`. An entry is
a `struct proc *`; the routines read two of its fields, `cpu_burst_aprox` and
`exe_time`, through `aprox` and `exe`, and compare them as the source does
clause by clause, including the right-child test of `heapify_down_i`, which
reads `cpu_burst_aprox` under both policies. `tmp`-based swaps are `List.swap`.
Loops are recursions on what the `while (1)` moves: the parent index upwards,
the distance to `n` downwards. -/
namespace Xv6

variable {α : Type} [Inhabited α]

/-- The body of `heapify_up`'s loop at `curr` with parent `parent`. -/
def heapifyUpLoop (aprox exe : α → Int) (algo : Int) (arr : List α) (curr parent : Nat) :
    List α :=
  if (algo = 0 ∧ aprox (arr.getD curr default) < aprox (arr.getD parent default)) ∨
      (algo ≠ 0 ∧ exe (arr.getD curr default) < exe (arr.getD parent default)) then
    if parent = 0 then arr.swap curr parent
    else heapifyUpLoop aprox exe algo (arr.swap curr parent) parent ((parent - 1) / 2)
  else arr
termination_by parent
decreasing_by omega

/-- `heapify_up(arr, n, algo)`: `curr = n - 1` starts with `parent = curr / 2`. -/
def heapifyUp (aprox exe : α → Int) (arr : List α) (n : Nat) (algo : Int) : List α :=
  if n = 1 then arr else heapifyUpLoop aprox exe algo arr (n - 1) ((n - 1) / 2)

/-- The body of `heapify_down_i`'s loop at `curr`: the left child is tried first. -/
def heapifyDownLoop (aprox exe : α → Int) (algo : Int) (arr : List α) (n curr : Nat) :
    List α :=
  let leftChild := curr * 2 + 1
  let rightChild := curr * 2 + 2
  if (algo = 0 ∧ leftChild < n ∧ aprox (arr.getD curr default) > aprox (arr.getD leftChild default)) ∨
      (algo ≠ 0 ∧ leftChild < n ∧ exe (arr.getD curr default) > exe (arr.getD leftChild default)) then
    heapifyDownLoop aprox exe algo (arr.swap curr leftChild) n leftChild
  else if (algo = 0 ∧ rightChild < n ∧
        aprox (arr.getD curr default) > aprox (arr.getD rightChild default)) ∨
      (algo ≠ 0 ∧ rightChild < n ∧
        aprox (arr.getD curr default) > aprox (arr.getD rightChild default)) then
    heapifyDownLoop aprox exe algo (arr.swap curr rightChild) n rightChild
  else arr
termination_by n - curr

/-- `heapify_down_i(arr, n, i, algo)`. -/
def heapifyDownI (aprox exe : α → Int) (arr : List α) (n i : Nat) (algo : Int) : List α :=
  if n = 1 then arr else heapifyDownLoop aprox exe algo arr n i

/-- `heapify_down(arr, n, algo)`. -/
def heapifyDown (aprox exe : α → Int) (arr : List α) (n : Nat) (algo : Int) : List α :=
  heapifyDownI aprox exe arr n 0 algo

/-- `rearrange_heap(arr, n, algo)`: `heapify_down_i` at `i = n / 2 - 1` down to `0`. -/
def rearrangeHeap (aprox exe : α → Int) (arr : List α) (n : Nat) (algo : Int) : List α :=
  (List.range (n / 2)).reverse.foldl (fun arr i => heapifyDownI aprox exe arr n i algo) arr

/-- The array half of `put`: `heap[heap_size] = p; heap_size += 1; heapify_up(heap,
heap_size, algorithm);`. -/
def heapPush (aprox exe : α → Int) (heap : List α) (x : α) (algo : Int) : List α :=
  heapifyUp aprox exe (heap ++ [x]) (heap.length + 1) algo

/-- The array half of `get` once it has read `heap[0]`: `heap[0] = heap[heap_size - 1];
heap_size -= 1; heapify_down(heap, heap_size, algorithm);`. -/
def heapPop (aprox exe : α → Int) (heap : List α) (algo : Int) : List α :=
  let moved := (heap.set 0 (heap.getLastD default)).dropLast
  heapifyDown aprox exe moved moved.length algo

/-! One equation per branch of each loop, so that later proofs never unfold the loops. -/

section Unfold

variable (aprox exe : α → Int) (algo : Int)

/-- The swap test of `heapify_up`: the entry at `curr` goes before the one at `parent`. -/
def upLess (arr : List α) (curr parent : Nat) : Prop :=
  (algo = 0 ∧ aprox (arr.getD curr default) < aprox (arr.getD parent default)) ∨
    (algo ≠ 0 ∧ exe (arr.getD curr default) < exe (arr.getD parent default))

/-- The left-child test of `heapify_down_i`. -/
def downLeft (arr : List α) (n curr : Nat) : Prop :=
  (algo = 0 ∧ curr * 2 + 1 < n ∧ aprox (arr.getD curr default) > aprox (arr.getD (curr * 2 + 1) default)) ∨
    (algo ≠ 0 ∧ curr * 2 + 1 < n ∧ exe (arr.getD curr default) > exe (arr.getD (curr * 2 + 1) default))

/-- The right-child test of `heapify_down_i`; both clauses compare `cpu_burst_aprox`. -/
def downRight (arr : List α) (n curr : Nat) : Prop :=
  (algo = 0 ∧ curr * 2 + 2 < n ∧ aprox (arr.getD curr default) > aprox (arr.getD (curr * 2 + 2) default)) ∨
    (algo ≠ 0 ∧ curr * 2 + 2 < n ∧ aprox (arr.getD curr default) > aprox (arr.getD (curr * 2 + 2) default))

theorem heapifyUpLoop_stop {arr : List α} {curr parent : Nat}
    (stop : ¬ upLess aprox exe algo arr curr parent) :
    heapifyUpLoop aprox exe algo arr curr parent = arr := by
  unfold upLess at stop
  rw [heapifyUpLoop, if_neg stop]

theorem heapifyUpLoop_root {arr : List α} {curr : Nat} (less : upLess aprox exe algo arr curr 0) :
    heapifyUpLoop aprox exe algo arr curr 0 = arr.swap curr 0 := by
  unfold upLess at less
  rw [heapifyUpLoop, if_pos less, if_pos rfl]

theorem heapifyUpLoop_swap {arr : List α} {curr parent : Nat}
    (less : upLess aprox exe algo arr curr parent) (nonzero : parent ≠ 0) :
    heapifyUpLoop aprox exe algo arr curr parent =
      heapifyUpLoop aprox exe algo (arr.swap curr parent) parent ((parent - 1) / 2) := by
  unfold upLess at less
  rw [heapifyUpLoop, if_pos less, if_neg nonzero]

theorem heapifyDownLoop_left {arr : List α} {n curr : Nat} (left : downLeft aprox exe algo arr n curr) :
    heapifyDownLoop aprox exe algo arr n curr =
      heapifyDownLoop aprox exe algo (arr.swap curr (curr * 2 + 1)) n (curr * 2 + 1) := by
  unfold downLeft at left
  rw [heapifyDownLoop]
  exact if_pos left

theorem heapifyDownLoop_right {arr : List α} {n curr : Nat}
    (notLeft : ¬ downLeft aprox exe algo arr n curr) (right : downRight aprox algo arr n curr) :
    heapifyDownLoop aprox exe algo arr n curr =
      heapifyDownLoop aprox exe algo (arr.swap curr (curr * 2 + 2)) n (curr * 2 + 2) := by
  unfold downLeft at notLeft
  unfold downRight at right
  rw [heapifyDownLoop]
  exact (if_neg notLeft).trans (if_pos right)

theorem heapifyDownLoop_stop {arr : List α} {n curr : Nat}
    (notLeft : ¬ downLeft aprox exe algo arr n curr) (notRight : ¬ downRight aprox algo arr n curr) :
    heapifyDownLoop aprox exe algo arr n curr = arr := by
  unfold downLeft at notLeft
  unfold downRight at notRight
  rw [heapifyDownLoop]
  exact (if_neg notLeft).trans (if_neg notRight)

end Unfold

/-! An array holding one entry `n` times is left as it is by every sift: no test
can find one copy before another. -/

section Replicate

variable (aprox exe : α → Int) (algo : Int) (x : α)

theorem heapPush_replicate (n : Nat) :
    heapPush aprox exe (List.replicate n x) x algo = List.replicate (n + 1) x := by
  rw [heapPush, ← List.replicate_succ', List.length_replicate, heapifyUp]
  split
  · rfl
  · apply heapifyUpLoop_stop
    simp [upLess, show n / 2 < n + 1 by omega]

theorem heapifyDown_replicate (n : Nat) :
    heapifyDown aprox exe (List.replicate n x) n algo = List.replicate n x := by
  rw [heapifyDown, heapifyDownI]
  split
  · rfl
  · apply heapifyDownLoop_stop
    · intro left
      simp only [downLeft, Nat.zero_mul, Nat.zero_add] at left
      rcases left with ⟨-, inRange, more⟩ | ⟨-, inRange, more⟩ <;>
        simp [inRange, show 0 < n by omega] at more
    · intro right
      simp only [downRight, Nat.zero_mul, Nat.zero_add] at right
      rcases right with ⟨-, inRange, more⟩ | ⟨-, inRange, more⟩ <;>
        simp [inRange, show 0 < n by omega] at more

theorem heapPop_replicate (n : Nat) :
    heapPop aprox exe (x :: List.replicate n x) algo = List.replicate n x := by
  have moved : ((x :: List.replicate n x).set 0 ((x :: List.replicate n x).getLastD default)).dropLast =
      List.replicate n x := by
    rw [← List.replicate_succ, List.getLastD_eq_getLast?, List.getLast?_replicate]
    simp [List.set_replicate_self, List.dropLast_replicate]
  rw [heapPop, moved, List.length_replicate, heapifyDown_replicate]

end Replicate

/-! Every routine only exchanges entries: the array is a permutation of its input. -/

section Perm

variable (aprox exe : α → Int) (algo : Int)

theorem heapifyUpLoop_perm (arr : List α) (curr parent : Nat) :
    (heapifyUpLoop aprox exe algo arr curr parent).Perm arr := by
  induction arr, curr, parent using heapifyUpLoop.induct aprox exe algo with
  | case1 arr curr less =>
    rw [heapifyUpLoop_root aprox exe algo less]
    exact List.swap_perm arr curr 0
  | case2 arr curr parent less nonzero ih =>
    rw [heapifyUpLoop_swap aprox exe algo less nonzero]
    exact ih.trans (List.swap_perm arr curr parent)
  | case3 arr curr parent stop => rw [heapifyUpLoop_stop aprox exe algo stop]

theorem heapifyUp_perm (arr : List α) (n : Nat) : (heapifyUp aprox exe arr n algo).Perm arr := by
  unfold heapifyUp
  split
  · rfl
  · exact heapifyUpLoop_perm aprox exe algo arr _ _

theorem heapifyDownLoop_perm (arr : List α) (n curr : Nat) :
    (heapifyDownLoop aprox exe algo arr n curr).Perm arr := by
  induction arr, curr using heapifyDownLoop.induct aprox exe algo n with
  | case1 arr curr _ left ih =>
    rw [heapifyDownLoop_left aprox exe algo left]
    exact ih.trans (List.swap_perm arr _ _)
  | case2 arr curr _ _ notLeft right ih =>
    rw [heapifyDownLoop_right aprox exe algo notLeft right]
    exact ih.trans (List.swap_perm arr _ _)
  | case3 arr curr _ _ notLeft notRight => rw [heapifyDownLoop_stop aprox exe algo notLeft notRight]

theorem heapifyDownI_perm (arr : List α) (n i : Nat) :
    (heapifyDownI aprox exe arr n i algo).Perm arr := by
  unfold heapifyDownI
  split
  · rfl
  · exact heapifyDownLoop_perm aprox exe algo arr n i

theorem heapifyDown_perm (arr : List α) (n : Nat) : (heapifyDown aprox exe arr n algo).Perm arr :=
  heapifyDownI_perm aprox exe algo arr n 0

theorem rearrangeHeap_perm (arr : List α) (n : Nat) :
    (rearrangeHeap aprox exe arr n algo).Perm arr := by
  unfold rearrangeHeap
  generalize (List.range (n / 2)).reverse = starts
  induction starts generalizing arr with
  | nil => rfl
  | cons i rest ih =>
    rw [List.foldl_cons]
    exact (ih _).trans (heapifyDownI_perm aprox exe algo arr n i)

theorem heapPush_perm (heap : List α) (x : α) :
    (heapPush aprox exe heap x algo).Perm (heap ++ [x]) :=
  heapifyUp_perm aprox exe algo _ _

theorem heapPop_perm (x : α) (rest : List α) :
    (heapPop aprox exe (x :: rest) algo).Perm rest := by
  refine (heapifyDown_perm aprox exe algo _ _).trans ?_
  cases rest with
  | nil => rfl
  | cons y ys =>
    have moved : ((x :: y :: ys).set 0 ((x :: y :: ys).getLastD default)).dropLast =
        (y :: ys).getLast (List.cons_ne_nil y ys) :: (y :: ys).dropLast := by
      simp [List.getLastD_eq_getLast?, List.getLast?_eq_some_getLast]
    rw [moved]
    conv => rhs; rw [← List.dropLast_append_getLast (List.cons_ne_nil y ys)]
    exact (List.perm_append_singleton _ _).symm

end Perm

/-! ## What `heapify_down_i` leaves alone -/

omit [Inhabited α] in
theorem swap_getElem?_of_ne {xs : List α} {a b k : Nat} (ka : k ≠ a) (kb : k ≠ b) : (xs.swap a b)[k]? = xs[k]? := by
  by_cases inRange : k < xs.length
  · have shifted : k < (xs.swap a b).length := by rw [List.length_swap]; exact inRange
    rw [List.getElem?_eq_getElem shifted, List.getElem?_eq_getElem inRange, List.getElem_swap_of_ne ka kb]
  · rw [List.getElem?_eq_none (by rw [List.length_swap]; omega), List.getElem?_eq_none (by omega)]

/-- `j` lies in the subtree rooted at `i`: climbing parents from `j` meets `i`. -/
def inSubtree (i j : Nat) : Bool :=
  if j = i then true else if j < i then false else inSubtree i ((j - 1) / 2)
termination_by j
decreasing_by omega

theorem le_of_inSubtree {i j : Nat} (inside : inSubtree i j = true) : i ≤ j := by
  unfold inSubtree at inside
  split_ifs at inside with same below <;> omega

theorem inSubtree_child {i j : Nat} (inside : inSubtree i j = true) {c : Nat}
    (child : c = j * 2 + 1 ∨ c = j * 2 + 2) : inSubtree i c = true := by
  have above := le_of_inSubtree inside
  have parent : (c - 1) / 2 = j := by omega
  unfold inSubtree
  rw [if_neg (by omega), if_neg (by omega), parent]
  exact inside

section Frame

variable (aprox exe : α → Int) (algo : Int)

/-- The loop swaps `curr` with a child only, so whatever lies outside the subtree
of the node it started from keeps its entry. Induction on the loop. -/
theorem heapifyDownLoop_outside (i : Nat) (arr : List α) (n curr : Nat) (inside : inSubtree i curr = true)
    (j : Nat) (outside : inSubtree i j = false) :
    (heapifyDownLoop aprox exe algo arr n curr)[j]? = arr[j]? := by
  induction arr, curr using heapifyDownLoop.induct aprox exe algo n with
  | case1 arr curr _ left ih =>
    have child := inSubtree_child inside (.inl rfl)
    rw [heapifyDownLoop_left aprox exe algo left, ih child]
    exact swap_getElem?_of_ne (fun same => by rw [same, inside] at outside; cases outside)
      (fun same => by rw [same, child] at outside; cases outside)
  | case2 arr curr _ _ notLeft right ih =>
    have child := inSubtree_child inside (.inr rfl)
    rw [heapifyDownLoop_right aprox exe algo notLeft right, ih child]
    exact swap_getElem?_of_ne (fun same => by rw [same, inside] at outside; cases outside)
      (fun same => by rw [same, child] at outside; cases outside)
  | case3 arr curr _ _ notLeft notRight => rw [heapifyDownLoop_stop aprox exe algo notLeft notRight]

theorem heapifyDownI_outside (arr : List α) (n i j : Nat) (outside : inSubtree i j = false) :
    (heapifyDownI aprox exe arr n i algo)[j]? = arr[j]? := by
  unfold heapifyDownI
  split
  · rfl
  · apply heapifyDownLoop_outside aprox exe algo i arr n i _ j outside
    unfold inSubtree
    rw [if_pos rfl]

end Frame

/-! ## The order the sifts leave -/

/-- The subtree of `arr[0..n)` rooted at `i` is a min-heap under `key`. -/
def SubtreeOrdered (key : α → Int) (arr : List α) (n i : Nat) : Prop :=
  ∀ j, j < n → inSubtree i j = true → j ≠ i → key (arr.getD ((j - 1) / 2) default) ≤ key (arr.getD j default)

instance (key : α → Int) (arr : List α) (n i : Nat) : Decidable (SubtreeOrdered key arr n i) :=
  inferInstanceAs (Decidable (∀ j, j < n → _))

/-- Keys of five entries: 0, 10, 1 and 20 form a heap, and the fifth, 5, belongs
above its parent's 10. -/
def fifthKey (x : Nat) : Int := [0, 10, 1, 20, 5].getD x 0

/-- `heapify_up` starts with `parent = curr / 2`, which for an entry at an even
index is not its parent `(curr - 1) / 2`. With five entries it compares the new
key 5 with entry 2's key 1 instead of its parent entry 1's key 10, stops, and
leaves 5 below 10, under either policy. -/
theorem heapify_up_skips_parent :
    MinHeap.Ordered fifthKey ([0, 1, 2, 3] : List Nat) ∧
      heapifyUp fifthKey fifthKey [0, 1, 2, 3, 4] 5 0 = [0, 1, 2, 3, 4] ∧
      ¬ MinHeap.Ordered fifthKey (heapifyUp fifthKey fifthKey ([0, 1, 2, 3, 4] : List Nat) 5 0) ∧
      heapifyUp fifthKey fifthKey [0, 1, 2, 3, 4] 5 1 = [0, 1, 2, 3, 4] ∧
      ¬ MinHeap.Ordered fifthKey (heapifyUp fifthKey fifthKey ([0, 1, 2, 3, 4] : List Nat) 5 1) := by
  decide +kernel

/-- Keys 5, 3 and 1 at the root and its two children. -/
def rootKey (x : Nat) : Int := [5, 3, 1].getD x 0

/-- `exe_time` 1, 1 and 0 at the root and its two children. -/
def rightExe (x : Nat) : Int := [1, 1, 0].getD x 0

/-- Both children of the root are one-entry heaps. Under SJF `heapify_down_i`
swaps the root with its left child, key 3, because it is smaller than 5, never
looks at the right child's 1, and leaves 1 below 3. Under CFS the right-child
test reads `cpu_burst_aprox`, equal here, so the right child with `exe_time` 0
stays below a root with 1. -/
theorem heapify_down_i_takes_left :
    SubtreeOrdered rootKey ([0, 1, 2] : List Nat) 3 1 ∧ SubtreeOrdered rootKey ([0, 1, 2] : List Nat) 3 2 ∧
      heapifyDownI rootKey rootKey [0, 1, 2] 3 0 0 = [1, 0, 2] ∧
      ¬ SubtreeOrdered rootKey (heapifyDownI rootKey rootKey ([0, 1, 2] : List Nat) 3 0 0) 3 0 ∧
      SubtreeOrdered rightExe ([0, 1, 2] : List Nat) 3 1 ∧ SubtreeOrdered rightExe ([0, 1, 2] : List Nat) 3 2 ∧
      heapifyDownI (fun _ => 0) rightExe [0, 1, 2] 3 0 1 = [0, 1, 2] ∧
      ¬ SubtreeOrdered rightExe (heapifyDownI (fun _ => 0) rightExe ([0, 1, 2] : List Nat) 3 0 1) 3 0 := by
  decide +kernel

end Xv6
