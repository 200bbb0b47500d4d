import Mathlib

/-! Ring buffers indexed by free-running counters. A buffer of `N` cells is
filled at a writer's counter and drained at a reader's: element `k` of the
stream sits in cell `k % N`, and the ring holds the elements between the two
counters, the first-in-first-out queue `window`. A write past the queue while
it is not full appends to it, a read takes its head off, and a write to a cell
outside it leaves it alone.

The counters are `uint`s, 32-bit and wrapping. The counter of a stream that has
seen `k` elements is `UInt32.ofNat k`; as long as `N` divides `2^32` it still
gives cell `k % N`, and as long as the queue is shorter than `2^32` the
difference of two counters and their equality tests read the true difference.
-/
namespace Ring

variable {α : Type}

/-- The `count` elements from position `start` on; element `i` is in cell `i % N`. -/
def window (buf : Nat → α) (N start count : Nat) : List α :=
  (List.range count).map fun i => buf ((start + i) % N)

section Window

variable {buf : Nat → α} {N start count : Nat}

@[simp] theorem length_window : (window buf N start count).length = count := by
  simp [window]

theorem getElem_window {i : Nat} (h : i < (window buf N start count).length) :
    (window buf N start count)[i] = buf ((start + i) % N) := by
  simp [window]

theorem mod_ne_of_lt {i j : Nat} (lt : i < j) (close : j < i + N) : i % N ≠ j % N := by
  intro same
  have dvd : N ∣ j - i := (Nat.modEq_iff_dvd' lt.le).mp same
  have := Nat.le_of_dvd (by omega) dvd
  omega

theorem window_update {cell : Nat} (x : α) (outside : ∀ i < count, (start + i) % N ≠ cell) :
    window (Function.update buf cell x) N start count = window buf N start count := by
  unfold window
  refine List.map_congr_left fun i member => ?_
  exact Function.update_of_ne (outside i (List.mem_range.mp member)) _ _

theorem window_push (x : α) (room : count < N) :
    window (Function.update buf ((start + count) % N) x) N start (count + 1) =
      window buf N start count ++ [x] := by
  have before : window (Function.update buf ((start + count) % N) x) N start count = window buf N start count :=
    window_update x fun i below => mod_ne_of_lt (by omega) (by omega)
  rw [← before]
  simp [window, List.range_succ]

theorem window_pop : window buf N (start + 1) count = (window buf N start (count + 1)).tail := by
  simp only [window, List.range_succ_eq_map, List.map_cons, List.tail_cons, List.map_map]
  refine List.map_congr_left fun i _ => ?_
  simp only [Function.comp_apply]
  rw [Nat.add_assoc, Nat.add_comm 1 i]

theorem window_head (below : 0 < count) :
    (window buf N start count).head? = some (buf (start % N)) := by
  obtain ⟨count, rfl⟩ : ∃ c, count = c + 1 := ⟨count - 1, by omega⟩
  simp [window, List.range_succ_eq_map]

theorem window_append (first second : Nat) :
    window buf N start (first + second) = window buf N start first ++ window buf N (start + first) second := by
  simp only [window, List.range_add, List.map_append, List.map_map]
  congr 1
  refine List.map_congr_left fun i _ => ?_
  simp only [Function.comp_apply, Nat.add_assoc]

theorem window_dropLast : (window buf N start (count + 1)).dropLast = window buf N start count := by
  simp [window, List.range_succ]

end Window

/-! ## The queue of a stream

A stream of which the first `taken` elements have been read: the ring holds the
rest from position `taken` on. Storing an element appends it to the stream,
reading one takes it, and an element can be taken back off the end. -/

section Stream

variable {buf : Nat → α} {N : Nat} {stream : List α} {taken : Nat}

theorem window_take (queue : window buf N taken (stream.length - taken) = stream.drop taken)
    (below : taken < stream.length) :
    buf (taken % N) = stream[taken] ∧
      window buf N (taken + 1) (stream.length - (taken + 1)) = stream.drop (taken + 1) := by
  have count : stream.length - taken = stream.length - (taken + 1) + 1 := by omega
  constructor
  · have head := congrArg List.head? queue
    rw [window_head (by omega), List.head?_drop, List.getElem?_eq_getElem below] at head
    exact Option.some.inj head
  · rw [window_pop, ← count, queue, List.tail_drop]

theorem window_store (queue : window buf N taken (stream.length - taken) = stream.drop taken)
    (le : taken ≤ stream.length) (room : stream.length - taken < N) (x : α) :
    window (Function.update buf (stream.length % N) x) N taken ((stream ++ [x]).length - taken) =
      (stream ++ [x]).drop taken := by
  have count : (stream ++ [x]).length - taken = stream.length - taken + 1 := by
    simp only [List.length_append, List.length_singleton]
    omega
  have cell : stream.length % N = (taken + (stream.length - taken)) % N := by
    rw [Nat.add_sub_cancel' le]
  rw [count, cell, window_push x room, queue, List.drop_append_of_le_length le]

theorem window_unstore (queue : window buf N taken (stream.length - taken) = stream.drop taken)
    (below : taken < stream.length) :
    window buf N taken (stream.dropLast.length - taken) = stream.dropLast.drop taken := by
  have count : stream.length - taken = stream.dropLast.length - taken + 1 := by
    simp only [List.length_dropLast]
    omega
  rw [← List.dropLast_drop_eq_drop_dropLast, ← queue, count, window_dropLast]

end Stream

/-! ## Counters -/

section Counter

theorem counter_succ (k : Nat) : UInt32.ofNat k + 1 = UInt32.ofNat (k + 1) := by
  rw [UInt32.ofNat_add]
  rfl

theorem counter_cell {N : Nat} (k : Nat) (divides : N ∣ 2 ^ 32) (small : N < 2 ^ 32) :
    (UInt32.ofNat k % UInt32.ofNat N).toNat = k % N := by
  rw [UInt32.toNat_mod, UInt32.toNat_ofNat', UInt32.toNat_ofNat', Nat.mod_eq_of_lt small]
  exact Nat.mod_mod_of_dvd k divides

theorem counter_sub {r w : Nat} (le : r ≤ w) (close : w - r < 2 ^ 32) :
    (UInt32.ofNat w - UInt32.ofNat r).toNat = w - r := by
  rw [UInt32.toNat_sub, UInt32.toNat_ofNat', UInt32.toNat_ofNat']
  omega

theorem counter_eq_iff {r w : Nat} (le : r ≤ w) (close : w - r < 2 ^ 32) :
    UInt32.ofNat w = UInt32.ofNat r ↔ w = r := by
  rw [← UInt32.toNat_inj, UInt32.toNat_ofNat', UInt32.toNat_ofNat']
  omega

theorem counter_eq_add_iff {r w : Nat} (N : Nat) (le : r ≤ w) (close : w - r < 2 ^ 32)
    (small : N < 2 ^ 32) : UInt32.ofNat w = UInt32.ofNat r + UInt32.ofNat N ↔ w = r + N := by
  rw [← UInt32.toNat_inj, UInt32.toNat_add, UInt32.toNat_ofNat', UInt32.toNat_ofNat', UInt32.toNat_ofNat']
  omega

theorem counter_pred_sub {a b : UInt32} (ne : a ≠ b) : (a - 1 - b).toNat + 1 = (a - b).toNat := by
  have apart : a.toNat ≠ b.toNat := fun same => ne (UInt32.toNat.inj same)
  have ha := a.toNat_lt
  have hb := b.toNat_lt
  rw [UInt32.toNat_sub, UInt32.toNat_sub, UInt32.toNat_sub]
  simp only [UInt32.toNat_one] at *
  omega

theorem counter16_succ_sub {a b : UInt16} (ne : b ≠ a) : (a - (b + 1)).toNat + 1 = (a - b).toNat := by
  have apart : a.toNat ≠ b.toNat := fun same => ne (UInt16.toNat.inj same).symm
  have ha := a.toNat_lt
  have hb := b.toNat_lt
  rw [UInt16.toNat_sub, UInt16.toNat_sub, UInt16.toNat_add]
  simp only [UInt16.toNat_one] at *
  omega

theorem counter_pred {k : Nat} (positive : 0 < k) : UInt32.ofNat k - 1 = UInt32.ofNat (k - 1) := by
  obtain ⟨j, rfl⟩ : ∃ j, k = j + 1 := ⟨k - 1, by omega⟩
  rw [← counter_succ, UInt32.add_sub_cancel, Nat.add_sub_cancel]

end Counter

end Ring
