import Mathlib

/-! A pool of `N` slots kept by a free map. A holder takes slots that are free
and gives them back; every slot below `N` is then either free or held, by
exactly one holder, and no holder lists a slot twice. Taking marks the slots
not free and giving back marks them free, both with `mark`. Reference counts
are checked against the number of holders, and a change to one holder moves
that number by at most one. -/
namespace Pool

/-- `free` with the slots of `slots` set to `v`. -/
def mark (free : Nat → Bool) (slots : List Nat) (v : Bool) : Nat → Bool :=
  fun i => if i ∈ slots then v else free i

@[simp] theorem mark_nil (free : Nat → Bool) (v : Bool) : mark free [] v = free := by
  funext i
  simp [mark]

theorem mark_cons (free : Nat → Bool) (j : Nat) (rest : List Nat) (v : Bool) :
    mark free (j :: rest) v = mark (Function.update free j v) rest v := by
  funext i
  by_cases same : i = j
  · subst same
    simp [mark]
  · simp [mark, same]

theorem mark_of_mem {free : Nat → Bool} {slots : List Nat} {v : Bool} {i : Nat} (member : i ∈ slots) :
    mark free slots v i = v := if_pos member

theorem mark_of_not_mem {free : Nat → Bool} {slots : List Nat} {v : Bool} {i : Nat} (outside : i ∉ slots) :
    mark free slots v i = free i := if_neg outside

/-- The free slots below `N`, in increasing order. -/
def freeSlots (N : Nat) (free : Nat → Bool) : List Nat := (List.range N).filter free

theorem mem_freeSlots {N : Nat} {free : Nat → Bool} {i : Nat} : i ∈ freeSlots N free ↔ i < N ∧ free i = true := by
  simp [freeSlots]

theorem freeSlots_nodup (N : Nat) (free : Nat → Bool) : (freeSlots N free).Nodup :=
  (List.nodup_range).filter _

theorem freeSlots_update {N : Nat} {free : Nat → Bool} {j : Nat} :
    freeSlots N (Function.update free j false) = (freeSlots N free).erase j := by
  rw [List.Nodup.erase_eq_filter (freeSlots_nodup N free), freeSlots, freeSlots, List.filter_filter]
  congr 1
  funext i
  by_cases same : i = j
  · subst same
    simp
  · simp [same]

/-- The number of slots below `N` in use. -/
def inUse (N : Nat) (free : Nat → Bool) : Nat := (List.range N).countP fun j => !free j

/-- Giving back a slot in use lowers the count; induction on `N`. -/
theorem inUse_update_lt {N : Nat} {free : Nat → Bool} {i : Nat} (below : i < N) (used : free i = false) :
    inUse N (Function.update free i true) < inUse N free := by
  induction N with
  | zero => omega
  | succ N ih =>
    unfold inUse at ih ⊢
    rw [List.range_succ, List.countP_append, List.countP_append]
    by_cases last : i = N
    · subst last
      have same : (List.range i).countP (fun j => !Function.update free i true j) =
          (List.range i).countP (fun j => !free j) :=
        List.countP_congr fun j member => by rw [Function.update_of_ne (List.mem_range.mp member).ne]
      simp [same, used]
    · have earlier := ih (by omega)
      simp [Function.update_of_ne (Ne.symm last)]
      omega

variable {α : Type}

/-- Every slot below `N` is free or held, by one holder, and held once. -/
structure Owned (N : Nat) (free : Nat → Bool) (holds : α → List Nat) : Prop where
  nodup : ∀ a, (holds a).Nodup
  bound : ∀ a, ∀ i ∈ holds a, i < N
  excl : ∀ a b i, i ∈ holds a → i ∈ holds b → a = b
  free_iff : ∀ i < N, free i = true ↔ ∀ a, i ∉ holds a

section Owned

variable {N : Nat} {free : Nat → Bool} {holds : α → List Nat}

theorem Owned.not_free (own : Owned N free holds) {a : α} {i : Nat} (held : i ∈ holds a) : free i = false := by
  have below := own.bound a i held
  by_contra freed
  exact (own.free_iff i below).mp (Bool.not_eq_false _ ▸ freed) a held

theorem Owned.exactly_one (own : Owned N free holds) {i : Nat} (below : i < N) :
    (free i = true ∧ ∀ a, i ∉ holds a) ∨ (free i = false ∧ ∃ a, i ∈ holds a ∧ ∀ b, i ∈ holds b → b = a) := by
  by_cases freed : free i = true
  · exact .inl ⟨freed, (own.free_iff i below).mp freed⟩
  · have held : ¬ ∀ a, i ∉ holds a := fun none => freed ((own.free_iff i below).mpr none)
    push Not at held
    obtain ⟨a, member⟩ := held
    exact .inr ⟨Bool.not_eq_true _ ▸ freed, a, member, fun b other => own.excl b a i other member⟩

variable [DecidableEq α]

/-- A holder with nothing takes distinct free slots below `N`. -/
theorem Owned.acquire (own : Owned N free holds) {a : α} (empty : holds a = []) {slots : List Nat}
    (nodup : slots.Nodup) (bound : ∀ i ∈ slots, i < N) (fresh : ∀ i ∈ slots, free i = true) :
    Owned N (mark free slots false) (Function.update holds a slots) where
  nodup b := by
    by_cases same : b = a
    · subst same
      rw [Function.update_self]
      exact nodup
    · rw [Function.update_of_ne same]
      exact own.nodup b
  bound b i member := by
    by_cases same : b = a
    · subst same
      rw [Function.update_self] at member
      exact bound i member
    · rw [Function.update_of_ne same] at member
      exact own.bound b i member
  excl b c i inB inC := by
    have taken : ∀ d, d ≠ a → i ∈ holds d → i ∉ slots := fun d _ held taken =>
      absurd (fresh i taken) (by rw [own.not_free held]; decide)
    by_cases hb : b = a <;> by_cases hc : c = a
    · rw [hb, hc]
    · rw [hb, Function.update_self] at inB
      rw [Function.update_of_ne hc] at inC
      exact absurd inB (taken c hc inC)
    · rw [hc, Function.update_self] at inC
      rw [Function.update_of_ne hb] at inB
      exact absurd inC (taken b hb inB)
    · rw [Function.update_of_ne hb] at inB
      rw [Function.update_of_ne hc] at inC
      exact own.excl b c i inB inC
  free_iff i below := by
    by_cases taken : i ∈ slots
    · rw [mark_of_mem taken]
      simp only [Bool.false_eq_true, false_iff, not_forall, not_not]
      exact ⟨a, by rw [Function.update_self]; exact taken⟩
    · rw [mark_of_not_mem taken, own.free_iff i below]
      constructor
      · intro none b
        by_cases same : b = a
        · rw [same, Function.update_self]
          exact taken
        · rw [Function.update_of_ne same]
          exact none b
      · intro none b
        by_cases same : b = a
        · rw [same, empty]
          exact List.not_mem_nil
        · have := none b
          rwa [Function.update_of_ne same] at this

/-- A holder gives all its slots back. -/
theorem Owned.release (own : Owned N free holds) (a : α) :
    Owned N (mark free (holds a) true) (Function.update holds a []) where
  nodup b := by
    by_cases same : b = a
    · rw [same, Function.update_self]
      exact List.nodup_nil
    · rw [Function.update_of_ne same]
      exact own.nodup b
  bound b i member := by
    by_cases same : b = a
    · rw [same, Function.update_self] at member
      exact absurd member List.not_mem_nil
    · rw [Function.update_of_ne same] at member
      exact own.bound b i member
  excl b c i inB inC := by
    by_cases hb : b = a
    · rw [hb, Function.update_self] at inB
      exact absurd inB List.not_mem_nil
    by_cases hc : c = a
    · rw [hc, Function.update_self] at inC
      exact absurd inC List.not_mem_nil
    rw [Function.update_of_ne hb] at inB
    rw [Function.update_of_ne hc] at inC
    exact own.excl b c i inB inC
  free_iff i below := by
    by_cases given : i ∈ holds a
    · rw [mark_of_mem given]
      simp only [true_iff]
      intro b member
      by_cases same : b = a
      · rw [same, Function.update_self] at member
        exact List.not_mem_nil member
      · rw [Function.update_of_ne same] at member
        exact same (own.excl b a i member given)
    · rw [mark_of_not_mem given, own.free_iff i below]
      constructor
      · intro none b
        by_cases same : b = a
        · rw [same, Function.update_self]
          exact List.not_mem_nil
        · rw [Function.update_of_ne same]
          exact none b
      · intro none b
        by_cases same : b = a
        · rw [same]
          exact given
        · have := none b
          rwa [Function.update_of_ne same] at this

end Owned

/-! ## Counting holders -/

section Count

variable {β : Type} [Fintype β]

/-- How many elements satisfy `p`. -/
def count (p : β → Bool) : Nat := (Finset.univ.filter fun y => p y = true).card

/-- Changing a predicate at one point moves its count by what changed there. -/
theorem count_update [DecidableEq β] (p q : β → Bool) (x : β) (same : ∀ y, y ≠ x → q y = p y) :
    (count q : Int) = count p + (((q x).toNat : Int) - (p x).toNat) := by
  have split : ∀ r : β → Bool,
      (count r : Int) = (Finset.univ.filter fun y => r y = true ∧ y ≠ x).card + (r x).toNat := by
    intro r
    unfold count
    rw [← Finset.card_filter_add_card_filter_not (s := Finset.univ.filter fun y => r y = true) (fun y => y ≠ x)]
    rw [Finset.filter_filter, Finset.filter_filter]
    push_cast
    have single : (Finset.univ.filter fun y => r y = true ∧ ¬ y ≠ x) = if r x then {x} else ∅ := by
      ext y
      by_cases at_x : y = x
      · subst at_x
        cases at_y : r y <;> simp [at_y]
      · split_ifs <;> simp [at_x]
    rw [single]
    cases r x <;> simp
  have outside : (Finset.univ.filter fun y => q y = true ∧ y ≠ x) =
      Finset.univ.filter fun y => p y = true ∧ y ≠ x := by
    ext y
    by_cases at_x : y = x
    · simp [at_x]
    · simp [at_x, same y at_x]
  rw [split q, split p, outside]
  ring

theorem count_eq_zero {p : β → Bool} (none : ∀ y, p y = false) : count p = 0 := by
  unfold count
  rw [Finset.card_eq_zero, Finset.filter_eq_empty_iff]
  intro y _
  simp [none y]

theorem count_pos {p : β → Bool} {x : β} (at_x : p x = true) : 0 < count p :=
  Finset.card_pos.mpr ⟨x, by simp [at_x]⟩

/-- The sum of a weight over all elements. -/
def total (w : β → Nat) : Nat := ∑ y, w y

theorem total_update [DecidableEq β] (w w' : β → Nat) (x : β) (same : ∀ y, y ≠ x → w' y = w y) :
    (total w' : Int) = total w + ((w' x : Int) - w x) := by
  have rest : ∑ y ∈ Finset.univ.erase x, w' y = ∑ y ∈ Finset.univ.erase x, w y :=
    Finset.sum_congr rfl fun y member => same y (Finset.ne_of_mem_erase member)
  unfold total
  rw [← Finset.add_sum_erase _ w (Finset.mem_univ x), ← Finset.add_sum_erase _ w' (Finset.mem_univ x), rest]
  push_cast
  ring

theorem le_total (w : β → Nat) (x : β) : w x ≤ total w :=
  Finset.single_le_sum (fun y _ => Nat.zero_le (w y)) (Finset.mem_univ x)

theorem exists_pos_of_total {w : β → Nat} (positive : 0 < total w) : ∃ x, 0 < w x := by
  by_contra none
  push Not at none
  have zero : total w = 0 := Finset.sum_eq_zero fun y _ => Nat.le_zero.mp (none y)
  omega

end Count

end Pool
