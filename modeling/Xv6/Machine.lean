import Mathlib

/-! Command-driven machines. A machine reads one command at a time and moves
its state; a run folds a list of commands over a start state. Safety facts are
proved for one command and lifted to every run, and so to every state that
some run reaches. Nondeterminism lives in the commands: a scheduler's choice,
an interleaving of processors or a device's answer is part of the command. -/
namespace Xv6.Machine

variable {σ α : Type} {step : σ → α → σ}

/-- The state after feeding `cmds` to `step`, starting in `s`. -/
def run (step : σ → α → σ) (s : σ) (cmds : List α) : σ := cmds.foldl step s

@[simp] theorem run_nil (s : σ) : run step s [] = s := rfl

@[simp] theorem run_cons (s : σ) (a : α) (cmds : List α) :
    run step s (a :: cmds) = run step (step s a) cmds := rfl

theorem run_append (s : σ) (xs ys : List α) :
    run step s (xs ++ ys) = run step (run step s xs) ys := List.foldl_append

theorem run_concat (s : σ) (xs : List α) (a : α) :
    run step s (xs ++ [a]) = step (run step s xs) a := by
  rw [run_append]
  rfl

/-- `s` is reachable from `init`: some run of commands ends in it. -/
def Reachable (step : σ → α → σ) (init s : σ) : Prop := ∃ cmds, run step init cmds = s

theorem Reachable.refl (init : σ) : Reachable step init init := ⟨[], rfl⟩

theorem Reachable.next {init s : σ} (reached : Reachable step init s) (a : α) :
    Reachable step init (step s a) := by
  obtain ⟨cmds, rfl⟩ := reached
  exact ⟨cmds ++ [a], run_concat _ _ _⟩

theorem run_invariant {P : σ → Prop} (preserves : ∀ s a, P s → P (step s a)) {s : σ}
    (initial : P s) (cmds : List α) : P (run step s cmds) := by
  induction cmds generalizing s with
  | nil => exact initial
  | cons a rest ih => exact ih (preserves s a initial)

theorem Reachable.invariant {P : σ → Prop} (preserves : ∀ s a, P s → P (step s a))
    {init s : σ} (initial : P init) (reached : Reachable step init s) : P s := by
  obtain ⟨cmds, rfl⟩ := reached
  exact run_invariant preserves initial cmds

theorem run_replicate (s : σ) (block : List α) (n : Nat) :
    run step s (List.replicate (n + 1) block).flatten =
      run step (run step s block) (List.replicate n block).flatten := by
  rw [List.replicate_succ, List.flatten_cons, run_append]

/-! Runs cut short: a crash keeps a prefix of the commands. -/

theorem run_take_append (s : σ) (xs ys : List α) (i : Nat) :
    run step s ((xs ++ ys).take i) = run step (run step s (xs.take i)) (ys.take (i - xs.length)) := by
  rw [List.take_append, run_append]

/-- The prefix rule for a loop whose `k`-th command is `f k l[k]`: a property
indexed by how many iterations have run holds after every prefix. -/
theorem run_take_mapIdx {β : Type} {P : Nat → σ → Prop} (l : List β) (f : Nat → β → α) {s : σ}
    (initial : P 0 s) (next : ∀ k (h : k < l.length) s, P k s → P (k + 1) (step s (f k l[k]))) (i : Nat) :
    P (min i l.length) (run step s ((l.mapIdx f).take i)) := by
  induction i with
  | zero => simpa using initial
  | succ i ih =>
    by_cases inside : i < l.length
    · have cut : (l.mapIdx f).take (i + 1) = (l.mapIdx f).take i ++ [f i l[i]] := by
        rw [List.take_succ_eq_append_getElem (by simpa using inside), List.getElem_mapIdx]
      rw [cut, run_concat, show min (i + 1) l.length = min i l.length + 1 by omega]
      rw [show min i l.length = i by omega] at ih ⊢
      exact next i inside _ ih
    · have whole : ∀ j, l.length ≤ j → (l.mapIdx f).take j = l.mapIdx f := fun j le =>
        List.take_of_length_le (by simpa using le)
      rw [whole (i + 1) (by omega), show min (i + 1) l.length = min i l.length by omega]
      rw [whole i (by omega)] at ih
      exact ih

/-! A loop whose body can fail, a `for` over a list in `Except`, is a `foldlM`. -/

/-- A fallible loop over `l` whose body keeps an invariant of the elements done
so far never fails, and ends with the invariant of all of `l`. -/
theorem foldlM_invariant {ε : Type} {f : σ → α → Except ε σ} (l : List α) {P : List α → σ → Prop}
    (next : ∀ done a rest s, done ++ a :: rest = l → P done s → ∃ s', f s a = .ok s' ∧ P (done ++ [a]) s')
    {s : σ} (initial : P [] s) : ∃ s', l.foldlM f s = .ok s' ∧ P l s' := by
  suffices left : ∀ rest done s, done ++ rest = l → P done s → ∃ s', rest.foldlM f s = .ok s' ∧ P l s' from
    left l [] s rfl initial
  intro rest
  induction rest with
  | nil =>
    intro done s whole inv
    rw [List.append_nil] at whole
    exact ⟨s, rfl, whole ▸ inv⟩
  | cons a rest ih =>
    intro done s whole inv
    obtain ⟨s', stepped, inv'⟩ := next done a rest s whole inv
    obtain ⟨s'', loop, final⟩ := ih (done ++ [a]) s' (by rw [List.append_assoc]; exact whole) inv'
    exact ⟨s'', by rw [List.foldlM_cons, stepped]; exact loop, final⟩

end Xv6.Machine
