import Mathlib

/-! Ownership of spinlocks shared by threads. A lock records the thread holding
it, or none; each thread claims at most one lock from where it is in its code.
`Owned` says every claim is recorded by its lock, so two threads never claim the
same lock and a free lock is claimed by nobody. An `acquire` of a free lock, a
`release` by its holder and a step that keeps the claim all keep it. -/
namespace Spinlock

variable {ι τ : Type}

/-- Every lock a thread claims records that thread as its holder. -/
def Owned (claim : τ → Option ι) (holder : ι → Option τ) : Prop :=
  ∀ t i, claim t = some i → holder i = some t

variable {claim : τ → Option ι} {holder : ι → Option τ}

theorem Owned.unique (own : Owned claim holder) {t u : τ} {i : ι} (first : claim t = some i)
    (second : claim u = some i) : t = u :=
  Option.some.inj ((own t i first).symm.trans (own u i second))

theorem Owned.not_free (own : Owned claim holder) {t : τ} {i : ι} (claimed : claim t = some i) :
    holder i ≠ none := by
  rw [own t i claimed]
  exact Option.some_ne_none t

theorem Owned.unclaimed (own : Owned claim holder) {i : ι} (free : holder i = none) (t : τ) :
    claim t ≠ some i :=
  fun claimed => own.not_free claimed free

variable [DecidableEq τ]

theorem Owned.keep (own : Owned claim holder) (t : τ) {x : Option ι} (same : claim t = x) :
    Owned (Function.update claim t x) holder := by
  rw [← same, Function.update_eq_self]
  exact own

variable [DecidableEq ι]

/-- `acquire`: a thread takes a free lock. -/
theorem Owned.acquire (own : Owned claim holder) {t : τ} {i : ι} (free : holder i = none) :
    Owned (Function.update claim t (some i)) (Function.update holder i (some t)) := by
  intro u j claimed
  by_cases same : u = t
  · subst same
    rw [Function.update_self, Option.some.injEq] at claimed
    subst claimed
    exact Function.update_self _ _ _
  · rw [Function.update_of_ne same] at claimed
    have other : j ≠ i := by
      rintro rfl
      exact own.unclaimed free u claimed
    rw [Function.update_of_ne other]
    exact own u j claimed

/-- `release`: the holder frees its lock and claims nothing. -/
theorem Owned.release (own : Owned claim holder) {t : τ} {i : ι} (claimed : claim t = some i) :
    Owned (Function.update claim t none) (Function.update holder i none) := by
  intro u j mine
  by_cases same : u = t
  · subst same
    simp at mine
  · rw [Function.update_of_ne same] at mine
    have other : j ≠ i := by
      rintro rfl
      exact same (own.unique mine claimed)
    rw [Function.update_of_ne other]
    exact own u j mine

end Spinlock
