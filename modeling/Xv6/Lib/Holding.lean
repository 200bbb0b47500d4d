import Mathlib

/-! Slots holding elements of a pool: a slot holds at most one element, every
element held is in the pool, and no two slots hold the same one. Forgetting
slots, letting one slot hold an element of the pool no slot holds, adding an
element to the pool, and dropping an element no slot holds keep this. No more
slots hold something than the pool has elements. -/
namespace Holding

variable {σ α : Type}

/-- `holds` is an injective partial map into `pool`. -/
structure Into (holds : σ → Option α) (pool : List α) : Prop where
  mem : ∀ x a, holds x = some a → a ∈ pool
  inj : ∀ x y a, holds x = some a → holds y = some a → x = y

variable {holds holds' : σ → Option α} {pool pool' : List α}

theorem Into.mono (into : Into holds pool) (sub : ∀ x a, holds' x = some a → holds x = some a)
    (grow : ∀ a ∈ pool, a ∈ pool') : Into holds' pool' where
  mem x a held := grow a (into.mem x a (sub x a held))
  inj x y a heldX heldY := into.inj x y a (sub x a heldX) (sub y a heldY)

/-- One slot takes an element of the pool that no slot held. -/
theorem Into.claim (into : Into holds pool) {a : α} (inPool : a ∈ pool) (unheld : ∀ x, holds x ≠ some a) (slot : σ)
    (new : ∀ x b, holds' x = some b → holds x = some b ∨ (x = slot ∧ b = a)) : Into holds' pool where
  mem x b held := by
    rcases new x b held with old | ⟨-, rfl⟩
    · exact into.mem x b old
    · exact inPool
  inj x y b heldX heldY := by
    rcases new x b heldX with oldX | ⟨atX, sameX⟩ <;> rcases new y b heldY with oldY | ⟨atY, sameY⟩
    · exact into.inj x y b oldX oldY
    · exact absurd (sameY ▸ oldX) (unheld x)
    · exact absurd (sameX ▸ oldY) (unheld y)
    · rw [atX, atY]

theorem Into.cons (into : Into holds pool) (a : α) : Into holds (a :: pool) :=
  into.mono (fun _ _ held => held) fun _ member => List.mem_cons_of_mem a member

theorem Into.erase [DecidableEq α] (into : Into holds pool) {a : α} (unheld : ∀ x, holds' x ≠ some a)
    (sub : ∀ x b, holds' x = some b → holds x = some b) : Into holds' (pool.erase a) where
  mem x b held := by
    have other : b ≠ a := by
      rintro rfl
      exact unheld x held
    exact (List.mem_erase_of_ne other).mpr (into.mem x b (sub x b held))
  inj x y b heldX heldY := into.inj x y b (sub x b heldX) (sub y b heldY)

theorem Into.unique (into : Into holds pool) {slot : σ} {a : α} (held : holds slot = some a) :
    ∀ x, x ≠ slot → holds x ≠ some a :=
  fun x other heldX => other (into.inj x slot a heldX held)

/-- Slots that all hold something are no more than the pool's elements. -/
theorem Into.card_le [DecidableEq α] (into : Into holds pool) (S : Finset σ) (full : ∀ x ∈ S, (holds x).isSome) :
    S.card ≤ pool.length := by
  rcases S.eq_empty_or_nonempty with empty | ⟨x₀, member₀⟩
  · simp [empty]
  · obtain ⟨a₀, -⟩ := Option.isSome_iff_exists.mp (full x₀ member₀)
    have holding : ∀ x ∈ S, holds x = some ((holds x).getD a₀) := fun x member => by
      obtain ⟨a, held⟩ := Option.isSome_iff_exists.mp (full x member)
      rw [held, Option.getD_some]
    calc S.card ≤ pool.toFinset.card := by
          apply Finset.card_le_card_of_injOn fun x => (holds x).getD a₀
          · intro x member
            exact List.mem_toFinset.mpr (into.mem x _ (holding x member))
          · intro x memberX y memberY same
            simp only at same
            have heldY := holding y memberY
            rw [← same] at heldY
            exact into.inj x y _ (holding x memberX) heldY
      _ ≤ pool.length := List.toFinset_card_le pool

end Holding
