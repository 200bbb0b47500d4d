import Mathlib

/-! Singly linked lists threaded through memory. Each cell keeps the address of
the next one in a word of its own, `next`, and a null address ends the list.
`Links null next head cells` says that following `next` from `head` meets the
cells of `cells` in order and then `null`. The cells a head reaches are
determined by it, so the list is finite and never meets a cell twice; pushing a
cell that is not on it, taking off its head, and writing words outside it keep
it. -/
namespace Chain

variable {α : Type}

/-- Following `next` from `head` meets `cells`, in order, and then `null`. -/
inductive Links (null : α) (next : α → α) : α → List α → Prop
  | nil : Links null next null []
  | cons {cell : α} {cells : List α} (notNull : cell ≠ null) (rest : Links null next (next cell) cells) :
      Links null next cell (cell :: cells)

variable {null : α} {next : α → α}

theorem Links.head_of_cons {head cell : α} {cells : List α}
    (links : Links null next head (cell :: cells)) : head = cell := by
  cases links
  rfl

theorem Links.tail {cell : α} {cells : List α} (links : Links null next cell (cell :: cells)) :
    Links null next (next cell) cells := by
  cases links with
  | cons _ rest => exact rest

theorem Links.eq_nil {cells : List α} (links : Links null next null cells) : cells = [] := by
  cases links with
  | nil => rfl
  | cons notNull _ => exact absurd rfl notNull

theorem Links.null_of_nil {head : α} (links : Links null next head []) : head = null := by
  cases links
  rfl

theorem Links.not_null {head cell : α} {cells : List α} (links : Links null next head cells)
    (member : cell ∈ cells) : cell ≠ null := by
  induction links with
  | nil => simp at member
  | cons notNull _ ih =>
    rcases List.mem_cons.mp member with rfl | later
    · exact notNull
    · exact ih later

theorem Links.unique {head : α} {cells cells' : List α} (links : Links null next head cells)
    (links' : Links null next head cells') : cells = cells' := by
  induction links generalizing cells' with
  | nil => exact (links'.eq_nil).symm
  | cons notNull _ ih =>
    cases links' with
    | nil => exact absurd rfl notNull
    | cons _ rest' => rw [ih rest']

theorem Links.suffix {head cell : α} {cells : List α} (links : Links null next head cells)
    (member : cell ∈ cells) : ∃ rest, Links null next cell (cell :: rest) ∧ (cell :: rest) <:+ cells := by
  induction links with
  | nil => simp at member
  | @cons first others notNull rest ih =>
    rcases List.mem_cons.mp member with rfl | later
    · exact ⟨others, .cons notNull rest, List.suffix_refl _⟩
    · obtain ⟨tail, reached, suffix⟩ := ih later
      exact ⟨tail, reached, suffix.trans (List.suffix_cons first others)⟩

/-- The list never meets a cell twice: following `next` has no cycle. -/
theorem Links.nodup {head : α} {cells : List α} (links : Links null next head cells) : cells.Nodup := by
  induction links with
  | nil => exact List.nodup_nil
  | @cons cell others notNull rest ih =>
    refine List.nodup_cons.mpr ⟨fun again => ?_, ih⟩
    obtain ⟨tail, reached, suffix⟩ := rest.suffix again
    have same : cell :: others = cell :: tail := (Links.cons notNull rest).unique reached
    have shorter := suffix.length_le
    simp only [List.cons.injEq, true_and] at same
    subst same
    simp at shorter

theorem Links.frame {head : α} {cells : List α} {next' : α → α} (links : Links null next head cells)
    (same : ∀ cell ∈ cells, next' cell = next cell) : Links null next' head cells := by
  induction links with
  | nil => exact .nil
  | @cons cell others notNull rest ih =>
    have here := same cell List.mem_cons_self
    refine .cons notNull ?_
    rw [here]
    exact ih fun other member => same other (List.mem_cons_of_mem cell member)

variable [DecidableEq α]

theorem Links.push {head cell : α} {cells : List α} (links : Links null next head cells)
    (notNull : cell ≠ null) (fresh : cell ∉ cells) :
    Links null (Function.update next cell head) cell (cell :: cells) := by
  refine .cons notNull ?_
  rw [Function.update_self]
  exact links.frame fun other member => Function.update_of_ne (by rintro rfl; exact fresh member) _ _

theorem Links.write {head cell : α} {cells : List α} (links : Links null next head cells)
    (outside : cell ∉ cells) (value : α) : Links null (Function.update next cell value) head cells :=
  links.frame fun other member => Function.update_of_ne (by rintro rfl; exact outside member) _ _

end Chain
