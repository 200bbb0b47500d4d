import Xv6.Mem.Uvm

/-! `uvmcopy` (`kernel/vm.c`), with which `fork` gives the child a copy of the
parent's memory. Its loop is the loop of `uvmalloc` with other permissions
and other contents: the page for `i` gets the flags of the parent's PTE and a
`memmove` of the parent's page. So the invariant is `Growing` with the
parent's flags and `Filled` with the parent's pages as they were; the copies
go to fresh pages, so the pages they read from are never written. On failure
`uvmunmap` frees what the loop mapped. -/
namespace Xv6.Uvm

open Vm

/-- A valid PTE's flags already hold `PTE_V`. -/
theorem or_valid_of_valid {f : UInt64} (valid : f &&& PTE_V ≠ 0) : f ||| PTE_V = f := by
  have odd : f.toNat % 2 = 1 := by
    have nonzero : (f &&& PTE_V).toNat ≠ 0 := fun zero => valid (UInt64.toNat_inj.mp zero)
    rw [UInt64.toNat_and, show PTE_V.toNat = 1 from rfl, Nat.and_one_is_mod] at nonzero
    omega
  apply UInt64.toNat_inj.mp
  rw [UInt64.toNat_or, show PTE_V.toNat = 1 from rfl]
  apply Nat.eq_of_testBit_eq
  intro i
  rw [Nat.testBit_or]
  cases i with
  | zero => simp [Nat.testBit_zero, odd]
  | succ i => simp [Nat.testBit_succ]

/-- The flags `uvmcopy` gives the child's page `p`: those of the parent's PTE. -/
def copiedPerm (old : Radix) (p : Nat) : UInt64 := PTE_FLAGS (old.leaf p)

/-- What `uvmcopy` puts on the child's page `p`: the parent's page in `mem`. -/
def copiedPage (mem : Nat → UInt8) (old : Radix) (p : Nat) : List UInt8 := Flat.read mem (PTE2PA (old.leaf p)) PGSIZE

@[simp]
theorem length_copiedPage (mem : Nat → UInt8) (old : Radix) (p : Nat) : (copiedPage mem old p).length = PGSIZE :=
  Flat.length_read _ _ _

section CopyLoop

variable {kernelEnd : Nat} {s₀ : Kalloc.Phys} {mem₀ : Nat → UInt8} {old t₀ : Radix}

theorem Leaves.pte_leaf {t : Radix} {lo n p : Nat} (leaves : Leaves t lo n) (low : lo ≤ p) (high : p < lo + n) :
    t.pte (p * PGSIZE) = some (t.leaf p) ∧ PTE_FLAGS (t.leaf p) ≠ PTE_V ∧ t.leaf p &&& PTE_V ≠ 0 := by
  obtain ⟨e, found, leaf⟩ := leaves p low high
  obtain ⟨-, atLeaf, valid⟩ := walk_of_pte found
  rw [Nat.mul_div_cancel p (by decide)] at atLeaf
  subst atLeaf
  exact ⟨found, leaf, valid⟩

theorem leafPerm_copiedPerm {n : Nat} (leaves : Leaves old 0 n) {p : Nat} (inside : p < n) :
    LeafPerm (copiedPerm old p) := by
  obtain ⟨-, leaf, valid⟩ := leaves.pte_leaf (Nat.zero_le p) (by omega)
  refine ⟨flags_lt _, ?_⟩
  rw [copiedPerm, or_valid_of_valid (by rwa [← and_flags _ PTE_V (by decide)])]
  exact leaf

theorem flags_copied {n p pa : Nat} (leaves : Leaves old 0 n) (inside : p < n) (small : pa < 2 ^ 64) :
    PTE_FLAGS (leafPte pa (copiedPerm old p)) = PTE_FLAGS (old.leaf p) := by
  obtain ⟨-, -, valid⟩ := leaves.pte_leaf (Nat.zero_le p) (by omega)
  rw [flags_leafPte small (leafPerm_copiedPerm leaves inside).1, copiedPerm,
    or_valid_of_valid (by rwa [← and_flags _ PTE_V (by decide)])]

theorem user_copied {n p pa : Nat} (leaves : Leaves old 0 n) (inside : p < n) (small : pa < 2 ^ 64) :
    leafPte pa (copiedPerm old p) &&& PTE_U = old.leaf p &&& PTE_U := by
  rw [and_flags _ PTE_U (by decide), flags_copied leaves inside small, ← and_flags _ PTE_U (by decide)]

/-- Stores to fresh pages leave every page of `s₀` as it was. -/
theorem FreshWrites.read_page {mem : Nat → UInt8} (frame : FreshWrites kernelEnd s₀ mem₀ mem) {free : List Nat}
    (layout : Kalloc.Layout kernelEnd s₀ free) {pa : Nat} (held : pa ∈ s₀.allocated) :
    Flat.read mem pa PGSIZE = Flat.read mem₀ pa PGSIZE := by
  have aligned := (page_of_held layout held).1
  unfold Flat.read
  refine List.map_congr_left fun k member => ?_
  have inside : k < PGSIZE := List.mem_range.mp member
  by_contra changed
  obtain ⟨page, isPage, fresh, low, high⟩ := frame _ changed
  have other : page ≠ pa := fun same => fresh (same ▸ held)
  have alignedPage := (page_of_pages isPage).1
  unfold PGSIZE at *
  omega

/-- `err:` of `uvmcopy` after the pages below `hi`: `uvmunmap` frees them, and
the child's page table differs from `t₀` by tables only. -/
theorem uvmcopyUndo_spec (positive : 0 < kernelEnd) {perm : Nat → UInt64} {s : Kalloc.Phys} {t : Radix} {hi : Nat}
    (growing : Growing kernelEnd s₀ t₀ perm 0 s t hi) (leafy : ∀ p, 0 ≤ p → p < hi → LeafPerm (perm p))
    (below : hi * PGSIZE ≤ TRAPFRAME) (empty : ∀ p, 0 ≤ p → p < hi → t₀.pte (p * PGSIZE) = none)
    (mem : Nat → UInt8) :
    ∃ s' t', uvmcopyUndo kernelEnd s mem t (hi * PGSIZE) = .ok (s', mem, t', -1) ∧ Grew kernelEnd s₀ t₀ s' t' := by
  obtain ⟨free, layout⟩ := growing.layout
  have leaves := growing.leaves leafy
  rw [Nat.sub_zero] at leaves
  obtain ⟨s', t', loop, done⟩ := uvmunmapLoop_spec positive hi layout growing.owns (Nat.zero_mod PGSIZE)
    (by rwa [Nat.zero_add]) (by rwa [Nat.zero_div])
  rw [Nat.zero_div] at done
  have unmap : uvmunmap kernelEnd s t 0 (hi * PGSIZE / PGSIZE) true = .ok (s', t') := by
    rw [uvmunmap, if_neg (by decide), Nat.mul_div_cancel hi (by decide)]
    exact loop
  refine ⟨s', t', ?_, growing.undo empty (by rwa [Nat.sub_zero])⟩
  unfold uvmcopyUndo
  rw [unmap]

/-- The loop of `uvmcopy(old, new, sz)` from the page `hi`, over a parent
that maps a leaf at every page below `PGROUNDUP(sz)` and a child that maps
none there: it does not panic, and returns 0 with every page copied, or -1
with every page it took given back. Induction on the pages left. -/
theorem uvmcopyLoop_spec (positive : 0 < kernelEnd) {free₀ : List Nat} (layout₀ : Kalloc.Layout kernelEnd s₀ free₀)
    (parent : Owns s₀ old) {sz : Nat} (room : PGROUNDUP sz ≤ TRAPFRAME) (leaves : Leaves old 0 (PGROUNDUP sz / PGSIZE))
    (empty : ∀ p, 0 ≤ p → p < PGROUNDUP sz / PGSIZE → t₀.pte (p * PGSIZE) = none) (k : Nat) :
    ∀ hi s t mem, PGROUNDUP sz / PGSIZE - hi = k → hi ≤ PGROUNDUP sz / PGSIZE →
      Growing kernelEnd s₀ t₀ (copiedPerm old) 0 s t hi → Filled kernelEnd s₀ mem₀ (copiedPage mem₀ old) 0 t hi mem →
      ∃ s' mem' t' r, uvmcopyLoop kernelEnd s mem old t (hi * PGSIZE) sz = .ok (s', mem', t', r) ∧
        (r = 0 ∧ Growing kernelEnd s₀ t₀ (copiedPerm old) 0 s' t' (PGROUNDUP sz / PGSIZE) ∧
            Filled kernelEnd s₀ mem₀ (copiedPage mem₀ old) 0 t' (PGROUNDUP sz / PGSIZE) mem' ∨
          r = -1 ∧ Grew kernelEnd s₀ t₀ s' t' ∧ FreshWrites kernelEnd s₀ mem₀ mem') := by
  have round := pgroundup_aligned sz
  have least := le_pgroundup sz
  have close := pgroundup_lt sz
  induction k with
  | zero =>
    intro hi s t mem count high growing filled
    have top : hi = PGROUNDUP sz / PGSIZE := by omega
    have past : ¬ hi * PGSIZE < sz := by
      subst top
      unfold PGSIZE at *
      omega
    rw [uvmcopyLoop, if_neg past]
    exact ⟨s, mem, t, 0, rfl, .inl ⟨rfl, top ▸ growing, top ▸ filled⟩⟩
  | succ k ih =>
    intro hi s t mem count high growing filled
    have inside : hi < PGROUNDUP sz / PGSIZE := by omega
    have next : (hi + 1) * PGSIZE ≤ PGROUNDUP sz := by
      rw [Nat.succ_mul]
      unfold PGSIZE at *
      omega
    have more : hi * PGSIZE < sz := by
      rw [Nat.succ_mul] at next
      unfold PGSIZE at *
      omega
    have belowT : hi * PGSIZE + PGSIZE ≤ TRAPFRAME := by
      rw [← Nat.succ_mul]
      exact next.trans room
    have below : hi * PGSIZE < MAXVA := by
      have := trapframe_below
      unfold PGSIZE at *
      omega
    have index : hi * PGSIZE / PGSIZE = hi := Nat.mul_div_cancel hi (by decide)
    obtain ⟨e, found, leaf⟩ := leaves hi (Nat.zero_le hi) (by omega)
    obtain ⟨walked, atLeaf, valid⟩ := walk_of_pte found
    rw [index] at walked atLeaf
    have held : PTE2PA e ∈ s₀.allocated := parent.mem _ _ (holds_user (by unfold PGSIZE at *; omega) found)
    have source : Flat.read mem (PTE2PA e) PGSIZE = copiedPage mem₀ old hi := by
      unfold copiedPage
      rw [atLeaf]
      exact filled.frame.read_page layout₀ held
    have perm : copiedPerm old hi = PTE_FLAGS e := by
      unfold copiedPerm
      rw [atLeaf]
    have emptyHi : t₀.pte (hi * PGSIZE) = none := empty hi (Nat.zero_le hi) inside
    have unmapped : t.pte (hi * PGSIZE) = none := by
      rw [growing.kept _ (by rw [index]; omega)]
      exact emptyHi
    have leafy : ∀ p, 0 ≤ p → p < hi → LeafPerm (copiedPerm old p) := fun p _ before =>
      leafPerm_copiedPerm leaves (by omega)
    have emptyBefore : ∀ p, 0 ≤ p → p < hi → t₀.pte (p * PGSIZE) = none := fun p low before =>
      empty p low (by omega)
    have undoBelow : hi * PGSIZE ≤ TRAPFRAME := by omega
    obtain ⟨free, layout⟩ := growing.layout
    rw [uvmcopyLoop, if_pos more, walked]
    simp only [atLeaf, valid, if_false]
    rcases layout.take with ⟨handed, -⟩ | ⟨rest, -, nonzero, fresh, grown, layout₁⟩
    · obtain ⟨s', t', undo, grew⟩ := uvmcopyUndo_spec positive growing leafy undoBelow emptyBefore mem
      simp only [handed, if_true, undo]
      exact ⟨s', mem, t', -1, rfl, .inr ⟨rfl, grew, filled.frame⟩⟩
    rcases taken : Kalloc.take s with ⟨s₁, page⟩
    simp only [taken] at nonzero fresh grown layout₁ ⊢
    rw [if_neg nonzero, source]
    have owns₁ : Owns s₁ t := by
      unfold Owns
      rw [grown]
      exact growing.owns.cons page
    have isPage := layout₁.page (.inr (by rw [grown]; exact List.mem_cons_self))
    obtain ⟨aligned, small⟩ := page_of_pages isPage
    obtain ⟨s₂, t₂, stored, grew, reached, mapped⟩ :=
      mappages_page layout₁ owns₁ (Nat.mul_mod_left hi PGSIZE) below unmapped page (PTE_FLAGS e)
    simp only [mapped]
    cases stored with
    | true =>
      have leafyHi := leafPerm_copiedPerm leaves inside
      have growing' := growing.map (Nat.zero_le hi) leafyHi fresh grown small aligned grew (reached rfl)
        (next.trans room) emptyHi
      rw [perm] at growing' leafyHi
      have named : ∀ e', (t₂.setLeaf hi (leafPte page (PTE_FLAGS e))).pte (hi * PGSIZE) = some e' → PTE2PA e' = page := by
        intro e' found'
        have leaf' := pte_setLeaf_valid below (reached rfl) (leafPte_valid small leafyHi.1)
        rw [index, found'] at leaf'
        cases leaf'
        exact PTE2PA_leafPte aligned small leafyHi.1
      have filled' := filled.write layout growing.owns growing.grown fresh isPage (length_copiedPage ..)
        (next.trans room) (fun p _ before => by
          rw [pte_setLeaf_of_ne (by rw [Nat.mul_div_cancel p (by decide)]; omega), grew.pte]) named
      rw [index]
      simp only [if_true, ne_eq, not_true_eq_false, if_false]
      rw [show hi * PGSIZE + PGSIZE = (hi + 1) * PGSIZE by rw [Nat.succ_mul]]
      exact ih (hi + 1) s₂ _ _ (by omega) (by omega) growing' filled'
    | false =>
      obtain ⟨s₃, released, growing₃⟩ := growing.unwind positive fresh grown grew
      obtain ⟨s', t', undo, grew'⟩ := uvmcopyUndo_spec positive growing₃ leafy undoBelow emptyBefore
        (Flat.write mem page (copiedPage mem₀ old hi))
      simp only [Bool.false_eq_true, if_false, ne_eq, Int.reduceNeg, released, undo]
      exact ⟨s', _, t', -1, rfl, .inr ⟨rfl, grew', filled.frame.write (fun before => fresh (growing.grown _ before))
        isPage le_rfl (by rw [length_copiedPage])⟩⟩

end CopyLoop

/-- `uvmcopy(old, new, sz)` where `old` maps a leaf at every page below
`PGROUNDUP(sz)` and `new` maps none there: it does not panic, and returns 0
with every page copied to a fresh page with the parent's flags, or -1 with
`new` as it was but for tables and every page it took given back. -/
theorem uvmcopy_spec {kernelEnd : Nat} (positive : 0 < kernelEnd) {s : Kalloc.Phys} {free : List Nat}
    (layout : Kalloc.Layout kernelEnd s free) {old new : Radix} (parent : Owns s old) (owns : Owns s new) {sz : Nat}
    (room : PGROUNDUP sz ≤ TRAPFRAME) (leaves : Leaves old 0 (PGROUNDUP sz / PGSIZE))
    (empty : ∀ p, p < PGROUNDUP sz / PGSIZE → new.pte (p * PGSIZE) = none) (mem : Nat → UInt8) :
    ∃ s' mem' t' r, uvmcopy kernelEnd s mem old new sz = .ok (s', mem', t', r) ∧
      (r = 0 ∧ Growing kernelEnd s new (copiedPerm old) 0 s' t' (PGROUNDUP sz / PGSIZE) ∧
          Filled kernelEnd s mem (copiedPage mem old) 0 t' (PGROUNDUP sz / PGSIZE) mem' ∨
        r = -1 ∧ Grew kernelEnd s new s' t' ∧ FreshWrites kernelEnd s mem mem') := by
  obtain ⟨s', mem', t', r, loop, result⟩ := uvmcopyLoop_spec positive layout parent room leaves
    (fun p _ inside => empty p inside) _ 0 s new mem rfl (Nat.zero_le _) (.start layout owns 0) (.start 0)
  rw [Nat.zero_mul] at loop
  exact ⟨s', mem', t', r, loop, result⟩

end Xv6.Uvm
