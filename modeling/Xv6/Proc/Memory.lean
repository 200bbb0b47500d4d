import Xv6.Mem.Uvm

/-! The memory of a process (`kernel/proc.c`: `proc_pagetable`, `growproc`,
`proc_freepagetable`). `Shape` says what a process of size `sz` has mapped
below `TRAPFRAME`, and `Image` adds the trampoline and trapframe pages at the
top; `growproc` keeps both for every `n`. `Ledger` keeps the account of the
pages `kalloc` handed out: those handed out before the process, and those its
page table holds. Over the whole life of a process, from `proc_pagetable`
through any calls of `sbrk` to `proc_freepagetable`, nothing panics and every
page the page table took goes back. -/
namespace Xv6.Uvm

open Vm

/-- `growproc(n)` of a process whose `p->sz` is `size`: `sz` is a `uint`, and
`sz + n` is `uint` arithmetic. The new `p->sz` and 0, or -1 with `p->sz` as it was. -/
def growproc (kernelEnd : Nat) (s : Kalloc.Phys) (mem : Nat → UInt8) (t : Radix) (size : Nat) (n : Int32) :
    Except String (Kalloc.Phys × (Nat → UInt8) × Radix × Nat × Int) :=
  let sz : UInt32 := size.toUInt32
  if 0 < n then
    match uvmalloc kernelEnd s mem t sz.toNat (sz + n.toUInt32).toNat with
    | .error e => .error e
    | .ok (s, mem, t, r) => if r.toUInt32 = 0 then .ok (s, mem, t, size, -1) else .ok (s, mem, t, r.toUInt32.toNat, 0)
  else if n < 0 then
    match uvmdealloc kernelEnd s t sz.toNat (sz + n.toUInt32).toNat with
    | .error e => .error e
    | .ok (s, t, r) => .ok (s, mem, t, r.toUInt32.toNat, 0)
  else .ok (s, mem, t, sz.toNat, 0)

/-- `proc_pagetable(p)`, with `trampoline` the address of the trampoline code
and `trapframe` the page `p->trapframe`: the page table, or `none` for the 0
it returns. -/
def procPagetable (kernelEnd : Nat) (s : Kalloc.Phys) (trampoline trapframe : Nat) :
    Except String (Kalloc.Phys × Option Radix) :=
  match uvmcreate s with
  | (s, none) => .ok (s, none)
  | (s, some t) =>
    match mappages s t TRAMPOLINE PGSIZE trampoline (PTE_R ||| PTE_X) with
    | .error e => .error e
    | .ok (s, t, r) =>
      if r < 0 then
        match uvmfree kernelEnd s t 0 with
        | .error e => .error e
        | .ok s => .ok (s, none)
      else
        match mappages s t TRAPFRAME PGSIZE trapframe (PTE_R ||| PTE_W) with
        | .error e => .error e
        | .ok (s, t, r) =>
          if r < 0 then
            match uvmunmap kernelEnd s t TRAMPOLINE 1 false with
            | .error e => .error e
            | .ok (s, t) =>
              match uvmfree kernelEnd s t 0 with
              | .error e => .error e
              | .ok s => .ok (s, none)
          else .ok (s, some t)

/-- A call of `sbrk(n)`: `growproc(n)` on a process's memory, and the size it leaves. -/
def growTurn (kernelEnd : Nat) (state : Kalloc.Phys × (Nat → UInt8) × Radix × Nat) (n : Int32) :
    Except String (Kalloc.Phys × (Nat → UInt8) × Radix × Nat) :=
  match growproc kernelEnd state.1 state.2.1 state.2.2.1 state.2.2.2 n with
  | .error e => .error e
  | .ok (s, mem, t, sz, _) => .ok (s, mem, t, sz)

/-- `proc_freepagetable(pagetable, sz)`. -/
def procFreepagetable (kernelEnd : Nat) (s : Kalloc.Phys) (t : Radix) (sz : Nat) : Except String Kalloc.Phys :=
  match uvmunmap kernelEnd s t TRAMPOLINE 1 false with
  | .error e => .error e
  | .ok (s, t) =>
    match uvmunmap kernelEnd s t TRAPFRAME 1 false with
    | .error e => .error e
    | .ok (s, t) => uvmfree kernelEnd s t sz

/-- The life of a process's memory: `proc_pagetable` when `allocproc` makes
the process, `growproc(n)` for each `sbrk(n)` it calls, and
`proc_freepagetable` when `freeproc` ends it; what the allocator is left with. -/
def life (kernelEnd : Nat) (s : Kalloc.Phys) (mem : Nat → UInt8) (trampoline trapframe : Nat) (calls : List Int32) :
    Except String Kalloc.Phys :=
  match procPagetable kernelEnd s trampoline trapframe with
  | .error e => .error e
  | .ok (s, none) => .ok s
  | .ok (s, some t) =>
    match calls.foldlM (growTurn kernelEnd) (s, mem, t, 0) with
    | .error e => .error e
    | .ok (s, _, t, sz) => procFreepagetable kernelEnd s t sz

/-! ## The shape of a process's user memory -/

/-- A process of size `sz`: below `TRAPFRAME` the pages mapped are exactly
those of `[0, PGROUNDUP(sz))`, each by a leaf PTE, to pages the page table
holds alone; at most one of them, `exec`'s guard page, is mapped without
`PTE_U`. -/
structure Shape (kernelEnd : Nat) (s : Kalloc.Phys) (t : Radix) (sz : Nat) : Prop where
  layout : ∃ free, Kalloc.Layout kernelEnd s free
  owns : Owns s t
  mapped : ∀ p, p * PGSIZE < TRAPFRAME → ((t.pte (p * PGSIZE)).isSome ↔ p * PGSIZE < sz)
  leaves : ∀ p e, p * PGSIZE < TRAPFRAME → t.pte (p * PGSIZE) = some e → PTE_FLAGS e ≠ PTE_V
  guard : ∀ p q e f, p * PGSIZE < TRAPFRAME → q * PGSIZE < TRAPFRAME → t.pte (p * PGSIZE) = some e →
    t.pte (q * PGSIZE) = some f → e &&& PTE_U = 0 → f &&& PTE_U = 0 → p = q

theorem length_allocated {kernelEnd : Nat} {s : Kalloc.Phys} {free : List Nat} (layout : Kalloc.Layout kernelEnd s free) :
    s.allocated.length ≤ 557056 := by
  have total := layout.covers.length_eq
  rw [List.length_append] at total
  have pages : (Kalloc.pages kernelEnd).length ≤ 557056 := by
    rw [Kalloc.pages, List.length_range', Kalloc.PHYSTOP_eq]
    unfold Kalloc.PGSIZE
    omega
  omega

/-- A process's size is at most the memory there is: below `2^32`, so that
`growproc`'s `uint sz = p->sz` loses nothing. -/
theorem Shape.size_lt {kernelEnd : Nat} {s : Kalloc.Phys} {t : Radix} {sz : Nat} (shape : Shape kernelEnd s t sz) :
    sz ≤ 557056 * PGSIZE := by
  obtain ⟨free, layout⟩ := shape.layout
  by_contra large
  have full : ∀ x ∈ (Finset.range 557057).image Slot.user, (t.holds x).isSome := by
    intro x member
    obtain ⟨p, below, rfl⟩ := Finset.mem_image.mp member
    have inside : p * PGSIZE < TRAPFRAME := by
      rw [Finset.mem_range] at below
      unfold TRAPFRAME TRAMPOLINE MAXVA PGSIZE
      omega
    obtain ⟨e, found⟩ := Option.isSome_iff_exists.mp ((shape.mapped p inside).mpr (by
      rw [Finset.mem_range] at below
      unfold PGSIZE at large ⊢
      omega))
    rw [holds_user inside found]
    rfl
  have bound := shape.owns.card_le _ full
  rw [Finset.card_image_of_injective _ (fun a b same => by cases same; rfl), Finset.card_range] at bound
  have := length_allocated layout
  omega

section ShapeSteps

variable {kernelEnd : Nat} {s s' : Kalloc.Phys} {t t' : Radix} {sz : Nat}

theorem Shape.congr (shape : Shape kernelEnd s t sz) (layout : ∃ free, Kalloc.Layout kernelEnd s' free)
    (owns : Owns s' t') (pte : t'.pte = t.pte) : Shape kernelEnd s' t' sz := by
  have same : ∀ va, t'.pte va = t.pte va := fun va => congrFun pte va
  refine ⟨layout, owns, fun p inside => ?_, fun p e inside found => shape.leaves p e inside ((same _).symm.trans found),
    fun p q e f insideP insideQ foundP foundQ =>
      shape.guard p q e f insideP insideQ ((same _).symm.trans foundP) ((same _).symm.trans foundQ)⟩
  rw [same]
  exact shape.mapped p inside

theorem Shape.mono (shape : Shape kernelEnd s t sz) (layout : ∃ free, Kalloc.Layout kernelEnd s' free)
    (grown : ∀ pa ∈ s.allocated, pa ∈ s'.allocated) : Shape kernelEnd s' t sz :=
  shape.congr layout (shape.owns.mono (fun _ _ held => held) grown) rfl

theorem Shape.unmapped (shape : Shape kernelEnd s t sz) {p : Nat} (above : sz ≤ p * PGSIZE)
    (inside : p * PGSIZE < TRAPFRAME) : t.pte (p * PGSIZE) = none := by
  cases found : t.pte (p * PGSIZE) with
  | none => rfl
  | some e =>
    have := (shape.mapped p inside).mp (by rw [found]; rfl)
    omega

theorem Shape.trapframe (shape : Shape kernelEnd s t sz) : PGROUNDUP sz ≤ TRAPFRAME := by
  have small := shape.size_lt
  have close := pgroundup_lt sz
  unfold TRAPFRAME TRAMPOLINE MAXVA PGSIZE at *
  omega

/-- The pages of a process from `PGROUNDUP(lo)` on are leaves. -/
theorem Shape.leaves_from (shape : Shape kernelEnd s t sz) (lo : Nat) :
    Leaves t (PGROUNDUP lo / PGSIZE) ((PGROUNDUP sz - PGROUNDUP lo) / PGSIZE) := by
  intro p low high
  have start : PGROUNDUP lo / PGSIZE * PGSIZE = PGROUNDUP lo :=
    Nat.div_mul_cancel (Nat.dvd_of_mod_eq_zero (pgroundup_aligned lo))
  have within : p * PGSIZE < PGROUNDUP sz := by
    have round := pgroundup_aligned sz
    have := Nat.mul_le_mul_right PGSIZE low
    rw [start] at this
    unfold PGSIZE at *
    omega
  have inside : p * PGSIZE < TRAPFRAME := Nat.lt_of_lt_of_le within shape.trapframe
  obtain ⟨e, found⟩ := Option.isSome_iff_exists.mp ((shape.mapped p inside).mpr ((lt_pgroundup_iff sz p).mp within))
  exact ⟨e, found, shape.leaves p e inside found⟩

theorem Shape.leaves_all (shape : Shape kernelEnd s t sz) : Leaves t 0 (PGROUNDUP sz / PGSIZE) := by
  have all := shape.leaves_from 0
  rwa [pgroundup_of_aligned (Nat.zero_mod _), Nat.zero_div, Nat.sub_zero] at all

theorem leafPte_user {pa : Nat} (small : pa < 2 ^ 64) :
    leafPte pa (PTE_W ||| PTE_X ||| PTE_R ||| PTE_U) &&& PTE_U ≠ 0 := by
  rw [and_flags _ _ (by decide), flags_leafPte small (by decide)]
  decide

/-- `uvmalloc` from `sz` to `newsz` that returned `newsz`: the shape of size `newsz`. -/
theorem Shape.grow (shape : Shape kernelEnd s t sz) {newsz : Nat} (le : sz ≤ newsz)
    (growing : Growing kernelEnd s t (fun _ => PTE_W ||| PTE_X ||| PTE_R ||| PTE_U) (PGROUNDUP sz / PGSIZE) s' t'
      (PGROUNDUP newsz / PGSIZE)) :
    Shape kernelEnd s' t' newsz := by
  have new : ∀ p, (PGROUNDUP sz / PGSIZE ≤ p ∧ p < PGROUNDUP newsz / PGSIZE) ↔ (sz ≤ p * PGSIZE ∧ p * PGSIZE < newsz) := by
    intro p
    have roundSz := pgroundup_aligned sz
    have roundNew := pgroundup_aligned newsz
    rw [← lt_pgroundup_iff newsz p]
    have := lt_pgroundup_iff sz p
    unfold PGSIZE at *
    omega
  have index : ∀ p, p * PGSIZE / PGSIZE = p := fun p => Nat.mul_div_cancel p (by decide)
  have kept : ∀ p, ¬ (sz ≤ p * PGSIZE ∧ p * PGSIZE < newsz) → t'.pte (p * PGSIZE) = t.pte (p * PGSIZE) :=
    fun p outside => growing.kept _ (by rw [index, new]; exact outside)
  refine ⟨growing.layout, growing.owns, fun p inside => ?_, fun p e inside found => ?_, fun p q e f insideP insideQ foundP foundQ noP noQ => ?_⟩
  · by_cases fresh : sz ≤ p * PGSIZE ∧ p * PGSIZE < newsz
    · obtain ⟨pa, -, found⟩ := growing.mapped p ((new p).mpr fresh).1 ((new p).mpr fresh).2
      rw [found]
      exact ⟨fun _ => fresh.2, fun _ => rfl⟩
    · rw [kept p fresh, shape.mapped p inside]
      omega
  · by_cases fresh : sz ≤ p * PGSIZE ∧ p * PGSIZE < newsz
    · obtain ⟨pa, small, stored⟩ := growing.mapped p ((new p).mpr fresh).1 ((new p).mpr fresh).2
      rw [stored] at found
      cases found
      rw [flags_leafPte small (by decide)]
      decide
    · rw [kept p fresh] at found
      exact shape.leaves p e inside found
  · have old : ∀ r g, t'.pte (r * PGSIZE) = some g → g &&& PTE_U = 0 → t.pte (r * PGSIZE) = some g := by
      intro r g found none
      by_cases fresh : sz ≤ r * PGSIZE ∧ r * PGSIZE < newsz
      · obtain ⟨pa, small, stored⟩ := growing.mapped r ((new r).mpr fresh).1 ((new r).mpr fresh).2
        rw [stored] at found
        cases found
        exact absurd none (leafPte_user small)
      · rwa [kept r fresh] at found
    exact shape.guard p q e f insideP insideQ (old p e foundP noP) (old q f foundQ noQ) noP noQ

/-- `uvmdealloc` from `sz` down to `newsz`: the shape of size `newsz`. -/
theorem Shape.shrink (shape : Shape kernelEnd s t sz) {newsz : Nat} (lt : newsz < sz)
    (unmapped : Unmapped kernelEnd s t s' t' (PGROUNDUP newsz / PGSIZE) ((PGROUNDUP sz - PGROUNDUP newsz) / PGSIZE)) :
    Shape kernelEnd s' t' newsz := by
  have gone : ∀ p, (PGROUNDUP newsz / PGSIZE ≤ p ∧ p < PGROUNDUP newsz / PGSIZE + (PGROUNDUP sz - PGROUNDUP newsz) / PGSIZE) ↔
      (newsz ≤ p * PGSIZE ∧ p * PGSIZE < sz) := by
    intro p
    have roundSz := pgroundup_aligned sz
    have roundNew := pgroundup_aligned newsz
    have mono := pgroundup_mono (Nat.le_of_lt lt)
    rw [← lt_pgroundup_iff sz p]
    have := lt_pgroundup_iff newsz p
    unfold PGSIZE at *
    omega
  have index : ∀ p, p * PGSIZE / PGSIZE = p := fun p => Nat.mul_div_cancel p (by decide)
  have pte : ∀ p, t'.pte (p * PGSIZE) = if newsz ≤ p * PGSIZE ∧ p * PGSIZE < sz then none else t.pte (p * PGSIZE) := by
    intro p
    rw [unmapped.pte, index, if_congr (gone p) rfl rfl]
  have old : ∀ p e, t'.pte (p * PGSIZE) = some e → t.pte (p * PGSIZE) = some e := by
    intro p e found
    rw [pte] at found
    split_ifs at found
    exact found
  refine ⟨unmapped.layout, unmapped.owns, fun p inside => ?_, fun p e inside found => shape.leaves p e inside (old p e found),
    fun p q e f insideP insideQ foundP foundQ => shape.guard p q e f insideP insideQ (old p e foundP) (old q f foundQ)⟩
  rw [pte]
  split_ifs with dropped
  · exact ⟨fun mapped => (by cases mapped), fun below => absurd below (by omega)⟩
  · rw [shape.mapped p inside]
    omega

end ShapeSteps

/-! ## What the allocator has handed out -/

/-- The pages `kalloc` has handed out and not had back are those of `base`,
handed out before, and those the page table holds, and these are apart. -/
structure Ledger (base : List Nat) (s : Kalloc.Phys) (t : Radix) : Prop where
  allocated : ∀ pa, pa ∈ s.allocated ↔ pa ∈ base ∨ ∃ x, t.holds x = some pa
  apart : ∀ x pa, t.holds x = some pa → pa ∉ base

/-- What `uvmalloc` and `uvmdealloc` leave alone: the PTEs from `TRAPFRAME` up
and where level-1 tables may hang; and the pages handed out change just as the
pages the page table holds do. -/
structure Resized (s : Kalloc.Phys) (t : Radix) (s' : Kalloc.Phys) (t' : Radix) : Prop where
  top : ∀ va, TRAPFRAME ≤ va → t'.pte va = t.pte va
  mids : ∀ i, (t'.mid i).isSome → (t.mid i).isSome ∨ i < 2 ^ 8
  ledger : ∀ base, Ledger base s t → Ledger base s' t'

section Ledger

variable {kernelEnd : Nat} {base : List Nat} {s s' : Kalloc.Phys} {t t' : Radix}

theorem Ledger.congr (ledger : Ledger base s t) (same : ∀ x, t'.holds x = t.holds x) : Ledger base s t' :=
  ⟨fun pa => by simp only [ledger.allocated pa, same], fun x pa held => ledger.apart x pa (by rwa [same] at held)⟩

/-- An allocator and a page table that grew by pages `kalloc` handed out. -/
theorem Ledger.extend (ledger : Ledger base s t) (owns : Owns s' t')
    (grown : ∀ pa ∈ s.allocated, pa ∈ s'.allocated)
    (taken : ∀ pa ∈ s'.allocated, pa ∈ s.allocated ∨ ∃ x, t'.holds x = some pa)
    (kept : ∀ x pa, t.holds x = some pa → ∃ y, t'.holds y = some pa)
    (fresh : ∀ x pa, t'.holds x = some pa → t.holds x = some pa ∨ pa ∉ s.allocated) : Ledger base s' t' := by
  refine ⟨fun pa => ⟨fun mem => ?_, ?_⟩, fun x pa held inBase => ?_⟩
  · rcases taken pa mem with old | new
    · rcases (ledger.allocated pa).mp old with inBase | ⟨x, held⟩
      · exact .inl inBase
      · exact .inr (kept x pa held)
    · exact .inr new
  · rintro (inBase | ⟨x, held⟩)
    · exact grown pa ((ledger.allocated pa).mpr (.inl inBase))
    · exact owns.mem x pa held
  · rcases fresh x pa held with old | new
    · exact ledger.apart x pa old inBase
    · exact new ((ledger.allocated pa).mpr (.inl inBase))

theorem Ledger.grew (ledger : Ledger base s t) (grew : Grew kernelEnd s t s' t') : Ledger base s' t' :=
  ledger.extend grew.owns grew.grown (fun pa mem => (grew.taken pa mem).imp_right fun ⟨x, _, held⟩ => ⟨x, held⟩)
    (fun x pa held => ⟨x, grew.kept x pa held⟩) grew.fresh

/-- `uvmalloc` over pages the page table did not map. -/
theorem Ledger.growing {perm : Nat → UInt64} {lo hi : Nat} (ledger : Ledger base s t)
    (growing : Growing kernelEnd s t perm lo s' t' hi)
    (empty : ∀ p, lo ≤ p → p < hi → t.holds (.user p) = none) : Ledger base s' t' := by
  refine ledger.extend growing.owns growing.grown
    (fun pa mem => (growing.taken pa mem).imp_right fun ⟨x, held, _⟩ => ⟨x, held⟩) (fun x pa held => ⟨x, ?_⟩)
    growing.fresh
  cases x with
  | user p =>
    have outside : ¬ (lo ≤ p ∧ p < hi) := fun inside => by
      rw [empty p inside.1 inside.2] at held
      cases held
    have index : p * PGSIZE / PGSIZE = p := Nat.mul_div_cancel p (by decide)
    simp only [Radix.holds] at held ⊢
    rwa [growing.kept _ (by rw [index]; exact outside)]
  | _ => exact growing.tables _ pa rfl held

/-- `uvmunmap` freeing the pages it unmaps. -/
theorem Ledger.unmapped {lo n : Nat} (ledger : Ledger base s t) (owns : Owns s t)
    (unmapped : Unmapped kernelEnd s t s' t' lo n) : Ledger base s' t' := by
  have index : ∀ p, p * PGSIZE / PGSIZE = p := fun p => Nat.mul_div_cancel p (by decide)
  have users : ∀ p, t'.holds (.user p) = if lo ≤ p ∧ p < lo + n then none else t.holds (.user p) := by
    intro p
    simp only [Radix.holds, unmapped.pte, index]
    split_ifs <;> rfl
  have sub : ∀ x pa, t'.holds x = some pa → t.holds x = some pa := by
    intro x pa held
    by_cases table : x.isTable
    · rwa [holds_table_congr unmapped.root unmapped.mid unmapped.low table] at held
    cases x with
    | user p =>
      rw [users p] at held
      split_ifs at held
      exact held
    | _ => exact absurd rfl table
  refine ⟨fun pa => ?_, fun x pa held => ledger.apart x pa (sub x pa held)⟩
  rw [unmapped.freed pa, ledger.allocated pa]
  constructor
  · rintro ⟨inBase | ⟨x, held⟩, never⟩
    · exact .inl inBase
    · refine .inr ⟨x, ?_⟩
      by_cases table : x.isTable
      · rwa [holds_table_congr unmapped.root unmapped.mid unmapped.low table]
      cases x with
      | user p =>
        rw [users p, if_neg fun inside => never p inside.1 inside.2 held]
        exact held
      | _ => exact absurd rfl table
  · rintro (inBase | ⟨x, held⟩)
    · exact ⟨.inl inBase, fun p _ _ heldP => ledger.apart _ pa heldP inBase⟩
    · refine ⟨.inr ⟨x, sub x pa held⟩, fun p low high heldP => ?_⟩
      have same := owns.inj x (.user p) pa (sub x pa held) heldP
      rw [same, users p, if_pos ⟨low, high⟩] at held
      cases held

theorem Ledger.released (ledger : Ledger base s t) (freed : Freed kernelEnd t s s' fun _ => True) :
    ∀ pa, pa ∈ s'.allocated ↔ pa ∈ base := by
  intro pa
  rw [freed.freed pa, ledger.allocated pa]
  constructor
  · rintro ⟨inBase | ⟨x, held⟩, never⟩
    · exact inBase
    · exact absurd held (never x trivial)
  · intro inBase
    exact ⟨.inl inBase, fun x _ held => ledger.apart x pa held inBase⟩

/-- A page of `base` that no slot holds goes back with `kfree`. -/
theorem Ledger.erase {a : Nat} (ledger : Ledger (a :: base) s t) (notBase : a ∉ base) (nodup : s.allocated.Nodup)
    {s' : Kalloc.Phys} (erased : s'.allocated = s.allocated.erase a) : Ledger base s' t := by
  refine ⟨fun pa => ?_, fun x pa held inBase => ledger.apart x pa held (List.mem_cons_of_mem _ inBase)⟩
  rw [erased, nodup.mem_erase_iff, ledger.allocated pa, List.mem_cons]
  constructor
  · rintro ⟨other, (same | inBase) | heldPa⟩
    · exact absurd same other
    · exact .inl inBase
    · exact .inr heldPa
  · rintro (inBase | ⟨x, held⟩)
    · exact ⟨fun same => notBase (same ▸ inBase), .inl (.inr inBase)⟩
    · exact ⟨fun same => ledger.apart x pa held (same ▸ List.mem_cons_self), .inr ⟨x, held⟩⟩

theorem Resized.refl (s : Kalloc.Phys) (t : Radix) : Resized s t s t :=
  ⟨fun _ _ => rfl, fun _ present => .inl present, fun _ ledger => ledger⟩

theorem Resized.tree (resized : Resized s t s' t') (tree : t.Tree) : t'.Tree := fun i present => by
  rcases resized.mids i present with old | root
  · exact tree i old
  · exact root

theorem Grew.resized (grew : Grew kernelEnd s t s' t') : Resized s t s' t' :=
  ⟨fun va _ => by rw [grew.pte], grew.mids, fun _ ledger => ledger.grew grew⟩

theorem Growing.resized {perm : Nat → UInt64} {lo hi : Nat} (growing : Growing kernelEnd s t perm lo s' t' hi)
    (below : hi * PGSIZE ≤ TRAPFRAME)
    (empty : ∀ p, lo ≤ p → p < hi → t.holds (.user p) = none) : Resized s t s' t' := by
  refine ⟨fun va above => growing.kept va fun inside => ?_, growing.mids, fun _ ledger => ledger.growing growing empty⟩
  have : va / PGSIZE * PGSIZE ≤ va := Nat.div_mul_le_self va PGSIZE
  have : (va / PGSIZE + 1) * PGSIZE ≤ hi * PGSIZE := Nat.mul_le_mul_right _ inside.2
  rw [Nat.succ_mul] at this
  have := Nat.lt_div_mul_add (a := va) (show 0 < PGSIZE by decide)
  omega

theorem Unmapped.resized {lo n : Nat} (owns : Owns s t) (unmapped : Unmapped kernelEnd s t s' t' lo n)
    (below : ∀ p, lo ≤ p → p < lo + n → p * PGSIZE < TRAPFRAME) : Resized s t s' t' := by
  refine ⟨fun va above => ?_, fun i present => .inl (by rwa [unmapped.mid] at present),
    fun _ ledger => ledger.unmapped owns unmapped⟩
  rw [unmapped.pte, if_neg fun inside => ?_]
  have low := below _ inside.1 inside.2
  have : TRAPFRAME / PGSIZE ≤ va / PGSIZE := Nat.div_le_div_right above
  have : TRAPFRAME / PGSIZE * PGSIZE ≤ va / PGSIZE * PGSIZE := Nat.mul_le_mul_right _ this
  unfold TRAPFRAME TRAMPOLINE MAXVA PGSIZE at *
  omega

end Ledger

/-! ## What the process reads -/

/-- What a process resized from `sz` to `sz'` reads below `sz'`: through the
new page table, the byte it read through the old one where the old image had
its pages, below `PGROUNDUP(sz)`, and 0 above. -/
def Contents (t : Radix) (mem : Nat → UInt8) (sz : Nat) (t' : Radix) (mem' : Nat → UInt8) (sz' : Nat) : Prop :=
  ∀ va, va < sz' → mem' (translate t'.toPageTable va) = if va < PGROUNDUP sz then mem (translate t.toPageTable va) else 0

section Contents

variable {kernelEnd : Nat} {s : Kalloc.Phys} {t t' : Radix} {mem mem' : Nat → UInt8} {sz sz' : Nat}

/-- A byte a process reads is on a page its page table holds or on page 0,
which `kalloc` never hands out: it is on no other page of `kalloc`. -/
theorem translate_apart (positive : 0 < kernelEnd) {free : List Nat} (layout : Kalloc.Layout kernelEnd s free)
    (owns : Owns s t) {page : Nat} (isPage : page ∈ Kalloc.pages kernelEnd) (unheld : ∀ x, t.holds x ≠ some page)
    {va : Nat} (inside : va < TRAPFRAME) :
    translate t.toPageTable va < page ∨ page + PGSIZE ≤ translate t.toPageTable va := by
  obtain ⟨aligned, least, -⟩ := Kalloc.mem_pages isPage
  have roundUp := Kalloc.le_pgroundup kernelEnd
  have offset := offset_lt va
  unfold Kalloc.PGSIZE at aligned
  rcases translate_cases t va with small | ⟨e, found, onPage⟩
  · left
    unfold PGSIZE at small
    omega
  · have held := holds_user (Nat.lt_of_le_of_lt (le_pgrounddown va) inside) found
    have alignedE := (page_of_held layout (owns.mem _ _ held)).1
    have other : PTE2PA e ≠ page := fun same => unheld _ (same ▸ held)
    rw [onPage]
    unfold PGSIZE at *
    omega

theorem FreshWrites.translate (positive : 0 < kernelEnd) {free : List Nat} (layout : Kalloc.Layout kernelEnd s free)
    (owns : Owns s t) (frame : FreshWrites kernelEnd s mem mem') {va : Nat} (inside : va < TRAPFRAME) :
    mem' (translate t.toPageTable va) = mem (translate t.toPageTable va) := by
  by_contra changed
  obtain ⟨pa, isPage, fresh, low, high⟩ := frame _ changed
  have apart := translate_apart positive layout owns isPage (fun x held => fresh (owns.mem x pa held)) inside
  omega

theorem Contents.of_kept (positive : 0 < kernelEnd) {free : List Nat} (layout : Kalloc.Layout kernelEnd s free)
    (owns : Owns s t) (frame : FreshWrites kernelEnd s mem mem') (within : sz' ≤ PGROUNDUP sz) (below : sz' ≤ TRAPFRAME)
    (kept : ∀ va, va < sz' → t'.pte (PGROUNDDOWN va) = t.pte (PGROUNDDOWN va)) : Contents t mem sz t' mem' sz' := by
  intro va inside
  rw [if_pos (by omega), translate_congr (kept va inside)]
  exact frame.translate positive layout owns (by omega)

theorem Contents.write (positive : 0 < kernelEnd) {free : List Nat} (layout : Kalloc.Layout kernelEnd s free)
    (owns : Owns s t') {page : Nat} (isPage : page ∈ Kalloc.pages kernelEnd) (unheld : ∀ x, t'.holds x ≠ some page)
    (below : sz' ≤ TRAPFRAME) (contents : Contents t mem sz t' mem' sz') {a : Nat} {cells : List UInt8}
    (within : page ≤ a) (fits : a + cells.length ≤ page + PGSIZE) :
    Contents t mem sz t' (Flat.write mem' a cells) sz' := by
  intro va inside
  have apart := translate_apart positive layout owns isPage unheld (Nat.lt_of_lt_of_le inside below)
  rw [Flat.write_outside _ _ _ (by omega)]
  exact contents va inside

theorem Shape.contents (positive : 0 < kernelEnd) (shape : Shape kernelEnd s t sz)
    (frame : FreshWrites kernelEnd s mem mem') : Contents t mem sz t mem' sz := by
  obtain ⟨free, layout⟩ := shape.layout
  have least := le_pgroundup sz
  exact .of_kept positive layout shape.owns frame least (least.trans shape.trapframe) fun _ _ => rfl

/-- What `uvmalloc`'s loop leaves from `PGROUNDUP(sz)` to `PGROUNDUP(sz')`:
pages mapped for the user and zeroed, and only fresh pages written. -/
theorem Contents.of_growing {s' : Kalloc.Phys} (positive : 0 < kernelEnd) {free : List Nat}
    (layout : Kalloc.Layout kernelEnd s free) (owns : Owns s t)
    (growing : Growing kernelEnd s t (fun _ => PTE_W ||| PTE_X ||| PTE_R ||| PTE_U) (PGROUNDUP sz / PGSIZE) s' t'
      (PGROUNDUP sz' / PGSIZE))
    (filled : Filled kernelEnd s mem (fun _ => List.replicate PGSIZE 0) (PGROUNDUP sz / PGSIZE) t'
      (PGROUNDUP sz' / PGSIZE) mem')
    (room : PGROUNDUP sz' ≤ TRAPFRAME) : Contents t mem sz t' mem' sz' := by
  intro va inside
  have round := pgroundup_aligned sz
  have round' := pgroundup_aligned sz'
  have least := le_pgroundup sz'
  by_cases old : va < PGROUNDUP sz
  · rw [if_pos old]
    have kept : t'.pte (PGROUNDDOWN va) = t.pte (PGROUNDDOWN va) := growing.kept _ (by
      unfold PGROUNDDOWN PGSIZE at *
      omega)
    rw [translate_congr kept]
    exact filled.frame.translate positive layout owns (by omega)
  · rw [if_neg old]
    have low : PGROUNDUP sz / PGSIZE ≤ va / PGSIZE := Nat.div_le_div_right (by omega)
    have high : va / PGSIZE < PGROUNDUP sz' / PGSIZE := by
      unfold PGSIZE at *
      omega
    obtain ⟨pa, small, found⟩ := growing.mapped (va / PGSIZE) low high
    have found' : t'.pte (PGROUNDDOWN va) = some (leafPte pa (PTE_W ||| PTE_X ||| PTE_R ||| PTE_U)) := found
    rw [translate_of_pte found' (leafPte_user small)]
    exact Flat.cell_of_read_replicate (filled.filled _ low high _ found) (offset_lt va)

/-- The whole image as the process reads it: the old bytes below
`PGROUNDUP(sz)`, zeros above. -/
theorem Contents.loadVirt (contents : Contents t mem sz t' mem' sz') :
    loadVirt t'.toPageTable mem' 0 sz' =
      loadVirt t.toPageTable mem 0 (min sz' (PGROUNDUP sz)) ++ List.replicate (sz' - PGROUNDUP sz) 0 := by
  apply List.ext_getElem (by simp only [loadVirt_length, List.length_append, List.length_replicate]; omega)
  intro k inside _
  simp only [loadVirt_length] at inside
  rw [List.getElem_append]
  simp only [Vm.loadVirt, Flat.getElem_read, zero_add, contents k inside, Flat.length_read, List.getElem_replicate]
  have old : k < min sz' (PGROUNDUP sz) ↔ k < PGROUNDUP sz := by omega
  simp only [dite_eq_ite, old]

theorem Contents.loadVirt_same (contents : Contents t mem sz t' mem' sz) :
    Vm.loadVirt t'.toPageTable mem' 0 sz = Vm.loadVirt t.toPageTable mem 0 sz := by
  have least := le_pgroundup sz
  rw [contents.loadVirt, min_eq_left least, Nat.sub_eq_zero_of_le least, List.replicate_zero, List.append_nil]

end Contents

/-! ## `uvmalloc` and `uvmdealloc` on a process -/

section Resize

variable {kernelEnd : Nat} {s : Kalloc.Phys} {t : Radix} {sz : Nat}

theorem Shape.unheld (shape : Shape kernelEnd s t sz) {p : Nat} (above : PGROUNDUP sz ≤ p * PGSIZE) :
    t.holds (.user p) = none := by
  simp only [Radix.holds]
  split_ifs with inside
  · have := le_pgroundup sz
    rw [shape.unmapped (by omega) inside, Option.map_none]
  · rfl

/-- `uvmalloc` on a process of size `sz`: to a larger `newsz` it returns
`newsz` with the shape of that size, or 0 with every PTE as it was; to a
smaller one it returns `sz` and changes nothing. -/
theorem uvmalloc_shape (positive : 0 < kernelEnd) (shape : Shape kernelEnd s t sz) (mem : Nat → UInt8) {newsz : Nat}
    (room : PGROUNDUP newsz ≤ TRAPFRAME) :
    ∃ s' mem' t' r, uvmalloc kernelEnd s mem t sz newsz = .ok (s', mem', t', r) ∧ Resized s t s' t' ∧
      (newsz < sz → r = sz ∧ s' = s ∧ mem' = mem ∧ t' = t) ∧
      (sz ≤ newsz →
        r = newsz ∧ Shape kernelEnd s' t' newsz ∧ Contents t mem sz t' mem' newsz ∨
          r = 0 ∧ Shape kernelEnd s' t' sz ∧ t'.pte = t.pte ∧ Contents t mem sz t' mem' sz) := by
  obtain ⟨free, layout⟩ := shape.layout
  have empty : ∀ p, PGROUNDUP sz ≤ p * PGSIZE → p * PGSIZE < newsz → t.pte (p * PGSIZE) = none :=
    fun p low high => shape.unmapped ((le_pgroundup sz).trans low)
      (Nat.lt_of_lt_of_le high ((le_pgroundup newsz).trans room))
  obtain ⟨s', mem', t', r, alloc, shrinking, growing⟩ := uvmalloc_spec positive layout shape.owns room empty mem
  by_cases wrap : newsz < sz
  · obtain ⟨sameS, sameMem, sameT, sameR⟩ := shrinking wrap
    subst sameS sameMem sameT
    exact ⟨_, _, _, r, alloc, .refl _ _, fun _ => ⟨sameR, rfl, rfl, rfl⟩, fun le => absurd le (by omega)⟩
  · have start : PGROUNDUP sz / PGSIZE * PGSIZE = PGROUNDUP sz :=
      Nat.div_mul_cancel (Nat.dvd_of_mod_eq_zero (pgroundup_aligned sz))
    have top : PGROUNDUP newsz / PGSIZE * PGSIZE = PGROUNDUP newsz :=
      Nat.div_mul_cancel (Nat.dvd_of_mod_eq_zero (pgroundup_aligned newsz))
    rcases growing (by omega) with ⟨same, grown, filled⟩ | ⟨zero, grew, frame⟩
    · have resized : Resized s t s' t' := grown.resized (by rw [top]; exact room) fun p low _ =>
        shape.unheld (by rw [← start]; exact Nat.mul_le_mul_right _ low)
      exact ⟨s', mem', t', r, alloc, resized, fun lt => absurd lt wrap,
        fun le => .inl ⟨same, shape.grow le grown, .of_growing positive layout shape.owns grown filled room⟩⟩
    · have least := le_pgroundup sz
      have contents : Contents t mem sz t' mem' sz := .of_kept positive layout shape.owns frame least
        (least.trans shape.trapframe) fun va _ => by rw [grew.pte]
      exact ⟨s', mem', t', r, alloc, grew.resized, fun lt => absurd lt wrap,
        fun _ => .inr ⟨zero, shape.congr grew.layout grew.owns grew.pte, grew.pte, contents⟩⟩

/-- `uvmdealloc` on a process of size `sz`: the shape of the size it returns. -/
theorem uvmdealloc_shape (positive : 0 < kernelEnd) (shape : Shape kernelEnd s t sz) (newsz : Nat) :
    ∃ s' t', uvmdealloc kernelEnd s t sz newsz = .ok (s', t', if sz ≤ newsz then sz else newsz) ∧
      Resized s t s' t' ∧ Shape kernelEnd s' t' (if sz ≤ newsz then sz else newsz) ∧
      ∀ mem, Contents t mem sz t' mem (if sz ≤ newsz then sz else newsz) := by
  obtain ⟨free, layout⟩ := shape.layout
  obtain ⟨s', t', dealloc, unmapped⟩ :=
    uvmdealloc_spec positive layout shape.owns sz newsz shape.trapframe (shape.leaves_from newsz)
  have least := le_pgroundup sz
  by_cases wrap : sz ≤ newsz
  · simp only [if_pos wrap] at unmapped dealloc ⊢
    exact ⟨s', t', dealloc, unmapped.resized shape.owns fun p low high => absurd high (by omega),
      shape.congr unmapped.layout unmapped.owns unmapped.pte_of_zero, fun mem =>
        .of_kept positive layout shape.owns (.refl kernelEnd s mem) least (least.trans shape.trapframe) fun va _ => by
          rw [unmapped.pte_of_zero]⟩
  · simp only [if_neg wrap] at unmapped dealloc ⊢
    have roundNew := pgroundup_aligned newsz
    have leastNew := le_pgroundup newsz
    have kept : ∀ va, va < newsz → t'.pte (PGROUNDDOWN va) = t.pte (PGROUNDDOWN va) := fun va below => by
      rw [unmapped.pte, if_neg (by unfold PGROUNDDOWN PGSIZE at *; omega)]
    refine ⟨s', t', dealloc, unmapped.resized shape.owns fun p low high => ?_, shape.shrink (by omega) unmapped,
      fun mem => .of_kept positive layout shape.owns (.refl kernelEnd s mem) (by omega) (by
        have := shape.trapframe
        omega) kept⟩
    have round := pgroundup_aligned sz
    have roundNew := pgroundup_aligned newsz
    have mono := pgroundup_mono (Nat.le_of_not_le wrap)
    have inside : p * PGSIZE < PGROUNDUP sz := by
      have := Nat.mul_le_mul_right PGSIZE high
      unfold PGSIZE at *
      omega
    exact Nat.lt_of_lt_of_le inside shape.trapframe

end Resize

/-! ## An empty page table -/

section Create
variable {kernelEnd : Nat} {s : Kalloc.Phys}

@[simp] theorem pte_empty (pa va : Nat) : (Radix.empty pa).pte va = none := by
  simp [Radix.pte, Radix.reach, Radix.empty]

theorem holds_empty (pa : Nat) (x : Slot) : (Radix.empty pa).holds x = if x = .root then some pa else none := by
  cases x with
  | user p => simp only [Radix.holds, pte_empty, Option.map_none, ite_self, reduceCtorEq, if_false]
  | _ => simp [Radix.holds, Radix.empty]

theorem tree_empty (pa : Nat) : (Radix.empty pa).Tree := fun _ present => by cases present

theorem owns_empty {pa : Nat} (handed : pa ∈ s.allocated) : Owns s (Radix.empty pa) where
  mem x a held := by
    rw [holds_empty] at held
    split_ifs at held
    cases held
    exact handed
  inj x y a heldX heldY := by
    rw [holds_empty] at heldX heldY
    split_ifs at heldX heldY with atX atY
    rw [atX, atY]

/-- `uvmcreate` returns 0 only when no page is free; otherwise the empty page
table holds its root, the one page `kalloc` handed out. -/
theorem uvmcreate_spec {free : List Nat} (layout : Kalloc.Layout kernelEnd s free) :
    uvmcreate s = (s, none) ∨ ∃ s' pa, uvmcreate s = (s', some (Radix.empty pa)) ∧
      (∃ free', Kalloc.Layout kernelEnd s' free') ∧ Owns s' (Radix.empty pa) ∧ Ledger s.allocated s' (Radix.empty pa) := by
  rcases layout.take with ⟨handed, -⟩ | ⟨rest, -, nonzero, fresh, grown, layout'⟩
  · left
    simp [uvmcreate, handed]
  · right
    have root : (Kalloc.take s).2 ∈ (Kalloc.take s).1.allocated := by
      rw [grown]
      exact List.mem_cons_self
    refine ⟨_, (Kalloc.take s).2, by simp [uvmcreate, nonzero], ⟨rest, layout'⟩, owns_empty root,
      ⟨fun pa => ?_, fun x pa held => ?_⟩⟩
    · simp only [grown, List.mem_cons, holds_empty]
      constructor
      · rintro (rfl | old)
        · exact .inr ⟨.root, by simp⟩
        · exact .inl old
      · rintro (old | ⟨x, held⟩)
        · exact .inr old
        · split_ifs at held
          cases held
          exact .inl rfl
    · rw [holds_empty] at held
      split_ifs at held
      cases held
      exact fresh

/-- A page table with nothing mapped below `TRAPFRAME` is a process of size 0. -/
theorem shape_zero {t : Radix} (layout : ∃ free, Kalloc.Layout kernelEnd s free) (owns : Owns s t)
    (unmapped : ∀ va, va < TRAPFRAME → t.pte va = none) : Shape kernelEnd s t 0 where
  layout := layout
  owns := owns
  mapped p inside := by simp [unmapped _ inside]
  leaves p e inside found := by
    rw [unmapped _ inside] at found
    cases found
  guard p q e f insideP _ foundP := by
    rw [unmapped _ insideP] at foundP
    cases foundP

theorem uvmfree_zero (positive : 0 < kernelEnd) {base : List Nat} {t : Radix} (ledger : Ledger base s t)
    {free : List Nat} (layout : Kalloc.Layout kernelEnd s free) (owns : Owns s t) (tree : t.Tree)
    (cleared : ∀ va, t.pte va = none) :
    ∃ s', uvmfree kernelEnd s t 0 = .ok s' ∧ (∃ free', Kalloc.Layout kernelEnd s' free') ∧
      ∀ pa, pa ∈ s'.allocated ↔ pa ∈ base := by
  have zero : PGROUNDUP 0 = 0 := pgroundup_of_aligned (Nat.zero_mod _)
  obtain ⟨s', freed, done⟩ := uvmfree_spec positive layout owns tree (by rw [zero]; exact Nat.zero_le _)
    (fun p _ high => by rw [zero, Nat.zero_div] at high; omega) fun va _ => cleared va
  exact ⟨s', freed, done.layout, ledger.released done⟩

end Create

/-! ## `growproc` -/

theorem toNat_toUInt32 (n : Int32) : (n.toUInt32.toNat : Int) = n.toInt % 2 ^ 32 := by
  have bits : n.toUInt32.toNat = n.toBitVec.toNat := rfl
  have fits := n.toBitVec.isLt
  rw [bits, ← Int32.toInt_toBitVec, BitVec.toInt_eq_toNat_cond]
  split <;> omega

theorem growproc_sum {size : Nat} (small : size < 2 ^ 32) (n : Int32) :
    ((size.toUInt32 + n.toUInt32).toNat : Int) = (size + n.toInt) % 2 ^ 32 := by
  have sz : size.toUInt32.toNat = size := by
    rw [Nat.toUInt32_eq, UInt32.toNat_ofNat']
    exact Nat.mod_eq_of_lt small
  have delta := toNat_toUInt32 n
  rw [UInt32.toNat_add, sz]
  push_cast
  omega

theorem toNat_toUInt32_of_lt {r : Nat} (below : r < 2 ^ 32) : r.toUInt32.toNat = r := by
  rw [Nat.toUInt32_eq, UInt32.toNat_ofNat_of_lt' below]

theorem toUInt32_eq_zero {r : Nat} (below : r < 2 ^ 32) : r.toUInt32 = 0 ↔ r = 0 := by
  constructor
  · intro zero
    have := congrArg UInt32.toNat zero
    rwa [toNat_toUInt32_of_lt below] at this
  · rintro rfl
    rfl

/-- `growproc(n)` for every `int n`: the shape of the size it leaves, what it
changes, and what the process reads after it. -/
theorem growproc_resized {kernelEnd : Nat} (positive : 0 < kernelEnd) {s : Kalloc.Phys} {t : Radix} {size : Nat}
    (shape : Shape kernelEnd s t size) (mem : Nat → UInt8) (n : Int32) :
    ∃ s' mem' t' size' r, growproc kernelEnd s mem t size n = .ok (s', mem', t', size', r) ∧
      Shape kernelEnd s' t' size' ∧ Resized s t s' t' ∧ Contents t mem size t' mem' size' ∧
      (r = -1 ∧ size' = size ∧ t'.pte = t.pte ∨
        r = 0 ∧ (size' : Int) = if 0 ≤ size + n.toInt ∧ size + n.toInt < 2 ^ 32 then size + n.toInt else size) := by
  have small : size < 2 ^ 32 := by
    have := shape.size_lt
    unfold PGSIZE at this
    omega
  have sum := growproc_sum small n
  have range := Int32.le_toInt n
  have range' := Int32.toInt_lt n
  unfold growproc
  simp only [toNat_toUInt32_of_lt small]
  have fits : (size.toUInt32 + n.toUInt32).toNat < 2 ^ 32 := UInt32.toNat_lt _
  generalize (size.toUInt32 + n.toUInt32).toNat = newsz at sum fits ⊢
  have room : PGROUNDUP newsz ≤ TRAPFRAME := by
    have := pgroundup_lt newsz
    unfold TRAPFRAME TRAMPOLINE MAXVA PGSIZE at *
    omega
  by_cases grows : 0 < n
  · have positiveN : 0 < n.toInt := Int32.lt_iff_toInt_lt.mp grows
    rw [if_pos grows]
    obtain ⟨s', mem', t', r, alloc, resized, shrinking, growing⟩ := uvmalloc_shape positive shape mem room
    rw [alloc]
    dsimp only
    by_cases wrap : newsz < size
    · obtain ⟨sameR, sameS, sameMem, sameT⟩ := shrinking wrap
      subst sameS sameMem sameT
      rw [sameR, if_neg (by rw [toUInt32_eq_zero small]; omega), toNat_toUInt32_of_lt small]
      refine ⟨_, _, _, size, 0, rfl, shape, resized, shape.contents positive (.refl _ _ _), .inr ⟨rfl, ?_⟩⟩
      rw [if_neg (by omega)]
    · rcases growing (by omega) with ⟨same, grown, contents⟩ | ⟨zero, kept, pte, contents⟩
      · rw [same, if_neg (by rw [toUInt32_eq_zero fits]; omega), toNat_toUInt32_of_lt fits]
        refine ⟨s', mem', t', newsz, 0, rfl, grown, resized, contents, .inr ⟨rfl, ?_⟩⟩
        rw [if_pos (by omega)]
        omega
      · rw [zero, if_pos (show Nat.toUInt32 0 = 0 from rfl)]
        exact ⟨s', mem', t', size, -1, rfl, kept, resized, contents, .inl ⟨rfl, rfl, pte⟩⟩
  · rw [if_neg grows]
    have notPositive : n.toInt ≤ 0 := by
      have := mt Int32.lt_iff_toInt_lt.mpr grows
      simp only [Int32.toInt_zero, not_lt] at this
      exact this
    by_cases shrinks : n < 0
    · have negative : n.toInt < 0 := Int32.lt_iff_toInt_lt.mp shrinks
      rw [if_pos shrinks]
      obtain ⟨s', t', dealloc, resized, shrunk, contents⟩ := uvmdealloc_shape positive shape newsz
      rw [dealloc]
      dsimp only
      by_cases wrap : size ≤ newsz
      · rw [if_pos wrap] at shrunk contents ⊢
        rw [toNat_toUInt32_of_lt small]
        refine ⟨s', mem, t', size, 0, rfl, shrunk, resized, contents mem, .inr ⟨rfl, ?_⟩⟩
        rw [if_neg (by omega)]
      · rw [if_neg wrap] at shrunk contents ⊢
        rw [toNat_toUInt32_of_lt fits]
        refine ⟨s', mem, t', newsz, 0, rfl, shrunk, resized, contents mem, .inr ⟨rfl, ?_⟩⟩
        rw [if_pos (by omega)]
        omega
    · have zero : n.toInt = 0 := by
        have := mt Int32.lt_iff_toInt_lt.mpr shrinks
        simp only [Int32.toInt_zero, not_lt] at this
        omega
      rw [if_neg shrinks]
      refine ⟨s, mem, t, size, 0, rfl, shape, .refl s t, shape.contents positive (.refl _ _ mem), .inr ⟨rfl, ?_⟩⟩
      rw [if_pos (by omega), zero]
      simp

/-- Three free pages at the top of memory, above a kernel that ends below them. -/
def topPages : Kalloc.Phys where
  kmem :=
    { freelist := 2281689088
      next := fun p => if p = 2281689088 then 2281693184 else if p = 2281693184 then 2281697280 else 0 }
  allocated := []

theorem topPages_layout : Kalloc.Layout 2281689088 topPages [2281689088, 2281693184, 2281697280] :=
  ⟨.cons (by decide) (.cons (by decide) (.cons (by decide) .nil)), by decide⟩

/-- A process's root page and its trapframe page above a kernel that ends at
2281676800, with the four pages above them free. -/
def procPhys : Kalloc.Phys where
  kmem :=
    { freelist := 2281684992
      next := fun p => if p = 2281684992 then 2281689088 else if p = 2281689088 then 2281693184
        else if p = 2281693184 then 2281697280 else 0 }
  allocated := [2281676800, 2281680896]

theorem procPhys_layout :
    Kalloc.Layout 2281676800 procPhys [2281684992, 2281689088, 2281693184, 2281697280] :=
  ⟨.cons (by decide) (.cons (by decide) (.cons (by decide) (.cons (by decide) .nil))), by decide⟩

theorem procPhys_shape : Shape 2281676800 procPhys (Radix.empty 2281676800) 0 :=
  shape_zero ⟨_, procPhys_layout⟩ (owns_empty (by decide)) fun va _ => pte_empty _ va

theorem procPhys_grows :
    (growproc 2281676800 procPhys (fun _ => 7) (Radix.empty 2281676800) 0 4096).map
      (fun r => (r.2.2.2.1, r.2.2.2.2)) = .ok (4096, 0) := by decide +kernel

/-- What a process reads after `sbrk(n)`, for every `int n`: its old bytes up
to the new size or the end of its last page, whichever is lower, and zeros
on every page it gained. Growing within its last page, it reads that page's
old bytes, not zeros. -/
theorem growproc_reads {kernelEnd : Nat} (positive : 0 < kernelEnd) {s : Kalloc.Phys} {t : Radix} {size : Nat}
    (shape : Shape kernelEnd s t size) (mem : Nat → UInt8) (n : Int32) :
    ∃ s' mem' t' size' r, growproc kernelEnd s mem t size n = .ok (s', mem', t', size', r) ∧
      loadVirt t'.toPageTable mem' 0 size' =
        loadVirt t.toPageTable mem 0 (min size' (PGROUNDUP size)) ++ List.replicate (size' - PGROUNDUP size) 0 := by
  obtain ⟨s', mem', t', size', r, grown, -, -, contents, -⟩ := growproc_resized positive shape mem n
  exact ⟨s', mem', t', size', r, grown, contents.loadVirt⟩

/-- `sbrk(4096)` on that process, over memory that held 7s: it reads a page of zeros. -/
theorem growproc_reads_page : 0 < 2281676800 ∧ Shape 2281676800 procPhys (Radix.empty 2281676800) 0 ∧
    ∃ s' mem' t', growproc 2281676800 procPhys (fun _ => 7) (Radix.empty 2281676800) 0 4096 =
      .ok (s', mem', t', 4096, 0) ∧ loadVirt t'.toPageTable mem' 0 4096 = List.replicate 4096 0 := by
  obtain ⟨s', mem', t', size', r, grown, reads⟩ := growproc_reads (by decide) procPhys_shape (fun _ => 7) 4096
  have result := procPhys_grows
  rw [grown] at result
  simp only [Except.map, Except.ok.injEq, Prod.mk.injEq] at result
  obtain ⟨rfl, rfl⟩ := result
  refine ⟨by decide, procPhys_shape, s', mem', t', grown, ?_⟩
  have zero : PGROUNDUP 0 = 0 := rfl
  have nothing : loadVirt (Radix.empty 2281676800).toPageTable (fun _ => 7) 0 0 = [] :=
    List.eq_nil_of_length_eq_zero (loadVirt_length _ _ _ _)
  rw [reads, zero, Nat.min_zero, nothing, Nat.sub_zero, List.nil_append]

/-! ## A process's page table, from `proc_pagetable` to `proc_freepagetable` -/

/-- A process's page table: the user memory of size `sz` as `Shape` says, every
level-1 table under a root PTE `walk` uses, and the trampoline and the
trapframe mapped at the top without `PTE_U`, as `proc_pagetable` maps them. -/
structure Image (kernelEnd : Nat) (s : Kalloc.Phys) (t : Radix) (sz trampoline trapframe : Nat) : Prop where
  shape : Shape kernelEnd s t sz
  tree : t.Tree
  mapsTrampoline : t.pte TRAMPOLINE = some (leafPte trampoline (PTE_R ||| PTE_X))
  mapsTrapframe : t.pte TRAPFRAME = some (leafPte trapframe (PTE_R ||| PTE_W))

section Image

variable {kernelEnd : Nat} {s s' : Kalloc.Phys} {t t' : Radix} {sz sz' trampoline trapframe : Nat}

/-- Every page an image maps for the user is one `kalloc` handed out, never
physical page 0: the page tables of processes are those `user_copies` is about. -/
theorem Image.userPages (positive : 0 < kernelEnd) (image : Image kernelEnd s t sz trampoline trapframe)
    (smallT : trampoline < 2 ^ 64) (smallF : trapframe < 2 ^ 64) : UserPages t.toPageTable := by
  rintro va pa ⟨below, e, found, valid, user, rfl⟩
  have pte := pte_of_walk found valid
  by_cases low : PGROUNDDOWN va < TRAPFRAME
  · obtain ⟨free, layout⟩ := image.shape.layout
    have held := holds_user low pte
    obtain ⟨-, least, -⟩ := Kalloc.mem_pages (layout.page (.inr (image.shape.owns.mem _ _ held)))
    have := Kalloc.le_pgroundup kernelEnd
    omega
  · have top : PGROUNDDOWN va = TRAPFRAME ∨ PGROUNDDOWN va = TRAMPOLINE := by
      unfold PGROUNDDOWN TRAPFRAME TRAMPOLINE MAXVA PGSIZE at *
      omega
    rcases top with same | same
    · rw [same, image.mapsTrapframe, Option.some.injEq] at pte
      rw [← pte, and_flags _ _ (by decide), flags_leafPte smallF (by decide)] at user
      exact (user (by decide)).elim
    · rw [same, image.mapsTrampoline, Option.some.injEq] at pte
      rw [← pte, and_flags _ _ (by decide), flags_leafPte smallT (by decide)] at user
      exact (user (by decide)).elim

theorem Image.resized (image : Image kernelEnd s t sz trampoline trapframe) (shape : Shape kernelEnd s' t' sz')
    (resized : Resized s t s' t') : Image kernelEnd s' t' sz' trampoline trapframe := by
  refine ⟨shape, resized.tree image.tree, ?_, ?_⟩
  · rw [resized.top _ (Nat.le_of_lt trapframe_below_trampoline)]
    exact image.mapsTrampoline
  · rw [resized.top _ le_rfl]
    exact image.mapsTrapframe

theorem Image.congr (image : Image kernelEnd s t sz trampoline trapframe) (layout : ∃ free, Kalloc.Layout kernelEnd s' free)
    (owns : Owns s' t) : Image kernelEnd s' t sz trampoline trapframe :=
  ⟨image.shape.congr layout owns rfl, image.tree, image.mapsTrampoline, image.mapsTrapframe⟩

end Image


section ProcPagetable
variable {kernelEnd : Nat} {s : Kalloc.Phys}

/-- `proc_pagetable` does not panic. It returns a page table of a process of
size 0, with the trampoline and the trapframe mapped, that holds the pages it
took; or 0, with every page it took back. -/
theorem procPagetable_spec (positive : 0 < kernelEnd) {free : List Nat} (layout : Kalloc.Layout kernelEnd s free)
    {trampoline trapframe : Nat} (smallT : trampoline < 2 ^ 64) (smallF : trapframe < 2 ^ 64) :
    ∃ s' made, procPagetable kernelEnd s trampoline trapframe = .ok (s', made) ∧
      ((made = none ∧ (∃ free', Kalloc.Layout kernelEnd s' free') ∧ ∀ pa, pa ∈ s'.allocated ↔ pa ∈ s.allocated) ∨
        ∃ t, made = some t ∧ Image kernelEnd s' t 0 trampoline trapframe ∧ Ledger s.allocated s' t) := by
  rcases uvmcreate_spec layout with failed | ⟨s₁, pa, created, ⟨free₁, layout₁⟩, owns₁, ledger₁⟩
  · exact ⟨s, none, by rw [procPagetable, failed], .inl ⟨rfl, ⟨free, layout⟩, fun _ => Iff.rfl⟩⟩
  obtain ⟨s₂, t₂, found, grew₂, reached₂, mapped₂⟩ := mappages_page layout₁ owns₁ trampoline_aligned
    trampoline_below (pte_empty pa TRAMPOLINE) trampoline (PTE_R ||| PTE_X)
  obtain ⟨free₂, layout₂⟩ := grew₂.layout
  have ledger₂ := ledger₁.grew grew₂
  have tree₂ := grew₂.tree (tree_empty pa)
  have empty₂ : ∀ va, t₂.pte va = none := fun va => by rw [grew₂.pte, pte_empty]
  cases found with
  | false =>
    obtain ⟨s₃, freed, layout₃, back⟩ := uvmfree_zero positive ledger₂ layout₂ grew₂.owns tree₂ empty₂
    rw [if_neg (by decide)] at mapped₂
    refine ⟨s₃, none, ?_, .inl ⟨rfl, layout₃, back⟩⟩
    rw [procPagetable, created]
    simp only [mapped₂]
    rw [if_pos (by decide)]
    simp only [freed]
  | true =>
    have holds₃ := holds_setLeaf_top (t := t₂) (p := TRAMPOLINE / PGSIZE)
      (e := leafPte trampoline (PTE_R ||| PTE_X)) (by decide)
    have owns₃ := grew₂.owns.congr holds₃
    have validT : leafPte trampoline (PTE_R ||| PTE_X) &&& PTE_V ≠ 0 := leafPte_valid smallT (by decide)
    have tramp₃ := pte_setLeaf_valid trampoline_below (reached₂ rfl) validT
    rw [if_pos rfl] at mapped₂
    have pte₃ : ∀ va, va / PGSIZE ≠ TRAMPOLINE / PGSIZE →
        (t₂.setLeaf (TRAMPOLINE / PGSIZE) (leafPte trampoline (PTE_R ||| PTE_X))).pte va = none :=
      fun va other => by rw [pte_setLeaf_of_ne other, empty₂]
    obtain ⟨s₄, t₄, found', grew₄, reached₄, mapped₄⟩ := mappages_page layout₂ owns₃ trapframe_aligned
      (trapframe_below_trampoline.trans trampoline_below) (pte₃ _ (by decide)) trapframe (PTE_R ||| PTE_W)
    obtain ⟨free₄, layout₄⟩ := grew₄.layout
    have ledger₄ := (ledger₂.congr (congrFun holds₃)).grew grew₄
    have tree₄ := grew₄.tree tree₂
    cases found' with
    | false =>
      rw [if_neg (by decide)] at mapped₄
      have keep := @uvmunmap_keep kernelEnd s₄ _ _ _ trampoline_aligned
        (by rw [grew₄.pte]; exact tramp₃) (by rw [flags_leafPte smallT (by decide)]; decide)
      have holds₅ := holds_setLeaf_top (t := t₄) (p := TRAMPOLINE / PGSIZE) (e := 0) (by decide)
      have empty₅ : ∀ va, (t₄.setLeaf (TRAMPOLINE / PGSIZE) 0).pte va = none := by
        intro va
        rw [pte_setLeaf_zero]
        split_ifs with here
        · rfl
        · rw [grew₄.pte, pte₃ va here]
      obtain ⟨s₅, freed, layout₅, back⟩ := uvmfree_zero positive (ledger₄.congr (congrFun holds₅)) layout₄
        (grew₄.owns.congr holds₅) tree₄ empty₅
      refine ⟨s₅, none, ?_, .inl ⟨rfl, layout₅, back⟩⟩
      rw [procPagetable, created]
      simp only [mapped₂, mapped₄]
      rw [if_neg (by decide), if_pos (by decide), keep]
      simp only [freed]
    | true =>
      have holds₅ := holds_setLeaf_top (t := t₄) (p := TRAPFRAME / PGSIZE)
        (e := leafPte trapframe (PTE_R ||| PTE_W)) (by decide)
      have validF : leafPte trapframe (PTE_R ||| PTE_W) &&& PTE_V ≠ 0 := leafPte_valid smallF (by decide)
      have frame₅ := pte_setLeaf_valid (trapframe_below_trampoline.trans trampoline_below) (reached₄ rfl) validF
      rw [if_pos rfl] at mapped₄
      refine ⟨s₄, some _, ?_, .inr ⟨_, rfl, ⟨shape_zero ⟨free₄, layout₄⟩ (grew₄.owns.congr holds₅) fun va below => ?_,
        tree₄, ?_, frame₅⟩, ledger₄.congr (congrFun holds₅)⟩⟩
      · rw [procPagetable, created]
        simp only [mapped₂, mapped₄]
        rw [if_neg (by decide), if_neg (by decide)]
      · have other : va / PGSIZE ≠ TRAPFRAME / PGSIZE := by
          unfold TRAPFRAME TRAMPOLINE MAXVA PGSIZE at *
          omega
        have other' : va / PGSIZE ≠ TRAMPOLINE / PGSIZE := by
          unfold TRAPFRAME TRAMPOLINE MAXVA PGSIZE at *
          omega
        rw [pte_setLeaf_of_ne other, grew₄.pte, pte₃ va other']
      · rw [pte_setLeaf_of_ne (by decide), grew₄.pte]
        exact tramp₃


theorem top_pages {va : Nat} (above : TRAPFRAME ≤ va) (below : va < MAXVA) :
    va / PGSIZE = TRAPFRAME / PGSIZE ∨ va / PGSIZE = TRAMPOLINE / PGSIZE := by
  unfold TRAPFRAME TRAMPOLINE MAXVA PGSIZE at *
  omega

/-- `proc_freepagetable` of a process does not panic and gives back every page
its page table holds, and no other. -/
theorem procFreepagetable_spec (positive : 0 < kernelEnd) {t : Radix} {sz trampoline trapframe : Nat}
    (image : Image kernelEnd s t sz trampoline trapframe) (smallT : trampoline < 2 ^ 64) (smallF : trapframe < 2 ^ 64) :
    ∃ s', procFreepagetable kernelEnd s t sz = .ok s' ∧ Freed kernelEnd t s s' fun _ => True := by
  have shape := image.shape
  obtain ⟨free, layout⟩ := shape.layout
  have keepT := @uvmunmap_keep kernelEnd s _ _ _ trampoline_aligned image.mapsTrampoline
    (by rw [flags_leafPte smallT (by decide)]; decide)
  have frame : (t.setLeaf (TRAMPOLINE / PGSIZE) 0).pte TRAPFRAME = some (leafPte trapframe (PTE_R ||| PTE_W)) := by
    rw [pte_setLeaf_of_ne (by decide)]
    exact image.mapsTrapframe
  have keepF := @uvmunmap_keep kernelEnd s _ _ _ trapframe_aligned frame
    (by rw [flags_leafPte smallF (by decide)]; decide)
  have holds : ((t.setLeaf (TRAMPOLINE / PGSIZE) 0).setLeaf (TRAPFRAME / PGSIZE) 0).holds = t.holds := by
    rw [holds_setLeaf_top (by decide), holds_setLeaf_top (by decide)]
  have below : ∀ va, va / PGSIZE < TRAPFRAME / PGSIZE →
      ((t.setLeaf (TRAMPOLINE / PGSIZE) 0).setLeaf (TRAPFRAME / PGSIZE) 0).pte va = t.pte va := by
    intro va low
    rw [pte_setLeaf_of_ne (by omega), pte_setLeaf_of_ne (by unfold TRAPFRAME TRAMPOLINE MAXVA PGSIZE at *; omega)]
  have index : ∀ p, p * PGSIZE / PGSIZE = p := fun p => Nat.mul_div_cancel p (by decide)
  have user : ∀ p, p * PGSIZE < TRAPFRAME → p < TRAPFRAME / PGSIZE := fun p inside => by
    unfold TRAPFRAME TRAMPOLINE MAXVA PGSIZE at *
    omega
  have leaves : Leaves ((t.setLeaf (TRAMPOLINE / PGSIZE) 0).setLeaf (TRAPFRAME / PGSIZE) 0) 0 (PGROUNDUP sz / PGSIZE) := by
    intro p low high
    obtain ⟨e, found, leaf⟩ := shape.leaves_all p low high
    have inside : p * PGSIZE < TRAPFRAME := by
      rw [Nat.zero_add] at high
      have := Nat.mul_le_mul_right PGSIZE high
      rw [Nat.div_mul_cancel (Nat.dvd_of_mod_eq_zero (pgroundup_aligned sz)), Nat.succ_mul] at this
      have := shape.trapframe
      have : 0 < PGSIZE := by decide
      omega
    exact ⟨e, by rw [below _ (by rw [index]; exact user p inside)]; exact found, leaf⟩
  have cleared : ∀ va, PGROUNDUP sz ≤ va →
      ((t.setLeaf (TRAMPOLINE / PGSIZE) 0).setLeaf (TRAPFRAME / PGSIZE) 0).pte va = none := by
    intro va above
    by_cases top : TRAPFRAME ≤ va
    · by_cases inside : va < MAXVA
      · rcases top_pages top inside with frame | tramp
        · rw [pte_setLeaf_zero, if_pos frame]
        · rw [pte_setLeaf_zero, if_neg (by rw [tramp]; decide), pte_setLeaf_zero, if_pos tramp]
      · simp only [Radix.pte, inside, false_and, if_false]
    · have low : va / PGSIZE < TRAPFRAME / PGSIZE := by
        unfold TRAPFRAME TRAMPOLINE MAXVA PGSIZE at *
        omega
      rw [below va low, pte_page]
      have page : va / PGSIZE * PGSIZE < TRAPFRAME := by
        have := Nat.div_mul_le_self va PGSIZE
        omega
      have unmapped := (shape.mapped _ page).not.mpr fun lt => by
        have round := pgroundup_aligned sz
        have := le_pgroundup sz
        have := Nat.lt_div_mul_add (a := va) (show 0 < PGSIZE by decide)
        unfold PGSIZE at *
        omega
      exact Option.not_isSome_iff_eq_none.mp unmapped
  obtain ⟨s', freed, done⟩ := uvmfree_spec positive layout (shape.owns.congr holds)
    (fun i present => image.tree i present) shape.trapframe leaves cleared
  refine ⟨s', ?_, done.of_holds holds⟩
  rw [procFreepagetable, keepT]
  simp only []
  rw [keepF]
  exact freed


theorem growproc_image (positive : 0 < kernelEnd) {t : Radix} {size trampoline trapframe : Nat}
    (image : Image kernelEnd s t size trampoline trapframe) (mem : Nat → UInt8) (n : Int32) :
    ∃ s' mem' t' size' r, growproc kernelEnd s mem t size n = .ok (s', mem', t', size', r) ∧
      Image kernelEnd s' t' size' trampoline trapframe ∧ ∀ base, Ledger base s t → Ledger base s' t' := by
  obtain ⟨s', mem', t', size', r, grown, shape, resized, -⟩ := growproc_resized positive image.shape mem n
  exact ⟨s', mem', t', size', r, grown, image.resized shape resized, resized.ledger⟩

theorem perm_of_allocated {s' : Kalloc.Phys} {free free' : List Nat} (layout : Kalloc.Layout kernelEnd s free)
    (layout' : Kalloc.Layout kernelEnd s' free') (same : ∀ pa, pa ∈ s'.allocated ↔ pa ∈ s.allocated) :
    s'.allocated.Perm s.allocated :=
  (List.perm_ext_iff_of_nodup (List.nodup_append.mp layout'.nodup).2.1 (List.nodup_append.mp layout.nodup).2.1).mpr same

/-- However many `sbrk` calls a process makes, none panics; and when the
process is freed the allocator has back every page its page table took, so
the pages handed out are those handed out before it, each once. -/
theorem life_returns_pages (positive : 0 < kernelEnd) {free : List Nat} (layout : Kalloc.Layout kernelEnd s free)
    (mem : Nat → UInt8) {trampoline trapframe : Nat} (smallT : trampoline < 2 ^ 64) (smallF : trapframe < 2 ^ 64)
    (calls : List Int32) :
    ∃ s', life kernelEnd s mem trampoline trapframe calls = .ok s' ∧ s'.allocated.Perm s.allocated := by
  obtain ⟨s₁, made, made_eq, failed | ⟨t, rfl, image, ledger⟩⟩ := procPagetable_spec positive layout smallT smallF
  · obtain ⟨rfl, ⟨free₁, layout₁⟩, back⟩ := failed
    exact ⟨s₁, by rw [life, made_eq], perm_of_allocated layout layout₁ back⟩
  have turn : ∀ (done : List Int32) n rest (state : Kalloc.Phys × (Nat → UInt8) × Radix × Nat),
      done ++ n :: rest = calls →
      (Image kernelEnd state.1 state.2.2.1 state.2.2.2 trampoline trapframe ∧ Ledger s.allocated state.1 state.2.2.1) →
      ∃ state', growTurn kernelEnd state n = .ok state' ∧
        (Image kernelEnd state'.1 state'.2.2.1 state'.2.2.2 trampoline trapframe ∧ Ledger s.allocated state'.1 state'.2.2.1) := by
    rintro done n rest ⟨s', mem', t', size⟩ - ⟨image', ledger'⟩
    obtain ⟨s'', mem'', t'', size', r, grown, image'', kept⟩ := growproc_image positive image' mem' n
    exact ⟨(s'', mem'', t'', size'), by rw [growTurn]; simp only [grown], image'', kept _ ledger'⟩
  obtain ⟨⟨s₂, mem₂, t₂, size₂⟩, run, image₂, ledger₂⟩ :=
    Machine.foldlM_invariant calls (P := fun _ state => Image kernelEnd state.1 state.2.2.1 state.2.2.2 trampoline trapframe ∧
      Ledger s.allocated state.1 state.2.2.1) turn (s := (s₁, mem, t, 0)) ⟨image, ledger⟩
  obtain ⟨s₃, freed, done⟩ := procFreepagetable_spec positive image₂ smallT smallF
  obtain ⟨free₃, layout₃⟩ := done.layout
  refine ⟨s₃, ?_, perm_of_allocated layout layout₃ (ledger₂.released done)⟩
  rw [life, made_eq]
  simp only [run]
  exact freed

/-- A process that grows by a page and shrinks back, with the trampoline and
trapframe at addresses of the kernel's. -/
theorem life_returns_pages_top : 0 < 2281689088 ∧ Kalloc.Layout 2281689088 topPages [2281689088, 2281693184, 2281697280] ∧
    2147487744 < 2 ^ 64 ∧ 2281676800 < 2 ^ 64 ∧
    ∃ s', life 2281689088 topPages (fun _ => 0) 2147487744 2281676800 [4096, -4096] = .ok s' ∧
      s'.allocated.Perm topPages.allocated :=
  ⟨by decide, topPages_layout, by decide, by decide,
    life_returns_pages (by decide) topPages_layout (fun _ => 0) (by decide) (by decide) _⟩

end ProcPagetable

end Xv6.Uvm
