import Xv6.Chain
import Xv6.Machine

/-! `kernel/kalloc.c`: the physical page allocator. `kinit` runs `freerange`
over `[end, PHYSTOP)`, which `kfree`s every whole page from `PGROUNDUP(end)`;
`kfree` pushes a page onto `kmem.freelist`, and `kalloc` pops one. The list is
threaded through the free pages themselves: a free page's first word is its
`struct run`, the address of the next free page. Memory is that word of every
page, and a junk `memset` of a page writes it. Addresses are `Nat`: none of
them comes near `2^64`.

A client calls `kalloc`, and `kfree` only on a page `kalloc` gave it that it
has not freed since; the ghost list `allocated` holds those pages. Then no call
panics, the free list reaches every free page once, and the free and the
allocated pages together are the pages `freerange` covered, each once. -/
namespace Xv6.Kalloc

/-- Bytes per page (`riscv.h`). -/
def PGSIZE : Nat := 4096

def KERNBASE : Nat := 0x80000000

/-- The end of the RAM the kernel uses (`memlayout.h`). -/
def PHYSTOP : Nat := KERNBASE + 128 * 1024 * 1024

theorem PHYSTOP_eq : PHYSTOP = 2281701376 := rfl

/-- `PGROUNDUP(sz)`: the first multiple of `PGSIZE` at or above `sz`, which
`(sz + PGSIZE - 1) & ~(PGSIZE - 1)` computes. -/
def pgroundup (sz : Nat) : Nat := (sz + PGSIZE - 1) / PGSIZE * PGSIZE

/-- `kmem.freelist`, 0 when the list is empty, and the first word of every
page, where a free page's `struct run` keeps `next`. -/
structure Kmem where
  freelist : Nat
  next : Nat → Nat

/-- `memset(pa, c, PGSIZE)`, on the one word of the page the model keeps. -/
def memset (next : Nat → Nat) (pa c : Nat) : Nat → Nat :=
  Function.update next pa (c * 0x0101010101010101)

/-- `kfree(pa)`, or `none` for `panic("kfree")`. `kernelEnd` is `end`, the first
address after the kernel (`kernel.ld`). -/
def kfree (kernelEnd : Nat) (kmem : Kmem) (pa : Nat) : Option Kmem :=
  if pa % PGSIZE ≠ 0 ∨ pa < kernelEnd ∨ pa ≥ PHYSTOP then none
  else
    let next := memset kmem.next pa 1
    -- `r->next = kmem.freelist; kmem.freelist = r;`
    some { freelist := pa, next := Function.update next pa kmem.freelist }

/-- `kalloc()`: `kmem` after it, and the page it returns, 0 when none is free. -/
def kalloc (kmem : Kmem) : Kmem × Nat :=
  let r := kmem.freelist
  if r ≠ 0 then ({ freelist := kmem.next r, next := memset kmem.next r 5 }, r) else (kmem, r)

/-- The loop of `freerange` at `p`: `for(; p + PGSIZE <= pa_end; p += PGSIZE) kfree(p);`. -/
def freerangeLoop (kernelEnd : Nat) (kmem : Kmem) (p paEnd : Nat) : Option Kmem :=
  if p + PGSIZE ≤ paEnd then
    (kfree kernelEnd kmem p).bind fun kmem => freerangeLoop kernelEnd kmem (p + PGSIZE) paEnd
  else some kmem
termination_by paEnd - p
decreasing_by unfold PGSIZE at *; omega

/-- `freerange(pa_start, pa_end)`. -/
def freerange (kernelEnd : Nat) (kmem : Kmem) (paStart paEnd : Nat) : Option Kmem :=
  freerangeLoop kernelEnd kmem (pgroundup paStart) paEnd

/-- `kinit()` over the memory `mem` it finds: `kmem.freelist` starts null. -/
def kinit (kernelEnd : Nat) (mem : Nat → Nat) : Option Kmem :=
  freerange kernelEnd { freelist := 0, next := mem } kernelEnd PHYSTOP

/-! ## The pages `freerange` covers -/

/-- The whole pages from `PGROUNDUP(end)` up to `PHYSTOP`. -/
def pages (kernelEnd : Nat) : List Nat :=
  List.range' (pgroundup kernelEnd) ((PHYSTOP - pgroundup kernelEnd) / PGSIZE) PGSIZE

section Pages

variable {kernelEnd : Nat}

theorem le_pgroundup (sz : Nat) : sz ≤ pgroundup sz := by
  unfold pgroundup PGSIZE
  omega

theorem pgroundup_aligned (sz : Nat) : pgroundup sz % PGSIZE = 0 :=
  Nat.mul_mod_left _ _

theorem pages_nodup : (pages kernelEnd).Nodup :=
  List.nodup_range' PGSIZE (by decide)

/-- A page `freerange` covers is aligned, at or above `PGROUNDUP(end)`, and
ends by `PHYSTOP`. -/
theorem mem_pages {p : Nat} (member : p ∈ pages kernelEnd) :
    p % PGSIZE = 0 ∧ pgroundup kernelEnd ≤ p ∧ p + PGSIZE ≤ PHYSTOP := by
  obtain ⟨i, below, rfl⟩ := List.mem_range'.mp member
  have aligned := pgroundup_aligned kernelEnd
  unfold PGSIZE at aligned below ⊢
  rw [PHYSTOP_eq] at below ⊢
  refine ⟨by omega, by omega, ?_⟩
  have room : (2281701376 - pgroundup kernelEnd) / 4096 * 4096 ≤ 2281701376 - pgroundup kernelEnd :=
    Nat.div_mul_le_self _ _
  have step : (i + 1) * 4096 ≤ (2281701376 - pgroundup kernelEnd) / 4096 * 4096 :=
    Nat.mul_le_mul_right _ below
  omega

theorem kfree_page (kmem : Kmem) {p : Nat} (above : kernelEnd ≤ p) (aligned : p % PGSIZE = 0)
    (fits : p + PGSIZE ≤ PHYSTOP) :
    kfree kernelEnd kmem p = some { freelist := p, next := Function.update kmem.next p kmem.freelist } := by
  have ok : ¬ (p % PGSIZE ≠ 0 ∨ p < kernelEnd ∨ p ≥ PHYSTOP) := by
    unfold PGSIZE at aligned fits ⊢
    omega
  rw [kfree, if_neg ok]
  simp only [memset, Function.update_idem]

end Pages

/-! ## `kinit` -/

section Boot

variable {kernelEnd : Nat}

/-- The loop of `freerange` pushes the pages `p, p + PGSIZE, ...` below
`PHYSTOP` in turn, so the list comes out in the opposite order; induction on
the number of pages left. -/
theorem freerangeLoop_links (positive : 0 < kernelEnd) (n : Nat) {p : Nat} {kmem : Kmem}
    {free : List Nat} (links : Chain.Links 0 kmem.next kmem.freelist free) (aligned : p % PGSIZE = 0)
    (above : kernelEnd ≤ p) (count : (PHYSTOP - p) / PGSIZE = n)
    (fresh : ∀ q ∈ List.range' p n PGSIZE, q ∉ free) :
    ∃ kmem', freerangeLoop kernelEnd kmem p PHYSTOP = some kmem' ∧
      Chain.Links 0 kmem'.next kmem'.freelist ((List.range' p n PGSIZE).reverse ++ free) := by
  induction n generalizing p kmem free with
  | zero =>
    have past : ¬ p + PGSIZE ≤ PHYSTOP := by
      rw [PHYSTOP_eq] at count ⊢; unfold PGSIZE at count ⊢
      omega
    refine ⟨kmem, by rw [freerangeLoop, if_neg past], by simpa using links⟩
  | succ n ih =>
    have fits : p + PGSIZE ≤ PHYSTOP := by
      rw [PHYSTOP_eq] at count ⊢; unfold PGSIZE at count ⊢
      omega
    have pushed : Chain.Links 0 (Kmem.next ⟨p, Function.update kmem.next p kmem.freelist⟩) p (p :: free) :=
      links.push (by omega) (fresh p (by simp [List.range'_succ]))
    have later : ∀ q ∈ List.range' (p + PGSIZE) n PGSIZE, q ∉ p :: free := by
      intro q member mem
      obtain ⟨i, _, rfl⟩ := List.mem_range'.mp member
      rcases List.mem_cons.mp mem with here | onList
      · unfold PGSIZE at here
        omega
      · exact fresh _ (List.mem_range'.mpr ⟨i + 1, by omega, by unfold PGSIZE; ring⟩) onList
    obtain ⟨kmem', loop, links'⟩ := @ih (p + PGSIZE) _ _ pushed (by unfold PGSIZE at aligned ⊢; omega)
      (by omega) (by rw [PHYSTOP_eq] at count ⊢; unfold PGSIZE at count ⊢; omega) later
    refine ⟨kmem', ?_, by simpa [List.range'_succ] using links'⟩
    rw [freerangeLoop, if_pos fits, kfree_page kmem above aligned fits, Option.bind_some]
    exact loop

theorem kinit_links (positive : 0 < kernelEnd) (mem : Nat → Nat) :
    ∃ kmem, kinit kernelEnd mem = some kmem ∧ Chain.Links 0 kmem.next kmem.freelist (pages kernelEnd).reverse := by
  have empty : Chain.Links 0 (Kmem.next ⟨0, mem⟩) (Kmem.freelist ⟨0, mem⟩) [] := .nil
  obtain ⟨kmem, loop, links⟩ := freerangeLoop_links positive _ empty (pgroundup_aligned kernelEnd)
    (le_pgroundup kernelEnd) rfl (fun _ _ => List.not_mem_nil)
  exact ⟨kmem, loop, by simpa [pages] using links⟩

end Boot

/-! ## Clients -/

/-- A call of the allocator's clients. -/
inductive Call where
  | kalloc
  | kfree (pa : Nat)
  deriving DecidableEq, Repr

/-- The allocator and, as ghost state, the pages its clients hold. -/
structure Phys where
  kmem : Kmem
  allocated : List Nat

/-- One call, or `none` once one has panicked. Clients free only pages they
hold: a `kfree` of any other address is a call the contract rules out, and it
is not made. -/
def step (kernelEnd : Nat) : Option Phys → Call → Option Phys
  | none, _ => none
  | some s, .kalloc =>
    let (kmem, r) := kalloc s.kmem
    some { kmem := kmem, allocated := if r = 0 then s.allocated else r :: s.allocated }
  | some s, .kfree pa =>
    if pa ∈ s.allocated then
      (kfree kernelEnd s.kmem pa).map fun kmem => { kmem := kmem, allocated := s.allocated.erase pa }
    else some s

/-- `kalloc()` as a client sees it: the allocator after the call, holding the
page it handed out, and that page, 0 when none was free. -/
def take (s : Phys) : Phys × Nat :=
  let (kmem, r) := kalloc s.kmem
  ({ kmem := kmem, allocated := if r = 0 then s.allocated else r :: s.allocated }, r)

/-- A client's `kfree(pa)`, or `none` for its panic. -/
def release (kernelEnd : Nat) (s : Phys) (pa : Nat) : Option Phys :=
  (kfree kernelEnd s.kmem pa).map fun kmem => { kmem := kmem, allocated := s.allocated.erase pa }

theorem step_kalloc (kernelEnd : Nat) (s : Phys) : step kernelEnd (some s) .kalloc = some (take s).1 := rfl

theorem step_kfree (kernelEnd : Nat) (s : Phys) {pa : Nat} (held : pa ∈ s.allocated) :
    step kernelEnd (some s) (.kfree pa) = release kernelEnd s pa := by
  simp [step, held, release]

/-- After `kinit`, before the first call. -/
def boot (kernelEnd : Nat) (mem : Nat → Nat) : Option Phys :=
  (kinit kernelEnd mem).map fun kmem => { kmem := kmem, allocated := [] }

theorem kalloc_snd (kmem : Kmem) : (kalloc kmem).2 = kmem.freelist := by
  by_cases empty : kmem.freelist = 0 <;> simp [kalloc, empty]

/-- The free list is `free`, and the free and the allocated pages together are
the pages `freerange` covered, each once. -/
structure Layout (kernelEnd : Nat) (s : Phys) (free : List Nat) : Prop where
  links : Chain.Links 0 s.kmem.next s.kmem.freelist free
  covers : (free ++ s.allocated).Perm (pages kernelEnd)

section Layout

variable {kernelEnd : Nat} {s : Phys} {free : List Nat}

theorem Layout.nodup (layout : Layout kernelEnd s free) : (free ++ s.allocated).Nodup :=
  layout.covers.nodup_iff.mpr pages_nodup

theorem Layout.not_allocated (layout : Layout kernelEnd s free) {p : Nat} (isFree : p ∈ free) :
    p ∉ s.allocated :=
  fun held => (List.nodup_append.mp layout.nodup).2.2 p isFree p held rfl

theorem Layout.page (layout : Layout kernelEnd s free) {p : Nat} (member : p ∈ free ∨ p ∈ s.allocated) :
    p ∈ pages kernelEnd :=
  layout.covers.subset (List.mem_append.mpr member)

/-- `kalloc` pops the head of the list and hands it to the client; on an empty
list it returns 0 and changes nothing. -/
theorem Layout.kalloc (layout : Layout kernelEnd s free) :
    ∃ s', step kernelEnd (some s) .kalloc = some s' ∧ Layout kernelEnd s' free.tail := by
  cases free with
  | nil =>
    have empty : s.kmem.freelist = 0 := layout.links.null_of_nil
    refine ⟨s, ?_, layout⟩
    simp [step, Xv6.Kalloc.kalloc, empty]
  | cons r rest =>
    have head : s.kmem.freelist = r := layout.links.head_of_cons
    have found : r ≠ 0 := layout.links.not_null List.mem_cons_self
    have fresh : r ∉ rest := (List.nodup_cons.mp layout.links.nodup).1
    have tail : Chain.Links 0 s.kmem.next (s.kmem.next r) rest := by
      have links := layout.links
      rw [head] at links
      exact links.tail
    refine ⟨⟨⟨s.kmem.next r, memset s.kmem.next r 5⟩, r :: s.allocated⟩, ?_, tail.write fresh _, ?_⟩
    · simp [step, Xv6.Kalloc.kalloc, head, found]
    · exact List.perm_middle.trans layout.covers

/-- A client's `kfree` of a page it holds pushes the page and does not panic. -/
theorem Layout.kfree (positive : 0 < kernelEnd) (layout : Layout kernelEnd s free) (pa : Nat) :
    ∃ s' free', step kernelEnd (some s) (.kfree pa) = some s' ∧ Layout kernelEnd s' free' := by
  by_cases held : pa ∈ s.allocated
  · obtain ⟨aligned, above, fits⟩ := mem_pages (layout.page (.inr held))
    have notNull : pa ≠ 0 := by
      have := le_pgroundup kernelEnd
      omega
    have fresh : pa ∉ free := fun isFree => layout.not_allocated isFree held
    refine ⟨⟨⟨pa, Function.update s.kmem.next pa s.kmem.freelist⟩, s.allocated.erase pa⟩, pa :: free, ?_,
      layout.links.push notNull fresh, ?_⟩
    · simp only [step, if_pos held, kfree_page s.kmem ((le_pgroundup kernelEnd).trans above) aligned fits,
        Option.map_some]
    · have moved : (free ++ s.allocated).Perm (pa :: (free ++ s.allocated.erase pa)) :=
        ((List.perm_cons_erase held).append_left free).trans List.perm_middle
      exact moved.symm.trans layout.covers
  · exact ⟨s, free, by simp [step, held], layout⟩

/-- `kalloc` hands out the head of the list, a page no client holds, or 0
with nothing changed when the list is empty. -/
theorem Layout.take (layout : Layout kernelEnd s free) :
    (take s = (s, 0) ∧ free = []) ∨
      ∃ rest, free = (take s).2 :: rest ∧ (take s).2 ≠ 0 ∧ (take s).2 ∉ s.allocated ∧
        (take s).1.allocated = (take s).2 :: s.allocated ∧ Layout kernelEnd (take s).1 rest := by
  cases free with
  | nil =>
    have empty : s.kmem.freelist = 0 := layout.links.null_of_nil
    left
    simp [Xv6.Kalloc.take, Xv6.Kalloc.kalloc, empty]
  | cons r rest =>
    have head : s.kmem.freelist = r := layout.links.head_of_cons
    have found : r ≠ 0 := layout.links.not_null List.mem_cons_self
    have handed : (take s).2 = r := by simp [Xv6.Kalloc.take, Xv6.Kalloc.kalloc, head, found]
    obtain ⟨s', popped, layout'⟩ := layout.kalloc
    have same : (take s).1 = s' := by
      rw [step_kalloc kernelEnd s] at popped
      exact Option.some.inj popped
    right
    refine ⟨rest, by rw [handed], by rw [handed]; exact found, by rw [handed]; exact layout.not_allocated List.mem_cons_self,
      ?_, same ▸ layout'⟩
    simp [Xv6.Kalloc.take, Xv6.Kalloc.kalloc, head, found]

/-- A client's `kfree` of a page it holds does not panic and pushes the page. -/
theorem Layout.release (positive : 0 < kernelEnd) (layout : Layout kernelEnd s free) {pa : Nat}
    (held : pa ∈ s.allocated) :
    ∃ s', release kernelEnd s pa = some s' ∧ s'.allocated = s.allocated.erase pa ∧ Layout kernelEnd s' (pa :: free) := by
  obtain ⟨aligned, above, fits⟩ := mem_pages (layout.page (.inr held))
  have notNull : pa ≠ 0 := by
    have := le_pgroundup kernelEnd
    omega
  have fresh : pa ∉ free := fun isFree => layout.not_allocated isFree held
  refine ⟨⟨⟨pa, Function.update s.kmem.next pa s.kmem.freelist⟩, s.allocated.erase pa⟩, ?_, rfl,
    layout.links.push notNull fresh, ?_⟩
  · simp only [Xv6.Kalloc.release, kfree_page s.kmem ((le_pgroundup kernelEnd).trans above) aligned fits,
      Option.map_some]
  · have moved : (free ++ s.allocated).Perm (pa :: (free ++ s.allocated.erase pa)) :=
      ((List.perm_cons_erase held).append_left free).trans List.perm_middle
    exact moved.symm.trans layout.covers

theorem Layout.step (positive : 0 < kernelEnd) (layout : Layout kernelEnd s free) (call : Call) :
    ∃ s' free', step kernelEnd (some s) call = some s' ∧ Layout kernelEnd s' free' := by
  cases call with
  | kalloc =>
    obtain ⟨s', popped, layout'⟩ := layout.kalloc
    exact ⟨s', free.tail, popped, layout'⟩
  | kfree pa => exact layout.kfree positive pa

theorem layout_boot (positive : 0 < kernelEnd) (mem : Nat → Nat) :
    ∃ s free, boot kernelEnd mem = some s ∧ Layout kernelEnd s free := by
  obtain ⟨kmem, booted, links⟩ := kinit_links positive mem
  refine ⟨⟨kmem, []⟩, (pages kernelEnd).reverse, by simp [boot, booted], links, ?_⟩
  simp

theorem layout_run (positive : 0 < kernelEnd) (mem : Nat → Nat) (calls : List Call) :
    ∃ s free, Machine.run (step kernelEnd) (boot kernelEnd mem) calls = some s ∧ Layout kernelEnd s free := by
  refine Machine.run_invariant (P := fun o => ∃ s free, o = some s ∧ Layout kernelEnd s free)
    (fun o call reached => ?_) (layout_boot positive mem) calls
  obtain ⟨s, free, rfl, layout⟩ := reached
  exact layout.step positive call

end Layout

theorem free_list_invariant {kernelEnd : Nat} (positive : 0 < kernelEnd) (mem : Nat → Nat)
    (calls : List Call) :
    ∃ s, Machine.run (step kernelEnd) (boot kernelEnd mem) calls = some s ∧
      (∃ free, Chain.Links 0 s.kmem.next s.kmem.freelist free ∧ free.Nodup ∧
        ∀ p ∈ free, p % PGSIZE = 0 ∧ pgroundup kernelEnd ≤ p ∧ p < PHYSTOP ∧ p ∉ s.allocated) ∧
      ((kalloc s.kmem).2 ≠ 0 → (kalloc s.kmem).2 ∉ s.allocated) ∧
      ((kalloc s.kmem).2 = 0 → ∀ p ∈ pages kernelEnd, p ∈ s.allocated) := by
  obtain ⟨s, free, reached, layout⟩ := layout_run positive mem calls
  refine ⟨s, reached, ⟨free, layout.links, layout.links.nodup, fun p isFree => ?_⟩, fun found => ?_,
    fun empty => ?_⟩
  · obtain ⟨aligned, above, fits⟩ := mem_pages (layout.page (.inl isFree))
    exact ⟨aligned, above, by unfold PGSIZE at fits; omega, layout.not_allocated isFree⟩
  · rw [kalloc_snd] at found ⊢
    cases free with
    | nil => exact absurd layout.links.null_of_nil found
    | cons r rest =>
      rw [layout.links.head_of_cons]
      exact layout.not_allocated List.mem_cons_self
  · rw [kalloc_snd] at empty
    cases free with
    | nil => exact fun p page => by simpa using layout.covers.symm.subset page
    | cons r rest => exact absurd (layout.links.head_of_cons.symm.trans empty) (layout.links.not_null List.mem_cons_self)

/-- With `end` two pages below `PHYSTOP`: two pages to hand out. -/
theorem free_list_invariant_two_pages :
    0 < PHYSTOP - 2 * PGSIZE ∧
      ∃ s, Machine.run (step (PHYSTOP - 2 * PGSIZE)) (boot (PHYSTOP - 2 * PGSIZE) fun _ => 0)
          [.kalloc, .kalloc, .kalloc, .kfree (PHYSTOP - PGSIZE), .kalloc] = some s ∧
        (∃ free, Chain.Links 0 s.kmem.next s.kmem.freelist free ∧ free.Nodup ∧
          ∀ p ∈ free, p % PGSIZE = 0 ∧ pgroundup (PHYSTOP - 2 * PGSIZE) ≤ p ∧ p < PHYSTOP ∧
            p ∉ s.allocated) ∧
        ((kalloc s.kmem).2 ≠ 0 → (kalloc s.kmem).2 ∉ s.allocated) ∧
        ((kalloc s.kmem).2 = 0 → ∀ p ∈ pages (PHYSTOP - 2 * PGSIZE), p ∈ s.allocated) :=
  ⟨by decide, free_list_invariant (by decide) _ _⟩

end Xv6.Kalloc
