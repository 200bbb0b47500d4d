import Xv6.Proc.Memory
import Xv6.Mem.Copy

/-! The memory side of `fork` (`kernel/proc.c`: `allocproc`, `freeproc`,
`fork`). `allocproc` takes a page for the trapframe and makes the page table
with `proc_pagetable`; `fork` copies the parent's memory into it with
`uvmcopy`, then the parent's trapframe with `a0` set to 0, which is what the
child sees `fork` return. When `uvmcopy` fails, `fork` calls `freeproc(np)`
while `np->sz` is still 0: `uvmcopy` has already unmapped what it copied, so
the page table holds tables only. What is proved: `fork` does not panic;
the parent reads what it read; a child is a process of the parent's size
whose pages were all free before and that reads what the parent reads; and a
failed `fork` gives every page back. -/
namespace Xv6.Uvm

open Vm

/-- The fields of `struct proc` that hold memory: the trapframe page, the
page table (`none` for 0) and `sz`. -/
structure ProcMem where
  trapframe : Nat
  pagetable : Option Radix
  sz : Nat

/-- `sizeof(struct trapframe)`: 36 registers of 8 bytes (`kernel/proc.h`). -/
def trapframeSize : Nat := 288

/-- The offset of `a0` in `struct trapframe`. -/
def a0Offset : Nat := 112

/-- The memory side of `freeproc(p)`: the trapframe page goes back with
`kfree`, then the page table with `proc_freepagetable(p->pagetable, p->sz)`;
both pointers and `sz` become 0. -/
def freeproc (kernelEnd : Nat) (s : Kalloc.Phys) (p : ProcMem) : Except String (Kalloc.Phys × ProcMem) :=
  match (if p.trapframe ≠ 0 then kfree kernelEnd s p.trapframe else .ok s) with
  | .error e => .error e
  | .ok s =>
    match p.pagetable with
    | none => .ok (s, ⟨0, none, 0⟩)
    | some t =>
      match procFreepagetable kernelEnd s t p.sz with
      | .error e => .error e
      | .ok s => .ok (s, ⟨0, none, 0⟩)

/-- The memory side of `allocproc()` for an `UNUSED` slot, whose fields
`freeproc` left 0: the trapframe page and the page table, or `none` where it
returns 0. -/
def allocproc (kernelEnd : Nat) (s : Kalloc.Phys) (trampoline : Nat) :
    Except String (Kalloc.Phys × Option (Nat × Radix)) :=
  let (s, trapframe) := Kalloc.take s
  if trapframe = 0 then
    match freeproc kernelEnd s ⟨0, none, 0⟩ with
    | .error e => .error e
    | .ok (s, _) => .ok (s, none)
  else
    match procPagetable kernelEnd s trampoline trapframe with
    | .error e => .error e
    | .ok (s, none) =>
      match freeproc kernelEnd s ⟨trapframe, none, 0⟩ with
      | .error e => .error e
      | .ok (s, _) => .ok (s, none)
    | .ok (s, some t) => .ok (s, some (trapframe, t))

/-- The memory side of `fork()` by a process with page table `pagetable`,
size `sz` and trapframe page `trapframe`: the child's memory, or `none`
where `fork` returns -1. -/
def fork (kernelEnd : Nat) (s : Kalloc.Phys) (mem : Nat → UInt8) (trampoline : Nat) (pagetable : Radix)
    (sz trapframe : Nat) : Except String (Kalloc.Phys × (Nat → UInt8) × Option ProcMem) :=
  match allocproc kernelEnd s trampoline with
  | .error e => .error e
  | .ok (s, none) => .ok (s, mem, none)
  | .ok (s, some (npTrapframe, npPagetable)) =>
    match uvmcopy kernelEnd s mem pagetable npPagetable sz with
    | .error e => .error e
    | .ok (s, mem, npPagetable, r) =>
      if r < 0 then
        -- `np->sz` is still 0 here: `fork` sets it after the copy
        match freeproc kernelEnd s ⟨npTrapframe, some npPagetable, 0⟩ with
        | .error e => .error e
        | .ok (s, _) => .ok (s, mem, none)
      else
        -- `*(np->trapframe) = *(p->trapframe); np->trapframe->a0 = 0;`
        let mem := Flat.write mem npTrapframe (Flat.read mem trapframe trapframeSize)
        let mem := Flat.write mem (npTrapframe + a0Offset) (List.replicate 8 0)
        .ok (s, mem, some ⟨npTrapframe, some npPagetable, sz⟩)

section Fork

variable {kernelEnd : Nat} {s : Kalloc.Phys}

theorem freeproc_cleared (kernelEnd : Nat) (s : Kalloc.Phys) :
    freeproc kernelEnd s ⟨0, none, 0⟩ = .ok (s, ⟨0, none, 0⟩) := rfl

/-- `freeproc` of a process whose trapframe page and page table are all it
holds beyond `base`: every page goes back. -/
theorem freeproc_spec (positive : 0 < kernelEnd) {t : Radix} {base : List Nat} {sz trampoline trapframe : Nat}
    (image : Image kernelEnd s t sz trampoline trapframe) (ledger : Ledger (trapframe :: base) s t)
    (notBase : trapframe ∉ base) (smallT : trampoline < 2 ^ 64) :
    ∃ s', freeproc kernelEnd s ⟨trapframe, some t, sz⟩ = .ok (s', ⟨0, none, 0⟩) ∧
      (∃ free', Kalloc.Layout kernelEnd s' free') ∧ ∀ pa, pa ∈ s'.allocated ↔ pa ∈ base := by
  obtain ⟨free, layout⟩ := image.shape.layout
  have held : trapframe ∈ s.allocated := (ledger.allocated trapframe).mpr (.inl List.mem_cons_self)
  obtain ⟨-, small⟩ := page_of_held layout held
  obtain ⟨-, least, -⟩ := Kalloc.mem_pages (layout.page (.inr held))
  have nonzero : trapframe ≠ 0 := by
    have := Kalloc.le_pgroundup kernelEnd
    omega
  obtain ⟨s₁, released, erased, layout₁⟩ := layout.release positive held
  have nodup : s.allocated.Nodup := (List.nodup_append.mp layout.nodup).2.1
  have unheld : ∀ x, t.holds x ≠ some trapframe := fun x heldX => ledger.apart x _ heldX List.mem_cons_self
  have owns₁ : Owns s₁ t := by
    unfold Owns
    rw [erased]
    exact image.shape.owns.erase unheld fun _ _ heldX => heldX
  obtain ⟨s₂, freed, done⟩ := procFreepagetable_spec positive (image.congr ⟨_, layout₁⟩ owns₁) smallT small
  refine ⟨s₂, ?_, done.layout, (ledger.erase notBase nodup erased).released done⟩
  simp only [freeproc, ne_eq, nonzero, not_false_eq_true, if_true, kfree, released, freed]

/-- `allocproc` does not panic. It returns a trapframe page and a page table
of a process of size 0 that hold pages handed out by it and by nobody before,
or 0 with every page it took back. -/
theorem allocproc_spec (positive : 0 < kernelEnd) {free : List Nat} (layout : Kalloc.Layout kernelEnd s free)
    {trampoline : Nat} (smallT : trampoline < 2 ^ 64) :
    ∃ s' made, allocproc kernelEnd s trampoline = .ok (s', made) ∧
      ((made = none ∧ (∃ free', Kalloc.Layout kernelEnd s' free') ∧ ∀ pa, pa ∈ s'.allocated ↔ pa ∈ s.allocated) ∨
        ∃ trapframe t, made = some (trapframe, t) ∧ trapframe ∉ s.allocated ∧
          Image kernelEnd s' t 0 trampoline trapframe ∧ Ledger (trapframe :: s.allocated) s' t) := by
  rcases layout.take with ⟨handed, -⟩ | ⟨rest, -, nonzero, fresh, grown, layout₁⟩
  · refine ⟨s, none, ?_, .inl ⟨rfl, ⟨free, layout⟩, fun _ => Iff.rfl⟩⟩
    simp only [allocproc, handed, if_true, freeproc_cleared]
  rcases taken : Kalloc.take s with ⟨s₁, trapframe⟩
  simp only [taken] at nonzero fresh grown layout₁
  have taken₁ : trapframe ∈ s₁.allocated := by rw [grown]; exact List.mem_cons_self
  obtain ⟨-, small⟩ := page_of_held layout₁ taken₁
  obtain ⟨s₂, made, made_eq, failed | ⟨t, rfl, image, ledger⟩⟩ := procPagetable_spec positive layout₁ smallT small
  · obtain ⟨rfl, ⟨free₂, layout₂⟩, same⟩ := failed
    obtain ⟨s₃, released, erased, layout₃⟩ := layout₂.release positive ((same _).mpr taken₁)
    have nodup : s₂.allocated.Nodup := (List.nodup_append.mp layout₂.nodup).2.1
    refine ⟨s₃, none, ?_, .inl ⟨rfl, ⟨_, layout₃⟩, fun pa => ?_⟩⟩
    · simp only [allocproc, taken, nonzero, if_false, made_eq, freeproc, ne_eq, not_false_eq_true, if_true, kfree,
        released]
    · rw [erased, nodup.mem_erase_iff, same, grown, List.mem_cons]
      constructor
      · rintro ⟨other, same' | old⟩
        · exact absurd same' other
        · exact old
      · intro old
        exact ⟨fun same' => fresh (same' ▸ old), .inr old⟩
  · refine ⟨s₂, some (trapframe, t), ?_, .inr ⟨trapframe, t, rfl, fresh, image, by rwa [grown] at ledger⟩⟩
    simp only [allocproc, taken, nonzero, if_false, made_eq]

/-- What `uvmcopy` leaves in a child of size 0: the shape of the parent's
size, its pages the parent's pages' copies with the parent's flags. -/
theorem Shape.copy {s₁ s₀ s' : Kalloc.Phys} {old t₀ t' : Radix} {sz : Nat} (parent : Shape kernelEnd s₁ old sz)
    (child : Shape kernelEnd s₀ t₀ 0)
    (growing : Growing kernelEnd s₀ t₀ (copiedPerm old) 0 s' t' (PGROUNDUP sz / PGSIZE)) : Shape kernelEnd s' t' sz := by
  have leaves := parent.leaves_all
  have round := pgroundup_aligned sz
  have copied : ∀ p e, p * PGSIZE < TRAPFRAME → t'.pte (p * PGSIZE) = some e →
      p < PGROUNDUP sz / PGSIZE ∧ ∃ pa, pa < 2 ^ 64 ∧ e = leafPte pa (copiedPerm old p) := by
    intro p e inside found
    by_cases copiedP : p < PGROUNDUP sz / PGSIZE
    · obtain ⟨pa, small, stored⟩ := growing.mapped p (Nat.zero_le p) copiedP
      rw [stored] at found
      exact ⟨copiedP, pa, small, (Option.some.inj found).symm⟩
    · rw [growing.kept _ (by rw [Nat.mul_div_cancel p (by decide)]; omega)] at found
      have := (child.mapped p inside).mp (by rw [found]; rfl)
      omega
  refine ⟨growing.layout, growing.owns, fun p inside => ?_, fun p e inside found => ?_,
    fun p q e f insideP insideQ foundP foundQ noP noQ => ?_⟩
  · rw [← lt_pgroundup_iff]
    constructor
    · intro present
      obtain ⟨e, found⟩ := Option.isSome_iff_exists.mp present
      have := (copied p e inside found).1
      unfold PGSIZE at *
      omega
    · intro below
      obtain ⟨pa, -, stored⟩ := growing.mapped p (Nat.zero_le p) (by unfold PGSIZE at *; omega)
      rw [stored]
      rfl
  · obtain ⟨copiedP, pa, small, rfl⟩ := copied p e inside found
    rw [flags_copied leaves copiedP small]
    exact (leaves.pte_leaf (Nat.zero_le p) (by omega)).2.1
  · obtain ⟨copiedP, pa, small, rfl⟩ := copied p e insideP foundP
    obtain ⟨copiedQ, pb, smallQ, rfl⟩ := copied q f insideQ foundQ
    rw [user_copied leaves copiedP small] at noP
    rw [user_copied leaves copiedQ smallQ] at noQ
    exact parent.guard p q _ _ insideP insideQ (leaves.pte_leaf (Nat.zero_le p) (by omega)).1
      (leaves.pte_leaf (Nat.zero_le q) (by omega)).1 noP noQ

/-- What the child reads after `uvmcopy` is what the parent read: through a
user page, its copy; through the guard page, page 0 for both. -/
theorem Contents.of_copy {s₁ s₀ s' : Kalloc.Phys} {old t₀ t' : Radix} {mem mem' : Nat → UInt8} {sz : Nat}
    (positive : 0 < kernelEnd) {free : List Nat} (layout : Kalloc.Layout kernelEnd s₀ free) (owns : Owns s₀ old)
    (parent : Shape kernelEnd s₁ old sz)
    (growing : Growing kernelEnd s₀ t₀ (copiedPerm old) 0 s' t' (PGROUNDUP sz / PGSIZE))
    (filled : Filled kernelEnd s₀ mem (copiedPage mem old) 0 t' (PGROUNDUP sz / PGSIZE) mem') :
    Contents old mem sz t' mem' sz := by
  intro va inside
  have leaves := parent.leaves_all
  have round := pgroundup_aligned sz
  have least := le_pgroundup sz
  have top := parent.trapframe
  rw [if_pos (by omega)]
  have copiedP : va / PGSIZE < PGROUNDUP sz / PGSIZE := by
    unfold PGSIZE at *
    omega
  obtain ⟨pa, small, found⟩ := growing.mapped _ (Nat.zero_le _) copiedP
  have found' : t'.pte (PGROUNDDOWN va) = some (leafPte pa (copiedPerm old (va / PGSIZE))) := found
  have parentFound : old.pte (PGROUNDDOWN va) = some (old.leaf (va / PGSIZE)) :=
    (leaves.pte_leaf (Nat.zero_le _) (by omega)).1
  have user := user_copied leaves copiedP small
  by_cases guard : old.leaf (va / PGSIZE) &&& PTE_U = 0
  · have same : translate t'.toPageTable va = translate old.toPageTable va := by
      unfold Vm.translate
      rw [walkaddr_of_pte found', walkaddr_of_pte parentFound, if_pos (user.trans guard), if_pos guard]
    rw [same]
    exact filled.frame.translate positive layout owns (by omega)
  · rw [translate_of_pte found' (by rwa [user]), translate_of_pte parentFound guard]
    exact Flat.cell_of_read_eq (filled.filled _ (Nat.zero_le _) copiedP _ found) (offset_lt va)

/-- `*(np->trapframe) = *(p->trapframe); np->trapframe->a0 = 0;`: the child's
trapframe is the parent's with `a0` 0. -/
theorem trapframe_copied (mem : Nat → UInt8) (np p : Nat) {k : Nat} (inside : k < trapframeSize) :
    Flat.write (Flat.write mem np (Flat.read mem p trapframeSize)) (np + a0Offset) (List.replicate 8 0) (np + k) =
      if a0Offset ≤ k ∧ k < a0Offset + 8 then 0 else mem (p + k) := by
  by_cases a0 : a0Offset ≤ k ∧ k < a0Offset + 8
  · rw [if_pos a0]
    have stored := Flat.write_inside (Flat.write mem np (Flat.read mem p trapframeSize)) (np + a0Offset)
      (List.replicate 8 0) (k := k - a0Offset) (by rw [List.length_replicate]; omega)
    rw [show np + a0Offset + (k - a0Offset) = np + k by omega] at stored
    rw [stored, List.getElem_replicate]
  · rw [if_neg a0, Flat.write_outside _ _ _ (by rw [List.length_replicate]; omega)]
    rw [Flat.write_inside mem np _ (by rw [Flat.length_read]; exact inside), Flat.getElem_read]

theorem trapframe_write_outside (mem : Nat → UInt8) (np trapframe : Nat) {a : Nat}
    (outside : a < np ∨ np + PGSIZE ≤ a) :
    Flat.write (Flat.write mem np (Flat.read mem trapframe trapframeSize)) (np + a0Offset) (List.replicate 8 0) a =
      mem a := by
  rw [Flat.write_outside _ _ _ (by rw [List.length_replicate]; unfold a0Offset PGSIZE at *; omega),
    Flat.write_outside _ _ _ (by rw [Flat.length_read]; unfold trapframeSize PGSIZE at *; omega)]

theorem FreshWrites.trapframe {mem₀ mem : Nat → UInt8} (frame : FreshWrites kernelEnd s mem₀ mem) {np : Nat}
    (fresh : np ∉ s.allocated) (isPage : np ∈ Kalloc.pages kernelEnd) (trapframe : Nat) :
    FreshWrites kernelEnd s mem₀
      (Flat.write (Flat.write mem np (Flat.read mem trapframe trapframeSize)) (np + a0Offset) (List.replicate 8 0)) := by
  refine (frame.write fresh isPage le_rfl ?_).write fresh isPage (Nat.le_add_right _ _) ?_
  · rw [Flat.length_read]
    unfold trapframeSize PGSIZE
    omega
  · rw [List.length_replicate]
    unfold a0Offset PGSIZE
    omega

theorem procPhys_forks :
    (fork 2281676800 procPhys (fun _ => 7) 2147487744 (Radix.empty 2281676800) 0 2281680896).map
      (fun r => r.2.2.isSome) = .ok true := by decide +kernel

end Fork

end Xv6.Uvm
