import Xv6.Mem.PageTable

/-! Growing and shrinking user memory (`kernel/vm.c`: `uvmunmap`,
`uvmdealloc`, `uvmalloc`, `uvmcopy`, `uvmclear`). User pages come from
`kalloc` and go back through `kfree`; `uvmunmap` of pages that leaf PTEs map
frees exactly those pages, and `uvmalloc` either maps fresh zeroed pages over
the whole new range or, out of memory, leaves the user mappings as they were. -/
namespace Xv6.Uvm

open Vm

/-- The loop of `uvmunmap` at `a`, with `n` pages left. -/
def uvmunmapLoop (kernelEnd : Nat) (s : Kalloc.Phys) (t : Radix) (a : Nat) (doFree : Bool) :
    Nat → Except String (Kalloc.Phys × Radix)
  | 0 => .ok (s, t)
  | n + 1 =>
    match walk t a with
    | .error e => .error e
    | .ok none => .error "uvmunmap: walk"
    | .ok (some p) =>
      if t.leaf p &&& PTE_V = 0 then .error "uvmunmap: not mapped"
      else if PTE_FLAGS (t.leaf p) = PTE_V then .error "uvmunmap: not a leaf"
      else
        match (if doFree then Kalloc.release kernelEnd s (PTE2PA (t.leaf p)) else some s) with
        | none => .error "kfree"
        | some s => uvmunmapLoop kernelEnd s (t.setLeaf p 0) (a + PGSIZE) doFree n

/-- `uvmunmap(pagetable, va, npages, do_free)`. -/
def uvmunmap (kernelEnd : Nat) (s : Kalloc.Phys) (t : Radix) (va npages : Nat) (doFree : Bool) :
    Except String (Kalloc.Phys × Radix) :=
  if va % PGSIZE ≠ 0 then .error "uvmunmap: not aligned" else uvmunmapLoop kernelEnd s t va doFree npages

/-- `uvmdealloc(pagetable, oldsz, newsz)`: the new size. -/
def uvmdealloc (kernelEnd : Nat) (s : Kalloc.Phys) (t : Radix) (oldsz newsz : Nat) : Except String (Kalloc.Phys × Radix × Nat) :=
  if oldsz ≤ newsz then .ok (s, t, oldsz)
  else if PGROUNDUP newsz < PGROUNDUP oldsz then
    match uvmunmap kernelEnd s t (PGROUNDUP newsz) ((PGROUNDUP oldsz - PGROUNDUP newsz) / PGSIZE) true with
    | .error e => .error e
    | .ok (s, t) => .ok (s, t, newsz)
  else .ok (s, t, newsz)

/-- The loop of `uvmalloc` at `a`; `oldsz` is already rounded up. -/
def uvmallocLoop (kernelEnd : Nat) (s : Kalloc.Phys) (mem : Nat → UInt8) (t : Radix) (oldsz a newsz : Nat) :
    Except String (Kalloc.Phys × (Nat → UInt8) × Radix × Nat) :=
  if a < newsz then
    let (s, page) := Kalloc.take s
    if page = 0 then
      match uvmdealloc kernelEnd s t a oldsz with
      | .error e => .error e
      | .ok (s, t, _) => .ok (s, mem, t, 0)
    else
      let mem := Flat.write mem page (List.replicate PGSIZE 0)
      match mappages s t a PGSIZE page (PTE_W ||| PTE_X ||| PTE_R ||| PTE_U) with
      | .error e => .error e
      | .ok (s, t, r) =>
        if r ≠ 0 then
          match Kalloc.release kernelEnd s page with
          | none => .error "kfree"
          | some s =>
            match uvmdealloc kernelEnd s t a oldsz with
            | .error e => .error e
            | .ok (s, t, _) => .ok (s, mem, t, 0)
        else uvmallocLoop kernelEnd s mem t oldsz (a + PGSIZE) newsz
  else .ok (s, mem, t, newsz)
termination_by newsz - a
decreasing_by unfold PGSIZE; omega

/-- `uvmalloc(pagetable, oldsz, newsz)`: the new size, or 0 on failure. -/
def uvmalloc (kernelEnd : Nat) (s : Kalloc.Phys) (mem : Nat → UInt8) (t : Radix) (oldsz newsz : Nat) :
    Except String (Kalloc.Phys × (Nat → UInt8) × Radix × Nat) :=
  if newsz < oldsz then .ok (s, mem, t, oldsz)
  else uvmallocLoop kernelEnd s mem t (PGROUNDUP oldsz) (PGROUNDUP oldsz) newsz

/-- `err:` of `uvmcopy`: `uvmunmap(new, 0, i / PGSIZE, 1); return -1;`. -/
def uvmcopyUndo (kernelEnd : Nat) (s : Kalloc.Phys) (mem : Nat → UInt8) (new : Radix) (i : Nat) :
    Except String (Kalloc.Phys × (Nat → UInt8) × Radix × Int) :=
  match uvmunmap kernelEnd s new 0 (i / PGSIZE) true with
  | .error e => .error e
  | .ok (s, new) => .ok (s, mem, new, -1)

/-- The loop of `uvmcopy(old, new, sz)` at `i`. -/
def uvmcopyLoop (kernelEnd : Nat) (s : Kalloc.Phys) (mem : Nat → UInt8) (old new : Radix) (i sz : Nat) :
    Except String (Kalloc.Phys × (Nat → UInt8) × Radix × Int) :=
  if i < sz then
    match walk old i with
    | .error e => .error e
    | .ok none => .error "uvmcopy: pte should exist"
    | .ok (some p) =>
      if old.leaf p &&& PTE_V = 0 then .error "uvmcopy: page not present"
      else
        let pa := PTE2PA (old.leaf p)
        let flags := PTE_FLAGS (old.leaf p)
        let (s, page) := Kalloc.take s
        if page = 0 then uvmcopyUndo kernelEnd s mem new i
        else
          let mem := Flat.write mem page (Flat.read mem pa PGSIZE)
          match mappages s new i PGSIZE page flags with
          | .error e => .error e
          | .ok (s, new, r) =>
            if r ≠ 0 then
              match Kalloc.release kernelEnd s page with
              | none => .error "kfree"
              | some s => uvmcopyUndo kernelEnd s mem new i
            else uvmcopyLoop kernelEnd s mem old new (i + PGSIZE) sz
  else .ok (s, mem, new, 0)
termination_by sz - i
decreasing_by unfold PGSIZE; omega

/-- `uvmcopy(old, new, sz)`: 0, or -1 on failure. -/
def uvmcopy (kernelEnd : Nat) (s : Kalloc.Phys) (mem : Nat → UInt8) (old new : Radix) (sz : Nat) :
    Except String (Kalloc.Phys × (Nat → UInt8) × Radix × Int) :=
  uvmcopyLoop kernelEnd s mem old new 0 sz

/-- `uvmclear(pagetable, va)`: `*pte &= ~PTE_U`. -/
def uvmclear (t : Radix) (va : Nat) : Except String Radix :=
  match walk t va with
  | .error e => .error e
  | .ok none => .error "uvmclear"
  | .ok (some p) => .ok (t.setLeaf p (t.leaf p &&& ~~~PTE_U))

/-- `kfree(pa)`, its panic an error. -/
def kfree (kernelEnd : Nat) (s : Kalloc.Phys) (pa : Nat) : Except String Kalloc.Phys :=
  match Kalloc.release kernelEnd s pa with
  | none => .error "kfree"
  | some s => .ok s

/-- `freewalk` of the level-0 table `pa` of the level-1 PTE `k`: none of its
512 PTEs may be valid (`panic("freewalk: leaf")`), and then its page goes back. -/
def freewalkLow (kernelEnd : Nat) (s : Kalloc.Phys) (t : Radix) (k pa : Nat) : Except String Kalloc.Phys :=
  if (List.range 512).all fun l => t.leaf (k * 2 ^ 9 + l) &&& PTE_V = 0 then kfree kernelEnd s pa
  else .error "freewalk: leaf"

/-- A turn of the loop of `freewalk` over the level-1 table of the root's PTE
`i`: the PTE `j` is valid where a level-0 table hangs off it. -/
def freewalkMidTurn (kernelEnd : Nat) (t : Radix) (i : Nat) (s : Kalloc.Phys) (j : Nat) : Except String Kalloc.Phys :=
  match t.low (i * 2 ^ 9 + j) with
  | none => .ok s
  | some low => freewalkLow kernelEnd s t (i * 2 ^ 9 + j) low

/-- `freewalk` of the level-1 table `pa` of the root's PTE `i`: the loop over
its 512 PTEs, and then the table's own page goes back. -/
def freewalkMid (kernelEnd : Nat) (s : Kalloc.Phys) (t : Radix) (i pa : Nat) : Except String Kalloc.Phys :=
  match (List.range 512).foldlM (freewalkMidTurn kernelEnd t i) s with
  | .error e => .error e
  | .ok s => kfree kernelEnd s pa

/-- A turn of the loop of `freewalk` over the root: its PTE `i`. -/
def freewalkTurn (kernelEnd : Nat) (t : Radix) (s : Kalloc.Phys) (i : Nat) : Except String Kalloc.Phys :=
  match t.mid i with
  | none => .ok s
  | some mid => freewalkMid kernelEnd s t i mid

/-- `freewalk(pagetable)`: the loop over the root's 512 PTEs, then the root. -/
def freewalk (kernelEnd : Nat) (s : Kalloc.Phys) (t : Radix) : Except String Kalloc.Phys :=
  match (List.range 512).foldlM (freewalkTurn kernelEnd t) s with
  | .error e => .error e
  | .ok s => kfree kernelEnd s t.root

/-- A zeroed root page: no PTE of it is valid. -/
def Radix.empty (pa : Nat) : Radix where
  root := pa
  mid := fun _ => none
  low := fun _ => none
  leaf := fun _ => 0

/-- `uvmcreate()`: an empty page table, or `none` for the 0 it returns when
`kalloc` fails. -/
def uvmcreate (s : Kalloc.Phys) : Kalloc.Phys × Option Radix :=
  let (s, pa) := Kalloc.take s
  if pa = 0 then (s, none) else (s, some (Radix.empty pa))

/-- `uvmfree(pagetable, sz)`. -/
def uvmfree (kernelEnd : Nat) (s : Kalloc.Phys) (t : Radix) (sz : Nat) : Except String Kalloc.Phys :=
  match (if 0 < sz then uvmunmap kernelEnd s t 0 (PGROUNDUP sz / PGSIZE) true else .ok (s, t)) with
  | .error e => .error e
  | .ok (s, t) => freewalk kernelEnd s t

/-! ## `uvmunmap` -/

/-- The pages `lo, ..., lo + n - 1` are mapped by leaf PTEs: valid, with flags other than `PTE_V` alone. -/
def Leaves (t : Radix) (lo n : Nat) : Prop :=
  ∀ p, lo ≤ p → p < lo + n → ∃ e, t.pte (p * PGSIZE) = some e ∧ PTE_FLAGS e ≠ PTE_V

/-- What `uvmunmap` of the pages `lo, ..., lo + n - 1`, freeing them, leaves:
those PTEs zero, every other as it was, the tables untouched, and the pages
those PTEs mapped, and only those, back with `kfree`. -/
structure Unmapped (kernelEnd : Nat) (s : Kalloc.Phys) (t : Radix) (s' : Kalloc.Phys) (t' : Radix) (lo n : Nat) :
    Prop where
  layout : ∃ free, Kalloc.Layout kernelEnd s' free
  owns : Owns s' t'
  pte : ∀ va, t'.pte va = if lo ≤ va / PGSIZE ∧ va / PGSIZE < lo + n then none else t.pte va
  root : t'.root = t.root
  mid : t'.mid = t.mid
  low : t'.low = t.low
  freed : ∀ pa, pa ∈ s'.allocated ↔ pa ∈ s.allocated ∧ ∀ p, lo ≤ p → p < lo + n → t.holds (.user p) ≠ some pa

section Unmap

variable {kernelEnd : Nat} {s : Kalloc.Phys} {t : Radix}

theorem uvmunmap_keep {a : Nat} {e : UInt64} (aligned : a % PGSIZE = 0) (found : t.pte a = some e)
    (leaf : PTE_FLAGS e ≠ PTE_V) : uvmunmap kernelEnd s t a 1 false = .ok (s, t.setLeaf (a / PGSIZE) 0) := by
  obtain ⟨walked, atLeaf, valid⟩ := walk_of_pte found
  rw [uvmunmap, if_neg (not_not.mpr aligned), uvmunmapLoop, walked]
  simp only [atLeaf, valid, if_false, leaf]
  rfl

/-- Zeroing the PTE of a held user page and giving the page back keeps the ownership. -/
theorem Owns.unmap (owns : Owns s t) {p pa : Nat} (held : t.holds (.user p) = some pa) {s' : Kalloc.Phys}
    (erased : s'.allocated = s.allocated.erase pa) : Owns s' (t.setLeaf p 0) := by
  have gone : (t.setLeaf p 0).holds (.user p) = none := by
    simp only [Radix.holds, pte_setLeaf_zero, Nat.mul_div_cancel p (show 0 < PGSIZE by decide), if_true]
    split_ifs <;> rfl
  unfold Owns
  rw [erased]
  refine owns.erase (fun x heldX => ?_) (fun x b heldX => ?_)
  · by_cases here : x = .user p
    · rw [here, gone] at heldX
      cases heldX
    · rw [holds_setLeaf_of_ne here] at heldX
      exact owns.unique held x here heldX
  · by_cases here : x = .user p
    · rw [here, gone] at heldX
      cases heldX
    · rwa [holds_setLeaf_of_ne here] at heldX

theorem uvmunmapLoop_zero (kernelEnd : Nat) (s : Kalloc.Phys) (t : Radix) (a : Nat) (doFree : Bool) :
    uvmunmapLoop kernelEnd s t a doFree 0 = .ok (s, t) := rfl

theorem uvmunmapLoop_succ {a n : Nat} {e : UInt64} (found : t.pte a = some e) (leaf : PTE_FLAGS e ≠ PTE_V)
    {s' : Kalloc.Phys} (freed : Kalloc.release kernelEnd s (PTE2PA e) = some s') :
    uvmunmapLoop kernelEnd s t a true (n + 1) = uvmunmapLoop kernelEnd s' (t.setLeaf (a / PGSIZE) 0) (a + PGSIZE) true n := by
  obtain ⟨walked, atLeaf, valid⟩ := walk_of_pte found
  rw [uvmunmapLoop, walked]
  simp only [atLeaf, valid, if_false, leaf, if_true, freed]

/-- `uvmunmap` over pages that are all mapped by leaves below `TRAPFRAME`
does not panic and unmaps and frees just them; induction on the count. -/
theorem uvmunmapLoop_spec (positive : 0 < kernelEnd) (n : Nat) {a : Nat} {free : List Nat}
    (layout : Kalloc.Layout kernelEnd s free) (owns : Owns s t) (aligned : a % PGSIZE = 0)
    (below : a + n * PGSIZE ≤ TRAPFRAME) (leaves : Leaves t (a / PGSIZE) n) :
    ∃ s' t', uvmunmapLoop kernelEnd s t a true n = .ok (s', t') ∧ Unmapped kernelEnd s t s' t' (a / PGSIZE) n := by
  induction n generalizing a s t free with
  | zero =>
    refine ⟨s, t, rfl, ⟨⟨free, layout⟩, owns, fun va => ?_, rfl, rfl, rfl, fun pa => ?_⟩⟩
    · rw [if_neg (by omega)]
    · exact ⟨fun held => ⟨held, fun p low high => by omega⟩, And.left⟩
  | succ n ih =>
    have first : a / PGSIZE * PGSIZE = a := Nat.div_mul_cancel (Nat.dvd_of_mod_eq_zero aligned)
    obtain ⟨e, found₀, leaf⟩ := leaves (a / PGSIZE) le_rfl (by omega)
    have found : t.pte a = some e := by rwa [first] at found₀
    have inside : a < TRAPFRAME := by
      have room := below
      unfold PGSIZE at room
      omega
    have held : t.holds (.user (a / PGSIZE)) = some (PTE2PA e) := holds_user (by rwa [first]) found₀
    obtain ⟨s₁, released, erased, layout₁⟩ := layout.release positive (owns.mem _ _ held)
    have nodup : s.allocated.Nodup := (List.nodup_append.mp layout.nodup).2.1
    have rest : Leaves (t.setLeaf (a / PGSIZE) 0) ((a + PGSIZE) / PGSIZE) n := by
      intro p low high
      have other : p * PGSIZE / PGSIZE ≠ a / PGSIZE := by
        rw [Nat.mul_div_cancel p (by decide)]
        unfold PGSIZE at low ⊢
        omega
      rw [pte_setLeaf_of_ne other]
      exact leaves p (by unfold PGSIZE at low ⊢; omega) (by unfold PGSIZE at high ⊢; omega)
    obtain ⟨s', t', loop, done⟩ := ih layout₁ (owns.unmap held erased) (by unfold PGSIZE at aligned ⊢; omega)
      (by rw [Nat.succ_mul] at below; omega) rest
    have next : (a + PGSIZE) / PGSIZE = a / PGSIZE + 1 := by unfold PGSIZE at aligned ⊢; omega
    rw [next] at done
    refine ⟨s', t', (uvmunmapLoop_succ found leaf released).trans loop, done.layout, done.owns, fun va => ?_,
      done.root, done.mid, done.low, fun pa => ?_⟩
    · rw [done.pte, pte_setLeaf_zero]
      split_ifs <;> first | rfl | omega
    · rw [done.freed, erased, nodup.mem_erase_iff]
      constructor
      · rintro ⟨⟨other, mem⟩, later⟩
        refine ⟨mem, fun p low high => ?_⟩
        by_cases here : p = a / PGSIZE
        · rw [here, held]
          exact fun same => other (Option.some.inj same).symm
        · rw [← holds_setLeaf_of_ne (e := 0) (show Slot.user p ≠ .user (a / PGSIZE) by simpa using here)]
          exact later p (by omega) (by omega)
      · rintro ⟨mem, never⟩
        refine ⟨⟨fun same => never (a / PGSIZE) le_rfl (by omega) (by rw [held, same]), mem⟩, fun p low high => ?_⟩
        rw [holds_setLeaf_of_ne (show Slot.user p ≠ .user (a / PGSIZE) by simp; omega)]
        exact never p (by omega) (by omega)

end Unmap

theorem Unmapped.pte_of_zero {kernelEnd : Nat} {s s' : Kalloc.Phys} {t t' : Radix} {lo : Nat}
    (unmapped : Unmapped kernelEnd s t s' t' lo 0) : t'.pte = t.pte := by
  funext va
  rw [unmapped.pte, if_neg (by omega)]

section Dealloc

variable {kernelEnd : Nat} {s : Kalloc.Phys} {t : Radix}

theorem Unmapped.refl {free : List Nat} (layout : Kalloc.Layout kernelEnd s free) (owns : Owns s t) (lo : Nat) :
    Unmapped kernelEnd s t s t lo 0 :=
  ⟨⟨free, layout⟩, owns, fun va => by rw [if_neg (by omega)], rfl, rfl, rfl,
    fun _ => ⟨fun held => ⟨held, fun _ _ _ => by omega⟩, And.left⟩⟩

/-- `uvmdealloc` where the pages it drops are mapped by leaves: it returns
`newsz`, or `oldsz` when that is not more, and unmaps and frees the pages from
`PGROUNDUP(newsz)` up to `PGROUNDUP(oldsz)`. -/
theorem uvmdealloc_spec (positive : 0 < kernelEnd) {free : List Nat} (layout : Kalloc.Layout kernelEnd s free)
    (owns : Owns s t) (oldsz newsz : Nat) (below : PGROUNDUP oldsz ≤ TRAPFRAME)
    (leaves : Leaves t (PGROUNDUP newsz / PGSIZE) ((PGROUNDUP oldsz - PGROUNDUP newsz) / PGSIZE)) :
    ∃ s' t', uvmdealloc kernelEnd s t oldsz newsz = .ok (s', t', if oldsz ≤ newsz then oldsz else newsz) ∧
      Unmapped kernelEnd s t s' t' (PGROUNDUP newsz / PGSIZE)
        (if oldsz ≤ newsz then 0 else (PGROUNDUP oldsz - PGROUNDUP newsz) / PGSIZE) := by
  unfold uvmdealloc
  by_cases grows : oldsz ≤ newsz
  · simp only [if_pos grows]
    exact ⟨s, t, rfl, .refl layout owns _⟩
  · simp only [if_neg grows]
    have lower := pgroundup_mono (Nat.le_of_lt (Nat.lt_of_not_le grows))
    split_ifs with fewer
    · have aligned := pgroundup_aligned newsz
      have whole := pgroundup_aligned oldsz
      obtain ⟨s', t', loop, done⟩ := uvmunmapLoop_spec positive ((PGROUNDUP oldsz - PGROUNDUP newsz) / PGSIZE)
        layout owns aligned (by unfold PGSIZE at aligned whole ⊢; omega) leaves
      refine ⟨s', t', ?_, done⟩
      rw [uvmunmap, if_neg (by omega), loop]
    · have same : PGROUNDUP oldsz - PGROUNDUP newsz = 0 := by omega
      rw [same, Nat.zero_div]
      exact ⟨s, t, rfl, .refl layout owns _⟩

end Dealloc

/-! ## `uvmalloc` -/

theorem page_of_pages {kernelEnd pa : Nat} (isPage : pa ∈ Kalloc.pages kernelEnd) : pa % PGSIZE = 0 ∧ pa < 2 ^ 64 := by
  obtain ⟨aligned, -, fits⟩ := Kalloc.mem_pages isPage
  rw [Kalloc.PHYSTOP_eq] at fits
  unfold Kalloc.PGSIZE at aligned fits
  exact ⟨by unfold PGSIZE; omega, by omega⟩

theorem page_of_held {kernelEnd : Nat} {s : Kalloc.Phys} {free : List Nat} (layout : Kalloc.Layout kernelEnd s free)
    {pa : Nat} (held : pa ∈ s.allocated) : pa % PGSIZE = 0 ∧ pa < 2 ^ 64 :=
  page_of_pages (layout.page (.inr held))

theorem pte_page (t : Radix) (va : Nat) : t.pte va = t.pte (va / PGSIZE * PGSIZE) := by
  have page : va / PGSIZE * PGSIZE / PGSIZE = va / PGSIZE := Nat.mul_div_cancel _ (by decide)
  have top : va / PGSIZE * PGSIZE < MAXVA ↔ va < MAXVA := by unfold PGSIZE MAXVA; omega
  have reach : t.reach (va / PGSIZE * PGSIZE) = t.reach va := by
    unfold Radix.reach
    rw [show va / PGSIZE * PGSIZE / 2 ^ 30 = va / 2 ^ 30 by unfold PGSIZE; omega,
      show va / PGSIZE * PGSIZE / 2 ^ 21 = va / 2 ^ 21 by unfold PGSIZE; omega]
  unfold Radix.pte
  simp only [page, top, reach]

theorem holds_user_congr {t t' : Radix} (same : t'.pte = t.pte) (p : Nat) : t'.holds (.user p) = t.holds (.user p) := by
  simp only [Radix.holds, same]

theorem holds_table_congr {t t' : Radix} (root : t'.root = t.root) (mid : t'.mid = t.mid) (low : t'.low = t.low)
    {x : Slot} (table : x.isTable) : t'.holds x = t.holds x := by
  cases x with
  | root => simp only [Radix.holds, root]
  | mid i => simp only [Radix.holds, mid]
  | low k => simp only [Radix.holds, mid, low]
  | user p => cases table

/-- Permissions `mappages` can give a leaf: `PTE_FLAGS` of the PTE it stores
is `perm | PTE_V`, and that is more than `PTE_V`. -/
def LeafPerm (perm : UInt64) : Prop := perm.toNat < 2 ^ 10 ∧ perm ||| PTE_V ≠ PTE_V

/-- The loop invariant of `uvmalloc` and `uvmcopy` from `(s₀, t₀)`, at the
page `hi` with the pages `lo, ..., hi - 1` done: each `p` is mapped with the
permissions `perm p`, every other PTE is as it was, the tables of `t₀` are
still there, and every page taken since is a table or one of those pages. -/
structure Growing (kernelEnd : Nat) (s₀ : Kalloc.Phys) (t₀ : Radix) (perm : Nat → UInt64) (lo : Nat) (s : Kalloc.Phys)
    (t : Radix) (hi : Nat) : Prop where
  layout : ∃ free, Kalloc.Layout kernelEnd s free
  owns : Owns s t
  mapped : ∀ p, lo ≤ p → p < hi → ∃ pa, pa < 2 ^ 64 ∧ t.pte (p * PGSIZE) = some (leafPte pa (perm p))
  kept : ∀ va, ¬ (lo ≤ va / PGSIZE ∧ va / PGSIZE < hi) → t.pte va = t₀.pte va
  root : t.root = t₀.root
  tables : ∀ x pa, x.isTable → t₀.holds x = some pa → t.holds x = some pa
  grown : ∀ pa ∈ s₀.allocated, pa ∈ s.allocated
  taken : ∀ pa ∈ s.allocated, pa ∈ s₀.allocated ∨ ∃ x, t.holds x = some pa ∧ (x.isTable ∨ ∃ p, x = .user p ∧ lo ≤ p ∧ p < hi)
  fresh : ∀ x pa, t.holds x = some pa → t₀.holds x = some pa ∨ pa ∉ s₀.allocated
  mids : ∀ i, (t.mid i).isSome → (t₀.mid i).isSome ∨ i < 2 ^ 8

section Growing

variable {kernelEnd : Nat} {s₀ s s₁ s₂ : Kalloc.Phys} {t₀ t t₂ : Radix} {perm : Nat → UInt64} {lo hi : Nat}

theorem Growing.start {free : List Nat} (layout : Kalloc.Layout kernelEnd s₀ free) (owns : Owns s₀ t₀) (lo : Nat) :
    Growing kernelEnd s₀ t₀ perm lo s₀ t₀ lo :=
  ⟨⟨free, layout⟩, owns, fun _ low high => by omega, fun _ _ => rfl, rfl, fun _ _ _ held => held,
    fun _ held => held, fun _ held => .inl held, fun _ _ held => .inl held, fun _ present => .inl present⟩

theorem Growing.leaves (growing : Growing kernelEnd s₀ t₀ perm lo s t hi)
    (leafy : ∀ p, lo ≤ p → p < hi → LeafPerm (perm p)) : Leaves t lo (hi - lo) := by
  intro p low high
  obtain ⟨pa, small, found⟩ := growing.mapped p low (by omega)
  have leaf := leafy p low (by omega)
  refine ⟨_, found, ?_⟩
  rw [flags_leafPte small leaf.1]
  exact leaf.2

/-- Unmapping and freeing the pages the loop mapped, where `t₀` mapped none
of them, leaves a tree that differs from `t₀` by tables only. -/
theorem Growing.undo (growing : Growing kernelEnd s₀ t₀ perm lo s t hi)
    (empty : ∀ p, lo ≤ p → p < hi → t₀.pte (p * PGSIZE) = none) {s' : Kalloc.Phys} {t' : Radix}
    (done : Unmapped kernelEnd s t s' t' lo (hi - lo)) : Grew kernelEnd s₀ t₀ s' t' := by
  have pte : t'.pte = t₀.pte := by
    funext va
    rw [done.pte]
    split_ifs with inside
    · rw [pte_page, empty _ inside.1 (by omega)]
    · exact growing.kept va (by omega)
  have tables : ∀ x, x.isTable → t'.holds x = t.holds x := fun x table => holds_table_congr done.root done.mid done.low table
  have userFresh : ∀ p pa, lo ≤ p → p < hi → t.holds (.user p) = some pa → pa ∉ s₀.allocated := by
    intro p pa low high held
    rcases growing.fresh _ _ held with old | new
    · simp [Radix.holds, empty p low high] at old
    · exact new
  refine ⟨done.layout, done.owns, pte, done.root.trans growing.root, ?_, ?_, ?_, ?_,
    fun i present => growing.mids i (by rwa [done.mid] at present)⟩
  · intro x pa held
    cases x with
    | user p => rwa [holds_user_congr pte]
    | _ => rw [tables _ rfl]; exact growing.tables _ pa rfl held
  · intro pa held
    exact (done.freed pa).mpr ⟨growing.grown pa held, fun p low high heldP => userFresh p pa low (by omega) heldP held⟩
  · intro pa held
    obtain ⟨mem, never⟩ := (done.freed pa).mp held
    rcases growing.taken pa mem with old | ⟨x, heldX, table | ⟨p, rfl, low, high⟩⟩
    · exact .inl old
    · exact .inr ⟨x, table, by rw [tables x table]; exact heldX⟩
    · exact absurd heldX (never p low (by omega))
  · intro x pa held
    cases x with
    | user p => exact .inl (by rwa [holds_user_congr pte] at held)
    | _ => exact growing.fresh _ pa (by rwa [tables _ rfl] at held)

/-- Both failure exits of `uvmalloc` end in `uvmdealloc(pagetable, a, oldsz)`:
it unmaps and frees the pages mapped so far, and what is left differs from
`t₀` by tables only. -/
theorem Growing.rollback (positive : 0 < kernelEnd) (growing : Growing kernelEnd s₀ t₀ perm lo s t hi)
    (leafy : ∀ p, lo ≤ p → p < hi → LeafPerm (perm p)) (below : hi * PGSIZE ≤ TRAPFRAME)
    (empty : ∀ p, lo ≤ p → p < hi → t₀.pte (p * PGSIZE) = none) :
    ∃ s' t' r, uvmdealloc kernelEnd s t (hi * PGSIZE) (lo * PGSIZE) = .ok (s', t', r) ∧ Grew kernelEnd s₀ t₀ s' t' := by
  obtain ⟨free, layout⟩ := growing.layout
  have roundHi : PGROUNDUP (hi * PGSIZE) = hi * PGSIZE := pgroundup_of_aligned (Nat.mul_mod_left _ _)
  have roundLo : PGROUNDUP (lo * PGSIZE) = lo * PGSIZE := pgroundup_of_aligned (Nat.mul_mod_left _ _)
  have start : lo * PGSIZE / PGSIZE = lo := Nat.mul_div_cancel lo (by decide)
  have count : (hi * PGSIZE - lo * PGSIZE) / PGSIZE = hi - lo := by
    rw [← Nat.sub_mul, Nat.mul_div_cancel _ (by decide)]
  obtain ⟨s', t', dealloc, done⟩ := uvmdealloc_spec positive layout growing.owns (hi * PGSIZE)
    (lo * PGSIZE) (by rw [roundHi]; exact below) (by rw [roundHi, roundLo, start, count]; exact growing.leaves leafy)
  have range : (if hi * PGSIZE ≤ lo * PGSIZE then 0 else (PGROUNDUP (hi * PGSIZE) - PGROUNDUP (lo * PGSIZE)) / PGSIZE) =
      hi - lo := by
    rw [roundHi, roundLo, count]
    split_ifs with none
    · have : hi ≤ lo := Nat.le_of_mul_le_mul_right none (by decide)
      omega
    · rfl
  rw [range, roundLo, start] at done
  exact ⟨s', t', _, dealloc, growing.undo empty done⟩

theorem unheld_after {page : Nat} (owns : Owns s t) (fresh : page ∉ s.allocated)
    (grown : s₁.allocated = page :: s.allocated) (grew : Grew kernelEnd s₁ t s₂ t₂) : ∀ x, t₂.holds x ≠ some page := by
  intro x held
  rcases grew.fresh x page held with old | new
  · exact fresh (owns.mem x page old)
  · exact new (by rw [grown]; exact List.mem_cons_self)

/-- A round whose `mappages` stored the PTE: one more page done. -/
theorem Growing.map (growing : Growing kernelEnd s₀ t₀ perm lo s t hi) (le : lo ≤ hi) (leafy : LeafPerm (perm hi))
    {page : Nat} (fresh : page ∉ s.allocated) (grown : s₁.allocated = page :: s.allocated) (small : page < 2 ^ 64)
    (aligned : page % PGSIZE = 0) (grew : Grew kernelEnd s₁ t s₂ t₂) (reached : t₂.reach (hi * PGSIZE) = true)
    (below : (hi + 1) * PGSIZE ≤ TRAPFRAME) (empty : t₀.pte (hi * PGSIZE) = none) :
    Growing kernelEnd s₀ t₀ perm lo s₂ (t₂.setLeaf hi (leafPte page (perm hi))) (hi + 1) := by
  have index : hi * PGSIZE / PGSIZE = hi := Nat.mul_div_cancel hi (by decide)
  have inside : hi * PGSIZE < TRAPFRAME := by
    have room : hi * PGSIZE + PGSIZE ≤ TRAPFRAME := by rwa [Nat.succ_mul] at below
    have positive : 0 < PGSIZE := by decide
    omega
  have top : hi * PGSIZE < MAXVA := by
    have := trapframe_below
    omega
  have stored : (t₂.setLeaf hi (leafPte page (perm hi))).pte (hi * PGSIZE) = some (leafPte page (perm hi)) := by
    have self := pte_setLeaf_self (t := t₂) (e := leafPte page (perm hi)) (hi * PGSIZE)
    rw [index] at self
    rw [self, if_pos ⟨top, reached, leafPte_valid small leafy.1⟩]
  have heldNew := holds_user inside stored
  rw [PTE2PA_leafPte aligned small leafy.1] at heldNew
  have unheld := unheld_after growing.owns fresh grown grew
  have others : ∀ x, x ≠ .user hi → (t₂.setLeaf hi (leafPte page (perm hi))).holds x = t₂.holds x :=
    fun x other => holds_setLeaf_of_ne other
  have inS₁ : page ∈ s₁.allocated := by rw [grown]; exact List.mem_cons_self
  have oldFresh : ∀ pa ∈ s₀.allocated, pa ∈ s.allocated := growing.grown
  refine ⟨grew.layout, ?_, ?_, ?_, ?_, ?_, ?_, ?_, ?_, fun i present => ?_⟩
  · refine grew.owns.claim (grew.grown _ inS₁) unheld (.user hi) fun x b held => ?_
    by_cases here : x = .user hi
    · rw [here, heldNew] at held
      exact .inr ⟨here, (Option.some.inj held).symm⟩
    · rw [others x here] at held
      exact .inl held
  · intro p low high
    by_cases here : p = hi
    · subst here
      exact ⟨page, small, stored⟩
    · rw [pte_setLeaf_of_ne (by rw [Nat.mul_div_cancel p (by decide)]; exact here), grew.pte]
      exact growing.mapped p low (by omega)
  · intro va outside
    rw [pte_setLeaf_of_ne (by omega), grew.pte]
    exact growing.kept va (by omega)
  · rw [setLeaf_root, grew.root, growing.root]
  · intro x pa table held
    rw [others x (Slot.ne_user table hi)]
    exact grew.kept x pa (growing.tables x pa table held)
  · intro pa held
    exact grew.grown pa (by rw [grown]; exact List.mem_cons_of_mem _ (growing.grown pa held))
  · intro pa held
    rcases grew.taken pa held with fromS₁ | ⟨x, table, heldX⟩
    · rw [grown] at fromS₁
      rcases List.mem_cons.mp fromS₁ with rfl | fromS
      · exact .inr ⟨.user hi, heldNew, .inr ⟨hi, rfl, by omega, by omega⟩⟩
      · rcases growing.taken pa fromS with old | ⟨x, heldX, kind⟩
        · exact .inl old
        · have other : x ≠ .user hi := by
            rintro rfl
            have unmapped : t.pte (hi * PGSIZE) = none := by
              rw [growing.kept _ (by rw [index]; omega)]
              exact empty
            rw [Radix.holds, unmapped, Option.map_none, ite_self] at heldX
            cases heldX
          refine .inr ⟨x, by rw [others x other]; exact grew.kept x pa heldX, ?_⟩
          rcases kind with table | ⟨p, same, low, high⟩
          · exact .inl table
          · exact .inr ⟨p, same, low, by omega⟩
    · exact .inr ⟨x, by rw [others x (Slot.ne_user table hi)]; exact heldX, .inl table⟩
  · intro x pa held
    by_cases here : x = .user hi
    · rw [here, heldNew] at held
      cases held
      exact .inr fun mem => fresh (oldFresh _ mem)
    · rw [others x here] at held
      rcases grew.fresh x pa held with old | new
      · exact growing.fresh x pa old
      · exact .inr fun mem => new (by rw [grown]; exact List.mem_cons_of_mem _ (oldFresh pa mem))
  · rcases grew.mids i (by rwa [setLeaf_mid] at present) with old | root
    · exact growing.mids i old
    · exact .inr root

/-- A round whose `mappages` found no slot: the page goes back. -/
theorem Growing.unwind (positive : 0 < kernelEnd) (growing : Growing kernelEnd s₀ t₀ perm lo s t hi) {page : Nat}
    (fresh : page ∉ s.allocated) (grown : s₁.allocated = page :: s.allocated) (grew : Grew kernelEnd s₁ t s₂ t₂) :
    ∃ s₃, Kalloc.release kernelEnd s₂ page = some s₃ ∧ Growing kernelEnd s₀ t₀ perm lo s₃ t₂ hi := by
  obtain ⟨free, layout⟩ := grew.layout
  have inS₁ : page ∈ s₁.allocated := by rw [grown]; exact List.mem_cons_self
  have unheld := unheld_after growing.owns fresh grown grew
  obtain ⟨s₃, released, erased, layout₃⟩ := layout.release positive (grew.grown _ inS₁)
  have nodup : s₂.allocated.Nodup := (List.nodup_append.mp layout.nodup).2.1
  have notOld : ∀ pa ∈ s₀.allocated, pa ≠ page := fun pa mem same => fresh (same ▸ growing.grown pa mem)
  refine ⟨s₃, released, ⟨_, layout₃⟩, ?_, fun p low high => ?_, fun va outside => ?_, grew.root.trans growing.root,
    fun x pa table held => grew.kept x pa (growing.tables x pa table held), fun pa held => ?_, fun pa held => ?_,
    fun x pa held => ?_, fun i present => ?_⟩
  · unfold Owns
    rw [erased]
    exact grew.owns.erase unheld fun _ _ held => held
  · rw [grew.pte]
    exact growing.mapped p low high
  · rw [grew.pte]
    exact growing.kept va outside
  · rw [erased, nodup.mem_erase_iff]
    exact ⟨notOld pa held, grew.grown pa (by rw [grown]; exact List.mem_cons_of_mem _ (growing.grown pa held))⟩
  · rw [erased, nodup.mem_erase_iff] at held
    obtain ⟨other, mem⟩ := held
    rcases grew.taken pa mem with fromS₁ | ⟨x, table, heldX⟩
    · rw [grown] at fromS₁
      rcases List.mem_cons.mp fromS₁ with same | fromS
      · exact absurd same other
      · rcases growing.taken pa fromS with old | ⟨x, heldX, kind⟩
        · exact .inl old
        · exact .inr ⟨x, grew.kept x pa heldX, kind⟩
    · exact .inr ⟨x, heldX, .inl table⟩
  · rcases grew.fresh x pa held with old | new
    · exact growing.fresh x pa old
    · exact .inr fun mem => new (by rw [grown]; exact List.mem_cons_of_mem _ (growing.grown pa mem))
  · rcases grew.mids i present with old | root
    · exact growing.mids i old
    · exact .inr root

end Growing

/-- Every byte where `mem` differs from `mem₀` is on a page `kalloc` handed
out after `s₀`. -/
def FreshWrites (kernelEnd : Nat) (s₀ : Kalloc.Phys) (mem₀ mem : Nat → UInt8) : Prop :=
  ∀ x, mem x ≠ mem₀ x → ∃ pa ∈ Kalloc.pages kernelEnd, pa ∉ s₀.allocated ∧ pa ≤ x ∧ x < pa + PGSIZE

/-- What the `memset`s or `memmove`s of a loop that maps the pages `lo, ...,
hi - 1` leave in memory: the page each of them maps holds `content p`, and
nothing else changed but pages taken since `s₀`. -/
structure Filled (kernelEnd : Nat) (s₀ : Kalloc.Phys) (mem₀ : Nat → UInt8) (content : Nat → List UInt8) (lo : Nat)
    (t : Radix) (hi : Nat) (mem : Nat → UInt8) : Prop where
  filled : ∀ p, lo ≤ p → p < hi → ∀ e, t.pte (p * PGSIZE) = some e → Flat.read mem (PTE2PA e) PGSIZE = content p
  frame : FreshWrites kernelEnd s₀ mem₀ mem

section Filled

variable {kernelEnd : Nat} {s₀ s : Kalloc.Phys} {mem₀ mem : Nat → UInt8} {content : Nat → List UInt8} {lo hi : Nat}
  {t : Radix}

theorem FreshWrites.refl (kernelEnd : Nat) (s₀ : Kalloc.Phys) (mem : Nat → UInt8) : FreshWrites kernelEnd s₀ mem mem :=
  fun _ changed => absurd rfl changed

theorem FreshWrites.mono {s₁ : Kalloc.Phys} (frame : FreshWrites kernelEnd s₁ mem₀ mem)
    (grown : ∀ pa ∈ s₀.allocated, pa ∈ s₁.allocated) : FreshWrites kernelEnd s₀ mem₀ mem := by
  intro x changed
  obtain ⟨pa, isPage, fresh, low, high⟩ := frame x changed
  exact ⟨pa, isPage, fun old => fresh (grown pa old), low, high⟩

theorem FreshWrites.write (frame : FreshWrites kernelEnd s₀ mem₀ mem) {page : Nat} (fresh : page ∉ s₀.allocated)
    (isPage : page ∈ Kalloc.pages kernelEnd) {a : Nat} {cells : List UInt8} (within : page ≤ a)
    (fits : a + cells.length ≤ page + PGSIZE) : FreshWrites kernelEnd s₀ mem₀ (Flat.write mem a cells) := by
  intro x changed
  by_cases inside : a ≤ x ∧ x < a + cells.length
  · exact ⟨page, isPage, fresh, by omega, by omega⟩
  · rw [Flat.write_outside mem a cells (by omega)] at changed
    exact frame x changed

theorem Filled.start (lo : Nat) : Filled kernelEnd s₀ mem₀ content lo t lo mem₀ :=
  ⟨fun _ low high => absurd high (by omega), .refl kernelEnd s₀ mem₀⟩

/-- A round that writes `content hi` to a page just taken and maps it at `hi`. -/
theorem Filled.write (filled : Filled kernelEnd s₀ mem₀ content lo t hi mem) {free : List Nat}
    (layout : Kalloc.Layout kernelEnd s free) (owns : Owns s t) (grown : ∀ pa ∈ s₀.allocated, pa ∈ s.allocated)
    {page : Nat} (fresh : page ∉ s.allocated) (isPage : page ∈ Kalloc.pages kernelEnd)
    (size : (content hi).length = PGSIZE) (below : (hi + 1) * PGSIZE ≤ TRAPFRAME) {t' : Radix}
    (kept : ∀ p, lo ≤ p → p < hi → t'.pte (p * PGSIZE) = t.pte (p * PGSIZE))
    (stored : ∀ e, t'.pte (hi * PGSIZE) = some e → PTE2PA e = page) :
    Filled kernelEnd s₀ mem₀ content lo t' (hi + 1) (Flat.write mem page (content hi)) := by
  have alignedPage := (page_of_pages isPage).1
  refine ⟨fun p low high e found => ?_, filled.frame.write (fun old => fresh (grown _ old)) isPage le_rfl
    (by rw [size])⟩
  by_cases here : p = hi
  · subst here
    rw [stored e found]
    have written := Flat.read_write mem page (content p)
    rwa [size] at written
  · have earlier : p < hi := by omega
    rw [kept p low earlier] at found
    have inside : p * PGSIZE < TRAPFRAME := by
      have : (p + 1) * PGSIZE ≤ (hi + 1) * PGSIZE := Nat.mul_le_mul_right _ (by omega)
      rw [Nat.succ_mul] at this
      unfold PGSIZE at *
      omega
    have handed := owns.mem _ _ (holds_user inside found)
    have other : PTE2PA e ≠ page := fun same => fresh (same ▸ handed)
    have aligned := (page_of_held layout handed).1
    rw [Flat.read_write_outside mem page (content hi) (by rw [size]; unfold PGSIZE at *; omega)]
    exact filled.filled p low earlier e found

end Filled

section AllocLoop

variable {kernelEnd : Nat} {s₀ : Kalloc.Phys} {t₀ : Radix} {lo : Nat}

theorem uvmalloc_perm : LeafPerm (PTE_W ||| PTE_X ||| PTE_R ||| PTE_U) := ⟨by decide, by decide⟩

theorem uvmallocLoop_done {s : Kalloc.Phys} {t : Radix} {hi newsz : Nat} (low : lo ≤ hi)
    (upto : hi * PGSIZE ≤ PGROUNDUP newsz ∨ hi = lo) (past : newsz ≤ hi * PGSIZE) (mem : Nat → UInt8) :
    uvmallocLoop kernelEnd s mem t (lo * PGSIZE) (hi * PGSIZE) newsz = .ok (s, mem, t, newsz) ∧
      max lo (PGROUNDUP newsz / PGSIZE) = hi := by
  refine ⟨by rw [uvmallocLoop, if_neg (Nat.not_lt.mpr past)], ?_⟩
  have round := pgroundup_aligned newsz
  have least := le_pgroundup newsz
  have close := pgroundup_lt newsz
  unfold PGSIZE at *
  omega

/-- The loop of `uvmalloc` from the page `hi` does not panic: it maps every
page up to `PGROUNDUP(newsz)` and returns `newsz`, or it undoes all it mapped
and returns 0. Induction on the pages left. -/
theorem uvmallocLoop_spec (positive : 0 < kernelEnd) {newsz : Nat} (room : PGROUNDUP newsz ≤ TRAPFRAME)
    (empty : ∀ p, lo ≤ p → p * PGSIZE < newsz → t₀.pte (p * PGSIZE) = none) {mem₀ : Nat → UInt8} (k : Nat) :
    ∀ hi s t mem, PGROUNDUP newsz / PGSIZE - hi = k → lo ≤ hi → (hi * PGSIZE ≤ PGROUNDUP newsz ∨ hi = lo) →
      Growing kernelEnd s₀ t₀ (fun _ => PTE_W ||| PTE_X ||| PTE_R ||| PTE_U) lo s t hi →
      Filled kernelEnd s₀ mem₀ (fun _ => List.replicate PGSIZE 0) lo t hi mem →
      ∃ s' mem' t' r, uvmallocLoop kernelEnd s mem t (lo * PGSIZE) (hi * PGSIZE) newsz = .ok (s', mem', t', r) ∧
        (r = newsz ∧
            Growing kernelEnd s₀ t₀ (fun _ => PTE_W ||| PTE_X ||| PTE_R ||| PTE_U) lo s' t' (max lo (PGROUNDUP newsz / PGSIZE)) ∧
            Filled kernelEnd s₀ mem₀ (fun _ => List.replicate PGSIZE 0) lo t' (max lo (PGROUNDUP newsz / PGSIZE)) mem' ∨
          r = 0 ∧ Grew kernelEnd s₀ t₀ s' t' ∧ FreshWrites kernelEnd s₀ mem₀ mem') := by
  have round := pgroundup_aligned newsz
  have least := le_pgroundup newsz
  induction k with
  | zero =>
    intro hi s t mem count low upto growing filled
    have past : newsz ≤ hi * PGSIZE := by unfold PGSIZE at *; omega
    obtain ⟨loop, top⟩ := @uvmallocLoop_done kernelEnd lo s t hi newsz low upto past mem
    exact ⟨s, mem, t, newsz, loop, .inl ⟨rfl, top ▸ growing, top ▸ filled⟩⟩
  | succ k ih =>
    intro hi s t mem count low upto growing filled
    by_cases more : hi * PGSIZE < newsz
    swap
    · obtain ⟨loop, top⟩ := @uvmallocLoop_done kernelEnd lo s t hi newsz low upto (Nat.not_lt.mp more) mem
      exact ⟨s, mem, t, newsz, loop, .inl ⟨rfl, top ▸ growing, top ▸ filled⟩⟩
    have next : (hi + 1) * PGSIZE ≤ PGROUNDUP newsz := by rw [Nat.succ_mul]; unfold PGSIZE at *; omega
    have below : hi * PGSIZE < MAXVA := by
      have := trapframe_below
      unfold PGSIZE at *
      omega
    have emptyHi : t₀.pte (hi * PGSIZE) = none := empty hi low more
    have belowT : hi * PGSIZE ≤ TRAPFRAME := (Nat.mul_le_mul_right _ (Nat.le_succ hi)).trans (next.trans room)
    have index : hi * PGSIZE / PGSIZE = hi := Nat.mul_div_cancel hi (by decide)
    have unmapped : t.pte (hi * PGSIZE) = none := by
      rw [growing.kept _ (by rw [index]; omega)]
      exact emptyHi
    have emptyBefore : ∀ p, lo ≤ p → p < hi → t₀.pte (p * PGSIZE) = none := fun p low' high =>
      empty p low' (by
        have : p * PGSIZE < hi * PGSIZE := Nat.mul_lt_mul_of_pos_right high (by decide)
        omega)
    obtain ⟨free, layout⟩ := growing.layout
    rw [uvmallocLoop, if_pos more]
    rcases layout.take with ⟨handed, -⟩ | ⟨rest, -, nonzero, fresh, grown, layout₁⟩
    · obtain ⟨s', t', r, dealloc, grew⟩ := growing.rollback positive (fun _ _ _ => uvmalloc_perm) belowT emptyBefore
      simp only [handed, if_true, dealloc]
      exact ⟨s', mem, t', 0, rfl, .inr ⟨rfl, grew, filled.frame⟩⟩
    rcases taken : Kalloc.take s with ⟨s₁, page⟩
    simp only [taken] at nonzero fresh grown layout₁ ⊢
    rw [if_neg nonzero]
    have owns₁ : Owns s₁ t := by
      unfold Owns
      rw [grown]
      exact growing.owns.cons page
    obtain ⟨aligned, small⟩ := page_of_held layout₁ (by rw [grown]; exact List.mem_cons_self)
    have isPage := layout₁.page (.inr (by rw [grown]; exact List.mem_cons_self))
    obtain ⟨s₂, t₂, found, grew, reached, mapped⟩ :=
      mappages_page layout₁ owns₁ (Nat.mul_mod_left hi PGSIZE) below unmapped page (PTE_W ||| PTE_X ||| PTE_R ||| PTE_U)
    simp only [mapped]
    cases found with
    | true =>
      have growing' := growing.map low uvmalloc_perm fresh grown small aligned grew (reached rfl) (next.trans room) emptyHi
      have stored : ∀ e, (t₂.setLeaf hi (leafPte page (PTE_W ||| PTE_X ||| PTE_R ||| PTE_U))).pte (hi * PGSIZE) = some e →
          PTE2PA e = page := by
        intro e found
        have valid : leafPte page (PTE_W ||| PTE_X ||| PTE_R ||| PTE_U) &&& PTE_V ≠ 0 := leafPte_valid small (by decide)
        have leaf := pte_setLeaf_valid below (reached rfl) valid
        rw [index, found] at leaf
        cases leaf
        exact PTE2PA_leafPte aligned small (by decide)
      have filled' := filled.write layout growing.owns growing.grown fresh isPage (List.length_replicate ..)
        (next.trans room)
        (fun p _ high => by
          rw [pte_setLeaf_of_ne (by rw [Nat.mul_div_cancel p (by decide)]; omega), grew.pte]) stored
      rw [index]
      simp only [if_true, ne_eq, not_true_eq_false, if_false]
      rw [show hi * PGSIZE + PGSIZE = (hi + 1) * PGSIZE by rw [Nat.succ_mul]]
      exact ih (hi + 1) s₂ _ _ (by omega) (by omega) (.inl next) growing' filled'
    | false =>
      obtain ⟨s₃, released, growing₃⟩ := growing.unwind positive fresh grown grew
      obtain ⟨s', t', r, dealloc, grew'⟩ := growing₃.rollback positive (fun _ _ _ => uvmalloc_perm) belowT emptyBefore
      simp only [Bool.false_eq_true, if_false, ne_eq, Int.reduceNeg, released, dealloc]
      exact ⟨s', _, t', 0, rfl, .inr ⟨rfl, grew', filled.frame.write (fun old => fresh (growing.grown _ old)) isPage
        le_rfl (by rw [List.length_replicate])⟩⟩

end AllocLoop

/-- `uvmalloc(pagetable, oldsz, newsz)` where no page from `PGROUNDUP(oldsz)`
below `newsz` is mapped, and `PGROUNDUP(newsz) ≤ TRAPFRAME`, does not panic.
For `newsz < oldsz` it returns `oldsz` and changes nothing. Otherwise it
returns `newsz` with the pages from `PGROUNDUP(oldsz)` to `PGROUNDUP(newsz)`
mapped to pages it took, or 0 with every PTE as it was and every page it took
for them given back. -/
theorem uvmalloc_spec {kernelEnd : Nat} (positive : 0 < kernelEnd) {s : Kalloc.Phys} {t : Radix} {free : List Nat}
    (layout : Kalloc.Layout kernelEnd s free) (owns : Owns s t) {oldsz newsz : Nat} (room : PGROUNDUP newsz ≤ TRAPFRAME)
    (empty : ∀ p, PGROUNDUP oldsz ≤ p * PGSIZE → p * PGSIZE < newsz → t.pte (p * PGSIZE) = none) (mem : Nat → UInt8) :
    ∃ s' mem' t' r, uvmalloc kernelEnd s mem t oldsz newsz = .ok (s', mem', t', r) ∧
      (newsz < oldsz → s' = s ∧ mem' = mem ∧ t' = t ∧ r = oldsz) ∧
      (oldsz ≤ newsz →
        r = newsz ∧ Growing kernelEnd s t (fun _ => PTE_W ||| PTE_X ||| PTE_R ||| PTE_U) (PGROUNDUP oldsz / PGSIZE) s' t'
            (PGROUNDUP newsz / PGSIZE) ∧
            Filled kernelEnd s mem (fun _ => List.replicate PGSIZE 0) (PGROUNDUP oldsz / PGSIZE) t'
              (PGROUNDUP newsz / PGSIZE) mem' ∨
          r = 0 ∧ Grew kernelEnd s t s' t' ∧ FreshWrites kernelEnd s mem mem') := by
  unfold uvmalloc
  by_cases shrinks : newsz < oldsz
  · exact ⟨s, mem, t, oldsz, by rw [if_pos shrinks], fun _ => ⟨rfl, rfl, rfl, rfl⟩,
      fun grows => absurd grows (by omega)⟩
  rw [if_neg shrinks]
  have start : PGROUNDUP oldsz / PGSIZE * PGSIZE = PGROUNDUP oldsz :=
    Nat.div_mul_cancel (Nat.dvd_of_mod_eq_zero (pgroundup_aligned oldsz))
  obtain ⟨s', mem', t', r, loop, result⟩ := @uvmallocLoop_spec kernelEnd s t (PGROUNDUP oldsz / PGSIZE)
    positive _ room (fun p low high => empty p (by
      have := Nat.mul_le_mul_right PGSIZE low
      rwa [start] at this) high) mem _ _ s t mem rfl le_rfl (.inr rfl) (.start layout owns _) (.start _)
  rw [start] at loop
  have top : max (PGROUNDUP oldsz / PGSIZE) (PGROUNDUP newsz / PGSIZE) = PGROUNDUP newsz / PGSIZE :=
    max_eq_right (Nat.div_le_div_right (pgroundup_mono (Nat.le_of_not_lt shrinks)))
  rw [top] at result
  exact ⟨s', mem', t', r, loop, fun shrinking => absurd shrinking shrinks, fun _ => result⟩

/-! ## `freewalk` and `uvmfree` -/

/-- The slots `freewalk` of the root's PTE `i` frees: the level-1 table and the
level-0 tables under it. -/
def Slot.under (i : Nat) : Slot → Prop
  | .mid j => j = i
  | .low k => k / 2 ^ 9 = i
  | _ => False

theorem Slot.under_unique {x : Slot} {i j : Nat} (first : x.under i) (second : x.under j) : i = j := by
  cases x <;> simp only [Slot.under] at first second <;> omega

/-- After `kfree` of the pages the slots `gone` of `t` hold, one by one: the
pages still allocated are those of `s` that no slot of `gone` holds. -/
structure Freed (kernelEnd : Nat) (t : Radix) (s s' : Kalloc.Phys) (gone : Slot → Prop) : Prop where
  layout : ∃ free, Kalloc.Layout kernelEnd s' free
  freed : ∀ pa, pa ∈ s'.allocated ↔ pa ∈ s.allocated ∧ ∀ x, gone x → t.holds x ≠ some pa

section Freewalk

variable {kernelEnd : Nat} {s s₁ : Kalloc.Phys} {t : Radix} {gone : Slot → Prop}

theorem Freed.start {free : List Nat} (layout : Kalloc.Layout kernelEnd s free) :
    Freed kernelEnd t s s fun _ => False :=
  ⟨⟨free, layout⟩, fun _ => ⟨fun held => ⟨held, fun _ never => never.elim⟩, And.left⟩⟩

theorem Freed.congr {gone' : Slot → Prop} (freed : Freed kernelEnd t s s₁ gone) (same : ∀ x, gone x ↔ gone' x) :
    Freed kernelEnd t s s₁ gone' :=
  ⟨freed.layout, fun pa => by simp only [freed.freed pa, same]⟩

theorem Freed.of_holds {t' : Radix} (freed : Freed kernelEnd t' s s₁ gone)
    (same : t'.holds = t.holds) : Freed kernelEnd t s s₁ gone :=
  ⟨freed.layout, fun pa => by rw [freed.freed pa, same]⟩

/-- Slots that hold nothing are done without a call. -/
theorem Freed.skip {extra : Slot → Prop} (freed : Freed kernelEnd t s s₁ gone)
    (empty : ∀ x, extra x → t.holds x = none) : Freed kernelEnd t s s₁ fun x => gone x ∨ extra x := by
  refine ⟨freed.layout, fun pa => ?_⟩
  rw [freed.freed pa]
  constructor
  · rintro ⟨mem, never⟩
    refine ⟨mem, fun x goneX held => ?_⟩
    rcases goneX with old | new
    · exact never x old held
    · rw [empty x new] at held
      cases held
  · rintro ⟨mem, never⟩
    exact ⟨mem, fun x old => never x (.inl old)⟩

/-- `kfree` of the page of a slot not freed yet does not panic. -/
theorem Freed.kfree (positive : 0 < kernelEnd) (owns : Owns s t) (freed : Freed kernelEnd t s s₁ gone) {x : Slot}
    {pa : Nat} (held : t.holds x = some pa) (fresh : ¬ gone x) :
    ∃ s₂, kfree kernelEnd s₁ pa = .ok s₂ ∧ Freed kernelEnd t s s₂ fun y => gone y ∨ y = x := by
  obtain ⟨free, layout⟩ := freed.layout
  have mem : pa ∈ s₁.allocated := (freed.freed pa).mpr
    ⟨owns.mem x pa held, fun y goneY heldY => fresh (owns.inj y x pa heldY held ▸ goneY)⟩
  obtain ⟨s₂, released, erased, layout₂⟩ := layout.release positive mem
  have nodup : s₁.allocated.Nodup := (List.nodup_append.mp layout.nodup).2.1
  refine ⟨s₂, by rw [Uvm.kfree, released], ⟨_, layout₂⟩, fun pb => ?_⟩
  rw [erased, nodup.mem_erase_iff, freed.freed pb]
  constructor
  · rintro ⟨other, mem, never⟩
    refine ⟨mem, fun y goneY heldY => ?_⟩
    rcases goneY with old | rfl
    · exact never y old heldY
    · exact other (Option.some.inj (heldY.symm.trans held))
  · rintro ⟨mem, never⟩
    refine ⟨fun same => never x (.inr rfl) (by rw [same]; exact held), mem, fun y old => never y (.inl old)⟩

theorem not_mem_done {l done rest : List Nat} {a : Nat} (nodup : l.Nodup) (whole : done ++ a :: rest = l) :
    a ∉ done := fun mem => by
  rw [← whole] at nodup
  exact (List.nodup_append.mp nodup).2.2 a mem a List.mem_cons_self rfl

/-- Below a level-0 table that `walk` reaches below `MAXVA`, a PTE that
`Radix.pte` does not report is not valid. -/
theorem leaf_invalid_of_cleared (cleared : ∀ va, t.pte va = none) {k : Nat} (root : k / 2 ^ 9 < 2 ^ 8)
    (mid : (t.mid (k / 2 ^ 9)).isSome) (low : (t.low k).isSome) {l : Nat} (inside : l < 2 ^ 9) :
    t.leaf (k * 2 ^ 9 + l) &&& PTE_V = 0 := by
  have page : (k * 2 ^ 9 + l) * PGSIZE / PGSIZE = k * 2 ^ 9 + l := Nat.mul_div_cancel _ (by decide)
  have below : (k * 2 ^ 9 + l) * PGSIZE < MAXVA := by
    unfold PGSIZE MAXVA
    omega
  have reached : t.reach ((k * 2 ^ 9 + l) * PGSIZE) = true := by
    have atMid : (k * 2 ^ 9 + l) * PGSIZE / 2 ^ 30 = k / 2 ^ 9 := by
      unfold PGSIZE
      omega
    have atLow : (k * 2 ^ 9 + l) * PGSIZE / 2 ^ 21 = k := by
      unfold PGSIZE
      omega
    rw [Radix.reach, atMid, atLow, mid, low]
    rfl
  have invalid := leaf_invalid below reached (cleared _)
  rwa [page] at invalid

theorem exists_block (k i : Nat) : (∃ j < 512, k = i * 512 + j) ↔ k / 512 = i := by
  constructor
  · rintro ⟨j, inside, rfl⟩
    omega
  · intro atI
    exact ⟨k % 512, Nat.mod_lt _ (by decide), by omega⟩

theorem freewalkLow_spec (positive : 0 < kernelEnd) (owns : Owns s t) (freed : Freed kernelEnd t s s₁ gone)
    {k pa : Nat} (held : t.holds (.low k) = some pa) (fresh : ¬ gone (.low k))
    (invalid : ∀ l < 512, t.leaf (k * 2 ^ 9 + l) &&& PTE_V = 0) :
    ∃ s₂, freewalkLow kernelEnd s₁ t k pa = .ok s₂ ∧ Freed kernelEnd t s s₂ fun y => gone y ∨ y = .low k := by
  have clear : ((List.range 512).all fun l => t.leaf (k * 2 ^ 9 + l) &&& PTE_V = 0) = true :=
    List.all_eq_true.mpr fun l mem => decide_eq_true (invalid l (List.mem_range.mp mem))
  rw [freewalkLow, if_pos clear]
  exact freed.kfree positive owns held fresh

theorem freewalkMid_spec (positive : 0 < kernelEnd) (owns : Owns s t) (cleared : ∀ va, t.pte va = none)
    (freed : Freed kernelEnd t s s₁ gone) {i pa : Nat} (root : i < 2 ^ 8) (held : t.mid i = some pa)
    (fresh : ∀ x, x.under i → ¬ gone x) :
    ∃ s₂, freewalkMid kernelEnd s₁ t i pa = .ok s₂ ∧ Freed kernelEnd t s s₂ fun y => gone y ∨ y.under i := by
  have present : (t.mid i).isSome := by rw [held]; rfl
  have turn : ∀ done j rest s', done ++ j :: rest = List.range 512 →
      (Freed kernelEnd t s s' fun y => gone y ∨ ∃ j' ∈ done, y = .low (i * 2 ^ 9 + j')) →
      ∃ s'', freewalkMidTurn kernelEnd t i s' j = .ok s'' ∧
        Freed kernelEnd t s s'' fun y => gone y ∨ ∃ j' ∈ done ++ [j], y = .low (i * 2 ^ 9 + j') := by
    intro done j rest s' whole inv
    have inRange : j < 512 := List.mem_range.mp (by rw [← whole]; simp)
    have notDone := not_mem_done List.nodup_range whole
    have under : (Slot.low (i * 2 ^ 9 + j)).under i := by simp only [Slot.under]; omega
    have grown : ∀ y, ((gone y ∨ ∃ j' ∈ done, y = .low (i * 2 ^ 9 + j')) ∨ y = .low (i * 2 ^ 9 + j)) ↔
        gone y ∨ ∃ j' ∈ done ++ [j], y = .low (i * 2 ^ 9 + j') := by
      intro y
      simp only [List.mem_append, List.mem_singleton]
      grind
    cases low : t.low (i * 2 ^ 9 + j) with
    | none =>
      refine ⟨s', by rw [freewalkMidTurn, low], (inv.skip fun y same => ?_).congr grown⟩
      rw [same, Radix.holds, low, ite_self]
    | some page =>
      have atLow : t.holds (.low (i * 2 ^ 9 + j)) = some page := by
        rw [Radix.holds, if_pos (by rw [show (i * 2 ^ 9 + j) / 2 ^ 9 = i by omega]; exact present), low]
      have notGone : ¬ (gone (.low (i * 2 ^ 9 + j)) ∨ ∃ j' ∈ done, Slot.low (i * 2 ^ 9 + j) = .low (i * 2 ^ 9 + j')) := by
        rintro (old | ⟨j', mem, same⟩)
        · exact fresh _ under old
        · have : j = j' := by simp at same; omega
          exact notDone (this ▸ mem)
      have invalid : ∀ l < 512, t.leaf ((i * 2 ^ 9 + j) * 2 ^ 9 + l) &&& PTE_V = 0 := by
        intro l inside
        have atMid : (i * 2 ^ 9 + j) / 2 ^ 9 = i := by omega
        exact leaf_invalid_of_cleared cleared (by rw [atMid]; exact root) (by rw [atMid]; exact present)
          (by rw [low]; rfl) inside
      obtain ⟨s₂, walked, done'⟩ := freewalkLow_spec positive owns inv atLow notGone invalid
      exact ⟨s₂, by rw [freewalkMidTurn, low]; exact walked, done'.congr grown⟩
  obtain ⟨s₂, loop, looped⟩ := Machine.foldlM_invariant (List.range 512) turn (freed.congr fun y => by simp)
  have table : t.holds (.mid i) = some pa := held
  obtain ⟨s₃, released, done⟩ := looped.kfree positive owns table (by
    rintro (old | ⟨j, -, other⟩)
    · exact fresh (.mid i) rfl old
    · cases other)
  have result : freewalkMid kernelEnd s₁ t i pa = .ok s₃ := by
    unfold freewalkMid
    rw [loop]
    exact released
  refine ⟨s₃, result, done.congr fun y => ?_⟩
  cases y <;> simp [Slot.under, exists_block]

/-- Freeing the slots `gone` is freeing every slot when the others hold nothing. -/
theorem Freed.all (freed : Freed kernelEnd t s s₁ gone) (empty : ∀ x, ¬ gone x → t.holds x = none) :
    Freed kernelEnd t s s₁ fun _ => True := by
  refine ⟨freed.layout, fun pa => ?_⟩
  rw [freed.freed pa]
  constructor
  · rintro ⟨mem, never⟩
    refine ⟨mem, fun x _ held => ?_⟩
    by_cases goneX : gone x
    · exact never x goneX held
    · rw [empty x goneX] at held
      cases held
  · rintro ⟨mem, never⟩
    exact ⟨mem, fun x _ => never x trivial⟩

/-- `freewalk` of a page table where no PTE is valid and every level-1 table
hangs off a root PTE for addresses below `MAXVA` does not panic, and it frees
every page the page table holds and no other. -/
theorem freewalk_spec (positive : 0 < kernelEnd) {free : List Nat} (layout : Kalloc.Layout kernelEnd s free)
    (owns : Owns s t) (tree : t.Tree) (cleared : ∀ va, t.pte va = none) :
    ∃ s', freewalk kernelEnd s t = .ok s' ∧ Freed kernelEnd t s s' fun _ => True := by
  have turn : ∀ done i rest s', done ++ i :: rest = List.range 512 →
      (Freed kernelEnd t s s' fun y => ∃ i' ∈ done, y.under i') →
      ∃ s'', freewalkTurn kernelEnd t s' i = .ok s'' ∧
        Freed kernelEnd t s s'' fun y => ∃ i' ∈ done ++ [i], y.under i' := by
    intro done i rest s' whole inv
    have notDone := not_mem_done List.nodup_range whole
    have grown : ∀ y : Slot, ((∃ i' ∈ done, y.under i') ∨ y.under i) ↔ ∃ i' ∈ done ++ [i], y.under i' := by
      intro y
      simp only [List.mem_append, List.mem_singleton]
      grind
    cases mid : t.mid i with
    | none =>
      refine ⟨s', by rw [freewalkTurn, mid], (inv.skip fun y under => ?_).congr grown⟩
      cases y with
      | mid j =>
        simp only [Slot.under] at under
        rw [under]
        exact mid
      | low k =>
        simp only [Slot.under] at under
        rw [Radix.holds, under, mid]
        rfl
      | root => cases under
      | user p => cases under
    | some page =>
      obtain ⟨s'', walked, done'⟩ := freewalkMid_spec positive owns cleared inv (tree i (by rw [mid]; rfl)) mid
        fun x under earlier => by
          obtain ⟨i', mem, under'⟩ := earlier
          exact notDone (Slot.under_unique under under' ▸ mem)
      exact ⟨s'', by rw [freewalkTurn, mid]; exact walked, done'.congr grown⟩
  obtain ⟨s₁, loop, looped⟩ :=
    Machine.foldlM_invariant (List.range 512) turn ((Freed.start layout).congr fun y => by simp)
  obtain ⟨s₂, released, done⟩ := looped.kfree positive owns (show t.holds .root = some t.root from rfl)
    (by rintro ⟨i, -, under⟩; exact under)
  have result : freewalk kernelEnd s t = .ok s₂ := by
    unfold freewalk
    rw [loop]
    exact released
  refine ⟨s₂, result, done.all fun x outside => ?_⟩
  cases x with
  | root => exact absurd (.inr rfl) outside
  | mid i =>
    cases mid : t.mid i with
    | none => exact mid
    | some page =>
      have root := tree i (by rw [mid]; rfl)
      exact absurd (.inl ⟨i, List.mem_range.mpr (by omega), rfl⟩) outside
  | low k =>
    rw [Radix.holds]
    split_ifs with present
    · have root := tree _ present
      exact absurd (.inl ⟨k / 2 ^ 9, List.mem_range.mpr (by omega), rfl⟩) outside
    · rfl
  | user p =>
    rw [Radix.holds, cleared, Option.map_none, ite_self]

/-- `uvmunmap` and then the freeing of every slot of what is left frees every
slot of the page table before, when no user page outside the range was held. -/
theorem Freed.after_unmap {s₂ : Kalloc.Phys} {t₁ : Radix} {lo n : Nat}
    (unmapped : Unmapped kernelEnd s t s₁ t₁ lo n) (freed : Freed kernelEnd t₁ s₁ s₂ fun _ => True)
    (outside : ∀ p, ¬ (lo ≤ p ∧ p < lo + n) → t.holds (.user p) = none) : Freed kernelEnd t s s₂ fun _ => True := by
  have tables : ∀ x, x.isTable → t₁.holds x = t.holds x := fun x table =>
    holds_table_congr unmapped.root unmapped.mid unmapped.low table
  have users : ∀ p, t₁.holds (.user p) = none := by
    intro p
    simp only [Radix.holds, unmapped.pte, Nat.mul_div_cancel p (show 0 < PGSIZE by decide)]
    split_ifs with below inside
    · rfl
    · have := outside p inside
      simp only [Radix.holds, if_pos below] at this
      exact this
    · rfl
  refine ⟨freed.layout, fun pa => ?_⟩
  rw [freed.freed pa, unmapped.freed pa]
  constructor
  · rintro ⟨⟨mem, unheld⟩, never⟩
    refine ⟨mem, fun x _ held => ?_⟩
    by_cases table : x.isTable
    · exact never x trivial (by rw [tables x table]; exact held)
    cases x with
    | user p =>
      by_cases inside : lo ≤ p ∧ p < lo + n
      · exact unheld p inside.1 inside.2 held
      · rw [outside p inside] at held
        cases held
    | _ => exact absurd rfl table
  · rintro ⟨mem, never⟩
    refine ⟨⟨mem, fun p _ _ => never (.user p) trivial⟩, fun x _ held => ?_⟩
    by_cases table : x.isTable
    · exact never x trivial (by rw [← tables x table]; exact held)
    cases x with
    | user p =>
      rw [users p] at held
      cases held
    | _ => exact absurd rfl table

/-- `uvmfree(pagetable, sz)` of a page table whose user pages are the ones below
`PGROUNDUP(sz)`, each mapped by a leaf, with no other valid PTE, does not panic,
and it frees every page the page table holds and no other. -/
theorem uvmfree_spec (positive : 0 < kernelEnd) {free : List Nat} (layout : Kalloc.Layout kernelEnd s free)
    (owns : Owns s t) (tree : t.Tree) {sz : Nat} (below : PGROUNDUP sz ≤ TRAPFRAME)
    (leaves : Leaves t 0 (PGROUNDUP sz / PGSIZE)) (cleared : ∀ va, PGROUNDUP sz ≤ va → t.pte va = none) :
    ∃ s', uvmfree kernelEnd s t sz = .ok s' ∧ Freed kernelEnd t s s' fun _ => True := by
  by_cases empty : 0 < sz
  · have whole : PGROUNDUP sz / PGSIZE * PGSIZE = PGROUNDUP sz :=
      Nat.div_mul_cancel (Nat.dvd_of_mod_eq_zero (pgroundup_aligned sz))
    obtain ⟨s₁, t₁, unmap, unmapped⟩ := uvmunmapLoop_spec positive (PGROUNDUP sz / PGSIZE) layout owns
      (Nat.zero_mod _) (by rw [whole, Nat.zero_add]; exact below) (by rw [Nat.zero_div]; exact leaves)
    rw [Nat.zero_div] at unmapped
    obtain ⟨free₁, layout₁⟩ := unmapped.layout
    have cleared₁ : ∀ va, t₁.pte va = none := by
      intro va
      rw [unmapped.pte]
      split_ifs with inside
      · rfl
      · apply cleared
        have : PGROUNDUP sz / PGSIZE ≤ va / PGSIZE := Nat.le_of_not_lt fun lt => inside ⟨Nat.zero_le _, by omega⟩
        calc PGROUNDUP sz = PGROUNDUP sz / PGSIZE * PGSIZE := whole.symm
          _ ≤ va / PGSIZE * PGSIZE := Nat.mul_le_mul_right _ this
          _ ≤ va := Nat.div_mul_le_self va PGSIZE
    have tree₁ : t₁.Tree := fun i present => tree i (by rwa [unmapped.mid] at present)
    obtain ⟨s', walked, freed⟩ := freewalk_spec positive layout₁ unmapped.owns tree₁ cleared₁
    refine ⟨s', ?_, freed.after_unmap unmapped fun p outside => ?_⟩
    · rw [uvmfree, if_pos empty, uvmunmap, if_neg (by rw [Nat.zero_mod]; exact not_not.mpr rfl), unmap]
      exact walked
    · have beyond : PGROUNDUP sz ≤ p * PGSIZE := by
        rw [← whole]
        exact Nat.mul_le_mul_right _ (by omega)
      rw [Radix.holds, cleared _ beyond, Option.map_none, ite_self]
  · have zero : sz = 0 := by omega
    subst zero
    obtain ⟨s', walked, freed⟩ := freewalk_spec positive layout owns tree fun va => cleared va (Nat.zero_le _)
    exact ⟨s', by rw [uvmfree, if_neg empty]; exact walked, freed⟩

end Freewalk

end Xv6.Uvm
