import Xv6.Mem.Vm
import Xv6.Mem.Kalloc
import Xv6.Lib.Holding

/-! User page tables (`kernel/vm.c`: `walk`, `mappages`). A page table is kept
as the tree `walk` descends: the level-1 table the root's entry for `va`
points to, the level-0 table the level-1 entry points to, and the level-0
PTEs; the tables' own bytes are not kept in memory. Table pages come from
`kalloc` of `Xv6.Kalloc`, whose `allocated` list holds every page a client
has. The view `Radix.pte` is the valid PTE `walk` finds for an address, and
`Radix.holds` the page each table and each user page is; a page table owns
its pages when no two of them are one page and all are allocated. A call
returns `.error` for a panic. -/
namespace Xv6.Uvm

open Vm

def PTE_R : UInt64 := (1 : UInt64) <<< 1
def PTE_W : UInt64 := (1 : UInt64) <<< 2
def PTE_X : UInt64 := (1 : UInt64) <<< 3

/-- `((((uint64)pa) >> 12) << 10)`. -/
def PA2PTE (pa : Nat) : UInt64 := (pa.toUInt64 >>> 12) <<< 10

/-- `(pte) & 0x3FF`. -/
def PTE_FLAGS (pte : UInt64) : UInt64 := pte &&& 0x3FF

/-- `(((sz)+PGSIZE-1) & ~(PGSIZE-1))`. -/
def PGROUNDUP (sz : Nat) : Nat := (sz + PGSIZE - 1) / PGSIZE * PGSIZE

def TRAMPOLINE : Nat := MAXVA - PGSIZE
def TRAPFRAME : Nat := TRAMPOLINE - PGSIZE

/-- A page table as `walk` descends it. Below `MAXVA`, `va / 2^30` is the
root's index `PX(2, va)`, `va / 2^21` the pair of `PX(2, va)` and
`PX(1, va)`, and `va / PGSIZE` all three indices. -/
structure Radix where
  /-- The root page, `pagetable` itself. -/
  root : Nat
  /-- The level-1 table the root's valid entry `i` points to. -/
  mid : Nat → Option Nat
  /-- The level-0 table the valid level-1 entry for `va / 2^21` points to. -/
  low : Nat → Option Nat
  /-- The level-0 PTE for the page `va / PGSIZE`. -/
  leaf : Nat → UInt64

/-- Both tables above the PTE of `va` are there. -/
def Radix.reach (t : Radix) (va : Nat) : Bool := (t.mid (va / 2 ^ 30)).isSome && (t.low (va / 2 ^ 21)).isSome

/-- `walk(pagetable, va, 0)`: the PTE's slot where both tables above it are
there, `none` for the null `walk` returns. -/
def walk (t : Radix) (va : Nat) : Except String (Option Nat) :=
  if MAXVA ≤ va then .error "walk" else if t.reach va then .ok (some (va / PGSIZE)) else .ok none

/-- `memset(pagetable, 0, PGSIZE); *pte = PA2PTE(pagetable) | PTE_V;` for the
root's entry `i`: the page `pa` becomes its level-1 table, with no entry valid. -/
def Radix.addMid (t : Radix) (i pa : Nat) : Radix :=
  { t with mid := Function.update t.mid i (some pa), low := fun k => if k / 2 ^ 9 = i then none else t.low k }

/-- The same for the level-1 entry `k`: `pa` becomes its level-0 table, every PTE 0. -/
def Radix.addLow (t : Radix) (k pa : Nat) : Radix :=
  { t with low := Function.update t.low k (some pa), leaf := fun p => if p / 2 ^ 9 = k then 0 else t.leaf p }

/-- The level-2 round of `walk(pagetable, va, 1)`: where the root's entry is
not valid, a page from `kalloc` becomes the level-1 table; `false` when
`kalloc` returns 0. -/
def walkRoot (s : Kalloc.Phys) (t : Radix) (va : Nat) : Kalloc.Phys × Radix × Bool :=
  match t.mid (va / 2 ^ 30) with
  | some _ => (s, t, true)
  | none =>
    let (s, pa) := Kalloc.take s
    if pa = 0 then (s, t, false) else (s, t.addMid (va / 2 ^ 30) pa, true)

/-- The level-1 round of `walk(pagetable, va, 1)`. -/
def walkMid (s : Kalloc.Phys) (t : Radix) (va : Nat) : Kalloc.Phys × Radix × Bool :=
  match t.low (va / 2 ^ 21) with
  | some _ => (s, t, true)
  | none =>
    let (s, pa) := Kalloc.take s
    if pa = 0 then (s, t, false) else (s, t.addLow (va / 2 ^ 21) pa, true)

/-- `*pte = e` for the PTE of page `p`. -/
def Radix.setLeaf (t : Radix) (p : Nat) (e : UInt64) : Radix := { t with leaf := Function.update t.leaf p e }

/-- `walk(pagetable, va, 1)`: `true` for the PTE's slot, `false` for 0. -/
def walkAlloc (s : Kalloc.Phys) (t : Radix) (va : Nat) : Except String (Kalloc.Phys × Radix × Bool) :=
  if MAXVA ≤ va then .error "walk"
  else
    let (s, t, found) := walkRoot s t va
    if found then .ok (walkMid s t va) else .ok (s, t, false)

/-- The PTE `mappages` stores: `PA2PTE(pa) | perm | PTE_V`. -/
def leafPte (pa : Nat) (perm : UInt64) : UInt64 := PA2PTE pa ||| perm ||| PTE_V

/-- The loop of `mappages` at `a`, with `n` more pages after it up to `last`. -/
def mappagesLoop (s : Kalloc.Phys) (t : Radix) (a pa : Nat) (perm : UInt64) (n : Nat) :
    Except String (Kalloc.Phys × Radix × Int) :=
  match walkAlloc s t a with
  | .error e => .error e
  | .ok (s, t, false) => .ok (s, t, -1)
  | .ok (s, t, true) =>
    if t.leaf (a / PGSIZE) &&& PTE_V ≠ 0 then .error "mappages: remap"
    else
      let t := t.setLeaf (a / PGSIZE) (leafPte pa perm)
      match n with
      | 0 => .ok (s, t, 0)
      | n + 1 => mappagesLoop s t (a + PGSIZE) (pa + PGSIZE) perm n

/-- `mappages(pagetable, va, size, pa, perm)`: the pages from `PGROUNDDOWN(va)`
to `last = PGROUNDDOWN(va + size - 1)`, the loop's count of them. -/
def mappages (s : Kalloc.Phys) (t : Radix) (va size pa : Nat) (perm : UInt64) : Except String (Kalloc.Phys × Radix × Int) :=
  if size = 0 then .error "mappages: size"
  else mappagesLoop s t (PGROUNDDOWN va) pa perm ((PGROUNDDOWN (va + size - 1) - PGROUNDDOWN va) / PGSIZE)

/-! ## PTEs -/

section Pte

variable {pa : Nat} {perm : UInt64}

theorem toNat_leafPte (small : pa < 2 ^ 64) (low : perm.toNat < 2 ^ 10) :
    (leafPte pa perm).toNat = pa / 4096 * 1024 + (perm ||| PTE_V).toNat := by
  have bits : (perm ||| PTE_V).toNat < 2 ^ 10 := by
    rw [UInt64.toNat_or]
    exact Nat.or_lt_two_pow low (by decide)
  have shifted : (PA2PTE pa).toNat = pa / 4096 * 1024 := by
    simp only [PA2PTE, UInt64.toNat_shiftLeft, UInt64.toNat_shiftRight, Nat.toUInt64_eq, UInt64.toNat_ofNat']
    simp only [UInt64.reduceToNat, Nat.reduceMod, Nat.shiftLeft_eq, Nat.shiftRight_eq_div_pow]
    omega
  have joined := Nat.shiftLeft_add_eq_or_of_lt bits (pa / 4096)
  rw [Nat.shiftLeft_eq] at joined
  rw [leafPte, UInt64.or_assoc, UInt64.toNat_or, shifted, ← joined]

theorem PTE2PA_leafPte (aligned : pa % PGSIZE = 0) (small : pa < 2 ^ 64) (low : perm.toNat < 2 ^ 10) :
    PTE2PA (leafPte pa perm) = pa := by
  have bits : (perm ||| PTE_V).toNat < 2 ^ 10 := by
    rw [UInt64.toNat_or]
    exact Nat.or_lt_two_pow low (by decide)
  unfold PTE2PA
  rw [UInt64.toNat_shiftLeft, UInt64.toNat_shiftRight, toNat_leafPte small low]
  simp only [UInt64.reduceToNat, Nat.reduceMod, Nat.shiftLeft_eq, Nat.shiftRight_eq_div_pow]
  unfold PGSIZE at aligned
  omega

theorem flags_leafPte (small : pa < 2 ^ 64) (low : perm.toNat < 2 ^ 10) :
    PTE_FLAGS (leafPte pa perm) = perm ||| PTE_V := by
  have bits : (perm ||| PTE_V).toNat < 2 ^ 10 := by
    rw [UInt64.toNat_or]
    exact Nat.or_lt_two_pow low (by decide)
  apply UInt64.toNat_inj.mp
  rw [PTE_FLAGS, UInt64.toNat_and, toNat_leafPte small low]
  rw [show (0x3FF : UInt64).toNat = 2 ^ 10 - 1 from rfl, Nat.and_two_pow_sub_one_eq_mod]
  omega

theorem and_flags (pte b : UInt64) (low : 0x3FF &&& b = b) : pte &&& b = PTE_FLAGS pte &&& b := by
  rw [PTE_FLAGS, UInt64.and_assoc, low]

theorem flags_lt (pte : UInt64) : (PTE_FLAGS pte).toNat < 2 ^ 10 := by
  rw [PTE_FLAGS, UInt64.toNat_and]
  exact Nat.lt_of_le_of_lt Nat.and_le_right (by decide)

theorem or_valid (perm : UInt64) : (perm ||| PTE_V) &&& PTE_V = PTE_V := by
  apply UInt64.toNat_inj.mp
  rw [UInt64.toNat_and, UInt64.toNat_or, show PTE_V.toNat = 1 from rfl, Nat.and_one_is_mod]
  have low := Nat.or_mod_two_pow (a := perm.toNat) (b := 1) (n := 1)
  rw [pow_one] at low
  rcases Nat.mod_two_eq_zero_or_one perm.toNat with even | odd
  · rw [low, even]
    rfl
  · rw [low, odd]
    rfl

theorem leafPte_valid (small : pa < 2 ^ 64) (low : perm.toNat < 2 ^ 10) : leafPte pa perm &&& PTE_V ≠ 0 := by
  rw [and_flags _ _ (by decide), flags_leafPte small low, or_valid]
  decide

end Pte

/-! ## What a page table maps and holds -/

/-- The valid PTE `walk` finds for `va`. -/
def Radix.pte (t : Radix) (va : Nat) : Option UInt64 :=
  if va < MAXVA ∧ t.reach va = true ∧ t.leaf (va / PGSIZE) &&& PTE_V ≠ 0 then some (t.leaf (va / PGSIZE)) else none

/-- A place in a page table that holds a page. -/
inductive Slot where
  | root
  | mid (i : Nat)
  | low (k : Nat)
  | user (p : Nat)
  deriving DecidableEq

def Slot.isTable : Slot → Bool
  | .user _ => false
  | _ => true

theorem Slot.ne_user {x : Slot} (table : x.isTable) (p : Nat) : x ≠ .user p := by
  rintro rfl
  cases table

theorem trapframe_below : TRAPFRAME + 2 * PGSIZE = MAXVA := by decide
theorem trampoline_aligned : TRAMPOLINE % PGSIZE = 0 := by decide
theorem trapframe_aligned : TRAPFRAME % PGSIZE = 0 := by decide
theorem trampoline_below : TRAMPOLINE < MAXVA := by decide
theorem trapframe_below_trampoline : TRAPFRAME < TRAMPOLINE := by decide

/-- The page a slot holds: a table `walk` reaches, or the page a valid PTE for
a user address below `TRAPFRAME` maps. -/
def Radix.holds (t : Radix) : Slot → Option Nat
  | .root => some t.root
  | .mid i => t.mid i
  | .low k => if (t.mid (k / 2 ^ 9)).isSome then t.low k else none
  | .user p => if p * PGSIZE < TRAPFRAME then (t.pte (p * PGSIZE)).map PTE2PA else none

/-- Every page the page table holds is one `kalloc` handed out, and no two of
its slots hold the same page. -/
def Owns (s : Kalloc.Phys) (t : Radix) : Prop := Holding.Into t.holds s.allocated

theorem Owns.congr {s : Kalloc.Phys} {t t' : Radix} (owns : Owns s t) (same : t'.holds = t.holds) : Owns s t' := by
  unfold Owns
  rw [same]
  exact owns

@[simp] theorem addMid_root (t : Radix) (i pa : Nat) : (t.addMid i pa).root = t.root := rfl
@[simp] theorem addMid_mid (t : Radix) (i pa : Nat) : (t.addMid i pa).mid = Function.update t.mid i (some pa) := rfl
@[simp] theorem addMid_low (t : Radix) (i pa : Nat) :
    (t.addMid i pa).low = fun k => if k / 2 ^ 9 = i then none else t.low k := rfl
@[simp] theorem addMid_leaf (t : Radix) (i pa : Nat) : (t.addMid i pa).leaf = t.leaf := rfl
@[simp] theorem addLow_root (t : Radix) (k pa : Nat) : (t.addLow k pa).root = t.root := rfl
@[simp] theorem addLow_mid (t : Radix) (k pa : Nat) : (t.addLow k pa).mid = t.mid := rfl
@[simp] theorem addLow_low (t : Radix) (k pa : Nat) : (t.addLow k pa).low = Function.update t.low k (some pa) := rfl
@[simp] theorem addLow_leaf (t : Radix) (k pa : Nat) :
    (t.addLow k pa).leaf = fun p => if p / 2 ^ 9 = k then 0 else t.leaf p := rfl

theorem pte_addMid {t : Radix} {i : Nat} (absent : t.mid i = none) (pa : Nat) : (t.addMid i pa).pte = t.pte := by
  funext va
  have same : (t.addMid i pa).reach va = t.reach va := by
    rw [Radix.reach, Radix.reach, addMid_mid, addMid_low]
    beta_reduce
    by_cases here : va / 2 ^ 30 = i
    · rw [if_pos (show va / 2 ^ 21 / 2 ^ 9 = i by omega), here, absent]
      simp
    · rw [if_neg (show ¬ va / 2 ^ 21 / 2 ^ 9 = i by omega), Function.update_of_ne here]
  rw [Radix.pte, Radix.pte, same, addMid_leaf]

theorem pte_addLow {t : Radix} {k : Nat} (absent : t.low k = none) (pa : Nat) : (t.addLow k pa).pte = t.pte := by
  funext va
  rw [Radix.pte, Radix.pte, Radix.reach, Radix.reach, addLow_mid, addLow_low, addLow_leaf]
  beta_reduce
  by_cases here : va / 2 ^ 21 = k
  · rw [here, Function.update_self, absent, if_pos (show va / PGSIZE / 2 ^ 9 = k by unfold PGSIZE; omega)]
    simp
  · rw [Function.update_of_ne here, if_neg (show ¬ va / PGSIZE / 2 ^ 9 = k by unfold PGSIZE; omega)]

theorem holds_addMid {t : Radix} {i : Nat} (absent : t.mid i = none) (pa : Nat) (x : Slot) :
    (t.addMid i pa).holds x = if x = .mid i then some pa else t.holds x := by
  cases x with
  | root => rfl
  | mid j =>
    rw [Radix.holds, Radix.holds, addMid_mid]
    by_cases here : j = i
    · rw [here, Function.update_self, if_pos rfl]
    · rw [Function.update_of_ne here, if_neg (show ¬ Slot.mid j = .mid i by simpa using here)]
  | low k =>
    rw [Radix.holds, Radix.holds, addMid_mid, addMid_low, if_neg (show ¬ Slot.low k = .mid i by simp)]
    beta_reduce
    by_cases under : k / 2 ^ 9 = i
    · rw [if_pos under, under, absent]
      simp
    · rw [if_neg under, Function.update_of_ne under]
  | user p => rw [Radix.holds, Radix.holds, pte_addMid absent, if_neg (show ¬ Slot.user p = .mid i by simp)]

theorem holds_addLow {t : Radix} {k : Nat} (absent : t.low k = none) (present : (t.mid (k / 2 ^ 9)).isSome)
    (pa : Nat) (x : Slot) : (t.addLow k pa).holds x = if x = .low k then some pa else t.holds x := by
  cases x with
  | root => rfl
  | mid j => rfl
  | low j =>
    rw [Radix.holds, Radix.holds, addLow_mid, addLow_low]
    by_cases here : j = k
    · rw [here, Function.update_self, if_pos rfl, if_pos present]
    · rw [Function.update_of_ne here, if_neg (show ¬ Slot.low j = .low k by simpa using here)]
  | user p => rw [Radix.holds, Radix.holds, pte_addLow absent, if_neg (show ¬ Slot.user p = .low k by simp)]

/-- A page `kalloc` just handed out may go to one slot that held none. -/
theorem Owns.take {s : Kalloc.Phys} {t t' : Radix} {slot : Slot} (owns : Owns s t)
    (fresh : (Kalloc.take s).2 ∉ s.allocated) (grown : (Kalloc.take s).1.allocated = (Kalloc.take s).2 :: s.allocated)
    (holds : ∀ x, t'.holds x = if x = slot then some (Kalloc.take s).2 else t.holds x) :
    Owns (Kalloc.take s).1 t' := by
  unfold Owns
  rw [grown]
  refine (owns.cons _).claim List.mem_cons_self (fun x held => fresh (owns.mem x _ held)) slot ?_
  intro x b held
  rw [holds x] at held
  split_ifs at held with here
  · exact .inr ⟨here, (Option.some.inj held).symm⟩
  · exact .inl held

/-! ## `walk` with `alloc` set -/

/-- Every level-1 table hangs off a root PTE `walk` uses, one for addresses
below `MAXVA`: the first 256 of the root's 512. -/
def Radix.Tree (t : Radix) : Prop := ∀ i, (t.mid i).isSome → i < 2 ^ 8

/-- `t'` is `t` with more tables, made of pages `kalloc` handed out; every
PTE `walk` finds is as it was. -/
structure Grew (kernelEnd : Nat) (s : Kalloc.Phys) (t : Radix) (s' : Kalloc.Phys) (t' : Radix) : Prop where
  layout : ∃ free, Kalloc.Layout kernelEnd s' free
  owns : Owns s' t'
  pte : t'.pte = t.pte
  root : t'.root = t.root
  kept : ∀ x pa, t.holds x = some pa → t'.holds x = some pa
  grown : ∀ pa ∈ s.allocated, pa ∈ s'.allocated
  taken : ∀ pa ∈ s'.allocated, pa ∈ s.allocated ∨ ∃ x, x.isTable ∧ t'.holds x = some pa
  fresh : ∀ x pa, t'.holds x = some pa → t.holds x = some pa ∨ pa ∉ s.allocated
  mids : ∀ i, (t'.mid i).isSome → (t.mid i).isSome ∨ i < 2 ^ 8

section Grew

variable {kernelEnd : Nat} {s s' s'' : Kalloc.Phys} {t t' t'' : Radix}

theorem Grew.refl {free : List Nat} (layout : Kalloc.Layout kernelEnd s free) (owns : Owns s t) :
    Grew kernelEnd s t s t :=
  ⟨⟨free, layout⟩, owns, rfl, rfl, fun _ _ held => held, fun _ held => held, fun _ held => .inl held,
    fun _ _ held => .inl held, fun _ present => .inl present⟩

theorem Grew.trans (first : Grew kernelEnd s t s' t') (second : Grew kernelEnd s' t' s'' t'') :
    Grew kernelEnd s t s'' t'' where
  layout := second.layout
  owns := second.owns
  pte := second.pte.trans first.pte
  root := second.root.trans first.root
  kept x pa held := second.kept x pa (first.kept x pa held)
  grown pa held := second.grown pa (first.grown pa held)
  taken pa held := by
    rcases second.taken pa held with old | new
    · rcases first.taken pa old with older | ⟨x, table, atX⟩
      · exact .inl older
      · exact .inr ⟨x, table, second.kept x pa atX⟩
    · exact .inr new
  fresh x pa held := by
    rcases second.fresh x pa held with old | new
    · exact first.fresh x pa old
    · exact .inr fun mem => new (first.grown pa mem)
  mids i present := by
    rcases second.mids i present with old | root
    · exact first.mids i old
    · exact .inr root

theorem Grew.tree (grew : Grew kernelEnd s t s' t') (tree : t.Tree) : t'.Tree := fun i present => by
  rcases grew.mids i present with old | root
  · exact tree i old
  · exact root

/-- A table made of the page `kalloc` hands out, at a slot that held none. -/
theorem Grew.take {free : List Nat} (layout : Kalloc.Layout kernelEnd s free) (owns : Owns s t)
    (nonzero : (Kalloc.take s).2 ≠ 0) (slot : Slot) (table : slot.isTable) (inRoot : ∀ i, slot = .mid i → i < 2 ^ 8)
    (empty : t.holds slot = none) (pte : t'.pte = t.pte) (root : t'.root = t.root)
    (holds : ∀ x, t'.holds x = if x = slot then some (Kalloc.take s).2 else t.holds x) :
    Grew kernelEnd s t (Kalloc.take s).1 t' := by
  rcases layout.take with ⟨handed, -⟩ | ⟨rest, -, -, fresh, grown, layout'⟩
  · rw [handed] at nonzero
    exact absurd rfl nonzero
  refine ⟨⟨rest, layout'⟩, owns.take fresh grown holds, pte, root, ?_, ?_, ?_, fun x pa held => ?_, fun i present => ?_⟩
  · intro x pa held
    rw [holds x, if_neg]
    · exact held
    · rintro rfl
      rw [empty] at held
      cases held
  · intro pa held
    rw [grown]
    exact List.mem_cons_of_mem _ held
  · intro pa held
    rw [grown] at held
    rcases List.mem_cons.mp held with rfl | old
    · exact .inr ⟨slot, table, by rw [holds slot, if_pos rfl]⟩
    · exact .inl old
  · rw [holds x] at held
    split_ifs at held with here
    · exact .inr ((Option.some.inj held) ▸ fresh)
    · exact .inl held
  · have atI : t'.mid i = if Slot.mid i = slot then some (Kalloc.take s).2 else t.mid i := holds (.mid i)
    rw [atI] at present
    split_ifs at present with here
    · exact .inr (inRoot i here.symm)
    · exact .inl present

theorem walkRoot_grew {free : List Nat} (layout : Kalloc.Layout kernelEnd s free) (owns : Owns s t) {va : Nat}
    (below : va < MAXVA) :
    Grew kernelEnd s t (walkRoot s t va).1 (walkRoot s t va).2.1 ∧
      ((walkRoot s t va).2.2 = true → ((walkRoot s t va).2.1.mid (va / 2 ^ 30)).isSome) := by
  unfold walkRoot
  split
  next present => exact ⟨.refl layout owns, fun _ => by rw [present]; rfl⟩
  next absent =>
    dsimp only
    split_ifs with failed
    · rcases layout.take with ⟨handed, -⟩ | ⟨-, -, nonzero, -⟩
      · rw [handed]
        exact ⟨.refl layout owns, fun found => by cases found⟩
      · exact absurd failed nonzero
    · have inRoot : ∀ i, Slot.mid (va / 2 ^ 30) = .mid i → i < 2 ^ 8 := by
        intro i same
        cases same
        unfold MAXVA at below
        omega
      refine ⟨.take layout owns failed (.mid (va / 2 ^ 30)) rfl inRoot absent (pte_addMid absent _) rfl
        (holds_addMid absent _), fun _ => by simp [Radix.addMid]⟩

theorem walkMid_grew {free : List Nat} (layout : Kalloc.Layout kernelEnd s free) (owns : Owns s t) {va : Nat}
    (present : (t.mid (va / 2 ^ 30)).isSome) :
    Grew kernelEnd s t (walkMid s t va).1 (walkMid s t va).2.1 ∧
      ((walkMid s t va).2.2 = true → (walkMid s t va).2.1.reach va = true) := by
  have above : va / 2 ^ 21 / 2 ^ 9 = va / 2 ^ 30 := by omega
  unfold walkMid
  split
  next found =>
    refine ⟨.refl layout owns, fun _ => ?_⟩
    show t.reach va = true
    rw [Radix.reach, present, found]
    rfl
  next absent =>
    dsimp only
    split_ifs with failed
    · rcases layout.take with ⟨handed, -⟩ | ⟨-, -, nonzero, -⟩
      · rw [handed]
        exact ⟨.refl layout owns, fun found => by cases found⟩
      · exact absurd failed nonzero
    · have empty : t.holds (.low (va / 2 ^ 21)) = none := by rw [Radix.holds, absent, ite_self]
      refine ⟨.take layout owns failed (.low (va / 2 ^ 21)) rfl (fun _ other => by cases other) empty
        (pte_addLow absent _) rfl
        (holds_addLow absent (above ▸ present) _), fun _ => ?_⟩
      show (t.addLow (va / 2 ^ 21) _).reach va = true
      rw [Radix.reach, addLow_mid, addLow_low, Function.update_self, present]
      rfl

/-- `walk(pagetable, va, 1)` below `MAXVA` does not panic; it adds tables and
changes no PTE `walk` finds, and it finds the slot of `va` unless `kalloc`
failed. -/
theorem walkAlloc_spec {free : List Nat} (layout : Kalloc.Layout kernelEnd s free) (owns : Owns s t) {va : Nat}
    (below : va < MAXVA) :
    ∃ s' t' found, walkAlloc s t va = .ok (s', t', found) ∧ Grew kernelEnd s t s' t' ∧
      (found = true → t'.reach va = true) := by
  obtain ⟨root, rooted⟩ := walkRoot_grew layout owns below
  unfold walkAlloc
  rw [if_neg (Nat.not_le.mpr below)]
  dsimp only
  split_ifs with found
  · obtain ⟨free', layout'⟩ := root.layout
    obtain ⟨mid, reached⟩ := walkMid_grew layout' root.owns (rooted found)
    exact ⟨_, _, _, rfl, root.trans mid, reached⟩
  · exact ⟨_, _, false, rfl, root, fun found => by cases found⟩

end Grew

/-! ## Storing one PTE -/

section SetLeaf

variable {t : Radix} {p : Nat} {e : UInt64}

@[simp] theorem setLeaf_root : (t.setLeaf p e).root = t.root := rfl
@[simp] theorem setLeaf_mid : (t.setLeaf p e).mid = t.mid := rfl
@[simp] theorem setLeaf_low : (t.setLeaf p e).low = t.low := rfl
@[simp] theorem reach_setLeaf : (t.setLeaf p e).reach = t.reach := rfl

theorem pte_setLeaf_of_ne {va : Nat} (other : va / PGSIZE ≠ p) : (t.setLeaf p e).pte va = t.pte va := by
  unfold Radix.pte
  rw [reach_setLeaf]
  simp only [Radix.setLeaf, Function.update_of_ne other]

theorem pte_setLeaf_self (va : Nat) :
    (t.setLeaf (va / PGSIZE) e).pte va = if va < MAXVA ∧ t.reach va = true ∧ e &&& PTE_V ≠ 0 then some e else none := by
  unfold Radix.pte
  rw [reach_setLeaf]
  simp only [Radix.setLeaf, Function.update_self]

theorem pte_setLeaf_zero (va : Nat) : (t.setLeaf p 0).pte va = if va / PGSIZE = p then none else t.pte va := by
  split_ifs with here
  · subst here
    rw [pte_setLeaf_self]
    simp
  · exact pte_setLeaf_of_ne here

theorem holds_setLeaf_of_ne {x : Slot} (other : x ≠ .user p) : (t.setLeaf p e).holds x = t.holds x := by
  cases x with
  | user q =>
    have page : q * PGSIZE / PGSIZE ≠ p := by
      rw [Nat.mul_div_cancel q (by decide)]
      exact fun same => other (same ▸ rfl)
    simp only [Radix.holds, pte_setLeaf_of_ne page]
  | _ => rfl

theorem pte_setLeaf_valid {va : Nat} (below : va < MAXVA) (reached : t.reach va = true) (valid : e &&& PTE_V ≠ 0) :
    (t.setLeaf (va / PGSIZE) e).pte va = some e := by
  rw [pte_setLeaf_self, if_pos ⟨below, reached, valid⟩]

theorem holds_setLeaf_top (top : TRAPFRAME ≤ p * PGSIZE) : (t.setLeaf p e).holds = t.holds := by
  funext x
  by_cases here : x = .user p
  · subst here
    simp only [Radix.holds, if_neg (Nat.not_lt.mpr top)]
  · exact holds_setLeaf_of_ne here

end SetLeaf

theorem walk_of_pte {t : Radix} {va : Nat} {e : UInt64} (found : t.pte va = some e) :
    walk t va = .ok (some (va / PGSIZE)) ∧ t.leaf (va / PGSIZE) = e ∧ e &&& PTE_V ≠ 0 := by
  unfold Radix.pte at found
  split_ifs at found with mapped
  obtain ⟨below, reached, valid⟩ := mapped
  cases found
  exact ⟨by rw [walk, if_neg (Nat.not_le.mpr below), if_pos reached], rfl, valid⟩

theorem holds_user {t : Radix} {p : Nat} {e : UInt64} (below : p * PGSIZE < TRAPFRAME) (found : t.pte (p * PGSIZE) = some e) :
    t.holds (.user p) = some (PTE2PA e) := by
  simp only [Radix.holds, if_pos below, found, Option.map_some]

/-! ## `PGROUNDUP` -/

theorem pgroundup_aligned (sz : Nat) : PGROUNDUP sz % PGSIZE = 0 := Nat.mul_mod_left _ _

theorem le_pgroundup (sz : Nat) : sz ≤ PGROUNDUP sz := by
  unfold PGROUNDUP PGSIZE
  omega

theorem pgroundup_lt (sz : Nat) : PGROUNDUP sz < sz + PGSIZE := by
  unfold PGROUNDUP PGSIZE
  omega

theorem pgroundup_of_aligned {sz : Nat} (aligned : sz % PGSIZE = 0) : PGROUNDUP sz = sz := by
  unfold PGROUNDUP
  unfold PGSIZE at aligned ⊢
  omega

theorem pgroundup_mono {a b : Nat} (le : a ≤ b) : PGROUNDUP a ≤ PGROUNDUP b := by
  unfold PGROUNDUP PGSIZE
  exact Nat.mul_le_mul_right _ (Nat.div_le_div_right (by omega))

theorem lt_pgroundup_iff (sz p : Nat) : p * PGSIZE < PGROUNDUP sz ↔ p * PGSIZE < sz := by
  unfold PGROUNDUP PGSIZE
  omega

/-! ## `mappages` of one page -/

theorem leaf_invalid {t : Radix} {va : Nat} (below : va < MAXVA) (reached : t.reach va = true)
    (unmapped : t.pte va = none) : t.leaf (va / PGSIZE) &&& PTE_V = 0 := by
  unfold Radix.pte at unmapped
  by_contra valid
  rw [if_pos ⟨below, reached, valid⟩] at unmapped
  cases unmapped

/-- `mappages` of the one page at an aligned `va` below `MAXVA` that no valid
PTE maps does not panic: after `walk` has added what tables it could, it
stores `PA2PTE(pa) | perm | PTE_V` and returns 0, or returns -1 when `walk`
found no slot. -/
theorem mappages_page {kernelEnd : Nat} {s : Kalloc.Phys} {t : Radix} {free : List Nat}
    (layout : Kalloc.Layout kernelEnd s free) (owns : Owns s t) {va : Nat} (aligned : va % PGSIZE = 0)
    (below : va < MAXVA) (unmapped : t.pte va = none) (pa : Nat) (perm : UInt64) :
    ∃ s₁ t₁ found, Grew kernelEnd s t s₁ t₁ ∧ (found = true → t₁.reach va = true) ∧
      mappages s t va PGSIZE pa perm =
        .ok (if found then (s₁, t₁.setLeaf (va / PGSIZE) (leafPte pa perm), 0) else (s₁, t₁, -1)) := by
  obtain ⟨s₁, t₁, found, walked, grew, reached⟩ := walkAlloc_spec layout owns below
  refine ⟨s₁, t₁, found, grew, reached, ?_⟩
  have start : PGROUNDDOWN va = va := by
    unfold PGROUNDDOWN
    exact Nat.div_mul_cancel (Nat.dvd_of_mod_eq_zero aligned)
  have single : (PGROUNDDOWN (va + PGSIZE - 1) - PGROUNDDOWN va) / PGSIZE = 0 := by
    unfold PGROUNDDOWN PGSIZE at *
    omega
  rw [mappages, if_neg (by decide), single, start, mappagesLoop, walked]
  cases found with
  | false => rfl
  | true =>
    have invalid := leaf_invalid below (reached rfl) (by rw [grew.pte]; exact unmapped)
    simp only [invalid, ne_eq, not_true_eq_false, if_false, if_true]

/-! ## The page table `walkaddr` reads

`Vm.PageTable` is the view of `walk(pagetable, va, 0)` that `walkaddr` and
the user copies of `Xv6.Vm` read; a `Radix` gives it, and what `walkaddr`
finds depends only on the valid PTE `Radix.pte`. -/

/-- The PTE of the slot `walk(pagetable, va, 0)` returns. -/
def Radix.toPageTable (t : Radix) : PageTable where
  walk va :=
    match walk t va with
    | .ok (some p) => some (t.leaf p)
    | _ => none

section ToPageTable

variable {t t' : Radix} {va : Nat}

theorem walkaddr_of_pte_none (absent : t.pte va = none) : walkaddr t.toPageTable va = 0 := by
  unfold walkaddr Radix.toPageTable walk
  unfold Radix.pte at absent
  by_cases high : MAXVA ≤ va
  · rw [if_pos (by omega)]
  by_cases reached : t.reach va = true
  · have invalid : t.leaf (va / PGSIZE) &&& PTE_V = 0 := by
      by_contra valid
      rw [if_pos ⟨by omega, reached, valid⟩] at absent
      cases absent
    simp [high, reached, invalid]
  · simp [high, reached]

theorem walkaddr_of_pte {e : UInt64} (found : t.pte va = some e) :
    walkaddr t.toPageTable va = if e &&& PTE_U = 0 then 0 else PTE2PA e := by
  unfold Radix.pte at found
  split_ifs at found with present
  cases found
  obtain ⟨below, reached, valid⟩ := present
  unfold walkaddr Radix.toPageTable walk
  simp [Nat.not_le.mpr below, reached, valid]

/-- A valid PTE that `walk` reaches is the slot's PTE. -/
theorem pte_of_walk {e : UInt64} (found : t.toPageTable.walk va = some e) (valid : e &&& PTE_V ≠ 0) :
    t.pte va = some e := by
  unfold Radix.toPageTable walk at found
  unfold Radix.pte
  by_cases high : MAXVA ≤ va
  · simp [high] at found
  by_cases reached : t.reach va = true
  · simp only [if_neg high, if_pos reached, Option.some.injEq] at found
    subst found
    rw [if_pos ⟨by omega, reached, valid⟩]
  · simp [high, reached] at found

theorem walkaddr_congr (same : t'.pte va = t.pte va) : walkaddr t'.toPageTable va = walkaddr t.toPageTable va := by
  cases found : t.pte va with
  | none => rw [walkaddr_of_pte_none found, walkaddr_of_pte_none (same.trans found)]
  | some e => rw [walkaddr_of_pte found, walkaddr_of_pte (same.trans found)]

theorem translate_congr (same : t'.pte (PGROUNDDOWN va) = t.pte (PGROUNDDOWN va)) :
    translate t'.toPageTable va = translate t.toPageTable va := by
  unfold Vm.translate
  rw [walkaddr_congr same]

theorem translate_of_pte {e : UInt64} (found : t.pte (PGROUNDDOWN va) = some e) (user : e &&& PTE_U ≠ 0) :
    translate t.toPageTable va = PTE2PA e + (va - PGROUNDDOWN va) := by
  unfold Vm.translate
  rw [walkaddr_of_pte found, if_neg user]

/-- Any other byte reads the physical page 0. -/
theorem translate_cases (t : Radix) (va : Nat) :
    translate t.toPageTable va < PGSIZE ∨
      ∃ e, t.pte (PGROUNDDOWN va) = some e ∧ translate t.toPageTable va = PTE2PA e + (va - PGROUNDDOWN va) := by
  have offset := offset_lt va
  cases found : t.pte (PGROUNDDOWN va) with
  | none =>
    left
    unfold Vm.translate
    rw [walkaddr_of_pte_none found]
    omega
  | some e =>
    by_cases user : e &&& PTE_U = 0
    · left
      unfold Vm.translate
      rw [walkaddr_of_pte found, if_pos user]
      omega
    · exact .inr ⟨e, rfl, translate_of_pte found user⟩

end ToPageTable

end Xv6.Uvm
