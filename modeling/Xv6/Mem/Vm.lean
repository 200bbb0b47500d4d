import Xv6.Flat

/-! Copies between the kernel and user memory (`kernel/vm.c`: `walkaddr`,
`copyout`, `copyin`, `copyinstr`). User memory is the flat physical memory
`mem`; a kernel buffer is an array of its own. A page table is read the way
`walk(pagetable, va, 0)` reads it, as the level-0 PTE for the page of `va` or
nothing where a level above it is not valid; how the three levels are laid
out in memory is not modelled. Each copy goes one page at a time: it
translates the page with `walkaddr` and `memmove`s the part of the range
that lies on it, and it fails at the first page `walkaddr` refuses. The
abstract view is one byte at a time: byte `k` of the range goes to or comes
from the physical address `translate pt (va + k)`. -/
namespace Xv6.Vm

def PGSIZE : Nat := 4096

/-- `1L << (9 + 9 + 9 + 12 - 1)`. -/
def MAXVA : Nat := 2 ^ 38

def PTE_V : UInt64 := (1 : UInt64) <<< 0
def PTE_U : UInt64 := (1 : UInt64) <<< 4

/-- `a & ~(PGSIZE-1)`. -/
def PGROUNDDOWN (a : Nat) : Nat := a / PGSIZE * PGSIZE

/-- `((pte) >> 10) << 12`. -/
def PTE2PA (pte : UInt64) : Nat := ((pte >>> 10) <<< 12).toNat

/-- A page table as `walk(pagetable, va, 0)` reads it. -/
structure PageTable where
  /-- The level-0 PTE for the page of `va`, or `none` where `walk` returns 0. -/
  walk : Nat → Option UInt64

def walkaddr (pt : PageTable) (va : Nat) : Nat :=
  if va ≥ MAXVA then 0
  else
    match pt.walk va with
    | none => 0
    | some pte => if pte &&& PTE_V = 0 then 0 else if pte &&& PTE_U = 0 then 0 else PTE2PA pte

theorem le_pgrounddown (a : Nat) : PGROUNDDOWN a ≤ a := Nat.div_mul_le_self a PGSIZE

theorem offset_lt (a : Nat) : a - PGROUNDDOWN a < PGSIZE := by
  unfold PGROUNDDOWN PGSIZE
  omega

theorem pgrounddown_of_offset {a k : Nat} (onPage : a - PGROUNDDOWN a + k < PGSIZE) :
    PGROUNDDOWN (a + k) = PGROUNDDOWN a := by
  unfold PGROUNDDOWN PGSIZE at *
  omega

theorem pgrounddown_next (a k : Nat) (onPage : k < PGSIZE) :
    PGROUNDDOWN (PGROUNDDOWN a + PGSIZE + k) = PGROUNDDOWN a + PGSIZE := by
  unfold PGROUNDDOWN PGSIZE at *
  omega

theorem chunk_pos (a len : Nat) (pending : 0 < len) : 0 < min (PGSIZE - (a - PGROUNDDOWN a)) len := by
  have := offset_lt a
  omega

theorem chunk_end {a len : Nat} (more : min (PGSIZE - (a - PGROUNDDOWN a)) len < len) :
    a + min (PGSIZE - (a - PGROUNDDOWN a)) len = PGROUNDDOWN a + PGSIZE := by
  have := offset_lt a
  have := le_pgrounddown a
  omega

/-! ## The abstract view -/

/-- The physical address that user address `va` stands for. -/
def translate (pt : PageTable) (va : Nat) : Nat := walkaddr pt (PGROUNDDOWN va) + (va - PGROUNDDOWN va)

/-- The page of `va` is below `MAXVA`, and its PTE is valid, user-accessible
and maps the physical page `pa`. -/
def MapsTo (pt : PageTable) (va pa : Nat) : Prop :=
  PGROUNDDOWN va < MAXVA ∧ ∃ pte, pt.walk (PGROUNDDOWN va) = some pte ∧ pte &&& PTE_V ≠ 0 ∧ pte &&& PTE_U ≠ 0 ∧
    PTE2PA pte = pa

/-- `walkaddr` accepts the page of `va` exactly when it is mapped for the
user to a page other than 0: it returns 0 both to refuse and for page 0. -/
theorem walkaddr_ne_zero (pt : PageTable) (va : Nat) :
    walkaddr pt (PGROUNDDOWN va) ≠ 0 ↔ ∃ pa, pa ≠ 0 ∧ MapsTo pt va pa := by
  unfold walkaddr MapsTo
  by_cases high : PGROUNDDOWN va ≥ MAXVA
  · simp only [if_pos high, ne_eq, not_true_eq_false, false_iff]
    rintro ⟨_, _, low, _⟩
    omega
  · rw [if_neg high]
    cases found : pt.walk (PGROUNDDOWN va) with
    | none => simp
    | some pte =>
      by_cases valid : pte &&& PTE_V = 0
      · simp [valid]
      · by_cases user : pte &&& PTE_U = 0
        · simp [valid, user]
        · simp only [if_neg valid, if_neg user, Option.some.injEq]
          constructor
          · intro nonzero
            exact ⟨_, nonzero, by omega, pte, rfl, valid, user, rfl⟩
          · rintro ⟨pa, nonzero, -, _, rfl, -, -, rfl⟩
            exact nonzero

theorem translate_onPage (pt : PageTable) {a k : Nat} (onPage : a - PGROUNDDOWN a + k < PGSIZE) :
    translate pt (a + k) = walkaddr pt (PGROUNDDOWN a) + (a - PGROUNDDOWN a) + k := by
  unfold translate
  rw [pgrounddown_of_offset onPage]
  have := le_pgrounddown a
  omega

/-- Storing `bytes` from user address `va` on, byte by byte, each at the physical address it stands for. -/
def storeVirt (pt : PageTable) (mem : Nat → UInt8) (va : Nat) : List UInt8 → Nat → UInt8
  | [] => mem
  | b :: bs => storeVirt pt (Function.update mem (translate pt va) b) (va + 1) bs

/-- The `len` bytes from user address `va` on. -/
def loadVirt (pt : PageTable) (mem : Nat → UInt8) (va len : Nat) : List UInt8 :=
  Flat.read (fun a => mem (translate pt a)) va len

@[simp]
theorem loadVirt_length (pt : PageTable) (mem : Nat → UInt8) (va len : Nat) : (loadVirt pt mem va len).length = len :=
  Flat.length_read _ va len

theorem loadVirt_add (pt : PageTable) (mem : Nat → UInt8) (va m n : Nat) :
    loadVirt pt mem va (m + n) = loadVirt pt mem va m ++ loadVirt pt mem (va + m) n :=
  Flat.read_add _ va m n

theorem loadVirt_onPage (pt : PageTable) (mem : Nat → UInt8) {a n : Nat} (onPage : a - PGROUNDDOWN a + n ≤ PGSIZE) :
    loadVirt pt mem a n = Flat.read mem (translate pt a) n := by
  apply List.ext_getElem (by simp [loadVirt])
  intro k inside _
  simp only [loadVirt, Flat.getElem_read]
  rw [translate_onPage pt (by simp [loadVirt] at inside; omega)]
  rfl

/-- The pages of a range are those of its part on the first page, which is
accepted, and those of the rest, which starts on the next page. -/
theorem mapped_split (pt : PageTable) {a len : Nat} (accepted : walkaddr pt (PGROUNDDOWN a) ≠ 0) :
    (∀ k < len, walkaddr pt (PGROUNDDOWN (a + k)) ≠ 0) ↔
      ∀ k < len - min (PGSIZE - (a - PGROUNDDOWN a)) len, walkaddr pt (PGROUNDDOWN (PGROUNDDOWN a + PGSIZE + k)) ≠ 0 := by
  set n := min (PGSIZE - (a - PGROUNDDOWN a)) len with hn
  have within := offset_lt a
  have below := le_pgrounddown a
  constructor
  · intro mapped k inside
    have := mapped (n + k) (by omega)
    rwa [show a + (n + k) = PGROUNDDOWN a + PGSIZE + k by omega] at this
  · intro later k inside
    by_cases onPage : k < n
    · rw [pgrounddown_of_offset (by omega)]
      exact accepted
    · have := later (k - n) (by omega)
      rwa [show PGROUNDDOWN a + PGSIZE + (k - n) = a + k by omega] at this

theorem storeVirt_append (pt : PageTable) (mem : Nat → UInt8) (va : Nat) (bytes more : List UInt8) :
    storeVirt pt mem va (bytes ++ more) = storeVirt pt (storeVirt pt mem va bytes) (va + bytes.length) more := by
  induction bytes generalizing mem va with
  | nil => rfl
  | cons b bs ih =>
    simp only [List.cons_append, storeVirt, ih, List.length_cons]
    rw [Nat.add_assoc, Nat.add_comm 1]

/-- On one page, storing byte by byte is one `memmove` to the physical page. -/
theorem storeVirt_onPage (pt : PageTable) (mem : Nat → UInt8) {a : Nat} (bytes : List UInt8)
    (onPage : a - PGROUNDDOWN a + bytes.length ≤ PGSIZE) :
    storeVirt pt mem a bytes = Flat.write mem (translate pt a) bytes := by
  induction bytes generalizing mem a with
  | nil => simp [storeVirt]
  | cons b bs ih =>
    cases bs with
    | nil =>
      simp only [storeVirt]
      rw [← Flat.write_cons, Flat.write_nil]
    | cons c cs =>
      have next : a + 1 - PGROUNDDOWN (a + 1) + (c :: cs).length ≤ PGSIZE := by
        rw [pgrounddown_of_offset (by simp at onPage; omega)]
        simp at onPage ⊢
        have := le_pgrounddown a
        omega
      have shifted : translate pt (a + 1) = translate pt a + 1 := by
        rw [translate_onPage pt (a := a) (k := 1) (by simp at onPage; omega)]
        rfl
      rw [storeVirt, ih _ next, shifted, Flat.write_cons]

/-! ## `copyout` -/

/-- `copyout(pagetable, dstva, src, len)`, with `src` the `len` bytes of the
kernel buffer: user memory after the call, and the result. -/
def copyout (pt : PageTable) (mem : Nat → UInt8) (dstva : Nat) (src : List UInt8) : (Nat → UInt8) × Int :=
  if pending : 0 < src.length then
    let va0 := PGROUNDDOWN dstva
    let pa0 := walkaddr pt va0
    if pa0 = 0 then (mem, -1)
    else
      let n := min (PGSIZE - (dstva - va0)) src.length
      have := chunk_pos dstva src.length pending
      copyout pt (Flat.write mem (pa0 + (dstva - va0)) (src.take n)) (va0 + PGSIZE) (src.drop n)
  else (mem, 0)
termination_by src.length
decreasing_by simp only [List.length_drop]; omega

/-- `copyout` succeeds exactly when every byte of the range is on a page
`walkaddr` accepts, and then it has stored each byte at the physical address
its user address stands for. -/
theorem copyout_spec (pt : PageTable) (mem : Nat → UInt8) (dstva : Nat) (src : List UInt8) :
    ((copyout pt mem dstva src).2 = 0 ↔ ∀ k < src.length, walkaddr pt (PGROUNDDOWN (dstva + k)) ≠ 0) ∧
      ((copyout pt mem dstva src).2 = 0 → (copyout pt mem dstva src).1 = storeVirt pt mem dstva src) := by
  fun_induction copyout pt mem dstva src with
  | case1 mem dstva src pending va0 pa0 refused =>
    have first : walkaddr pt (PGROUNDDOWN (dstva + 0)) = 0 := refused
    exact ⟨⟨fun failed => absurd failed (by simp), fun mapped => absurd first (mapped 0 pending)⟩,
      fun failed => absurd failed (by simp)⟩
  | case2 mem dstva src pending va0 pa0 accepted n _ ih =>
    obtain ⟨succeeds, stores⟩ := ih
    have hva0 : va0 = PGROUNDDOWN dstva := rfl
    have hn : n = min (PGSIZE - (dstva - va0)) src.length := rfl
    have within := offset_lt dstva
    have below := le_pgrounddown dstva
    constructor
    · rw [succeeds, List.length_drop]
      exact (mapped_split pt accepted).symm
    · intro done
      have onPage : dstva - PGROUNDDOWN dstva + (src.take n).length ≤ PGSIZE := by
        rw [List.length_take]
        omega
      have split := storeVirt_append pt mem dstva (src.take n) (src.drop n)
      rw [List.take_append_drop] at split
      rw [stores done, split, storeVirt_onPage pt mem _ onPage]
      cases rest : src.drop n with
      | nil => rfl
      | cons b bs =>
        have more : n < src.length := by
          have := congrArg List.length rest
          simp only [List.length_drop, List.length_cons] at this
          omega
        rw [List.length_take, Nat.min_eq_left more.le, chunk_end more]
        rfl
  | case3 mem dstva src empty =>
    have nothing : src = [] := List.length_eq_zero_iff.mp (by omega)
    subst nothing
    simp [storeVirt]

/-! ## `copyin` -/

/-- `copyin(pagetable, dst, srcva, len)`, with `buf` the kernel buffer and
`dst` the offset into it: the buffer after the call, and the result. -/
def copyin (pt : PageTable) (mem buf : Nat → UInt8) (dst srcva len : Nat) : (Nat → UInt8) × Int :=
  if pending : 0 < len then
    let va0 := PGROUNDDOWN srcva
    let pa0 := walkaddr pt va0
    if pa0 = 0 then (buf, -1)
    else
      let n := min (PGSIZE - (srcva - va0)) len
      have := chunk_pos srcva len pending
      copyin pt mem (Flat.write buf dst (Flat.read mem (pa0 + (srcva - va0)) n)) (dst + n) (va0 + PGSIZE) (len - n)
  else (buf, 0)
termination_by len

/-- The part of a range on its first page, copied by one `memmove`, joined
with `c` bytes from the next page on, unless there are none: the write of the
first `n + c` bytes of the range. -/
theorem copyin_join (pt : PageTable) (mem buf : Nat → UInt8) (dst srcva len c : Nat)
    (more : c = 0 ∨ min (PGSIZE - (srcva - PGROUNDDOWN srcva)) len < len) :
    Flat.write (Flat.write buf dst (Flat.read mem (walkaddr pt (PGROUNDDOWN srcva) + (srcva - PGROUNDDOWN srcva))
        (min (PGSIZE - (srcva - PGROUNDDOWN srcva)) len)))
      (dst + min (PGSIZE - (srcva - PGROUNDDOWN srcva)) len) (loadVirt pt mem (PGROUNDDOWN srcva + PGSIZE) c) =
      Flat.write buf dst (loadVirt pt mem srcva (min (PGSIZE - (srcva - PGROUNDDOWN srcva)) len + c)) := by
  set n := min (PGSIZE - (srcva - PGROUNDDOWN srcva)) len with hn
  have within := offset_lt srcva
  have here : loadVirt pt mem srcva n = Flat.read mem (translate pt srcva) n :=
    loadVirt_onPage pt mem (by omega)
  have stored := Flat.write_append buf dst (loadVirt pt mem srcva n) (loadVirt pt mem (srcva + n) c)
  rw [loadVirt_length] at stored
  rw [loadVirt_add, ← stored, here]
  rcases more with none | more
  · subst none
    simp [loadVirt, translate]
  · rw [chunk_end more]
    rfl

/-- `copyin` succeeds exactly when every byte of the range is on a page
`walkaddr` accepts, and then the buffer holds the range's bytes from `dst` on
and is unchanged elsewhere. -/
theorem copyin_spec (pt : PageTable) (mem buf : Nat → UInt8) (dst srcva len : Nat) :
    ((copyin pt mem buf dst srcva len).2 = 0 ↔ ∀ k < len, walkaddr pt (PGROUNDDOWN (srcva + k)) ≠ 0) ∧
      ((copyin pt mem buf dst srcva len).2 = 0 →
        (copyin pt mem buf dst srcva len).1 = Flat.write buf dst (loadVirt pt mem srcva len)) := by
  fun_induction copyin pt mem buf dst srcva len with
  | case1 buf dst srcva len pending va0 pa0 refused =>
    have first : walkaddr pt (PGROUNDDOWN (srcva + 0)) = 0 := refused
    exact ⟨⟨fun failed => absurd failed (by simp), fun mapped => absurd first (mapped 0 pending)⟩,
      fun failed => absurd failed (by simp)⟩
  | case2 buf dst srcva len pending va0 pa0 accepted n _ ih =>
    obtain ⟨succeeds, loads⟩ := ih
    have hva0 : va0 = PGROUNDDOWN srcva := rfl
    have hn : n = min (PGSIZE - (srcva - va0)) len := rfl
    have within := offset_lt srcva
    have below := le_pgrounddown srcva
    constructor
    · rw [succeeds]
      exact (mapped_split pt accepted).symm
    · intro done
      have joined := copyin_join pt mem buf dst srcva len (len - n) (by omega)
      rw [show min (PGSIZE - (srcva - PGROUNDDOWN srcva)) len + (len - n) = len by omega] at joined
      rw [loads done]
      exact joined
  | case3 buf dst srcva len empty =>
    have nothing : len = 0 := by omega
    subst nothing
    simp [loadVirt]

/-- `copyin` returns 0, or -1 with the pages before the refused one copied. -/
theorem copyin_partial (pt : PageTable) (mem buf : Nat → UInt8) (dst srcva len : Nat) :
    (copyin pt mem buf dst srcva len).2 = 0 ∨ ((copyin pt mem buf dst srcva len).2 = -1 ∧
      ∃ c < len, (copyin pt mem buf dst srcva len).1 = Flat.write buf dst (loadVirt pt mem srcva c)) := by
  fun_induction copyin pt mem buf dst srcva len with
  | case1 buf dst srcva len pending va0 pa0 refused =>
    exact Or.inr ⟨rfl, 0, pending, by simp [loadVirt]⟩
  | case2 buf dst srcva len pending va0 pa0 accepted n _ ih =>
    rcases ih with done | ⟨failed, c, inside, copied⟩
    · exact Or.inl done
    · have more : n < len := Nat.lt_of_sub_pos (Nat.lt_of_le_of_lt (Nat.zero_le c) inside)
      refine Or.inr ⟨failed, n + c, by omega, ?_⟩
      rw [copied]
      exact copyin_join pt mem buf dst srcva len c (Or.inr more)
  | case3 buf dst srcva len empty =>
    exact Or.inl rfl

theorem copyout_result (pt : PageTable) (mem : Nat → UInt8) (dstva : Nat) (src : List UInt8) :
    (copyout pt mem dstva src).2 = 0 ∨ (copyout pt mem dstva src).2 = -1 := by
  fun_induction copyout pt mem dstva src with
  | case1 => exact Or.inr rfl
  | case2 _ _ _ _ _ _ _ _ _ ih => exact ih
  | case3 => exact Or.inl rfl

/-! ## `copyinstr` -/

/-- The inner loop of `copyinstr` over the `n` bytes of one page from the
physical address `p`: the buffer, `dst`, `max` and `got_null` after it. -/
def copyinstrPage (mem buf : Nat → UInt8) (p dst max : Nat) : Nat → (Nat → UInt8) × Nat × Nat × Bool
  | 0 => (buf, dst, max, false)
  | n + 1 =>
    if mem p = 0 then (Function.update buf dst 0, dst, max, true)
    else copyinstrPage mem (Function.update buf dst (mem p)) (p + 1) (dst + 1) (max - 1) n

theorem copyinstrPage_clear (mem buf : Nat → UInt8) (p dst max n : Nat) (clear : ∀ k < n, mem (p + k) ≠ 0) :
    copyinstrPage mem buf p dst max n = (Flat.write buf dst (Flat.read mem p n), dst + n, max - n, false) := by
  induction n generalizing buf p dst max with
  | zero => simp [copyinstrPage]
  | succ n ih =>
    have first : mem p ≠ 0 := by simpa using clear 0 (by omega)
    rw [copyinstrPage, if_neg first, ih _ _ _ _ fun k inside => by
      simpa [Nat.add_assoc, Nat.add_comm 1] using clear (k + 1) (by omega)]
    rw [Flat.write_cons, Flat.read_succ]
    simp only [Nat.add_assoc, Nat.add_comm 1, Nat.sub_sub]

/-- At the page's first NUL, the loop stores it and stops. -/
theorem copyinstrPage_nul (mem buf : Nat → UInt8) (p dst max n i : Nat) (inside : i < n) (nul : mem (p + i) = 0)
    (before : ∀ k < i, mem (p + k) ≠ 0) :
    copyinstrPage mem buf p dst max n = (Flat.write buf dst (Flat.read mem p i ++ [0]), dst + i, max - i, true) := by
  induction i generalizing buf p dst max n with
  | zero =>
    obtain ⟨n, rfl⟩ : ∃ m, n = m + 1 := ⟨n - 1, by omega⟩
    rw [copyinstrPage, if_pos (by simpa using nul)]
    simp [← Flat.write_cons]
  | succ i ih =>
    obtain ⟨n, rfl⟩ : ∃ m, n = m + 1 := ⟨n - 1, by omega⟩
    have first : mem p ≠ 0 := by simpa using before 0 (by omega)
    rw [copyinstrPage, if_neg first, ih _ _ _ _ _ (by omega) (by simpa [Nat.add_assoc, Nat.add_comm 1] using nul)
      fun k inside => by simpa [Nat.add_assoc, Nat.add_comm 1] using before (k + 1) (by omega)]
    rw [Flat.write_cons, Flat.read_succ]
    simp only [List.cons_append, Nat.add_assoc, Nat.add_comm 1, Nat.sub_sub]

/-- When the inner loop ends without a NUL it has counted the whole page off `max`. -/
theorem copyinstrPage_max {mem buf buf' : Nat → UInt8} {p dst dst' max max' n : Nat}
    (scan : copyinstrPage mem buf p dst max n = (buf', dst', max', false)) : max' = max - n := by
  induction n generalizing buf p dst max with
  | zero =>
    simp only [copyinstrPage, Prod.mk.injEq] at scan
    omega
  | succ n ih =>
    rw [copyinstrPage] at scan
    split at scan
    · simp at scan
    · rw [ih scan, Nat.sub_sub, Nat.add_comm 1]

/-- `copyinstr(pagetable, dst, srcva, max)`, with `buf` the kernel buffer and
`dst` the offset into it: the buffer after the call, and the result. -/
def copyinstr (pt : PageTable) (mem buf : Nat → UInt8) (dst srcva max : Nat) : (Nat → UInt8) × Int :=
  if pending : 0 < max then
    let va0 := PGROUNDDOWN srcva
    let pa0 := walkaddr pt va0
    if pa0 = 0 then (buf, -1)
    else
      let n := min (PGSIZE - (srcva - va0)) max
      match scan : copyinstrPage mem buf (pa0 + (srcva - va0)) dst max n with
      | (buf, _, _, true) => (buf, 0)
      | (buf, dst, max', false) =>
        have := chunk_pos srcva max pending
        have := copyinstrPage_max scan
        copyinstr pt mem buf dst (va0 + PGSIZE) max'
  else (buf, -1)
termination_by max

/-- The bytes of a page part are all other than NUL, or one of them is the first NUL. -/
theorem clear_or_nul (mem : Nat → UInt8) (p n : Nat) :
    (∀ k < n, mem (p + k) ≠ 0) ∨ ∃ i < n, mem (p + i) = 0 ∧ ∀ k < i, mem (p + k) ≠ 0 := by
  induction n with
  | zero => exact Or.inl fun k inside => absurd inside (Nat.not_lt_zero k)
  | succ n ih =>
    rcases ih with clear | ⟨i, inside, nul, before⟩
    · by_cases last : mem (p + n) = 0
      · exact Or.inr ⟨n, by omega, last, clear⟩
      · refine Or.inl fun k inside => ?_
        by_cases earlier : k < n
        · exact clear k earlier
        · rwa [show k = n by omega]
    · exact Or.inr ⟨i, by omega, nul, before⟩

/-- `copyinstr` succeeds exactly when a NUL lies within `max` bytes of `srcva`
and every page up to it is one `walkaddr` accepts; then the buffer holds the
string and its NUL from `dst` on and is unchanged elsewhere. -/
theorem copyinstr_spec (pt : PageTable) (mem buf : Nat → UInt8) (dst srcva max : Nat) :
    ((copyinstr pt mem buf dst srcva max).2 = 0 ↔
        ∃ j < max, (∀ k ≤ j, walkaddr pt (PGROUNDDOWN (srcva + k)) ≠ 0) ∧ mem (translate pt (srcva + j)) = 0) ∧
      ((copyinstr pt mem buf dst srcva max).2 = 0 → ∃ j < max, 0 ∉ loadVirt pt mem srcva j ∧
        mem (translate pt (srcva + j)) = 0 ∧
        (copyinstr pt mem buf dst srcva max).1 = Flat.write buf dst (loadVirt pt mem srcva j ++ [0])) := by
  fun_induction copyinstr pt mem buf dst srcva max with
  | case1 buf dst srcva max pending va0 pa0 refused =>
    have first : walkaddr pt (PGROUNDDOWN (srcva + 0)) = 0 := refused
    refine ⟨⟨fun failed => absurd failed (by simp), ?_⟩, fun failed => absurd failed (by simp)⟩
    rintro ⟨j, -, mapped, -⟩
    exact absurd first (mapped 0 (Nat.zero_le j))
  | case2 buf dst srcva max pending va0 pa0 accepted n buf' _ _ scan =>
    have hva0 : va0 = PGROUNDDOWN srcva := rfl
    have hn : n = min (PGSIZE - (srcva - va0)) max := rfl
    have within := offset_lt srcva
    have below := le_pgrounddown srcva
    obtain ⟨i, inside, nul, before⟩ : ∃ i < n, mem (pa0 + (srcva - va0) + i) = 0 ∧
        ∀ k < i, mem (pa0 + (srcva - va0) + k) ≠ 0 := by
      rcases clear_or_nul mem (pa0 + (srcva - va0)) n with clear | found
      · rw [copyinstrPage_clear mem buf _ dst max n clear] at scan
        simp at scan
      · exact found
    rw [copyinstrPage_nul mem buf _ dst max n i inside nul before, Prod.mk.injEq] at scan
    have onPage : ∀ k ≤ i, translate pt (srcva + k) = pa0 + (srcva - va0) + k := fun k within' =>
      translate_onPage pt (by omega)
    have string : loadVirt pt mem srcva i = Flat.read mem (pa0 + (srcva - va0)) i := loadVirt_onPage pt mem (by omega)
    have mapped : ∀ k ≤ i, walkaddr pt (PGROUNDDOWN (srcva + k)) ≠ 0 := fun k within' => by
      rw [pgrounddown_of_offset (by omega)]
      exact accepted
    refine ⟨⟨fun _ => ⟨i, by omega, mapped, by rw [onPage i le_rfl, nul]⟩, fun _ => rfl⟩, fun _ => ?_⟩
    refine ⟨i, by omega, ?_, by rw [onPage i le_rfl, nul], by rw [string, scan.1]⟩
    rw [string]
    intro member
    obtain ⟨k, inside', at_k⟩ := List.getElem_of_mem member
    simp only [Flat.getElem_read] at at_k
    exact before k (by simpa using inside') at_k
  | case3 buf dst srcva max pending va0 pa0 accepted n buf' dst' _ scan ih =>
    obtain ⟨succeeds, stores⟩ := ih
    have hva0 : va0 = PGROUNDDOWN srcva := rfl
    have hn : n = min (PGSIZE - (srcva - va0)) max := rfl
    have within := offset_lt srcva
    have below := le_pgrounddown srcva
    have clear : ∀ k < n, mem (pa0 + (srcva - va0) + k) ≠ 0 := by
      rcases clear_or_nul mem (pa0 + (srcva - va0)) n with clear | ⟨i, inside, nul, before⟩
      · exact clear
      · rw [copyinstrPage_nul mem buf _ dst max n i inside nul before] at scan
        simp at scan
    rw [copyinstrPage_clear mem buf _ dst max n clear, Prod.mk.injEq, Prod.mk.injEq] at scan
    obtain ⟨copied, moved, -⟩ := scan
    subst copied moved
    have onPage : ∀ k < n, translate pt (srcva + k) = pa0 + (srcva - va0) + k := fun k inside =>
      translate_onPage pt (by omega)
    have page : loadVirt pt mem srcva n = Flat.read mem (pa0 + (srcva - va0)) n := loadVirt_onPage pt mem (by omega)
    have mapped : ∀ k < n, walkaddr pt (PGROUNDDOWN (srcva + k)) ≠ 0 := fun k inside => by
      rw [pgrounddown_of_offset (by omega)]
      exact accepted
    have past : ∀ j, mem (translate pt (srcva + j)) = 0 → n ≤ j := fun j nul => by
      by_contra early
      exact clear j (by omega) (by rw [← onPage j (by omega)]; exact nul)
    have jump : n < max → srcva + n = va0 + PGSIZE := chunk_end
    have next : ∀ k, n < max → srcva + (n + k) = va0 + PGSIZE + k := fun k more => by
      rw [← Nat.add_assoc, jump more]
    constructor
    · rw [succeeds]
      constructor
      · rintro ⟨j, inside, later, nul⟩
        have more : n < max := Nat.lt_of_sub_pos (Nat.lt_of_le_of_lt (Nat.zero_le j) inside)
        refine ⟨n + j, Nat.add_lt_of_lt_sub' inside, fun k within' => ?_, by rw [next j more]; exact nul⟩
        by_cases here : k < n
        · exact mapped k here
        · have := later (k - n) (by omega)
          rwa [← next _ (by omega), show n + (k - n) = k by omega] at this
      · rintro ⟨j, inside, mapped', nul⟩
        have far := past j nul
        have more : n < max := Nat.lt_of_le_of_lt far inside
        refine ⟨j - n, by omega, fun k within' => ?_, ?_⟩
        · rw [← next k more]
          exact mapped' _ (by omega)
        · rwa [← next _ more, show n + (j - n) = j by omega]
    · intro done
      obtain ⟨j, inside, clean, nul, result⟩ := stores done
      have more : n < max := Nat.lt_of_sub_pos (Nat.lt_of_le_of_lt (Nat.zero_le j) inside)
      refine ⟨n + j, Nat.add_lt_of_lt_sub' inside, ?_, by rw [next j more]; exact nul, ?_⟩
      · rw [loadVirt_add, jump more, page, List.mem_append]
        rintro (member | member)
        · obtain ⟨k, inside', at_k⟩ := List.getElem_of_mem member
          simp only [Flat.getElem_read] at at_k
          exact clear k (by simpa using inside') at_k
        · exact clean member
      · have stored := Flat.write_append buf dst (Flat.read mem (pa0 + (srcva - va0)) n)
          (loadVirt pt mem (va0 + PGSIZE) j ++ [0])
        rw [Flat.length_read] at stored
        rw [result, stored, loadVirt_add, jump more, page, List.append_assoc]
  | case4 buf dst srcva max empty =>
    refine ⟨⟨fun failed => absurd failed (by simp), ?_⟩, fun failed => absurd failed (by simp)⟩
    rintro ⟨j, inside, -⟩
    omega

/-! ## What the copies do -/

/-- The page tables `copyout` and `copyin` are given: every page mapped for
the user is a page `kalloc` handed out, never physical page 0. -/
def UserPages (pt : PageTable) : Prop := ∀ va pa, MapsTo pt va pa → pa ≠ 0

theorem walkaddr_ne_zero_iff {pt : PageTable} (pages : UserPages pt) (va : Nat) :
    walkaddr pt (PGROUNDDOWN va) ≠ 0 ↔ ∃ pa, MapsTo pt va pa := by
  rw [walkaddr_ne_zero]
  constructor
  · rintro ⟨pa, -, maps⟩
    exact ⟨pa, maps⟩
  · rintro ⟨pa, maps⟩
    exact ⟨pa, pages va pa maps, maps⟩

theorem mapped_iff {pt : PageTable} (pages : UserPages pt) (va len : Nat) :
    (∀ k < len, walkaddr pt (PGROUNDDOWN (va + k)) ≠ 0) ↔ ∀ k < len, ∃ pa, MapsTo pt (va + k) pa :=
  forall₂_congr fun k _ => walkaddr_ne_zero_iff pages (va + k)

theorem user_copies (pt : PageTable) (pages : UserPages pt) (mem buf : Nat → UInt8) :
    (∀ dstva src, (copyout pt mem dstva src).2 = 0 ↔ ∀ k < src.length, ∃ pa, MapsTo pt (dstva + k) pa) ∧
      (∀ dstva src, (copyout pt mem dstva src).2 = 0 → (copyout pt mem dstva src).1 = storeVirt pt mem dstva src) ∧
      (∀ dst srcva len, (copyin pt mem buf dst srcva len).2 = 0 ↔ ∀ k < len, ∃ pa, MapsTo pt (srcva + k) pa) ∧
      (∀ dst srcva len, (copyin pt mem buf dst srcva len).2 = 0 →
        (copyin pt mem buf dst srcva len).1 = Flat.write buf dst (loadVirt pt mem srcva len)) ∧
      (∀ dst srcva max, (copyinstr pt mem buf dst srcva max).2 = 0 ↔
        ∃ j < max, (∀ k ≤ j, ∃ pa, MapsTo pt (srcva + k) pa) ∧ mem (translate pt (srcva + j)) = 0) ∧
      (∀ dst srcva max, (copyinstr pt mem buf dst srcva max).2 = 0 → ∃ j < max, 0 ∉ loadVirt pt mem srcva j ∧
        mem (translate pt (srcva + j)) = 0 ∧
        (copyinstr pt mem buf dst srcva max).1 = Flat.write buf dst (loadVirt pt mem srcva j ++ [0])) := by
  refine ⟨fun dstva src => ?_, fun dstva src => (copyout_spec pt mem dstva src).2, fun dst srcva len => ?_,
    fun dst srcva len => (copyin_spec pt mem buf dst srcva len).2, fun dst srcva max => ?_,
    fun dst srcva max => (copyinstr_spec pt mem buf dst srcva max).2⟩
  · rw [(copyout_spec pt mem dstva src).1, mapped_iff pages]
  · rw [(copyin_spec pt mem buf dst srcva len).1, mapped_iff pages]
  · rw [(copyinstr_spec pt mem buf dst srcva max).1]
    exact exists_congr fun j => and_congr_right fun _ =>
      and_congr_left fun _ => forall₂_congr fun k _ => walkaddr_ne_zero_iff pages (srcva + k)

/-- One user page, at address 0, on physical page 1. -/
def onePage : PageTable where
  walk va := if va = 0 then some 1041 else none

theorem userPages_onePage : UserPages onePage := by
  rintro va pa ⟨-, pte, found, -, -, rfl⟩
  have leaf : pte = 1041 := by
    simp only [onePage] at found
    split at found
    · exact (Option.some.inj found).symm
    · cases found
  subst leaf
  decide

theorem user_copies_onePage : UserPages onePage ∧
    (∀ dstva src, (copyout onePage (fun _ => 0) dstva src).2 = 0 ↔
        ∀ k < src.length, ∃ pa, MapsTo onePage (dstva + k) pa) ∧
      (∀ dstva src, (copyout onePage (fun _ => 0) dstva src).2 = 0 →
        (copyout onePage (fun _ => 0) dstva src).1 = storeVirt onePage (fun _ => 0) dstva src) ∧
      (∀ dst srcva len, (copyin onePage (fun _ => 0) (fun _ => 0) dst srcva len).2 = 0 ↔
        ∀ k < len, ∃ pa, MapsTo onePage (srcva + k) pa) ∧
      (∀ dst srcva len, (copyin onePage (fun _ => 0) (fun _ => 0) dst srcva len).2 = 0 →
        (copyin onePage (fun _ => 0) (fun _ => 0) dst srcva len).1 =
          Flat.write (fun _ => 0) dst (loadVirt onePage (fun _ => 0) srcva len)) ∧
      (∀ dst srcva max, (copyinstr onePage (fun _ => 0) (fun _ => 0) dst srcva max).2 = 0 ↔
        ∃ j < max, (∀ k ≤ j, ∃ pa, MapsTo onePage (srcva + k) pa) ∧
          (fun _ => (0 : UInt8)) (translate onePage (srcva + j)) = 0) ∧
      (∀ dst srcva max, (copyinstr onePage (fun _ => 0) (fun _ => 0) dst srcva max).2 = 0 →
        ∃ j < max, 0 ∉ loadVirt onePage (fun _ => 0) srcva j ∧
          (fun _ => (0 : UInt8)) (translate onePage (srcva + j)) = 0 ∧
          (copyinstr onePage (fun _ => 0) (fun _ => 0) dst srcva max).1 =
            Flat.write (fun _ => 0) dst (loadVirt onePage (fun _ => 0) srcva j ++ [0])) :=
  ⟨userPages_onePage, user_copies onePage userPages_onePage (fun _ => 0) (fun _ => 0)⟩

end Xv6.Vm
