import Xv6.Flat

/-! The memory routines of `kernel/string.c` over one flat memory, addresses as
`Nat`. `memmove` copies up, `*d++ = *s++`, unless the source starts below the
destination and runs into it, and then copies down from the ends,
`*--d = *--s`. Each loop refines one `Flat.write` of the source's original
cells, as long as no store lands on a source cell still to be read; the
pointer test picks the loop for which that holds. The returned `dst` is not
modelled: only the memory is. -/
namespace Xv6

open Flat

variable {β : Type} [DecidableEq β]

/-- The up loop of `memmove`: `while(n-- > 0) *d++ = *s++;`. -/
def moveUp (mem : Nat → β) (d s : Nat) : Nat → Nat → β
  | 0 => mem
  | n + 1 => moveUp (Function.update mem d (mem s)) (d + 1) (s + 1) n

/-- The down loop of `memmove`, with `d` and `s` one past the ends:
`while(n-- > 0) *--d = *--s;`. -/
def moveDown (mem : Nat → β) (d s : Nat) : Nat → Nat → β
  | 0 => mem
  | n + 1 => moveDown (Function.update mem (d - 1) (mem (s - 1))) (d - 1) (s - 1) n

def memmove (mem : Nat → β) (dst src n : Nat) : Nat → β :=
  if n = 0 then mem
  else if src < dst ∧ src + n > dst then moveDown mem (dst + n) (src + n) n
  else moveUp mem dst src n

/-- `memcpy exists to placate GCC.  Use memmove.` -/
def memcpy (mem : Nat → β) (dst src n : Nat) : Nat → β := memmove mem dst src n

theorem moveUp_eq_write (mem : Nat → β) (d s n : Nat) (safe : ¬ (s < d ∧ d < s + n)) :
    moveUp mem d s n = write mem d (read mem s n) := by
  induction n generalizing mem d s with
  | zero => simp [moveUp]
  | succ n ih =>
    have unread : read (Function.update mem d (mem s)) (s + 1) n = read mem (s + 1) n :=
      read_update (mem s) (by omega)
    rw [moveUp, ih _ _ _ (by omega), unread, write_cons, read_succ]

/-- Copying down is a write of the original source unless the source starts
inside the destination past its first cell. -/
theorem moveDown_eq_write (mem : Nat → β) (d s n : Nat) (safe : ¬ (d < s ∧ s < d + n)) :
    moveDown mem (d + n) (s + n) n = write mem d (read mem s n) := by
  induction n generalizing mem with
  | zero => simp [moveDown]
  | succ n ih =>
    have unread : read (Function.update mem (d + n) (mem (s + n))) s n = read mem s n :=
      read_update (mem (s + n)) (by omega)
    have stored := write_concat mem d (read mem s n) (mem (s + n))
    rw [length_read] at stored
    rw [moveDown, show d + (n + 1) - 1 = d + n by omega, show s + (n + 1) - 1 = s + n by omega,
      ih _ (by omega), unread, stored, read_concat]

/-- Whatever the overlap, `memmove` writes the original source cells over the destination. -/
theorem memmove_eq_write (mem : Nat → β) (dst src n : Nat) :
    memmove mem dst src n = write mem dst (read mem src n) := by
  unfold memmove
  by_cases empty : n = 0
  · subst empty
    simp
  · rw [if_neg empty]
    by_cases overlap : src < dst ∧ src + n > dst
    · rw [if_pos overlap]
      exact moveDown_eq_write mem dst src n (by omega)
    · rw [if_neg overlap]
      exact moveUp_eq_write mem dst src n (by omega)

theorem memmove_moves (mem : Nat → β) (dst src n : Nat) :
    (∀ k, k < n → memmove mem dst src n (dst + k) = mem (src + k)) ∧
      ∀ a, a < dst ∨ dst + n ≤ a → memmove mem dst src n a = mem a := by
  rw [memmove_eq_write]
  constructor
  · intro k inside
    rw [write_inside mem dst _ (by simpa using inside), getElem_read]
  · intro a outside
    exact write_outside mem dst _ (by simpa using outside)

/-! ## `strncmp` and `strncpy` -/

/-- `strncmp(p, q, n)` with `p` and `q` at index `i` of `s` and `t`: both
move on while their bytes agree and are not NUL. -/
def strncmp (s t : Nat → UInt8) (i : Nat) : Nat → Int
  | 0 => 0
  | n + 1 => if s i ≠ 0 ∧ s i = t i then strncmp s t (i + 1) n else ((s i).toNat : Int) - (t i).toNat

/-- `strncmp` is 0 exactly when the two strings, cut at `n` bytes or at their
NUL, are the same. -/
theorem strncmp_eq_zero_iff (s t : Nat → UInt8) (i n : Nat) :
    strncmp s t i n = 0 ↔ (read s i n).takeWhile (· != 0) = (read t i n).takeWhile (· != 0) := by
  induction n generalizing i with
  | zero => simp [strncmp]
  | succ n ih =>
    rw [strncmp, read_succ, read_succ]
    by_cases same : s i ≠ 0 ∧ s i = t i
    · obtain ⟨live, agree⟩ := same
      rw [if_pos ⟨live, agree⟩, ih, ← agree]
      simp [live]
    · rw [if_neg same]
      by_cases agree : s i = t i
      · have nul : s i = 0 := by
          by_contra live
          exact same ⟨live, agree⟩
        rw [← agree, nul]
        simp
      · have differ : ((s i).toNat : Int) - (t i).toNat ≠ 0 := by
          intro zero
          exact agree (UInt8.toNat_inj.mp (by omega))
        simp only [differ, false_iff]
        by_cases ends : s i = 0
        · have live : t i ≠ 0 := fun nul => agree (ends.trans nul.symm)
          simp [ends, live]
        · by_cases tEnds : t i = 0
          · simp [ends, tEnds]
          · simp [ends, tEnds, agree]

/-- The copy loop of `strncpy`, `while(n-- > 0 && (*s++ = *t++) != 0);`: the
destination, where `s` stopped, and what is left of `n`. -/
def strncpyCopy (dst src : Nat → β) [Zero β] (d s : Nat) : Nat → (Nat → β) × Nat × Nat
  | 0 => (dst, d, 0)
  | n + 1 =>
    if src s = 0 then (Function.update dst d (src s), d + 1, n)
    else strncpyCopy (Function.update dst d (src s)) src (d + 1) (s + 1) n

/-- The padding loop of `strncpy`, `while(n-- > 0) *s++ = 0;`. -/
def strncpyPad [Zero β] (dst : Nat → β) (d : Nat) : Nat → Nat → β
  | 0 => dst
  | n + 1 => strncpyPad (Function.update dst d 0) (d + 1) n

/-- `strncpy(s, t, n)` with `s` at `d` in `dst` and `t` at `s` in `src`. -/
def strncpy [Zero β] (dst src : Nat → β) (d s n : Nat) : Nat → β :=
  let copied := strncpyCopy dst src d s n
  strncpyPad copied.1 copied.2.1 copied.2.2

/-- What `strncpy` stores: the string up to its NUL, and NULs to fill `n` bytes. -/
def strncpyBytes [Zero β] (bytes : List β) : List β :=
  bytes.takeWhile (· != 0) ++ List.replicate (bytes.length - (bytes.takeWhile (· != 0)).length) 0

theorem strncpyPad_eq_write [Zero β] (dst : Nat → β) (d n : Nat) :
    strncpyPad dst d n = write dst d (List.replicate n 0) := by
  induction n generalizing dst d with
  | zero => simp [strncpyPad]
  | succ n ih => rw [strncpyPad, ih, write_cons, List.replicate_succ]

theorem strncpy_eq_write [Zero β] (dst src : Nat → β) (d s n : Nat) :
    strncpy dst src d s n = write dst d (strncpyBytes (read src s n)) := by
  induction n generalizing dst d s with
  | zero => simp [strncpy, strncpyCopy, strncpyPad, strncpyBytes]
  | succ n ih =>
    by_cases nul : src s = 0
    · have step : strncpy dst src d s (n + 1) = write (Function.update dst d 0) (d + 1) (List.replicate n 0) := by
        simp only [strncpy, strncpyCopy, nul, ite_true, strncpyPad_eq_write]
      rw [step, write_cons, ← List.replicate_succ]
      simp [strncpyBytes, read_succ, nul]
    · have step : strncpy dst src d s (n + 1) = strncpy (Function.update dst d (src s)) src (d + 1) (s + 1) n := by
        simp only [strncpy, strncpyCopy, if_neg nul]
      rw [step, ih, write_cons, read_succ]
      simp only [strncpyBytes, List.takeWhile_cons, nul, bne_iff_ne, ne_eq, not_false_eq_true, ite_true,
        List.length_cons, List.cons_append]
      congr 4
      omega

@[simp]
theorem length_strncpyBytes [Zero β] (bytes : List β) : (strncpyBytes bytes).length = bytes.length := by
  have := (List.takeWhile_prefix (p := fun x => x != 0) (l := bytes)).length_le
  simp only [strncpyBytes, List.length_append, List.length_replicate]
  omega

theorem takeWhile_strncpyBytes [Zero β] (bytes : List β) :
    (strncpyBytes bytes).takeWhile (· != 0) = bytes.takeWhile (· != 0) := by
  unfold strncpyBytes
  rw [List.takeWhile_append_of_pos fun _ member => List.mem_takeWhile_imp (p := fun x => x != 0) member,
    List.takeWhile_replicate]
  simp

end Xv6
