import Xv6.Ring
import Xv6.Machine

/-! `kernel/console.c`, input: `consoleintr` edits and commits what the UART
delivers, `consoleread` copies committed input out. `cons.buf` is a 128-byte
ring with three free-running `uint` indices: characters in `[r, w)` are
committed and wait for a reader, characters in `[w, e)` are the line being
edited. A newline, a `^D` or a full buffer commits the line (`w = e`);
backspace and `^U` take characters off the line, down to `w`.

`consoleread` holds `cons.lock` except while it sleeps for input, so a turn of a
reader is everything from its wakeup to its next sleep or its return, and
`consoleintr` runs between turns. A sleeper may be resumed at any time: it
re-tests `cons.r == cons.w`, so this only adds runs. `either_copyout` succeeds,
and the echo (`consputc`) and `procdump` are output only. Ghost lists record
the committed characters and the ones readers took, in order, and the line. -/
namespace Xv6.Console

def INPUT_BUF : Nat := 128

/-- `#define C(x) ((x)-'@')`: control-x. -/
def C (x : Char) : UInt8 := x.toUInt8 - '@'.toUInt8

/-- The input half of `cons`, without its lock. -/
structure Cons where
  buf : Nat → UInt8
  r : UInt32
  w : UInt32
  e : UInt32

/-- `case C('U')`: `while(cons.e != cons.w && cons.buf[(cons.e-1) % INPUT_BUF] != '\n') cons.e--;`. -/
def killLine (cons : Cons) : Cons :=
  if cons.e ≠ cons.w ∧ cons.buf ((cons.e - 1) % UInt32.ofNat INPUT_BUF).toNat ≠ '\n'.toUInt8 then
    killLine { cons with e := cons.e - 1 }
  else cons
termination_by (cons.e - cons.w).toNat
decreasing_by
  rename_i inside
  have := Ring.counter_pred_sub inside.1
  omega

/-- `consoleintr(c)` on a character from the UART. -/
def consoleintr (cons : Cons) (c : UInt8) : Cons :=
  -- `procdump()` prints and changes nothing
  if c = C 'P' then cons
  else if c = C 'U' then killLine cons
  else if c = C 'H' ∨ c = '\x7f'.toUInt8 then
    if cons.e ≠ cons.w then { cons with e := cons.e - 1 } else cons
  else if c ≠ 0 ∧ cons.e - cons.r < UInt32.ofNat INPUT_BUF then
    let c := if c = '\r'.toUInt8 then '\n'.toUInt8 else c
    -- `cons.buf[cons.e++ % INPUT_BUF] = c;`
    let cons := { cons with
      buf := Function.update cons.buf (cons.e % UInt32.ofNat INPUT_BUF).toNat c, e := cons.e + 1 }
    if c = '\n'.toUInt8 ∨ c = C 'D' ∨ cons.e = cons.r + UInt32.ofNat INPUT_BUF then { cons with w := cons.e }
    else cons
  else cons

/-- How a reader's turn ends. -/
inductive Read where
  /-- `sleep(&cons.r, &cons.lock)`, with `n` bytes still wanted. -/
  | sleep (n : Int)
  /-- `release(&cons.lock); return r;`. -/
  | ret (r : Int)
  deriving DecidableEq, Repr

/-- `consoleread`'s `while(n > 0)` loop, holding `cons.lock`, with `n` of
`target` bytes still wanted: the console after it, the characters it copies
out, the characters it takes out of the buffer for good (a `^D` it puts back
with `cons.r--` is not one of them), and how it ends. -/
def readLoop (cons : Cons) (killed : Bool) (target n : Int) : Cons × List UInt8 × List UInt8 × Read :=
  if 0 < n then
    if cons.r = cons.w then
      if killed = true then (cons, [], [], .ret (-1)) else (cons, [], [], .sleep n)
    else
      let c := cons.buf (cons.r % UInt32.ofNat INPUT_BUF).toNat
      let cons := { cons with r := cons.r + 1 }
      if c = C 'D' then
        -- end-of-file: after data the `^D` stays, so that the next call returns 0
        if n < target then ({ cons with r := cons.r - 1 }, [], [], .ret (target - n))
        else (cons, [], [c], .ret (target - n))
      -- `either_copyout`, `dst++; --n;`, and a newline ends the read
      else if c = '\n'.toUInt8 then (cons, [c], [c], .ret (target - (n - 1)))
      else
        let rest := readLoop cons killed target (n - 1)
        (rest.1, c :: rest.2.1, c :: rest.2.2.1, rest.2.2.2)
  else (cons, [], [], .ret (target - n))
termination_by n.toNat

/-! ## Readers and the UART -/

/-- Where a process is in `consoleread`. -/
inductive Proc where
  | idle
  /-- Inside `consoleread`, or asleep in it: `n` of `target` bytes still
  wanted, `got` copied out so far. -/
  | reading (target n : Int) (got : List UInt8)
  | returned (r : Int) (got : List UInt8)
  deriving DecidableEq, Repr

/-- The console, its readers, and the ghost record: the committed characters
and the ones readers took for good, in order, and the line being edited. -/
structure Sys where
  cons : Cons
  proc : Nat → Proc
  killed : Nat → Bool
  committed : List UInt8
  consumed : List UInt8
  line : List UInt8

inductive Cmd where
  /-- The UART delivers `c`: `consoleintr(c)`. -/
  | intr (c : UInt8)
  /-- Process `p` calls `consoleread` for `n` bytes. -/
  | read (p : Nat) (n : Int)
  /-- Process `p` takes its next turn, waking first if it sleeps. -/
  | run (p : Nat)
  | kill (p : Nat)
  deriving DecidableEq, Repr

def Proc.free : Proc → Bool
  | .idle | .returned _ _ => true
  | _ => false

/-- Where a reader goes after a turn that copied `copied`. -/
def Read.after (target : Int) (got copied : List UInt8) : Read → Proc
  | .sleep n => .reading target n (got ++ copied)
  | .ret r => .returned r (got ++ copied)

/-- `consoleintr(c)`, and on the ghost side what it does to the line. -/
def intr (s : Sys) (c : UInt8) : Sys :=
  let cons := consoleintr s.cons c
  if c = C 'P' then { s with cons := cons }
  else if c = C 'U' then { s with cons := cons, line := [] }
  else if c = C 'H' ∨ c = '\x7f'.toUInt8 then { s with cons := cons, line := s.line.dropLast }
  else if c ≠ 0 ∧ s.cons.e - s.cons.r < UInt32.ofNat INPUT_BUF then
    let c := if c = '\r'.toUInt8 then '\n'.toUInt8 else c
    if c = '\n'.toUInt8 ∨ c = C 'D' ∨ s.cons.e + 1 = s.cons.r + UInt32.ofNat INPUT_BUF then
      { s with cons := cons, committed := s.committed ++ s.line ++ [c], line := [] }
    else { s with cons := cons, line := s.line ++ [c] }
  else { s with cons := cons }

@[simp] theorem intr_proc (s : Sys) (c : UInt8) : (intr s c).proc = s.proc := by
  simp only [intr]
  split_ifs <;> rfl

@[simp] theorem intr_consumed (s : Sys) (c : UInt8) : (intr s c).consumed = s.consumed := by
  simp only [intr]
  split_ifs <;> rfl

def step (s : Sys) : Cmd → Sys
  | .intr c => intr s c
  | .read p n => if (s.proc p).free then { s with proc := Function.update s.proc p (.reading n n []) } else s
  | .run p =>
    match s.proc p with
    | .reading target n got =>
      let turn := readLoop s.cons (s.killed p) target n
      { s with cons := turn.1, consumed := s.consumed ++ turn.2.2.1,
               proc := Function.update s.proc p (turn.2.2.2.after target got turn.2.1) }
    | _ => s
  | .kill p => { s with killed := Function.update s.killed p true }

/-- `cons` as `consoleinit` leaves it, on a buffer holding `buf`. -/
def boot (buf : Nat → UInt8) : Sys :=
  { cons := { buf := buf, r := 0, w := 0, e := 0 }, proc := fun _ => .idle, killed := fun _ => false,
    committed := [], consumed := [], line := [] }

/-! ## The buffer holds the unread input and the line -/

/-- `r`, `w` and `e` count the characters taken, committed, and committed or on
the line, modulo `2^32`, and are at most `INPUT_BUF` apart; what readers took is
what was committed first, and the ring holds the rest and then the line, which
holds no newline and no `^D`. -/
structure Buffer (cons : Cons) (consumed committed line : List UInt8) : Prop where
  inOrder : consumed <+: committed
  bound : committed.length + line.length ≤ consumed.length + INPUT_BUF
  r : cons.r = UInt32.ofNat consumed.length
  w : cons.w = UInt32.ofNat committed.length
  e : cons.e = UInt32.ofNat (committed ++ line).length
  ring : Ring.window cons.buf INPUT_BUF consumed.length ((committed ++ line).length - consumed.length) =
    (committed ++ line).drop consumed.length
  noNewline : '\n'.toUInt8 ∉ line
  noEof : C 'D' ∉ line

section Buffer

variable {cons : Cons} {consumed committed line : List UInt8}

theorem inputbuf_dvd : INPUT_BUF ∣ 2 ^ 32 := ⟨2 ^ 25, by decide⟩

theorem Buffer.length_le (inv : Buffer cons consumed committed line) : consumed.length ≤ committed.length :=
  inv.inOrder.length_le

theorem Buffer.empty_iff (inv : Buffer cons consumed committed line) :
    cons.r = cons.w ↔ committed.length = consumed.length := by
  rw [inv.r, inv.w, eq_comm]
  have bound := inv.bound
  unfold INPUT_BUF at bound
  exact Ring.counter_eq_iff inv.length_le (by omega)

theorem Buffer.editing_iff (inv : Buffer cons consumed committed line) : cons.e = cons.w ↔ line = [] := by
  have le := inv.length_le
  have bound := inv.bound
  unfold INPUT_BUF at bound
  rw [inv.e, inv.w, List.length_append, Ring.counter_eq_iff (by omega) (by omega)]
  simp

theorem Buffer.room_iff (inv : Buffer cons consumed committed line) :
    cons.e - cons.r < UInt32.ofNat INPUT_BUF ↔ (committed ++ line).length < consumed.length + INPUT_BUF := by
  have le := inv.length_le
  have bound := inv.bound
  rw [inv.e, inv.r, UInt32.lt_iff_toNat_lt, List.length_append,
    Ring.counter_sub (by omega) (by unfold INPUT_BUF at bound; omega)]
  unfold INPUT_BUF at bound ⊢
  simp only [UInt32.toNat_ofNat']
  omega

theorem Buffer.full_iff (inv : Buffer cons consumed committed line) :
    cons.e = cons.r + UInt32.ofNat INPUT_BUF ↔ (committed ++ line).length = consumed.length + INPUT_BUF := by
  have le := inv.length_le
  have bound := inv.bound
  rw [inv.e, inv.r, List.length_append]
  unfold INPUT_BUF at bound ⊢
  exact Ring.counter_eq_add_iff 128 (by omega) (by omega) (by decide)

theorem Buffer.unread (inv : Buffer cons consumed committed line) :
    Ring.window cons.buf INPUT_BUF consumed.length (committed.length - consumed.length) =
      committed.drop consumed.length := by
  have le := inv.length_le
  have whole := inv.ring
  rw [List.length_append, show committed.length + line.length - consumed.length =
    (committed.length - consumed.length) + line.length by omega, Ring.window_append,
    List.drop_append_of_le_length le] at whole
  exact List.append_inj_left' whole (by simp)

theorem Buffer.fills_iff (inv : Buffer cons consumed committed line) :
    cons.e + 1 = cons.r + UInt32.ofNat INPUT_BUF ↔ (committed ++ line).length + 1 = consumed.length + INPUT_BUF := by
  have le := inv.length_le
  have bound := inv.bound
  rw [inv.e, inv.r, Ring.counter_succ, List.length_append]
  unfold INPUT_BUF at bound ⊢
  exact Ring.counter_eq_add_iff 128 (by omega) (by omega) (by decide)

/-! ### `consoleintr` -/

theorem Buffer.bound_line (inv : Buffer cons consumed committed line) : line.length ≤ INPUT_BUF := by
  have le := inv.length_le
  have bound := inv.bound
  omega

/-- The character before `e` is the last one of the line. -/
theorem Buffer.last_mem (inv : Buffer cons consumed committed line) (nonempty : line ≠ []) :
    cons.buf ((cons.e - 1) % UInt32.ofNat INPUT_BUF).toNat ∈ line := by
  have le := inv.length_le
  have positive : 0 < line.length := List.length_pos_iff.mpr nonempty
  have total : (committed ++ line).length = committed.length + line.length := List.length_append
  have last : (committed ++ line).length - 1 - consumed.length <
      (Ring.window cons.buf INPUT_BUF consumed.length ((committed ++ line).length - consumed.length)).length := by
    rw [Ring.length_window]
    omega
  have cell := Ring.getElem_window last
  rw [List.getElem_of_eq inv.ring, List.getElem_drop] at cell
  have index : consumed.length + ((committed ++ line).length - 1 - consumed.length) = (committed ++ line).length - 1 := by
    omega
  simp only [index] at cell
  have predecessor : cons.e - 1 = UInt32.ofNat ((committed ++ line).length - 1) := by
    rw [inv.e, Ring.counter_pred (by omega)]
  rw [predecessor, Ring.counter_cell _ inputbuf_dvd (by decide), ← cell,
    List.getElem_append_right (by omega)]
  exact List.getElem_mem _

/-- Backspace: `cons.e--` on a line that is not empty. -/
theorem Buffer.backspace (inv : Buffer cons consumed committed line) (nonempty : line ≠ []) :
    Buffer { cons with e := cons.e - 1 } consumed committed line.dropLast := by
  have le := inv.length_le
  have bound := inv.bound
  have positive : 0 < line.length := List.length_pos_iff.mpr nonempty
  have total : (committed ++ line).length = committed.length + line.length := List.length_append
  have stream : (committed ++ line).dropLast = committed ++ line.dropLast :=
    List.dropLast_append_of_ne_nil nonempty
  have below : consumed.length < (committed ++ line).length := by omega
  refine ⟨inv.inOrder, by rw [List.length_dropLast]; omega, inv.r, inv.w, ?_, ?_,
    fun member => inv.noNewline ((List.dropLast_sublist _).subset member),
    fun member => inv.noEof ((List.dropLast_sublist _).subset member)⟩
  · show cons.e - 1 = _
    rw [inv.e, ← stream, List.length_dropLast, Ring.counter_pred below.pos]
  · rw [← stream]
    exact Ring.window_unstore inv.ring below

/-- `^U`: the whole line goes, and nothing before it; induction on the line. -/
theorem Buffer.killLine (inv : Buffer cons consumed committed line) :
    killLine cons = { cons with e := cons.w } ∧ Buffer { cons with e := cons.w } consumed committed [] := by
  induction line using List.reverseRecOn generalizing cons with
  | nil =>
    have same : cons.e = cons.w := inv.editing_iff.mpr rfl
    have kept : { cons with e := cons.w } = cons := by
      cases cons
      simp only at same
      subst same
      rfl
    rw [killLine, if_neg (fun erasing => erasing.1 same), kept]
    exact ⟨rfl, inv⟩
  | append_singleton line x ih =>
    have nonempty : line ++ [x] ≠ [] := by simp
    have erasing : cons.e ≠ cons.w := fun same => nonempty (inv.editing_iff.mp same)
    have notNewline : cons.buf ((cons.e - 1) % UInt32.ofNat INPUT_BUF).toNat ≠ '\n'.toUInt8 :=
      fun newline => inv.noNewline (newline ▸ inv.last_mem nonempty)
    have back := inv.backspace nonempty
    rw [List.dropLast_concat] at back
    rw [killLine, if_pos ⟨erasing, notNewline⟩]
    exact ih back

/-- The ring after `cons.buf[cons.e++ % INPUT_BUF] = c` with room in the buffer. -/
theorem Buffer.ring_store (inv : Buffer cons consumed committed line) (x : UInt8)
    (room : (committed ++ line).length < consumed.length + INPUT_BUF) :
    Ring.window (Function.update cons.buf (cons.e % UInt32.ofNat INPUT_BUF).toNat x) INPUT_BUF consumed.length
        ((committed ++ (line ++ [x])).length - consumed.length) = (committed ++ (line ++ [x])).drop consumed.length := by
  have le : consumed.length ≤ (committed ++ line).length := by
    have := inv.length_le
    rw [List.length_append]
    omega
  have fits : (committed ++ line).length - consumed.length < INPUT_BUF := by omega
  rw [inv.e, Ring.counter_cell _ inputbuf_dvd (by decide), ← List.append_assoc]
  exact Ring.window_store inv.ring le fits x

/-- A character that neither ends the line nor fills the buffer goes on the line. -/
theorem Buffer.push (inv : Buffer cons consumed committed line) (x : UInt8)
    (room : (committed ++ line).length + 1 < consumed.length + INPUT_BUF)
    (notNewline : x ≠ '\n'.toUInt8) (notEof : x ≠ C 'D') :
    Buffer { cons with buf := Function.update cons.buf (cons.e % UInt32.ofNat INPUT_BUF).toNat x,
                       e := cons.e + 1 } consumed committed (line ++ [x]) := by
  have total : (committed ++ line).length = committed.length + line.length := List.length_append
  refine ⟨inv.inOrder, by simp only [List.length_append, List.length_singleton]; omega, inv.r, inv.w, ?_,
    inv.ring_store x (by omega), ?_, ?_⟩
  · show cons.e + 1 = _
    rw [inv.e, Ring.counter_succ]
    simp only [List.length_append, List.length_singleton, Nat.add_assoc]
  · simpa [Ne.symm notNewline] using inv.noNewline
  · simpa [Ne.symm notEof] using inv.noEof

/-- A newline, a `^D` or a full buffer commits the line with its last character. -/
theorem Buffer.commit (inv : Buffer cons consumed committed line) (x : UInt8)
    (room : (committed ++ line).length < consumed.length + INPUT_BUF) :
    Buffer { cons with buf := Function.update cons.buf (cons.e % UInt32.ofNat INPUT_BUF).toNat x,
                       e := cons.e + 1, w := cons.e + 1 } consumed (committed ++ line ++ [x]) [] := by
  have total : (committed ++ line).length = committed.length + line.length := List.length_append
  refine ⟨inv.inOrder.trans (by simp), by simp only [List.length_append, List.length_singleton, List.length_nil]; omega,
    inv.r, ?_, ?_, ?_, List.not_mem_nil, List.not_mem_nil⟩
  · show cons.e + 1 = _
    rw [inv.e, Ring.counter_succ]
    simp only [List.length_append, List.length_singleton, Nat.add_assoc]
  · show cons.e + 1 = _
    rw [inv.e, Ring.counter_succ]
    simp only [List.append_nil, List.length_append, List.length_singleton, Nat.add_assoc]
  · rw [List.append_nil, List.append_assoc]
    exact inv.ring_store x room

/-- Every character the UART delivers keeps the buffer; the cases are `consoleintr`'s. -/
theorem Buffer.intr {s : Sys} (inv : Buffer s.cons s.consumed s.committed s.line) (c : UInt8) :
    Buffer (intr s c).cons (intr s c).consumed (intr s c).committed (intr s c).line := by
  by_cases ctrlP : c = C 'P'
  · simp only [Console.intr, consoleintr, if_pos ctrlP]
    exact inv
  by_cases ctrlU : c = C 'U'
  · simp only [Console.intr, consoleintr, if_neg ctrlP, if_pos ctrlU]
    rw [inv.killLine.1]
    exact inv.killLine.2
  by_cases erase : c = C 'H' ∨ c = '\x7f'.toUInt8
  · simp only [Console.intr, consoleintr, if_neg ctrlP, if_neg ctrlU, if_pos erase]
    by_cases editing : s.cons.e = s.cons.w
    · have empty := inv.editing_iff.mp editing
      rw [if_neg (not_not_intro editing), empty, List.dropLast_nil]
      exact empty ▸ inv
    · rw [if_pos editing]
      exact inv.backspace (fun empty => editing (inv.editing_iff.mpr empty))
  by_cases stored : c ≠ 0 ∧ s.cons.e - s.cons.r < UInt32.ofNat INPUT_BUF
  · simp only [Console.intr, consoleintr, if_neg ctrlP, if_neg ctrlU, if_neg erase, if_pos stored]
    have room := inv.room_iff.mp stored.2
    generalize (if c = '\r'.toUInt8 then '\n'.toUInt8 else c) = x
    by_cases ends : x = '\n'.toUInt8 ∨ x = C 'D' ∨ s.cons.e + 1 = s.cons.r + UInt32.ofNat INPUT_BUF
    · rw [if_pos ends, if_pos ends]
      exact inv.commit x room
    · rw [if_neg ends, if_neg ends]
      push Not at ends
      have notFull := (not_congr inv.fills_iff).mp ends.2.2
      exact inv.push x (by omega) ends.1 ends.2.1
  · simp only [Console.intr, consoleintr, if_neg ctrlP, if_neg ctrlU, if_neg erase, if_neg stored]
    exact inv

/-! ### `consoleread` -/

/-- `c = cons.buf[cons.r++ % INPUT_BUF]` with unread input: the reader gets the
oldest committed character it has not taken. -/
theorem Buffer.take (inv : Buffer cons consumed committed line) (unread : consumed.length < committed.length) :
    cons.buf (cons.r % UInt32.ofNat INPUT_BUF).toNat = committed[consumed.length] ∧
      Buffer { cons with r := cons.r + 1 } (consumed ++ [committed[consumed.length]]) committed line := by
  have total : (committed ++ line).length = committed.length + line.length := List.length_append
  have below : consumed.length < (committed ++ line).length := by omega
  have head : (committed ++ line)[consumed.length] = committed[consumed.length] := List.getElem_append_left unread
  obtain ⟨cell, rest⟩ := Ring.window_take inv.ring below
  have bound := inv.bound
  refine ⟨?_, ⟨List.concat_get_prefix inv.inOrder unread, ?_, ?_, inv.w, inv.e, ?_, inv.noNewline, inv.noEof⟩⟩
  · rw [inv.r, Ring.counter_cell _ inputbuf_dvd (by decide), cell, head]
  · rw [List.length_append, List.length_singleton]
    omega
  · show cons.r + 1 = _
    rw [inv.r, Ring.counter_succ, List.length_append, List.length_singleton]
  · rw [List.length_append, List.length_singleton]
    exact rest

end Buffer

theorem Buffer.drained (inv : Buffer cons consumed committed line) (empty : cons.r = cons.w) :
    committed.drop consumed.length = [] :=
  List.drop_eq_nil_of_le (inv.empty_iff.mp empty).le

theorem Buffer.next (inv : Buffer cons consumed committed line) (unread : cons.r ≠ cons.w) :
    ∃ x rest, committed.drop consumed.length = x :: rest ∧ cons.buf (cons.r % UInt32.ofNat INPUT_BUF).toNat = x ∧
      committed.drop (consumed ++ [x]).length = rest ∧
      Buffer { cons with r := cons.r + 1 } (consumed ++ [x]) committed line := by
  have below : consumed.length < committed.length :=
    lt_of_le_of_ne inv.length_le fun same => unread (inv.empty_iff.mpr same.symm)
  obtain ⟨cell, taken⟩ := inv.take below
  refine ⟨committed[consumed.length], committed.drop (consumed.length + 1), List.drop_eq_getElem_cons below,
    cell, ?_, taken⟩
  rw [List.length_append, List.length_singleton]

/-! ## The input a read takes

`readLoop` on the committed input that no reader has taken, `pending`, stated
as a list with no ring: the loop is this function through the buffer. -/

/-- The loop with `n` of `target` bytes wanted on the unread input `pending`:
what it copies out, what it takes, and how it ends. -/
def takeLine (pending : List UInt8) (killed : Bool) (target n : Int) : List UInt8 × List UInt8 × Read :=
  if 0 < n then
    match pending with
    | [] => if killed = true then ([], [], .ret (-1)) else ([], [], .sleep n)
    | c :: rest =>
      if c = C 'D' then
        if n < target then ([], [], .ret (target - n)) else ([], [c], .ret (target - n))
      else if c = '\n'.toUInt8 then ([c], [c], .ret (target - (n - 1)))
      else
        let more := takeLine rest killed target (n - 1)
        (c :: more.1, c :: more.2.1, more.2.2)
  else ([], [], .ret (target - n))

/-- What a turn on `pending` does: it takes the next unread bytes, and copies
them out bar a `^D` it takes last; it sleeps only once it has taken all of
`pending`, with no newline copied and the bytes it did not get still wanted; it
returns `-1` only on all of `pending`, or the count so far with a newline at
most last, having stopped at a newline, at the count, or before a `^D`; and it
takes a `^D` exactly when it is the whole of a read, which then returns 0. -/
structure Turn (pending : List UInt8) (target n : Int) (copied taken : List UInt8) (res : Read) : Prop where
  next : taken <+: pending
  whole : taken = copied ∨ taken = copied ++ [C 'D']
  noEof : C 'D' ∉ copied
  sleep : ∀ n', res = .sleep n' → n' = n - copied.length ∧ '\n'.toUInt8 ∉ copied ∧ copied = pending
  ret : ∀ r, res = .ret r → '\n'.toUInt8 ∉ copied.dropLast ∧
    (r = -1 ∧ copied = pending ∨ r = target - n + copied.length ∧
      (copied.getLast? = some '\n'.toUInt8 ∨ n ≤ copied.length ∨ (pending.drop copied.length).head? = some (C 'D')))
  eof : n ≤ target → C 'D' ∈ taken → copied = [] ∧ n = target ∧ res = .ret 0
  eofTaken : 0 < n → n = target → pending.head? = some (C 'D') → taken = [C 'D']

example : takeLine [97, 98, C 'D', 99] false 10 10 = ([97, 98], [97, 98], .ret 2) := by decide
example : takeLine [C 'D', 99] false 10 10 = ([], [C 'D'], .ret 0) := by decide

theorem Turn.sublist {pending copied taken : List UInt8} {target n : Int} {res : Read}
    (turn : Turn pending target n copied taken res) : copied.Sublist taken := by
  rcases turn.whole with same | eof
  · rw [same]
  · rw [eof]
    exact List.sublist_append_left copied _

/-- A character other than `^D` and newline is copied, and the turn goes on
with one byte fewer wanted. -/
theorem Turn.cons {pending copied taken : List UInt8} {target n : Int} {res : Read} {c : UInt8}
    (turn : Turn pending target (n - 1) copied taken res) (notEof : c ≠ C 'D') (notNewline : c ≠ '\n'.toUInt8) :
    Turn (c :: pending) target n (c :: copied) (c :: taken) res where
  next := List.cons_prefix_cons.mpr ⟨rfl, turn.next⟩
  whole := by
    rcases turn.whole with same | eof
    · exact .inl (by rw [same])
    · exact .inr (by rw [eof, List.cons_append])
  noEof := by
    rw [List.mem_cons, not_or]
    exact ⟨Ne.symm notEof, turn.noEof⟩
  sleep n' slept := by
    obtain ⟨count, line, all⟩ := turn.sleep n' slept
    refine ⟨by rw [count, List.length_cons]; push_cast; omega, ?_, by rw [all]⟩
    rw [List.mem_cons, not_or]
    exact ⟨Ne.symm notNewline, line⟩
  ret r returned := by
    obtain ⟨line, stop⟩ := turn.ret r returned
    refine ⟨?_, ?_⟩
    · by_cases empty : copied = []
      · simp [empty]
      · rw [List.dropLast_cons_of_ne_nil empty, List.mem_cons, not_or]
        exact ⟨Ne.symm notNewline, line⟩
    rcases stop with ⟨killed, all⟩ | ⟨count, why⟩
    · exact .inl ⟨killed, by rw [all]⟩
    refine .inr ⟨by rw [count, List.length_cons]; push_cast; omega, ?_⟩
    rw [List.length_cons, List.drop_succ_cons]
    rcases why with last | full | eof
    · have nonempty : copied ≠ [] := by
        rintro rfl
        simp at last
      exact .inl (by rw [List.getLast?_cons, last]; rfl)
    · exact .inr (.inl (by omega))
    · exact .inr (.inr eof)
  eof le member := by
    have later : C 'D' ∈ taken := (List.mem_cons.mp member).resolve_left (Ne.symm notEof)
    have := (turn.eof (by omega) later).2.1
    omega
  eofTaken _ _ head := absurd (Option.some.inj head) notEof

theorem takeLine_turn (pending : List UInt8) (killed : Bool) (target n : Int) :
    Turn pending target n (takeLine pending killed target n).1 (takeLine pending killed target n).2.1
      (takeLine pending killed target n).2.2 := by
  fun_induction takeLine pending killed target n with
  | case1 => constructor <;> simp
  | case2 => constructor <;> simp
  | case3 _ _ _ before =>
    refine ⟨by simp, by simp, by simp, by simp, ?_, by simp, fun _ same => absurd same (by omega)⟩
    simp
  | case4 _ _ _ enough =>
    refine ⟨by simp, .inr rfl, by simp, by simp, ?_, fun le _ => ⟨rfl, by omega, by simp; omega⟩,
      fun _ _ _ => rfl⟩
    simp
  | case5 _ _ _ notEof =>
    refine ⟨by simp, .inl rfl, by simpa using Ne.symm notEof, by simp, ?_, ?_, ?_⟩
    · simp only [Read.ret.injEq, List.dropLast_singleton, List.not_mem_nil, not_false_eq_true, true_and]
      intro r returned
      exact .inr ⟨by rw [← returned, List.length_singleton]; push_cast; omega, .inl rfl⟩
    · intro _ member
      exact absurd (List.mem_singleton.mp member) (Ne.symm notEof)
    · intro _ _ head
      exact absurd (Option.some.inj head) notEof
  | case6 _ _ _ _ notEof notNewline _ ih => exact ih.cons notEof notNewline
  | case7 _ _ stopped =>
    refine ⟨by simp, by simp, by simp, by simp, ?_, by simp, fun positive => absurd positive stopped⟩
    simp only [Read.ret.injEq, List.dropLast_nil, List.not_mem_nil, not_false_eq_true, List.length_nil,
      Nat.cast_zero, add_zero, true_and]
    intro r returned
    exact .inr ⟨returned.symm, .inr (.inl (by omega))⟩

/-! ## The ring implements the list -/

section Refinement

variable {cons : Cons} {consumed committed line : List UInt8}

/-- `readLoop` is `takeLine` on the unread committed input, through the ring:
it returns what `takeLine` returns, and the buffer holds with what it took. -/
theorem Buffer.readLoop (inv : Buffer cons consumed committed line) (killed : Bool) (target n : Int) :
    (readLoop cons killed target n).2 = takeLine (committed.drop consumed.length) killed target n ∧
      Buffer (readLoop cons killed target n).1
        (consumed ++ (takeLine (committed.drop consumed.length) killed target n).2.1) committed line := by
  fun_induction Console.readLoop cons killed target n generalizing consumed with
  | case1 cons n positive empty isKilled =>
    rw [inv.drained empty]
    exact ⟨by simp [takeLine, positive, isKilled], by simpa [takeLine, positive, isKilled] using inv⟩
  | case2 cons n positive empty notKilled =>
    rw [inv.drained empty]
    exact ⟨by simp [takeLine, positive, notKilled], by simpa [takeLine, positive, notKilled] using inv⟩
  | case3 cons n positive unread c cons' isEof =>
    rename_i before
    obtain ⟨x, rest, pending, cell, -, -⟩ := inv.next unread
    have same : c = x := cell
    subst same
    have back : ({ cons' with r := cons'.r - 1 } : Cons) = cons := by simp [cons']
    rw [pending]
    simp only [takeLine, if_pos positive, if_pos isEof, if_pos before, List.append_nil, true_and]
    rw [back]
    exact inv
  | case4 cons n positive unread c cons' isEof =>
    rename_i enough
    obtain ⟨x, rest, pending, cell, -, next⟩ := inv.next unread
    have same : c = x := cell
    subst same
    rw [pending]
    simp only [takeLine, if_pos positive, if_pos isEof, if_neg enough, true_and]
    exact next
  | case5 cons n positive unread c cons' notEof =>
    rename_i newline
    obtain ⟨x, rest, pending, cell, -, next⟩ := inv.next unread
    have same : c = x := cell
    subst same
    rw [pending]
    simp only [takeLine, if_pos positive, if_neg notEof, if_pos newline, true_and]
    exact next
  | case6 cons n positive unread c cons' notEof notNewline more =>
    rename_i ih
    obtain ⟨x, rest, pending, cell, later, next⟩ := inv.next unread
    have same : c = x := cell
    subst same
    obtain ⟨result, kept⟩ := ih next
    rw [later] at result kept
    rw [pending]
    simp only [takeLine, if_pos positive, if_neg notEof, if_neg notNewline]
    refine ⟨by rw [← result], ?_⟩
    rw [List.append_cons]
    exact kept
  | case7 cons n stopped =>
    exact ⟨by rw [takeLine.eq_def, if_neg stopped],
      by rw [takeLine.eq_def, if_neg stopped, List.append_nil]; exact inv⟩

/-- A reader's turn, through the refinement: it takes what `takeLine` takes from
the unread input, and goes where `takeLine`'s result sends it. -/
theorem step_run {s : Sys} (inv : Buffer s.cons s.consumed s.committed s.line) {p : Nat} {target n : Int}
    {got : List UInt8} (reading : s.proc p = .reading target n got) :
    ∃ cons', step s (.run p) =
        { s with cons := cons',
                 consumed := s.consumed ++ (takeLine (s.committed.drop s.consumed.length) (s.killed p) target n).2.1,
                 proc := Function.update s.proc p
                   ((takeLine (s.committed.drop s.consumed.length) (s.killed p) target n).2.2.after target got
                     (takeLine (s.committed.drop s.consumed.length) (s.killed p) target n).1) } ∧
      Buffer cons' (s.consumed ++ (takeLine (s.committed.drop s.consumed.length) (s.killed p) target n).2.1)
        s.committed s.line := by
  obtain ⟨result, kept⟩ := inv.readLoop (s.killed p) target n
  refine ⟨_, ?_, kept⟩
  simp only [step, reading]
  rw [result]

end Refinement

/-! ## Readers -/

/-- A reader inside `consoleread` with `n` of `target` bytes still wanted: it
copied the other `target - n`, with no newline and no `^D`, from the input
readers took, in order. -/
structure Reading (target n : Int) (got consumed : List UInt8) : Prop where
  count : (got.length : Int) = target - n
  noNewline : '\n'.toUInt8 ∉ got
  noEof : C 'D' ∉ got
  taken : got.Sublist consumed

/-- A finished `consoleread`: it returned `-1` or the count it copied, with a
newline at most last and no `^D`, from the input readers took, in order. -/
structure Returned (r : Int) (got consumed : List UInt8) : Prop where
  count : r = -1 ∨ r = got.length
  line : '\n'.toUInt8 ∉ got.dropLast
  noEof : C 'D' ∉ got
  taken : got.Sublist consumed

/-- What a process in `consoleread`, or back from it, has got so far. -/
def Proc.Ok (consumed : List UInt8) : Proc → Prop
  | .idle => True
  | .reading target n got => Reading target n got consumed
  | .returned r got => Returned r got consumed

/-- The console invariant: the buffer, and every reader. -/
structure Discipline (s : Sys) : Prop where
  buffer : Buffer s.cons s.consumed s.committed s.line
  procs : ∀ p, (s.proc p).Ok s.consumed

theorem Proc.Ok.grow {consumed more : List UInt8} : ∀ {proc : Proc}, proc.Ok consumed → proc.Ok (consumed ++ more)
  | .idle, _ => trivial
  | .reading _ _ _, ok => { ok with taken := ok.taken.trans (List.sublist_append_left _ _) }
  | .returned _ _, ok => { ok with taken := ok.taken.trans (List.sublist_append_left _ _) }

/-- A reader's turn keeps what it has got, with what the turn copied. -/
theorem Reading.after {target n : Int} {got consumed pending copied taken : List UInt8} {res : Read}
    (reading : Reading target n got consumed) (turn : Turn pending target n copied taken res) :
    (res.after target got copied).Ok (consumed ++ taken) := by
  have taken := reading.taken.append turn.sublist
  have noEof : C 'D' ∉ got ++ copied := by
    rw [List.mem_append, not_or]
    exact ⟨reading.noEof, turn.noEof⟩
  cases res with
  | sleep n' =>
    obtain ⟨count, line, -⟩ := turn.sleep n' rfl
    refine ⟨?_, ?_, noEof, taken⟩
    · rw [List.length_append, count]
      push_cast
      have := reading.count
      omega
    · rw [List.mem_append, not_or]
      exact ⟨reading.noNewline, line⟩
  | ret r =>
    obtain ⟨line, stop⟩ := turn.ret r rfl
    refine ⟨?_, ?_, noEof, taken⟩
    · rw [List.length_append]
      push_cast
      have := reading.count
      rcases stop with ⟨killed, -⟩ | ⟨count, -⟩ <;> omega
    · by_cases empty : copied = []
      · rw [empty, List.append_nil]
        exact fun member => reading.noNewline (List.mem_of_mem_dropLast member)
      · rw [List.dropLast_append_of_ne_nil empty, List.mem_append, not_or]
        exact ⟨reading.noNewline, line⟩

theorem discipline_boot (buf : Nat → UInt8) : Discipline (boot buf) where
  buffer := ⟨List.nil_prefix, Nat.zero_le _, rfl, rfl, rfl, rfl, List.not_mem_nil, List.not_mem_nil⟩
  procs _ := trivial

theorem discipline_step {s : Sys} (inv : Discipline s) (cmd : Cmd) : Discipline (step s cmd) := by
  cases cmd with
  | intr c =>
    refine ⟨inv.buffer.intr c, fun q => ?_⟩
    simp only [step, intr_proc, intr_consumed]
    exact inv.procs q
  | read p n =>
    by_cases free : (s.proc p).free = true
    · simp only [step, free, if_true]
      refine ⟨inv.buffer, fun q => ?_⟩
      dsimp only
      by_cases same : q = p
      · subst same
        rw [Function.update_self]
        exact ⟨by simp, List.not_mem_nil, List.not_mem_nil, List.nil_sublist _⟩
      · rw [Function.update_of_ne same]
        exact inv.procs q
    · simpa [step, free] using inv
  | run p =>
    cases reading : s.proc p with
    | reading target n got =>
      obtain ⟨cons', stepped, buffer⟩ := step_run inv.buffer reading
      rw [stepped]
      refine ⟨buffer, fun q => ?_⟩
      dsimp only
      by_cases same : q = p
      · subst same
        rw [Function.update_self]
        have ok := inv.procs q
        rw [reading] at ok
        exact ok.after (takeLine_turn _ _ _ _)
      · rw [Function.update_of_ne same]
        exact (inv.procs q).grow
    | idle => simpa [step, reading] using inv
    | returned r got => simpa [step, reading] using inv
  | kill p => exact ⟨inv.buffer, inv.procs⟩

theorem discipline_reachable {buf : Nat → UInt8} {s : Sys} (reached : Machine.Reachable step (boot buf) s) :
    Discipline s :=
  Machine.Reachable.invariant (P := Discipline) (fun _ cmd inv => discipline_step inv cmd) (discipline_boot buf) reached

/-! ## A reader's turn -/

section Turns

variable {s : Sys} {p : Nat} {target n : Int} {got : List UInt8}

theorem Discipline.reading (inv : Discipline s) (reading : s.proc p = .reading target n got) :
    Reading target n got s.consumed := by
  have ok := inv.procs p
  rw [reading] at ok
  exact ok

theorem Discipline.run (inv : Discipline s) (reading : s.proc p = .reading target n got) :
    ∃ copied taken res, Turn (s.committed.drop s.consumed.length) target n copied taken res ∧
      (step s (.run p)).consumed = s.consumed ++ taken ∧ (step s (.run p)).proc p = res.after target got copied := by
  obtain ⟨cons', stepped, -⟩ := step_run inv.buffer reading
  refine ⟨_, _, _, takeLine_turn _ (s.killed p) target n, ?_, ?_⟩ <;> rw [stepped]
  simp only [Function.update_self]

/-- A turn takes the next unread committed bytes and copies them out, bar a `^D`
that is a whole read of 0 bytes; it sleeps only once it has taken all there is,
and it returns `-1` on all there is, or the count of what it got, having stopped
at a newline, at the count, or before a `^D`. -/
theorem Discipline.next_bytes (inv : Discipline s) (reading : s.proc p = .reading target n got) :
    ∃ copied, copied <+: s.committed.drop s.consumed.length ∧ '\n'.toUInt8 ∉ copied.dropLast ∧ C 'D' ∉ copied ∧
      ((step s (.run p)).consumed = s.consumed ++ copied ∨
        copied = [] ∧ got = [] ∧ (step s (.run p)).consumed = s.consumed ++ [C 'D'] ∧
          (step s (.run p)).proc p = .returned 0 []) ∧
      ((∃ n', (step s (.run p)).proc p = .reading target n' (got ++ copied) ∧
          copied = s.committed.drop s.consumed.length) ∨
        ∃ r, (step s (.run p)).proc p = .returned r (got ++ copied) ∧
          (r = -1 ∧ copied = s.committed.drop s.consumed.length ∨
            r = (got ++ copied).length ∧ (copied.getLast? = some '\n'.toUInt8 ∨ target ≤ (got ++ copied).length ∨
              ((s.committed.drop s.consumed.length).drop copied.length).head? = some (C 'D')))) := by
  have count := (inv.reading reading).count
  obtain ⟨copied, taken, res, turn, consumed, proc⟩ := inv.run reading
  have next : copied <+: s.committed.drop s.consumed.length := by
    rcases turn.whole with same | eof
    · exact same ▸ turn.next
    · exact (List.prefix_append copied _).trans (eof ▸ turn.next)
  have took : s.consumed ++ taken = s.consumed ++ copied ∨
      copied = [] ∧ got = [] ∧ s.consumed ++ taken = s.consumed ++ [C 'D'] ∧ res = .ret 0 := by
    rcases turn.whole with same | eof
    · exact .inl (by rw [same])
    · obtain ⟨nothing, whole, zero⟩ := turn.eof (by omega) (by simp [eof])
      have empty : got = [] := List.eq_nil_of_length_eq_zero (by omega)
      exact .inr ⟨nothing, empty, by rw [eof, nothing, List.nil_append], zero⟩
  rw [consumed, proc]
  cases res with
  | sleep n' =>
    obtain ⟨-, line, all⟩ := turn.sleep n' rfl
    refine ⟨copied, next, fun member => line (List.mem_of_mem_dropLast member), turn.noEof, ?_, .inl ⟨n', rfl, all⟩⟩
    rcases took with same | ⟨-, -, -, wrong⟩
    · exact .inl same
    · cases wrong
  | ret r =>
    obtain ⟨line, stop⟩ := turn.ret r rfl
    refine ⟨copied, next, line, turn.noEof, ?_, .inr ⟨r, rfl, ?_⟩⟩
    · rcases took with same | ⟨nothing, empty, eof, zero⟩
      · exact .inl same
      · cases zero
        exact .inr ⟨nothing, empty, eof, by simp [Read.after, nothing, empty]⟩
    · rcases stop with killed | ⟨value, why⟩
      · exact .inl killed
      refine .inr ⟨by rw [value, List.length_append]; push_cast; omega, ?_⟩
      rcases why with last | full | eof
      · exact .inl last
      · exact .inr (.inl (by rw [List.length_append]; push_cast; omega))
      · exact .inr (.inr eof)

/-- A read of a positive count returns 0 only on a `^D`, which it takes. -/
theorem Discipline.zero_read (inv : Discipline s) (reading : s.proc p = .reading target n got) (positive : 0 < target)
    {got' : List UInt8} (zero : (step s (.run p)).proc p = .returned 0 got') :
    (s.committed.drop s.consumed.length).head? = some (C 'D') ∧ (step s (.run p)).consumed = s.consumed ++ [C 'D'] := by
  have count := (inv.reading reading).count
  obtain ⟨copied, taken, res, turn, consumed, proc⟩ := inv.run reading
  rw [proc] at zero
  cases res with
  | sleep n' => simp [Read.after] at zero
  | ret r =>
    simp only [Read.after, Proc.returned.injEq] at zero
    obtain ⟨rfl, -⟩ := zero
    obtain ⟨-, stop⟩ := turn.ret 0 rfl
    rcases stop with ⟨wrong, -⟩ | ⟨value, why⟩
    · omega
    have nothing : copied = [] := List.eq_nil_of_length_eq_zero (by omega)
    have whole : n = target := by omega
    have head : (s.committed.drop s.consumed.length).head? = some (C 'D') := by
      rcases why with last | full | eof
      · simp [nothing] at last
      · rw [nothing] at full
        simp only [List.length_nil, Nat.cast_zero] at full
        omega
      · rwa [nothing, List.length_nil, List.drop_zero] at eof
    exact ⟨head, by rw [consumed, turn.eofTaken (by omega) whole head]⟩

end Turns

/-- Typing `ab` and a newline, a `^D`, and `c` and a newline: a read of 10
bytes gets the first line, the next read the `^D` alone, and a third read, not
yet run, will get the second line. -/
def consoleRun : List Cmd :=
  [.intr 97, .intr 98, .intr '\r'.toUInt8, .intr (C 'D'), .intr 99, .intr '\r'.toUInt8, .read 0 10, .run 0,
    .read 0 10, .run 0, .read 1 5]

def typed : Sys := Machine.run step (boot fun _ => 0) consoleRun

example : typed.proc 0 = .returned 0 [] ∧ typed.consumed = [97, 98, 10, C 'D'] ∧
    (step typed (.run 1)).proc 1 = .returned 2 [99, 10] := by decide +kernel

end Xv6.Console
