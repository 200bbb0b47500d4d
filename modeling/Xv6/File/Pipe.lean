import Xv6.Ring
import Xv6.Machine

/-! `kernel/pipe.c`: a pipe is a 512-byte ring, `data`, with two free-running
`uint` counters, `nread` and `nwrite`, under `pi->lock`. `pipewrite` copies in
one byte a turn of its loop and sleeps while the ring is full; `piperead` sleeps
while it is empty and its write end open, then copies out what is there, up to
`n` bytes, in one go.

Any number of processes write, read and close. A step is a turn of a writer's
loop, a turn of a reader's wait (the copy-out belongs to the turn that ends the
wait, since `pi->lock` is held from the test to the return), a `pipeclose` or a
`kill`. A sleeper may be resumed at any time: it re-tests what it waits for,
so this only adds runs. `copyin` and `copyout` succeed: the user's bytes are
given, and every byte a reader takes is delivered. Ghost lists record every byte
`pipewrite` stores, with the process that stored it, and every byte `piperead`
delivers, in order; a ghost mark per process says where in the first its latest
`pipewrite` began. -/
namespace Xv6.Pipes

def PIPESIZE : Nat := 512

/-- `struct pipe`, without its lock. -/
structure Pipe where
  data : Nat → UInt8
  nread : UInt32
  nwrite : UInt32
  readopen : Bool
  writeopen : Bool

/-- How a turn of a loop ends. -/
inductive Turn where
  /-- The loop goes on, holding `pi->lock`. -/
  | next
  /-- `sleep`, which releases the lock; the loop goes on when the process wakes. -/
  | sleep
  /-- `release(&pi->lock); return r;`. -/
  | ret (r : Int)
  deriving DecidableEq, Repr

/-- One turn of `pipewrite`'s `while(i < n)` loop with `i` of the user's bytes
`src` copied, and the byte it stores. -/
def writeTurn (pi : Pipe) (killed : Bool) (src : List UInt8) (i : Nat) : Pipe × Option UInt8 × Turn :=
  if h : i < src.length then
    if pi.readopen = false ∨ killed = true then (pi, none, .ret (-1))
    -- `wakeup(&pi->nread); sleep(&pi->nwrite, &pi->lock);`
    else if pi.nwrite = pi.nread + UInt32.ofNat PIPESIZE then (pi, none, .sleep)
    else
      -- `copyin` of `src[i]`, then `pi->data[pi->nwrite++ % PIPESIZE] = ch; i++;`
      ({ pi with
          data := Function.update pi.data (pi.nwrite % UInt32.ofNat PIPESIZE).toNat src[i]
          nwrite := pi.nwrite + 1 }, some src[i], .next)
  -- `wakeup(&pi->nread); release(&pi->lock); return i;`
  else (pi, none, .ret i)

/-- `piperead`'s copy loop `for(i = 0; i < n; i++)` from `i`: the pipe after it,
the bytes it copies out, and the `i` it returns. -/
def copyLoop (pi : Pipe) (n : Int) (i : Nat) : Pipe × List UInt8 × Nat :=
  if (i : Int) < n then
    if pi.nread = pi.nwrite then (pi, [], i)
    else
      let ch := pi.data (pi.nread % UInt32.ofNat PIPESIZE).toNat
      let rest := copyLoop { pi with nread := pi.nread + 1 } n (i + 1)
      (rest.1, ch :: rest.2.1, rest.2.2)
  else (pi, [], i)
termination_by (n - i).toNat

/-- One turn of `piperead` holding `pi->lock`. While the pipe is empty and its
write end open, a killed process returns -1 and any other sleeps; otherwise the
copy loop runs and `piperead` returns. -/
def readTurn (pi : Pipe) (killed : Bool) (n : Int) : Pipe × List UInt8 × Turn :=
  if pi.nread = pi.nwrite ∧ pi.writeopen = true then
    if killed = true then (pi, [], .ret (-1)) else (pi, [], .sleep)
  else
    let copied := copyLoop pi n 0
    (copied.1, copied.2.1, .ret copied.2.2)

/-- `pipeclose(pi, writable)`; when both ends are closed the page is freed, and
no call reaches the pipe again. -/
def pipeclose (pi : Pipe) (writable : Bool) : Pipe :=
  if writable then { pi with writeopen := false } else { pi with readopen := false }

/-- The pipe as `pipealloc` leaves it, on a page holding `data`. -/
def pipealloc (data : Nat → UInt8) : Pipe :=
  { data := data, nread := 0, nwrite := 0, readopen := true, writeopen := true }

/-! ## Processes using the pipe -/

/-- Where a process is in its pipe call. -/
inductive Proc where
  | idle
  /-- At the head of `pipewrite`'s loop, or asleep in it, with `i` bytes copied. -/
  | writing (src : List UInt8) (i : Nat)
  /-- At the head of `piperead`'s wait loop, or asleep in it. -/
  | reading (n : Int)
  | returned (r : Int)
  deriving DecidableEq, Repr

/-- The pipe, its users, and the ghost record of the bytes stored and delivered. -/
structure Sys where
  pipe : Pipe
  proc : Nat → Proc
  killed : Nat → Bool
  stored : List (Nat × UInt8)
  delivered : List UInt8
  mark : Nat → Nat

inductive Cmd where
  /-- Process `p` calls `pipewrite` with the bytes `src`. -/
  | write (p : Nat) (src : List UInt8)
  /-- Process `p` calls `piperead` for `n` bytes. -/
  | read (p : Nat) (n : Int)
  /-- Process `p` takes its next turn, waking first if it sleeps. -/
  | run (p : Nat)
  | close (writable : Bool)
  | kill (p : Nat)
  deriving DecidableEq, Repr

/-- A call starts only in a process that is not inside one. -/
def Proc.free : Proc → Bool
  | .idle | .returned _ => true
  | _ => false

/-- Where a writer goes after a turn. -/
def Turn.writer (src : List UInt8) (i : Nat) : Turn → Proc
  | .next => .writing src (i + 1)
  | .sleep => .writing src i
  | .ret r => .returned r

/-- Where a reader goes after a turn. -/
def Turn.reader (n : Int) : Turn → Proc
  | .ret r => .returned r
  | _ => .reading n

def step (s : Sys) : Cmd → Sys
  | .write p src =>
    if (s.proc p).free then
      { s with proc := Function.update s.proc p (.writing src 0), mark := Function.update s.mark p s.stored.length }
    else s
  | .read p n => if (s.proc p).free then { s with proc := Function.update s.proc p (.reading n) } else s
  | .run p =>
    match s.proc p with
    | .writing src i =>
      let turn := writeTurn s.pipe (s.killed p) src i
      { s with pipe := turn.1, stored := s.stored ++ (turn.2.1.map (p, ·)).toList,
               proc := Function.update s.proc p (turn.2.2.writer src i) }
    | .reading n =>
      let turn := readTurn s.pipe (s.killed p) n
      { s with pipe := turn.1, delivered := s.delivered ++ turn.2.1,
               proc := Function.update s.proc p (turn.2.2.reader n) }
    | _ => s
  | .close writable => { s with pipe := pipeclose s.pipe writable }
  | .kill p => { s with killed := Function.update s.killed p true }

/-- A new pipe on a page holding `data`, with nobody inside a call. -/
def boot (data : Nat → UInt8) : Sys :=
  { pipe := pipealloc data, proc := fun _ => .idle, killed := fun _ => false, stored := [], delivered := [],
    mark := fun _ => 0 }

/-- The bytes stored, in order. -/
def Sys.bytes (s : Sys) : List UInt8 := s.stored.map Prod.snd

/-- The bytes `p` has stored since its latest `pipewrite` began. -/
def Sys.wrote (s : Sys) (p : Nat) : List UInt8 :=
  ((s.stored.drop (s.mark p)).filter fun e => e.1 == p).map Prod.snd

/-! ## The ring holds what was stored and not yet delivered -/

/-- `nread` and `nwrite` count the delivered and the stored bytes modulo `2^32`
and are at most `PIPESIZE` apart; what was delivered is what was stored first,
and the ring holds the rest, in order. -/
structure Fifo (pi : Pipe) (stored delivered : List UInt8) : Prop where
  inOrder : delivered <+: stored
  bound : stored.length ≤ delivered.length + PIPESIZE
  nread : pi.nread = UInt32.ofNat delivered.length
  nwrite : pi.nwrite = UInt32.ofNat stored.length
  ring : Ring.window pi.data PIPESIZE delivered.length (stored.length - delivered.length) =
    stored.drop delivered.length

section Fifo

variable {pi : Pipe} {stored delivered : List UInt8}

theorem pipesize_dvd : PIPESIZE ∣ 2 ^ 32 := ⟨2 ^ 23, by decide⟩

theorem Fifo.length_le (fifo : Fifo pi stored delivered) : delivered.length ≤ stored.length :=
  fifo.inOrder.length_le

theorem Fifo.full_iff (fifo : Fifo pi stored delivered) :
    pi.nwrite = pi.nread + UInt32.ofNat PIPESIZE ↔ stored.length = delivered.length + PIPESIZE := by
  rw [fifo.nwrite, fifo.nread]
  have bound := fifo.bound
  unfold PIPESIZE at bound ⊢
  exact Ring.counter_eq_add_iff 512 fifo.length_le (by omega) (by decide)

theorem Fifo.empty_iff (fifo : Fifo pi stored delivered) :
    pi.nread = pi.nwrite ↔ stored.length = delivered.length := by
  rw [fifo.nwrite, fifo.nread, eq_comm]
  have bound := fifo.bound
  unfold PIPESIZE at bound
  exact Ring.counter_eq_iff fifo.length_le (by omega)

theorem Fifo.flags (fifo : Fifo pi stored delivered) (readopen writeopen : Bool) :
    Fifo { pi with readopen := readopen, writeopen := writeopen } stored delivered :=
  ⟨fifo.inOrder, fifo.bound, fifo.nread, fifo.nwrite, fifo.ring⟩

/-- `pi->data[pi->nwrite++ % PIPESIZE] = ch` on a ring that is not full. -/
theorem Fifo.store (fifo : Fifo pi stored delivered) (x : UInt8)
    (room : stored.length < delivered.length + PIPESIZE) :
    Fifo { pi with data := Function.update pi.data (pi.nwrite % UInt32.ofNat PIPESIZE).toNat x,
                   nwrite := pi.nwrite + 1 } (stored ++ [x]) delivered := by
  have le := fifo.length_le
  refine ⟨fifo.inOrder.trans (List.prefix_append _ _), by simp; omega, fifo.nread, ?_, ?_⟩
  · show pi.nwrite + 1 = _
    rw [fifo.nwrite, Ring.counter_succ, List.length_append, List.length_singleton]
  · show Ring.window (Function.update pi.data _ x) _ _ _ = _
    rw [fifo.nwrite, Ring.counter_cell _ pipesize_dvd (by decide)]
    exact Ring.window_store fifo.ring le (by omega) x

/-- `ch = pi->data[pi->nread++ % PIPESIZE]` on a ring that is not empty: the
byte is the first one stored and not yet delivered. -/
theorem Fifo.take (fifo : Fifo pi stored delivered) (nonempty : delivered.length < stored.length) :
    pi.data (pi.nread % UInt32.ofNat PIPESIZE).toNat = stored[delivered.length] ∧
      Fifo { pi with nread := pi.nread + 1 } stored (delivered ++ [stored[delivered.length]]) := by
  obtain ⟨first, rest⟩ := Ring.window_take fifo.ring nonempty
  have bound := fifo.bound
  refine ⟨?_, List.concat_get_prefix fifo.inOrder nonempty, by simp; omega, ?_, fifo.nwrite, ?_⟩
  · rw [fifo.nread, Ring.counter_cell _ pipesize_dvd (by decide), first]
  · show pi.nread + 1 = _
    rw [fifo.nread, Ring.counter_succ, List.length_append, List.length_singleton]
  · show Ring.window pi.data _ _ _ = _
    rw [List.length_append, List.length_singleton]
    exact rest

/-! ## Every turn keeps the queue -/

/-- A turn of `pipewrite` stores its byte only into a ring that is not full. -/
theorem Fifo.write (fifo : Fifo pi stored delivered) (killed : Bool) (src : List UInt8) (i : Nat) :
    Fifo (writeTurn pi killed src i).1 (stored ++ (writeTurn pi killed src i).2.1.toList) delivered := by
  unfold writeTurn
  split
  · split
    · simpa using fifo
    · split
      · simpa using fifo
      · next notFull =>
        have room : stored.length < delivered.length + PIPESIZE := by
          have bound := fifo.bound
          have notFull := fifo.full_iff.not.mp notFull
          omega
        exact fifo.store _ room
  · simpa using fifo

/-- The copy loop delivers the bytes in the order they were stored; induction
on the loop. -/
theorem Fifo.copy (q : Pipe) (n : Int) (i : Nat) :
    ∀ {delivered : List UInt8}, Fifo q stored delivered →
      Fifo (copyLoop q n i).1 stored (delivered ++ (copyLoop q n i).2.1) := by
  fun_induction copyLoop q n i with
  | case1 q i _ _ => exact fun fifo => by simpa using fifo
  | case2 =>
    rename_i nonempty ch rest ih
    intro delivered fifo
    have below : delivered.length < stored.length := by
      have le := fifo.length_le
      have := fifo.empty_iff.not.mp nonempty
      omega
    obtain ⟨first, taken⟩ := fifo.take below
    have next := ih taken
    rw [← first, List.append_assoc, List.singleton_append] at next
    exact next
  | case3 q i _ => exact fun fifo => by simpa using fifo

theorem Fifo.read (fifo : Fifo pi stored delivered) (killed : Bool) (n : Int) :
    Fifo (readTurn pi killed n).1 stored (delivered ++ (readTurn pi killed n).2.1) := by
  unfold readTurn
  split
  · split <;> simpa using fifo
  · exact fifo.copy pi n 0

theorem Fifo.close (fifo : Fifo pi stored delivered) (writable : Bool) :
    Fifo (pipeclose pi writable) stored delivered := by
  unfold pipeclose
  split
  · exact fifo.flags pi.readopen false
  · exact fifo.flags false pi.writeopen

end Fifo

theorem copyLoop_count (pi : Pipe) (n : Int) (i : Nat) :
    i ≤ (copyLoop pi n i).2.2 ∧ ((i : Int) < n → pi.nread ≠ pi.nwrite → i < (copyLoop pi n i).2.2) := by
  fun_induction copyLoop pi n i with
  | case1 pi i _ empty => exact ⟨le_rfl, fun _ nonempty => absurd empty nonempty⟩
  | case2 pi i _ _ ch rest ih => exact ⟨Nat.le_of_succ_le ih.1, fun _ _ => ih.1⟩
  | case3 pi i outside => exact ⟨le_rfl, fun inside => absurd inside outside⟩

theorem copyLoop_length (pi : Pipe) (n : Int) (i : Nat) :
    (copyLoop pi n i).2.2 = i + (copyLoop pi n i).2.1.length := by
  fun_induction copyLoop pi n i with
  | case1 => simp
  | case2 pi i _ _ ch rest ih =>
    simp only [rest, List.length_cons]
    omega
  | case3 => simp

/-- `piperead` for `n > 0` bytes returns 0 only on an empty pipe whose write end
is closed. -/
theorem readTurn_zero {pi : Pipe} {killed : Bool} {n : Int} (positive : 0 < n)
    (zero : (readTurn pi killed n).2.2 = .ret 0) : pi.nread = pi.nwrite ∧ pi.writeopen = false := by
  unfold readTurn at zero
  split at zero
  · split at zero <;> simp at zero
  · next notWaiting =>
    have count := copyLoop_count pi n 0
    simp only [Turn.ret.injEq, Nat.cast_eq_zero] at zero
    by_cases empty : pi.nread = pi.nwrite
    · exact ⟨empty, by simpa [empty] using notWaiting⟩
    · have := count.2 (by simpa using positive) empty
      omega

/-- A reader's turn that returns gives -1 having copied nothing, or the number
of bytes it copied. -/
theorem readTurn_ret {pi : Pipe} {killed : Bool} {n r : Int} (returned : (readTurn pi killed n).2.2 = .ret r) :
    r = -1 ∧ (readTurn pi killed n).2.1 = [] ∨ r = (readTurn pi killed n).2.1.length := by
  unfold readTurn at returned ⊢
  by_cases waiting : pi.nread = pi.nwrite ∧ pi.writeopen = true
  · rw [if_pos waiting] at returned ⊢
    by_cases isKilled : killed = true
    · rw [if_pos isKilled] at returned ⊢
      exact .inl ⟨(Turn.ret.inj returned).symm, rfl⟩
    · rw [if_neg isKilled] at returned
      cases returned
  · rw [if_neg waiting] at returned ⊢
    dsimp only at returned ⊢
    rw [← Turn.ret.inj returned, copyLoop_length, zero_add]
    exact .inr rfl

/-- A writer's turn stores the next byte of `src` and goes on, sleeps on a full
ring, or returns: -1, or the count once every byte of `src` is stored. -/
theorem writeTurn_cases (pi : Pipe) (killed : Bool) (src : List UInt8) (i : Nat) :
    (∃ inside : i < src.length, (writeTurn pi killed src i).2 = (some src[i], .next)) ∨
      (writeTurn pi killed src i).2 = (none, .sleep) ∨ (writeTurn pi killed src i).2 = (none, .ret (-1)) ∨
      src.length ≤ i ∧ (writeTurn pi killed src i).2 = (none, .ret i) := by
  unfold writeTurn
  split
  · next inside =>
    split
    · exact .inr (.inr (.inl rfl))
    · split
      · exact .inr (.inl rfl)
      · exact .inl ⟨inside, rfl⟩
  · next outside => exact .inr (.inr (.inr ⟨by omega, rfl⟩))

/-! ## What each writer stored -/

/-- Every process inside `pipewrite` with `i` bytes copied has stored exactly
the first `i` bytes of its `src` since its call began. -/
def Writes (s : Sys) : Prop :=
  ∀ p src i, s.proc p = .writing src i → i ≤ src.length ∧ s.mark p ≤ s.stored.length ∧ s.wrote p = src.take i

theorem wrote_append {stored : List (Nat × UInt8)} {m : Nat} (le : m ≤ stored.length) (q p : Nat) (x : UInt8) :
    (((stored ++ [(p, x)]).drop m).filter fun e => e.1 == q).map Prod.snd =
      ((stored.drop m).filter fun e => e.1 == q).map Prod.snd ++ if p = q then [x] else [] := by
  rw [List.drop_append_of_le_length le, List.filter_append, List.map_append]
  by_cases same : p = q <;> simp [same]

theorem step_writing {s : Sys} {p : Nat} {src : List UInt8} {i : Nat} (doing : s.proc p = .writing src i)
    {o : Option UInt8} {t : Turn} (turn : (writeTurn s.pipe (s.killed p) src i).2 = (o, t)) :
    step s (.run p) =
      { s with pipe := (writeTurn s.pipe (s.killed p) src i).1, stored := s.stored ++ (o.map (p, ·)).toList,
               proc := Function.update s.proc p (t.writer src i) } := by
  simp only [step, doing, turn]

/-- A turn that stores nothing keeps `Writes`. -/
theorem Writes.quiet {s : Sys} (writes : Writes s) {p : Nat} {src : List UInt8} {i : Nat}
    (doing : s.proc p = .writing src i) {t : Turn} (turn : (writeTurn s.pipe (s.killed p) src i).2 = (none, t))
    (still : t ≠ .next) : Writes (step s (.run p)) := by
  rw [step_writing doing turn]
  intro q src' i' doing'
  simp only [Option.map_none, Option.toList_none, List.append_nil] at doing' ⊢
  by_cases same : q = p
  · subst same
    rw [Function.update_self] at doing'
    cases t with
    | next => exact absurd rfl still
    | sleep =>
      simp only [Turn.writer, Proc.writing.injEq] at doing'
      obtain ⟨rfl, rfl⟩ := doing'
      exact writes q _ _ doing
    | ret r => simp [Turn.writer] at doing'
  · rw [Function.update_of_ne same] at doing'
    exact writes q src' i' doing'

/-- A writer's turn keeps `Writes`: a stored byte is the next of its `src`, and
goes to no other writer's account. -/
theorem Writes.run {s : Sys} (writes : Writes s) {p : Nat} {src : List UInt8} {i : Nat}
    (doing : s.proc p = .writing src i) : Writes (step s (.run p)) := by
  rcases writeTurn_cases s.pipe (s.killed p) src i with ⟨inside, turn⟩ | turn | turn | ⟨-, turn⟩
  · rw [step_writing doing turn]
    intro q src' i' doing'
    simp only [Option.map_some, Option.toList_some] at doing' ⊢
    by_cases same : q = p
    · subst same
      obtain ⟨-, marked, sofar⟩ := writes q src i doing
      simp only [Function.update_self, Turn.writer, Proc.writing.injEq] at doing'
      obtain ⟨rfl, rfl⟩ := doing'
      refine ⟨inside, by simp; omega, ?_⟩
      simp only [Sys.wrote]
      rw [wrote_append marked, if_pos rfl, ← Sys.wrote, sofar, List.take_add_one, List.getElem?_eq_getElem inside,
        Option.toList_some]
    · rw [Function.update_of_ne same] at doing'
      obtain ⟨count', marked', sofar'⟩ := writes q src' i' doing'
      refine ⟨count', by simp; omega, ?_⟩
      simp only [Sys.wrote]
      rw [wrote_append marked', if_neg (Ne.symm same), List.append_nil, ← Sys.wrote, sofar']
  · exact writes.quiet doing turn (by simp)
  · exact writes.quiet doing turn (by simp)
  · exact writes.quiet doing turn (by simp)

theorem writes_boot (data : Nat → UInt8) : Writes (boot data) := by
  intro p src i doing
  cases doing

theorem writes_step {s : Sys} (writes : Writes s) (cmd : Cmd) : Writes (step s cmd) := by
  cases cmd with
  | write p src =>
    by_cases free : (s.proc p).free = true
    · intro q src' i doing
      simp only [step, free, if_true] at doing ⊢
      by_cases same : q = p
      · subst same
        simp only [Function.update_self, Proc.writing.injEq] at doing
        obtain ⟨rfl, rfl⟩ := doing
        simp [Sys.wrote]
      · rw [Function.update_of_ne same] at doing
        simpa [Sys.wrote, same] using writes q src' i doing
    · simpa [step, free] using writes
  | read p n =>
    by_cases free : (s.proc p).free = true
    · intro q src' i doing
      simp only [step, free, if_true] at doing ⊢
      by_cases same : q = p
      · subst same
        simp at doing
      · rw [Function.update_of_ne same] at doing
        simpa [Sys.wrote] using writes q src' i doing
    · simpa [step, free] using writes
  | run p =>
    cases doing : s.proc p with
    | writing src i => exact writes.run doing
    | reading n =>
      intro q src' i' doing'
      simp only [step, doing] at doing' ⊢
      by_cases same : q = p
      · subst same
        simp only [Function.update_self] at doing'
        revert doing'
        cases (readTurn s.pipe (s.killed q) n).2.2 <;> simp [Turn.reader]
      · rw [Function.update_of_ne same] at doing'
        simpa [Sys.wrote] using writes q src' i' doing'
    | idle => simpa [step, doing] using writes
    | returned r => simpa [step, doing] using writes
  | close writable => exact writes
  | kill p => exact writes

/-! ## Runs -/

theorem bytes_tagged (stored : List (Nat × UInt8)) (p : Nat) (o : Option UInt8) :
    (stored ++ (o.map (p, ·)).toList).map Prod.snd = stored.map Prod.snd ++ o.toList := by
  cases o <;> simp

theorem fifo_boot (data : Nat → UInt8) : Fifo (boot data).pipe (boot data).bytes (boot data).delivered :=
  ⟨List.nil_prefix, Nat.zero_le _, rfl, rfl, rfl⟩

theorem fifo_step {s : Sys} (fifo : Fifo s.pipe s.bytes s.delivered) (cmd : Cmd) :
    Fifo (step s cmd).pipe (step s cmd).bytes (step s cmd).delivered := by
  cases cmd with
  | write p src =>
    by_cases free : (s.proc p).free = true <;> simpa [step, free, Sys.bytes] using fifo
  | read p n =>
    by_cases free : (s.proc p).free = true <;> simpa [step, free, Sys.bytes] using fifo
  | run p =>
    cases doing : s.proc p with
    | writing src i =>
      simp only [step, doing, Sys.bytes, bytes_tagged]
      exact fifo.write _ _ _
    | reading n =>
      simp only [step, doing]
      exact fifo.read _ _
    | idle => simpa only [step, doing] using fifo
    | returned r => simpa only [step, doing] using fifo
  | close writable => exact fifo.close writable
  | kill p => exact fifo

theorem fifo_reachable {data : Nat → UInt8} {s : Sys} (reached : Machine.Reachable step (boot data) s) :
    Fifo s.pipe s.bytes s.delivered ∧ Writes s :=
  Machine.Reachable.invariant (P := fun s => Fifo s.pipe s.bytes s.delivered ∧ Writes s)
    (fun _ cmd inv => ⟨fifo_step inv.1 cmd, writes_step inv.2 cmd⟩) ⟨fifo_boot data, writes_boot data⟩ reached

theorem step_read_zero {s : Sys} {p : Nat} {n : Int} (reading : s.proc p = .reading n) (positive : 0 < n)
    (zero : (step s (.run p)).proc p = .returned 0) : s.pipe.nread = s.pipe.nwrite ∧ s.pipe.writeopen = false := by
  simp only [step, reading, Function.update_self] at zero
  apply @readTurn_zero _ (s.killed p) _ positive
  revert zero
  cases (readTurn s.pipe (s.killed p) n).2.2 <;> simp [Turn.reader]

/-- A writer that returns `r` has stored, since its call began, the whole of
its `src` when `r` is the count, and a prefix of it when `r` is -1. -/
theorem step_write_ret {s : Sys} (writes : Writes s) {p : Nat} {src : List UInt8} {i : Nat} {r : Int}
    (doing : s.proc p = .writing src i) (returned : (step s (.run p)).proc p = .returned r) :
    r = -1 ∧ (step s (.run p)).wrote p <+: src ∨ r = src.length ∧ (step s (.run p)).wrote p = src := by
  obtain ⟨count, -, sofar⟩ := writes p src i doing
  rcases writeTurn_cases s.pipe (s.killed p) src i with ⟨inside, turn⟩ | turn | turn | ⟨done, turn⟩
  · rw [step_writing doing turn] at returned
    simp [Turn.writer] at returned
  · rw [step_writing doing turn] at returned
    simp [Turn.writer] at returned
  · rw [step_writing doing turn] at returned ⊢
    simp only [Function.update_self, Turn.writer, Proc.returned.injEq] at returned
    simp only [Option.map_none, Option.toList_none, List.append_nil]
    show r = -1 ∧ s.wrote p <+: src ∨ r = src.length ∧ s.wrote p = src
    rw [sofar]
    exact .inl ⟨returned.symm, List.take_prefix i src⟩
  · rw [step_writing doing turn] at returned ⊢
    simp only [Function.update_self, Turn.writer, Proc.returned.injEq] at returned
    simp only [Option.map_none, Option.toList_none, List.append_nil]
    show r = -1 ∧ s.wrote p <+: src ∨ r = src.length ∧ s.wrote p = src
    have whole : i = src.length := by omega
    rw [sofar, whole, List.take_length]
    exact .inr ⟨by rw [← returned, whole], rfl⟩

/-- A reader that returns `r` delivered nothing when `r` is -1, and otherwise
the next `r` bytes stored. -/
theorem step_read_ret {s : Sys} (fifo : Fifo s.pipe s.bytes s.delivered) {p : Nat} {n r : Int}
    (reading : s.proc p = .reading n) (returned : (step s (.run p)).proc p = .returned r) :
    r = -1 ∧ (step s (.run p)).delivered = s.delivered ∨
      0 ≤ r ∧ (step s (.run p)).delivered = s.delivered ++ (s.bytes.drop s.delivered.length).take r.toNat := by
  have next := (fifo.read (s.killed p) n).inOrder
  have ret : (readTurn s.pipe (s.killed p) n).2.2 = .ret r := by
    simp only [step, reading, Function.update_self] at returned
    revert returned
    cases (readTurn s.pipe (s.killed p) n).2.2 <;> simp [Turn.reader]
  simp only [step, reading]
  rcases readTurn_ret ret with ⟨minus, nothing⟩ | count
  · exact .inl ⟨minus, by rw [nothing, List.append_nil]⟩
  · obtain ⟨rest, whole⟩ := next
    refine .inr ⟨by omega, ?_⟩
    rw [count, Int.toNat_natCast, ← whole, List.append_assoc, List.drop_left, List.take_left]

/-- A writer stores three bytes; a reader takes two; the write end is closed; a
read of five gets the last byte, and the next read returns 0. -/
def pipeRun : List Cmd :=
  [.write 0 [7, 8, 9], .run 0, .run 0, .run 0, .run 0, .read 1 2, .run 1, .close true,
    .read 1 5, .run 1, .read 1 5]

def pipeEnd : Sys := Machine.run step (boot fun _ => 0) pipeRun

end Xv6.Pipes
