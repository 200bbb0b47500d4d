import Xv6.Proc.Kernel

/-! `proc.c` on `NCPU` processors, at the grain of its locks. Each CPU runs its
`scheduler()` loop or, after the loop's `swtch`, the kernel thread of the
process it dispatched, until that thread's `sched()` switches back. A step is
what one CPU does up to its next lock operation or `swtch`; a run is any
interleaving of the CPUs' steps. An `acquire` of a lock another CPU holds spins,
and a step that would `panic` does nothing, so either way the CPU stays where it
is. `get` and `put` are one step each, as all of each runs under
`proc_sched.lock`.

What a process does is its code: the system calls it makes and the `yield`s of
its timer interrupts. A condition guarded by one spinlock `lk` gives `sleep`
the lock it releases. `exit` is its tail from `acquire(&p->lock)`: `reparent`
and the `wakeup` of the parent are `wakeup` instructions before it, and
`wait_lock`, which orders `exit` against `wait`, is left to the one-path model
of `Kernel`, as are `fork` and `wait`. -/
namespace Xv6

/-- What a process does in the kernel, one system call or interrupt each.
`acquire`, `release`, `signal` and `await` act on the condition guarded by `lk`:
`signal` makes it true, and `await chan` is `while (!cond) sleep(chan, lk)`. -/
inductive Instr where
  | yield
  | acquire
  | release
  | signal
  | await (chan : Chan)
  | sleep (chan : Chan)
  | wakeup (chan : Chan)
  | kill (pid : Int)
  | exit (status : Int)
  deriving DecidableEq, Repr

/-- Where a kernel thread is, between two steps. `again` marks a `sleep` inside
`await`'s loop, which tests the condition again once `lk` is reacquired. -/
inductive Point where
  /-- Not yet run: `forkret` releases the `p->lock` the scheduler holds. -/
  | forkret
  /-- Between instructions. -/
  | next
  /-- `yield`: `acquire(&p->lock)`. -/
  | yield
  /-- `yield` holding `p->lock`: `put(p)` and `sched()`. -/
  | yieldLocked
  /-- Back from `sched()` in `yield`: `release(&p->lock)`. -/
  | yielded
  | acquire
  | release
  | signal
  /-- `await`'s test of the condition. -/
  | test (chan : Chan)
  /-- `sleep`: `acquire(&p->lock)`. -/
  | sleep (chan : Chan) (again : Bool)
  /-- `sleep` holding `p->lock`: `release(lk)`. -/
  | sleepLocked (chan : Chan) (again : Bool)
  /-- `sleep` after `release(lk)`: `p->chan = chan; p->state = SLEEPING; sched()`. -/
  | sleepUnlocked (chan : Chan) (again : Bool)
  /-- Back from `sched()` in `sleep`: `p->chan = 0; release(&p->lock)`. -/
  | slept (chan : Chan) (again : Bool)
  /-- The end of `sleep`: `acquire(lk)`. -/
  | relock (chan : Chan) (again : Bool)
  /-- `wakeup`'s loop at `proc[q]`. -/
  | wakeup (chan : Chan) (q : Nat)
  /-- `wakeup` holding `proc[q].lock`. -/
  | wakeupLocked (chan : Chan) (q : Slot)
  /-- `kill`'s loop at `proc[q]`. -/
  | kill (pid : Int) (q : Nat)
  /-- `kill` holding `proc[q].lock`. -/
  | killLocked (pid : Int) (q : Slot)
  /-- `exit`: `acquire(&p->lock)`. -/
  | exit (status : Int)
  /-- `exit` holding `p->lock`: `p->state = ZOMBIE; sched()`, never to return. -/
  | exitLocked (status : Int)
  deriving DecidableEq, Repr

/-- The first point of an instruction. -/
def Instr.entry : Instr → Point
  | .yield => .yield
  | .acquire => .acquire
  | .release => .release
  | .signal => .signal
  | .await chan => .test chan
  | .sleep chan => .sleep chan false
  | .wakeup chan => .wakeup chan 0
  | .kill pid => .kill pid 0
  | .exit status => .exit status

/-- The `proc[q].lock` the thread of `p` holds at a point, if any. -/
def Point.held (p : Slot) : Point → Option Slot
  | .forkret | .yieldLocked | .yielded | .sleepLocked .. | .sleepUnlocked .. | .slept ..
  | .exitLocked _ => some p
  | .wakeupLocked _ q | .killLocked _ q => some q
  | _ => none

/-- Where `scheduler()` on a CPU is. -/
inductive Loop where
  /-- The top of the loop: `get()`. -/
  | top
  /-- `get` returned `p`: `acquire(&p->lock)`. -/
  | picked (p : Slot)
  /-- Holding `p->lock`: the `RUNNABLE` test, then the `swtch` to `p`. -/
  | locked (p : Slot)
  /-- Switched to `p`: the CPU runs the kernel thread of `p`. -/
  | running (p : Slot)
  /-- `swtch` returned: the post-switch `put` and `c->proc = 0`. -/
  | back (p : Slot)
  /-- `release(&p->lock)`. -/
  | unlocking (p : Slot)
  deriving DecidableEq, Repr

/-- `c->proc` where the loop is. -/
def Loop.proc : Loop → Option Slot
  | .running p | .back p => some p
  | _ => none

/-- The `p->lock` a CPU holds where its loop is, given where each thread is. -/
def Loop.holds (pc : Slot → Point) : Loop → Option Slot
  | .top | .picked _ => none
  | .locked p | .back p | .unlocking p => some p
  | .running p => (pc p).held p

/-- The processors, the process table and the locks. -/
structure Smp where
  k : Kernel
  loop : CpuId → Loop
  /-- Where each process's kernel thread is, running or switched out. -/
  pc : Slot → Point
  /-- The instructions after the current one. -/
  code : Slot → List Instr
  /-- `proc[p].lock`: the CPU holding it. -/
  lock : Slot → Option CpuId
  /-- `lk`, the lock of the condition: the CPU holding it. -/
  lk : Option CpuId
  cond : Bool

namespace Smp

/-- The `p->lock` CPU `c` holds. -/
def holds (s : Smp) (c : CpuId) : Option Slot := (s.loop c).holds s.pc

/-- `p` goes on at `pc`. -/
def goto (s : Smp) (p : Slot) (pc : Point) : Smp := { s with pc := Function.update s.pc p pc }

/-- `acquire(&q->lock)` on `c` by the thread of `p`, which goes on at `pc`.
While another CPU holds the lock it spins; when `c` holds it, `acquire` panics. -/
def acquire (s : Smp) (c : CpuId) (q p : Slot) (pc : Point) : Smp :=
  if s.lock q = none then { s.goto p pc with lock := Function.update s.lock q (some c) } else s

/-- The writes `k` of a critical section under `q->lock`, then
`release(&q->lock)` by the thread of `p`, which goes on at `pc`. `release`
panics unless `c` holds the lock. -/
def release (s : Smp) (c : CpuId) (q : Slot) (k : Kernel) (p : Slot) (pc : Point) : Smp :=
  if s.lock q = some c then { s.goto p pc with k := k, lock := Function.update s.lock q none } else s

/-- The writes `k` made holding `p->lock`, then `sched()`: `swtch` to the
scheduler of `c`, which resumes after its own `swtch`; the thread of `p` will
resume at `pc`. `sched` panics when `c` holds another lock (`noff != 1`). -/
def sched (s : Smp) (c : CpuId) (p : Slot) (k : Kernel) (pc : Point) : Smp :=
  if s.lk = some c then s else { s.goto p pc with k := k, loop := Function.update s.loop c (.back p) }

/-- The next step of the kernel thread of `p`, running on `c`. -/
def thread (s : Smp) (c : CpuId) (p : Slot) : Smp :=
  match s.pc p with
  | .forkret => s.release c p s.k p .next
  | .next =>
    match s.code p with
    | [] => s
    | i :: rest => { s.goto p i.entry with code := Function.update s.code p rest }
  | .yield => s.acquire c p p .yieldLocked
  | .yieldLocked => s.sched c p (s.k.put p) .yielded
  | .yielded => s.release c p s.k p .next
  | .acquire => if s.lk = none then { s.goto p .next with lk := some c } else s
  | .release => if s.lk = some c then { s.goto p .next with lk := none } else s
  | .signal => { s.goto p .next with cond := true }
  | .test chan => s.goto p (if s.cond then .next else .sleep chan true)
  | .sleep chan again => s.acquire c p p (.sleepLocked chan again)
  | .sleepLocked chan again =>
    if s.lk = some c then { s.goto p (.sleepUnlocked chan again) with lk := none } else s
  | .sleepUnlocked chan again =>
    s.sched c p (s.k.setProc p { s.k.proc p with chan := chan, state := .SLEEPING }) (.slept chan again)
  | .slept chan again =>
    s.release c p (s.k.setProc p { s.k.proc p with chan := .null }) p (.relock chan again)
  | .relock chan again =>
    if s.lk = none then { s.goto p (if again then .test chan else .next) with lk := some c } else s
  | .wakeup chan q =>
    if h : q < NPROC then
      -- `if (p != myproc())`
      if (⟨q, h⟩ : Slot) = p then s.goto p (.wakeup chan (q + 1))
      else s.acquire c ⟨q, h⟩ p (.wakeupLocked chan ⟨q, h⟩)
    else s.goto p .next
  | .wakeupLocked chan q =>
    let k := if (s.k.proc q).state = .SLEEPING ∧ (s.k.proc q).chan = chan then s.k.put q else s.k
    s.release c q k p (.wakeup chan (q.val + 1))
  | .kill pid q =>
    if h : q < NPROC then s.acquire c ⟨q, h⟩ p (.killLocked pid ⟨q, h⟩) else s.goto p .next
  | .killLocked pid q =>
    if (s.k.proc q).pid = pid then
      let k := s.k.setProc q { s.k.proc q with killed := true }
      s.release c q (if (k.proc q).state = .SLEEPING then k.put q else k) p .next
    else s.release c q s.k p (.kill pid (q.val + 1))
  | .exit status => s.acquire c p p (.exitLocked status)
  | .exitLocked status =>
    s.sched c p (s.k.setProc p { s.k.proc p with xstate := status, state := .ZOMBIE })
      (.exitLocked status)

/-- One step of CPU `c`. -/
def step (s : Smp) (c : CpuId) : Smp :=
  match s.loop c with
  | .top =>
    match s.k.get with
    | (k, none) => { s with k := k }
    | (k, some p) => { s with k := k, loop := Function.update s.loop c (.picked p) }
  | .picked p =>
    if s.lock p = none then
      { s with lock := Function.update s.lock p (some c), loop := Function.update s.loop c (.locked p) }
    else s
  | .locked p =>
    if (s.k.proc p).state = .RUNNABLE then
      { s with
        k := { s.k.setProc p { s.k.proc p with state := .RUNNING } with
          cpus := Function.update s.k.cpus c (some p) }
        loop := Function.update s.loop c (.running p) }
    else { s with loop := Function.update s.loop c (.unlocking p) }
  | .running p => s.thread c p
  | .back p => { s with k := s.k.switchBack c, loop := Function.update s.loop c (.unlocking p) }
  | .unlocking p =>
    if s.lock p = some c then
      { s with lock := Function.update s.lock p none, loop := Function.update s.loop c .top }
    else s

/-- Every processor at the top of its loop, every process switched out before
`forkret` with its code, every lock free and the condition false. -/
def boot (k : Kernel) (code : Slot → List Instr) : Smp where
  k := k
  loop := fun _ => .top
  pc := fun _ => .forkret
  code := code
  lock := fun _ => none
  lk := none
  cond := false

/-! Where the CPUs hold locks after a step that changes one CPU's loop and the
point of threads that run on no other CPU. -/

theorem holds_update {s s' : Smp} {c : CpuId} {l : Loop} (loop : s'.loop = Function.update s.loop c l)
    (pcs : ∀ q, s'.pc q ≠ s.pc q → ∀ d, d ≠ c → s.loop d ≠ .running q) :
    s'.holds = Function.update s.holds c (l.holds s'.pc) := by
  funext d
  by_cases here : d = c
  · subst here
    simp [holds, loop]
  · rw [Function.update_of_ne here]
    simp only [holds, loop, Function.update_of_ne here]
    cases there : s.loop d with
    | running q =>
      by_cases moved : s'.pc q = s.pc q
      · simp [Loop.holds, moved]
      · exact absurd there (pcs q moved d here)
    | _ => rfl

end Smp

end Xv6
