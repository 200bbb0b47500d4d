import Xv6.Proc.Sched
import Xv6.Machine

/-! The process paths of `kernel/proc.c` and `kernel/trap.c` as one machine.
A command is what a processor does next: one iteration of its scheduler loop,
a timer interrupt, or a system call of the process it runs. Each command runs
one path from taking its locks to releasing them or to the `swtch` back into
the scheduler, whose post-switch code (`if (c->proc->state == RUNNABLE)
put(c->proc); c->proc = 0;`) ends the command. Environment answers (whether
`kalloc` succeeds, whether `copyout` succeeds) are fields of the command.
A `panic` stops the kernel: the command that would panic does nothing. -/
namespace Xv6

namespace Kernel

/-- The zeroing of `freeproc(p)`. -/
def Proc.freed (q : Proc) : Proc :=
  { q with
    pid := 0, serial := 0, parent := none, chan := .null, killed := false, xstate := 0, state := .UNUSED,
    cpuBurstAprox := 0, cpuBurst := 0, timeslice := 0, putTimestamp := 0, exeTime := 0 }

/-- `freeproc(p)`. -/
def freeproc (k : Kernel) (p : Slot) : Kernel := k.setProc p (Proc.freed (k.proc p))

/-- The first `UNUSED` slot of the table, as `allocproc`'s scan finds it. -/
def unusedSlot (k : Kernel) : Option Slot :=
  (List.finRange NPROC).find? fun p => (k.proc p).state = .UNUSED

/-- `allocproc()`; `ok` says whether the trapframe page and the page table were
allocated. On failure the slot is freed again, with its pid spent. -/
def allocproc (k : Kernel) (ok : Bool) : Kernel × Option Slot :=
  match k.unusedSlot with
  | none => (k, none)
  | some p =>
    let q := k.proc p
    let k := ({ k.setProc p { q with
        pid := k.nextpid, serial := k.allocations, state := .USED, cpuBurstAprox := 0, cpuBurst := 0,
        timeslice := 0, putTimestamp := 0, exeTime := 0, context := .forkret } with
      nextpid := pidSucc k.nextpid, allocations := k.allocations + 1 }).record (.allocated p)
    if ok then (k, some p) else (k.freeproc p, none)

/-- `userinit()`; boot-time allocation succeeds. -/
def userinit (k : Kernel) : Kernel :=
  match k.allocproc true with
  | (k, none) => k
  | (k, some p) => { k with initproc := some p }.put p

/-- The channel `wait` sleeps on and `exit` wakes: the address of a `struct proc`. -/
def procChan : Option Slot → Chan
  | none => .null
  | some p => .proc p

/-- `wakeup(chan)` called by `me` (`myproc()`, null in an interrupt of the scheduler). -/
def wakeup (k : Kernel) (me : Option Slot) (chan : Chan) : Kernel :=
  (List.finRange NPROC).foldl (fun k p =>
    if some p ≠ me ∧ (k.proc p).state = .SLEEPING ∧ (k.proc p).chan = chan then k.put p else k) k

/-- `reparent(p)`: every child of `p` goes to `initproc`, which is woken. -/
def reparent (k : Kernel) (p : Slot) : Kernel :=
  (List.finRange NPROC).foldl (fun k pp =>
    if (k.proc pp).parent = some p then
      (k.setProc pp { k.proc pp with parent := k.initproc }).wakeup (some p) (procChan k.initproc)
    else k) k

/-- The scheduler on `c` once `swtch` returns to it. -/
def switchBack (k : Kernel) (c : CpuId) : Kernel :=
  match k.cpus c with
  | none => k
  | some p =>
    let k := if (k.proc p).state = .RUNNABLE then k.put p else k
    { k with cpus := Function.update k.cpus c none }

/-- `yield()` by `p` on `c`: `put(p)`, then `sched()`. -/
def yield (k : Kernel) (c : CpuId) (p : Slot) : Kernel :=
  let k := k.put p
  (k.setProc p { k.proc p with context := .yield }).switchBack c

/-- `sleep(chan, lk)` by `p` on `c`, whose thread resumes at `ctx`. -/
def sleep (k : Kernel) (c : CpuId) (p : Slot) (chan : Chan) (ctx : Context) : Kernel :=
  (k.setProc p { k.proc p with chan := chan, state := .SLEEPING, context := ctx }).switchBack c

/-- `exit(status)` by `p` on `c`; `initproc` panics instead. -/
def exit (k : Kernel) (c : CpuId) (p : Slot) (status : Int) : Kernel :=
  if k.initproc = some p then k
  else
    let k := k.reparent p
    let k := k.wakeup (some p) (procChan (k.proc p).parent)
    let q := k.proc p
    ((k.setProc p { q with xstate := status, state := .ZOMBIE }).record (.exited q.serial q.pid status)).switchBack c

/-- The children of `p`, in the order `wait` scans the table. -/
def children (k : Kernel) (p : Slot) : List Slot :=
  (List.finRange NPROC).filter fun np => (k.proc np).parent = some p

/-- One pass of `wait(addr)`'s loop by `p` on `c`, and its return value; `none`
when `p` went to sleep and will scan again once woken. `copied` says whether
`copyout` of the exit status succeeds. -/
def waitScan (k : Kernel) (c : CpuId) (p : Slot) (addr : Nat) (copied : Bool) :
    Kernel × Option Int :=
  match (k.children p).find? fun np => (k.proc np).state = .ZOMBIE with
  | some np =>
    let q := k.proc np
    if addr ≠ 0 ∧ copied = false then (k, some (-1))
    else ((k.freeproc np).record (.reaped q.serial q.pid q.xstate), some q.pid)
  | none =>
    if k.children p = [] ∨ (k.proc p).killed = true then (k, some (-1))
    else (k.sleep c p (.proc p) (.wait addr), none)

/-- `fork()` by `p` and its return value; `ok` is `allocproc`'s allocation and
`copied` is `uvmcopy`'s. -/
def fork (k : Kernel) (p : Slot) (ok copied : Bool) : Kernel × Int :=
  match k.allocproc ok with
  | (k, none) => (k, -1)
  | (k, some np) =>
    if copied then
      let k := k.setProc np { k.proc np with parent := some p }
      (k.put np, (k.proc np).pid)
    else (k.freeproc np, -1)

/-- The first slot whose pid is `pid`, as `kill`'s scan finds it. -/
def pidSlot (k : Kernel) (pid : Int) : Option Slot :=
  (List.finRange NPROC).find? fun p => (k.proc p).pid = pid

/-- `kill(pid)` and its return value. -/
def kill (k : Kernel) (pid : Int) : Kernel × Int :=
  match k.pidSlot pid with
  | none => (k, -1)
  | some p =>
    let k := k.setProc p { k.proc p with killed := true }
    (if (k.proc p).state = .SLEEPING then k.put p else k, 0)

/-- The thread of `p` resumes from `sched`: the tail of `sleep` clears `chan`. -/
def resumeChan (q : Proc) : Chan :=
  match q.context with
  | .sleep | .wait _ => .null
  | .forkret | .yield => q.chan

/-- One iteration of `scheduler()` on `c`: `get`, then under `p->lock` the
`RUNNABLE` test and the switch to `p`. A thread that slept inside `wait` goes
on with its loop; `copied` answers its `copyout`. -/
def scheduler (k : Kernel) (c : CpuId) (copied : Bool) : Kernel :=
  match k.get with
  | (k, none) => k
  | (k, some p) =>
    let q := k.proc p
    if q.state = .RUNNABLE then
      let k := { k.setProc p { q with state := .RUNNING, chan := resumeChan q } with
        cpus := Function.update k.cpus c (some p) }
      match q.context with
      | .wait addr => (k.waitScan c p addr copied).1
      | .forkret | .yield | .sleep => k
    else k

/-- A timer interrupt on `c`: `clockintr` on CPU 0, then for a process in user
space `usertrap` sends it to `exit(-1)` if killed, else to `timer_routine`. -/
def tick (k : Kernel) (c : CpuId) : Kernel :=
  let k := if c = 0 then ({ k with ticks := k.ticks + 1 }).wakeup (k.cpus c) .ticks else k
  match k.cpus c with
  | none => k
  | some p =>
    if (k.proc p).killed = true then k.exit c p (-1)
    else match k.timerRoutine p with
      | (k, true) => k.yield c p
      | (k, false) => k

/-- A system call by the process on `c`: `usertrap` sends a killed process to `exit(-1)`. -/
def usertrap (k : Kernel) (c : CpuId) (body : Slot → Kernel) : Kernel :=
  match k.cpus c with
  | none => k
  | some p => if (k.proc p).killed = true then k.exit c p (-1) else body p

end Kernel

/-- What a processor does next. `sleep` and `wakeup` stand for the system calls
that sleep on, or wake, a channel (pipes, console, `sys_sleep`, the log). -/
inductive Action where
  | schedule (c : CpuId) (copied : Bool)
  | tick (c : CpuId)
  | fork (c : CpuId) (ok copied : Bool)
  | exit (c : CpuId) (status : Int)
  | wait (c : CpuId) (addr : Nat) (copied : Bool)
  | kill (c : CpuId) (pid : Int)
  | chsched (c : CpuId) (algo isPreemptive a : Int)
  | sleep (c : CpuId) (chan : Chan)
  | wakeup (c : CpuId) (chan : Chan)

namespace Kernel

/-- The kernel after one command. -/
def step (k : Kernel) : Action → Kernel
  | .schedule c copied => if k.cpus c = none then k.scheduler c copied else k
  | .tick c => k.tick c
  | .fork c ok copied => k.usertrap c fun p => (k.fork p ok copied).1
  | .exit c status => k.usertrap c fun p => k.exit c p status
  | .wait c addr copied => k.usertrap c fun p => (k.waitScan c p addr copied).1
  | .kill c pid => k.usertrap c fun _ => (k.kill pid).1
  | .chsched c algo isPreemptive a => k.usertrap c fun _ => (k.changeSched algo isPreemptive a).1
  | .sleep c chan => k.usertrap c fun p => k.sleep c p chan .sleep
  | .wakeup c chan => k.usertrap c fun p => k.wakeup (some p) chan

/-! Spec lemmas for the paths, for proofs that follow a run step by step. -/

theorem wakeup_scan_of_awake (me : Option Slot) (chan : Chan) (slots : List Slot) (k : Kernel)
    (awake : ∀ p ∈ slots, (k.proc p).state ≠ .SLEEPING) :
    slots.foldl (fun k p =>
      if some p ≠ me ∧ (k.proc p).state = .SLEEPING ∧ (k.proc p).chan = chan then k.put p else k) k = k := by
  induction slots with
  | nil => rfl
  | cons p rest ih =>
    rw [List.foldl_cons, if_neg (fun woken => awake p List.mem_cons_self woken.2.1)]
    exact ih fun q member => awake q (List.mem_cons_of_mem p member)

theorem wakeup_of_awake (k : Kernel) (me : Option Slot) (chan : Chan)
    (awake : ∀ p, (k.proc p).state ≠ .SLEEPING) : k.wakeup me chan = k :=
  wakeup_scan_of_awake me chan _ k fun p _ => awake p

/-! The ghost history only grows. -/

theorem put_history_prefix (k : Kernel) (p : Slot) : k.history <+: (k.put p).history := by
  rw [put_history]
  split
  · exact List.prefix_append _ _
  · exact List.prefix_refl _

/-- `wakeup`'s scan, from any kernel and over any run of slots, keeps what was recorded. -/
theorem wakeup_scan_history_prefix (me : Option Slot) (chan : Chan) (slots : List Slot) (k : Kernel) :
    k.history <+: (slots.foldl (fun k p =>
      if some p ≠ me ∧ (k.proc p).state = .SLEEPING ∧ (k.proc p).chan = chan then k.put p else k)
      k).history := by
  induction slots generalizing k with
  | nil => exact List.prefix_refl _
  | cons p rest ih =>
    rw [List.foldl_cons]
    refine List.IsPrefix.trans ?_ (ih _)
    split
    · exact put_history_prefix k p
    · exact List.prefix_refl _

theorem wakeup_scan_cpus (me : Option Slot) (chan : Chan) (slots : List Slot) (k : Kernel) :
    (slots.foldl (fun k p =>
      if some p ≠ me ∧ (k.proc p).state = .SLEEPING ∧ (k.proc p).chan = chan then k.put p else k)
      k).cpus = k.cpus := by
  induction slots generalizing k with
  | nil => rfl
  | cons p rest ih =>
    rw [List.foldl_cons, ih]
    split <;> simp

@[simp] theorem wakeup_cpus (k : Kernel) (me : Option Slot) (chan : Chan) :
    (k.wakeup me chan).cpus = k.cpus :=
  wakeup_scan_cpus me chan _ k

theorem wakeup_history_prefix (k : Kernel) (me : Option Slot) (chan : Chan) :
    k.history <+: (k.wakeup me chan).history :=
  wakeup_scan_history_prefix me chan _ k

theorem wakeup_puts_first {k : Kernel} {me : Option Slot} {chan : Chan} (other : me ≠ some 0)
    (asleep : (k.proc 0).state = .SLEEPING) (waiting : (k.proc 0).chan = chan) :
    (k.put 0).history <+: (k.wakeup me chan).history := by
  have woken : some (0 : Slot) ≠ me ∧ (k.proc 0).state = .SLEEPING ∧ (k.proc 0).chan = chan :=
    ⟨Ne.symm other, asleep, waiting⟩
  unfold wakeup
  rw [show List.finRange NPROC = 0 :: (List.finRange 63).map Fin.succ from List.finRange_succ,
    List.foldl_cons, if_pos woken]
  exact wakeup_scan_history_prefix me chan _ _

/-- A `wakeup` whose one sleeper is `proc[0]`, on the channel, is one `put`. -/
theorem wakeup_only_first {k : Kernel} {me : Option Slot} {chan : Chan} (other : me ≠ some 0)
    (asleep : (k.proc 0).state = .SLEEPING) (waiting : (k.proc 0).chan = chan)
    (awake : ∀ p, p ≠ 0 → (k.proc p).state ≠ .SLEEPING) : k.wakeup me chan = k.put 0 := by
  have woken : some (0 : Slot) ≠ me ∧ (k.proc 0).state = .SLEEPING ∧ (k.proc 0).chan = chan :=
    ⟨Ne.symm other, asleep, waiting⟩
  unfold wakeup
  rw [show List.finRange NPROC = 0 :: (List.finRange 63).map Fin.succ from List.finRange_succ,
    List.foldl_cons, if_pos woken]
  refine wakeup_scan_of_awake me chan _ _ fun p member => ?_
  have notFirst : p ≠ 0 := by
    obtain ⟨q, -, rfl⟩ := List.mem_map.mp member
    exact Fin.succ_ne_zero q
  simpa [notFirst] using awake p notFirst

theorem switchBack_of_running {k : Kernel} {c : CpuId} {p : Slot} (running : k.cpus c = some p) :
    k.switchBack c =
      let k := if (k.proc p).state = .RUNNABLE then k.put p else k
      { k with cpus := Function.update k.cpus c none } := by
  simp only [switchBack, running]

theorem yield_puts_twice {k : Kernel} {c : CpuId} {p : Slot} (running : k.cpus c = some p) :
    k.yield c p =
      { ((k.put p).setProc p { (k.put p).proc p with context := .yield }).put p with
        cpus := Function.update k.cpus c none } := by
  have back : ((k.put p).setProc p { (k.put p).proc p with context := .yield }).cpus c = some p := by
    simpa using running
  rw [yield, switchBack_of_running back]
  simp [putProc]

theorem yield_heap_perm {k : Kernel} {c : CpuId} {p : Slot} (running : k.cpus c = some p) :
    (k.yield c p).procSched.heap.Perm (k.procSched.heap ++ [p, p]) := by
  rw [yield_puts_twice running]
  refine (put_heap_perm _ p).trans ?_
  have once := put_heap_perm k p
  simpa using once.append_right [p]

theorem timerRoutine_snd (k : Kernel) (p : Slot) :
    (k.timerRoutine p).2 = decide (((k.proc p).timeslice ≠ 0 ∧ (k.proc p).cpuBurst + 1 = (k.proc p).timeslice) ∨
      (k.procSched.algorithm = 0 ∧ k.procSched.isPreemptive = 1)) := by
  simp [timerRoutine]

/-- The kernel once `main` has called `userinit`. -/
def boot : Kernel := Kernel.zero.userinit

end Kernel

end Xv6
