import Mathlib

/-! The process table and the ready queue of `kernel/proc.h` and the globals of
`kernel/proc.c`. A `struct proc *` is the index of its slot in `proc[]`, a sleep
channel is the address slept on, and `ticks` is the 32-bit counter of `trap.c`.
Fields no modelled function reads (kernel stack, page table, trap frame, open
files, name) are left out. `history`, `allocations` and `Proc.serial` are not in
the source: they record what put, allocproc, exit and wait did, and which
allocation made each process, so that claims about a whole run can be stated
although the `int` pids wrap and repeat. -/
namespace Xv6

abbrev NPROC : Nat := 64
abbrev NCPU : Nat := 8

/-- A `struct proc *` other than null: a slot of `proc[NPROC]`. -/
abbrev Slot := Fin NPROC

/-- An index of `cpus[NCPU]`. -/
abbrev CpuId := Fin NCPU

instance : NeZero NPROC := ⟨by decide⟩

instance : NeZero NCPU := ⟨by decide⟩

inductive Procstate where
  | UNUSED | USED | SLEEPING | RUNNABLE | RUNNING | ZOMBIE
  deriving DecidableEq, Repr

/-- The `void *chan` a process sleeps on. Distinct kernel objects have distinct
addresses; `proc` is the address of a slot, as `wait` and `exit` use it. -/
inductive Chan where
  | null
  | proc (p : Slot)
  | ticks
  | addr (a : Nat)
  deriving DecidableEq, Repr

/-- Where a switched-out kernel thread resumes: `forkret` for a new process,
after `sched` in `yield`, after `sched` in `sleep` called by a system call that
then returns, or after `sched` in the `sleep` of `wait(addr)`, which scans again. -/
inductive Context where
  | forkret
  | yield
  | sleep
  | wait (addr : Nat)
  deriving DecidableEq, Repr

structure Proc where
  state : Procstate
  chan : Chan
  killed : Bool
  xstate : Int
  pid : Int
  /-- Ghost: the number of `allocproc` calls before the one that made this process. -/
  serial : Nat
  cpuBurstAprox : Int
  cpuBurst : Int
  timeslice : Int
  /-- The `int` field holds `ticks` at the last put; its one reader converts it
  back to `uint`, so the 32-bit pattern is kept. -/
  putTimestamp : UInt32
  exeTime : Int
  parent : Option Slot
  context : Context
  deriving Repr

/-- A zeroed `struct proc`, as the table starts in `.bss`. -/
def Proc.zero : Proc where
  state := .UNUSED
  chan := .null
  killed := false
  xstate := 0
  pid := 0
  serial := 0
  cpuBurstAprox := 0
  cpuBurst := 0
  timeslice := 0
  putTimestamp := 0
  exeTime := 0
  parent := none
  context := .forkret

/-- `struct sched_policy`: `heap[0..heap_size)` is the list `heap`. -/
structure SchedPolicy where
  heap : List Slot
  a : Int
  algorithm : Int
  isPreemptive : Int
  deriving Repr

/-- The initializer of `proc_sched`: empty, `a = 50`, non-preemptive SJF. -/
def SchedPolicy.initial : SchedPolicy where
  heap := []
  a := 50
  algorithm := 0
  isPreemptive := 0

/-- Steps recorded in `Kernel.history`. -/
inductive Event where
  /-- put's exponential averaging of `p` with weight `a` and burst `burst`. -/
  | averaged (p : Slot) (a burst : Int)
  | allocated (p : Slot)
  | exited (serial : Nat) (pid status : Int)
  /-- A successful `wait` returned `pid` and passed back `status`. -/
  | reaped (serial : Nat) (pid status : Int)
  deriving DecidableEq, Repr

structure Kernel where
  proc : Slot → Proc
  procSched : SchedPolicy
  /-- `cpus[c].proc`. -/
  cpus : CpuId → Option Slot
  initproc : Option Slot
  nextpid : Int
  /-- Ghost: the number of `allocproc` calls so far. -/
  allocations : Nat
  ticks : UInt32
  history : List Event

/-- The kernel before `userinit`. -/
def Kernel.zero : Kernel where
  proc := fun _ => Proc.zero
  procSched := SchedPolicy.initial
  cpus := fun _ => none
  initproc := none
  nextpid := 1
  allocations := 0
  ticks := 0
  history := []

/-- `nextpid = nextpid + 1` in `allocpid()`: `int` addition, which wraps. -/
def pidSucc (pid : Int) : Int := (pid.toInt32 + 1).toInt

namespace Kernel

/-- Replace the `struct proc` in slot `p`. -/
def setProc (k : Kernel) (p : Slot) (q : Proc) : Kernel :=
  { k with proc := Function.update k.proc p q }

/-- Replace the ready-queue array. -/
def setHeap (k : Kernel) (heap : List Slot) : Kernel :=
  { k with procSched := { k.procSched with heap := heap } }

def record (k : Kernel) (e : Event) : Kernel := { k with history := k.history ++ [e] }

@[simp] theorem setProc_proc (k : Kernel) (p : Slot) (q : Proc) :
    (k.setProc p q).proc = Function.update k.proc p q := rfl

@[simp] theorem setProc_procSched (k : Kernel) (p : Slot) (q : Proc) :
    (k.setProc p q).procSched = k.procSched := rfl

@[simp] theorem setProc_cpus (k : Kernel) (p : Slot) (q : Proc) :
    (k.setProc p q).cpus = k.cpus := rfl

@[simp] theorem setProc_initproc (k : Kernel) (p : Slot) (q : Proc) :
    (k.setProc p q).initproc = k.initproc := rfl

@[simp] theorem setProc_nextpid (k : Kernel) (p : Slot) (q : Proc) :
    (k.setProc p q).nextpid = k.nextpid := rfl

@[simp] theorem setProc_allocations (k : Kernel) (p : Slot) (q : Proc) :
    (k.setProc p q).allocations = k.allocations := rfl

@[simp] theorem setProc_ticks (k : Kernel) (p : Slot) (q : Proc) :
    (k.setProc p q).ticks = k.ticks := rfl

@[simp] theorem setProc_history (k : Kernel) (p : Slot) (q : Proc) :
    (k.setProc p q).history = k.history := rfl

@[simp] theorem setHeap_proc (k : Kernel) (heap : List Slot) : (k.setHeap heap).proc = k.proc := rfl

@[simp] theorem setHeap_heap (k : Kernel) (heap : List Slot) :
    (k.setHeap heap).procSched.heap = heap := rfl

@[simp] theorem setHeap_a (k : Kernel) (heap : List Slot) :
    (k.setHeap heap).procSched.a = k.procSched.a := rfl

@[simp] theorem setHeap_algorithm (k : Kernel) (heap : List Slot) :
    (k.setHeap heap).procSched.algorithm = k.procSched.algorithm := rfl

@[simp] theorem setHeap_isPreemptive (k : Kernel) (heap : List Slot) :
    (k.setHeap heap).procSched.isPreemptive = k.procSched.isPreemptive := rfl

@[simp] theorem setHeap_cpus (k : Kernel) (heap : List Slot) : (k.setHeap heap).cpus = k.cpus := rfl

@[simp] theorem setHeap_initproc (k : Kernel) (heap : List Slot) :
    (k.setHeap heap).initproc = k.initproc := rfl

@[simp] theorem setHeap_nextpid (k : Kernel) (heap : List Slot) :
    (k.setHeap heap).nextpid = k.nextpid := rfl

@[simp] theorem setHeap_allocations (k : Kernel) (heap : List Slot) :
    (k.setHeap heap).allocations = k.allocations := rfl

@[simp] theorem setHeap_ticks (k : Kernel) (heap : List Slot) : (k.setHeap heap).ticks = k.ticks := rfl

@[simp] theorem setHeap_history (k : Kernel) (heap : List Slot) :
    (k.setHeap heap).history = k.history := rfl

@[simp] theorem record_proc (k : Kernel) (e : Event) : (k.record e).proc = k.proc := rfl

@[simp] theorem record_procSched (k : Kernel) (e : Event) : (k.record e).procSched = k.procSched := rfl

@[simp] theorem record_cpus (k : Kernel) (e : Event) : (k.record e).cpus = k.cpus := rfl

@[simp] theorem record_initproc (k : Kernel) (e : Event) : (k.record e).initproc = k.initproc := rfl

@[simp] theorem record_nextpid (k : Kernel) (e : Event) : (k.record e).nextpid = k.nextpid := rfl

@[simp] theorem record_allocations (k : Kernel) (e : Event) : (k.record e).allocations = k.allocations := rfl

@[simp] theorem record_ticks (k : Kernel) (e : Event) : (k.record e).ticks = k.ticks := rfl

@[simp] theorem record_history (k : Kernel) (e : Event) :
    (k.record e).history = k.history ++ [e] := rfl

end Kernel

end Xv6
