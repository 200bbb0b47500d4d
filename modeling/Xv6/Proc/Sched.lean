import Xv6.Proc.Defs
import Xv6.Proc.Heap

/-! The ready-queue operations of `kernel/proc.c`: `put`, `get`, `change_sched`
and `timer_routine`. Each is one critical section under `proc_sched.lock` (and
the caller's `p->lock`), so each is one function of the kernel state. The
`int` fields are `Int`s; put's average, whose products overflow, is computed
in `Int32` as the compiled code computes it, and the `uint` tick arithmetic of
the CFS time slice is `UInt32`. -/
namespace Xv6

/-- The SJF key `cpu_burst_aprox` read through a `struct proc *`. -/
def aproxOf (proc : Slot → Proc) (s : Slot) : Int := (proc s).cpuBurstAprox

/-- The CFS key `exe_time` read through a `struct proc *`. -/
def exeOf (proc : Slot → Proc) (s : Slot) : Int := (proc s).exeTime

/-- An `int` initialised from a `uint`: the two's-complement reading of its bits. -/
def intOfUInt32 (x : UInt32) : Int := if x.toNat < 2 ^ 31 then x.toNat else x.toNat - 2 ^ 32

/-- `cfs_timeslice` in `get`: `(ticks - put_timestamp) / (heap_size + 1)` computed in
`uint`, stored in an `int`, and raised from 0 to 1. -/
def cfsTimeslice (ticks putTimestamp : UInt32) (heapSize : Nat) : Int :=
  let t := intOfUInt32 ((ticks - putTimestamp) / UInt32.ofNat (heapSize + 1))
  if t = 0 then t + 1 else t

namespace Kernel

/-- The new `cpu_burst_aprox` of put's exponential averaging,
`(a * cpu_burst + (100 - a) * cpu_burst_aprox) / 100` in 32-bit `int`. -/
def averaged (a burst aprox : Int) : Int :=
  let a := a.toInt32
  ((a * burst.toInt32 + (100 - a) * aprox.toInt32) / 100).toInt

/-- `put(p)`. The averaging test reads `proc->state`, the state of `proc[0]`. -/
def put (k : Kernel) (p : Slot) : Kernel :=
  let ps := k.procSched
  let q := k.proc p
  let averaging := (k.proc 0).state ≠ .RUNNING
  let aprox := if averaging then averaged ps.a q.cpuBurst q.cpuBurstAprox else q.cpuBurstAprox
  let exe := if q.state = .RUNNING then q.exeTime + q.cpuBurst else 0
  let k := k.setProc p
    { q with cpuBurstAprox := aprox, exeTime := exe, putTimestamp := k.ticks, state := .RUNNABLE }
  let k := if averaging then k.record (.averaged p ps.a q.cpuBurst) else k
  k.setHeap (heapPush (aproxOf k.proc) (exeOf k.proc) ps.heap p ps.algorithm)

/-- `get()`: the root, after moving the last entry to the root and sifting it down. -/
def get (k : Kernel) : Kernel × Option Slot :=
  match k.procSched.heap with
  | [] => (k, none)
  | ret :: rest =>
    let ps := k.procSched
    let k := k.setProc ret { k.proc ret with cpuBurst := 0 }
    let k := k.setHeap (heapPop (aproxOf k.proc) (exeOf k.proc) (ret :: rest) ps.algorithm)
    if ps.algorithm = 1 then
      let q := k.proc ret
      (k.setProc ret { q with timeslice := cfsTimeslice k.ticks q.putTimestamp rest.length }, some ret)
    else (k, some ret)

/-- `change_sched(algo, is_preemptive, a)` and its return value. -/
def changeSched (k : Kernel) (algo isPreemptive a : Int) : Kernel × Int :=
  if algo < 0 ∨ algo > 1 ∨ isPreemptive < 0 then (k, -2)
  else if algo = 0 ∧ (a < 0 ∨ a > 100) then (k, -3)
  else
    let heap := rearrangeHeap (aproxOf k.proc) (exeOf k.proc) k.procSched.heap
      k.procSched.heap.length algo
    ({ k with procSched := { heap := heap, a := a, algorithm := algo, isPreemptive := isPreemptive } },
      0)

/-- `timer_routine(p)`: the kernel after `p->cpu_burst += 1`, and whether it calls `yield`. -/
def timerRoutine (k : Kernel) (p : Slot) : Kernel × Bool :=
  let k := k.setProc p { k.proc p with cpuBurst := (k.proc p).cpuBurst + 1 }
  let q := k.proc p
  (k, decide ((q.timeslice ≠ 0 ∧ q.cpuBurst = q.timeslice) ∨
    (k.procSched.algorithm = 0 ∧ k.procSched.isPreemptive = 1)))

/-! What each operation leaves alone, and what it does to the slot it works on. -/

section Frame

variable (k : Kernel) (p : Slot)

/-- The slot `put` works on, after it. -/
def putProc (k : Kernel) (p : Slot) : Proc :=
  let q := k.proc p
  { q with
    cpuBurstAprox :=
      if (k.proc 0).state ≠ .RUNNING then averaged k.procSched.a q.cpuBurst q.cpuBurstAprox
      else q.cpuBurstAprox
    exeTime := if q.state = .RUNNING then q.exeTime + q.cpuBurst else 0
    putTimestamp := k.ticks
    state := .RUNNABLE }

/-- `put` up to the sift: the slot update and, when averaging, its record. -/
def putUpdate (k : Kernel) (p : Slot) : Kernel :=
  if (k.proc 0).state ≠ .RUNNING then
    (k.setProc p (putProc k p)).record (.averaged p k.procSched.a (k.proc p).cpuBurst)
  else k.setProc p (putProc k p)

theorem put_eq : k.put p =
    (putUpdate k p).setHeap (heapPush (aproxOf (putUpdate k p).proc) (exeOf (putUpdate k p).proc)
      k.procSched.heap p k.procSched.algorithm) := by
  by_cases running : (k.proc 0).state = .RUNNING <;> simp [put, putUpdate, putProc, running]

theorem putUpdate_proc : (putUpdate k p).proc = Function.update k.proc p (putProc k p) := by
  unfold putUpdate; split <;> rfl

theorem putUpdate_procSched : (putUpdate k p).procSched = k.procSched := by
  unfold putUpdate; split <;> rfl

@[simp] theorem put_cpus : (k.put p).cpus = k.cpus := by
  rw [put_eq]; unfold putUpdate; split <;> rfl

@[simp] theorem put_initproc : (k.put p).initproc = k.initproc := by
  rw [put_eq]; unfold putUpdate; split <;> rfl

@[simp] theorem put_nextpid : (k.put p).nextpid = k.nextpid := by
  rw [put_eq]; unfold putUpdate; split <;> rfl

@[simp] theorem put_allocations : (k.put p).allocations = k.allocations := by
  rw [put_eq]; unfold putUpdate; split <;> rfl

@[simp] theorem put_ticks : (k.put p).ticks = k.ticks := by
  rw [put_eq]; unfold putUpdate; split <;> rfl

@[simp] theorem put_a : (k.put p).procSched.a = k.procSched.a := by
  rw [put_eq, setHeap_a, putUpdate_procSched]

@[simp] theorem put_algorithm : (k.put p).procSched.algorithm = k.procSched.algorithm := by
  rw [put_eq, setHeap_algorithm, putUpdate_procSched]

@[simp] theorem put_isPreemptive : (k.put p).procSched.isPreemptive = k.procSched.isPreemptive := by
  rw [put_eq, setHeap_isPreemptive, putUpdate_procSched]

@[simp] theorem put_proc : (k.put p).proc = Function.update k.proc p (putProc k p) := by
  rw [put_eq, setHeap_proc, putUpdate_proc]

theorem put_history : (k.put p).history =
    if (k.proc 0).state ≠ .RUNNING then
      k.history ++ [.averaged p k.procSched.a (k.proc p).cpuBurst]
    else k.history := by
  rw [put_eq, setHeap_history]; unfold putUpdate; split <;> rfl

theorem put_heap : (k.put p).procSched.heap =
    heapPush (aproxOf (k.put p).proc) (exeOf (k.put p).proc) k.procSched.heap p k.procSched.algorithm := by
  rw [put_eq, setHeap_heap, setHeap_proc]

theorem put_heap_perm : (k.put p).procSched.heap.Perm (k.procSched.heap ++ [p]) := by
  rw [put_eq]
  exact heapPush_perm _ _ _ _ _

theorem put_heap_length : (k.put p).procSched.heap.length = k.procSched.heap.length + 1 := by
  simp [(put_heap_perm k p).length_eq]

@[simp] theorem aproxOf_update_cpuBurst (proc : Slot → Proc) (q : Proc) (b : Int) :
    aproxOf (Function.update proc p { q with cpuBurst := b }) = aproxOf (Function.update proc p q) := by
  funext s
  by_cases same : s = p
  · subst same; simp [aproxOf]
  · simp [aproxOf, same]

@[simp] theorem exeOf_update_cpuBurst (proc : Slot → Proc) (q : Proc) (b : Int) :
    exeOf (Function.update proc p { q with cpuBurst := b }) = exeOf (Function.update proc p q) := by
  funext s
  by_cases same : s = p
  · subst same; simp [exeOf]
  · simp [exeOf, same]

theorem get_nil (h : k.procSched.heap = []) : k.get = (k, none) := by
  simp only [get, h]

/-- The slot `get` hands out, after it: its burst counter cleared and, under CFS,
its time slice set. -/
def getProc (k : Kernel) (x : Slot) (rest : List Slot) : Proc :=
  { k.proc x with
    cpuBurst := 0
    timeslice := if k.procSched.algorithm = 1 then cfsTimeslice k.ticks (k.proc x).putTimestamp rest.length
      else (k.proc x).timeslice }

theorem get_cons {x : Slot} {rest : List Slot} (h : k.procSched.heap = x :: rest) :
    k.get = ({ k with
      proc := Function.update k.proc x (getProc k x rest)
      procSched := { k.procSched with
        heap := heapPop (aproxOf k.proc) (exeOf k.proc) (x :: rest) k.procSched.algorithm } },
      some x) := by
  simp only [get, getProc, h]
  split <;> simp [setProc, setHeap, *]

theorem get_cons_snd {x : Slot} {rest : List Slot} (h : k.procSched.heap = x :: rest) :
    k.get.2 = some x := by
  rw [get_cons k h]

theorem get_cons_heap {x : Slot} {rest : List Slot} (h : k.procSched.heap = x :: rest) :
    k.get.1.procSched.heap = heapPop (aproxOf k.proc) (exeOf k.proc) (x :: rest) k.procSched.algorithm := by
  rw [get_cons k h]

theorem get_cons_proc {x : Slot} {rest : List Slot} (h : k.procSched.heap = x :: rest) :
    k.get.1.proc = Function.update k.proc x (getProc k x rest) := by
  rw [get_cons k h]

theorem get_frame : k.get.1.cpus = k.cpus ∧ k.get.1.procSched.a = k.procSched.a ∧
    k.get.1.procSched.algorithm = k.procSched.algorithm ∧
    k.get.1.procSched.isPreemptive = k.procSched.isPreemptive ∧ k.get.1.initproc = k.initproc ∧
    k.get.1.nextpid = k.nextpid ∧ k.get.1.allocations = k.allocations ∧ k.get.1.ticks = k.ticks ∧
    k.get.1.history = k.history := by
  cases hk : k.procSched.heap with
  | nil => simp [get_nil k hk]
  | cons x rest => simp [get_cons k hk]

@[simp] theorem get_cpus : k.get.1.cpus = k.cpus := (get_frame k).1

@[simp] theorem get_a : k.get.1.procSched.a = k.procSched.a := (get_frame k).2.1

@[simp] theorem get_algorithm : k.get.1.procSched.algorithm = k.procSched.algorithm := (get_frame k).2.2.1

@[simp] theorem get_isPreemptive : k.get.1.procSched.isPreemptive = k.procSched.isPreemptive :=
  (get_frame k).2.2.2.1

@[simp] theorem get_initproc : k.get.1.initproc = k.initproc := (get_frame k).2.2.2.2.1

@[simp] theorem get_nextpid : k.get.1.nextpid = k.nextpid := (get_frame k).2.2.2.2.2.1

@[simp] theorem get_allocations : k.get.1.allocations = k.allocations := (get_frame k).2.2.2.2.2.2.1

@[simp] theorem get_ticks : k.get.1.ticks = k.ticks := (get_frame k).2.2.2.2.2.2.2.1

@[simp] theorem get_history : k.get.1.history = k.history := (get_frame k).2.2.2.2.2.2.2.2

@[simp] theorem changeSched_proc (algo isPreemptive a : Int) :
    (k.changeSched algo isPreemptive a).1.proc = k.proc := by
  unfold changeSched; split
  · rfl
  · split <;> rfl

@[simp] theorem changeSched_cpus (algo isPreemptive a : Int) :
    (k.changeSched algo isPreemptive a).1.cpus = k.cpus := by
  unfold changeSched; split
  · rfl
  · split <;> rfl

@[simp] theorem changeSched_initproc (algo isPreemptive a : Int) :
    (k.changeSched algo isPreemptive a).1.initproc = k.initproc := by
  unfold changeSched; split
  · rfl
  · split <;> rfl

@[simp] theorem changeSched_nextpid (algo isPreemptive a : Int) :
    (k.changeSched algo isPreemptive a).1.nextpid = k.nextpid := by
  unfold changeSched; split
  · rfl
  · split <;> rfl

@[simp] theorem changeSched_allocations (algo isPreemptive a : Int) :
    (k.changeSched algo isPreemptive a).1.allocations = k.allocations := by
  unfold changeSched; split
  · rfl
  · split <;> rfl

@[simp] theorem changeSched_history (algo isPreemptive a : Int) :
    (k.changeSched algo isPreemptive a).1.history = k.history := by
  unfold changeSched; split
  · rfl
  · split <;> rfl

/-- `change_sched`'s argument checks: a policy other than 0 or 1 or a negative
preemption flag gives -2, an SJF weight outside `[0, 100]` gives -3, and
neither touches the kernel. -/
theorem changeSched_rejects (algo isPreemptive a : Int)
    (bad : algo < 0 ∨ algo > 1 ∨ isPreemptive < 0 ∨ algo = 0 ∧ (a < 0 ∨ a > 100)) :
    (k.changeSched algo isPreemptive a).1 = k ∧
      ((k.changeSched algo isPreemptive a).2 = -2 ∨ (k.changeSched algo isPreemptive a).2 = -3) := by
  unfold changeSched
  by_cases range : algo < 0 ∨ algo > 1 ∨ isPreemptive < 0
  · rw [if_pos range]
    exact ⟨rfl, .inl rfl⟩
  · have weight : algo = 0 ∧ (a < 0 ∨ a > 100) := by omega
    rw [if_neg range, if_pos weight]
    exact ⟨rfl, .inr rfl⟩

@[simp] theorem timerRoutine_cpus : (k.timerRoutine p).1.cpus = k.cpus := rfl

@[simp] theorem timerRoutine_procSched : (k.timerRoutine p).1.procSched = k.procSched := rfl

@[simp] theorem timerRoutine_history : (k.timerRoutine p).1.history = k.history := rfl

@[simp] theorem timerRoutine_initproc : (k.timerRoutine p).1.initproc = k.initproc := rfl

@[simp] theorem timerRoutine_nextpid : (k.timerRoutine p).1.nextpid = k.nextpid := rfl

@[simp] theorem timerRoutine_allocations : (k.timerRoutine p).1.allocations = k.allocations := rfl

@[simp] theorem timerRoutine_ticks : (k.timerRoutine p).1.ticks = k.ticks := rfl

@[simp] theorem timerRoutine_proc : (k.timerRoutine p).1.proc =
    Function.update k.proc p { k.proc p with cpuBurst := (k.proc p).cpuBurst + 1 } := rfl

end Frame

end Kernel

end Xv6
