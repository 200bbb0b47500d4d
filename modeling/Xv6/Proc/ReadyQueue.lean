import Xv6.Proc.Kernel
import Xv6.MinHeap

/-! The ready queue over whole runs. `yield` and the scheduler's post-switch code
both put a preempted process, so under preemption one process fills the queue
with copies of itself, one more per tick, and `put` writes past `heap[NPROC - 1]`.
The array operations keep the multiset of entries, but `heapify_down_i` tries the
left child first, so an extraction can pass over a smaller key; under the
default policy a short run of forks, sleeps and ticks already leaves the queue
out of heap order, and the next `get` skips a RUNNABLE process with a smaller key. -/
namespace Xv6
open Kernel

/-! ## A preempted process is queued twice -/

/-- A lone CPU-bound `initproc` in slot 0 under preemptive SJF, between two
scheduler iterations, with `m` entries in the queue, all of them slot 0. -/
structure Spinning (k : Kernel) (m : Nat) : Prop where
  heap : k.procSched.heap = List.replicate m 0
  algorithm : k.procSched.algorithm = 0
  preemptive : k.procSched.isPreemptive = 1
  idle : ∀ c, k.cpus c = none
  runnable : (k.proc 0).state = .RUNNABLE
  alive : (k.proc 0).killed = false
  noSlice : (k.proc 0).timeslice = 0
  yielded : (k.proc 0).context = .yield
  awake : ∀ p, (k.proc p).state ≠ .SLEEPING

/-- The same process running on CPU 0, with `m` entries left in the queue. -/
structure Dispatched (k : Kernel) (m : Nat) : Prop where
  heap : k.procSched.heap = List.replicate m 0
  algorithm : k.procSched.algorithm = 0
  preemptive : k.procSched.isPreemptive = 1
  onCpu : k.cpus = Function.update (fun _ => none) 0 (some 0)
  running : (k.proc 0).state = .RUNNING
  alive : (k.proc 0).killed = false
  noSlice : (k.proc 0).timeslice = 0
  awake : ∀ p, (k.proc p).state ≠ .SLEEPING

/-- The scheduler takes one copy off the queue and runs slot 0. -/
theorem Spinning.dispatch {k : Kernel} {m : Nat} (s : Spinning k (m + 1)) :
    Dispatched (k.step (.schedule 0 true)) m := by
  have idle : k.cpus 0 = none := s.idle 0
  have popped := get_cons k (s.heap.trans List.replicate_succ)
  have cpus : k.cpus = fun _ => none := funext s.idle
  simp only [step, idle, if_true, scheduler, popped]
  simp only [getProc, Function.update_self, s.runnable, s.yielded, if_true]
  refine ⟨by simp [heapPop_replicate], by simp [s.algorithm], by simp [s.preemptive], by simp [cpus],
    by simp, by simp [s.alive], by simp [s.noSlice, s.algorithm], ?_⟩
  intro p
  by_cases same : p = 0
  · subst same; simp
  · simp [same, s.awake p]

/-- The next tick preempts it, and `yield` queues it twice. -/
theorem Dispatched.tick {k : Kernel} {m : Nat} (d : Dispatched k m) :
    Spinning (k.step (.tick 0)) (m + 2) := by
  have onCpu : k.cpus 0 = some 0 := by simp [d.onCpu]
  have woke : ({ k with ticks := k.ticks + 1 } : Kernel).wakeup (some 0) .ticks =
      { k with ticks := k.ticks + 1 } := wakeup_of_awake _ _ _ d.awake
  have yields : ({ k with ticks := k.ticks + 1 } : Kernel).timerRoutine 0 =
      ((({ k with ticks := k.ticks + 1 } : Kernel).timerRoutine 0).1, true) :=
    Prod.ext rfl (by simp [timerRoutine_snd, d.algorithm, d.preemptive])
  have stepped : k.step (.tick 0) =
      (({ k with ticks := k.ticks + 1 } : Kernel).timerRoutine 0).1.yield 0 0 := by
    simp only [step, Kernel.tick, if_true, onCpu, woke, d.alive, Bool.false_eq_true, if_false]
    rw [yields]
  rw [stepped, yield_puts_twice (by simpa using onCpu)]
  set k2 := (({ k with ticks := k.ticks + 1 } : Kernel).timerRoutine 0).1 with hk2
  have heap2 : k2.procSched.heap = List.replicate m 0 := by simp [hk2, d.heap]
  refine ⟨?_, ?_, ?_, ?_, ?_, ?_, ?_, ?_, ?_⟩
  · simp only [put_heap, setProc_procSched, heap2, heapPush_replicate]
  · simp [hk2, d.algorithm]
  · simp [hk2, d.preemptive]
  · intro c
    by_cases same : c = 0
    · simp [same]
    · simp [same, hk2, d.onCpu]
  · simp [putProc]
  · simp [putProc, hk2, d.alive]
  · simp [putProc, hk2, d.noSlice]
  · simp [putProc]
  · intro p
    by_cases same : p = 0
    · simp [same, putProc]
    · simp [same, hk2, d.awake p]

/-- One scheduler iteration and one tick on CPU 0. -/
def preemptCycle : List Action := [.schedule 0 true, .tick 0]

theorem Spinning.cycle {k : Kernel} {m : Nat} (s : Spinning k (m + 1)) :
    Spinning (Machine.run step k preemptCycle) (m + 2) :=
  s.dispatch.tick

theorem Spinning.cycles {k : Kernel} {m : Nat} (s : Spinning k (m + 1)) (n : Nat) :
    Spinning (Machine.run step k (List.replicate n preemptCycle).flatten) (m + 1 + n) := by
  induction n generalizing k m with
  | zero => simpa using s
  | succ n ih =>
    rw [Machine.run_replicate]
    have next := ih s.cycle
    rwa [show m + 1 + 1 + n = m + 1 + (n + 1) by omega] at next

/-- From boot: `initproc` runs, makes SJF preemptive with `chsched(0, 1, 50)`,
is preempted by one tick, and then `n` more scheduler iterations and ticks follow. -/
def preemptRun (n : Nat) : List Action :=
  ([.schedule 0 true, .chsched 0 0 1 50, .tick 0] : List Action) ++ (List.replicate n preemptCycle).flatten

theorem preemptRun_start : Dispatched (Machine.run step boot [.schedule 0 true, .chsched 0 0 1 50]) 0 :=
  ⟨by decide +kernel, by decide +kernel, by decide +kernel, by funext c; revert c; decide +kernel,
    by decide +kernel, by decide +kernel, by decide +kernel, by decide +kernel⟩

theorem preemptRun_heap (n : Nat) :
    (Machine.run step boot (preemptRun n)).procSched.heap = List.replicate (n + 2) 0 := by
  have first : Spinning (Machine.run step boot [.schedule 0 true, .chsched 0 0 1 50, .tick 0]) 2 := by
    have ticked := preemptRun_start.tick
    rwa [← @Machine.run_concat Kernel Action step boot [.schedule 0 true, .chsched 0 0 1 50] (.tick 0)]
      at ticked
  have later := first.cycles n
  rw [preemptRun, Machine.run_append]
  simpa [Nat.add_comm] using later.heap

/-- The first preemption already queues `initproc` twice, and after 63 more ticks
the queue has 65 entries: `put` has written `heap[64]`, past the end of
`heap[NPROC]`. -/
theorem ready_queue_duplicates_and_overflows :
    ¬ (Machine.run step boot (preemptRun 0)).procSched.heap.Nodup ∧
      NPROC < (Machine.run step boot (preemptRun 63)).procSched.heap.length := by
  rw [preemptRun_heap, preemptRun_heap]
  constructor
  · simp
  · simp

/-! ## The array operations against an abstract priority queue -/

/-- One ready-queue operation on the array alone: put's append and sift-up,
get's extraction of the root, change_sched's rebuild under a new policy. -/
inductive QueueOp where
  | insert (p : Slot)
  | extract
  | rekey (algo : Int)

/-- The array `heap[0..heap_size)` with the policy that orders it. -/
structure Queue where
  heap : List Slot
  algorithm : Int

namespace Queue

variable (aprox exe : Slot → Int)

/-- One operation with the keys fixed, and the entry an extraction returns. -/
def apply (q : Queue) : QueueOp → Queue × Option Slot
  | .insert p => ({ q with heap := heapPush aprox exe q.heap p q.algorithm }, none)
  | .extract =>
    match q.heap with
    | [] => (q, none)
    | x :: rest => ({ q with heap := heapPop aprox exe (x :: rest) q.algorithm }, some x)
  | .rekey algo =>
    ({ heap := rearrangeHeap aprox exe q.heap q.heap.length algo, algorithm := algo }, none)

/-- A sequence of operations: the final queue and the extracted entries, in order. -/
def run (q : Queue) : List QueueOp → Queue × List Slot
  | [] => (q, [])
  | op :: ops =>
    let step := q.apply aprox exe op
    let rest := run step.1 ops
    (rest.1, step.2.toList ++ rest.2)

/-- The entries `ops` inserts. -/
def inserted : List QueueOp → List Slot
  | [] => []
  | .insert p :: ops => p :: inserted ops
  | .extract :: ops | .rekey _ :: ops => inserted ops

/-- What is queued plus what was extracted is what was there plus what was
inserted: the array never loses, duplicates or invents an entry. -/
theorem run_perm (q : Queue) (ops : List QueueOp) :
    ((run aprox exe q ops).1.heap ++ (run aprox exe q ops).2).Perm (q.heap ++ inserted ops) := by
  induction ops generalizing q with
  | nil => simp [run, inserted]
  | cons op ops ih =>
    cases op with
    | insert p =>
      have pushed := heapPush_perm aprox exe q.algorithm q.heap p
      have shifted := (ih { q with heap := heapPush aprox exe q.heap p q.algorithm }).trans
        (pushed.append_right (inserted ops))
      simpa [run, apply, inserted] using shifted
    | extract =>
      cases hq : q.heap with
      | nil => simpa [run, apply, inserted, hq] using ih q
      | cons x rest =>
        have popped := heapPop_perm aprox exe q.algorithm x rest
        have shifted := (ih { q with heap := heapPop aprox exe (x :: rest) q.algorithm }).trans
          (popped.append_right _)
        simp only [run, apply, hq, inserted, Option.toList_some, List.singleton_append]
        exact List.perm_middle.trans (shifted.cons x)
    | rekey algo =>
      have rebuilt := rearrangeHeap_perm aprox exe algo q.heap q.heap.length
      have shifted := (ih ⟨rearrangeHeap aprox exe q.heap q.heap.length algo, algo⟩).trans
        (rebuilt.append_right (inserted ops))
      simpa [run, apply, inserted] using shifted

end Queue

/-- SJF keys for five entries: slots 0, 1, 2 at 0, slot 3 at 1, slot 4 at 2. -/
def skewedAprox (s : Slot) : Int := if s = 3 then 1 else if s = 4 then 2 else 0

/-- Insert slots 0 to 4 under SJF, then extract three times. -/
def skewedOps : List QueueOp :=
  [.insert 0, .insert 1, .insert 2, .insert 3, .insert 4, .extract, .extract, .extract]

/-- The third extraction returns slot 3, with key 1, while slot 2, with key 0,
is still queued: after the second extraction the sift-down swapped the moved
entry with the left child although the right child was smaller. -/
theorem extract_skips_smaller_key :
    (Queue.run skewedAprox (fun _ => 0) ⟨[], 0⟩ skewedOps).2 = [0, 1, 3] ∧
      2 ∈ (Queue.run skewedAprox (fun _ => 0) ⟨[], 0⟩ skewedOps).1.heap ∧
      skewedAprox 2 < skewedAprox 3 := by
  decide +kernel

/-! ## `change_sched`'s rebuild -/

/-- `cpu_burst_aprox` falling along the array: 3, 2 and 1 for slots 0, 1 and 2. -/
def fallingAprox (s : Slot) : Int := 3 - s.val

/-- `exe_time` 0 for slot 2 and 1 for the others. -/
def lastExe (s : Slot) : Int := if s = 2 then 0 else 1

/-- With three entries `rearrange_heap` runs `heapify_down_i` at the root only.
Under SJF it swaps the root with its left child and stops, leaving the right
child's key 1 below the new root's 2. Under CFS the right child is compared by
`cpu_burst_aprox`, the same for all three entries here, so the entry with
`exe_time` 0 stays below a root with 1. -/
theorem rearrange_heap_misorders :
    rearrangeHeap fallingAprox (fun _ => 0) [0, 1, 2] 3 0 = [1, 0, 2] ∧
      ¬ MinHeap.Ordered fallingAprox (rearrangeHeap fallingAprox (fun _ => 0) ([0, 1, 2] : List Slot) 3 0) ∧
      rearrangeHeap (fun _ => 0) lastExe [0, 1, 2] 3 1 = [0, 1, 2] ∧
      ¬ MinHeap.Ordered lastExe (rearrangeHeap (fun _ => 0) lastExe ([0, 1, 2] : List Slot) 3 1) := by
  decide +kernel

/-! ## A reachable kernel state out of heap order -/

/-- Under the default policy, on CPU 0: `initproc` forks six children (slots 1
to 6) and sleeps for good; slot 1 runs two ticks and calls `sleep(1)`; slot 6
runs four ticks and does the same; each is woken by the next tick and averaged
to keys 1 and 2. Slots 5 and 2 take the CPU and sleep for good, and the last
`get` moves slot 6 (key 2) to the root and swaps it with the left child, slot 1
(key 1), though the right child, slot 3, has key 0. -/
def sjfRun : List Action :=
  ([.schedule 0 true] : List Action) ++ List.replicate 6 (.fork 0 true true : Action) ++
  ([.sleep 0 (.addr 7)] : List Action) ++
  ([.schedule 0 true, .tick 0, .tick 0, .sleep 0 .ticks] : List Action) ++
  ([.schedule 0 true, .tick 0, .tick 0, .tick 0, .tick 0, .sleep 0 .ticks] : List Action) ++
  ([.schedule 0 true, .tick 0] : List Action) ++
  ([.sleep 0 (.addr 7), .schedule 0 true, .sleep 0 (.addr 7), .schedule 0 true] : List Action)

/-- After `sjfRun` the queue is slots 1, 6 and 3 with keys 1, 2 and 0: the root
is above its right child, and `get` hands out slot 1, with key 1, while slot 3,
with key 0, is RUNNABLE. -/
theorem sjf_run_breaks_heap_order :
    (Machine.run step boot sjfRun).procSched.algorithm = 0 ∧
      ¬ MinHeap.Ordered (aproxOf (Machine.run step boot sjfRun).proc)
        (Machine.run step boot sjfRun).procSched.heap ∧
      (Machine.run step boot sjfRun).get.2 = some 1 ∧
      ((Machine.run step boot sjfRun).proc 3).state = .RUNNABLE ∧
      aproxOf (Machine.run step boot sjfRun).proc 3 < aproxOf (Machine.run step boot sjfRun).proc 1 := by
  decide +kernel

end Xv6
