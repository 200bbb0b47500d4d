import Xv6.Proc.Kernel

/-! The counters behind the SJF and CFS keys. `put` decides whether to average
by reading `proc->state`, the state of `proc[0]`, so a preempted process is
averaged whenever `initproc` is not running; and since the scheduler puts a
yielded process a second time, that second put finds it RUNNABLE and clears
its `exe_time`. `change_sched` checks the weight `a` only when it selects SJF,
and under non-preemptive SJF the burst counter of a CPU-bound process grows
without bound before `put` multiplies it by `a`. `get` sets the time slice only
under CFS, so a slice set under CFS survives a switch back to SJF. -/
namespace Xv6
open Kernel

/-! ## What a preemption does to the keys -/

theorem yield_clears_exeTime {k : Kernel} {c : CpuId} {p : Slot} (running : k.cpus c = some p) :
    ((k.yield c p).proc p).exeTime = 0 := by
  rw [yield_puts_twice running]
  simp [putProc]

theorem yield_averages_twice {k : Kernel} {c : CpuId} {p : Slot} (running : k.cpus c = some p)
    (other : p ≠ 0) (notRunning : (k.proc 0).state ≠ .RUNNING) :
    ((k.yield c p).proc p).cpuBurstAprox =
      averaged k.procSched.a (k.proc p).cpuBurst
        (averaged k.procSched.a (k.proc p).cpuBurst (k.proc p).cpuBurstAprox) := by
  rw [yield_puts_twice running]
  simp [putProc, notRunning, Ne.symm other]

/-- `initproc` forks a child and sleeps; the child runs and selects preemptive
SJF with weight 100. -/
def preemptedChildRun : List Action :=
  [.schedule 0 true, .fork 0 true true, .sleep 0 (.addr 7), .schedule 0 true, .chsched 0 0 1 100]

/-- The child is RUNNING when the next tick preempts it, yet its estimate moves
from 0 to 1; and it is RUNNABLE afterwards with `exe_time` 0 though it has run
one tick since it was created. -/
theorem preemption_rewrites_keys :
    ((Machine.run step boot preemptedChildRun).proc 1).state = .RUNNING ∧
      (Machine.run step boot preemptedChildRun).cpus 0 = some 1 ∧
      ((Machine.run step boot preemptedChildRun).proc 1).cpuBurstAprox = 0 ∧
      ((Machine.run step boot (preemptedChildRun ++ [.tick 0])).proc 1).state = .RUNNABLE ∧
      ((Machine.run step boot (preemptedChildRun ++ [.tick 0])).proc 1).cpuBurst = 1 ∧
      ((Machine.run step boot (preemptedChildRun ++ [.tick 0])).proc 1).cpuBurstAprox = 1 ∧
      ((Machine.run step boot (preemptedChildRun ++ [.tick 0])).proc 1).exeTime = 0 := by
  decide +kernel

/-! ## The weight and the burst counter are unbounded -/

/-- `initproc` alone on CPU 0 under non-preemptive SJF with the initial weight,
not put since its dispatch, with `n` ticks on its burst counter. -/
structure Hogging (k : Kernel) (n : Nat) : Prop where
  onCpu : k.cpus 0 = some 0
  running : (k.proc 0).state = .RUNNING
  alive : (k.proc 0).killed = false
  noSlice : (k.proc 0).timeslice = 0
  burst : (k.proc 0).cpuBurst = n
  algorithm : k.procSched.algorithm = 0
  nonPreemptive : k.procSched.isPreemptive = 0
  weight : k.procSched.a = 50
  estimate : (k.proc 0).cpuBurstAprox = 0
  awake : ∀ p, (k.proc p).state ≠ .SLEEPING

/-- A tick only counts: with no slice and no preemption `timer_routine` never yields. -/
theorem Hogging.tick {k : Kernel} {n : Nat} (h : Hogging k n) : Hogging (k.step (.tick 0)) (n + 1) := by
  have woke : ({ k with ticks := k.ticks + 1 } : Kernel).wakeup (some 0) .ticks =
      { k with ticks := k.ticks + 1 } := wakeup_of_awake _ _ _ h.awake
  have stays : ({ k with ticks := k.ticks + 1 } : Kernel).timerRoutine 0 =
      ((({ k with ticks := k.ticks + 1 } : Kernel).timerRoutine 0).1, false) :=
    Prod.ext rfl (by simp [timerRoutine_snd, h.noSlice, h.nonPreemptive])
  have stepped : k.step (.tick 0) = (({ k with ticks := k.ticks + 1 } : Kernel).timerRoutine 0).1 := by
    simp only [step, Kernel.tick, if_true, h.onCpu, woke, h.alive, Bool.false_eq_true, if_false]
    rw [stays]
  rw [stepped]
  refine ⟨by simp [h.onCpu], by simp [h.running], by simp [h.alive], by simp [h.noSlice],
    by simp [h.burst], by simp [h.algorithm], by simp [h.nonPreemptive], by simp [h.weight],
    by simp [h.estimate], ?_⟩
  intro p
  by_cases same : p = 0
  · subst same; simp [h.running]
  · simp [same, h.awake p]

theorem Hogging.ticks {k : Kernel} {n : Nat} (h : Hogging k n) (m : Nat) :
    Hogging (Machine.run step k (List.replicate m (.tick 0))) (n + m) := by
  induction m generalizing k n with
  | zero => simpa using h
  | succ m ih =>
    rw [List.replicate_succ, Machine.run_cons]
    have next := ih h.tick
    rwa [show n + 1 + m = n + (m + 1) by omega] at next

theorem hogging_start : Hogging (Machine.run step boot [.schedule 0 true]) 0 :=
  ⟨by decide +kernel, by decide +kernel, by decide +kernel, by decide +kernel, by decide +kernel,
    by decide +kernel, by decide +kernel, by decide +kernel, by decide +kernel, by decide +kernel⟩

/-- Then `initproc` calls `sleep(1)`, and the next tick wakes it: `put` averages
it with the whole burst. -/
theorem Hogging.sleep_tick {k : Kernel} {n : Nat} (h : Hogging k n) :
    Event.averaged 0 50 n ∈ ((k.step (.sleep 0 .ticks)).step (.tick 0)).history ∧
      (((k.step (.sleep 0 .ticks)).step (.tick 0)).proc 0).cpuBurstAprox = averaged 50 n 0 := by
  set k1 := k.step (.sleep 0 .ticks) with hk1
  have slept : k1 = { k.setProc 0 { k.proc 0 with chan := .ticks, state := .SLEEPING, context := .sleep } with
      cpus := Function.update k.cpus 0 none } := by
    simp [hk1, step, usertrap, h.onCpu, h.alive, Kernel.sleep, switchBack]
  have idle : k1.cpus 0 = none := by simp [slept]
  have asleep : (k1.proc 0).state = .SLEEPING := by simp [slept]
  have waiting : (k1.proc 0).chan = .ticks := by simp [slept]
  have others : ∀ p, p ≠ 0 → (k1.proc p).state ≠ .SLEEPING := by
    intro p other
    simpa [slept, other] using h.awake p
  have stepped : k1.step (.tick 0) = ({ k1 with ticks := k1.ticks + 1 } : Kernel).wakeup none .ticks := by
    simp [step, Kernel.tick, idle]
  have woken : ({ k1 with ticks := k1.ticks + 1 } : Kernel).wakeup none .ticks =
      ({ k1 with ticks := k1.ticks + 1 } : Kernel).put 0 :=
    wakeup_only_first (by simp) asleep waiting others
  rw [stepped, woken]
  exact ⟨by simp [put_history, slept, h.weight, h.burst],
    by simp [putProc, slept, h.weight, h.burst, h.estimate]⟩

/-- `initproc` runs `n` ticks, calls `sleep(1)`, and is woken by the next tick. -/
def hogRun (n : Nat) : List Action :=
  [.schedule 0 true] ++ List.replicate n (.tick 0) ++ [.sleep 0 .ticks, .tick 0]

theorem hogRun_averages (n : Nat) :
    Event.averaged 0 50 n ∈ (Machine.run step boot (hogRun n)).history ∧
      ((Machine.run step boot (hogRun n)).proc 0).cpuBurstAprox = averaged 50 n 0 := by
  have hog := hogging_start.ticks n
  rw [Nat.zero_add] at hog
  rw [hogRun, Machine.run_append, Machine.run_append]
  exact hog.sleep_tick

/-- `initproc` forks, selects CFS with weight `INT_MAX`, runs three ticks and
sleeps; the child wakes it. -/
def heavyWeightRun : List Action :=
  [.schedule 0 true, .fork 0 true true, .chsched 0 1 0 2147483647, .tick 0, .tick 0, .tick 0,
    .sleep 0 (.addr 7), .schedule 0 true, .wakeup 0 (.addr 7)]

/-- `chsched(1, 0, INT_MAX)` is accepted, so `a` leaves [0, 100]; the next
averaging of `initproc`, with a burst of 3, overflows `a * cpu_burst` and stores
21474836, far above 3, the largest burst it was ever averaged with. And under
the default weight, a process that runs 42949673 ticks before sleeping
overflows `a * cpu_burst` too, and its estimate becomes negative. -/
theorem sjf_estimator_leaves_range :
    (Machine.run step boot heavyWeightRun).procSched.a = 2147483647 ∧
      (Machine.run step boot heavyWeightRun).history =
        [.allocated 0, .averaged 0 50 0, .allocated 1, .averaged 0 2147483647 3] ∧
      ((Machine.run step boot heavyWeightRun).proc 0).cpuBurstAprox = 21474836 ∧
      (2 : Int) ^ 31 ≤ 2147483647 * 3 ∧
      Event.averaged 0 50 42949673 ∈ (Machine.run step boot (hogRun 42949673)).history ∧
      ((Machine.run step boot (hogRun 42949673)).proc 0).cpuBurstAprox = -21474836 ∧
      (2 : Int) ^ 31 ≤ 50 * 42949673 := by
  obtain ⟨averagedHog, estimateHog⟩ := hogRun_averages 42949673
  refine ⟨by decide +kernel, by decide +kernel, by decide +kernel, by decide, by exact_mod_cast averagedHog,
    ?_, by decide⟩
  rw [estimateHog]
  decide

/-! ## A CFS time slice outlives the policy -/

/-- `initproc` selects CFS, forks, runs three ticks and sleeps; the child is
dispatched with a slice of 3, selects non-preemptive SJF and runs two ticks. -/
def staleSliceRun : List Action :=
  [.schedule 0 true, .chsched 0 1 0 50, .fork 0 true true, .tick 0, .tick 0, .tick 0,
    .sleep 0 (.addr 7), .schedule 0 true, .chsched 0 0 0 50, .tick 0, .tick 0]

/-- Under non-preemptive SJF, `timer_routine` still yields the child at its
third tick, because of the slice `get` gave it under CFS. -/
theorem stale_timeslice_preempts_sjf :
    (Machine.run step boot staleSliceRun).procSched.algorithm = 0 ∧
      (Machine.run step boot staleSliceRun).procSched.isPreemptive = 0 ∧
      (Machine.run step boot staleSliceRun).cpus 0 = some 1 ∧
      ((Machine.run step boot staleSliceRun).proc 1).timeslice = 3 ∧
      ((Machine.run step boot staleSliceRun).timerRoutine 1).2 = true ∧
      (Machine.run step boot (staleSliceRun ++ [.tick 0])).cpus 0 = none ∧
      ((Machine.run step boot (staleSliceRun ++ [.tick 0])).proc 1).state = .RUNNABLE := by
  decide +kernel

end Xv6
