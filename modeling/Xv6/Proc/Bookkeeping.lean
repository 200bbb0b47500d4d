import Xv6.Proc.Dispatch
import Xv6.Proc.Family

/-! The kernel refines the process tree of `Family`: read through `Kernel.family`,
every command is one step of `Family.Step`. Scheduling paths (`put`, `get`,
`wakeup`, `sleep`, `yield`, `kill`, `timer_routine`, `change_sched`) move a
process only between live states and leave the tree as it is; `fork` is a spawn
or a burn, `exit` an adoption and a zombie, and `wait` a reap. The guards of the
abstract steps come from the code and from `Dispatch`: the process that calls
`exit` or `wait` is on a CPU, hence RUNNING. -/
namespace Xv6

/-- What a state says about whether a slot holds a process. -/
def lifeOf : Procstate → Life
  | .UNUSED => .unused
  | .ZOMBIE => .zombie
  | .USED | .SLEEPING | .RUNNABLE | .RUNNING => .live

def Proc.kin (q : Proc) : Kin := ⟨lifeOf q.state, q.serial, q.pid, q.parent, q.xstate⟩

/-- The exits recorded in a history: serial, pid and status. -/
def exitsOf (history : List Event) : List (Nat × Int × Int) :=
  history.filterMap fun
    | .exited serial pid status => some (serial, pid, status)
    | _ => none

/-- The successful waits recorded in a history: serial, pid returned and status passed back. -/
def reapsOf (history : List Event) : List (Nat × Int × Int) :=
  history.filterMap fun
    | .reaped serial pid status => some (serial, pid, status)
    | _ => none

@[simp] theorem lifeOf_eq_unused (st : Procstate) : lifeOf st = .unused ↔ st = .UNUSED := by
  cases st <;> simp [lifeOf]

@[simp] theorem lifeOf_eq_zombie (st : Procstate) : lifeOf st = .zombie ↔ st = .ZOMBIE := by
  cases st <;> simp [lifeOf]

@[simp] theorem lifeOf_eq_live (st : Procstate) :
    lifeOf st = .live ↔ st ≠ .UNUSED ∧ st ≠ .ZOMBIE := by
  cases st <;> simp [lifeOf]

@[simp] theorem exitsOf_averaged (history : List Event) (p : Slot) (a burst : Int) :
    exitsOf (history ++ [.averaged p a burst]) = exitsOf history := by
  simp [exitsOf]

@[simp] theorem reapsOf_averaged (history : List Event) (p : Slot) (a burst : Int) :
    reapsOf (history ++ [.averaged p a burst]) = reapsOf history := by
  simp [reapsOf]

@[simp] theorem exitsOf_allocated (history : List Event) (p : Slot) :
    exitsOf (history ++ [.allocated p]) = exitsOf history := by
  simp [exitsOf]

@[simp] theorem reapsOf_allocated (history : List Event) (p : Slot) :
    reapsOf (history ++ [.allocated p]) = reapsOf history := by
  simp [reapsOf]

@[simp] theorem exitsOf_exited (history : List Event) (serial : Nat) (pid status : Int) :
    exitsOf (history ++ [.exited serial pid status]) = exitsOf history ++ [(serial, pid, status)] := by
  simp [exitsOf]

@[simp] theorem reapsOf_exited (history : List Event) (serial : Nat) (pid status : Int) :
    reapsOf (history ++ [.exited serial pid status]) = reapsOf history := by
  simp [reapsOf]

@[simp] theorem exitsOf_reaped (history : List Event) (serial : Nat) (pid status : Int) :
    exitsOf (history ++ [.reaped serial pid status]) = exitsOf history := by
  simp [exitsOf]

@[simp] theorem reapsOf_reaped (history : List Event) (serial : Nat) (pid status : Int) :
    reapsOf (history ++ [.reaped serial pid status]) = reapsOf history ++ [(serial, pid, status)] := by
  simp [reapsOf]

namespace Kernel

/-- The process tree of a kernel state. -/
def family (k : Kernel) : Family :=
  ⟨fun s => (k.proc s).kin, k.initproc, k.nextpid, k.allocations, exitsOf k.history, reapsOf k.history⟩

@[simp] theorem family_kin (k : Kernel) (s : Slot) : k.family.kin s = (k.proc s).kin := rfl
@[simp] theorem family_initproc (k : Kernel) : k.family.initproc = k.initproc := rfl
@[simp] theorem family_nextpid (k : Kernel) : k.family.nextpid = k.nextpid := rfl
@[simp] theorem family_allocations (k : Kernel) : k.family.allocations = k.allocations := rfl
@[simp] theorem family_exits (k : Kernel) : k.family.exits = exitsOf k.history := rfl
@[simp] theorem family_reaps (k : Kernel) : k.family.reaps = reapsOf k.history := rfl

theorem family_eq {k k' : Kernel} (kin : ∀ s, (k'.proc s).kin = (k.proc s).kin)
    (init : k'.initproc = k.initproc) (next : k'.nextpid = k.nextpid) (allocs : k'.allocations = k.allocations)
    (exits : exitsOf k'.history = exitsOf k.history) (reaps : reapsOf k'.history = reapsOf k.history) :
    k'.family = k.family :=
  Family.ext (funext kin) init next allocs exits reaps

/-! ## Scheduling paths keep the tree -/

theorem family_setProc (k : Kernel) (p : Slot) (q : Proc) (same : q.kin = (k.proc p).kin) :
    (k.setProc p q).family = k.family := by
  refine family_eq (fun s => ?_) rfl rfl rfl rfl rfl
  by_cases here : s = p
  · subst here; simpa using same
  · simp [here]

theorem family_put (k : Kernel) (p : Slot) (live : lifeOf (k.proc p).state = .live) :
    (k.put p).family = k.family := by
  refine family_eq (fun s => ?_) (by simp) (by simp) (by simp) ?_ ?_
  · by_cases here : s = p
    · subst here
      simp only [put_proc, Function.update_self, Proc.kin, putProc, live]
      rfl
    · simp [here]
  · rw [put_history]; split <;> simp
  · rw [put_history]; split <;> simp

theorem wakeup_scan_family (me : Option Slot) (chan : Chan) (slots : List Slot) (k : Kernel) :
    (slots.foldl (fun k p =>
      if some p ≠ me ∧ (k.proc p).state = .SLEEPING ∧ (k.proc p).chan = chan then k.put p else k)
      k).family = k.family := by
  induction slots generalizing k with
  | nil => rfl
  | cons p rest ih =>
    rw [List.foldl_cons, ih]
    split
    · next woken => exact family_put k p (by simp [woken.2.1])
    · rfl

theorem family_wakeup (k : Kernel) (me : Option Slot) (chan : Chan) :
    (k.wakeup me chan).family = k.family :=
  wakeup_scan_family me chan _ k

theorem family_get (k : Kernel) : k.get.1.family = k.family := by
  refine family_eq (fun s => ?_) (get_initproc k) (get_nextpid k) (get_allocations k) (by rw [get_history])
    (by rw [get_history])
  obtain ⟨burst, slice, fields⟩ := get_proc_fields k s
  rw [fields]
  rfl

theorem family_timerRoutine (k : Kernel) (p : Slot) : (k.timerRoutine p).1.family = k.family := by
  refine family_eq (fun s => ?_) rfl rfl rfl rfl rfl
  by_cases here : s = p
  · subst here; simp [Proc.kin]
  · simp [here]

theorem family_changeSched (k : Kernel) (algo isPreemptive a : Int) :
    (k.changeSched algo isPreemptive a).1.family = k.family :=
  family_eq (by simp) (by simp) (by simp) (by simp) (by simp) (by simp)

theorem family_switchBack (k : Kernel) (c : CpuId) : (k.switchBack c).family = k.family := by
  unfold switchBack
  split
  · rfl
  · next p on =>
    show (if (k.proc p).state = .RUNNABLE then k.put p else k).family = k.family
    split
    · next ready => exact family_put k p (by simp [ready])
    · rfl

theorem family_yield (k : Kernel) (c : CpuId) (p : Slot) (live : lifeOf (k.proc p).state = .live) :
    (k.yield c p).family = k.family := by
  have same : ({ (k.put p).proc p with context := .yield } : Proc).kin = ((k.put p).proc p).kin := rfl
  unfold yield
  rw [family_switchBack, family_setProc _ _ _ same, family_put k p live]

theorem family_sleep (k : Kernel) (c : CpuId) (p : Slot) (chan : Chan) (ctx : Context)
    (live : lifeOf (k.proc p).state = .live) : (k.sleep c p chan ctx).family = k.family := by
  unfold sleep
  rw [family_switchBack, family_setProc]
  simp only [Proc.kin, live]
  rfl

theorem family_kill (k : Kernel) (pid : Int) : (k.kill pid).1.family = k.family := by
  cases found : k.pidSlot pid with
  | none => simp [kill, found]
  | some p =>
    have marked : (k.setProc p { k.proc p with killed := true }).family = k.family :=
      family_setProc _ _ _ rfl
    by_cases asleep : (k.proc p).state = .SLEEPING
    · have woken : (k.kill pid).1 = (k.setProc p { k.proc p with killed := true }).put p := by
        simp [kill, found, asleep]
      rw [woken, family_put _ _ (by simp [asleep]), marked]
    · have kept : (k.kill pid).1 = k.setProc p { k.proc p with killed := true } := by
        simp [kill, found, asleep]
      rw [kept, marked]

/-! ## fork, exit and wait are the tree's own steps -/

/-- One iteration of `reparent`'s loop is one `adoptOne`. -/
theorem reparent_step_family (k : Kernel) (p x : Slot) :
    (if (k.proc x).parent = some p then
        (k.setProc x { k.proc x with parent := k.initproc }).wakeup (some p) (procChan k.initproc)
      else k).family = k.family.adoptOne p x := by
  unfold Family.adoptOne
  by_cases adopted : (k.proc x).parent = some p
  · rw [if_pos adopted, if_pos (show (k.family.kin x).parent = some p from adopted), family_wakeup]
    refine Family.ext (funext fun s => ?_) rfl rfl rfl rfl rfl
    by_cases here : s = x
    · subst here; simp [Proc.kin]
    · simp [here]
  · rw [if_neg adopted, if_neg (show ¬ (k.family.kin x).parent = some p from adopted)]

theorem family_reparent (k : Kernel) (p : Slot) : (k.reparent p).family = k.family.adopt p := by
  rw [← Family.adopt_eq_scan]
  exact (List.foldl_hom family fun k x => (reparent_step_family k p x).symm).symm

/-- `exit` by a process other than `initproc`: the children go to `initproc`,
and the caller becomes a zombie with its status logged. -/
theorem family_exit (k : Kernel) (c : CpuId) (p : Slot) (status : Int) (notInit : k.initproc ≠ some p) :
    (k.exit c p status).family = k.family.exit p status := by
  unfold Kernel.exit
  rw [if_neg notInit]
  simp only []
  rw [family_switchBack]
  generalize adopted : (k.reparent p).wakeup (some p) (procChan ((k.reparent p).proc p).parent) = k2
  have same : k2.family = k.family.adopt p := by rw [← adopted, family_wakeup, family_reparent]
  have kin2 : ∀ s, (k2.proc s).kin = (k.family.adopt p).kin s := fun s => congrFun (congrArg Family.kin same) s
  have serial2 : (k2.proc p).serial = (k.proc p).serial := by
    simpa [Proc.kin] using congrArg Kin.serial (kin2 p)
  have pid2 : (k2.proc p).pid = (k.proc p).pid := by simpa [Proc.kin] using congrArg Kin.pid (kin2 p)
  have init2 : k2.initproc = k.initproc := by simpa using congrArg Family.initproc same
  have next2 : k2.nextpid = k.nextpid := by simpa using congrArg Family.nextpid same
  have allocs2 : k2.allocations = k.allocations := by simpa using congrArg Family.allocations same
  have exits2 : exitsOf k2.history = exitsOf k.history := by simpa using congrArg Family.exits same
  have reaps2 : reapsOf k2.history = reapsOf k.history := by simpa using congrArg Family.reaps same
  refine Family.ext (funext fun s => ?_) (by simpa using init2) (by simpa using next2) (by simpa using allocs2)
    (by simp [exits2, serial2, pid2, Proc.kin]) (by simpa using reaps2)
  by_cases here : s = p
  · subst here
    simp only [family_kin, record_proc, setProc_proc, Function.update_self, Family.exit_kin_self, ← kin2]
    rfl
  · simp [here, ← kin2]

theorem exit_step (k : Kernel) (c : CpuId) (p : Slot) (status : Int) (live : lifeOf (k.proc p).state = .live) :
    Family.Step k.family (k.exit c p status).family := by
  by_cases init : k.initproc = some p
  · have stays : k.exit c p status = k := by simp [Kernel.exit, init]
    rw [stays]
    exact .stay _
  · rw [family_exit k c p status init]
    exact .exit _ p status live init

/-- The table once `allocproc` has claimed the free slot `np`: the next pid
and serial, state USED, the counters cleared, and the allocation recorded. -/
def allocated (k : Kernel) (np : Slot) : Kernel :=
  ({ k.setProc np { k.proc np with
      pid := k.nextpid, serial := k.allocations, state := .USED, cpuBurstAprox := 0, cpuBurst := 0,
      timeslice := 0, putTimestamp := 0, exeTime := 0, context := .forkret } with
    nextpid := pidSucc k.nextpid, allocations := k.allocations + 1 }).record (.allocated np)

theorem allocproc_some {k : Kernel} {np : Slot} (found : k.unusedSlot = some np) (ok : Bool) :
    k.allocproc ok = if ok then (k.allocated np, some np) else ((k.allocated np).freeproc np, none) := by
  simp only [allocproc, found]
  rfl

theorem fork_some {k : Kernel} {np : Slot} (found : k.unusedSlot = some np) (p : Slot) (ok copied : Bool) :
    (k.fork p ok copied).1 =
      if ok = true ∧ copied = true then
        ((k.allocated np).setProc np { (k.allocated np).proc np with parent := some p }).put np
      else (k.allocated np).freeproc np := by
  cases ok <;> cases copied <;> simp [fork, allocproc_some found]

theorem family_burnt (k : Kernel) (np : Slot) : ((k.allocated np).freeproc np).family = k.family.burn np := by
  refine Family.ext (funext fun s => ?_) rfl rfl rfl (by simp [allocated, freeproc]) (by simp [allocated, freeproc])
  by_cases here : s = np
  · subst here; simp [allocated, freeproc, Proc.kin, Proc.freed, lifeOf, Kin.free]
  · simp [allocated, freeproc, here]

theorem family_spawned (k : Kernel) (p np : Slot) :
    ((k.allocated np).setProc np { (k.allocated np).proc np with parent := some p }).family =
      k.family.spawn p np := by
  refine Family.ext (funext fun s => ?_) rfl rfl rfl (by simp [allocated]) (by simp [allocated])
  by_cases here : s = np
  · subst here; simp [allocated, Proc.kin, lifeOf]
  · simp [allocated, here]

theorem family_fork (k : Kernel) (p : Slot) (ok copied : Bool) (live : lifeOf (k.proc p).state = .live) :
    Family.Step k.family (k.fork p ok copied).1.family := by
  cases found : k.unusedSlot with
  | none =>
    have stays : (k.fork p ok copied).1 = k := by simp [fork, allocproc, found]
    rw [stays]
    exact .stay _
  | some np =>
    have unused : lifeOf (k.proc np).state = .unused := by simp [unusedSlot_state found]
    rw [fork_some found]
    split
    · have used : lifeOf (((k.allocated np).setProc np
          { (k.allocated np).proc np with parent := some p }).proc np).state = .live := by
        simp [allocated]
      rw [family_put _ _ used, family_spawned]
      exact .spawn _ p np unused live
    · rw [family_burnt]
      exact .burn _ np unused

theorem zombie_child {k : Kernel} {p np : Slot}
    (found : (k.children p).find? (fun np => (k.proc np).state = .ZOMBIE) = some np) :
    (k.proc np).parent = some p ∧ (k.proc np).state = .ZOMBIE := by
  have zombie : (k.proc np).state = .ZOMBIE := by simpa using List.find?_some found
  have member : np ∈ k.children p := List.mem_of_find?_eq_some found
  exact ⟨by simpa [children] using member, zombie⟩

theorem family_reaped (k : Kernel) (np : Slot) :
    ((k.freeproc np).record (.reaped (k.proc np).serial (k.proc np).pid (k.proc np).xstate)).family =
      k.family.reap np := by
  refine Family.ext (funext fun s => ?_) rfl rfl rfl (by simp [freeproc]) (by simp [freeproc, Proc.kin])
  by_cases here : s = np
  · subst here; simp [freeproc, Proc.kin, Proc.freed, lifeOf, Kin.free]
  · simp [freeproc, here]

theorem family_waitScan (k : Kernel) (c : CpuId) (p : Slot) (addr : Nat) (copied : Bool)
    (live : lifeOf (k.proc p).state = .live) : Family.Step k.family (k.waitScan c p addr copied).1.family := by
  unfold Kernel.waitScan
  split
  · next np found =>
    obtain ⟨child, zombie⟩ := zombie_child found
    split
    · exact .stay _
    · show Family.Step k.family
        ((k.freeproc np).record (.reaped (k.proc np).serial (k.proc np).pid (k.proc np).xstate)).family
      rw [family_reaped]
      exact .reap _ p np (by simp [Proc.kin, zombie, lifeOf]) (by simp [Proc.kin, child])
  · split
    · exact .stay _
    · rw [family_sleep _ _ _ _ _ live]
      exact .stay _

/-! ## Every command is a step of the tree -/

theorem family_scheduler {k : Kernel} {c : CpuId} (copied : Bool) :
    Family.Step k.family (k.scheduler c copied).family := by
  unfold Kernel.scheduler
  have popped := family_get k
  rcases got : k.get with ⟨k1, _ | p⟩
  · rw [got] at popped
    exact .of_eq popped
  · rw [got] at popped
    simp only []
    split
    · next ready =>
      have dispatched : ({ k1.setProc p { k1.proc p with state := .RUNNING, chan := resumeChan (k1.proc p) } with
          cpus := Function.update k1.cpus c (some p) } : Kernel).family = k.family := by
        rw [← popped]
        exact family_setProc _ _ _ (by simp [Proc.kin, ready, lifeOf])
      split
      · rw [← dispatched]
        exact family_waitScan _ c p _ copied (by simp [lifeOf])
      all_goals exact .of_eq dispatched
    · exact .of_eq popped

theorem Dispatch.live {k : Kernel} {c : CpuId} {p : Slot} (d : Dispatch k) (on : k.cpus c = some p) :
    lifeOf (k.proc p).state = .live := by
  simp [(d c p on).1]

theorem family_tick {k : Kernel} (d : Dispatch k) (c : CpuId) : Family.Step k.family (k.tick c).family := by
  have clocked : (if c = 0 then ({ k with ticks := k.ticks + 1 } : Kernel).wakeup (k.cpus c) .ticks
      else k).family = k.family := by
    split
    · exact family_wakeup { k with ticks := k.ticks + 1 } _ _
    · rfl
  have d1 : Dispatch (if c = 0 then ({ k with ticks := k.ticks + 1 } : Kernel).wakeup (k.cpus c) .ticks
      else k) := by
    split
    · exact d.keep (by simp) (wakeup_keepsRunning { k with ticks := k.ticks + 1 } _ _)
    · exact d
  unfold Kernel.tick
  generalize (if c = 0 then ({ k with ticks := k.ticks + 1 } : Kernel).wakeup (k.cpus c) .ticks else k) = k1
    at clocked d1 ⊢
  rw [← clocked]
  simp only []
  split
  · exact .stay _
  · next p on =>
    split
    · exact exit_step k1 c p (-1) (d1.live on)
    · have counted := family_timerRoutine k1 p
      have live : lifeOf ((k1.timerRoutine p).1.proc p).state = .live := by simpa using d1.live on
      rcases routine : k1.timerRoutine p with ⟨k2, _ | _⟩
      · rw [routine] at counted
        exact .of_eq counted
      · rw [routine] at counted live
        rw [← counted]
        exact .of_eq (family_yield k2 c p live)

theorem family_usertrap {k : Kernel} {c : CpuId} {body : Slot → Kernel} (d : Dispatch k)
    (runs : ∀ p, lifeOf (k.proc p).state = .live → Family.Step k.family (body p).family) :
    Family.Step k.family (k.usertrap c body).family := by
  unfold Kernel.usertrap
  split
  · exact .stay _
  · next p on =>
    split
    · exact exit_step k c p (-1) (d.live on)
    · exact runs p (d.live on)

/-- Read through `family`, every command from a state where `Dispatch` holds
is one step of the tree. -/
theorem family_step {k : Kernel} (d : Dispatch k) (a : Action) : Family.Step k.family (k.step a).family := by
  cases a with
  | schedule c copied =>
    simp only [Kernel.step]
    split
    · exact family_scheduler copied
    · exact .stay _
  | tick c => exact family_tick d c
  | fork c ok copied => exact family_usertrap d fun p live => family_fork k p ok copied live
  | exit c status => exact family_usertrap d fun p live => exit_step k c p status live
  | wait c addr copied => exact family_usertrap d fun p live => family_waitScan k c p addr copied live
  | kill c pid => exact family_usertrap d fun _ _ => .of_eq (family_kill k pid)
  | chsched c algo isPreemptive a =>
    exact family_usertrap d fun _ _ => .of_eq (family_changeSched k algo isPreemptive a)
  | sleep c chan => exact family_usertrap d fun p live => .of_eq (family_sleep k c p chan .sleep live)
  | wakeup c chan => exact family_usertrap d fun p _ => .of_eq (family_wakeup k (some p) chan)

theorem tree_boot : boot.family.Tree :=
  ⟨by decide +kernel, by decide +kernel, by decide +kernel, by decide +kernel, by decide +kernel,
    by decide +kernel, by decide +kernel, by decide +kernel, by decide +kernel, by decide +kernel,
    by decide +kernel, by decide +kernel, by decide +kernel, by decide +kernel, by decide +kernel,
    by decide +kernel, by decide +kernel⟩

theorem tree_run (cmds : List Action) :
    Dispatch (Machine.run step boot cmds) ∧ (Machine.run step boot cmds).family.Tree :=
  Machine.run_invariant (P := fun k => Dispatch k ∧ k.family.Tree)
    (fun _ a inv => ⟨inv.1.step a, inv.2.step (family_step inv.1 a)⟩) ⟨dispatch_boot, tree_boot⟩ cmds

/-- What one pass of `wait` returns: the pid of a zombie child, which it frees
and logs with its serial and status; or -1 when the caller has no children,
was killed, or the copy-out of the status failed, and then nothing changes. -/
theorem waitScan_returns (k : Kernel) (c : CpuId) (p : Slot) (addr : Nat) (copied : Bool) (r : Int)
    (returned : (k.waitScan c p addr copied).2 = some r) :
    (∃ np, (k.proc np).parent = some p ∧ (k.proc np).state = .ZOMBIE ∧ r = (k.proc np).pid ∧
        (k.waitScan c p addr copied).1 = (k.freeproc np).record (.reaped (k.proc np).serial r (k.proc np).xstate)) ∨
      (r = -1 ∧ (k.children p = [] ∨ (k.proc p).killed = true ∨
        ((∃ np, (k.proc np).parent = some p ∧ (k.proc np).state = .ZOMBIE) ∧ addr ≠ 0 ∧ copied = false ∧
          (k.waitScan c p addr copied).1 = k))) := by
  cases found : (k.children p).find? (fun np => (k.proc np).state = .ZOMBIE) with
  | some np =>
    obtain ⟨child, zombie⟩ := zombie_child found
    by_cases failed : addr ≠ 0 ∧ copied = false
    · have kept : k.waitScan c p addr copied = (k, some (-1)) := by simp [waitScan, found, failed]
      rw [kept] at returned ⊢
      obtain rfl : -1 = r := Option.some_inj.mp returned
      exact .inr ⟨rfl, .inr (.inr ⟨⟨np, child, zombie⟩, failed.1, failed.2, rfl⟩)⟩
    · have reaped : k.waitScan c p addr copied =
          ((k.freeproc np).record (.reaped (k.proc np).serial (k.proc np).pid (k.proc np).xstate),
            some (k.proc np).pid) := by
        simp only [waitScan, found, if_neg failed]
      rw [reaped] at returned ⊢
      obtain rfl : (k.proc np).pid = r := Option.some_inj.mp returned
      exact .inl ⟨np, child, zombie, rfl, rfl⟩
  | none =>
    by_cases gone : k.children p = [] ∨ (k.proc p).killed = true
    · have kept : k.waitScan c p addr copied = (k, some (-1)) := by simp only [waitScan, found, if_pos gone]
      rw [kept] at returned
      obtain rfl : -1 = r := Option.some_inj.mp returned
      exact .inr ⟨rfl, gone.elim .inl (fun killed => .inr (.inl killed))⟩
    · have slept : (k.waitScan c p addr copied).2 = none := by simp only [waitScan, found, if_neg gone]
      rw [slept] at returned
      cases returned

/-- `initproc` forks a child, which exits; `initproc` waits for it. -/
def reapRun : List Action :=
  [.schedule 0 true, .fork 0 true true, .wait 0 0 true, .schedule 0 true, .exit 0 7, .schedule 0 true]

/-- `initproc` on CPU 0 after `n` forks whose allocation failed: each spent a
pid and a serial and freed the slot again. -/
def burnt (n : Nat) : Kernel :=
  let k := Machine.run step boot [.schedule 0 true]
  { k with nextpid := ((n : Int) + 2).toInt32.toInt, allocations := n + 1,
           history := k.history ++ List.replicate n (.allocated 1) }

theorem pidSucc_wrap (m : Int) : pidSucc m.toInt32.toInt = (m + 1).toInt32.toInt := by
  simp only [pidSucc, Int.toInt32, Int32.ofInt_toInt, Int32.ofInt_add]
  rfl

theorem burnt_fork (n : Nat) : (burnt n).step (.fork 0 false true) = burnt (n + 1) := by
  have found : (burnt n).unusedSlot = some 1 := by
    show (List.finRange NPROC).find? (fun p => ((Machine.run step boot [.schedule 0 true]).proc p).state = .UNUSED) =
      some 1
    decide +kernel
  have on : (burnt n).cpus 0 = some 0 := by
    show (Machine.run step boot [.schedule 0 true]).cpus 0 = some 0
    decide +kernel
  have alive : ((burnt n).proc 0).killed = false := by
    show ((Machine.run step boot [.schedule 0 true]).proc 0).killed = false
    decide +kernel
  have fresh : (boot.step (.schedule 0 true)).proc 1 = Proc.zero := rfl
  simp only [step, usertrap, on, alive, fork, allocproc_some found]
  simp only [Bool.false_eq_true, if_false, allocated, freeproc, setProc, record, burnt]
  congr 1
  · funext s
    by_cases here : s = 1
    · subst here
      simp only [Function.update_self, Machine.run_cons, Machine.run_nil, fresh]
      rfl
    · simp [here]
  · rw [pidSucc_wrap]
    congr 2
  · rw [List.append_assoc, ← List.replicate_succ']

theorem run_burnt (n : Nat) :
    Machine.run step boot ([.schedule 0 true] ++ List.replicate n (.fork 0 false true)) = burnt n := by
  induction n with
  | zero => rfl
  | succ n ih =>
    rw [List.replicate_succ', ← List.append_assoc, Machine.run_concat, ih, burnt_fork]

/-- After 2^32 - 3 such forks `nextpid` has wrapped to -1. `initproc` forks a
child, which gets pid -1, and sleeps; the child exits; a tick wakes
`initproc`, and the scheduler resumes it. -/
def pidWrapped : Kernel :=
  Machine.run step (burnt 4294967293)
    [.fork 0 true true, .sleep 0 .ticks, .schedule 0 true, .exit 0 7, .tick 0, .schedule 0 true]

end Kernel

end Xv6
