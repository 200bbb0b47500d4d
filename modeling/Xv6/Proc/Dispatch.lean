import Xv6.Proc.Kernel

/-! Which process each CPU runs. In every reachable state a process on a CPU is
RUNNING and on no other CPU. The scheduler dispatches only a process it finds
RUNNABLE, and every path that takes a process off RUNNING (`yield`, `sleep`,
`exit`) ends in the scheduler's post-switch code, which clears `c->proc`; the
other callers of `put`, `wakeup` and `kill`, put only sleepers, so stale or
duplicate queue entries never reach a second CPU. -/
namespace Xv6
namespace Kernel

/-- Every process on a CPU is RUNNING, and on that CPU only. -/
def Dispatch (k : Kernel) : Prop :=
  ∀ c p, k.cpus c = some p → (k.proc p).state = .RUNNING ∧ ∀ c', k.cpus c' = some p → c' = c

/-- Every process RUNNING in `k` is still RUNNING in `k'`. -/
def KeepsRunning (k k' : Kernel) : Prop :=
  ∀ s, (k.proc s).state = .RUNNING → (k'.proc s).state = .RUNNING

theorem KeepsRunning.refl (k : Kernel) : KeepsRunning k k := fun _ running => running

theorem KeepsRunning.trans {k k1 k2 : Kernel} (first : KeepsRunning k k1) (second : KeepsRunning k1 k2) :
    KeepsRunning k k2 :=
  fun s running => second s (first s running)

theorem KeepsRunning.of_only {k k' : Kernel} {p : Slot} (notRunning : (k.proc p).state ≠ .RUNNING)
    (others : ∀ s, s ≠ p → k'.proc s = k.proc s) : KeepsRunning k k' := by
  intro s running
  have other : s ≠ p := by
    rintro rfl
    exact notRunning running
  rw [others s other]
  exact running

/-! ## Paths that touch no RUNNING process -/

theorem put_keepsRunning (k : Kernel) (p : Slot) (notRunning : (k.proc p).state ≠ .RUNNING) :
    KeepsRunning k (k.put p) :=
  KeepsRunning.of_only notRunning fun s other => by simp [other]

theorem wakeup_scan_keepsRunning (me : Option Slot) (chan : Chan) (slots : List Slot) (k : Kernel) :
    KeepsRunning k (slots.foldl (fun k p =>
      if some p ≠ me ∧ (k.proc p).state = .SLEEPING ∧ (k.proc p).chan = chan then k.put p else k) k) := by
  induction slots generalizing k with
  | nil => exact KeepsRunning.refl k
  | cons p rest ih =>
    rw [List.foldl_cons]
    refine KeepsRunning.trans ?_ (ih _)
    split
    · next woken => exact put_keepsRunning k p (by rw [woken.2.1]; decide)
    · exact KeepsRunning.refl k

theorem wakeup_keepsRunning (k : Kernel) (me : Option Slot) (chan : Chan) :
    KeepsRunning k (k.wakeup me chan) :=
  wakeup_scan_keepsRunning me chan _ k

theorem reparent_scan (p : Slot) (slots : List Slot) (k : Kernel) :
    KeepsRunning k (slots.foldl (fun k pp =>
      if (k.proc pp).parent = some p then
        (k.setProc pp { k.proc pp with parent := k.initproc }).wakeup (some p) (procChan k.initproc)
      else k) k) ∧
    (slots.foldl (fun k pp =>
      if (k.proc pp).parent = some p then
        (k.setProc pp { k.proc pp with parent := k.initproc }).wakeup (some p) (procChan k.initproc)
      else k) k).cpus = k.cpus := by
  induction slots generalizing k with
  | nil => exact ⟨KeepsRunning.refl k, rfl⟩
  | cons pp rest ih =>
    rw [List.foldl_cons]
    split
    · have adopted : KeepsRunning k (k.setProc pp { k.proc pp with parent := k.initproc }) := by
        intro s running
        by_cases same : s = pp
        · subst same; simpa using running
        · simpa [same] using running
      refine ⟨(adopted.trans (wakeup_keepsRunning _ _ _)).trans (ih _).1, ?_⟩
      rw [(ih _).2, wakeup_cpus, setProc_cpus]
    · exact ih k

theorem reparent_keepsRunning (k : Kernel) (p : Slot) : KeepsRunning k (k.reparent p) :=
  (reparent_scan p _ k).1

@[simp] theorem reparent_cpus (k : Kernel) (p : Slot) : (k.reparent p).cpus = k.cpus :=
  (reparent_scan p _ k).2

theorem get_proc_fields (k : Kernel) (s : Slot) :
    ∃ burst slice, k.get.1.proc s = { k.proc s with cpuBurst := burst, timeslice := slice } := by
  cases hk : k.procSched.heap with
  | nil => exact ⟨(k.proc s).cpuBurst, (k.proc s).timeslice, by simp [get_nil k hk]⟩
  | cons x rest =>
    rw [get_cons_proc k hk]
    by_cases same : s = x
    · subst same; exact ⟨0, (getProc k s rest).timeslice, by simp [getProc]⟩
    · exact ⟨(k.proc s).cpuBurst, (k.proc s).timeslice, by simp [same]⟩

theorem get_state (k : Kernel) (s : Slot) : (k.get.1.proc s).state = (k.proc s).state := by
  obtain ⟨burst, slice, fields⟩ := get_proc_fields k s
  rw [fields]

theorem unusedSlot_state {k : Kernel} {p : Slot} (found : k.unusedSlot = some p) :
    (k.proc p).state = .UNUSED := by
  simpa using List.find?_some found

theorem fork_keepsRunning (k : Kernel) (p : Slot) (ok copied : Bool) :
    KeepsRunning k (k.fork p ok copied).1 ∧ (k.fork p ok copied).1.cpus = k.cpus := by
  cases found : k.unusedSlot with
  | none => simp [fork, allocproc, found, KeepsRunning.refl]
  | some np =>
    have notRunning : (k.proc np).state ≠ .RUNNING := by rw [unusedSlot_state found]; decide
    refine ⟨KeepsRunning.of_only notRunning ?_, ?_⟩
    · intro s other
      cases ok <;> cases copied <;> simp [fork, allocproc, found, freeproc, other]
    · cases ok <;> cases copied <;> simp [fork, allocproc, found, freeproc]

theorem kill_keepsRunning (k : Kernel) (pid : Int) :
    KeepsRunning k (k.kill pid).1 ∧ (k.kill pid).1.cpus = k.cpus := by
  cases found : k.pidSlot pid with
  | none => simp [kill, found, KeepsRunning.refl]
  | some p =>
    have marked : KeepsRunning k (k.setProc p { k.proc p with killed := true }) := by
      intro s running
      by_cases same : s = p
      · subst same; simpa using running
      · simpa [same] using running
    by_cases asleep : (k.proc p).state = .SLEEPING
    · have woken : (k.kill pid).1 = (k.setProc p { k.proc p with killed := true }).put p := by
        simp [kill, found, asleep]
      rw [woken]
      exact ⟨marked.trans (put_keepsRunning _ p (by simp [asleep])), by simp⟩
    · have kept : (k.kill pid).1 = k.setProc p { k.proc p with killed := true } := by
        simp [kill, found, asleep]
      rw [kept]
      exact ⟨marked, by simp⟩

theorem timerRoutine_keepsRunning (k : Kernel) (p : Slot) : KeepsRunning k (k.timerRoutine p).1 := by
  intro s running
  by_cases same : s = p
  · subst same; simpa using running
  · simpa [same] using running

/-! ## The invariant along each path -/

theorem Dispatch.keep {k k' : Kernel} (d : Dispatch k) (cpus : k'.cpus = k.cpus)
    (keeps : KeepsRunning k k') : Dispatch k' := by
  intro c p on
  rw [cpus] at on
  obtain ⟨running, only⟩ := d c p on
  exact ⟨keeps p running, fun c' on' => only c' (by rwa [cpus] at on')⟩

/-- The scheduler's post-switch code on `c`, after a path of `p` that kept every
other RUNNING process RUNNING: `p` leaves its CPU, whatever its state now is. -/
theorem Dispatch.switchBack {k k' : Kernel} {c : CpuId} {p : Slot} (d : Dispatch k)
    (on : k.cpus c = some p) (cpus : k'.cpus = k.cpus)
    (keeps : ∀ s, s ≠ p → (k.proc s).state = .RUNNING → (k'.proc s).state = .RUNNING) :
    Dispatch (k'.switchBack c) := by
  have on' : k'.cpus c = some p := by rw [cpus]; exact on
  have released : (k'.switchBack c).cpus = Function.update k.cpus c none := by
    rw [switchBack_of_running on', ← cpus]
    split <;> simp
  have others : ∀ s, s ≠ p → (k'.switchBack c).proc s = k'.proc s := by
    intro s other
    rw [switchBack_of_running on']
    split <;> simp [other]
  have before : ∀ c' s, (k'.switchBack c).cpus c' = some s → c' ≠ c ∧ k.cpus c' = some s := by
    intro c' s on''
    have off : c' ≠ c := by
      rintro rfl
      simp [released] at on''
    rw [released, Function.update_of_ne off] at on''
    exact ⟨off, on''⟩
  intro c' s on''
  obtain ⟨off, was⟩ := before c' s on''
  obtain ⟨running, only⟩ := d c' s was
  have other : s ≠ p := by
    rintro rfl
    exact off (only c on).symm
  refine ⟨?_, fun c'' there => only c'' (before c'' s there).2⟩
  rw [others s other]
  exact keeps s other running

/-- The scheduler switches to `p`, which it found RUNNABLE, on the idle CPU `c`. -/
theorem Dispatch.dispatch {k : Kernel} {c : CpuId} {p : Slot} (d : Dispatch k) (idle : k.cpus c = none)
    (notRunning : (k.proc p).state ≠ .RUNNING) (chan : Chan) :
    Dispatch { k.setProc p { k.proc p with state := .RUNNING, chan := chan } with
      cpus := Function.update k.cpus c (some p) } := by
  have away : ∀ c', k.cpus c' ≠ some p := fun c' on => notRunning (d c' p on).1
  intro c' s on
  by_cases here : c' = c
  · subst here
    obtain rfl : p = s := by simpa using on
    refine ⟨by simp, fun c'' there => ?_⟩
    by_contra elsewhere
    simp only [Function.update_of_ne elsewhere] at there
    exact away c'' there
  · simp only [Function.update_of_ne here] at on
    obtain ⟨running, only⟩ := d c' s on
    have other : s ≠ p := by
      rintro rfl
      exact away c' on
    refine ⟨by simp [other, running], fun c'' there => ?_⟩
    by_cases at_c : c'' = c
    · subst at_c
      obtain rfl : p = s := by simpa using there
      exact absurd rfl other
    · simp only [Function.update_of_ne at_c] at there
      exact only c'' there

theorem Dispatch.yield {k : Kernel} {c : CpuId} {p : Slot} (d : Dispatch k) (on : k.cpus c = some p) :
    Dispatch (k.yield c p) :=
  d.switchBack on (by simp) fun s other running => by simp [other, running]

theorem Dispatch.sleep {k : Kernel} {c : CpuId} {p : Slot} (d : Dispatch k) (on : k.cpus c = some p)
    (chan : Chan) (ctx : Context) : Dispatch (k.sleep c p chan ctx) :=
  d.switchBack on (by simp) fun s other running => by simp [other, running]

theorem Dispatch.exit {k : Kernel} {c : CpuId} {p : Slot} (d : Dispatch k) (on : k.cpus c = some p)
    (status : Int) : Dispatch (k.exit c p status) := by
  unfold Kernel.exit
  split
  · exact d
  · have keeps := (reparent_keepsRunning k p).trans (wakeup_keepsRunning (k.reparent p) (some p)
      (procChan ((k.reparent p).proc p).parent))
    exact d.switchBack on (by simp) fun s other running => by simpa [other] using keeps s running

theorem Dispatch.waitScan {k : Kernel} {c : CpuId} {p : Slot} (d : Dispatch k) (on : k.cpus c = some p)
    (addr : Nat) (copied : Bool) : Dispatch (k.waitScan c p addr copied).1 := by
  unfold Kernel.waitScan
  split
  · next np found =>
    have zombie : (k.proc np).state = .ZOMBIE := by simpa using (List.find?_some found)
    split
    · exact d
    · have notRunning : (k.proc np).state ≠ .RUNNING := by rw [zombie]; decide
      refine d.keep (by simp [freeproc]) (KeepsRunning.of_only notRunning ?_)
      intro s other
      simp [freeproc, other]
  · split
    · exact d
    · exact d.sleep on _ _

theorem Dispatch.scheduler {k : Kernel} {c : CpuId} (d : Dispatch k) (idle : k.cpus c = none)
    (copied : Bool) : Dispatch (k.scheduler c copied) := by
  have popped : Dispatch k.get.1 := d.keep (get_cpus k) fun s running => by rw [get_state]; exact running
  have stillIdle : k.get.1.cpus c = none := by rw [get_cpus]; exact idle
  unfold Kernel.scheduler
  rcases got : k.get with ⟨k1, _ | p⟩
  · rw [got] at popped
    exact popped
  · rw [got] at popped stillIdle
    simp only []
    split
    · next ready =>
      have dispatched := popped.dispatch stillIdle (by rw [ready]; decide) (resumeChan (k1.proc p))
      split
      · exact dispatched.waitScan (by simp) _ _
      · exact dispatched
      · exact dispatched
      · exact dispatched
    · exact popped

theorem Dispatch.tick {k : Kernel} (d : Dispatch k) (c : CpuId) : Dispatch (k.tick c) := by
  have clocked : Dispatch (if c = 0 then ({ k with ticks := k.ticks + 1 } : Kernel).wakeup (k.cpus c) .ticks
      else k) := by
    split
    · exact d.keep (by simp) (wakeup_keepsRunning { k with ticks := k.ticks + 1 } _ _)
    · exact d
  unfold Kernel.tick
  generalize (if c = 0 then ({ k with ticks := k.ticks + 1 } : Kernel).wakeup (k.cpus c) .ticks else k) = k1
    at clocked ⊢
  simp only []
  split
  · exact clocked
  · next p on =>
    split
    · exact clocked.exit on _
    · rcases routine : k1.timerRoutine p with ⟨k2, _ | _⟩
      · simpa [routine] using clocked.keep (timerRoutine_cpus k1 p) (timerRoutine_keepsRunning k1 p)
      · have counted : Dispatch k2 := by
          simpa [routine] using clocked.keep (timerRoutine_cpus k1 p) (timerRoutine_keepsRunning k1 p)
        have on2 : k2.cpus c = some p := by
          have := timerRoutine_cpus k1 p
          rw [routine] at this
          rw [this, on]
        simpa [routine] using counted.yield on2

theorem Dispatch.usertrap {k : Kernel} {c : CpuId} {body : Slot → Kernel} (d : Dispatch k)
    (runs : ∀ p, k.cpus c = some p → Dispatch (body p)) : Dispatch (k.usertrap c body) := by
  unfold Kernel.usertrap
  split
  · exact d
  · next p on =>
    split
    · exact d.exit on _
    · exact runs p on

/-- Every command keeps the invariant. -/
theorem Dispatch.step {k : Kernel} (d : Dispatch k) (a : Action) : Dispatch (k.step a) := by
  cases a with
  | schedule c copied =>
    simp only [Kernel.step]
    split
    · next idle => exact d.scheduler idle copied
    · exact d
  | tick c => exact d.tick c
  | fork c ok copied =>
    exact d.usertrap fun p _ => d.keep (fork_keepsRunning k p ok copied).2 (fork_keepsRunning k p ok copied).1
  | exit c status => exact d.usertrap fun p on => d.exit on status
  | wait c addr copied => exact d.usertrap fun p on => d.waitScan on addr copied
  | kill c pid => exact d.usertrap fun _ _ => d.keep (kill_keepsRunning k pid).2 (kill_keepsRunning k pid).1
  | chsched c algo isPreemptive a =>
    exact d.usertrap fun _ _ => d.keep (by simp) fun s running => by simpa using running
  | sleep c chan => exact d.usertrap fun p on => d.sleep on chan .sleep
  | wakeup c chan => exact d.usertrap fun p _ => d.keep (by simp) (wakeup_keepsRunning k (some p) chan)

theorem dispatch_boot : Dispatch boot := by
  have idle : ∀ c, boot.cpus c = none := by decide +kernel
  intro c p on
  simp [idle c] at on

theorem dispatch_run (cmds : List Action) : Dispatch (Machine.run step boot cmds) :=
  Machine.run_invariant (fun _ a d => d.step a) dispatch_boot cmds

end Kernel
end Xv6
