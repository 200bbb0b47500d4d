import Xv6.Proc.Handoff

/-! No lost wakeup through the `put`-based `wakeup`. A waiter holds `lk`, tests
a condition and calls `sleep(chan, lk)` while it is false; a signaler, holding
`lk`, makes the condition true and then calls `wakeup(chan)`, or `kill` on the
waiter's pid. In any interleaving of the CPUs' steps, once the signaler's call
has returned the waiter is not SLEEPING. `sleep` takes the waiter's `p->lock`
before it releases `lk`, and the lock passes through `sched()` and `swtch` to
the scheduler, which frees it only after the switch; the signaler made the
condition true under `lk`, so either the waiter saw it, or the waiter had
committed to sleeping, and then the `acquire` in `wakeup` or `kill` waits until
the waiter is SLEEPING, and `put` makes it RUNNABLE. `wakeup` skips the caller,
and `put` does not take a lock its caller holds. -/
namespace Xv6

namespace Kernel

/-- `k'` keeps every pid, and a process SLEEPING in `k'` slept in `k`, on the
same channel. -/
def KeepsSleepers (k k' : Kernel) : Prop :=
  ∀ q, (k'.proc q).pid = (k.proc q).pid ∧
    ((k'.proc q).state = .SLEEPING → (k.proc q).state = .SLEEPING ∧ (k'.proc q).chan = (k.proc q).chan)

theorem KeepsSleepers.refl (k : Kernel) : k.KeepsSleepers k := fun _ => ⟨rfl, fun asleep => ⟨asleep, rfl⟩⟩

theorem KeepsSleepers.trans {k₁ k₂ k₃ : Kernel} (first : k₁.KeepsSleepers k₂) (second : k₂.KeepsSleepers k₃) :
    k₁.KeepsSleepers k₃ := by
  intro q
  obtain ⟨pid₂, sleeps₂⟩ := first q
  obtain ⟨pid₃, sleeps₃⟩ := second q
  refine ⟨pid₃.trans pid₂, fun asleep => ?_⟩
  obtain ⟨asleep₂, chan₃⟩ := sleeps₃ asleep
  obtain ⟨asleep₁, chan₂⟩ := sleeps₂ asleep₂
  exact ⟨asleep₁, chan₃.trans chan₂⟩

theorem keepsSleepers_setProc (k : Kernel) (q : Slot) (x : Proc) (pid : x.pid = (k.proc q).pid)
    (sleeps : x.state = .SLEEPING → (k.proc q).state = .SLEEPING ∧ x.chan = (k.proc q).chan) :
    k.KeepsSleepers (k.setProc q x) := by
  intro r
  by_cases same : r = q
  · subst same
    simpa using ⟨pid, sleeps⟩
  · simp [same]

theorem keepsSleepers_put (k : Kernel) (q : Slot) : k.KeepsSleepers (k.put q) := by
  rw [put_eq]
  intro r
  by_cases same : r = q
  · subst same
    unfold putUpdate
    split <;> simp [putProc]
  · unfold putUpdate
    split <;> simp [same]

theorem keepsSleepers_wake (k : Kernel) (q : Slot) (wakes : Prop) [Decidable wakes] :
    k.KeepsSleepers (if wakes then k.put q else k) := by
  split
  · exact keepsSleepers_put k q
  · exact .refl k

theorem keepsSleepers_kill (k : Kernel) (q : Slot) :
    k.KeepsSleepers (k.setProc q { k.proc q with killed := true }) :=
  keepsSleepers_setProc k q _ rfl (fun asleep => ⟨asleep, rfl⟩)

@[simp] theorem putProc_state (k : Kernel) (q : Slot) : (putProc k q).state = .RUNNABLE := rfl

theorem keepsSleepers_get (k : Kernel) : k.KeepsSleepers k.get.1 := by
  intro q
  obtain ⟨burst, slice, fields⟩ := get_proc_fields k q
  rw [fields]
  exact ⟨rfl, fun asleep => ⟨asleep, rfl⟩⟩

theorem keepsSleepers_switchBack (k : Kernel) (c : CpuId) : k.KeepsSleepers (k.switchBack c) := by
  unfold switchBack
  split
  · exact .refl k
  · split
    · exact keepsSleepers_put k _
    · exact .refl k

end Kernel

/-- The point of `wakeup`'s or `kill`'s loop at `proc[q]`. -/
def Instr.scan : Instr → Nat → Point
  | .wakeup chan, q => .wakeup chan q
  | .kill pid, q => .kill pid q
  | _, _ => .next

/-- The point of `wakeup` or `kill` holding `proc[q].lock`. -/
def Instr.scanLocked : Instr → Slot → Point
  | .wakeup chan, q => .wakeupLocked chan q
  | .kill pid, q => .killLocked pid q
  | _, _ => .next

namespace Smp

/-- The waiter: `acquire(lk); while (!cond) sleep(chan, lk); release(lk)`. -/
def waiter (chan : Chan) : List Instr := [.acquire, .await chan, .release]

/-- The signaler: `acquire(lk); cond = 1;`, then `call`, `wakeup(chan)` or
`kill(pid)`, and `release(lk)`. -/
def signaler (call : Instr) : List Instr := [.acquire, .signal, call, .release]

/-- `a` waits, `b` signals, and every other process does nothing. -/
def pair (a b : Slot) (chan : Chan) (call : Instr) (q : Slot) : List Instr :=
  if q = a then waiter chan else if q = b then signaler call else []

/-- How far the waiter is through its code. -/
inductive Wait where
  | start | fetch | acquire | locked | test | sleep | sleepLocked | sleepUnlocked | slept | relock
  | woken | release | done
  deriving DecidableEq, Repr

def Wait.pc (chan : Chan) : Wait → Point
  | .start => .forkret
  | .fetch | .locked | .woken | .done => .next
  | .acquire => .acquire
  | .test => .test chan
  | .sleep => .sleep chan true
  | .sleepLocked => .sleepLocked chan true
  | .sleepUnlocked => .sleepUnlocked chan true
  | .slept => .slept chan true
  | .relock => .relock chan true
  | .release => .release

def Wait.code (chan : Chan) : Wait → List Instr
  | .start | .fetch => waiter chan
  | .acquire | .locked => [.await chan, .release]
  | .test | .sleep | .sleepLocked | .sleepUnlocked | .slept | .relock | .woken => [.release]
  | .release | .done => []

/-- From its `acquire` to its test, and on into `sleep` until `sleep` releases
it, the waiter holds `lk`. -/
def Wait.holdsLk : Wait → Prop
  | .locked | .test | .sleep | .sleepLocked => True
  | _ => False

/-- Committed to sleeping: the test found the condition false. -/
def Wait.committed : Wait → Prop
  | .sleep | .sleepLocked => True
  | _ => False

/-- Past `release(lk)` in `sleep` and not yet woken. -/
def Wait.asleep (w : Wait) (state : Procstate) : Prop :=
  w = .sleepUnlocked ∨ (w = .slept ∧ state = .SLEEPING)

theorem Wait.asleep_of_keeps {k k' : Kernel} (keeps : k.KeepsSleepers k') {w : Wait} {q : Slot}
    (asleep : w.asleep (k'.proc q).state) : w.asleep (k.proc q).state :=
  asleep.imp id fun ⟨there, sleeping⟩ => ⟨there, ((keeps q).2 sleeping).1⟩

/-- How far the signaler is through its code. -/
inductive Signal where
  | start | fetch | acquire | locked | signal | signaled | scan (q : Nat) | scanLocked (q : Slot)
  | returned | release | done
  deriving DecidableEq, Repr

def Signal.pc (call : Instr) : Signal → Point
  | .start => .forkret
  | .fetch | .locked | .signaled | .returned | .done => .next
  | .acquire => .acquire
  | .signal => .signal
  | .scan q => call.scan q
  | .scanLocked q => call.scanLocked q
  | .release => .release

def Signal.code (call : Instr) : Signal → List Instr
  | .start | .fetch => signaler call
  | .acquire | .locked => [.signal, call, .release]
  | .signal | .signaled => [call, .release]
  | .scan _ | .scanLocked _ | .returned => [.release]
  | .release | .done => []

def Signal.holdsLk : Signal → Prop
  | .locked | .signal => True
  | _ => False

/-- Past `cond = 1`. -/
def Signal.past : Signal → Prop
  | .start | .fetch | .acquire | .locked | .signal => False
  | _ => True

/-- The call is still to reach `proc[a]`. -/
def Signal.before (a : Slot) : Signal → Prop
  | .signaled => True
  | .scan q => q ≤ a.val
  | .scanLocked q => q.val ≤ a.val
  | _ => False

/-- Why the waiter `a` is not left SLEEPING, for the signaler `b`. -/
structure Wakeup (a b : Slot) (chan : Chan) (call : Instr) (s : Smp) (w : Wait) (σ : Signal) : Prop where
  pcA : s.pc a = w.pc chan
  codeA : s.code a = w.code chan
  pcB : s.pc b = σ.pc call
  codeB : s.code b = σ.code call
  idle : ∀ q, q ≠ a → q ≠ b → s.code q = [] ∧ (s.pc q = .forkret ∨ s.pc q = .next)
  lkA : w.holdsLk → ∃ c, s.loop c = .running a ∧ s.lk = some c
  lkB : σ.holdsLk → ∃ c, s.loop c = .running b ∧ s.lk = some c
  /-- Between its `release(lk)` and its `sched()`, the waiter runs. -/
  unlocked : w = .sleepUnlocked → ∃ c, s.loop c = .running a
  signaled : σ.past → s.cond = true
  committed : w.committed → s.cond = false
  sleeping : (s.k.proc a).state = .SLEEPING → w = .slept ∧ (s.k.proc a).chan = chan
  pending : w.asleep (s.k.proc a).state → s.cond = true → σ.before a
  pids : ∀ pid, call = .kill pid → (s.k.proc a).pid = pid ∧ ∀ q, (s.k.proc q).pid = pid → q = a

variable {a b : Slot} {chan : Chan} {call : Instr} {s : Smp} {w : Wait} {σ : Signal} {c : CpuId}

theorem Wakeup.exclusive (inv : Wakeup a b chan call s w σ) (distinct : a ≠ b) (waiting : w.holdsLk)
    (signaling : σ.holdsLk) : False := by
  obtain ⟨d, onA, heldA⟩ := inv.lkA waiting
  obtain ⟨e, onB, heldB⟩ := inv.lkB signaling
  obtain rfl : d = e := Option.some.inj (heldA.symm.trans heldB)
  exact distinct (by simpa [onA] using onB)

/-! ## What each kind of step keeps -/

theorem Wakeup.codeA_same (inv : Wakeup a b chan call s w σ) {w' : Wait} (same : w'.code chan = w.code chan) :
    s.code = Function.update s.code a (w'.code chan) := by
  rw [same, ← inv.codeA, Function.update_eq_self]

theorem Wakeup.codeB_same (inv : Wakeup a b chan call s w σ) {σ' : Signal}
    (same : σ'.code call = σ.code call) : s.code = Function.update s.code b (σ'.code call) := by
  rw [same, ← inv.codeB, Function.update_eq_self]

/-- A step that moves neither the waiter nor the signaler, nor `lk` nor the
condition: a scheduler's step, or one of a process with nothing to do. -/
theorem Wakeup.unmoved (inv : Wakeup a b chan call s w σ) {s' : Smp}
    (keeps : s.k.KeepsSleepers s'.k) (runsA : ∀ d, s.loop d = .running a → s'.loop d = .running a)
    (runsB : ∀ d, s.loop d = .running b → s'.loop d = .running b) (pcA : s'.pc a = s.pc a)
    (pcB : s'.pc b = s.pc b) (idle : ∀ q, q ≠ a → q ≠ b → s'.pc q = .forkret ∨ s'.pc q = .next)
    (codes : s'.code = s.code) (lk : s'.lk = s.lk) (cond : s'.cond = s.cond) :
    Wakeup a b chan call s' w σ := by
  have sleeps : ∀ q, (s'.k.proc q).state = .SLEEPING →
      (s.k.proc q).state = .SLEEPING ∧ (s'.k.proc q).chan = (s.k.proc q).chan := fun q => (keeps q).2
  refine ⟨pcA.trans inv.pcA, codes ▸ inv.codeA, pcB.trans inv.pcB, codes ▸ inv.codeB,
    fun q otherA otherB => ⟨codes ▸ (inv.idle q otherA otherB).1, idle q otherA otherB⟩, fun holds => ?_,
    fun holds => ?_, fun unlocked => ?_, fun past => cond ▸ inv.signaled past,
    fun committed => cond ▸ inv.committed committed, fun asleep => ?_, fun asleep signaled => ?_,
    fun pid killing => ?_⟩
  · obtain ⟨d, on, held⟩ := inv.lkA holds
    exact ⟨d, runsA d on, lk ▸ held⟩
  · obtain ⟨d, on, held⟩ := inv.lkB holds
    exact ⟨d, runsB d on, lk ▸ held⟩
  · obtain ⟨d, on⟩ := inv.unlocked unlocked
    exact ⟨d, runsA d on⟩
  · obtain ⟨before, chan'⟩ := sleeps a asleep
    obtain ⟨slept, waiting⟩ := inv.sleeping before
    exact ⟨slept, chan'.trans waiting⟩
  · refine inv.pending ?_ (cond ▸ signaled)
    rcases asleep with unlocked | ⟨slept, asleep⟩
    · exact .inl unlocked
    · exact .inr ⟨slept, (sleeps a asleep).1⟩
  · obtain ⟨mine, only⟩ := inv.pids pid killing
    exact ⟨(keeps a).1.trans mine, fun q same => only q ((keeps q).1.symm.trans same)⟩

/-- A step of the waiter on `c`, which takes `lk` only when it is free and
releases it only from `c`; it leaves the signaler where it is. -/
theorem Wakeup.waiterStep (inv : Wakeup a b chan call s w σ) (distinct : a ≠ b)
    (on : s.loop c = .running a) {s' : Smp} {w' : Wait}
    (pcs : s'.pc = Function.update s.pc a (w'.pc chan))
    (codes : s'.code = Function.update s.code a (w'.code chan)) (loops : ∀ d, d ≠ c → s'.loop d = s.loop d)
    (lk : s'.lk = s.lk ∨ s.lk = none ∨ (s.lk = some c ∧ s'.lk = none)) (cond : s'.cond = s.cond)
    (pids : ∀ q, (s'.k.proc q).pid = (s.k.proc q).pid)
    (lkA : w'.holdsLk → ∃ d, s'.loop d = .running a ∧ s'.lk = some d)
    (unlocked : w' = .sleepUnlocked → ∃ d, s'.loop d = .running a)
    (committed : w'.committed → s'.cond = false)
    (sleeping : (s'.k.proc a).state = .SLEEPING → w' = .slept ∧ (s'.k.proc a).chan = chan)
    (pending : w'.asleep (s'.k.proc a).state → s'.cond = true → σ.before a) :
    Wakeup a b chan call s' w' σ := by
  have frame : ∀ q, q ≠ a → s'.pc q = s.pc q ∧ s'.code q = s.code q := fun q other => by
    simp [pcs, codes, other]
  have otherB := Ne.symm distinct
  refine ⟨by simp [pcs], by simp [codes], (frame b otherB).1.trans inv.pcB, (frame b otherB).2.trans inv.codeB,
    fun q otherA otherB => ?_, lkA, fun holds => ?_, unlocked, fun past => cond ▸ inv.signaled past,
    committed, sleeping, pending, fun pid killing => ?_⟩
  · rw [(frame q otherA).1, (frame q otherA).2]
    exact inv.idle q otherA otherB
  · obtain ⟨d, onB, held⟩ := inv.lkB holds
    have other : d ≠ c := by
      rintro rfl
      exact distinct (by simpa [on] using onB)
    refine ⟨d, by rw [loops d other]; exact onB, ?_⟩
    rcases lk with same | free | ⟨mine, _⟩
    · exact same ▸ held
    · simp [free] at held
    · exact absurd (Option.some.inj (held.symm.trans mine)) other
  · obtain ⟨mine, only⟩ := inv.pids pid killing
    exact ⟨(pids a).trans mine, fun q same => only q ((pids q).symm.trans same)⟩

/-- A step of the waiter that leaves it RUNNING, short of `sleep`'s `release(lk)`. -/
theorem Wakeup.waiterRuns (inv : Wakeup a b chan call s w σ) (handoff : Handoff s) (distinct : a ≠ b)
    (on : s.loop c = .running a) {s' : Smp} {w' : Wait}
    (pcs : s'.pc = Function.update s.pc a (w'.pc chan))
    (codes : s'.code = Function.update s.code a (w'.code chan)) (loops : ∀ d, d ≠ c → s'.loop d = s.loop d)
    (lk : s'.lk = s.lk ∨ s.lk = none ∨ (s.lk = some c ∧ s'.lk = none)) (cond : s'.cond = s.cond)
    (k : s'.k = s.k) (lkA : w'.holdsLk → ∃ d, s'.loop d = .running a ∧ s'.lk = some d)
    (committed : w'.committed → s'.cond = false) (awake : w' ≠ .sleepUnlocked) :
    Wakeup a b chan call s' w' σ := by
  have running : (s'.k.proc a).state = .RUNNING := by
    rw [k]
    exact handoff.running c a on
  refine inv.waiterStep distinct on pcs codes loops lk cond (fun q => by rw [k]) lkA
    (fun unlocked => absurd unlocked awake) committed (fun asleep => ?_) (fun asleep => ?_)
  · exact absurd (asleep.symm.trans running) (by decide)
  · rcases asleep with unlocked | ⟨_, asleep⟩
    · exact absurd unlocked awake
    · exact absurd (asleep.symm.trans running) (by decide)

/-- A step of the waiter that moves only the waiter. -/
theorem Wakeup.waiterMoves (inv : Wakeup a b chan call s w σ) (handoff : Handoff s) (distinct : a ≠ b)
    (on : s.loop c = .running a) {s' : Smp} {w' : Wait}
    (pcs : s'.pc = Function.update s.pc a (w'.pc chan))
    (codes : s'.code = Function.update s.code a (w'.code chan)) (k : s'.k = s.k) (loop : s'.loop = s.loop)
    (lk : s'.lk = s.lk) (cond : s'.cond = s.cond) (holds : w'.holdsLk → w.holdsLk)
    (commits : w'.committed → w.committed ∨ s.cond = false) (awake : w' ≠ .sleepUnlocked) :
    Wakeup a b chan call s' w' σ := by
  refine inv.waiterRuns handoff distinct on pcs codes (fun d _ => by rw [loop]) (.inl lk) cond k
    (fun holding => ?_) (fun committing => ?_) awake
  · obtain ⟨d, onA, held⟩ := inv.lkA (holds holding)
    exact ⟨d, by rw [loop]; exact onA, by rw [lk]; exact held⟩
  · rw [cond]
    rcases commits committing with was | unset
    · exact inv.committed was
    · exact unset

/-- A step of the signaler on `c`, which takes `lk` only when it is free,
releases it only from `c`, and makes no process SLEEPING; it leaves the waiter
where it is. The condition changes only at `cond = 1`, where the signaler holds `lk`. -/
theorem Wakeup.signalerStep (inv : Wakeup a b chan call s w σ) (distinct : a ≠ b)
    (on : s.loop c = .running b) {s' : Smp} {σ' : Signal}
    (pcs : s'.pc = Function.update s.pc b (σ'.pc call))
    (codes : s'.code = Function.update s.code b (σ'.code call)) (loops : ∀ d, d ≠ c → s'.loop d = s.loop d)
    (lk : s'.lk = s.lk ∨ s.lk = none ∨ (s.lk = some c ∧ s'.lk = none))
    (cond : s'.cond = s.cond ∨ σ = .signal) (keeps : s.k.KeepsSleepers s'.k)
    (lkB : σ'.holdsLk → ∃ d, s'.loop d = .running b ∧ s'.lk = some d)
    (signaled : σ'.past → s'.cond = true)
    (pending : w.asleep (s'.k.proc a).state → s'.cond = true → σ'.before a) :
    Wakeup a b chan call s' w σ' := by
  have frame : ∀ q, q ≠ b → s'.pc q = s.pc q ∧ s'.code q = s.code q := fun q other => by
    simp [pcs, codes, other]
  have runsA : ∀ d, s.loop d = .running a → s'.loop d = .running a := fun d onA => by
    have other : d ≠ c := by
      rintro rfl
      exact distinct (by simpa [on] using onA.symm)
    rw [loops d other]
    exact onA
  refine ⟨(frame a distinct).1.trans inv.pcA, (frame a distinct).2.trans inv.codeA, by simp [pcs],
    by simp [codes], fun q otherA otherB => ?_, fun holds => ?_, lkB, fun unlocked => ?_, signaled,
    fun committed => ?_, fun asleep => ?_, pending, fun pid killing => ?_⟩
  · rw [(frame q otherB).1, (frame q otherB).2]
    exact inv.idle q otherA otherB
  · obtain ⟨d, onA, held⟩ := inv.lkA holds
    refine ⟨d, runsA d onA, ?_⟩
    rcases lk with same | free | ⟨mine, _⟩
    · exact same ▸ held
    · simp [free] at held
    · obtain rfl : d = c := Option.some.inj (held.symm.trans mine)
      exact absurd (by simpa [on] using onA.symm) distinct
  · obtain ⟨d, onA⟩ := inv.unlocked unlocked
    exact ⟨d, runsA d onA⟩
  · rcases cond with same | signal
    · exact same ▸ inv.committed committed
    · have holds : w.holdsLk := by
        cases w <;> simp_all [Wait.committed, Wait.holdsLk]
      exact (inv.exclusive distinct holds (by rw [signal]; trivial)).elim
  · obtain ⟨before, chan'⟩ := (keeps a).2 asleep
    obtain ⟨slept, waiting⟩ := inv.sleeping before
    exact ⟨slept, chan'.trans waiting⟩
  · obtain ⟨mine, only⟩ := inv.pids pid killing
    exact ⟨(keeps a).1.trans mine, fun q same => only q ((keeps q).1.symm.trans same)⟩

/-- A step of the signaler that moves only the signaler. -/
theorem Wakeup.signalerMoves (inv : Wakeup a b chan call s w σ) (distinct : a ≠ b)
    (on : s.loop c = .running b) {s' : Smp} {σ' : Signal}
    (pcs : s'.pc = Function.update s.pc b (σ'.pc call))
    (codes : s'.code = Function.update s.code b (σ'.code call)) (k : s'.k = s.k) (loop : s'.loop = s.loop)
    (lk : s'.lk = s.lk) (cond : s'.cond = s.cond) (holds : σ'.holdsLk → σ.holdsLk) (past : σ'.past → σ.past)
    (before : w.asleep (s.k.proc a).state → σ.before a → σ'.before a) : Wakeup a b chan call s' w σ' := by
  refine inv.signalerStep distinct on pcs codes (fun d _ => by rw [loop]) (.inl lk) (.inl cond)
    (k ▸ .refl _) (fun holding => ?_) (fun passed => ?_) (fun asleep signaled => ?_)
  · obtain ⟨d, onB, held⟩ := inv.lkB (holds holding)
    exact ⟨d, by rw [loop]; exact onB, by rw [lk]; exact held⟩
  · rw [cond]
    exact inv.signaled (past passed)
  · rw [k] at asleep
    exact before asleep (inv.pending asleep (cond ▸ signaled))

theorem Wakeup.not_unlocked (inv : Wakeup a b chan call s w σ) (handoff : Handoff s) (distinct : a ≠ b)
    (on : s.loop c = .running b) (holding : (s.pc b).held b = some a) (unlocked : w = .sleepUnlocked) :
    False := by
  obtain ⟨d, onA⟩ := inv.unlocked unlocked
  have heldA : s.holds d = some a := by
    rw [holds_running onA, inv.pcA, unlocked]
    rfl
  have heldB : s.holds c = some a := by rw [holds_running on, holding]
  obtain rfl : d = c := handoff.owned.unique heldA heldB
  exact distinct (by simpa [on] using onA.symm)

/-- The signaler's `put` of `proc[a]`, holding its lock, leaves the waiter not
asleep: it was not between `release(lk)` and `sched()`, and if it was SLEEPING,
on `chan`, it is now RUNNABLE. -/
theorem Wakeup.woken (inv : Wakeup a b chan call s w σ) (handoff : Handoff s) (distinct : a ≠ b)
    (on : s.loop c = .running b) (holding : (s.pc b).held b = some a) {k : Kernel}
    (puts : (s.k.proc a).state = .SLEEPING → (k.proc a).state = .RUNNABLE)
    (keeps : (s.k.proc a).state ≠ .SLEEPING → (k.proc a).state = (s.k.proc a).state) :
    ¬ w.asleep (k.proc a).state := by
  rintro (unlocked | ⟨_, asleep⟩)
  · exact inv.not_unlocked handoff distinct on holding unlocked
  · by_cases before : (s.k.proc a).state = .SLEEPING
    · rw [puts before] at asleep
      exact absurd asleep (by decide)
    · exact before ((keeps before).symm.trans asleep)

/-! ## Every step -/

/-- A scheduler's step away from any process moves no thread, and neither `lk`
nor the condition, and makes nobody SLEEPING. -/
theorem step_of_not_running (notRunning : ∀ p, s.loop c ≠ .running p) :
    (s.step c).pc = s.pc ∧ (s.step c).code = s.code ∧ (s.step c).lk = s.lk ∧ (s.step c).cond = s.cond ∧
      s.k.KeepsSleepers (s.step c).k ∧ ∀ d, d ≠ c → (s.step c).loop d = s.loop d := by
  have others : ∀ (l : Loop) d, d ≠ c → Function.update s.loop c l d = s.loop d :=
    fun l d other => Function.update_of_ne other _ _
  unfold Smp.step
  split
  · have kept := Kernel.keepsSleepers_get s.k
    split
    · next k got =>
      rw [got] at kept
      exact ⟨rfl, rfl, rfl, rfl, kept, fun _ _ => rfl⟩
    · next k p got =>
      rw [got] at kept
      exact ⟨rfl, rfl, rfl, rfl, kept, fun d other => others _ d other⟩
  · split
    · exact ⟨rfl, rfl, rfl, rfl, .refl _, fun d other => others _ d other⟩
    · exact ⟨rfl, rfl, rfl, rfl, .refl _, fun _ _ => rfl⟩
  · next p _ =>
    split
    · refine ⟨rfl, rfl, rfl, rfl, ?_, fun d other => others _ d other⟩
      exact Kernel.keepsSleepers_setProc s.k p { s.k.proc p with state := .RUNNING } rfl
        (fun running => by simp at running)
    · exact ⟨rfl, rfl, rfl, rfl, .refl _, fun d other => others _ d other⟩
  · next p on => exact absurd on (notRunning p)
  · exact ⟨rfl, rfl, rfl, rfl, Kernel.keepsSleepers_switchBack _ _, fun d other => others _ d other⟩
  · split
    · exact ⟨rfl, rfl, rfl, rfl, .refl _, fun d other => others _ d other⟩
    · exact ⟨rfl, rfl, rfl, rfl, .refl _, fun _ _ => rfl⟩

/-- A process with nothing to do: `forkret` releases its lock, and then it
stays where it is. -/
theorem Wakeup.other (inv : Wakeup a b chan call s w σ) {q : Slot} (otherA : q ≠ a) (otherB : q ≠ b) :
    Wakeup a b chan call (s.thread c q) w σ := by
  obtain ⟨empty, start | fetched⟩ := inv.idle q otherA otherB
  · simp only [Smp.thread, start]
    unfold Smp.release
    split
    · refine inv.unmoved (.refl _) (fun _ on => on) (fun _ on => on) (by simp [Smp.goto, Ne.symm otherA])
        (by simp [Smp.goto, Ne.symm otherB]) (fun r otherA' otherB' => ?_) rfl rfl rfl
      by_cases same : r = q
      · subst same
        simp [Smp.goto]
      · simpa [Smp.goto, same] using (inv.idle r otherA' otherB').2
    · exact inv
  · simpa only [Smp.thread, fetched, empty] using inv

theorem Wakeup.waiter (inv : Wakeup a b chan call s w σ) (handoff : Handoff s) (distinct : a ≠ b)
    (on : s.loop c = .running a) : ∃ w', Wakeup a b chan call (s.thread c a) w' σ := by
  have point := inv.pcA
  have code := inv.codeA
  have running := handoff.running c a on
  cases w with
  | start =>
    simp only [Wait.pc] at point
    simp only [Smp.thread, point]
    unfold Smp.release
    split
    · exact ⟨.fetch, inv.waiterMoves handoff distinct on rfl (inv.codeA_same rfl) rfl rfl rfl rfl
        False.elim False.elim (by decide)⟩
    · exact ⟨.start, inv⟩
  | fetch =>
    simp only [Wait.pc] at point
    simp only [Wait.code, waiter] at code
    simp only [Smp.thread, point, code, Instr.entry]
    exact ⟨.acquire, inv.waiterMoves handoff distinct on rfl rfl rfl rfl rfl rfl False.elim False.elim
      (by decide)⟩
  | acquire =>
    simp only [Wait.pc] at point
    simp only [Smp.thread, point]
    split
    · next free =>
      exact ⟨.locked, inv.waiterRuns handoff distinct on rfl (inv.codeA_same rfl) (fun _ _ => rfl)
        (.inr (.inl free)) rfl rfl (fun _ => ⟨c, on, rfl⟩) False.elim (by decide)⟩
    · exact ⟨.acquire, inv⟩
  | locked =>
    simp only [Wait.pc] at point
    simp only [Wait.code] at code
    simp only [Smp.thread, point, code, Instr.entry]
    exact ⟨.test, inv.waiterMoves handoff distinct on rfl rfl rfl rfl rfl rfl (fun _ => trivial) False.elim
      (by decide)⟩
  | test =>
    simp only [Wait.pc] at point
    simp only [Smp.thread, point]
    by_cases set : s.cond = true
    · rw [if_pos set]
      exact ⟨.woken, inv.waiterMoves handoff distinct on rfl (inv.codeA_same rfl) rfl rfl rfl rfl
        False.elim False.elim (by decide)⟩
    · rw [if_neg set]
      exact ⟨.sleep, inv.waiterMoves handoff distinct on rfl (inv.codeA_same rfl) rfl rfl rfl rfl
        (fun _ => trivial) (fun _ => .inr (by simpa using set)) (by decide)⟩
  | sleep =>
    simp only [Wait.pc] at point
    simp only [Smp.thread, point]
    unfold Smp.acquire
    split
    · exact ⟨.sleepLocked, inv.waiterMoves handoff distinct on rfl (inv.codeA_same rfl) rfl rfl rfl rfl
        (fun _ => trivial) (fun _ => .inl trivial) (by decide)⟩
    · exact ⟨.sleep, inv⟩
  | sleepLocked =>
    simp only [Wait.pc] at point
    simp only [Smp.thread, point]
    split
    · next held =>
      have unset : s.cond = false := inv.committed trivial
      exact ⟨.sleepUnlocked, inv.waiterStep distinct on rfl (inv.codeA_same rfl) (fun _ _ => rfl)
        (.inr (.inr ⟨held, rfl⟩)) rfl (fun _ => rfl) False.elim (fun _ => ⟨c, on⟩) False.elim
        (fun asleep => absurd (asleep.symm.trans running) (by decide))
        (fun _ set => absurd (unset.symm.trans set) (by decide))⟩
    · exact ⟨.sleepLocked, inv⟩
  | sleepUnlocked =>
    simp only [Wait.pc] at point
    simp only [Smp.thread, point]
    unfold Smp.sched
    split
    · exact ⟨.sleepUnlocked, inv⟩
    · refine ⟨.slept, inv.waiterStep distinct on rfl (inv.codeA_same rfl)
        (fun d other => Function.update_of_ne other _ _) (.inl rfl) rfl (fun q => ?_) False.elim
        (fun slept => absurd slept (by decide)) False.elim (fun _ => ⟨rfl, by simp⟩)
        (fun _ set => inv.pending (.inl rfl) set)⟩
      by_cases same : q = a
      · subst same
        simp
      · simp [same]
  | slept =>
    simp only [Wait.pc] at point
    simp only [Smp.thread, point]
    unfold Smp.release
    split
    · refine ⟨.relock, inv.waiterStep distinct on rfl (inv.codeA_same rfl) (fun _ _ => rfl) (.inl rfl) rfl
        (fun q => ?_) False.elim (fun relock => absurd relock (by decide)) False.elim
        (fun asleep => ?_) (fun asleep => ?_)⟩
      · by_cases same : q = a
        · subst same
          simp
        · simp [same]
      · simp [running] at asleep
      · simp [Wait.asleep] at asleep
    · exact ⟨.slept, inv⟩
  | relock =>
    simp only [Wait.pc] at point
    simp only [Smp.thread, point]
    split
    · next free =>
      exact ⟨.test, inv.waiterRuns handoff distinct on rfl (inv.codeA_same rfl) (fun _ _ => rfl)
        (.inr (.inl free)) rfl rfl (fun _ => ⟨c, on, rfl⟩) False.elim (by decide)⟩
    · exact ⟨.relock, inv⟩
  | woken =>
    simp only [Wait.pc] at point
    simp only [Wait.code] at code
    simp only [Smp.thread, point, code, Instr.entry]
    exact ⟨.release, inv.waiterMoves handoff distinct on rfl rfl rfl rfl rfl rfl False.elim False.elim
      (by decide)⟩
  | release =>
    simp only [Wait.pc] at point
    simp only [Smp.thread, point]
    split
    · next held =>
      exact ⟨.done, inv.waiterRuns handoff distinct on rfl (inv.codeA_same rfl) (fun _ _ => rfl)
        (.inr (.inr ⟨held, rfl⟩)) rfl rfl False.elim False.elim (by decide)⟩
    · exact ⟨.release, inv⟩
  | done =>
    simp only [Wait.pc] at point
    simp only [Wait.code] at code
    exact ⟨.done, by simpa only [Smp.thread, point, code] using inv⟩

theorem Wakeup.signaler (inv : Wakeup a b chan call s w σ) (handoff : Handoff s) (distinct : a ≠ b)
    (calls : call = .wakeup chan ∨ ∃ pid, call = .kill pid) (on : s.loop c = .running b) :
    ∃ σ', Wakeup a b chan call (s.thread c b) w σ' := by
  have point := inv.pcB
  have code := inv.codeB
  cases σ with
  | start =>
    simp only [Signal.pc] at point
    simp only [Smp.thread, point]
    unfold Smp.release
    split
    · exact ⟨.fetch, inv.signalerMoves distinct on rfl (inv.codeB_same rfl) rfl rfl rfl rfl False.elim
        False.elim (fun _ before => before.elim)⟩
    · exact ⟨.start, inv⟩
  | fetch =>
    simp only [Signal.pc] at point
    simp only [Signal.code, signaler] at code
    simp only [Smp.thread, point, code, Instr.entry]
    exact ⟨.acquire, inv.signalerMoves distinct on rfl rfl rfl rfl rfl rfl False.elim False.elim
      (fun _ before => before.elim)⟩
  | acquire =>
    simp only [Signal.pc] at point
    simp only [Smp.thread, point]
    split
    · next free =>
      exact ⟨.locked, inv.signalerStep distinct on rfl (inv.codeB_same rfl) (fun _ _ => rfl)
        (.inr (.inl free)) (.inl rfl) (.refl _) (fun _ => ⟨c, on, rfl⟩) False.elim
        (fun asleep set => (inv.pending asleep set).elim)⟩
    · exact ⟨.acquire, inv⟩
  | locked =>
    simp only [Signal.pc] at point
    simp only [Signal.code] at code
    simp only [Smp.thread, point, code, Instr.entry]
    exact ⟨.signal, inv.signalerMoves distinct on rfl rfl rfl rfl rfl rfl (fun _ => trivial) False.elim
      (fun _ before => before.elim)⟩
  | signal =>
    simp only [Signal.pc] at point
    simp only [Smp.thread, point]
    exact ⟨.signaled, inv.signalerStep distinct on rfl (inv.codeB_same rfl) (fun _ _ => rfl) (.inl rfl)
      (.inr rfl) (.refl _) False.elim (fun _ => rfl) (fun _ _ => trivial)⟩
  | signaled =>
    simp only [Signal.pc] at point
    simp only [Signal.code] at code
    have entry : call.entry = call.scan 0 := by
      rcases calls with rfl | ⟨pid, rfl⟩ <;> rfl
    simp only [Smp.thread, point, code]
    exact ⟨.scan 0, inv.signalerMoves distinct on (by simp [Smp.goto, Signal.pc, entry]) rfl rfl rfl rfl
      rfl False.elim (fun _ => trivial) (fun _ _ => Nat.zero_le _)⟩
  | scan q =>
    have bounded : ∀ (bound : ¬ q < NPROC), ¬ Signal.before a (.scan q) := fun bound before => by
      have below : q ≤ a.val := before
      have := a.isLt
      omega
    rcases calls with rfl | ⟨pid, rfl⟩
    · simp only [Signal.pc, Instr.scan] at point
      simp only [Smp.thread, point]
      split
      · next bound =>
        split
        · next self =>
          refine ⟨.scan (q + 1), inv.signalerMoves distinct on rfl (inv.codeB_same rfl) rfl rfl rfl rfl
            False.elim (fun _ => trivial) (fun _ before => ?_)⟩
          have below : q ≤ a.val := before
          have other : q ≠ a.val := by
            rintro rfl
            exact distinct self
          show q + 1 ≤ a.val
          omega
        · unfold Smp.acquire
          split
          · exact ⟨.scanLocked ⟨q, bound⟩, inv.signalerMoves distinct on rfl (inv.codeB_same rfl) rfl rfl
              rfl rfl False.elim (fun _ => trivial) (fun _ before => before)⟩
          · exact ⟨.scan q, inv⟩
      · next bound =>
        exact ⟨.returned, inv.signalerMoves distinct on rfl (inv.codeB_same rfl) rfl rfl rfl rfl False.elim
          (fun _ => trivial) (fun _ before => bounded bound before)⟩
    · simp only [Signal.pc, Instr.scan] at point
      simp only [Smp.thread, point]
      split
      · next bound =>
        unfold Smp.acquire
        split
        · exact ⟨.scanLocked ⟨q, bound⟩, inv.signalerMoves distinct on rfl (inv.codeB_same rfl) rfl rfl rfl
            rfl False.elim (fun _ => trivial) (fun _ before => before)⟩
        · exact ⟨.scan q, inv⟩
      · next bound =>
        exact ⟨.returned, inv.signalerMoves distinct on rfl (inv.codeB_same rfl) rfl rfl rfl rfl False.elim
          (fun _ => trivial) (fun _ before => bounded bound before)⟩
  | scanLocked q =>
    have holding : q = a → (s.pc b).held b = some a := by
      rintro rfl
      rw [point]
      rcases calls with rfl | ⟨pid, rfl⟩ <;> rfl
    rcases calls with rfl | ⟨pid, rfl⟩
    · simp only [Signal.pc, Instr.scanLocked] at point
      simp only [Smp.thread, point]
      unfold Smp.release
      split
      · have keeps := Kernel.keepsSleepers_wake s.k q
          ((s.k.proc q).state = .SLEEPING ∧ (s.k.proc q).chan = chan)
        refine ⟨.scan (q.val + 1), inv.signalerStep distinct on rfl (inv.codeB_same rfl) (fun _ _ => rfl)
          (.inl rfl) (.inl rfl) keeps False.elim (fun _ => inv.signaled trivial) (fun asleep set => ?_)⟩
        by_cases here : q = a
        · subst here
          refine absurd asleep (inv.woken handoff distinct on (holding rfl) (fun sleeping => ?_)
            (fun awake => by simp [awake]))
          simp [sleeping, (inv.sleeping sleeping).2]
        · have below : q.val ≤ a.val := inv.pending (Wait.asleep_of_keeps keeps asleep) set
          have other : q.val ≠ a.val := fun same => here (Fin.ext same)
          show q.val + 1 ≤ a.val
          omega
      · exact ⟨.scanLocked q, inv⟩
    · simp only [Signal.pc, Instr.scanLocked] at point
      simp only [Smp.thread, point]
      obtain ⟨mine, only⟩ := inv.pids pid rfl
      split
      · next found =>
        obtain rfl : q = a := only q found
        unfold Smp.release
        split
        · exact ⟨.returned, inv.signalerStep distinct on rfl (inv.codeB_same rfl) (fun _ _ => rfl) (.inl rfl)
            (.inl rfl) ((Kernel.keepsSleepers_kill s.k q).trans (Kernel.keepsSleepers_wake _ q _)) False.elim
            (fun _ => inv.signaled trivial)
            (fun asleep _ => inv.woken handoff distinct on (holding rfl) (fun sleeping => by simp [sleeping])
              (fun awake => by simp [awake]) asleep)⟩
        · exact ⟨.scanLocked q, inv⟩
      · next missed =>
        unfold Smp.release
        split
        · refine ⟨.scan (q.val + 1), inv.signalerMoves distinct on rfl (inv.codeB_same rfl) rfl rfl rfl rfl
            False.elim (fun _ => trivial) (fun _ before => ?_)⟩
          have below : q.val ≤ a.val := before
          have other : q.val ≠ a.val := fun same => missed (by rw [Fin.ext same]; exact mine)
          show q.val + 1 ≤ a.val
          omega
        · exact ⟨.scanLocked q, inv⟩
  | returned =>
    simp only [Signal.pc] at point
    simp only [Signal.code] at code
    simp only [Smp.thread, point, code, Instr.entry]
    exact ⟨.release, inv.signalerMoves distinct on rfl rfl rfl rfl rfl rfl False.elim (fun _ => trivial)
      (fun _ before => before.elim)⟩
  | release =>
    simp only [Signal.pc] at point
    simp only [Smp.thread, point]
    split
    · next held =>
      exact ⟨.done, inv.signalerStep distinct on rfl (inv.codeB_same rfl) (fun _ _ => rfl)
        (.inr (.inr ⟨held, rfl⟩)) (.inl rfl) (.refl _) False.elim (fun _ => inv.signaled trivial)
        (fun asleep set => (inv.pending asleep set).elim)⟩
    · exact ⟨.release, inv⟩
  | done =>
    simp only [Signal.pc] at point
    simp only [Signal.code] at code
    exact ⟨.done, by simpa only [Smp.thread, point, code] using inv⟩

/-- Every step of every CPU keeps the invariant, at some positions of the two threads. -/
theorem Wakeup.step (inv : Wakeup a b chan call s w σ) (handoff : Handoff s) (distinct : a ≠ b)
    (calls : call = .wakeup chan ∨ ∃ pid, call = .kill pid) (c : CpuId) :
    ∃ w' σ', Wakeup a b chan call (s.step c) w' σ' := by
  by_cases busy : ∃ p, s.loop c = .running p
  · obtain ⟨p, on⟩ := busy
    have stepped : s.step c = s.thread c p := by simp [Smp.step, on]
    rw [stepped]
    by_cases isA : p = a
    · subst isA
      obtain ⟨w', next⟩ := inv.waiter handoff distinct on
      exact ⟨w', σ, next⟩
    by_cases isB : p = b
    · subst isB
      obtain ⟨σ', next⟩ := inv.signaler handoff distinct calls on
      exact ⟨w, σ', next⟩
    exact ⟨w, σ, inv.other isA isB⟩
  · push Not at busy
    obtain ⟨pcs, codes, lk, cond, keeps, loops⟩ := step_of_not_running busy
    have runs : ∀ q d, s.loop d = .running q → (s.step c).loop d = .running q := fun q d there => by
      have other : d ≠ c := by
        rintro rfl
        exact busy q there
      rw [loops d other]
      exact there
    refine ⟨w, σ, inv.unmoved keeps (runs a) (runs b) (by rw [pcs]) (by rw [pcs])
      (fun q otherA otherB => ?_) codes lk cond⟩
    rw [pcs]
    exact (inv.idle q otherA otherB).2

/-- The invariant of a run of the two threads: the hand-off of the process
locks, and the waiter and the signaler somewhere in their code. -/
def Safe (a b : Slot) (chan : Chan) (call : Instr) (s : Smp) : Prop :=
  Handoff s ∧ ∃ w σ, Wakeup a b chan call s w σ

theorem Safe.step (safe : Safe a b chan call s) (distinct : a ≠ b)
    (calls : call = .wakeup chan ∨ ∃ pid, call = .kill pid) (c : CpuId) : Safe a b chan call (s.step c) := by
  obtain ⟨handoff, w, σ, inv⟩ := safe
  exact ⟨handoff.step c, inv.step handoff distinct calls c⟩

theorem safe_boot {k : Kernel} (distinct : a ≠ b) (idle : ∀ c, k.cpus c = none)
    (stopped : ∀ p, (k.proc p).state ≠ .RUNNING) (awake : (k.proc a).state ≠ .SLEEPING)
    (unique : ∀ pid, call = .kill pid → (k.proc a).pid = pid ∧ ∀ q, (k.proc q).pid = pid → q = a) :
    Safe a b chan call (boot k (pair a b chan call)) := by
  refine ⟨handoff_boot idle stopped, .start, .start, ?_⟩
  exact {
    pcA := rfl
    codeA := by simp [boot, pair, Wait.code]
    pcB := rfl
    codeB := by simp [boot, pair, Ne.symm distinct, Signal.code]
    idle := fun q otherA otherB => ⟨by simp [boot, pair, otherA, otherB], .inl rfl⟩
    lkA := False.elim
    lkB := False.elim
    unlocked := fun start => absurd start (by decide)
    signaled := False.elim
    committed := False.elim
    sleeping := fun asleep => absurd asleep awake
    pending := fun asleep => by simp [Wait.asleep, boot, awake] at asleep
    pids := unique }

theorem safe_run {k : Kernel} (distinct : a ≠ b) (idle : ∀ c, k.cpus c = none)
    (stopped : ∀ p, (k.proc p).state ≠ .RUNNING) (awake : (k.proc a).state ≠ .SLEEPING)
    (calls : call = .wakeup chan ∨ ∃ pid, call = .kill pid)
    (unique : ∀ pid, call = .kill pid → (k.proc a).pid = pid ∧ ∀ q, (k.proc q).pid = pid → q = a)
    (order : List CpuId) : Safe a b chan call (Machine.run step (boot k (pair a b chan call)) order) :=
  Machine.run_invariant (fun _ c safe => safe.step distinct calls c)
    (safe_boot distinct idle stopped awake unique) order

theorem Signal.returned_done (calls : call = .wakeup chan ∨ ∃ pid, call = .kill pid) {σ : Signal}
    (returned : (σ.pc call = .next ∧ σ.code call = [.release]) ∨ σ.code call = []) :
    σ.past ∧ ¬ σ.before a := by
  rcases calls with rfl | ⟨pid, rfl⟩ <;> cases σ <;>
    simp_all [Signal.pc, Signal.code, signaler, Signal.past, Signal.before, Instr.scan, Instr.scanLocked]

theorem no_lost_wakeup {k : Kernel} {a b : Slot} {chan : Chan} {call : Instr} (distinct : a ≠ b)
    (idle : ∀ c, k.cpus c = none) (stopped : ∀ p, (k.proc p).state ≠ .RUNNING)
    (awake : (k.proc a).state ≠ .SLEEPING)
    (wakes : call = .wakeup chan ∨
      call = .kill (k.proc a).pid ∧ ∀ q, (k.proc q).pid = (k.proc a).pid → q = a)
    (order : List CpuId)
    (returned : ((Machine.run step (boot k (pair a b chan call)) order).pc b = .next ∧
        (Machine.run step (boot k (pair a b chan call)) order).code b = [.release]) ∨
      (Machine.run step (boot k (pair a b chan call)) order).code b = []) :
    ((Machine.run step (boot k (pair a b chan call)) order).k.proc a).state ≠ .SLEEPING := by
  have calls : call = .wakeup chan ∨ ∃ pid, call = .kill pid :=
    wakes.imp id fun ⟨killing, _⟩ => ⟨_, killing⟩
  have unique : ∀ pid, call = .kill pid → (k.proc a).pid = pid ∧ ∀ q, (k.proc q).pid = pid → q = a := by
    intro pid killing
    rcases wakes with waking | ⟨killing', only⟩
    · rw [waking] at killing
      cases killing
    · rw [killing'] at killing
      cases killing
      exact ⟨rfl, only⟩
  obtain ⟨_, w, σ, inv⟩ := safe_run distinct idle stopped awake calls unique order
  intro asleep
  obtain ⟨slept, _⟩ := inv.sleeping asleep
  obtain ⟨past, notBefore⟩ := Signal.returned_done (a := a) calls
    (by rwa [← inv.pcB, ← inv.codeB])
  exact notBefore (inv.pending (.inr ⟨slept, asleep⟩) (inv.signaled past))

/-- `initproc` and the child it forked, both RUNNABLE in the ready queue. -/
def forked : Kernel := (Kernel.boot.fork 0 true true).1

/-- On CPU 0, `initproc` tests the condition and sleeps (13 steps); then its
child takes `lk`, sets the condition, and its `kill` finds `initproc` SLEEPING
and puts it back in the ready queue (11 steps). -/
theorem no_lost_wakeup_killed :
    (0 : Slot) ≠ 1 ∧ (∀ c, forked.cpus c = none) ∧ (∀ p, (forked.proc p).state ≠ .RUNNING) ∧
      (forked.proc 0).state ≠ .SLEEPING ∧
      (Instr.kill 1 = .wakeup (.addr 7) ∨
        Instr.kill 1 = .kill (forked.proc 0).pid ∧ ∀ q, (forked.proc q).pid = (forked.proc 0).pid → q = 0) ∧
      ((Machine.run step (boot forked (pair 0 1 (.addr 7) (.kill 1))) (List.replicate 13 0)).k.proc
        0).state = .SLEEPING ∧
      (((Machine.run step (boot forked (pair 0 1 (.addr 7) (.kill 1))) (List.replicate 24 0)).pc 1 = .next ∧
        (Machine.run step (boot forked (pair 0 1 (.addr 7) (.kill 1))) (List.replicate 24 0)).code 1 =
          [.release]) ∨
        (Machine.run step (boot forked (pair 0 1 (.addr 7) (.kill 1))) (List.replicate 24 0)).code 1 = []) ∧
      ((Machine.run step (boot forked (pair 0 1 (.addr 7) (.kill 1))) (List.replicate 24 0)).k.proc
        0).state ≠ .SLEEPING :=
  ⟨by decide, by decide +kernel, by decide +kernel, by decide +kernel, by decide +kernel, by decide +kernel,
    by decide +kernel,
    no_lost_wakeup (by decide) (by decide +kernel) (by decide +kernel) (by decide +kernel) (by decide +kernel)
      (List.replicate 24 0) (by decide +kernel)⟩

end Smp

end Xv6
