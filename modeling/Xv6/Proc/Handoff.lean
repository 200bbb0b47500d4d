import Xv6.Proc.Smp
import Xv6.Proc.Dispatch
import Xv6.Spinlock

/-! No process runs on two CPUs, in any interleaving of the CPUs' steps and
whatever the ready queue holds. `get` releases the queue lock before the
scheduler takes `p->lock`, so two CPUs can pop entries for the same process;
what stops the second is the `RUNNABLE` test under `p->lock`, and that the lock
is held from the moment a thread leaves `RUNNING` (`put` in `yield`, the state
writes of `sleep` and `exit`) until its CPU has cleared `c->proc`: the thread's
`sched()` and the scheduler's post-switch code run under the one lock, which
the scheduler hands back to the thread it dispatches. -/
namespace Xv6

namespace Kernel

/-- How the process states may change outside a context switch: a process
that is not RUNNING may become RUNNABLE, as `put` makes a sleeper; `c->proc`
stays. -/
def OnlyWakes (k k' : Kernel) : Prop :=
  k'.cpus = k.cpus ∧ ∀ q, (k'.proc q).state = (k.proc q).state ∨
    ((k.proc q).state ≠ .RUNNING ∧ (k'.proc q).state = .RUNNABLE)

theorem OnlyWakes.refl (k : Kernel) : k.OnlyWakes k := ⟨rfl, fun _ => .inl rfl⟩

theorem OnlyWakes.trans {k₁ k₂ k₃ : Kernel} (first : k₁.OnlyWakes k₂) (second : k₂.OnlyWakes k₃) :
    k₁.OnlyWakes k₃ := by
  refine ⟨second.1.trans first.1, fun q => ?_⟩
  rcases second.2 q with same | ⟨stopped, woken⟩
  · rw [same]
    exact first.2 q
  · rcases first.2 q with earlier | ⟨stopped₁, _⟩
    · exact .inr ⟨earlier ▸ stopped, woken⟩
    · exact .inr ⟨stopped₁, woken⟩

theorem OnlyWakes.running_iff {k k' : Kernel} (wakes : k.OnlyWakes k') (q : Slot) :
    (k'.proc q).state = .RUNNING ↔ (k.proc q).state = .RUNNING := by
  rcases wakes.2 q with same | ⟨stopped, woken⟩
  · rw [same]
  · rw [woken]
    exact ⟨fun runnable => absurd runnable (by decide), fun running => absurd running stopped⟩

theorem onlyWakes_get (k : Kernel) : k.OnlyWakes k.get.1 := ⟨get_cpus k, fun q => .inl (get_state k q)⟩

theorem onlyWakes_put (k : Kernel) {q : Slot} (stopped : (k.proc q).state ≠ .RUNNING) :
    k.OnlyWakes (k.put q) := by
  refine ⟨put_cpus k q, fun r => ?_⟩
  by_cases same : r = q
  · subst same
    exact .inr ⟨stopped, by simp [putProc]⟩
  · exact .inl (by simp [same])

theorem onlyWakes_setProc (k : Kernel) (q : Slot) (x : Proc) (same : x.state = (k.proc q).state) :
    k.OnlyWakes (k.setProc q x) := by
  refine ⟨rfl, fun r => .inl ?_⟩
  by_cases here : r = q
  · subst here
    simpa using same
  · simp [here]

end Kernel

namespace Smp

/-- What keeps every process on one CPU at a time. -/
structure Handoff (s : Smp) : Prop where
  /-- `c->proc` is the process the loop switched to. -/
  cpus : ∀ c, s.k.cpus c = (s.loop c).proc
  /-- Every `p->lock` a CPU holds where it is records that CPU. -/
  owned : Spinlock.Owned s.holds s.lock
  running : ∀ c p, s.loop c = .running p → (s.k.proc p).state = .RUNNING
  /-- A thread that has switched back is no longer RUNNING. -/
  back : ∀ c p, s.loop c = .back p → (s.k.proc p).state ≠ .RUNNING
  dispatched : ∀ p, (s.k.proc p).state = .RUNNING → ∃ c, s.loop c = .running p
  unique : ∀ c d p, s.loop c = .running p → s.loop d = .running p → c = d
  /-- A thread that runs nowhere waits where it will hold its own lock when
  dispatched, which is where the scheduler hands the lock over. -/
  parked : ∀ p, (∀ c, s.loop c ≠ .running p) → (s.pc p).held p = some p

variable {s : Smp} {c : CpuId} {p : Slot}

theorem holds_running (on : s.loop c = .running p) : s.holds c = (s.pc p).held p := by
  simp [holds, on, Loop.holds]

theorem Handoff.away (inv : Handoff s) (on : s.loop c = .running p) {d : CpuId} (other : d ≠ c) :
    s.loop d ≠ .running p :=
  fun there => other (inv.unique d c p there on)

theorem Handoff.lock_of_holds (inv : Handoff s) {q : Slot} (held : s.holds c = some q) :
    s.lock q = some c :=
  inv.owned c q held

theorem Handoff.holds_local (inv : Handoff s) (on : s.loop c = .running p) {s' : Smp}
    (loop : s'.loop = s.loop) (pcs : ∀ q, q ≠ p → s'.pc q = s.pc q) :
    s'.holds = Function.update s.holds c ((s'.pc p).held p) := by
  have same : s'.loop = Function.update s.loop c (.running p) := by
    rw [loop, ← on, Function.update_eq_self]
  rw [holds_update same]
  · rfl
  · intro q moved d other there
    obtain rfl : q = p := by
      by_contra other
      exact moved (pcs q other)
    exact inv.away on other there

/-! ## A thread's steps on its CPU -/

/-- A step of the thread of `p` that leaves it on its CPU. -/
theorem Handoff.local (inv : Handoff s) (on : s.loop c = .running p) {s' : Smp}
    (kernel : s.k.OnlyWakes s'.k) (loop : s'.loop = s.loop) (pcs : ∀ q, q ≠ p → s'.pc q = s.pc q)
    (owned : Spinlock.Owned (Function.update s.holds c ((s'.pc p).held p)) s'.lock) : Handoff s' where
  cpus d := by rw [kernel.1, loop]; exact inv.cpus d
  owned := by rw [inv.holds_local on loop pcs]; exact owned
  running d q there := (kernel.running_iff q).mpr (inv.running d q (by rwa [loop] at there))
  back d q there := fun running => inv.back d q (by rwa [loop] at there) ((kernel.running_iff q).mp running)
  dispatched q running := by
    obtain ⟨d, there⟩ := inv.dispatched q ((kernel.running_iff q).mp running)
    exact ⟨d, by rw [loop]; exact there⟩
  unique d e q first second := inv.unique d e q (by rwa [loop] at first) (by rwa [loop] at second)
  parked q idle := by
    have other : q ≠ p := by
      rintro rfl
      exact idle c (by rw [loop]; exact on)
    rw [pcs q other]
    exact inv.parked q fun d => by rw [← loop]; exact idle d

theorem Handoff.stay (inv : Handoff s) (on : s.loop c = .running p) {s' : Smp}
    (kernel : s.k.OnlyWakes s'.k) (loop : s'.loop = s.loop) (pcs : ∀ q, q ≠ p → s'.pc q = s.pc q)
    (lock : s'.lock = s.lock) (same : (s'.pc p).held p = (s.pc p).held p) : Handoff s' := by
  refine inv.local on kernel loop pcs ?_
  rw [lock, same, ← holds_running on]
  exact inv.owned.keep c rfl

theorem Handoff.goto (inv : Handoff s) (on : s.loop c = .running p) {pc : Point}
    (same : pc.held p = (s.pc p).held p) : Handoff (s.goto p pc) := by
  refine inv.stay on ?_ ?_ ?_ ?_ ?_
  · exact .refl _
  · rfl
  · intro q other
    simp [Smp.goto, other]
  · rfl
  · simpa [Smp.goto] using same

theorem Handoff.acquire (inv : Handoff s) (on : s.loop c = .running p) {q : Slot} {pc : Point}
    (grabs : pc.held p = some q) : Handoff (s.acquire c q p pc) := by
  unfold Smp.acquire
  split
  · next free =>
    have pcs : ∀ r, r ≠ p → (s.goto p pc).pc r = s.pc r := fun r other => by simp [Smp.goto, other]
    refine inv.local on ?_ ?_ pcs ?_
    · exact .refl _
    · rfl
    · simpa [Smp.goto, grabs] using inv.owned.acquire free
  · exact inv

theorem Handoff.release (inv : Handoff s) (on : s.loop c = .running p) {q : Slot} {k : Kernel}
    {pc : Point} (mine : (s.pc p).held p = some q) (drops : pc.held p = none) (kernel : s.k.OnlyWakes k) :
    Handoff (s.release c q k p pc) := by
  unfold Smp.release
  split
  · have pcs : ∀ r, r ≠ p → (s.goto p pc).pc r = s.pc r := fun r other => by simp [Smp.goto, other]
    refine inv.local on kernel ?_ pcs ?_
    · rfl
    · have claimed : s.holds c = some q := by rw [holds_running on, mine]
      simpa [Smp.goto, drops] using inv.owned.release claimed
  · exact inv

/-- `sched()`: the thread, no longer RUNNING, switches back to the scheduler
of its CPU, still holding its lock. -/
theorem Handoff.sched (inv : Handoff s) (on : s.loop c = .running p) (mine : (s.pc p).held p = some p)
    {k : Kernel} {pc : Point} (cpus : k.cpus = s.k.cpus) (stopped : (k.proc p).state ≠ .RUNNING)
    (others : ∀ q, q ≠ p → (k.proc q).state = (s.k.proc q).state) (parks : pc.held p = some p) :
    Handoff (s.sched c p k pc) := by
  unfold Smp.sched
  split
  · exact inv
  · set s' : Smp := { s.goto p pc with k := k, loop := Function.update s.loop c (.back p) }
    have elsewhere : ∀ d, d ≠ c → s'.loop d = s.loop d := fun d other => by
      simp [s', Function.update_of_ne other]
    have holds' : s'.holds = Function.update s.holds c (some p) := by
      rw [holds_update rfl]
      · rfl
      · intro q moved d other there
        obtain rfl : q = p := by
          by_contra different
          exact moved (by simp [s', Smp.goto, different])
        exact inv.away on other there
    have lockP : s.lock p = some c := inv.lock_of_holds (by rw [holds_running on, mine])
    refine ⟨fun d => ?_, ?_, fun d q there => ?_, fun d q there => ?_, fun q running => ?_,
      fun d e q first second => ?_, fun q idle => ?_⟩
    · by_cases here : d = c
      · subst here
        simp [s', cpus, inv.cpus d, on, Loop.proc]
      · rw [elsewhere d here, show s'.k = k from rfl, cpus]
        exact inv.cpus d
    · rw [holds', ← mine, ← holds_running on]
      exact inv.owned.keep c rfl
    · have other : d ≠ c := by
        rintro rfl
        simp [s'] at there
      rw [elsewhere d other] at there
      have notP : q ≠ p := by
        rintro rfl
        exact inv.away on other there
      rw [show s'.k = k from rfl, others q notP]
      exact inv.running d q there
    · by_cases here : d = c
      · subst here
        obtain rfl : p = q := by simpa [s'] using there
        exact stopped
      · rw [elsewhere d here] at there
        have notP : q ≠ p := by
          rintro rfl
          have lockD : s.lock q = some d := inv.lock_of_holds (by simp [holds, there, Loop.holds])
          exact here (Option.some.inj (lockD.symm.trans lockP))
        rw [show s'.k = k from rfl, others q notP]
        exact inv.back d q there
    · have notP : q ≠ p := by
        rintro rfl
        exact stopped running
      rw [show s'.k = k from rfl, others q notP] at running
      obtain ⟨d, there⟩ := inv.dispatched q running
      have other : d ≠ c := by
        rintro rfl
        exact notP (by simpa [on] using there.symm)
      exact ⟨d, by rw [elsewhere d other]; exact there⟩
    · have firstOther : d ≠ c := by
        rintro rfl
        simp [s'] at first
      have secondOther : e ≠ c := by
        rintro rfl
        simp [s'] at second
      rw [elsewhere d firstOther] at first
      rw [elsewhere e secondOther] at second
      exact inv.unique d e q first second
    · by_cases same : q = p
      · subst same
        simpa [s', Smp.goto] using parks
      · have before : ∀ d, s.loop d ≠ .running q := by
          intro d there
          by_cases here : d = c
          · subst here
            exact same (by simpa [on] using there.symm)
          · exact idle d (by rw [elsewhere d here]; exact there)
        simpa [s', Smp.goto, same] using inv.parked q before

/-! ## The scheduler's steps -/

theorem holds_idle {s' : Smp} {l : Loop} (loop : s'.loop = Function.update s.loop c l)
    (pcs : s'.pc = s.pc) : s'.holds = Function.update s.holds c (l.holds s.pc) := by
  rw [holds_update loop (fun q moved => absurd (by rw [pcs]) moved), pcs]

/-- A step of the loop of `c` away from any process: `get`, the `acquire` and
`release` of `p->lock`, and a failed `RUNNABLE` test. -/
theorem Handoff.idle (inv : Handoff s) (off : (s.loop c).proc = none) (l : Loop) (off' : l.proc = none)
    {s' : Smp} (kernel : s.k.OnlyWakes s'.k) (loop : s'.loop = Function.update s.loop c l)
    (pcs : s'.pc = s.pc) (owned : Spinlock.Owned (Function.update s.holds c (l.holds s.pc)) s'.lock) :
    Handoff s' := by
  have notOn : ∀ q, s.loop c ≠ .running q := fun q there => by simp [there, Loop.proc] at off
  have notOn' : ∀ q, l ≠ .running q := fun q there => by simp [there, Loop.proc] at off'
  have notBack' : ∀ q, l ≠ .back q := fun q there => by simp [there, Loop.proc] at off'
  have elsewhere : ∀ d, d ≠ c → s'.loop d = s.loop d := fun d other => by
    rw [loop, Function.update_of_ne other]
  have running' : ∀ d q, s'.loop d = .running q → d ≠ c ∧ s.loop d = .running q := by
    intro d q there
    have other : d ≠ c := by
      rintro rfl
      exact notOn' q (by simpa [loop] using there)
    exact ⟨other, by rwa [elsewhere d other] at there⟩
  refine ⟨fun d => ?_, by rw [holds_idle loop pcs]; exact owned, fun d q there => ?_, fun d q there => ?_,
    fun q running => ?_, fun d e q first second => ?_, fun q idle => ?_⟩
  · by_cases here : d = c
    · subst here
      rw [kernel.1, inv.cpus d, off, loop, Function.update_self, off']
    · rw [kernel.1, elsewhere d here]
      exact inv.cpus d
  · exact (kernel.running_iff q).mpr (inv.running d q (running' d q there).2)
  · have other : d ≠ c := by
      rintro rfl
      exact notBack' q (by simpa [loop] using there)
    rw [elsewhere d other] at there
    exact fun running => inv.back d q there ((kernel.running_iff q).mp running)
  · obtain ⟨d, there⟩ := inv.dispatched q ((kernel.running_iff q).mp running)
    have other : d ≠ c := by
      rintro rfl
      exact notOn q there
    exact ⟨d, by rw [elsewhere d other]; exact there⟩
  · exact inv.unique d e q (running' d q first).2 (running' e q second).2
  · rw [pcs]
    refine inv.parked q fun d there => ?_
    have other : d ≠ c := by
      rintro rfl
      exact notOn q there
    exact idle d (by rw [elsewhere d other]; exact there)

/-- The scheduler finds `p` RUNNABLE under `p->lock` and switches to it,
handing the lock to the thread. -/
theorem Handoff.dispatch (inv : Handoff s) (at_ : s.loop c = .locked p)
    (runnable : (s.k.proc p).state = .RUNNABLE) :
    Handoff { s with
      k := { s.k.setProc p { s.k.proc p with state := .RUNNING } with
        cpus := Function.update s.k.cpus c (some p) }
      loop := Function.update s.loop c (.running p) } := by
  set s' : Smp := { s with
      k := { s.k.setProc p { s.k.proc p with state := .RUNNING } with
        cpus := Function.update s.k.cpus c (some p) }
      loop := Function.update s.loop c (.running p) }
  have stopped : (s.k.proc p).state ≠ .RUNNING := by rw [runnable]; decide
  have nowhere : ∀ d, s.loop d ≠ .running p := fun d there => stopped (inv.running d p there)
  have lockP : s.lock p = some c := inv.lock_of_holds (by simp [holds, at_, Loop.holds])
  have notBack : ∀ d, s.loop d ≠ .back p := by
    intro d there
    have lockD : s.lock p = some d := inv.lock_of_holds (by simp [holds, there, Loop.holds])
    obtain rfl : c = d := Option.some.inj (lockP.symm.trans lockD)
    simp [at_] at there
  have elsewhere : ∀ d, d ≠ c → s'.loop d = s.loop d := fun d other => by
    simp [s', Function.update_of_ne other]
  have states : ∀ q, q ≠ p → (s'.k.proc q).state = (s.k.proc q).state := fun q other => by
    simp [s', other]
  refine ⟨fun d => ?_, ?_, fun d q there => ?_, fun d q there => ?_, fun q running => ?_,
    fun d e q first second => ?_, fun q idle => ?_⟩
  · by_cases here : d = c
    · subst here
      simp [s', Loop.proc]
    · rw [elsewhere d here, show s'.k.cpus = Function.update s.k.cpus c (some p) from rfl,
        Function.update_of_ne here]
      exact inv.cpus d
  · have holds' : s'.holds = Function.update s.holds c ((Loop.running p).holds s.pc) := holds_idle rfl rfl
    rw [holds', show (Loop.running p).holds s.pc = (s.pc p).held p from rfl, inv.parked p nowhere]
    exact inv.owned.keep c (by simp [holds, at_, Loop.holds])
  · by_cases here : d = c
    · subst here
      obtain rfl : p = q := by simpa [s'] using there
      simp [s']
    · rw [elsewhere d here] at there
      have other : q ≠ p := by
        rintro rfl
        exact nowhere d there
      rw [states q other]
      exact inv.running d q there
  · have other : d ≠ c := by
      rintro rfl
      simp [s'] at there
    rw [elsewhere d other] at there
    have notP : q ≠ p := by
      rintro rfl
      exact notBack d there
    rw [states q notP]
    exact inv.back d q there
  · by_cases same : q = p
    · subst same
      exact ⟨c, by simp [s']⟩
    · rw [states q same] at running
      obtain ⟨d, there⟩ := inv.dispatched q running
      have other : d ≠ c := by
        rintro rfl
        simp [at_] at there
      exact ⟨d, by rw [elsewhere d other]; exact there⟩
  · have onlyC : ∀ d, s'.loop d = .running q → d ≠ c → s.loop d = .running q ∧ q ≠ p :=
      fun d there other => by
        rw [elsewhere d other] at there
        exact ⟨there, fun same => nowhere d (same ▸ there)⟩
    by_cases firstC : d = c
    · subst firstC
      obtain rfl : p = q := by simpa [s'] using first
      by_contra different
      exact (onlyC e second (Ne.symm different)).2 rfl
    · by_cases secondC : e = c
      · subst secondC
        obtain rfl : p = q := by simpa [s'] using second
        exact absurd rfl (onlyC d first firstC).2
      · exact inv.unique d e q (onlyC d first firstC).1 (onlyC e second secondC).1
  · have other : q ≠ p := by
      rintro rfl
      exact idle c (by simp [s'])
    refine inv.parked q fun d there => ?_
    by_cases here : d = c
    · subst here
      simp [at_] at there
    · exact idle d (by rw [elsewhere d here]; exact there)

/-- The scheduler's post-switch code: `put` if RUNNABLE, and `c->proc = 0`. -/
theorem Handoff.switchBack (inv : Handoff s) (at_ : s.loop c = .back p) :
    Handoff { s with k := s.k.switchBack c, loop := Function.update s.loop c (.unlocking p) } := by
  set s' : Smp := { s with k := s.k.switchBack c, loop := Function.update s.loop c (.unlocking p) }
  have on : s.k.cpus c = some p := by rw [inv.cpus c, at_]; rfl
  have nowhere : ∀ d, s.loop d ≠ .running p := fun d there =>
    inv.back c p at_ (inv.running d p there)
  have cpus' : s'.k.cpus = Function.update s.k.cpus c none := by
    simp only [s', Kernel.switchBack_of_running on]
    split <;> simp
  have states : ∀ q, q ≠ p → (s'.k.proc q).state = (s.k.proc q).state := by
    intro q other
    simp only [s', Kernel.switchBack_of_running on]
    split <;> simp [other]
  have stopped : (s'.k.proc p).state ≠ .RUNNING := by
    simp only [s', Kernel.switchBack_of_running on]
    split
    · simp [Kernel.putProc]
    · exact inv.back c p at_
  have elsewhere : ∀ d, d ≠ c → s'.loop d = s.loop d := fun d other => by
    simp [s', Function.update_of_ne other]
  have notThere : ∀ q, s'.loop c ≠ .running q ∧ s'.loop c ≠ .back q := fun q => by simp [s']
  refine ⟨fun d => ?_, ?_, fun d q there => ?_, fun d q there => ?_, fun q running => ?_,
    fun d e q first second => ?_, fun q idle => ?_⟩
  · by_cases here : d = c
    · subst here
      rw [cpus', Function.update_self]
      simp [s', Loop.proc]
    · rw [cpus', Function.update_of_ne here, elsewhere d here]
      exact inv.cpus d
  · have holds' : s'.holds = Function.update s.holds c ((Loop.unlocking p).holds s.pc) :=
      holds_idle rfl rfl
    rw [holds', show (Loop.unlocking p).holds s.pc = some p from rfl]
    exact inv.owned.keep c (by simp [holds, at_, Loop.holds])
  · have other : d ≠ c := fun same => (notThere q).1 (same ▸ there)
    rw [elsewhere d other] at there
    have notP : q ≠ p := fun same => nowhere d (same ▸ there)
    rw [states q notP]
    exact inv.running d q there
  · have other : d ≠ c := fun same => (notThere q).2 (same ▸ there)
    rw [elsewhere d other] at there
    have notP : q ≠ p := by
      rintro rfl
      have lockC : s.lock q = some c := inv.lock_of_holds (by simp [holds, at_, Loop.holds])
      have lockD : s.lock q = some d := inv.lock_of_holds (by simp [holds, there, Loop.holds])
      exact other (Option.some.inj (lockD.symm.trans lockC))
    rw [states q notP]
    exact inv.back d q there
  · have notP : q ≠ p := fun same => stopped (same ▸ running)
    rw [states q notP] at running
    obtain ⟨d, there⟩ := inv.dispatched q running
    have other : d ≠ c := by
      rintro rfl
      simp [at_] at there
    exact ⟨d, by rw [elsewhere d other]; exact there⟩
  · have firstOther : d ≠ c := fun same => (notThere q).1 (same ▸ first)
    have secondOther : e ≠ c := fun same => (notThere q).1 (same ▸ second)
    rw [elsewhere d firstOther] at first
    rw [elsewhere e secondOther] at second
    exact inv.unique d e q first second
  · refine inv.parked q fun d there => ?_
    by_cases here : d = c
    · subst here
      simp [at_] at there
    · exact idle d (by rw [elsewhere d here]; exact there)

/-! ## Every step, and every run -/

theorem Handoff.thread (inv : Handoff s) (on : s.loop c = .running p) : Handoff (s.thread c p) := by
  have pcs : ∀ pc q, q ≠ p → (s.goto p pc).pc q = s.pc q := fun pc q other => by simp [Smp.goto, other]
  unfold Smp.thread
  split
  · next point => exact inv.release on (by rw [point]; rfl) rfl (.refl _)
  · next point =>
    split
    · exact inv
    · next i rest _ =>
      exact inv.stay on (.refl _) rfl (pcs i.entry) rfl (by simp [Smp.goto, point]; cases i <;> rfl)
  · exact inv.acquire on rfl
  · next point =>
    exact inv.sched on (by rw [point]; rfl) (Kernel.put_cpus _ _) (by simp [Kernel.putProc])
      (fun q other => by simp [other]) rfl
  · next point => exact inv.release on (by rw [point]; rfl) rfl (.refl _)
  · next point =>
    split
    · exact inv.stay on (.refl _) rfl (pcs .next) rfl (by simp [Smp.goto, point, Point.held])
    · exact inv
  · next point =>
    split
    · exact inv.stay on (.refl _) rfl (pcs .next) rfl (by simp [Smp.goto, point, Point.held])
    · exact inv
  · next point => exact inv.stay on (.refl _) rfl (pcs .next) rfl (by simp [Smp.goto, point, Point.held])
  · next chan point => exact inv.goto on (by rw [point]; split <;> rfl)
  · exact inv.acquire on rfl
  · next chan again point =>
    split
    · exact inv.stay on (.refl _) rfl (pcs _) rfl (by simp [Smp.goto, point, Point.held])
    · exact inv
  · next chan again point =>
    exact inv.sched on (by rw [point]; rfl) rfl (by simp) (fun q other => by simp [other]) rfl
  · next chan again point =>
    exact inv.release on (by rw [point]; rfl) rfl (Kernel.onlyWakes_setProc _ _ _ rfl)
  · next chan again point =>
    split
    · exact inv.stay on (.refl _) rfl (pcs _) rfl (by simp only [Smp.goto, Function.update_self, point]; split <;> rfl)
    · exact inv
  · next chan q point =>
    split
    · split
      · exact inv.goto on (by rw [point]; rfl)
      · exact inv.acquire on rfl
    · exact inv.goto on (by rw [point]; rfl)
  · next chan q point =>
    refine inv.release on (by rw [point]; rfl) rfl ?_
    split
    · next asleep => exact Kernel.onlyWakes_put _ (by rw [asleep.1]; decide)
    · exact .refl _
  · next pid q point =>
    split
    · exact inv.acquire on rfl
    · exact inv.goto on (by rw [point]; rfl)
  · next pid q point =>
    split
    · refine inv.release on (by rw [point]; rfl) rfl
        ((Kernel.onlyWakes_setProc s.k q { s.k.proc q with killed := true } rfl).trans ?_)
      split
      · next asleep => exact Kernel.onlyWakes_put _ (by rw [asleep]; decide)
      · exact .refl _
    · exact inv.release on (by rw [point]; rfl) rfl (.refl _)
  · exact inv.acquire on rfl
  · next status point =>
    exact inv.sched on (by rw [point]; rfl) rfl (by simp) (fun q other => by simp [other]) rfl

theorem Handoff.step (inv : Handoff s) (c : CpuId) : Handoff (s.step c) := by
  unfold Smp.step
  split
  · next top =>
    have off : (s.loop c).proc = none := by rw [top]; rfl
    have idle : s.holds c = none := by simp [holds, top, Loop.holds]
    have kernel := Kernel.onlyWakes_get s.k
    split
    · next k got =>
      rw [got] at kernel
      exact inv.idle off .top rfl kernel (by rw [← top, Function.update_eq_self]) rfl (inv.owned.keep c idle)
    · next k p got =>
      rw [got] at kernel
      exact inv.idle off (.picked p) rfl kernel rfl rfl (inv.owned.keep c idle)
  · next p picked =>
    have off : (s.loop c).proc = none := by rw [picked]; rfl
    split
    · next free => exact inv.idle off (.locked p) rfl (.refl _) rfl rfl (inv.owned.acquire free)
    · exact inv
  · next p locked =>
    split
    · next runnable => exact inv.dispatch locked runnable
    · have off : (s.loop c).proc = none := by rw [locked]; rfl
      exact inv.idle off (.unlocking p) rfl (.refl _) rfl rfl
        (inv.owned.keep c (by simp [holds, locked, Loop.holds]))
  · next p on => exact inv.thread on
  · next p back => exact inv.switchBack back
  · next p unlocking =>
    have off : (s.loop c).proc = none := by rw [unlocking]; rfl
    split
    · exact inv.idle off .top rfl (.refl _) rfl rfl
        (inv.owned.release (by simp [holds, unlocking, Loop.holds]))
    · exact inv

theorem handoff_boot {k : Kernel} {code : Slot → List Instr} (idle : ∀ c, k.cpus c = none)
    (stopped : ∀ p, (k.proc p).state ≠ .RUNNING) : Handoff (boot k code) where
  cpus c := idle c
  owned c q held := by simp [holds, boot, Loop.holds] at held
  running c q there := by simp [boot] at there
  back c q there := by simp [boot] at there
  dispatched q running := absurd running (stopped q)
  unique c d q there := by simp [boot] at there
  parked _ _ := rfl

theorem handoff_run {k : Kernel} {code : Slot → List Instr} (idle : ∀ c, k.cpus c = none)
    (stopped : ∀ p, (k.proc p).state ≠ .RUNNING) (order : List CpuId) :
    Handoff (Machine.run step (boot k code) order) :=
  Machine.run_invariant (fun _ c inv => inv.step c) (handoff_boot idle stopped) order

/-! ## Outside the critical sections of `p->lock` -/

/-- A CPU whose `c->proc` is `p` while nobody holds `p->lock` runs the thread
of `p`: one that had switched back would still hold the lock. -/
theorem Handoff.running_of_cpus (inv : Handoff s) (free : s.lock p = none) (there : s.k.cpus c = some p) :
    s.loop c = .running p := by
  rw [inv.cpus c] at there
  cases at_ : s.loop c with
  | running q =>
    rw [at_] at there
    cases there
    rfl
  | back q =>
    rw [at_] at there
    cases there
    have held := inv.lock_of_holds (show s.holds c = some p by simp [holds, at_, Loop.holds])
    simp [free] at held
  | _ => simp [at_, Loop.proc] at there

theorem Handoff.running_iff (inv : Handoff s) (free : s.lock p = none) :
    (s.k.proc p).state = .RUNNING ↔ ∃! c, s.k.cpus c = some p := by
  constructor
  · intro running
    obtain ⟨c, there⟩ := inv.dispatched p running
    refine ⟨c, show s.k.cpus c = some p by rw [inv.cpus c, there]; rfl, fun d on => ?_⟩
    exact inv.unique d c p (inv.running_of_cpus free on) there
  · rintro ⟨c, there, _⟩
    exact inv.running c p (inv.running_of_cpus free there)

theorem Handoff.dispatch_of_unlocked (inv : Handoff s) (free : ∀ p, s.lock p = none) :
    Kernel.Dispatch s.k := by
  intro c p there
  have on := inv.running_of_cpus (free p) there
  exact ⟨inv.running c p on, fun d elsewhere => inv.unique d c p (inv.running_of_cpus (free p) elsewhere) on⟩

/-- No process runs on two CPUs: from any table with nothing running, whatever
the ready queue holds (stale or duplicate entries included) and whatever each
process does, after any interleaving of the CPUs' steps, a process whose lock is
free is RUNNING exactly when exactly one CPU has it as `c->proc`. -/
theorem running_on_one_cpu {k : Kernel} {code : Slot → List Instr} (idle : ∀ c, k.cpus c = none)
    (stopped : ∀ p, (k.proc p).state ≠ .RUNNING) (order : List CpuId) (p : Slot)
    (free : (Machine.run step (boot k code) order).lock p = none) :
    ((Machine.run step (boot k code) order).k.proc p).state = .RUNNING ↔
      ∃! c, (Machine.run step (boot k code) order).k.cpus c = some p :=
  (handoff_run idle stopped order).running_iff free

/-- After `userinit`, with every process yielding once: CPU 0 pops `initproc`,
takes its lock, dispatches it, and `forkret` releases the lock. -/
theorem running_on_one_cpu_initproc :
    (∀ c, Kernel.boot.cpus c = none) ∧ (∀ p, (Kernel.boot.proc p).state ≠ .RUNNING) ∧
      (Machine.run step (boot Kernel.boot fun _ => [.yield]) [0, 0, 0, 0]).lock 0 = none ∧
      (((Machine.run step (boot Kernel.boot fun _ => [.yield]) [0, 0, 0, 0]).k.proc 0).state = .RUNNING ↔
        ∃! c, (Machine.run step (boot Kernel.boot fun _ => [.yield]) [0, 0, 0, 0]).k.cpus c = some 0) :=
  ⟨by decide +kernel, by decide +kernel, by decide +kernel,
    running_on_one_cpu (by decide +kernel) (by decide +kernel) [0, 0, 0, 0] 0 (by decide +kernel)⟩

end Smp

end Xv6
