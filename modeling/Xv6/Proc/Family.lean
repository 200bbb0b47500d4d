import Xv6.Proc.Defs

/-! The process tree as fork, exit and wait keep it, apart from everything else
in the kernel. A slot is unused, holds a live process, or holds a zombie; it has
a serial (which allocation made it), a pid, a parent and an exit status; the
tree also has `initproc`, the next pid, the number of allocations, and the
logs of the exits and of the successful waits. Four operations change it: a
fork that succeeds (`spawn`), a fork whose allocation fails after the pid was
taken (`burn`), an exit (`adopt` then the zombie), and a wait that reaps.

The `int` pids wrap, so they tell processes apart only within 2^32
allocations; the serials never repeat. `Tree` is what holds of every tree these
operations reach from the boot tree: every held slot but `initproc`'s has a
held parent with a smaller serial (so the parent relation has no cycle), no
process is the child of a zombie, serials are distinct and below the number of
allocations, and every process is logged as exited at most once, and as reaped
at most once, with the pid it had and the status it exited with. -/
namespace Xv6

/-- Whether a slot is free, holds a process, or holds one that has exited. -/
inductive Life where
  | unused | live | zombie
  deriving DecidableEq, Repr

/-- What the bookkeeping of fork, exit and wait reads of a slot. -/
structure Kin where
  life : Life
  serial : Nat
  pid : Int
  parent : Option Slot
  xstate : Int
  deriving DecidableEq, Repr

/-- A slot after `freeproc`. -/
def Kin.free : Kin := ⟨.unused, 0, 0, none, 0⟩

@[ext] structure Family where
  kin : Slot → Kin
  initproc : Option Slot
  nextpid : Int
  allocations : Nat
  /-- Each exit: the serial, the pid and the status passed to `exit`. -/
  exits : List (Nat × Int × Int)
  /-- Each successful `wait`: the serial, the pid returned and the status passed back. -/
  reaps : List (Nat × Int × Int)

namespace Family

/-- A fork by `p` that succeeds in the free slot `child`. -/
def spawn (f : Family) (p child : Slot) : Family :=
  { f with
    kin := Function.update f.kin child
      { f.kin child with life := .live, serial := f.allocations, pid := f.nextpid, parent := some p }
    nextpid := pidSucc f.nextpid
    allocations := f.allocations + 1 }

/-- A fork that takes a pid for the free slot `slot` and then frees it. -/
def burn (f : Family) (slot : Slot) : Family :=
  { f with kin := Function.update f.kin slot .free, nextpid := pidSucc f.nextpid, allocations := f.allocations + 1 }

/-- `reparent(p)`: every child of `p` becomes a child of `initproc`. -/
def adopt (f : Family) (p : Slot) : Family :=
  { f with
    kin := fun s => if (f.kin s).parent = some p then { f.kin s with parent := f.initproc } else f.kin s }

/-- One iteration of `reparent`'s loop, at slot `x`. -/
def adoptOne (f : Family) (p x : Slot) : Family :=
  if (f.kin x).parent = some p then
    { f with kin := Function.update f.kin x { f.kin x with parent := f.initproc } }
  else f

/-- `exit(status)` by `p`: its children are adopted, and it becomes a zombie. -/
def exit (f : Family) (p : Slot) (status : Int) : Family :=
  { f.adopt p with
    kin := Function.update (f.adopt p).kin p { (f.adopt p).kin p with life := .zombie, xstate := status }
    exits := f.exits ++ [((f.kin p).serial, (f.kin p).pid, status)] }

/-- A `wait` that returns the zombie in slot `np` and frees it. -/
def reap (f : Family) (np : Slot) : Family :=
  { f with
    kin := Function.update f.kin np .free
    reaps := f.reaps ++ [((f.kin np).serial, (f.kin np).pid, (f.kin np).xstate)] }

/-- What one kernel command can do to the tree, with the guards the kernel checks. -/
inductive Step : Family → Family → Prop
  | stay (f : Family) : Step f f
  | spawn (f : Family) (p child : Slot) (unused : (f.kin child).life = .unused)
      (live : (f.kin p).life = .live) : Step f (f.spawn p child)
  | burn (f : Family) (slot : Slot) (unused : (f.kin slot).life = .unused) : Step f (f.burn slot)
  | exit (f : Family) (p : Slot) (status : Int) (live : (f.kin p).life = .live)
      (notInit : f.initproc ≠ some p) : Step f (f.exit p status)
  | reap (f : Family) (p np : Slot) (zombie : (f.kin np).life = .zombie)
      (child : (f.kin np).parent = some p) : Step f (f.reap np)

section Simp

variable (f : Family) (p s : Slot)

@[simp] theorem spawn_kin_self :
    (f.spawn p s).kin s = { f.kin s with life := .live, serial := f.allocations, pid := f.nextpid, parent := some p } := by
  simp [spawn]

@[simp] theorem spawn_kin_of_ne {child : Slot} (other : s ≠ child) : (f.spawn p child).kin s = f.kin s := by
  simp [spawn, other]

@[simp] theorem spawn_initproc : (f.spawn p s).initproc = f.initproc := rfl
@[simp] theorem spawn_nextpid : (f.spawn p s).nextpid = pidSucc f.nextpid := rfl
@[simp] theorem spawn_allocations : (f.spawn p s).allocations = f.allocations + 1 := rfl
@[simp] theorem spawn_exits : (f.spawn p s).exits = f.exits := rfl
@[simp] theorem spawn_reaps : (f.spawn p s).reaps = f.reaps := rfl

@[simp] theorem burn_kin_self : (f.burn s).kin s = .free := by simp [burn]
@[simp] theorem burn_kin_of_ne {slot : Slot} (other : s ≠ slot) : (f.burn slot).kin s = f.kin s := by
  simp [burn, other]
@[simp] theorem burn_initproc : (f.burn s).initproc = f.initproc := rfl
@[simp] theorem burn_nextpid : (f.burn s).nextpid = pidSucc f.nextpid := rfl
@[simp] theorem burn_allocations : (f.burn s).allocations = f.allocations + 1 := rfl
@[simp] theorem burn_exits : (f.burn s).exits = f.exits := rfl
@[simp] theorem burn_reaps : (f.burn s).reaps = f.reaps := rfl

@[simp] theorem reap_kin_self : (f.reap s).kin s = .free := by simp [reap]
@[simp] theorem reap_kin_of_ne {np : Slot} (other : s ≠ np) : (f.reap np).kin s = f.kin s := by
  simp [reap, other]
@[simp] theorem reap_initproc : (f.reap s).initproc = f.initproc := rfl
@[simp] theorem reap_nextpid : (f.reap s).nextpid = f.nextpid := rfl
@[simp] theorem reap_allocations : (f.reap s).allocations = f.allocations := rfl
@[simp] theorem reap_exits : (f.reap s).exits = f.exits := rfl
@[simp] theorem reap_reaps : (f.reap s).reaps = f.reaps ++ [((f.kin s).serial, (f.kin s).pid, (f.kin s).xstate)] := rfl

@[simp] theorem Kin.free_life : Kin.free.life = .unused := rfl

@[simp] theorem adopt_life : ((f.adopt p).kin s).life = (f.kin s).life := by
  simp only [adopt]; split <;> rfl
@[simp] theorem adopt_serial : ((f.adopt p).kin s).serial = (f.kin s).serial := by
  simp only [adopt]; split <;> rfl
@[simp] theorem adopt_pid : ((f.adopt p).kin s).pid = (f.kin s).pid := by
  simp only [adopt]; split <;> rfl
@[simp] theorem adopt_xstate : ((f.adopt p).kin s).xstate = (f.kin s).xstate := by
  simp only [adopt]; split <;> rfl
theorem adopt_parent : ((f.adopt p).kin s).parent =
    if (f.kin s).parent = some p then f.initproc else (f.kin s).parent := by
  simp only [adopt]; split <;> rfl
@[simp] theorem adopt_initproc : (f.adopt p).initproc = f.initproc := rfl
@[simp] theorem adopt_nextpid : (f.adopt p).nextpid = f.nextpid := rfl
@[simp] theorem adopt_allocations : (f.adopt p).allocations = f.allocations := rfl
@[simp] theorem adopt_exits : (f.adopt p).exits = f.exits := rfl
@[simp] theorem adopt_reaps : (f.adopt p).reaps = f.reaps := rfl

@[simp] theorem exit_kin_self (status : Int) :
    (f.exit p status).kin p = { (f.adopt p).kin p with life := .zombie, xstate := status } := by
  simp [exit]
@[simp] theorem exit_kin_of_ne {q : Slot} (status : Int) (other : s ≠ q) :
    (f.exit q status).kin s = (f.adopt q).kin s := by
  simp [exit, other]
@[simp] theorem exit_initproc (status : Int) : (f.exit p status).initproc = f.initproc := rfl
@[simp] theorem exit_nextpid (status : Int) : (f.exit p status).nextpid = f.nextpid := rfl
@[simp] theorem exit_allocations (status : Int) : (f.exit p status).allocations = f.allocations := rfl
@[simp] theorem exit_exits (status : Int) :
    (f.exit p status).exits = f.exits ++ [((f.kin p).serial, (f.kin p).pid, status)] := rfl
@[simp] theorem exit_reaps (status : Int) : (f.exit p status).reaps = f.reaps := rfl

end Simp

theorem Step.of_eq {f f' : Family} (same : f' = f) : Step f f' := by
  rw [same]
  exact .stay f

/-- `s` is the parent of `c`, and `c` holds a process. -/
def ParentOf (f : Family) (s c : Slot) : Prop :=
  (f.kin c).life ≠ .unused ∧ (f.kin c).parent = some s

instance (f : Family) (s c : Slot) : Decidable (ParentOf f s c) :=
  inferInstanceAs (Decidable (_ ∧ _))

/-- The serials of a log, all below a bound. -/
def Below {α : Type} (log : List (Nat × α)) (bound : Nat) : Prop := ∀ e ∈ log, e.1 < bound

instance {α : Type} (log : List (Nat × α)) (bound : Nat) : Decidable (Below log bound) :=
  inferInstanceAs (Decidable (∀ e ∈ log, e.1 < bound))

theorem Below.weaken {α : Type} {log : List (Nat × α)} {bound bound' : Nat} (below : Below log bound)
    (le : bound ≤ bound') : Below log bound' :=
  fun e member => lt_of_lt_of_le (below e member) le

theorem Below.append {α : Type} {log : List (Nat × α)} {bound : Nat} {e : Nat × α} (below : Below log bound)
    (fresh : e.1 < bound) : Below (log ++ [e]) bound := by
  intro x member
  rcases List.mem_append.mp member with old | new
  · exact below x old
  · rw [List.mem_singleton.mp new]
    exact fresh

theorem nodup_append_serial {α : Type} {log : List (Nat × α)} {e : Nat × α} (nodup : (log.map Prod.fst).Nodup)
    (fresh : e.1 ∉ log.map Prod.fst) : ((log ++ [e]).map Prod.fst).Nodup := by
  rw [List.map_append, List.nodup_append]
  refine ⟨nodup, by simp, ?_⟩
  intro x old y new
  rw [List.map_singleton, List.mem_singleton] at new
  rintro rfl
  exact fresh (new ▸ old)

structure Tree (f : Family) : Prop where
  init : f.initproc = some 0
  initLive : (f.kin 0).life = .live
  initSerial : (f.kin 0).serial = 0
  initOrphan : (f.kin 0).parent = none
  parentHeld : ∀ s, (f.kin s).life ≠ .unused → s ≠ 0 →
    ∃ q, (f.kin s).parent = some q ∧ (f.kin q).life ≠ .unused
  parentOlder : ∀ s q, ParentOf f q s → (f.kin q).serial < (f.kin s).serial
  parentNotZombie : ∀ s q, ParentOf f q s → (f.kin q).life ≠ .zombie
  serialFresh : ∀ s, (f.kin s).life ≠ .unused → (f.kin s).serial < f.allocations
  serialUnique : ∀ s t, (f.kin s).life ≠ .unused → (f.kin t).life ≠ .unused →
    (f.kin s).serial = (f.kin t).serial → s = t
  zombieExited : ∀ s, (f.kin s).life = .zombie → ((f.kin s).serial, (f.kin s).pid, (f.kin s).xstate) ∈ f.exits
  exitsOnce : (f.exits.map Prod.fst).Nodup
  exitsBelow : Below f.exits f.allocations
  liveNotExited : ∀ s, (f.kin s).life = .live → (f.kin s).serial ∉ f.exits.map Prod.fst
  reapsOnce : (f.reaps.map Prod.fst).Nodup
  reapsBelow : Below f.reaps f.allocations
  heldNotReaped : ∀ s, (f.kin s).life ≠ .unused → (f.kin s).serial ∉ f.reaps.map Prod.fst
  reapsExited : ∀ r ∈ f.reaps, r ∈ f.exits

/-! `reparent` adopts the children one slot at a time; over the whole table
that is `adopt`. -/

theorem adoptOne_frame (f : Family) (p x : Slot) :
    (f.adoptOne p x).initproc = f.initproc ∧ (f.adoptOne p x).nextpid = f.nextpid ∧
      (f.adoptOne p x).allocations = f.allocations ∧
      (f.adoptOne p x).exits = f.exits ∧ (f.adoptOne p x).reaps = f.reaps := by
  unfold adoptOne
  split <;> exact ⟨rfl, rfl, rfl, rfl, rfl⟩

theorem adoptOne_kin (f : Family) (p x s : Slot) :
    (f.adoptOne p x).kin s =
      if s = x ∧ (f.kin s).parent = some p then { f.kin s with parent := f.initproc } else f.kin s := by
  unfold adoptOne
  by_cases here : s = x
  · subst here
    split <;> simp [*]
  · split <;> simp [here]

theorem adoptOne_scan (p : Slot) (slots : List Slot) (nodup : slots.Nodup) (f : Family) :
    (∀ s, (slots.foldl (fun f x => f.adoptOne p x) f).kin s =
      if s ∈ slots ∧ (f.kin s).parent = some p then { f.kin s with parent := f.initproc } else f.kin s) ∧
    (slots.foldl (fun f x => f.adoptOne p x) f).initproc = f.initproc ∧
    (slots.foldl (fun f x => f.adoptOne p x) f).nextpid = f.nextpid ∧
    (slots.foldl (fun f x => f.adoptOne p x) f).allocations = f.allocations ∧
    (slots.foldl (fun f x => f.adoptOne p x) f).exits = f.exits ∧
    (slots.foldl (fun f x => f.adoptOne p x) f).reaps = f.reaps := by
  induction slots generalizing f with
  | nil => simp
  | cons x rest ih =>
    obtain ⟨fresh, nodupRest⟩ := List.nodup_cons.mp nodup
    obtain ⟨kin, init, next, allocs, exits, reaps⟩ := ih nodupRest (f.adoptOne p x)
    obtain ⟨init1, next1, allocs1, exits1, reaps1⟩ := adoptOne_frame f p x
    refine ⟨fun s => ?_, init.trans init1, next.trans next1, allocs.trans allocs1, exits.trans exits1,
      reaps.trans reaps1⟩
    rw [List.foldl_cons, kin, adoptOne_kin, init1]
    by_cases here : s = x
    · subst here
      by_cases adopted : (f.kin s).parent = some p <;> simp [adopted, fresh]
    · by_cases adopted : (f.kin s).parent = some p <;> simp [adopted, here]

theorem adopt_eq_scan (f : Family) (p : Slot) :
    (List.finRange NPROC).foldl (fun f x => f.adoptOne p x) f = f.adopt p := by
  obtain ⟨kin, init, next, allocs, exits, reaps⟩ := adoptOne_scan p _ (List.nodup_finRange NPROC) f
  refine Family.ext (funext fun s => ?_) init next allocs exits reaps
  rw [kin]
  simp [adopt]

section Tree

variable {f : Family}

theorem Tree.parent_held (t : f.Tree) {s q : Slot} (parent : ParentOf f q s) : (f.kin q).life ≠ .unused := by
  by_cases root : s = 0
  · subst root
    have none := t.initOrphan
    rw [parent.2] at none
    exact absurd none (by simp)
  · obtain ⟨q', parent', held⟩ := t.parentHeld s parent.1 root
    rw [parent.2, Option.some_inj] at parent'
    exact parent' ▸ held

theorem Tree.acyclic (t : f.Tree) (s : Slot) : ¬ Relation.TransGen (ParentOf f) s s := by
  intro cycle
  have grows : Relation.TransGen (· < ·) (f.kin s).serial (f.kin s).serial :=
    cycle.lift (fun s => (f.kin s).serial) fun q c parent => t.parentOlder c q parent
  rw [Relation.transGen_eq_self] at grows
  exact lt_irrefl _ grows

theorem Below.not_mem {α : Type} {log : List (Nat × α)} {bound : Nat} (below : Below log bound) :
    bound ∉ log.map Prod.fst := by
  intro member
  obtain ⟨e, old, rfl⟩ := List.mem_map.mp member
  exact lt_irrefl _ (below e old)

/-- A fork: the child gets the next serial and pid and a live parent; nothing else changes. -/
theorem Tree.spawn (t : f.Tree) {p child : Slot} (unused : (f.kin child).life = .unused)
    (live : (f.kin p).life = .live) : (f.spawn p child).Tree := by
  have heldParent : (f.kin p).life ≠ .unused := by rw [live]; decide
  have parentOther : p ≠ child := by
    rintro rfl
    exact heldParent unused
  have rootOther : (0 : Slot) ≠ child := by
    rintro rfl
    rw [t.initLive] at unused
    cases unused
  have childless : ∀ s, ¬ ParentOf f child s := fun s parent => t.parent_held parent unused
  have old : ∀ s q, ParentOf (f.spawn p child) q s → s ≠ child → ParentOf f q s := by
    intro s q parent other
    simpa [ParentOf, other] using parent
  refine ⟨by simpa using t.init, by simpa [rootOther] using t.initLive, by simpa [rootOther] using t.initSerial,
    by simpa [rootOther] using t.initOrphan, ?_, ?_, ?_, ?_, ?_, ?_, ?_, ?_, ?_, ?_, ?_, ?_, ?_⟩
  · intro s held root
    by_cases same : s = child
    · subst same
      exact ⟨p, by simp, by simpa [parentOther] using heldParent⟩
    · obtain ⟨q, parent, heldQ⟩ := t.parentHeld s (by simpa [same] using held) root
      have qOther : q ≠ child := by
        rintro rfl
        exact heldQ unused
      exact ⟨q, by simpa [same] using parent, by simpa [qOther] using heldQ⟩
  · intro s q parent
    by_cases same : s = child
    · subst same
      obtain rfl : p = q := by simpa [ParentOf] using parent
      simpa [parentOther] using t.serialFresh p heldParent
    · have was := old s q parent same
      have qOther : q ≠ child := fun h => childless s (h ▸ was)
      simpa [same, qOther] using t.parentOlder s q was
  · intro s q parent
    by_cases same : s = child
    · subst same
      obtain rfl : p = q := by simpa [ParentOf] using parent
      simp [parentOther, live]
    · have was := old s q parent same
      have qOther : q ≠ child := fun h => childless s (h ▸ was)
      simpa [qOther] using t.parentNotZombie s q was
  · intro s held
    by_cases same : s = child
    · subst same; simp
    · have fresh := t.serialFresh s (by simpa [same] using held)
      simp only [spawn_kin_of_ne _ _ _ same, spawn_allocations]
      omega
  · intro s u heldS heldU sameSerial
    by_cases sChild : s = child <;> by_cases uChild : u = child
    · rw [sChild, uChild]
    · subst sChild
      have fresh := t.serialFresh u (by simpa [uChild] using heldU)
      simp [uChild] at sameSerial
      omega
    · subst uChild
      have fresh := t.serialFresh s (by simpa [sChild] using heldS)
      simp [sChild] at sameSerial
      omega
    · exact t.serialUnique s u (by simpa [sChild] using heldS) (by simpa [uChild] using heldU)
        (by simpa [sChild, uChild] using sameSerial)
  · intro s zombie
    by_cases same : s = child
    · subst same; simp at zombie
    · simpa [same] using t.zombieExited s (by simpa [same] using zombie)
  · simpa using t.exitsOnce
  · simpa using t.exitsBelow.weaken (by omega)
  · intro s alive
    by_cases same : s = child
    · subst same; simpa using t.exitsBelow.not_mem
    · simpa [same] using t.liveNotExited s (by simpa [same] using alive)
  · simpa using t.reapsOnce
  · simpa using t.reapsBelow.weaken (by omega)
  · intro s held
    by_cases same : s = child
    · subst same; simpa using t.reapsBelow.not_mem
    · simpa [same] using t.heldNotReaped s (by simpa [same] using held)
  · simpa using t.reapsExited

/-- A fork whose allocation fails: the free slot stays free, and a pid and a serial are spent. -/
theorem Tree.burn (t : f.Tree) {slot : Slot} (unused : (f.kin slot).life = .unused) : (f.burn slot).Tree := by
  have rootOther : (0 : Slot) ≠ slot := by
    rintro rfl
    rw [t.initLive] at unused
    cases unused
  have childless : ∀ s, ¬ ParentOf f slot s := fun s parent => t.parent_held parent unused
  have held : ∀ s, ((f.burn slot).kin s).life ≠ .unused → s ≠ slot ∧ (f.kin s).life ≠ .unused := by
    intro s heldS
    have other : s ≠ slot := by
      rintro rfl
      simp at heldS
    exact ⟨other, by simpa [other] using heldS⟩
  have old : ∀ s q, ParentOf (f.burn slot) q s → s ≠ slot ∧ q ≠ slot ∧ ParentOf f q s := by
    intro s q parent
    obtain ⟨other, _⟩ := held s parent.1
    have was : ParentOf f q s := by simpa [ParentOf, other] using parent
    exact ⟨other, fun same => childless s (same ▸ was), was⟩
  refine ⟨by simpa using t.init, by simpa [rootOther] using t.initLive, by simpa [rootOther] using t.initSerial,
    by simpa [rootOther] using t.initOrphan, ?_, ?_, ?_, ?_, ?_, ?_, ?_, ?_, ?_, ?_, ?_, ?_, ?_⟩
  · intro s heldS root
    obtain ⟨other, heldOld⟩ := held s heldS
    obtain ⟨q, parent, heldQ⟩ := t.parentHeld s heldOld root
    have qOther : q ≠ slot := by
      rintro rfl
      exact heldQ unused
    exact ⟨q, by simpa [other] using parent, by simpa [qOther] using heldQ⟩
  · intro s q parent
    obtain ⟨other, qOther, was⟩ := old s q parent
    simpa [other, qOther] using t.parentOlder s q was
  · intro s q parent
    obtain ⟨_, qOther, was⟩ := old s q parent
    simpa [qOther] using t.parentNotZombie s q was
  · intro s heldS
    obtain ⟨other, heldOld⟩ := held s heldS
    have fresh := t.serialFresh s heldOld
    simp only [burn_kin_of_ne _ _ other, burn_allocations]
    omega
  · intro s u heldS heldU sameSerial
    obtain ⟨sOther, heldS'⟩ := held s heldS
    obtain ⟨uOther, heldU'⟩ := held u heldU
    exact t.serialUnique s u heldS' heldU' (by simpa [sOther, uOther] using sameSerial)
  · intro s zombie
    have other : s ≠ slot := by
      rintro rfl
      simp at zombie
    simpa [other] using t.zombieExited s (by simpa [other] using zombie)
  · simpa using t.exitsOnce
  · simpa using t.exitsBelow.weaken (by omega)
  · intro s alive
    have other : s ≠ slot := by
      rintro rfl
      simp at alive
    simpa [other] using t.liveNotExited s (by simpa [other] using alive)
  · simpa using t.reapsOnce
  · simpa using t.reapsBelow.weaken (by omega)
  · intro s heldS
    obtain ⟨other, heldOld⟩ := held s heldS
    simpa [other] using t.heldNotReaped s heldOld
  · simpa using t.reapsExited

/-- A wait frees a zombie, which has no children, and logs its serial, pid and status. -/
theorem Tree.reap (t : f.Tree) {np : Slot} (zombie : (f.kin np).life = .zombie) : (f.reap np).Tree := by
  have heldNp : (f.kin np).life ≠ .unused := by rw [zombie]; decide
  have rootOther : (0 : Slot) ≠ np := by
    rintro rfl
    rw [t.initLive] at zombie
    cases zombie
  have childless : ∀ s, ¬ ParentOf f np s := fun s parent => t.parentNotZombie s np parent zombie
  have held : ∀ s, ((f.reap np).kin s).life ≠ .unused → s ≠ np ∧ (f.kin s).life ≠ .unused := by
    intro s heldS
    have other : s ≠ np := by
      rintro rfl
      simp at heldS
    exact ⟨other, by simpa [other] using heldS⟩
  have old : ∀ s q, ParentOf (f.reap np) q s → s ≠ np ∧ q ≠ np ∧ ParentOf f q s := by
    intro s q parent
    obtain ⟨other, _⟩ := held s parent.1
    have was : ParentOf f q s := by simpa [ParentOf, other] using parent
    exact ⟨other, fun same => childless s (same ▸ was), was⟩
  refine ⟨by simpa using t.init, by simpa [rootOther] using t.initLive, by simpa [rootOther] using t.initSerial,
    by simpa [rootOther] using t.initOrphan, ?_, ?_, ?_, ?_, ?_, ?_, ?_, ?_, ?_, ?_, ?_, ?_, ?_⟩
  · intro s heldS root
    obtain ⟨other, heldOld⟩ := held s heldS
    obtain ⟨q, parent, heldQ⟩ := t.parentHeld s heldOld root
    have qOther : q ≠ np := fun same => childless s (same ▸ ⟨heldOld, parent⟩)
    exact ⟨q, by simpa [other] using parent, by simpa [qOther] using heldQ⟩
  · intro s q parent
    obtain ⟨other, qOther, was⟩ := old s q parent
    simpa [other, qOther] using t.parentOlder s q was
  · intro s q parent
    obtain ⟨_, qOther, was⟩ := old s q parent
    simpa [qOther] using t.parentNotZombie s q was
  · intro s heldS
    obtain ⟨other, heldOld⟩ := held s heldS
    simpa [other] using t.serialFresh s heldOld
  · intro s u heldS heldU sameSerial
    obtain ⟨sOther, heldS'⟩ := held s heldS
    obtain ⟨uOther, heldU'⟩ := held u heldU
    exact t.serialUnique s u heldS' heldU' (by simpa [sOther, uOther] using sameSerial)
  · intro s zombieS
    have other : s ≠ np := by
      rintro rfl
      simp at zombieS
    simpa [other] using t.zombieExited s (by simpa [other] using zombieS)
  · simpa using t.exitsOnce
  · simpa using t.exitsBelow
  · intro s alive
    have other : s ≠ np := by
      rintro rfl
      simp at alive
    simpa [other] using t.liveNotExited s (by simpa [other] using alive)
  · exact nodup_append_serial t.reapsOnce (t.heldNotReaped np heldNp)
  · exact t.reapsBelow.append (t.serialFresh np heldNp)
  · intro s heldS
    obtain ⟨other, heldOld⟩ := held s heldS
    have distinct : (f.kin s).serial ≠ (f.kin np).serial := fun same =>
      other (t.serialUnique s np heldOld heldNp same)
    simpa [other, distinct] using t.heldNotReaped s heldOld
  · intro r member
    rcases List.mem_append.mp member with old | new
    · exact t.reapsExited r old
    · rw [List.mem_singleton.mp new]
      exact t.zombieExited np zombie

theorem Tree.exit_parent (t : f.Tree) {p : Slot} (status : Int) (live : (f.kin p).life = .live)
    (s : Slot) : ((f.exit p status).kin s).parent =
      if (f.kin s).parent = some p then f.initproc else (f.kin s).parent := by
  have notSelf : (f.kin p).parent ≠ some p := fun self =>
    lt_irrefl _ (t.parentOlder p p ⟨by rw [live]; decide, self⟩)
  by_cases same : s = p
  · subst same; simp [adopt_parent, notSelf]
  · simp [same, adopt_parent]

/-- An exit: the children of `p` go to `initproc`, and `p` becomes a zombie
whose serial, pid and status are logged. -/
theorem Tree.exit (t : f.Tree) {p : Slot} (status : Int) (live : (f.kin p).life = .live)
    (notInit : f.initproc ≠ some p) : (f.exit p status).Tree := by
  have heldP : (f.kin p).life ≠ .unused := by rw [live]; decide
  have rootOther : (0 : Slot) ≠ p := by
    rintro rfl
    exact notInit t.init
  have rootKept : (f.adopt p).kin 0 = f.kin 0 := by simp [adopt, t.initOrphan]
  have lifeOf : ∀ s, ((f.exit p status).kin s).life = if s = p then .zombie else (f.kin s).life := by
    intro s
    by_cases same : s = p
    · subst same; simp
    · simp [same]
  have serialOf : ∀ s, ((f.exit p status).kin s).serial = (f.kin s).serial := by
    intro s
    by_cases same : s = p
    · subst same; simp
    · simp [same]
  have heldIff : ∀ s, ((f.exit p status).kin s).life ≠ .unused ↔ (f.kin s).life ≠ .unused := by
    intro s
    rw [lifeOf]
    split
    · next same => subst same; simp [heldP]
    · rfl
  have parentOf : ∀ s, ((f.exit p status).kin s).parent =
      if (f.kin s).parent = some p then some 0 else (f.kin s).parent := by
    intro s
    rw [t.exit_parent status live, t.init]
  have adoptedOlder : ∀ s, (f.kin s).life ≠ .unused → (f.kin s).parent = some p → 0 < (f.kin s).serial := by
    intro s heldS parent
    have other : s ≠ 0 := by
      rintro rfl
      rw [t.initOrphan] at parent
      cases parent
    have distinct : (f.kin s).serial ≠ 0 := by
      rw [← t.initSerial]
      exact fun same => other (t.serialUnique s 0 heldS (by rw [t.initLive]; decide) same)
    omega
  refine ⟨by simpa using t.init, by simp [rootOther, rootKept, t.initLive],
    by simp [rootOther, rootKept, t.initSerial], by simp [rootOther, rootKept, t.initOrphan],
    ?_, ?_, ?_, ?_, ?_, ?_, ?_, ?_, ?_, ?_, ?_, ?_, ?_⟩
  · intro s heldS root
    rw [heldIff] at heldS
    rw [parentOf]
    split
    · exact ⟨0, rfl, by rw [heldIff, t.initLive]; decide⟩
    · obtain ⟨q, parent, heldQ⟩ := t.parentHeld s heldS root
      exact ⟨q, parent, (heldIff q).mpr heldQ⟩
  · rintro s q ⟨heldS, parent⟩
    rw [heldIff] at heldS
    rw [parentOf] at parent
    rw [serialOf, serialOf]
    split at parent
    · next adopted =>
      obtain rfl : (0 : Slot) = q := Option.some_inj.mp parent
      rw [t.initSerial]
      exact adoptedOlder s heldS adopted
    · exact t.parentOlder s q ⟨heldS, parent⟩
  · rintro s q ⟨heldS, parent⟩
    rw [heldIff] at heldS
    rw [parentOf] at parent
    rw [lifeOf]
    split at parent
    · obtain rfl : (0 : Slot) = q := Option.some_inj.mp parent
      simp [rootOther, t.initLive]
    · next kept =>
      have qOther : q ≠ p := by
        rintro rfl
        exact kept parent
      simpa [qOther] using t.parentNotZombie s q ⟨heldS, parent⟩
  · intro s heldS
    rw [serialOf, exit_allocations]
    exact t.serialFresh s ((heldIff s).mp heldS)
  · intro s u heldS heldU sameSerial
    rw [serialOf, serialOf] at sameSerial
    exact t.serialUnique s u ((heldIff s).mp heldS) ((heldIff u).mp heldU) sameSerial
  · intro s zombie
    rw [lifeOf] at zombie
    split at zombie
    · next same =>
      subst same
      simp
    · next other =>
      have logged := t.zombieExited s zombie
      simp only [exit_kin_of_ne _ _ _ other, adopt_serial, adopt_pid, adopt_xstate, exit_exits]
      exact List.mem_append_left _ logged
  · exact nodup_append_serial t.exitsOnce (t.liveNotExited p live)
  · exact t.exitsBelow.append (t.serialFresh p heldP)
  · intro s alive
    rw [lifeOf] at alive
    split at alive
    · cases alive
    · next other =>
      have distinct : (f.kin s).serial ≠ (f.kin p).serial := fun same =>
        other (t.serialUnique s p (by rw [alive]; decide) heldP same)
      simpa [serialOf, distinct] using t.liveNotExited s alive
  · simpa using t.reapsOnce
  · simpa using t.reapsBelow
  · intro s heldS
    rw [serialOf, exit_reaps]
    exact t.heldNotReaped s ((heldIff s).mp heldS)
  · intro r member
    exact List.mem_append_left _ (t.reapsExited r member)

theorem Tree.step (t : f.Tree) {f' : Family} (step : Step f f') : f'.Tree := by
  cases step with
  | stay => exact t
  | spawn p child unused live => exact t.spawn unused live
  | burn slot unused => exact t.burn unused
  | exit p status live notInit => exact t.exit status live notInit
  | reap p np zombie _ => exact t.reap zombie

end Tree

end Family

end Xv6
