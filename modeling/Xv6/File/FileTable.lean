import Xv6.Pool
import Xv6.Machine
import Xv6.Proc.Defs

/-! The file table of `kernel/file.c` and the system calls of
`kernel/sysfile.c` and `kernel/proc.c` that open, share and close files:
`open`, `dup`, `pipe`, `close`, `fork` and `exit`, with their error paths. A
`struct file *` is the index of its slot in `ftable.file[]`, a `struct pipe *`
is the page `kalloc` gave it, and an inode is its number. Each system call
runs as one step: the process's own `ofile[]` is written by it alone, and the
shared counts change under `ftable.lock`. What the file system and the pipe
do with the data is left out; `iref` counts the references to each inode that
the file table holds, and `allocated` records which pipe pages are in use. -/
namespace Xv6.Files

abbrev NFILE : Nat := 100
abbrev NOFILE : Nat := 16
def NDEV : Int := 10

def O_RDONLY : Int32 := 0x000
def O_WRONLY : Int32 := 0x001
def O_RDWR : Int32 := 0x002
def O_CREATE : Int32 := 0x200

def T_DIR : Nat := 1
def T_DEVICE : Nat := 3

inductive FdType where
  | FD_NONE | FD_PIPE | FD_INODE | FD_DEVICE
  deriving DecidableEq, Repr

/-- `struct file`, without `off` and `major`, which no modelled function reads. -/
structure File where
  type : FdType
  ref : Int
  readable : Bool
  writable : Bool
  pipe : Nat
  ip : Nat

/-- The two ends of a `struct pipe`. -/
structure Pipe where
  readopen : Bool
  writeopen : Bool

/-- A `struct file *` other than null. -/
abbrev FileId := Fin NFILE

/-- A file descriptor in range. -/
abbrev Fd := Fin NOFILE

/-- What `namei` or `create` found for `open`: the inode's number, type and major. -/
structure Inode where
  inum : Nat
  type : Nat
  major : Int16

structure Sys where
  file : FileId → File
  state : Slot → Procstate
  ofile : Slot → Fd → Option FileId
  pipe : Nat → Pipe
  allocated : Nat → Bool
  iref : Nat → Int

/-! ## `file.c` -/

/-- `filealloc()`: the first file with `ref == 0`, now with `ref = 1`. -/
def filealloc (s : Sys) : Option FileId × Sys :=
  match (List.finRange NFILE).find? fun f => (s.file f).ref = 0 with
  | none => (none, s)
  | some f => (some f, { s with file := Function.update s.file f { s.file f with ref := 1 } })

/-- `filedup(f)`. -/
def filedup (s : Sys) (f : FileId) : Except String Sys :=
  if (s.file f).ref < 1 then .error "filedup"
  else .ok { s with file := Function.update s.file f { s.file f with ref := (s.file f).ref + 1 } }

/-- `pipeclose(pi, writable)`: close one end; `kfree` the pipe when both are closed. -/
def pipeclose (s : Sys) (pi : Nat) (writable : Bool) : Sys :=
  let ends : Pipe :=
    if writable then { s.pipe pi with writeopen := false } else { s.pipe pi with readopen := false }
  let s := { s with pipe := Function.update s.pipe pi ends }
  if !ends.readopen && !ends.writeopen then { s with allocated := Function.update s.allocated pi false }
  else s

/-- `iput(ip)`: the file table's reference goes. -/
def iput (s : Sys) (ip : Nat) : Sys := { s with iref := Function.update s.iref ip (s.iref ip - 1) }

/-- `fileclose(f)`: drop a reference; the last one releases the pipe end or the inode. -/
def fileclose (s : Sys) (f : FileId) : Except String Sys :=
  if (s.file f).ref < 1 then .error "fileclose"
  else if (s.file f).ref - 1 > 0 then
    .ok { s with file := Function.update s.file f { s.file f with ref := (s.file f).ref - 1 } }
  else
    let ff := s.file f
    let s := { s with file := Function.update s.file f { ff with ref := 0, type := .FD_NONE } }
    match ff.type with
    | .FD_PIPE => .ok (pipeclose s ff.pipe ff.writable)
    | .FD_INODE | .FD_DEVICE => .ok (iput s ff.ip)
    | .FD_NONE => .ok s

/-! ## `sysfile.c` -/

/-- `argfd`: the descriptor `fd` of `p` and its file, if it names one. -/
def argfd (s : Sys) (p : Slot) (fd : Int) : Option (Fd × FileId) :=
  if h : 0 ≤ fd ∧ fd < NOFILE then
    let d : Fd := ⟨fd.toNat, by omega⟩
    (s.ofile p d).map fun f => (d, f)
  else none

/-- `fdalloc(f)`: the first free descriptor of `p`, now holding `f`. -/
def fdalloc (s : Sys) (p : Slot) (f : FileId) : Option Fd × Sys :=
  match (List.finRange NOFILE).find? fun fd => s.ofile p fd = none with
  | none => (none, s)
  | some fd => (some fd, { s with ofile := Function.update s.ofile p (Function.update (s.ofile p) fd (some f)) })

/-- `p->ofile[fd] = 0`. -/
def clearFd (s : Sys) (p : Slot) (fd : Fd) : Sys :=
  { s with ofile := Function.update s.ofile p (Function.update (s.ofile p) fd none) }

def sysDup (s : Sys) (p : Slot) (fd : Int) : Except String (Sys × Int) :=
  match argfd s p fd with
  | none => .ok (s, -1)
  | some (_, f) =>
    match fdalloc s p f with
    | (none, s) => .ok (s, -1)
    | (some fd', s) =>
      match filedup s f with
      | .error e => .error e
      | .ok s => .ok (s, fd'.val)

def sysClose (s : Sys) (p : Slot) (fd : Int) : Except String (Sys × Int) :=
  match argfd s p fd with
  | none => .ok (s, -1)
  | some (d, f) =>
    match fileclose (clearFd s p d) f with
    | .error e => .error e
    | .ok s => .ok (s, 0)

/-- `sys_open` once `namei` or `create` found `ip`, which holds a new reference. -/
def openInode (s : Sys) (p : Slot) (omode : Int32) (ip : Inode) : Except String (Sys × Int) :=
  let s := { s with iref := Function.update s.iref ip.inum (s.iref ip.inum + 1) }
  if omode &&& O_CREATE = 0 ∧ ip.type = T_DIR ∧ omode ≠ O_RDONLY then .ok (iput s ip.inum, -1)
  else if ip.type = T_DEVICE ∧ (ip.major < 0 ∨ (ip.major.toInt ≥ NDEV)) then .ok (iput s ip.inum, -1)
  else
    match filealloc s with
    | (none, s) => .ok (iput s ip.inum, -1)
    | (some f, s) =>
      match fdalloc s p f with
      | (none, s) =>
        match fileclose s f with
        | .error e => .error e
        | .ok s => .ok (iput s ip.inum, -1)
      | (some fd, s) =>
        let file : File :=
          { s.file f with
            type := if ip.type = T_DEVICE then .FD_DEVICE else .FD_INODE,
            ip := ip.inum,
            readable := omode &&& O_WRONLY = 0,
            writable := omode &&& O_WRONLY ≠ 0 ∨ omode &&& O_RDWR ≠ 0 }
        .ok ({ s with file := Function.update s.file f file }, fd.val)

/-- `sys_open(path, omode)`; `namei` or `create` fails with `none`. -/
def sysOpen (s : Sys) (p : Slot) (omode : Int32) (found : Option Inode) : Except String (Sys × Int) :=
  match found with
  | none => .ok (s, -1)
  | some ip => openInode s p omode ip

/-- `kalloc()` for a pipe: a page not in use, or 0. -/
def kallocPipe (s : Sys) (page : Option Nat) : Option Nat :=
  match page with
  | some pi => if s.allocated pi then none else some pi
  | none => none

/-- `pipealloc(&rf, &wf)`; on a failure the files it took are closed again. -/
def pipealloc (s : Sys) (page : Option Nat) : Except String (Option (FileId × FileId) × Sys) :=
  match filealloc s with
  | (none, s) => .ok (none, s)
  | (some f0, s) =>
    match filealloc s with
    | (none, s) =>
      match fileclose s f0 with
      | .error e => .error e
      | .ok s => .ok (none, s)
    | (some f1, s) =>
      match kallocPipe s page with
      | none =>
        match fileclose s f0 with
        | .error e => .error e
        | .ok s =>
          match fileclose s f1 with
          | .error e => .error e
          | .ok s => .ok (none, s)
      | some pi =>
        let s := { s with pipe := Function.update s.pipe pi ⟨true, true⟩,
                          allocated := Function.update s.allocated pi true }
        let file := Function.update s.file f0
          { s.file f0 with type := .FD_PIPE, readable := true, writable := false, pipe := pi }
        let file := Function.update file f1
          { file f1 with type := .FD_PIPE, readable := false, writable := true, pipe := pi }
        .ok (some (f0, f1), { s with file := file })

/-- `fileclose(rf); fileclose(wf);` on `sys_pipe`'s error paths. -/
def closeBoth (s : Sys) (rf wf : FileId) : Except String (Sys × Int) :=
  match fileclose s rf with
  | .error e => .error e
  | .ok s =>
    match fileclose s wf with
    | .error e => .error e
    | .ok s => .ok (s, -1)

/-- `sys_pipe(fdarray)`; `copyout` of the two descriptors succeeds when `copied`. -/
def sysPipe (s : Sys) (p : Slot) (page : Option Nat) (copied : Bool) : Except String (Sys × Int) :=
  match pipealloc s page with
  | .error e => .error e
  | .ok (none, s) => .ok (s, -1)
  | .ok (some (rf, wf), s) =>
    match fdalloc s p rf with
    | (none, s) => closeBoth s rf wf
    | (some fd0, s) =>
      match fdalloc s p wf with
      | (none, s) => closeBoth (clearFd s p fd0) rf wf
      | (some fd1, s) =>
        if copied then .ok (s, 0)
        else closeBoth (clearFd (clearFd s p fd0) p fd1) rf wf

/-! ## `proc.c` -/

/-- `fork`'s `for(i = 0; i < NOFILE; i++) if(p->ofile[i]) np->ofile[i] = filedup(p->ofile[i]);`. -/
def dupFiles (s : Sys) (p np : Slot) : List Fd → Except String Sys
  | [] => .ok s
  | i :: rest =>
    match s.ofile p i with
    | none => dupFiles s p np rest
    | some f =>
      match filedup s f with
      | .error e => .error e
      | .ok s => dupFiles { s with ofile := Function.update s.ofile np (Function.update (s.ofile np) i (some f)) } p np rest

/-- `fork()`: `allocproc` takes the first `UNUSED` slot; `uvmcopy` succeeds when
`copied`, else `freeproc` gives the slot back. -/
def fork (s : Sys) (p : Slot) (copied : Bool) : Except String (Sys × Int) :=
  match (List.finRange NPROC).find? fun np => s.state np = .UNUSED with
  | none => .ok (s, -1)
  | some np =>
    if !copied then .ok (s, -1)
    else
      let s := { s with state := Function.update s.state np .USED }
      match dupFiles s p np (List.finRange NOFILE) with
      | .error e => .error e
      | .ok s => .ok ({ s with state := Function.update s.state np .RUNNABLE }, np.val)

/-- `exit`'s `for(int fd = 0; fd < NOFILE; fd++) if(p->ofile[fd]) { fileclose(f); p->ofile[fd] = 0; }`. -/
def closeFiles (s : Sys) (p : Slot) : List Fd → Except String Sys
  | [] => .ok s
  | fd :: rest =>
    match s.ofile p fd with
    | none => closeFiles s p rest
    | some f =>
      match fileclose s f with
      | .error e => .error e
      | .ok s => closeFiles (clearFd s p fd) p rest

/-- `exit(status)`: `initproc` is slot 0. -/
def exit (s : Sys) (p : Slot) : Except String Sys :=
  if p = 0 then .error "init exiting"
  else
    match closeFiles s p (List.finRange NOFILE) with
    | .error e => .error e
    | .ok s => .ok { s with state := Function.update s.state p .ZOMBIE }

inductive Cmd where
  | dup (p : Slot) (fd : Int)
  | close (p : Slot) (fd : Int)
  | open (p : Slot) (omode : Int32) (found : Option Inode)
  | pipe (p : Slot) (page : Option Nat) (copied : Bool)
  | fork (p : Slot) (copied : Bool)
  | exit (p : Slot)
  /-- A parent's `wait` frees a zombie child: `freeproc`. -/
  | reap (p : Slot)

/-- A process that can make system calls. -/
def Sys.running (s : Sys) (p : Slot) : Prop := s.state p ≠ .UNUSED ∧ s.state p ≠ .ZOMBIE

instance (s : Sys) (p : Slot) : Decidable (s.running p) := inferInstanceAs (Decidable (_ ∧ _))

/-- A system call's result is returned to the process and not kept. -/
def call (s : Sys) (p : Slot) (result : Sys → Except String (Sys × Int)) : Except String Sys :=
  if s.running p then (result s).map Prod.fst else .ok s

def step : Except String Sys → Cmd → Except String Sys
  | .error e, _ => .error e
  | .ok s, .dup p fd => call s p fun s => sysDup s p fd
  | .ok s, .close p fd => call s p fun s => sysClose s p fd
  | .ok s, .open p omode found => call s p fun s => sysOpen s p omode found
  | .ok s, .pipe p page copied => call s p fun s => sysPipe s p page copied
  | .ok s, .fork p copied => call s p fun s => fork s p copied
  | .ok s, .exit p => if s.running p then exit s p else .ok s
  | .ok s, .reap p =>
    if s.state p = .ZOMBIE then .ok { s with state := Function.update s.state p .UNUSED } else .ok s

/-- Boot: no file open, `initproc` in slot 0, no pipe. -/
def boot : Sys :=
  { file := fun _ => ⟨.FD_NONE, 0, false, false, 0, 0⟩,
    state := fun p => if p = 0 then .RUNNABLE else .UNUSED,
    ofile := fun _ _ => none, pipe := fun _ => ⟨false, false⟩, allocated := fun _ => false, iref := fun _ => 0 }

/-! ## What the counts count -/

/-- `F` is open on inode `i`. -/
def File.onInode (F : File) (i : Nat) : Bool :=
  (F.type == .FD_INODE || F.type == .FD_DEVICE) && F.ip == i

/-- `F` is open on the read (`w = false`) or write end of pipe `pi`. -/
def File.onEnd (F : File) (pi : Nat) (w : Bool) : Bool :=
  F.type == .FD_PIPE && F.pipe == pi && F.writable == w

/-- The descriptors of processes that are not `UNUSED` that hold `f`. -/
def holders (state : Slot → Procstate) (ofile : Slot → Fd → Option FileId) (f : FileId) : Nat :=
  Pool.count fun x : Slot × Fd => state x.1 != .UNUSED && ofile x.1 x.2 == some f

/-- The files open on inode `i`. -/
def inodeFiles (file : FileId → File) (i : Nat) : Nat := Pool.count fun f => (file f).onInode i

/-- The files open on one end of pipe `pi`. -/
def pipeEnds (file : FileId → File) (pi : Nat) (w : Bool) : Nat := Pool.count fun f => (file f).onEnd pi w

section Counts

variable (state : Slot → Procstate) (ofile : Slot → Fd → Option FileId) (file : FileId → File)

/-- Writing one descriptor moves the count of the file it held and of the one it holds. -/
theorem holders_set (p : Slot) (fd : Fd) (v : Option FileId) (g : FileId) :
    (holders state (Function.update ofile p (Function.update (ofile p) fd v)) g : Int) =
      holders state ofile g + (((state p != .UNUSED && v == some g).toNat : Int) -
        (state p != .UNUSED && ofile p fd == some g).toNat) := by
  unfold holders
  rw [Pool.count_update (fun x : Slot × Fd => state x.1 != .UNUSED && ofile x.1 x.2 == some g) _ (p, fd)]
  · simp only [Function.update_self]
  · rintro ⟨q, d⟩ other
    by_cases same : q = p
    · subst same
      have : d ≠ fd := fun here => other (by rw [here])
      simp [this]
    · simp [same]

/-- A process that stays in use changes no count when its state changes. -/
theorem holders_state_busy {np : Slot} (busy : state np ≠ .UNUSED) {st : Procstate} (still : st ≠ .UNUSED)
    (g : FileId) : holders (Function.update state np st) ofile g = holders state ofile g := by
  unfold holders
  congr 1
  funext ⟨q, d⟩
  by_cases same : q = np
  · subst same
    have now : (st != .UNUSED) = true := bne_iff_ne.mpr still
    have before : (state q != .UNUSED) = true := bne_iff_ne.mpr busy
    rw [Function.update_self, now, before]
  · simp [same]

theorem holders_state {np : Slot} (empty : ∀ fd, ofile np fd = none) (st : Procstate) (g : FileId) :
    holders (Function.update state np st) ofile g = holders state ofile g := by
  unfold holders
  congr 1
  funext ⟨q, d⟩
  by_cases same : q = np
  · subst same
    simp [empty d]
  · simp [same]

theorem inodeFiles_update (f : FileId) (F : File) (i : Nat) :
    (inodeFiles (Function.update file f F) i : Int) =
      inodeFiles file i + (((F.onInode i).toNat : Int) - ((file f).onInode i).toNat) := by
  unfold inodeFiles
  rw [Pool.count_update (fun g => (file g).onInode i) _ f]
  · simp
  · intro g other
    simp [other]

theorem pipeEnds_update (f : FileId) (F : File) (pi : Nat) (w : Bool) :
    (pipeEnds (Function.update file f F) pi w : Int) =
      pipeEnds file pi w + (((F.onEnd pi w).toNat : Int) - ((file f).onEnd pi w).toNat) := by
  unfold pipeEnds
  rw [Pool.count_update (fun g => (file g).onEnd pi w) _ f]
  · simp
  · intro g other
    simp [other]

theorem inodeFiles_update_off (f : FileId) (F : File) (i : Nat) (old : (file f).onInode i = false)
    (new : F.onInode i = false) : inodeFiles (Function.update file f F) i = inodeFiles file i := by
  have moved := inodeFiles_update file f F i
  rw [old, new] at moved
  simpa using moved

theorem pipeEnds_update_off (f : FileId) (F : File) (pi : Nat) (w : Bool) (old : (file f).onEnd pi w = false)
    (new : F.onEnd pi w = false) : pipeEnds (Function.update file f F) pi w = pipeEnds file pi w := by
  have moved := pipeEnds_update file f F pi w
  rw [old, new] at moved
  simpa using moved

theorem pipeEnds_update_on (f : FileId) (F : File) (pi : Nat) (w : Bool) (old : (file f).onEnd pi w = false)
    (new : F.onEnd pi w = true) : pipeEnds (Function.update file f F) pi w = pipeEnds file pi w + 1 := by
  have moved := pipeEnds_update file f F pi w
  rw [old, new] at moved
  simp only [Bool.toNat_true, Bool.toNat_false, Nat.cast_one, Nat.cast_zero, sub_zero] at moved
  omega

theorem inodeFiles_ref (f : FileId) (r : Int) (i : Nat) :
    inodeFiles (Function.update file f { file f with ref := r }) i = inodeFiles file i := by
  have moved := inodeFiles_update file f { file f with ref := r } i
  have same : ({ file f with ref := r } : File).onInode i = (file f).onInode i := rfl
  rw [same] at moved
  omega

theorem pipeEnds_ref (f : FileId) (r : Int) (pi : Nat) (w : Bool) :
    pipeEnds (Function.update file f { file f with ref := r }) pi w = pipeEnds file pi w := by
  have moved := pipeEnds_update file f { file f with ref := r } pi w
  have same : ({ file f with ref := r } : File).onEnd pi w = (file f).onEnd pi w := rfl
  rw [same] at moved
  omega

theorem inodeFiles_release (f : FileId) (i : Nat) :
    (inodeFiles (Function.update file f { file f with ref := 0, type := .FD_NONE }) i : Int) =
      inodeFiles file i - ((file f).onInode i).toNat := by
  have gone : ({ file f with ref := 0, type := .FD_NONE } : File).onInode i = false := rfl
  rw [inodeFiles_update, gone]
  simp only [Bool.toNat_false, Nat.cast_zero]
  ring

theorem pipeEnds_release (f : FileId) (pi : Nat) (w : Bool) :
    (pipeEnds (Function.update file f { file f with ref := 0, type := .FD_NONE }) pi w : Int) =
      pipeEnds file pi w - ((file f).onEnd pi w).toNat := by
  have gone : ({ file f with ref := 0, type := .FD_NONE } : File).onEnd pi w = false := rfl
  rw [pipeEnds_update, gone]
  simp only [Bool.toNat_false, Nat.cast_zero]
  ring

end Counts

/-- End `w` of a pipe is open: the write end for `w = true`. -/
def Pipe.isOpen (P : Pipe) (w : Bool) : Bool := if w then P.writeopen else P.readopen

@[simp] theorem pipeclose_file (s : Sys) (pi : Nat) (w : Bool) : (pipeclose s pi w).file = s.file := by
  unfold pipeclose
  dsimp only
  split_ifs <;> rfl

@[simp] theorem pipeclose_state (s : Sys) (pi : Nat) (w : Bool) : (pipeclose s pi w).state = s.state := by
  unfold pipeclose
  dsimp only
  split_ifs <;> rfl

@[simp] theorem pipeclose_ofile (s : Sys) (pi : Nat) (w : Bool) : (pipeclose s pi w).ofile = s.ofile := by
  unfold pipeclose
  dsimp only
  split_ifs <;> rfl

@[simp] theorem pipeclose_iref (s : Sys) (pi : Nat) (w : Bool) : (pipeclose s pi w).iref = s.iref := by
  unfold pipeclose
  dsimp only
  split_ifs <;> rfl

/-- `pipeclose` closes one end of one pipe. -/
theorem pipeclose_isOpen (s : Sys) (pi : Nat) (w : Bool) (q : Nat) (v : Bool) :
    ((pipeclose s pi w).pipe q).isOpen v = if q = pi ∧ v = w then false else (s.pipe q).isOpen v := by
  have ends : (pipeclose s pi w).pipe = Function.update s.pipe pi
      (if w then { s.pipe pi with writeopen := false } else { s.pipe pi with readopen := false }) := by
    unfold pipeclose
    dsimp only
    split_ifs <;> rfl
  rw [ends]
  by_cases same : q = pi
  · subst same
    cases v <;> cases w <;> simp [Pipe.isOpen]
  · simp [same]

theorem pipeclose_allocated (s : Sys) (pi : Nat) (w : Bool) (q : Nat) :
    (pipeclose s pi w).allocated q = if q = pi ∧ (s.pipe pi).isOpen (!w) = false then false else s.allocated q := by
  unfold pipeclose
  dsimp only
  by_cases same : q = pi
  · subst same
    cases w <;> cases r : (s.pipe q).readopen <;> cases o : (s.pipe q).writeopen <;> simp [Pipe.isOpen, r, o]
  · have outside : ¬ (q = pi ∧ (s.pipe pi).isOpen (!w) = false) := fun here => same here.1
    rw [if_neg outside]
    split_ifs <;> simp [same]

/-- The counts of `s` agree with the files, except for `extra f` references to
`f` and `ipend i` to inode `i` that a system call in progress holds in its
locals. Between system calls both are zero. -/
structure Tally (s : Sys) (extra : FileId → Int) (ipend : Nat → Int) : Prop where
  refs : ∀ f, (s.file f).ref = holders s.state s.ofile f + extra f
  dead : ∀ f, (s.file f).ref = 0 → (s.file f).type = .FD_NONE
  idle : ∀ p fd, ¬ s.running p → s.ofile p fd = none
  inodes : ∀ i, s.iref i = inodeFiles s.file i + ipend i
  ends : ∀ pi w, pipeEnds s.file pi w = ((s.pipe pi).isOpen w).toNat
  allocated : ∀ pi, s.allocated pi = ((s.pipe pi).readopen || (s.pipe pi).writeopen)

section Tally

variable {s : Sys} {extra : FileId → Int} {ipend : Nat → Int}

theorem Tally.allocated_iff (t : Tally s extra ipend) (pi : Nat) :
    s.allocated pi = ((s.pipe pi).isOpen false || (s.pipe pi).isOpen true) := t.allocated pi

/-- A new `ref` for `f`, `k` more than before, is `k` more held by the call. -/
theorem Tally.setRef (t : Tally s extra ipend) (f : FileId) (r k : Int) (moved : r = (s.file f).ref + k)
    (alive : r = 0 → (s.file f).type = .FD_NONE) :
    Tally { s with file := Function.update s.file f { s.file f with ref := r } } (extra + Pi.single f k) ipend where
  refs g := by
    by_cases same : g = f
    · subst same
      simp only [Function.update_self, Pi.add_apply, Pi.single_eq_same, moved, t.refs g]
      ring
    · simp only [Function.update_of_ne same, Pi.add_apply, Pi.single_eq_of_ne same, t.refs g, add_zero]
  dead g := by
    by_cases same : g = f
    · subst same
      simpa using alive
    · simpa [same] using t.dead g
  idle := t.idle
  inodes i := by simpa [inodeFiles_ref] using t.inodes i
  ends pi w := by simpa [pipeEnds_ref] using t.ends pi w
  allocated := t.allocated

/-- Writing descriptor `fd` of a process in use hands the reference it held to
the call, and takes the one it now holds from the call. -/
theorem Tally.setFd (t : Tally s extra ipend) {p : Slot} (running : s.running p) (fd : Fd) (v : Option FileId)
    {extra' : FileId → Int} (moved : ∀ g, extra' g = extra g + (s.ofile p fd == some g).toNat - (v == some g).toNat) :
    Tally { s with ofile := Function.update s.ofile p (Function.update (s.ofile p) fd v) } extra' ipend where
  refs g := by
    have count := holders_set s.state s.ofile p fd v g
    have busy : (s.state p != .UNUSED) = true := by simpa using running.1
    simp only [busy, Bool.true_and] at count
    show (s.file g).ref = holders s.state (Function.update s.ofile p (Function.update (s.ofile p) fd v)) g + extra' g
    rw [t.refs g, moved g]
    omega
  dead := t.dead
  idle q d stopped := by
    have other : q ≠ p := fun same => stopped (same ▸ running)
    show Function.update s.ofile p _ q d = none
    rw [Function.update_of_ne other]
    exact t.idle q d stopped
  inodes := t.inodes
  ends := t.ends
  allocated := t.allocated

theorem Tally.clearFd (t : Tally s extra ipend) {p : Slot} (running : s.running p) {d : Fd} {f : FileId}
    (held : s.ofile p d = some f) : Tally (clearFd s p d) (extra + Pi.single f 1) ipend := by
  refine t.setFd running d none fun g => ?_
  by_cases same : g = f
  · subst same
    simp [held]
  · have other : (some f == some g) = false := beq_false_of_ne (by simpa using Ne.symm same)
    simp [held, other, same]

theorem Tally.hold (t : Tally s extra ipend) {p : Slot} (running : s.running p) {fd : Fd}
    (empty : s.ofile p fd = none) (f : FileId) :
    Tally { s with ofile := Function.update s.ofile p (Function.update (s.ofile p) fd (some f)) }
      (extra - Pi.single f 1) ipend := by
  refine t.setFd running fd (some f) fun g => ?_
  by_cases same : g = f
  · subst same
    simp [empty]
  · have other : (some f == some g) = false := beq_false_of_ne (by simpa using Ne.symm same)
    simp [empty, other, same]

/-- A process with no descriptor may change state. -/
theorem Tally.setState_empty (t : Tally s extra ipend) {p : Slot} (empty : ∀ fd, s.ofile p fd = none)
    (st : Procstate) : Tally { s with state := Function.update s.state p st } extra ipend where
  refs g := by
    show (s.file g).ref = holders (Function.update s.state p st) s.ofile g + extra g
    rw [holders_state _ _ empty, t.refs g]
  dead := t.dead
  idle q d stopped := by
    by_cases same : q = p
    · subst same
      exact empty d
    · have before : ¬ s.running q := by simpa [Sys.running, same] using stopped
      exact t.idle q d before
  inodes := t.inodes
  ends := t.ends
  allocated := t.allocated

/-- A process in use may move to another state in use. -/
theorem Tally.setState_running (t : Tally s extra ipend) {p : Slot} (running : s.running p) {st : Procstate}
    (busy : st ≠ .UNUSED ∧ st ≠ .ZOMBIE) : Tally { s with state := Function.update s.state p st } extra ipend where
  refs g := by
    show (s.file g).ref = holders (Function.update s.state p st) s.ofile g + extra g
    rw [holders_state_busy _ _ running.1 busy.1, t.refs g]
  dead := t.dead
  idle q d stopped := by
    by_cases same : q = p
    · subst same
      exact absurd (by simpa [Sys.running] using busy) stopped
    · have before : ¬ s.running q := by simpa [Sys.running, same] using stopped
      exact t.idle q d before
  inodes := t.inodes
  ends := t.ends
  allocated := t.allocated

/-- `ilock`'s caller holds a new reference to inode `i`. -/
theorem Tally.iget (t : Tally s extra ipend) (i : Nat) :
    Tally { s with iref := Function.update s.iref i (s.iref i + 1) } extra (ipend + Pi.single i 1) where
  refs := t.refs
  dead := t.dead
  idle := t.idle
  inodes j := by
    by_cases same : j = i
    · subst same
      simp [t.inodes j]
      ring
    · simp [same, t.inodes j]
  ends := t.ends
  allocated := t.allocated

theorem Tally.iput (t : Tally s extra ipend) (i : Nat) : Tally (iput s i) extra (ipend - Pi.single i 1) where
  refs := t.refs
  dead := t.dead
  idle := t.idle
  inodes j := by
    by_cases same : j = i
    · subst same
      simp [Files.iput, t.inodes j]
      ring
    · simp [Files.iput, same, t.inodes j]
  ends := t.ends
  allocated := t.allocated

section Release

variable {f : FileId}

theorem Tally.release_refs (t : Tally s extra ipend) (last : (s.file f).ref = 1) (g : FileId) :
    (Function.update s.file f { s.file f with ref := 0, type := .FD_NONE } g).ref =
      holders s.state s.ofile g + (extra - Pi.single f 1 : FileId → Int) g := by
  have before := t.refs g
  by_cases same : g = f
  · subst same
    simp only [Function.update_self, Pi.sub_apply, Pi.single_eq_same]
    omega
  · simp only [Function.update_of_ne same, Pi.sub_apply, Pi.single_eq_of_ne same, sub_zero, before]

theorem Tally.release_dead (t : Tally s extra ipend) (g : FileId) :
    (Function.update s.file f { s.file f with ref := 0, type := .FD_NONE } g).ref = 0 →
      (Function.update s.file f { s.file f with ref := 0, type := .FD_NONE } g).type = .FD_NONE := by
  by_cases same : g = f
  · subst same
    simp
  · simpa [same] using t.dead g

/-- A file of no kind releases nothing. -/
theorem Tally.closeNone (t : Tally s extra ipend) (last : (s.file f).ref = 1) (ty : (s.file f).type = .FD_NONE) :
    Tally { s with file := Function.update s.file f { s.file f with ref := 0, type := .FD_NONE } }
      (extra - Pi.single f 1) ipend where
  refs := t.release_refs last
  dead := t.release_dead
  idle := t.idle
  inodes i := by
    have count := inodeFiles_release s.file f i
    have off : (s.file f).onInode i = false := by simp [File.onInode, ty]
    rw [off, Bool.toNat_false, Nat.cast_zero, sub_zero] at count
    show s.iref i = (inodeFiles (Function.update s.file f { s.file f with ref := 0, type := .FD_NONE }) i : Int) + ipend i
    rw [t.inodes i]
    omega
  ends pi w := by
    have count := pipeEnds_release s.file f pi w
    have off : (s.file f).onEnd pi w = false := by simp [File.onEnd, ty]
    rw [off, Bool.toNat_false, Nat.cast_zero, sub_zero] at count
    show pipeEnds (Function.update s.file f { s.file f with ref := 0, type := .FD_NONE }) pi w =
      ((s.pipe pi).isOpen w).toNat
    rw [t.ends pi w] at count
    omega
  allocated := t.allocated

/-- The last reference to an inode's file gives back the file's reference to the inode. -/
theorem Tally.closeInode (t : Tally s extra ipend) (last : (s.file f).ref = 1)
    (ty : (s.file f).type = .FD_INODE ∨ (s.file f).type = .FD_DEVICE) :
    Tally (Files.iput { s with file := Function.update s.file f { s.file f with ref := 0, type := .FD_NONE } } (s.file f).ip)
      (extra - Pi.single f 1) ipend where
  refs := t.release_refs last
  dead := t.release_dead
  idle := t.idle
  inodes i := by
    have count := inodeFiles_release s.file f i
    have before := t.inodes i
    show Function.update s.iref (s.file f).ip (s.iref (s.file f).ip - 1) i =
      (inodeFiles (Function.update s.file f { s.file f with ref := 0, type := .FD_NONE }) i : Int) + ipend i
    by_cases same : i = (s.file f).ip
    · subst same
      have on : (s.file f).onInode (s.file f).ip = true := by rcases ty with ty | ty <;> simp [File.onInode, ty]
      rw [on, Bool.toNat_true, Nat.cast_one] at count
      rw [Function.update_self, before]
      omega
    · have off : (s.file f).onInode i = false := by simp [File.onInode, Ne.symm same]
      rw [off, Bool.toNat_false, Nat.cast_zero, sub_zero] at count
      rw [Function.update_of_ne same, before]
      omega
  ends pi w := by
    have count := pipeEnds_release s.file f pi w
    have off : (s.file f).onEnd pi w = false := by rcases ty with ty | ty <;> simp [File.onEnd, ty]
    rw [off, Bool.toNat_false, Nat.cast_zero, sub_zero] at count
    show pipeEnds (Function.update s.file f { s.file f with ref := 0, type := .FD_NONE }) pi w =
      ((s.pipe pi).isOpen w).toNat
    rw [t.ends pi w] at count
    omega
  allocated := t.allocated

/-- The last reference to a pipe end closes that end, and frees the pipe if the
other end is closed already. -/
theorem Tally.closePipe (t : Tally s extra ipend) (last : (s.file f).ref = 1) (ty : (s.file f).type = .FD_PIPE) :
    Tally (pipeclose { s with file := Function.update s.file f { s.file f with ref := 0, type := .FD_NONE } }
      (s.file f).pipe (s.file f).writable) (extra - Pi.single f 1) ipend := by
  have on : (s.file f).onEnd (s.file f).pipe (s.file f).writable = true := by simp [File.onEnd, ty]
  have counted : 0 < pipeEnds s.file (s.file f).pipe (s.file f).writable := Pool.count_pos on
  have opened : (s.pipe (s.file f).pipe).isOpen (s.file f).writable = true := by
    have := t.ends (s.file f).pipe (s.file f).writable
    cases h : (s.pipe (s.file f).pipe).isOpen (s.file f).writable <;> simp_all
  refine ⟨fun g => ?_, fun g => ?_, fun q d stopped => ?_, fun i => ?_, fun pi w => ?_, fun pi => ?_⟩
  · rw [pipeclose_file, pipeclose_state, pipeclose_ofile]
    exact t.release_refs last g
  · rw [pipeclose_file]
    exact t.release_dead g
  · rw [Sys.running, pipeclose_state] at stopped
    rw [pipeclose_ofile]
    exact t.idle q d stopped
  · have count := inodeFiles_release s.file f i
    have off : (s.file f).onInode i = false := by simp [File.onInode, ty]
    rw [off, Bool.toNat_false, Nat.cast_zero, sub_zero] at count
    rw [pipeclose_iref, pipeclose_file]
    show s.iref i = (inodeFiles (Function.update s.file f { s.file f with ref := 0, type := .FD_NONE }) i : Int) + ipend i
    rw [t.inodes i]
    omega
  · have count := pipeEnds_release s.file f pi w
    have before := t.ends pi w
    rw [pipeclose_file, pipeclose_isOpen]
    show pipeEnds (Function.update s.file f { s.file f with ref := 0, type := .FD_NONE }) pi w =
      (if pi = (s.file f).pipe ∧ w = (s.file f).writable then false else (s.pipe pi).isOpen w).toNat
    by_cases here : pi = (s.file f).pipe ∧ w = (s.file f).writable
    · obtain ⟨rfl, rfl⟩ := here
      rw [on, Bool.toNat_true, Nat.cast_one] at count
      rw [opened, Bool.toNat_true] at before
      rw [if_pos ⟨rfl, rfl⟩, Bool.toNat_false]
      omega
    · have off : (s.file f).onEnd pi w = false := by
        simp only [File.onEnd, ty, beq_self_eq_true, Bool.true_and, Bool.and_eq_false_iff, beq_eq_false_iff_ne]
        by_cases same : (s.file f).pipe = pi
        · exact .inr fun again => here ⟨same.symm, again.symm⟩
        · exact .inl same
      rw [off, Bool.toNat_false, Nat.cast_zero, sub_zero, before] at count
      rw [if_neg here]
      omega
  · have used := t.allocated_iff pi
    show _ = (Pipe.isOpen _ false || Pipe.isOpen _ true)
    rw [pipeclose_allocated, pipeclose_isOpen, pipeclose_isOpen]
    dsimp only
    by_cases here : pi = (s.file f).pipe
    · subst here
      cases w : (s.file f).writable <;> rw [w] at opened <;> simp [used, opened]
    · simp only [here, false_and, if_false]
      exact used

end Release

/-- `fileclose` of a file that has a reference succeeds, and the call gives that
reference up; the last one releases the pipe end or the inode. -/
theorem Tally.fileclose (t : Tally s extra ipend) {f : FileId} (alive : 1 ≤ (s.file f).ref) :
    ∃ s', Files.fileclose s f = .ok s' ∧ Tally s' (extra - Pi.single f 1) ipend := by
  unfold Files.fileclose
  rw [if_neg (by omega)]
  split_ifs with shared
  · refine ⟨_, rfl, ?_⟩
    have dropped := t.setRef f ((s.file f).ref - 1) (-1) (by ring) (by omega)
    rwa [Pi.single_neg, ← sub_eq_add_neg] at dropped
  · have last : (s.file f).ref = 1 := by omega
    dsimp only
    cases ty : (s.file f).type with
    | FD_PIPE => exact ⟨_, rfl, t.closePipe last ty⟩
    | FD_INODE => exact ⟨_, rfl, t.closeInode last (.inl ty)⟩
    | FD_DEVICE => exact ⟨_, rfl, t.closeInode last (.inr ty)⟩
    | FD_NONE => exact ⟨_, rfl, t.closeNone last ty⟩

theorem Tally.filedup (t : Tally s extra ipend) {f : FileId} (alive : 1 ≤ (s.file f).ref) :
    ∃ s', Files.filedup s f = .ok s' ∧ Tally s' (extra + Pi.single f 1) ipend := by
  unfold Files.filedup
  rw [if_neg (by omega)]
  exact ⟨_, rfl, t.setRef f _ 1 rfl (by omega)⟩

theorem Tally.ref_pos (t : Tally s extra ipend) {p : Slot} {d : Fd} {f : FileId} (running : s.running p)
    (held : s.ofile p d = some f) (owed : 0 ≤ extra f) : 1 ≤ (s.file f).ref := by
  have counted : 0 < holders s.state s.ofile f :=
    Pool.count_pos (x := (p, d)) (by simp [held, running.1])
  rw [t.refs f]
  omega

theorem Tally.alive (t : Tally s extra ipend) {f : FileId} (owed : 1 ≤ extra f) : 1 ≤ (s.file f).ref := by
  rw [t.refs f]
  omega

end Tally

/-! ## What each function of `file.c` and `sysfile.c` returns -/

section Spec

variable {s s' : Sys} {p : Slot} {f : FileId}

theorem filealloc_none (h : filealloc s = (none, s')) : s' = s := by
  unfold filealloc at h
  split at h
  · exact (Prod.mk.inj h).2.symm
  · cases h

theorem filealloc_some (h : filealloc s = (some f, s')) :
    (s.file f).ref = 0 ∧ s' = { s with file := Function.update s.file f { s.file f with ref := 1 } } := by
  unfold filealloc at h
  split at h
  · cases h
  · rename_i g found
    cases h
    exact ⟨by simpa using List.find?_some found, rfl⟩

theorem fdalloc_none {fd : Option Fd} (h : fdalloc s p f = (fd, s')) (none_left : fd = none) : s' = s := by
  subst none_left
  unfold fdalloc at h
  split at h
  · exact (Prod.mk.inj h).2.symm
  · cases h

theorem fdalloc_some {fd : Fd} (h : fdalloc s p f = (some fd, s')) :
    s.ofile p fd = none ∧ s' = { s with ofile := Function.update s.ofile p (Function.update (s.ofile p) fd (some f)) } := by
  unfold fdalloc at h
  split at h
  · cases h
  · rename_i d found
    cases h
    exact ⟨by simpa using List.find?_some found, rfl⟩

theorem argfd_some {fd : Int} {d : Fd} (h : argfd s p fd = some (d, f)) : s.ofile p d = some f := by
  unfold argfd at h
  split at h
  · cases held : s.ofile p ⟨fd.toNat, by omega⟩ with
    | none => simp [held] at h
    | some g =>
      simp only [held, Option.map_some, Option.some.injEq, Prod.mk.injEq] at h
      obtain ⟨rfl, rfl⟩ := h
      exact held
  · cases h

theorem kallocPipe_some {page : Option Nat} {pi : Nat} (h : kallocPipe s page = some pi) : s.allocated pi = false := by
  unfold kallocPipe at h
  split at h
  · split_ifs at h with used
    cases h
    simpa using used
  · cases h

theorem filealloc_procs {r : Option FileId} (h : filealloc s = (r, s')) : s'.state = s.state ∧ s'.ofile = s.ofile := by
  unfold filealloc at h
  split at h <;> cases h <;> exact ⟨rfl, rfl⟩

theorem filedup_procs (h : filedup s f = .ok s') : s'.state = s.state ∧ s'.ofile = s.ofile := by
  unfold filedup at h
  split_ifs at h
  cases h
  exact ⟨rfl, rfl⟩

theorem fileclose_procs (h : fileclose s f = .ok s') : s'.state = s.state ∧ s'.ofile = s.ofile := by
  unfold fileclose at h
  split_ifs at h
  · cases h
    exact ⟨rfl, rfl⟩
  · dsimp only at h
    split at h <;> cases h <;> simp [iput]

end Spec

section Open

variable {s s' : Sys} {extra : FileId → Int} {ipend : Nat → Int} {f : FileId}

theorem Tally.filealloc (t : Tally s extra ipend) (h : Files.filealloc s = (some f, s')) :
    Tally s' (extra + Pi.single f 1) ipend ∧ (s'.file f).type = .FD_NONE ∧ (s'.file f).ref = 1 := by
  obtain ⟨free, rfl⟩ := filealloc_some h
  refine ⟨t.setRef f 1 1 (by omega) (by omega), ?_, ?_⟩
  · simpa using t.dead f free
  · simp

/-- `sys_open` makes a new file refer to the inode, taking the call's reference to it. -/
theorem Tally.openFile (t : Tally s extra ipend) (fresh : (s.file f).type = .FD_NONE) (alive : (s.file f).ref ≠ 0)
    (i : Nat) {ty : FdType} (kind : ty = .FD_INODE ∨ ty = .FD_DEVICE) (r w : Bool) :
    Tally { s with file := Function.update s.file f { s.file f with type := ty, ip := i, readable := r, writable := w } }
      extra (ipend - Pi.single i 1) where
  refs g := by
    dsimp only
    by_cases same : g = f
    · subst same
      rw [Function.update_self]
      exact t.refs g
    · rw [Function.update_of_ne same]
      exact t.refs g
  dead g := by
    dsimp only
    by_cases same : g = f
    · subst same
      rw [Function.update_self]
      exact fun gone => absurd gone alive
    · rw [Function.update_of_ne same]
      exact t.dead g
  idle := t.idle
  inodes j := by
    have count := inodeFiles_update s.file f { s.file f with type := ty, ip := i, readable := r, writable := w } j
    have off : (s.file f).onInode j = false := by simp [File.onInode, fresh]
    have on : ({ s.file f with type := ty, ip := i, readable := r, writable := w } : File).onInode j = (i == j) := by
      rcases kind with rfl | rfl <;> simp [File.onInode]
    rw [off, on] at count
    show s.iref j = (inodeFiles (Function.update s.file f { s.file f with type := ty, ip := i, readable := r, writable := w }) j : Int) +
      (ipend - Pi.single i 1 : Nat → Int) j
    rw [t.inodes j, count]
    by_cases same : j = i
    · subst same
      simp
    · have other : (i == j) = false := beq_false_of_ne (Ne.symm same)
      simp [other, same]
  ends pi v := by
    have count := pipeEnds_update s.file f { s.file f with type := ty, ip := i, readable := r, writable := w } pi v
    have off : (s.file f).onEnd pi v = false := by simp [File.onEnd, fresh]
    have off' : ({ s.file f with type := ty, ip := i, readable := r, writable := w } : File).onEnd pi v = false := by
      rcases kind with rfl | rfl <;> simp [File.onEnd]
    rw [off, off', Bool.toNat_false, Nat.cast_zero, sub_zero, add_zero, t.ends pi v] at count
    exact_mod_cast count
  allocated := t.allocated

/-- `pipealloc` gives a free page two files, the read end and the write end,
both with the call's reference. -/
theorem Tally.pipeInit (t : Tally s extra ipend) {f0 f1 : FileId} (distinct : f0 ≠ f1)
    (fresh0 : (s.file f0).type = .FD_NONE) (fresh1 : (s.file f1).type = .FD_NONE)
    (alive0 : (s.file f0).ref ≠ 0) (alive1 : (s.file f1).ref ≠ 0) {pi : Nat} (unused : s.allocated pi = false) :
    let file := Function.update s.file f0
      { s.file f0 with type := .FD_PIPE, readable := true, writable := false, pipe := pi }
    let file := Function.update file f1
      { file f1 with type := .FD_PIPE, readable := false, writable := true, pipe := pi }
    Tally { s with pipe := Function.update s.pipe pi ⟨true, true⟩, allocated := Function.update s.allocated pi true,
                   file := file } extra ipend := by
  intro file0 file1
  have at_f1 : file0 f1 = s.file f1 := Function.update_of_ne (Ne.symm distinct) _ _
  have same_ref : ∀ g, (file1 g).ref = (s.file g).ref := by
    intro g
    by_cases h1 : g = f1
    · subst h1
      simp [file1, at_f1]
    · by_cases h0 : g = f0
      · subst h0
        simp [file1, file0, h1]
      · simp [file1, file0, h1, h0]
  have same_type : ∀ g, g ≠ f0 → g ≠ f1 → file1 g = s.file g := by
    intro g h0 h1
    simp [file1, file0, h1, h0]
  have closed : ∀ v, (s.pipe pi).isOpen v = false := by
    have := t.allocated pi
    rw [unused] at this
    intro v
    cases v <;> simp_all [Pipe.isOpen]
  refine ⟨fun g => ?_, fun g => ?_, t.idle, fun i => ?_, fun q v => ?_, fun q => ?_⟩
  · show (file1 g).ref = _
    rw [same_ref g]
    exact t.refs g
  · show (file1 g).ref = 0 → (file1 g).type = _
    rw [same_ref g]
    intro gone
    have h0 : g ≠ f0 := fun same => alive0 (same ▸ gone)
    have h1 : g ≠ f1 := fun same => alive1 (same ▸ gone)
    rw [same_type g h0 h1]
    exact t.dead g gone
  · have off0 : (s.file f0).onInode i = false := by simp [File.onInode, fresh0]
    have off1 : (file0 f1).onInode i = false := by simp [at_f1, File.onInode, fresh1]
    have first : inodeFiles file0 i = inodeFiles s.file i := inodeFiles_update_off _ f0 _ i off0 rfl
    have second : inodeFiles file1 i = inodeFiles file0 i := inodeFiles_update_off _ f1 _ i off1 rfl
    show s.iref i = (inodeFiles file1 i : Int) + ipend i
    rw [second, first]
    exact t.inodes i
  · have off0 : (s.file f0).onEnd q v = false := by simp [File.onEnd, fresh0]
    have off1 : (file0 f1).onEnd q v = false := by simp [at_f1, File.onEnd, fresh1]
    have before := t.ends q v
    show pipeEnds file1 q v = ((Function.update s.pipe pi ⟨true, true⟩ q).isOpen v).toNat
    by_cases here : q = pi
    · subst here
      rw [closed v, Bool.toNat_false] at before
      cases v
      · have first : pipeEnds file0 q false = pipeEnds s.file q false + 1 :=
          pipeEnds_update_on _ f0 _ q false off0 (by simp [File.onEnd])
        have second : pipeEnds file1 q false = pipeEnds file0 q false :=
          pipeEnds_update_off _ f1 _ q false off1 (by simp [File.onEnd])
        rw [second, first, before, Function.update_self]
        rfl
      · have first : pipeEnds file0 q true = pipeEnds s.file q true :=
          pipeEnds_update_off _ f0 _ q true off0 (by simp [File.onEnd])
        have second : pipeEnds file1 q true = pipeEnds file0 q true + 1 :=
          pipeEnds_update_on _ f1 _ q true off1 (by simp [File.onEnd])
        rw [second, first, before, Function.update_self]
        rfl
    · have first : pipeEnds file0 q v = pipeEnds s.file q v :=
        pipeEnds_update_off _ f0 _ q v off0 (by simp [File.onEnd, Ne.symm here])
      have second : pipeEnds file1 q v = pipeEnds file0 q v :=
        pipeEnds_update_off _ f1 _ q v off1 (by simp [File.onEnd, Ne.symm here])
      rw [second, first, before, Function.update_of_ne here]
  · show Function.update s.allocated pi true q = _
    by_cases here : q = pi
    · subst here
      simp
    · simp only [Function.update_of_ne here]
      exact t.allocated q

end Open

/-! ## Each system call keeps the counts -/

section Calls

variable {s : Sys} {p : Slot}

theorem Tally.closeBoth {extra : FileId → Int} {ipend : Nat → Int} (t : Tally s extra ipend) {rf wf : FileId}
    (distinct : rf ≠ wf) (owedR : 1 ≤ extra rf) (owedW : 1 ≤ extra wf) :
    ∃ s', Files.closeBoth s rf wf = .ok (s', -1) ∧ Tally s' (extra - Pi.single rf 1 - Pi.single wf 1) ipend := by
  obtain ⟨s1, first, t1⟩ := t.fileclose (t.alive owedR)
  have owed1 : 1 ≤ (extra - Pi.single rf 1 : FileId → Int) wf := by
    simpa [Pi.single_eq_of_ne (Ne.symm distinct)] using owedW
  obtain ⟨s2, second, t2⟩ := t1.fileclose (t1.alive owed1)
  exact ⟨s2, by simp only [Files.closeBoth, first, second], t2⟩

/-- `pipealloc` returns two distinct files that the call holds, or undoes what it did. -/
theorem Tally.pipealloc {ipend : Nat → Int} (t : Tally s 0 ipend) (page : Option Nat) :
    ∃ s', s'.state = s.state ∧ s'.ofile = s.ofile ∧
      ((Files.pipealloc s page = .ok (none, s') ∧ Tally s' 0 ipend) ∨
        ∃ rf wf, rf ≠ wf ∧ Files.pipealloc s page = .ok (some (rf, wf), s') ∧
          Tally s' (0 + Pi.single rf 1 + Pi.single wf 1) ipend) := by
  unfold Files.pipealloc
  split
  next s1 first =>
    obtain rfl := filealloc_none first
    exact ⟨_, rfl, rfl, .inl ⟨rfl, t⟩⟩
  next f0 s1 first =>
    obtain ⟨t1, fresh0, one0⟩ := t.filealloc first
    obtain ⟨state1, ofile1⟩ := filealloc_procs first
    split
    next s2 second =>
      obtain rfl := filealloc_none second
      obtain ⟨s3, closed, t3⟩ := t1.fileclose (f := f0) (by omega)
      obtain ⟨state3, ofile3⟩ := fileclose_procs closed
      refine ⟨s3, by rw [state3, state1], by rw [ofile3, ofile1], .inl ⟨by rw [closed], ?_⟩⟩
      rwa [add_sub_cancel_right] at t3
    next f1 s2 second =>
      obtain ⟨free1, made1⟩ := filealloc_some second
      obtain ⟨t2, fresh1, one1⟩ := t1.filealloc second
      obtain ⟨state2, ofile2⟩ := filealloc_procs second
      have distinct : f0 ≠ f1 := fun same => by
        subst same
        omega
      have keep0 : s2.file f0 = s1.file f0 := by
        rw [made1]
        exact Function.update_of_ne distinct _ _
      have owed0 : 1 ≤ (0 + Pi.single f0 1 + Pi.single f1 1 : FileId → Int) f0 := by
        simp [Pi.single_eq_of_ne distinct]
      have owed1 : 1 ≤ (0 + Pi.single f0 1 + Pi.single f1 1 : FileId → Int) f1 := by
        simp [Pi.single_eq_of_ne (Ne.symm distinct)]
      split
      next none_left =>
        obtain ⟨s3, close0, t3⟩ := t2.fileclose (t2.alive owed0)
        have owed1' : 1 ≤ (0 + Pi.single f0 1 + Pi.single f1 1 - Pi.single f0 1 : FileId → Int) f1 := by
          simp [Pi.single_eq_of_ne (Ne.symm distinct)]
        obtain ⟨s4, close1, t4⟩ := t3.fileclose (t3.alive owed1')
        obtain ⟨state3, ofile3⟩ := fileclose_procs close0
        obtain ⟨state4, ofile4⟩ := fileclose_procs close1
        refine ⟨s4, by rw [state4, state3, state2, state1], by rw [ofile4, ofile3, ofile2, ofile1],
          .inl ⟨by simp only [close0, close1], ?_⟩⟩
        have cancel : (0 + Pi.single f0 1 + Pi.single f1 1 - Pi.single f0 1 - Pi.single f1 1 : FileId → Int) = 0 := by
          abel
        rwa [cancel] at t4
      next pi page_ok =>
        have unused := kallocPipe_some page_ok
        refine ⟨_, ?_, ?_, .inr ⟨f0, f1, distinct, rfl, ?_⟩⟩
        · exact state2.trans state1
        · exact ofile2.trans ofile1
        exact t2.pipeInit distinct (by rw [keep0]; exact fresh0) fresh1 (by rw [keep0]; omega) (by omega) unused

theorem Tally.sysDup (t : Tally s 0 0) (running : s.running p) (fd : Int) :
    ∃ s' r, Files.sysDup s p fd = .ok (s', r) ∧ Tally s' 0 0 := by
  unfold Files.sysDup
  split
  next none_found => exact ⟨s, -1, rfl, t⟩
  next d f found =>
    have alive := t.ref_pos running (argfd_some found) le_rfl
    split
    next s1 got =>
      obtain rfl := fdalloc_none got rfl
      exact ⟨_, -1, rfl, t⟩
    next fd' s1 got =>
      obtain ⟨empty, rfl⟩ := fdalloc_some got
      obtain ⟨s2, dup, t2⟩ := (t.hold running empty f).filedup alive
      refine ⟨s2, fd'.val, by rw [dup], ?_⟩
      rwa [sub_add_cancel] at t2

theorem Tally.sysClose (t : Tally s 0 0) (running : s.running p) (fd : Int) :
    ∃ s' r, Files.sysClose s p fd = .ok (s', r) ∧ Tally s' 0 0 := by
  unfold Files.sysClose
  split
  next none_found => exact ⟨s, -1, rfl, t⟩
  next d f found =>
    have held := argfd_some found
    obtain ⟨s1, closed, t1⟩ := (t.clearFd running held).fileclose (t.ref_pos running held le_rfl)
    refine ⟨s1, 0, by rw [closed], ?_⟩
    rwa [add_sub_cancel_right] at t1

/-- `sys_open`: on every path the inode reference taken at the start is either
given to the new file or put back. -/
theorem Tally.openInode (t : Tally s 0 0) (running : s.running p) (omode : Int32) (ip : Inode) :
    ∃ s' r, Files.openInode s p omode ip = .ok (s', r) ∧ Tally s' 0 0 := by
  unfold Files.openInode
  dsimp only
  have t1 := t.iget ip.inum
  generalize taken : ({ s with iref := Function.update s.iref ip.inum (s.iref ip.inum + 1) } : Sys) = s1 at t1 ⊢
  have running1 : s1.running p := by
    rw [← taken]
    exact running
  have undo : ∀ {s2 : Sys}, Tally s2 0 (0 + Pi.single ip.inum 1) → Tally (Files.iput s2 ip.inum) 0 0 := by
    intro s2 t2
    have put := t2.iput ip.inum
    rwa [add_sub_cancel_right] at put
  by_cases dir : omode &&& O_CREATE = 0 ∧ ip.type = T_DIR ∧ omode ≠ O_RDONLY
  · rw [if_pos dir]
    exact ⟨_, -1, rfl, undo t1⟩
  rw [if_neg dir]
  by_cases device : ip.type = T_DEVICE ∧ (ip.major < 0 ∨ ip.major.toInt ≥ NDEV)
  · rw [if_pos device]
    exact ⟨_, -1, rfl, undo t1⟩
  rw [if_neg device]
  split
  next s2 none_left =>
    obtain rfl := filealloc_none none_left
    exact ⟨_, -1, rfl, undo t1⟩
  next f s2 got =>
    obtain ⟨t2, fresh, one⟩ := t1.filealloc got
    obtain ⟨state2, ofile2⟩ := filealloc_procs got
    have running2 : s2.running p := by
      rw [Sys.running, state2]
      exact running1
    split
    next s3 full =>
      obtain rfl := fdalloc_none full rfl
      obtain ⟨s4, closed, t4⟩ := t2.fileclose (f := f) (by omega)
      refine ⟨_, -1, by rw [closed], undo ?_⟩
      rwa [add_sub_cancel_right] at t4
    next fd s3 put =>
      obtain ⟨empty, rfl⟩ := fdalloc_some put
      have t3 := t2.hold running2 empty f
      have kind : (if ip.type = T_DEVICE then FdType.FD_DEVICE else .FD_INODE) = .FD_INODE ∨
          (if ip.type = T_DEVICE then FdType.FD_DEVICE else .FD_INODE) = .FD_DEVICE := by
        split_ifs <;> simp
      have alive : (s2.file f).ref ≠ 0 := by omega
      have t4 := t3.openFile fresh alive ip.inum kind (decide (omode &&& O_WRONLY = 0))
        (decide (omode &&& O_WRONLY ≠ 0 ∨ omode &&& O_RDWR ≠ 0))
      refine ⟨_, fd.val, rfl, ?_⟩
      rwa [add_sub_cancel_right, add_sub_cancel_right] at t4

theorem Tally.sysOpen (t : Tally s 0 0) (running : s.running p) (omode : Int32) (found : Option Inode) :
    ∃ s' r, Files.sysOpen s p omode found = .ok (s', r) ∧ Tally s' 0 0 := by
  cases found with
  | none => exact ⟨s, -1, rfl, t⟩
  | some ip => exact t.openInode running omode ip

/-- `sys_pipe`: each failure after `pipealloc` closes both files, and so frees the pipe. -/
theorem Tally.sysPipe (t : Tally s 0 0) (running : s.running p) (page : Option Nat) (copied : Bool) :
    ∃ s' r, Files.sysPipe s p page copied = .ok (s', r) ∧ Tally s' 0 0 := by
  unfold Files.sysPipe
  obtain ⟨s1, state1, ofile1, ⟨made, t1⟩ | ⟨rf, wf, distinct, made, t1⟩⟩ := t.pipealloc page
  · exact ⟨s1, -1, by rw [made], t1⟩
  have running1 : s1.running p := by
    rw [Sys.running, state1]
    exact running
  have owedR : 1 ≤ (0 + Pi.single rf 1 + Pi.single wf 1 : FileId → Int) rf := by
    simp [Pi.single_eq_of_ne distinct]
  have owedW : 1 ≤ (0 + Pi.single rf 1 + Pi.single wf 1 : FileId → Int) wf := by
    simp [Pi.single_eq_of_ne (Ne.symm distinct)]
  have cancel : (0 + Pi.single rf 1 + Pi.single wf 1 - Pi.single rf 1 - Pi.single wf 1 : FileId → Int) = 0 := by
    abel
  rw [made]
  dsimp only
  split
  next s2 full =>
    obtain rfl := fdalloc_none full rfl
    obtain ⟨s3, closed, t3⟩ := t1.closeBoth distinct owedR owedW
    refine ⟨s3, -1, closed, ?_⟩
    rwa [cancel] at t3
  next fd0 s2 first =>
    obtain ⟨empty0, rfl⟩ := fdalloc_some first
    have t2 := t1.hold running1 empty0 rf
    split
    next s3 full =>
      obtain rfl := fdalloc_none full rfl
      have t3 := t2.clearFd running1 (d := fd0) (f := rf) (by simp)
      rw [sub_add_cancel] at t3
      obtain ⟨s4, closed, t4⟩ := t3.closeBoth distinct owedR owedW
      refine ⟨s4, -1, closed, ?_⟩
      rwa [cancel] at t4
    next fd1 s3 second =>
      obtain ⟨empty1, rfl⟩ := fdalloc_some second
      have t3 := t2.hold running1 empty1 wf
      have apart : fd1 ≠ fd0 := fun same => by
        subst same
        simp at empty1
      split_ifs
      · refine ⟨_, 0, rfl, ?_⟩
        have settled : (0 + Pi.single rf 1 + Pi.single wf 1 - Pi.single rf 1 - Pi.single wf 1 : FileId → Int) = 0 := cancel
        rwa [settled] at t3
      · have t4 := t3.clearFd running1 (d := fd0) (f := rf) (by simp [apart.symm])
        have t5 := t4.clearFd running1 (d := fd1) (f := wf) (by simp [Files.clearFd, apart])
        have restored : (0 + Pi.single rf 1 + Pi.single wf 1 - Pi.single rf 1 - Pi.single wf 1 + Pi.single rf 1 +
            Pi.single wf 1 : FileId → Int) = 0 + Pi.single rf 1 + Pi.single wf 1 := by
          abel
        rw [restored] at t5
        obtain ⟨s6, closed, t6⟩ := t5.closeBoth distinct owedR owedW
        refine ⟨s6, -1, closed, ?_⟩
        rwa [cancel] at t6

/-- `fork`'s loop: each file of the parent gets one more reference, held by the
child's descriptor of the same number. Induction on the descriptors left. -/
theorem Tally.dupFiles {p np : Slot} (rest : List Fd) (nodup : rest.Nodup) :
    ∀ {s : Sys}, Tally s 0 0 → s.running p → s.running np → (∀ i ∈ rest, s.ofile np i = none) →
      ∃ s', Files.dupFiles s p np rest = .ok s' ∧ Tally s' 0 0 ∧ s'.state = s.state := by
  induction rest with
  | nil =>
    intro s t _ _ _
    exact ⟨s, rfl, t, rfl⟩
  | cons i rest ih =>
    intro s t running busy empty
    obtain ⟨later, nodup⟩ := List.nodup_cons.mp nodup
    rw [Files.dupFiles]
    split
    next unheld => exact ih nodup t running busy fun j mem => empty j (.tail _ mem)
    next f held =>
      obtain ⟨s1, dup, t1⟩ := t.filedup (t.ref_pos running held le_rfl)
      obtain ⟨state1, ofile1⟩ := filedup_procs dup
      have running1 : s1.running p := by
        rw [Sys.running, state1]
        exact running
      have busy1 : s1.running np := by
        rw [Sys.running, state1]
        exact busy
      have free1 : s1.ofile np i = none := by
        rw [ofile1]
        exact empty i (.head _)
      have t2 := t1.hold busy1 free1 f
      rw [add_sub_cancel_right] at t2
      have empty2 : ∀ j ∈ rest, Function.update s1.ofile np (Function.update (s1.ofile np) i (some f)) np j = none := by
        intro j mem
        have apart : j ≠ i := fun same => later (same ▸ mem)
        rw [Function.update_self, Function.update_of_ne apart, ofile1]
        exact empty j (.tail _ mem)
      obtain ⟨s3, copied, t3, state3⟩ := ih nodup t2 running1 busy1 empty2
      exact ⟨s3, by rw [dup]; exact copied, t3, state3.trans state1⟩

theorem Tally.fork (t : Tally s 0 0) (running : s.running p) (copied : Bool) :
    ∃ s' r, Files.fork s p copied = .ok (s', r) ∧ Tally s' 0 0 := by
  unfold Files.fork
  split
  next none_found => exact ⟨s, -1, rfl, t⟩
  next np found =>
    have unused : s.state np = .UNUSED := by simpa using List.find?_some found
    have other : np ≠ p := fun same => running.1 (same ▸ unused)
    cases copied
    · exact ⟨s, -1, rfl, t⟩
    have empty : ∀ fd, s.ofile np fd = none := fun fd => t.idle np fd fun busy => busy.1 unused
    have t1 := t.setState_empty empty .USED
    have running1 : (({ s with state := Function.update s.state np .USED }) : Sys).running p := by
      simp only [Sys.running, Function.update_of_ne (Ne.symm other)]
      exact running
    have busy1 : (({ s with state := Function.update s.state np .USED }) : Sys).running np := by
      simp [Sys.running]
    obtain ⟨s2, dups, t2, state2⟩ :=
      Tally.dupFiles (List.finRange NOFILE) (List.nodup_finRange _) t1 running1 busy1 fun i _ => empty i
    have busy2 : s2.running np := by
      rw [Sys.running, state2]
      exact busy1
    refine ⟨_, np.val, by simp only [Bool.not_true, Bool.false_eq_true, ite_false]; rw [dups], ?_⟩
    exact t2.setState_running busy2 (by simp)

/-- `exit`'s loop closes every descriptor of `p` and clears it; induction on the descriptors left. -/
theorem Tally.closeFiles {p : Slot} (rest : List Fd) :
    ∀ {s : Sys}, Tally s 0 0 → s.running p →
      ∃ s', Files.closeFiles s p rest = .ok s' ∧ Tally s' 0 0 ∧ s'.state = s.state ∧
        (∀ fd, s.ofile p fd = none → s'.ofile p fd = none) ∧ ∀ fd ∈ rest, s'.ofile p fd = none := by
  induction rest with
  | nil =>
    intro s t _
    exact ⟨s, rfl, t, rfl, fun _ free => free, fun _ mem => absurd mem List.not_mem_nil⟩
  | cons fd rest ih =>
    intro s t running
    rw [Files.closeFiles]
    split
    next unheld =>
      obtain ⟨s1, closed, t1, state1, kept, cleared⟩ := ih t running
      refine ⟨s1, closed, t1, state1, kept, fun j mem => ?_⟩
      rcases List.mem_cons.mp mem with rfl | mem
      · exact kept j unheld
      · exact cleared j mem
    next f held =>
      obtain ⟨s1, close, t1⟩ := t.fileclose (t.ref_pos running held le_rfl)
      obtain ⟨state1, ofile1⟩ := fileclose_procs close
      have running1 : s1.running p := by
        rw [Sys.running, state1]
        exact running
      have held1 : s1.ofile p fd = some f := by
        rw [ofile1]
        exact held
      have t2 := t1.clearFd running1 held1
      rw [sub_add_cancel] at t2
      obtain ⟨s3, closed, t3, state3, kept, cleared⟩ := ih t2 running1
      have kept2 : ∀ j, s.ofile p j = none → (Files.clearFd s1 p fd).ofile p j = none := by
        intro j free
        by_cases same : j = fd
        · subst same
          simp [Files.clearFd]
        · simp [Files.clearFd, same, ofile1, free]
      refine ⟨s3, by rw [close]; exact closed, t3, state3.trans state1, fun j free => kept j (kept2 j free),
        fun j mem => ?_⟩
      rcases List.mem_cons.mp mem with rfl | mem
      · exact kept j (by simp [Files.clearFd])
      · exact cleared j mem

theorem Tally.exit (t : Tally s 0 0) (running : s.running p) :
    Files.exit s p = .error "init exiting" ∨ ∃ s', Files.exit s p = .ok s' ∧ Tally s' 0 0 := by
  unfold Files.exit
  split_ifs with init
  · exact .inl rfl
  obtain ⟨s1, closed, t1, state1, -, cleared⟩ := t.closeFiles (List.finRange NOFILE) running
  refine .inr ⟨_, by rw [closed], ?_⟩
  exact t1.setState_empty (fun fd => cleared fd (List.mem_finRange fd)) .ZOMBIE

end Calls

/-! ## Every run -/

/-- What a run of system calls keeps: it never panics in `filedup` or
`fileclose`, and between calls every count agrees. -/
def Sound : Except String Sys → Prop
  | .ok s => Tally s 0 0
  | .error e => e ≠ "filedup" ∧ e ≠ "fileclose"

theorem sound_call {s : Sys} {p : Slot} (result : Sys → Except String (Sys × Int)) (t : Tally s 0 0)
    (kept : s.running p → ∃ s' r, result s = .ok (s', r) ∧ Tally s' 0 0) : Sound (call s p result) := by
  unfold call
  split_ifs with running
  · obtain ⟨s', r, done, t'⟩ := kept running
    rw [done]
    exact t'
  · exact t

theorem sound_step (r : Except String Sys) (c : Cmd) (sound : Sound r) : Sound (step r c) := by
  cases r with
  | error e => exact sound
  | ok s =>
    have t : Tally s 0 0 := sound
    cases c with
    | dup p fd => exact sound_call (fun s => sysDup s p fd) t fun running => t.sysDup running fd
    | close p fd => exact sound_call (fun s => sysClose s p fd) t fun running => t.sysClose running fd
    | «open» p omode found =>
      exact sound_call (fun s => sysOpen s p omode found) t fun running => t.sysOpen running omode found
    | pipe p page copied =>
      exact sound_call (fun s => sysPipe s p page copied) t fun running => t.sysPipe running page copied
    | fork p copied => exact sound_call (fun s => fork s p copied) t fun running => t.fork running copied
    | exit p =>
      show Sound (if s.running p then Files.exit s p else .ok s)
      split_ifs with running
      · rcases t.exit running with init | ⟨s', done, t'⟩
        · rw [init]
          exact ⟨by decide, by decide⟩
        · rw [done]
          exact t'
      · exact t
    | reap p =>
      show Sound (if s.state p = .ZOMBIE then .ok { s with state := Function.update s.state p .UNUSED } else .ok s)
      split_ifs with zombie
      · exact t.setState_empty (fun fd => t.idle p fd fun busy => busy.2 zombie) .UNUSED
      · exact t

theorem sound_boot : Sound (.ok boot) := by
  refine ⟨fun f => ?_, fun f _ => rfl, fun p fd _ => rfl, fun i => ?_, fun pi w => ?_, fun pi => rfl⟩
  · have none : holders boot.state boot.ofile f = 0 := Pool.count_eq_zero fun x => by simp [boot]
    rw [none]
    rfl
  · have none : inodeFiles boot.file i = 0 := Pool.count_eq_zero fun g => rfl
    rw [none]
    rfl
  · have none : pipeEnds boot.file pi w = 0 := Pool.count_eq_zero fun g => rfl
    rw [none]
    cases w <;> rfl

theorem sound_reachable {r : Except String Sys} (reached : Machine.Reachable step (.ok boot) r) : Sound r :=
  Machine.Reachable.invariant (P := Sound) sound_step sound_boot reached

/-- File-table reference counting over every run of `open`, `dup`, `pipe`,
`close`, `fork`, `exit` and `wait`, error paths included: `filedup` and
`fileclose` never panic; between system calls each file's `ref` is the number
of descriptors of processes in use that hold it, and a file no descriptor
holds is of no kind; the file table's references to each inode are its files
on that inode, so `iput` ran once for each file released; each open end of a
pipe has exactly one file and a closed end none; and a pipe page is in use
exactly while one of its ends is open. -/
theorem file_refcounts {r : Except String Sys} (reached : Machine.Reachable step (.ok boot) r) :
    r ≠ .error "filedup" ∧ r ≠ .error "fileclose" ∧
      ∀ s, r = .ok s →
        (∀ f, (s.file f).ref = holders s.state s.ofile f) ∧
        (∀ f, (s.file f).ref = 0 → (s.file f).type = .FD_NONE) ∧
        (∀ i, s.iref i = inodeFiles s.file i) ∧
        (∀ pi w, pipeEnds s.file pi w = ((s.pipe pi).isOpen w).toNat) ∧
        (∀ pi, s.allocated pi = ((s.pipe pi).readopen || (s.pipe pi).writeopen)) := by
  have sound := sound_reachable reached
  refine ⟨?_, ?_, ?_⟩
  · rintro rfl
    exact sound.1 rfl
  · rintro rfl
    exact sound.2 rfl
  · rintro s rfl
    have t : Tally s 0 0 := sound
    refine ⟨fun f => ?_, t.dead, fun i => ?_, t.ends, t.allocated⟩
    · rw [t.refs f, Pi.zero_apply, add_zero]
    · rw [t.inodes i, Pi.zero_apply, add_zero]

/-- `initproc` opens a file and duplicates it, makes a pipe, forks a child that
exits, and closes the pipe's two ends. -/
def fileRun : List Cmd :=
  [.open 0 O_RDWR (some ⟨5, 2, 0⟩), .dup 0 0, .pipe 0 (some 7) true, .fork 0 true, .exit 1, .close 0 2,
    .close 0 3]

def afterRun : Except String Sys := Machine.run step (.ok boot) fileRun

/-- The file opened and duplicated keeps its two references after the child's
exit; the pipe's read end is released and its page freed; inode 5 has one. -/
example : (match afterRun with
    | .ok s => ((s.file 0).ref, (s.file 1).ref, s.allocated 7, s.iref 5)
    | .error _ => (0, 0, true, 0)) = (2, 0, false, 1) := by
  decide +kernel

theorem file_refcounts_after_fork :
    Machine.Reachable step (.ok boot) afterRun ∧
      afterRun ≠ .error "filedup" ∧ afterRun ≠ .error "fileclose" ∧
      ∀ s, afterRun = .ok s →
        (∀ f, (s.file f).ref = holders s.state s.ofile f) ∧
        (∀ f, (s.file f).ref = 0 → (s.file f).type = .FD_NONE) ∧
        (∀ i, s.iref i = inodeFiles s.file i) ∧
        (∀ pi w, pipeEnds s.file pi w = ((s.pipe pi).isOpen w).toNat) ∧
        (∀ pi, s.allocated pi = ((s.pipe pi).readopen || (s.pipe pi).writeopen)) :=
  ⟨⟨fileRun, rfl⟩, file_refcounts ⟨fileRun, rfl⟩⟩

end Xv6.Files
