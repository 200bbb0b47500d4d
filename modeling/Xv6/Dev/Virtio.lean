import Xv6.Pool
import Xv6.Ring
import Xv6.Machine

/-! `kernel/virtio_disk.c`: the descriptor table of the virtio disk. A request
takes three descriptors with `alloc3_desc`, links them into a chain (header,
data, status), hands the chain's head to the device through the avail ring and
sleeps until `virtio_disk_intr` has seen the head in the used ring; then it
frees the chain with `free_chain`. `vdisk_lock` is held except while a request
sleeps, so a request's turn runs from a wakeup to its next sleep or its return.
A sleeper may be resumed at any time: it re-tests its condition, so this only
adds runs. The device completes only chains it was given, each once, in any
order and with any status; the request header and the addresses and lengths of
the descriptors are read by the device only. A panic ends the run with its
message. -/
namespace Xv6.Virtio

def NUM : Nat := 8

def VRING_DESC_F_NEXT : UInt16 := 1
def VRING_DESC_F_WRITE : UInt16 := 2

/-- `struct virtq_desc` without `addr` and `len`. -/
structure Desc where
  flags : UInt16
  next : UInt16

/-- `disk.info[i]` for the chain headed by `i`: the waiting request, as its
process, and the status byte the device writes. -/
structure Info where
  b : Option Nat
  status : UInt8

/-- `struct virtq_avail`. -/
structure Avail where
  idx : UInt16
  ring : Nat → UInt16

/-- `struct virtq_used`, with the `id` of each element. -/
structure Used where
  idx : UInt16
  ring : Nat → UInt32

/-- `struct disk`, without its lock and the request headers. -/
structure Disk where
  desc : Nat → Desc
  avail : Avail
  used : Used
  free : Nat → Bool
  usedIdx : UInt16
  info : Nat → Info

/-- `alloc_desc()`'s loop from `i`: mark the first free descriptor and return it. -/
def allocDescFrom (d : Disk) (i : Nat) : Disk × Int :=
  if i < NUM then
    if d.free i then ({ d with free := Function.update d.free i false }, i)
    else allocDescFrom d (i + 1)
  else (d, -1)
termination_by NUM - i

def allocDesc (d : Disk) : Disk × Int := allocDescFrom d 0

/-- `free_desc(i)`. -/
def freeDesc (d : Disk) (i : Nat) : Except String Disk :=
  if i ≥ NUM then .error "free_desc 1"
  else if d.free i then .error "free_desc 2"
  -- `wakeup(&disk.free[0])`: the sleepers retry when they next run
  else .ok { d with desc := Function.update d.desc i ⟨0, 0⟩, free := Function.update d.free i true }

theorem freeDesc_ok {d d' : Disk} {i : Nat} (freed : freeDesc d i = .ok d') :
    i < NUM ∧ d.free i = false ∧
      d' = { d with desc := Function.update d.desc i ⟨0, 0⟩, free := Function.update d.free i true } := by
  unfold freeDesc at freed
  split_ifs at freed with past inUse
  · exact ⟨by omega, by simpa using inUse, (Except.ok.inj freed).symm⟩

theorem inUse_freeDesc {d d' : Disk} {i : Nat} (freed : freeDesc d i = .ok d') :
    Pool.inUse NUM d'.free < Pool.inUse NUM d.free := by
  obtain ⟨below, used, rfl⟩ := freeDesc_ok freed
  exact Pool.inUse_update_lt below used

/-- `free_chain(i)`: free descriptors along `next` while `VRING_DESC_F_NEXT` is set. -/
def freeChain (d : Disk) (i : Nat) : Except String Disk :=
  let flag := (d.desc i).flags
  let nxt := (d.desc i).next
  match _freed : freeDesc d i with
  | .error e => .error e
  | .ok d' => if flag &&& VRING_DESC_F_NEXT ≠ 0 then freeChain d' nxt.toNat else .ok d'
termination_by Pool.inUse NUM d.free
decreasing_by exact inUse_freeDesc _freed

/-- `for(int j = 0; j < i; j++) free_desc(idx[j]);`. -/
def freeEach (d : Disk) : List Nat → Except String Disk
  | [] => .ok d
  | j :: rest =>
    match freeDesc d j with
    | .error e => .error e
    | .ok d => freeEach d rest

/-- `alloc3_desc`'s loop with `k` descriptors still to take and `idx` taken:
on a failure it frees what it took and returns -1. -/
def alloc3Loop (d : Disk) (idx : List Nat) : Nat → Except String (Disk × Int × List Nat)
  | 0 => .ok (d, 0, idx)
  | k + 1 =>
    let taken := allocDesc d
    if taken.2 < 0 then
      match freeEach taken.1 idx with
      | .error e => .error e
      | .ok d => .ok (d, -1, idx)
    else alloc3Loop taken.1 (idx ++ [taken.2.toNat]) k

/-- `alloc3_desc(idx)`: the disk after it, its result, and `idx`. -/
def alloc3Desc (d : Disk) : Except String (Disk × Int × List Nat) := alloc3Loop d [] 3

/-- Where a process is in `virtio_disk_rw`. -/
inductive Phase where
  | idle
  /-- Asleep on `&disk.free[0]`, to retry `alloc3_desc`. -/
  | allocating (write : Bool)
  /-- Its chain `idx` handed to the device; asleep on `b` while `b->disk == 1`. -/
  | waiting (idx : List Nat)

/-- The disk, each process's buffer flag `b->disk`, the processes, and a ghost
list of the chain heads the device was given and has not completed. -/
structure Sys where
  disk : Disk
  bufDisk : Nat → Bool
  proc : Nat → Phase
  given : List Nat

/-- `virtio_disk_rw` after `alloc3_desc` succeeded: format the three
descriptors, record the buffer, and put the head on the avail ring. -/
def submit (s : Sys) (p : Nat) (write : Bool) (idx : List Nat) : Sys :=
  let i0 := idx.getD 0 0
  let i1 := idx.getD 1 0
  let i2 := idx.getD 2 0
  let d := s.disk
  let desc := Function.update d.desc i0 ⟨VRING_DESC_F_NEXT, UInt16.ofNat i1⟩
  let desc := Function.update desc i1
    ⟨(if write then 0 else VRING_DESC_F_WRITE) ||| VRING_DESC_F_NEXT, UInt16.ofNat i2⟩
  let info := Function.update d.info i0 { d.info i0 with status := 0xff }
  let desc := Function.update desc i2 ⟨VRING_DESC_F_WRITE, 0⟩
  let info := Function.update info i0 { info i0 with b := some p }
  let avail : Avail :=
    { idx := d.avail.idx + 1, ring := Function.update d.avail.ring (d.avail.idx % UInt16.ofNat NUM).toNat (UInt16.ofNat i0) }
  { s with disk := { d with desc := desc, info := info, avail := avail },
           bufDisk := Function.update s.bufDisk p true,
           proc := Function.update s.proc p (.waiting idx),
           given := s.given ++ [i0] }

/-- A turn of `virtio_disk_rw`'s allocation loop: `alloc3_desc`, then submit and
sleep on `b`, or sleep on `&disk.free[0]`. -/
def allocTurn (s : Sys) (p : Nat) (write : Bool) : Except String Sys :=
  match alloc3Desc s.disk with
  | .error e => .error e
  | .ok (d, r, idx) =>
    if r = 0 then .ok (submit { s with disk := d } p write idx)
    else .ok { s with disk := d, proc := Function.update s.proc p (.allocating write) }

/-- A turn after `sleep(b)`: sleep again while `b->disk == 1`; else
`disk.info[idx[0]].b = 0; free_chain(idx[0]);` and return. -/
def waitTurn (s : Sys) (p : Nat) (idx : List Nat) : Except String Sys :=
  if s.bufDisk p then .ok s
  else
    let i0 := idx.getD 0 0
    let d := { s.disk with info := Function.update s.disk.info i0 { s.disk.info i0 with b := none } }
    match freeChain d i0 with
    | .error e => .error e
    | .ok d => .ok { s with disk := d, proc := Function.update s.proc p .idle }

/-- `virtio_disk_intr`'s loop over the used ring, from `disk.used_idx` to
`disk.used->idx`. A null `b` would fault in the kernel. -/
def intrLoop (d : Disk) (bufDisk : Nat → Bool) : Except String (Disk × (Nat → Bool)) :=
  if d.usedIdx ≠ d.used.idx then
    let id := (d.used.ring (d.usedIdx % UInt16.ofNat NUM).toNat).toNat
    if (d.info id).status ≠ 0 then .error "virtio_disk_intr status"
    else
      match (d.info id).b with
      | none => .error "kerneltrap"
      | some b => intrLoop { d with usedIdx := d.usedIdx + 1 } (Function.update bufDisk b false)
  else .ok (d, bufDisk)
termination_by (d.used.idx - d.usedIdx).toNat
decreasing_by
  have := Ring.counter16_succ_sub (by assumption)
  omega

/-- The device completes the chain headed by `given[j]`: it writes the status
byte, then the used ring element, then `used->idx`. -/
def complete (s : Sys) (j : Nat) (status : UInt8) : Sys :=
  match s.given[j]? with
  | none => s
  | some head =>
    let d := s.disk
    let used : Used :=
      { idx := d.used.idx + 1,
        ring := Function.update d.used.ring (d.used.idx % UInt16.ofNat NUM).toNat (UInt32.ofNat head) }
    { s with disk := { d with info := Function.update d.info head { d.info head with status := status },
                              used := used },
             given := s.given.eraseIdx j }

inductive Cmd where
  /-- Process `p` calls `virtio_disk_rw`. -/
  | rw (p : Nat) (write : Bool)
  /-- Process `p` wakes and takes its next turn. -/
  | run (p : Nat)
  /-- The device completes a chain it was given. -/
  | device (j : Nat) (status : UInt8)
  /-- The disk interrupt: `virtio_disk_intr()`. -/
  | intr

def step : Except String Sys → Cmd → Except String Sys
  | .error e, _ => .error e
  | .ok s, .rw p write =>
    match s.proc p with
    | .idle => allocTurn s p write
    | _ => .ok s
  | .ok s, .run p =>
    match s.proc p with
    | .idle => .ok s
    | .allocating write => allocTurn s p write
    | .waiting idx => waitTurn s p idx
  | .ok s, .device j status => .ok (complete s j status)
  | .ok s, .intr =>
    match intrLoop s.disk s.bufDisk with
    | .error e => .error e
    | .ok (d, bufDisk) => .ok { s with disk := d, bufDisk := bufDisk }

/-- `virtio_disk_init`: the pages zeroed and every descriptor free. -/
def boot : Sys :=
  { disk := { desc := fun _ => ⟨0, 0⟩, avail := ⟨0, fun _ => 0⟩, used := ⟨0, fun _ => 0⟩, free := fun _ => true,
              usedIdx := 0, info := fun _ => ⟨none, 0⟩ },
    bufDisk := fun _ => false, proc := fun _ => .idle, given := [] }

/-! ## Taking and freeing descriptors -/

section Descriptors

variable {d : Disk}

/-- The scan from `i` takes the first free descriptor at or after `i`. -/
theorem allocDescFrom_eq (d : Disk) (i : Nat) :
    allocDescFrom d i =
      match ((List.range' i (NUM - i)).filter d.free).head? with
      | some j => ({ d with free := Function.update d.free j false }, j)
      | none => (d, -1) := by
  fun_induction allocDescFrom d i with
  | case1 i below free =>
    rw [show NUM - i = NUM - (i + 1) + 1 by omega, List.range'_succ, List.filter_cons_of_pos free]
    rfl
  | case2 i below taken ih =>
    rw [show NUM - i = NUM - (i + 1) + 1 by omega, List.range'_succ, List.filter_cons_of_neg taken]
    exact ih
  | case3 i past =>
    rw [show NUM - i = 0 by omega]
    rfl

theorem allocDesc_first {j : Nat} {rest : List Nat} (first : Pool.freeSlots NUM d.free = j :: rest) :
    allocDesc d = ({ d with free := Function.update d.free j false }, (j : Int)) := by
  rw [allocDesc, allocDescFrom_eq, Nat.sub_zero, ← List.range_eq_range']
  rw [Pool.freeSlots] at first
  rw [first]
  rfl

theorem allocDesc_none (none : Pool.freeSlots NUM d.free = []) : allocDesc d = (d, -1) := by
  rw [allocDesc, allocDescFrom_eq, Nat.sub_zero, ← List.range_eq_range']
  rw [Pool.freeSlots] at none
  rw [none]
  rfl

theorem freeDesc_eq {i : Nat} (below : i < NUM) (used : d.free i = false) :
    freeDesc d i = .ok { d with desc := Function.update d.desc i ⟨0, 0⟩, free := Function.update d.free i true } := by
  rw [freeDesc, if_neg (by omega), if_neg (by simp [used])]

/-- The rollback frees exactly the descriptors it is given; induction on them. -/
theorem freeEach_eq {l : List Nat} (nodup : l.Nodup) (bound : ∀ i ∈ l, i < NUM) (used : ∀ i ∈ l, d.free i = false) :
    freeEach d l =
      .ok { d with desc := fun i => if i ∈ l then ⟨0, 0⟩ else d.desc i, free := Pool.mark d.free l true } := by
  induction l generalizing d with
  | nil => rfl
  | cons j rest ih =>
    obtain ⟨fresh, nodup⟩ := List.nodup_cons.mp nodup
    have later : ∀ i ∈ rest, (Function.update d.free j true) i = false := fun i member => by
      rw [Function.update_of_ne (by rintro rfl; exact fresh member)]
      exact used i (List.mem_cons_of_mem j member)
    rw [freeEach, freeDesc_eq (bound j List.mem_cons_self) (used j List.mem_cons_self)]
    simp only
    rw [ih nodup (fun i member => bound i (List.mem_cons_of_mem j member)) later, Pool.mark_cons]
    congr 3
    funext i
    by_cases same : i = j
    · simp [same]
    · simp [same]

/-- With `k` free descriptors or more, the loop takes the first `k`; induction on `k`. -/
theorem alloc3Loop_enough {idx : List Nat} {k : Nat} (enough : k ≤ (Pool.freeSlots NUM d.free).length) :
    alloc3Loop d idx k =
      .ok ({ d with free := Pool.mark d.free ((Pool.freeSlots NUM d.free).take k) false }, 0,
        idx ++ (Pool.freeSlots NUM d.free).take k) := by
  induction k generalizing d idx with
  | zero => simp only [List.take_zero, Pool.mark_nil, List.append_nil]; rfl
  | succ k ih =>
    obtain ⟨j, rest, first⟩ : ∃ j rest, Pool.freeSlots NUM d.free = j :: rest :=
      List.exists_cons_of_length_pos (by omega)
    have taken : Pool.freeSlots NUM (Function.update d.free j false) = rest := by
      rw [Pool.freeSlots_update, first, List.erase_cons_head]
    rw [alloc3Loop, allocDesc_first first]
    simp only [Nat.cast_nonneg, not_lt.mpr, if_false, Int.toNat_natCast]
    rw [ih (by simp only [taken]; rw [first] at enough; simp at enough; omega), taken, first, List.take_succ_cons,
      Pool.mark_cons, List.append_assoc, List.singleton_append]

/-- With fewer than `k` free descriptors, the loop takes them all, then frees
them with those it had; induction on `k`. -/
theorem alloc3Loop_short {idx : List Nat} {k : Nat} (short : (Pool.freeSlots NUM d.free).length < k)
    (nodup : idx.Nodup) (bound : ∀ i ∈ idx, i < NUM) (used : ∀ i ∈ idx, d.free i = false) :
    ∃ d', alloc3Loop d idx k = .ok (d', -1, idx ++ Pool.freeSlots NUM d.free) ∧
      d'.free = Pool.mark d.free idx true ∧ ∀ i, d.free i = false → i ∉ idx → d'.desc i = d.desc i := by
  induction k generalizing d idx with
  | zero => omega
  | succ k ih =>
    cases first : Pool.freeSlots NUM d.free with
    | nil =>
      refine ⟨{ d with desc := fun i => if i ∈ idx then ⟨0, 0⟩ else d.desc i, free := Pool.mark d.free idx true },
        ?_, rfl, fun i _ outside => if_neg outside⟩
      rw [alloc3Loop, allocDesc_none first]
      simp only [Int.reduceNeg, Int.reduceLT, if_true, List.append_nil]
      rw [freeEach_eq nodup bound used]
    | cons j rest =>
      have fresh : j < NUM ∧ d.free j = true := Pool.mem_freeSlots.mp (first ▸ List.mem_cons_self)
      have notIdx : j ∉ idx := fun member => by simp [used j member] at fresh
      have taken : Pool.freeSlots NUM (Function.update d.free j false) = rest := by
        rw [Pool.freeSlots_update, first, List.erase_cons_head]
      obtain ⟨d', looped, freed, kept⟩ := @ih { d with free := Function.update d.free j false } (idx ++ [j])
        (by simp only [taken]; rw [first] at short; simp at short; omega)
        (List.nodup_append.mpr ⟨nodup, List.nodup_singleton j, fun a member b single => by
          rw [List.mem_singleton.mp single]
          rintro rfl
          exact notIdx member⟩)
        (by simpa [or_imp, forall_and] using ⟨bound, fresh.1⟩)
        (by
          intro i member
          show Function.update d.free j false i = false
          rcases List.mem_append.mp member with old | new
          · rw [Function.update_of_ne (by rintro rfl; exact notIdx old)]
            exact used i old
          · rw [List.mem_singleton.mp new, Function.update_self])
      refine ⟨d', ?_, ?_, fun i inUse outside => ?_⟩
      · rw [alloc3Loop, allocDesc_first first]
        simp only [Nat.cast_nonneg, not_lt.mpr, if_false, Int.toNat_natCast]
        rw [looped, taken, List.append_assoc, List.singleton_append]
      · rw [freed]
        funext i
        by_cases old : i ∈ idx
        · simp [Pool.mark, old]
        · by_cases same : i = j
          · subst same
            simp [Pool.mark, old, fresh.2]
          · simp [Pool.mark, old, same]
      · have other : i ≠ j := by rintro rfl; simp [inUse] at fresh
        have stillUsed : Function.update d.free j false i = false := by
          rw [Function.update_of_ne other]
          exact inUse
        rw [kept i stillUsed (by simp [outside, other])]

theorem alloc3Desc_short (short : (Pool.freeSlots NUM d.free).length < 3) :
    ∃ d' idx, alloc3Desc d = .ok (d', -1, idx) ∧ d'.free = d.free ∧ ∀ i, d.free i = false → d'.desc i = d.desc i := by
  obtain ⟨d', looped, freed, kept⟩ := alloc3Loop_short short List.nodup_nil (by simp) (by simp)
  exact ⟨d', _, looped, by rw [freed, Pool.mark_nil], fun i inUse => kept i inUse List.not_mem_nil⟩

theorem alloc3Desc_enough (enough : 3 ≤ (Pool.freeSlots NUM d.free).length) :
    alloc3Desc d =
      .ok ({ d with free := Pool.mark d.free ((Pool.freeSlots NUM d.free).take 3) false }, 0,
        (Pool.freeSlots NUM d.free).take 3) :=
  alloc3Loop_enough enough

theorem take_three {idx : List Nat} (taken : idx = (Pool.freeSlots NUM d.free).take 3)
    (enough : 3 ≤ (Pool.freeSlots NUM d.free).length) :
    idx.length = 3 ∧ idx.Nodup ∧ ∀ i ∈ idx, i < NUM ∧ d.free i = true := by
  subst taken
  refine ⟨by simp; omega, (Pool.freeSlots_nodup NUM d.free).sublist (List.take_sublist _ _), fun i member => ?_⟩
  exact Pool.mem_freeSlots.mp (List.mem_of_mem_take member)

end Descriptors

/-! ## Chains -/

/-- Three descriptors linked as `virtio_disk_rw` links them: `next` and
`VRING_DESC_F_NEXT` on the first two, no `VRING_DESC_F_NEXT` on the last. -/
def Linked (desc : Nat → Desc) : List Nat → Prop
  | [i0, i1, i2] =>
    (desc i0).flags &&& VRING_DESC_F_NEXT ≠ 0 ∧ (desc i0).next.toNat = i1 ∧
      (desc i1).flags &&& VRING_DESC_F_NEXT ≠ 0 ∧ (desc i1).next.toNat = i2 ∧
      (desc i2).flags &&& VRING_DESC_F_NEXT = 0
  | _ => False

theorem Linked.length {desc : Nat → Desc} {idx : List Nat} (linked : Linked desc idx) : idx.length = 3 := by
  match idx, linked with
  | [_, _, _], _ => rfl

theorem Linked.frame {desc desc' : Nat → Desc} {idx : List Nat} (linked : Linked desc idx)
    (same : ∀ i ∈ idx, desc' i = desc i) : Linked desc' idx := by
  match idx, linked with
  | [i0, i1, i2], ⟨first, next0, second, next1, last⟩ =>
    simp only [Linked]
    rw [same i0 (by simp), same i1 (by simp), same i2 (by simp)]
    exact ⟨first, next0, second, next1, last⟩

section FreeChain

variable {d : Disk} {i : Nat}

theorem freeChain_next (below : i < NUM) (used : d.free i = false) (more : (d.desc i).flags &&& VRING_DESC_F_NEXT ≠ 0) :
    freeChain d i =
      freeChain { d with desc := Function.update d.desc i ⟨0, 0⟩, free := Function.update d.free i true }
        (d.desc i).next.toNat := by
  rw [freeChain]
  split
  · rename_i failed
    rw [freeDesc_eq below used] at failed
    cases failed
  · rename_i d' freed
    rw [freeDesc_eq below used] at freed
    cases freed
    rw [if_pos more]

theorem freeChain_last (below : i < NUM) (used : d.free i = false) (last : (d.desc i).flags &&& VRING_DESC_F_NEXT = 0) :
    freeChain d i = .ok { d with desc := Function.update d.desc i ⟨0, 0⟩, free := Function.update d.free i true } := by
  rw [freeChain]
  split
  · rename_i failed
    rw [freeDesc_eq below used] at failed
    cases failed
  · rename_i d' freed
    rw [freeDesc_eq below used] at freed
    cases freed
    rw [if_neg (not_not_intro last)]

/-- `free_chain` on a linked chain in use frees exactly its three descriptors
and leaves every other descriptor as it was. -/
theorem freeChain_linked {idx : List Nat} (linked : Linked d.desc idx) (nodup : idx.Nodup)
    (bound : ∀ i ∈ idx, i < NUM) (used : ∀ i ∈ idx, d.free i = false) :
    ∃ d', freeChain d (idx.getD 0 0) = .ok d' ∧ d'.free = Pool.mark d.free idx true ∧
      ∀ i ∉ idx, d'.desc i = d.desc i := by
  match idx, linked with
  | [i0, i1, i2], ⟨first, next0, second, next1, last⟩ =>
    have h01 : i1 ≠ i0 := fun same => by simp [same] at nodup
    have h02 : i2 ≠ i0 := fun same => by simp [same] at nodup
    have h12 : i2 ≠ i1 := fun same => by simp [same] at nodup
    simp only [List.getD_cons_zero]
    rw [freeChain_next (bound i0 (by simp)) (used i0 (by simp)) first, next0]
    rw [freeChain_next (by exact bound i1 (by simp))
      (by show Function.update d.free i0 true i1 = false; rw [Function.update_of_ne h01]; exact used i1 (by simp))
      (by show (Function.update d.desc i0 ⟨0, 0⟩ i1).flags &&& _ ≠ 0; rw [Function.update_of_ne h01]; exact second)]
    rw [show (Function.update d.desc i0 ⟨0, 0⟩ i1).next.toNat = i2 by rw [Function.update_of_ne h01]; exact next1]
    rw [freeChain_last (by exact bound i2 (by simp))
      (by
        show Function.update (Function.update d.free i0 true) i1 true i2 = false
        rw [Function.update_of_ne h12, Function.update_of_ne h02]
        exact used i2 (by simp))
      (by
        show (Function.update (Function.update d.desc i0 ⟨0, 0⟩) i1 ⟨0, 0⟩ i2).flags &&& _ = 0
        rw [Function.update_of_ne h12, Function.update_of_ne h02]
        exact last)]
    refine ⟨_, rfl, ?_, fun i outside => ?_⟩
    · simp only [Pool.mark_cons, Pool.mark_nil]
    · simp only [List.mem_cons, List.not_mem_nil, or_false, not_or] at outside
      simp only [Function.update_of_ne outside.1, Function.update_of_ne outside.2.1, Function.update_of_ne outside.2.2]

end FreeChain

/-! ## The interrupt and the device -/

theorem intrLoop_ok {d d' : Disk} {bufDisk bufDisk' : Nat → Bool}
    (done : intrLoop d bufDisk = .ok (d', bufDisk')) : d'.free = d.free ∧ d'.desc = d.desc := by
  fun_induction intrLoop d bufDisk with
  | case1 => simp_all
  | case2 => simp_all
  | case3 =>
    rename_i ih
    exact ih done
  | case4 => cases done; exact ⟨rfl, rfl⟩

theorem intrLoop_error {d : Disk} {bufDisk : Nat → Bool} {e : String} (failed : intrLoop d bufDisk = .error e) :
    e = "virtio_disk_intr status" ∨ e = "kerneltrap" := by
  fun_induction intrLoop d bufDisk with
  | case1 => cases failed; exact .inl rfl
  | case2 => cases failed; exact .inr rfl
  | case3 =>
    rename_i ih
    exact ih failed
  | case4 => cases failed

@[simp] theorem complete_free (s : Sys) (j : Nat) (status : UInt8) : (complete s j status).disk.free = s.disk.free := by
  unfold complete
  split <;> rfl

@[simp] theorem complete_desc (s : Sys) (j : Nat) (status : UInt8) : (complete s j status).disk.desc = s.disk.desc := by
  unfold complete
  split <;> rfl

@[simp] theorem complete_proc (s : Sys) (j : Nat) (status : UInt8) : (complete s j status).proc = s.proc := by
  unfold complete
  split <;> rfl

/-! ## Every descriptor is free or in one chain -/

/-- The descriptors a process holds: its chain while it waits. -/
def Phase.chain : Phase → List Nat
  | .waiting idx => idx
  | _ => []

/-- Every descriptor is free or held by one waiting request, and each request's
three descriptors are linked. -/
structure Accounted (s : Sys) : Prop where
  owned : Pool.Owned NUM s.disk.free fun p => (s.proc p).chain
  linked : ∀ p idx, s.proc p = .waiting idx → Linked s.disk.desc idx

section Accounted

variable {s : Sys}

theorem chains_update (proc : Nat → Phase) (p : Nat) (phase : Phase) :
    (fun q => (Function.update proc p phase q).chain) = Function.update (fun q => (proc q).chain) p phase.chain := by
  funext q
  by_cases same : q = p
  · subst same
    simp
  · simp [same]

/-- Writes to free descriptors keep the invariant, as long as no request gains
or loses a chain. -/
theorem Accounted.frame (inv : Accounted s) {s' : Sys} (free : s'.disk.free = s.disk.free)
    (chains : ∀ q, (s'.proc q).chain = (s.proc q).chain)
    (waits : ∀ q idx, s'.proc q = .waiting idx → s.proc q = .waiting idx)
    (desc : ∀ i, s.disk.free i = false → s'.disk.desc i = s.disk.desc i) : Accounted s' where
  owned := by
    rw [free, show (fun q => (s'.proc q).chain) = fun q => (s.proc q).chain from funext chains]
    exact inv.owned
  linked q idx waiting := by
    have before := waits q idx waiting
    refine (inv.linked q idx before).frame fun i member => desc i ?_
    exact inv.owned.not_free (a := q) (by rw [before]; exact member)

/-- The three descriptors `virtio_disk_rw` formats are linked. -/
theorem submit_linked (desc : Nat → Desc) {i0 i1 i2 : Nat} (write : Bool) (h01 : i1 ≠ i0) (h02 : i2 ≠ i0)
    (h12 : i2 ≠ i1) (b1 : i1 < NUM) (b2 : i2 < NUM) :
    Linked
      (Function.update
        (Function.update (Function.update desc i0 ⟨VRING_DESC_F_NEXT, UInt16.ofNat i1⟩) i1
          ⟨(if write then 0 else VRING_DESC_F_WRITE) ||| VRING_DESC_F_NEXT, UInt16.ofNat i2⟩)
        i2 ⟨VRING_DESC_F_WRITE, 0⟩)
      [i0, i1, i2] := by
  have small : ∀ i < NUM, (UInt16.ofNat i).toNat = i := fun i below => by
    rw [UInt16.toNat_ofNat']
    unfold NUM at below
    omega
  simp only [Linked, Function.update_self, Function.update_of_ne h02.symm, Function.update_of_ne h01.symm,
    Function.update_of_ne h12.symm]
  refine ⟨by decide, small i1 b1, by cases write <;> decide, small i2 b2, by decide⟩

/-- A request with no chain that takes its turn in the allocation loop keeps the invariant. -/
theorem Accounted.allocTurn (inv : Accounted s) {p : Nat} (empty : (s.proc p).chain = []) (write : Bool) :
    ∃ s', allocTurn s p write = .ok s' ∧ Accounted s' := by
  by_cases enough : 3 ≤ (Pool.freeSlots NUM s.disk.free).length
  · obtain ⟨three, nodup, fresh⟩ := take_three rfl enough
    rw [Virtio.allocTurn, alloc3Desc_enough enough]
    simp only [if_true]
    generalize (Pool.freeSlots NUM s.disk.free).take 3 = idx at three nodup fresh ⊢
    match idx, three with
    | [i0, i1, i2], _ =>
    have h01 : i1 ≠ i0 := fun same => by simp [same] at nodup
    have h02 : i2 ≠ i0 := fun same => by simp [same] at nodup
    have h12 : i2 ≠ i1 := fun same => by simp [same] at nodup
    refine ⟨_, rfl, ?_, ?_⟩
    · show Pool.Owned NUM (Pool.mark s.disk.free _ false) fun q => (Function.update s.proc p _ q).chain
      rw [chains_update]
      exact inv.owned.acquire empty nodup (fun i member => (fresh i member).1) fun i member => (fresh i member).2
    · intro q idx waiting
      by_cases same : q = p
      · subst same
        simp only [submit, Function.update_self, Phase.waiting.injEq] at waiting
        subst waiting
        exact submit_linked _ write h01 h02 h12 (fresh i1 (by simp)).1 (fresh i2 (by simp)).1
      · simp only [submit, Function.update_of_ne same] at waiting
        refine (inv.linked q idx waiting).frame fun i member => ?_
        have held : s.disk.free i = false := inv.owned.not_free (a := q) (by rw [waiting]; exact member)
        have other : ∀ j ∈ [i0, i1, i2], i ≠ j := fun j taken same => by
          rw [same, (fresh j taken).2] at held
          cases held
        simp only [submit, List.getD_cons_zero, List.getD_cons_succ,
          Function.update_of_ne (other i2 (by simp)), Function.update_of_ne (other i1 (by simp)),
          Function.update_of_ne (other i0 (by simp))]
  · obtain ⟨d, idx, allocated, same, kept⟩ := alloc3Desc_short (not_le.mp enough)
    rw [Virtio.allocTurn, allocated]
    simp only [Int.reduceNeg, reduceCtorEq, if_false]
    refine ⟨_, rfl, inv.frame same (fun q => ?_) (fun q idx' waiting => ?_) kept⟩
    · dsimp only
      by_cases here : q = p
      · rw [here, Function.update_self, empty]
        rfl
      · rw [Function.update_of_ne here]
    · dsimp only at waiting
      by_cases here : q = p
      · rw [here, Function.update_self] at waiting
        cases waiting
      · rwa [Function.update_of_ne here] at waiting

/-- A waiting request's turn keeps the invariant: it frees its own chain, and
only that, once `b->disk` is 0. -/
theorem Accounted.waitTurn (inv : Accounted s) {p : Nat} {idx : List Nat} (waiting : s.proc p = .waiting idx) :
    ∃ s', waitTurn s p idx = .ok s' ∧ Accounted s' := by
  by_cases asleep : s.bufDisk p = true
  · exact ⟨s, by rw [Virtio.waitTurn, if_pos asleep], inv⟩
  · have held : (s.proc p).chain = idx := by rw [waiting]; rfl
    obtain ⟨d, freed, released, kept⟩ := freeChain_linked
      (d := { s.disk with info := Function.update s.disk.info (idx.getD 0 0) { s.disk.info (idx.getD 0 0) with b := none } })
      (inv.linked p idx waiting) (held ▸ inv.owned.nodup p) (held ▸ inv.owned.bound p)
      fun i member => inv.owned.not_free (a := p) (held ▸ member)
    rw [Virtio.waitTurn, if_neg asleep]
    simp only
    rw [freed]
    refine ⟨_, rfl, ?_, fun q idx' waits => ?_⟩
    · show Pool.Owned NUM d.free fun q => (Function.update s.proc p .idle q).chain
      rw [chains_update, released, ← held]
      exact inv.owned.release p
    · dsimp only at waits
      by_cases same : q = p
      · rw [same, Function.update_self] at waits
        cases waits
      · rw [Function.update_of_ne same] at waits
        refine (inv.linked q idx' waits).frame fun i member => kept i fun freedHere => same ?_
        exact inv.owned.excl q p i (by rw [waits]; exact member) (by rw [held]; exact freedHere)

end Accounted

/-- A run is sound while no `free_desc` panic has happened and, while it goes
on, every descriptor is accounted for. -/
def Sound : Except String Sys → Prop
  | .ok s => Accounted s
  | .error e => e ≠ "free_desc 1" ∧ e ≠ "free_desc 2"

theorem sound_step {r : Except String Sys} (sound : Sound r) (cmd : Cmd) : Sound (step r cmd) := by
  cases r with
  | error e => exact sound
  | ok s =>
    have inv : Accounted s := sound
    cases cmd with
    | rw p write =>
      cases phase : s.proc p with
      | idle =>
        obtain ⟨s', turn, next⟩ := inv.allocTurn (p := p) (by rw [phase]; rfl) write
        simp only [step, phase, turn]
        exact next
      | allocating w =>
        simp only [step, phase]
        exact inv
      | waiting idx =>
        simp only [step, phase]
        exact inv
    | run p =>
      cases phase : s.proc p with
      | idle =>
        simp only [step, phase]
        exact inv
      | allocating write =>
        obtain ⟨s', turn, next⟩ := inv.allocTurn (p := p) (by rw [phase]; rfl) write
        simp only [step, phase, turn]
        exact next
      | waiting idx =>
        obtain ⟨s', turn, next⟩ := inv.waitTurn phase
        simp only [step, phase, turn]
        exact next
    | device j status =>
      exact inv.frame (complete_free s j status) (fun q => by rw [complete_proc])
        (fun q idx waiting => by rwa [complete_proc] at waiting) (fun i _ => by rw [complete_desc])
    | intr =>
      cases handled : intrLoop s.disk s.bufDisk with
      | error e =>
        simp only [step, handled]
        rcases intrLoop_error handled with rfl | rfl <;> exact ⟨by decide, by decide⟩
      | ok result =>
        obtain ⟨d, bufDisk⟩ := result
        obtain ⟨free, desc⟩ := intrLoop_ok handled
        simp only [step, handled]
        exact inv.frame free (fun _ => rfl) (fun _ _ waiting => waiting) (fun i _ => by rw [desc])

theorem sound_boot : Sound (.ok boot) where
  owned := ⟨fun _ => List.nodup_nil, fun _ _ member => absurd member List.not_mem_nil,
    fun _ _ _ member => absurd member List.not_mem_nil, fun _ _ => by simp [boot, Phase.chain]⟩
  linked _ _ waiting := by cases waiting

theorem sound_reachable {r : Except String Sys} (reached : Machine.Reachable step (.ok boot) r) : Sound r :=
  Machine.Reachable.invariant (P := Sound) (fun _ cmd sound => sound_step sound cmd) sound_boot reached

/-- Virtio descriptor accounting over every interleaving of requests, device
completions and interrupts: no `free_desc` panic happens; while the run goes
on, every descriptor is free and in no chain, or in use and in the chain of
exactly one waiting request, whose three descriptors are distinct and linked
and which `free_chain` gives back exactly; and `alloc3_desc`, on any disk,
returns -1 with `free[]` as it was when fewer than three descriptors are free,
and takes three distinct free ones otherwise. -/
theorem virtio_descriptors {r : Except String Sys} (reached : Machine.Reachable step (.ok boot) r) :
    r ≠ .error "free_desc 1" ∧ r ≠ .error "free_desc 2" ∧
      (∀ s, r = .ok s →
        (∀ i < NUM, (s.disk.free i = true ∧ ∀ p, i ∉ (s.proc p).chain) ∨
          (s.disk.free i = false ∧ ∃ p, i ∈ (s.proc p).chain ∧ ∀ q, i ∈ (s.proc q).chain → q = p)) ∧
        ∀ p idx, s.proc p = .waiting idx →
          idx.length = 3 ∧ idx.Nodup ∧ Linked s.disk.desc idx ∧
          ∃ d', freeChain s.disk (idx.getD 0 0) = .ok d' ∧ d'.free = Pool.mark s.disk.free idx true) ∧
      ∀ d : Disk,
        ((Pool.freeSlots NUM d.free).length < 3 → ∃ d' idx, alloc3Desc d = .ok (d', -1, idx) ∧ d'.free = d.free) ∧
        (3 ≤ (Pool.freeSlots NUM d.free).length → ∃ d' idx, alloc3Desc d = .ok (d', 0, idx) ∧
          idx.length = 3 ∧ idx.Nodup ∧ (∀ i ∈ idx, i < NUM ∧ d.free i = true) ∧
          d'.free = Pool.mark d.free idx false) := by
  have sound := sound_reachable reached
  refine ⟨?_, ?_, fun s ran => ?_, fun d => ⟨fun short => ?_, fun enough => ?_⟩⟩
  · rintro rfl
    exact sound.1 rfl
  · rintro rfl
    exact sound.2 rfl
  · subst ran
    have inv : Accounted s := sound
    refine ⟨fun i below => inv.owned.exactly_one below, fun p idx waiting => ?_⟩
    have linked := inv.linked p idx waiting
    have held : (s.proc p).chain = idx := by rw [waiting]; rfl
    have nodup : idx.Nodup := held ▸ inv.owned.nodup p
    obtain ⟨d', freed, released, -⟩ := freeChain_linked linked nodup (held ▸ inv.owned.bound p)
      fun i member => inv.owned.not_free (a := p) (held ▸ member)
    exact ⟨linked.length, nodup, linked, d', freed, released⟩
  · obtain ⟨d', idx, allocated, same, -⟩ := alloc3Desc_short short
    exact ⟨d', idx, allocated, same⟩
  · obtain ⟨three, nodup, fresh⟩ := take_three rfl enough
    exact ⟨_, _, alloc3Desc_enough enough, three, nodup, fresh, rfl⟩

/-- Three requests: the third finds two free descriptors and sleeps; the
device completes the first, the interrupt wakes it, it frees its chain, and
the third takes the same three descriptors. -/
def diskRun : List Cmd := [.rw 0 false, .rw 1 true, .rw 2 false, .device 0 0, .intr, .run 0, .run 2]

def requested : Except String Sys := Machine.run step (.ok boot) diskRun

example : (requested.toOption.map fun s => (List.range NUM).map s.disk.free) =
    some [false, false, false, false, false, false, true, true] := by decide +kernel

theorem virtio_descriptors_three_requests :
    Machine.Reachable step (.ok boot) requested ∧
      requested ≠ .error "free_desc 1" ∧ requested ≠ .error "free_desc 2" ∧
      (∀ s, requested = .ok s →
        (∀ i < NUM, (s.disk.free i = true ∧ ∀ p, i ∉ (s.proc p).chain) ∨
          (s.disk.free i = false ∧ ∃ p, i ∈ (s.proc p).chain ∧ ∀ q, i ∈ (s.proc q).chain → q = p)) ∧
        ∀ p idx, s.proc p = .waiting idx →
          idx.length = 3 ∧ idx.Nodup ∧ Linked s.disk.desc idx ∧
          ∃ d', freeChain s.disk (idx.getD 0 0) = .ok d' ∧ d'.free = Pool.mark s.disk.free idx true) ∧
      ∀ d : Disk,
        ((Pool.freeSlots NUM d.free).length < 3 → ∃ d' idx, alloc3Desc d = .ok (d', -1, idx) ∧ d'.free = d.free) ∧
        (3 ≤ (Pool.freeSlots NUM d.free).length → ∃ d' idx, alloc3Desc d = .ok (d', 0, idx) ∧
          idx.length = 3 ∧ idx.Nodup ∧ (∀ i ∈ idx, i < NUM ∧ d.free i = true) ∧
          d'.free = Pool.mark d.free idx false) :=
  ⟨⟨diskRun, rfl⟩, virtio_descriptors ⟨diskRun, rfl⟩⟩

end Xv6.Virtio
