import Xv6.Mem.Vm

/-! The content of an inode (`kernel/fs.c`: `balloc`, `bmap`, `readi`,
`writei`) over the blocks of one device as the buffer cache shows them. A
block is `BSIZE` bytes; an inode lists `NDIRECT` block numbers and then the
number of an indirect block that holds `NINDIRECT` more, each a little-endian
`uint`. A block is free when its bit in the bitmap, `used` here, is clear.

The view the code keeps is `content`: byte `k` of the file is byte
`k % BSIZE` of the block `bmap` finds for `k / BSIZE`, or 0 where `bmap`
would allocate a zeroed one. Under `Wf` (the inode's blocks are in use,
distinct, and cover its size) `bmap` keeps `content`, `writei` is a
`Flat.write` of the source's bytes on it and `readi` a `Flat.read` of it.

Not modelled: the log (`log_write`), `iupdate`'s copy to the dinode, the
inode lock, the layout of the bitmap in its block, and the eviction of a
buffer from the cache. A block that a failed copy of `writei` changed keeps
the change here, as it does in the cache until the buffer is recycled. -/
namespace Xv6.Fs

open Vm

def BSIZE : Nat := 1024
def NDIRECT : Nat := 12

/-- `BSIZE / sizeof(uint)`. -/
def NINDIRECT : Nat := BSIZE / 4

def MAXFILE : Nat := NDIRECT + NINDIRECT

/-- The blocks of one device as the buffer cache shows them, and the bits of
its free-block bitmap. -/
structure Volume where
  /-- `sb.size`, the number of blocks. -/
  size : UInt32
  used : Nat → Bool
  data : Nat → Nat → UInt8

/-- The fields of `struct inode` that these functions read. -/
structure Inode where
  size : Nat
  addrs : Nat → Nat

/-! ## Block numbers in a block -/

/-- The bytes of a `uint`, low byte first as RISC-V stores it. -/
def wordBytes (w : Nat) : List UInt8 :=
  [w.toUInt8, (w / 2 ^ 8).toUInt8, (w / 2 ^ 16).toUInt8, (w / 2 ^ 24).toUInt8]

/-- The number of a list of bytes, low byte first. -/
def wordOf : List UInt8 → Nat
  | [] => 0
  | b :: bs => b.toNat + 2 ^ 8 * wordOf bs

/-- `((uint*)data)[i]`. -/
def getWord (data : Nat → UInt8) (i : Nat) : Nat := wordOf (Flat.read data (4 * i) 4)

/-- `((uint*)data)[i] = w`. -/
def setWord (data : Nat → UInt8) (i w : Nat) : Nat → UInt8 := Flat.write data (4 * i) (wordBytes w)

theorem getWord_setWord_self (data : Nat → UInt8) (i : Nat) {w : Nat} (small : w < 2 ^ 32) :
    getWord (setWord data i w) i = w := by
  have back : Flat.read (setWord data i w) (4 * i) 4 = wordBytes w := Flat.read_write data (4 * i) (wordBytes w)
  unfold getWord
  rw [back]
  simp only [wordBytes, wordOf, Nat.toUInt8_eq, UInt8.toNat_ofNat']
  omega

theorem getWord_setWord_of_ne (data : Nat → UInt8) {i j : Nat} (w : Nat) (other : i ≠ j) :
    getWord (setWord data i w) j = getWord data j := by
  unfold getWord setWord
  rw [Flat.read_write_outside data (4 * i) (wordBytes w) (by simp only [wordBytes, List.length_cons, List.length_nil]; omega)]

@[simp]
theorem getWord_zero (i : Nat) : getWord (fun _ => 0) i = 0 := rfl

/-! ## `balloc` and `bmap` -/

/-- `balloc`: the first block whose bit is clear, marked in use and zeroed (`bzero`). -/
def balloc (v : Volume) : Except String (Volume × Nat) :=
  match (List.range v.size.toNat).find? fun b => !v.used b with
  | some b => .ok ({ v with used := Function.update v.used b true, data := Function.update v.data b fun _ => 0 }, b)
  | none => .error "balloc: out of blocks"

theorem balloc_ok {v v' : Volume} {b : Nat} (got : balloc v = .ok (v', b)) :
    b < v.size.toNat ∧ v.used b = false ∧
      v' = { v with used := Function.update v.used b true, data := Function.update v.data b fun _ => 0 } := by
  unfold balloc at got
  split at got
  next found =>
    simp only [Except.ok.injEq, Prod.mk.injEq] at got
    obtain ⟨rfl, rfl⟩ := got
    exact ⟨List.mem_range.mp (List.mem_of_find?_eq_some found), by simpa using List.find?_some found, rfl⟩
  next => cases got

/-- `if((addr = ip->addrs[i]) == 0) ip->addrs[i] = addr = balloc(ip->dev);`,
which `bmap` does for a direct slot and for the indirect one. -/
def addrOrAlloc (v : Volume) (ip : Inode) (i : Nat) : Except String (Volume × Inode × Nat) :=
  if ip.addrs i = 0 then
    match balloc v with
    | .error e => .error e
    | .ok (v, addr) => .ok (v, { ip with addrs := Function.update ip.addrs i addr }, addr)
  else .ok (v, ip, ip.addrs i)

/-- `bmap(ip, bn)`: the device after it, the inode, and the block. -/
def bmap (v : Volume) (ip : Inode) (bn : Nat) : Except String (Volume × Inode × Nat) :=
  if bn < NDIRECT then addrOrAlloc v ip bn
  else if bn - NDIRECT < NINDIRECT then
    -- load the indirect block, allocating if necessary
    match addrOrAlloc v ip NDIRECT with
    | .error e => .error e
    | .ok (v, ip, ind) =>
      if getWord (v.data ind) (bn - NDIRECT) = 0 then
        match balloc v with
        | .error e => .error e
        | .ok (v, addr) => .ok ({ v with data := Function.update v.data ind (setWord (v.data ind) (bn - NDIRECT) addr) }, ip, addr)
      else .ok (v, ip, getWord (v.data ind) (bn - NDIRECT))
  else .error "bmap: out of range"

/-! ## The file's bytes -/

/-- The block that holds the inode's `bn`th block, as `bmap` finds it without
allocating, or 0 where there is none. -/
def blockOf (v : Volume) (ip : Inode) (bn : Nat) : Nat :=
  if bn < NDIRECT then ip.addrs bn
  else if bn - NDIRECT < NINDIRECT ∧ ip.addrs NDIRECT ≠ 0 then getWord (v.data (ip.addrs NDIRECT)) (bn - NDIRECT)
  else 0

/-- Byte `k` of the file: 0 where no block is allocated yet, as in the zeroed
block `bmap` would allocate. -/
def content (v : Volume) (ip : Inode) (k : Nat) : UInt8 :=
  if blockOf v ip (k / BSIZE) = 0 then 0 else v.data (blockOf v ip (k / BSIZE)) (k % BSIZE)

/-- A well-formed inode on its device: block 0 is never free, the inode's
blocks are in use, distinct, apart from its indirect block, and allocated
below its size, which is at most `MAXFILE` blocks. -/
structure Wf (v : Volume) (ip : Inode) : Prop where
  reserved : v.used 0 = true
  indirect_used : ip.addrs NDIRECT ≠ 0 → v.used (ip.addrs NDIRECT) = true
  block_used : ∀ bn, blockOf v ip bn ≠ 0 → v.used (blockOf v ip bn) = true
  block_ne_indirect : ∀ bn, blockOf v ip bn ≠ 0 → blockOf v ip bn ≠ ip.addrs NDIRECT
  block_inj : ∀ i j, blockOf v ip i ≠ 0 → blockOf v ip i = blockOf v ip j → i = j
  allocated : ∀ k < ip.size, blockOf v ip (k / BSIZE) ≠ 0
  size_le : ip.size ≤ MAXFILE * BSIZE

theorem blockOf_of_ge (v : Volume) (ip : Inode) {bn : Nat} (far : MAXFILE ≤ bn) : blockOf v ip bn = 0 := by
  unfold blockOf
  unfold MAXFILE NINDIRECT BSIZE at far
  rw [if_neg (by omega), if_neg (by unfold NINDIRECT BSIZE; omega)]

theorem lt_of_blockOf_ne_zero {v : Volume} {ip : Inode} {bn : Nat} (nonzero : blockOf v ip bn ≠ 0) : bn < MAXFILE :=
  Nat.lt_of_not_le fun far => nonzero (blockOf_of_ge v ip far)

theorem blockOf_congr {v v' : Volume} {ip : Inode}
    (same : ip.addrs NDIRECT ≠ 0 → v'.data (ip.addrs NDIRECT) = v.data (ip.addrs NDIRECT)) :
    blockOf v' ip = blockOf v ip := by
  funext bn
  by_cases none : ip.addrs NDIRECT = 0
  · simp [blockOf, none]
  · simp [blockOf, same none]

/-- A free block is none of the inode's. -/
theorem Wf.fresh {v : Volume} {ip : Inode} (wf : Wf v ip) {b : Nat} (free : v.used b = false) :
    b ≠ 0 ∧ b ≠ ip.addrs NDIRECT ∧ ∀ bn, blockOf v ip bn ≠ b := by
  have nonzero : b ≠ 0 := by
    rintro rfl
    rw [wf.reserved] at free
    cases free
  refine ⟨nonzero, ?_, ?_⟩
  · intro same
    have inUse := wf.indirect_used (same ▸ nonzero)
    rw [← same, free] at inUse
    cases inUse
  · intro bn same
    have inUse := wf.block_used bn (same ▸ nonzero)
    rw [same, free] at inUse
    cases inUse

theorem content_congr {v v' : Volume} {ip ip' : Inode} (blocks : blockOf v' ip' = blockOf v ip)
    (data : ∀ bn, blockOf v ip bn ≠ 0 → v'.data (blockOf v ip bn) = v.data (blockOf v ip bn)) :
    content v' ip' = content v ip := by
  funext k
  unfold content
  rw [blocks]
  by_cases none : blockOf v ip (k / BSIZE) = 0
  · rw [if_pos none, if_pos none]
  · rw [if_neg none, if_neg none, data _ none]

theorem Wf.of_same {v v' : Volume} {ip : Inode} (wf : Wf v ip) (used : v'.used = v.used)
    (blocks : blockOf v' ip = blockOf v ip) : Wf v' ip := by
  obtain ⟨reserved, indirect_used, block_used, block_ne_indirect, block_inj, allocated, size_le⟩ := wf
  rw [← used] at reserved indirect_used block_used
  rw [← blocks] at block_used block_ne_indirect block_inj allocated
  exact ⟨reserved, indirect_used, block_used, block_ne_indirect, block_inj, allocated, size_le⟩

theorem marked_of_used {used : Nat → Bool} {c : Nat} (b : Nat) (inUse : used c = true) :
    Function.update used b true c = true := by
  by_cases same : c = b
  · subst same
    exact Function.update_self c true used
  · rw [Function.update_of_ne same]
    exact inUse

/-! ## `bmap` keeps the file's bytes -/

/-- `v' ip'` is `v ip` with its `bn`th block, which it did not have, now the
free block `b`, marked in use and zeroed, and nothing else of the inode's
changed. -/
structure Grows (v : Volume) (ip : Inode) (v' : Volume) (ip' : Inode) (bn b : Nat) : Prop where
  empty : blockOf v ip bn = 0
  free : v.used b = false
  used : v'.used = Function.update v.used b true
  zeroed : v'.data b = fun _ => 0
  blocks : blockOf v' ip' = Function.update (blockOf v ip) bn b
  indirect : ip'.addrs NDIRECT = ip.addrs NDIRECT
  kept : ∀ c, c ≠ b → c ≠ ip.addrs NDIRECT → v'.data c = v.data c
  size : ip'.size = ip.size

section Grows

variable {v v' : Volume} {ip ip' : Inode} {bn b : Nat}

theorem Grows.wf (wf : Wf v ip) (g : Grows v ip v' ip' bn b) : Wf v' ip' := by
  obtain ⟨nonzero, notIndirect, unreferenced⟩ := wf.fresh g.free
  constructor
  · rw [g.used]
    exact marked_of_used b wf.reserved
  · intro present
    rw [g.indirect] at present ⊢
    rw [g.used]
    exact marked_of_used b (wf.indirect_used present)
  · intro j present
    rw [g.blocks] at present ⊢
    rw [g.used]
    by_cases at_bn : j = bn
    · subst at_bn
      rw [Function.update_self]
      exact Function.update_self b true v.used
    · rw [Function.update_of_ne at_bn] at present ⊢
      exact marked_of_used b (wf.block_used j present)
  · intro j present
    rw [g.blocks] at present ⊢
    rw [g.indirect]
    by_cases at_bn : j = bn
    · subst at_bn
      rw [Function.update_self]
      exact notIndirect
    · rw [Function.update_of_ne at_bn] at present ⊢
      exact wf.block_ne_indirect j present
  · intro i j present same
    rw [g.blocks] at present same
    by_cases i_bn : i = bn <;> by_cases j_bn : j = bn
    · rw [i_bn, j_bn]
    · subst i_bn
      rw [Function.update_self, Function.update_of_ne j_bn] at same
      exact absurd same.symm (unreferenced j)
    · subst j_bn
      rw [Function.update_self, Function.update_of_ne i_bn] at same
      exact absurd same (unreferenced i)
    · rw [Function.update_of_ne i_bn, Function.update_of_ne j_bn] at same
      rw [Function.update_of_ne i_bn] at present
      exact wf.block_inj i j present same
  · intro k below
    rw [g.size] at below
    rw [g.blocks]
    by_cases at_bn : k / BSIZE = bn
    · rw [at_bn, Function.update_self]
      exact nonzero
    · rw [Function.update_of_ne at_bn]
      exact wf.allocated k below
  · rw [g.size]
    exact wf.size_le

/-- The new block is zeroed where there was none, so the bytes stay. -/
theorem Grows.content (wf : Wf v ip) (g : Grows v ip v' ip' bn b) : content v' ip' = content v ip := by
  obtain ⟨nonzero, -, unreferenced⟩ := wf.fresh g.free
  funext k
  unfold Fs.content
  rw [g.blocks]
  by_cases at_bn : k / BSIZE = bn
  · rw [at_bn, Function.update_self, g.empty, if_neg nonzero, g.zeroed, if_pos rfl]
  · rw [Function.update_of_ne at_bn]
    by_cases none : blockOf v ip (k / BSIZE) = 0
    · rw [if_pos none, if_pos none]
    · rw [if_neg none, if_neg none, g.kept _ (unreferenced _) (wf.block_ne_indirect _ none)]

end Grows

/-- Allocating the indirect block, zeroed, adds no block to the inode. -/
theorem Wf.addIndirect {v : Volume} {ip : Inode} (wf : Wf v ip) (empty : ip.addrs NDIRECT = 0) {b : Nat}
    (free : v.used b = false) :
    let v' : Volume := { v with used := Function.update v.used b true, data := Function.update v.data b fun _ => 0 }
    let ip' : Inode := { ip with addrs := Function.update ip.addrs NDIRECT b }
    Wf v' ip' ∧ blockOf v' ip' = blockOf v ip ∧ content v' ip' = content v ip := by
  intro v' ip'
  obtain ⟨nonzero, -, unreferenced⟩ := wf.fresh free
  have blocks : blockOf v' ip' = blockOf v ip := by
    funext j
    by_cases direct : j < NDIRECT
    · simp [blockOf, direct, ip', Function.update_of_ne (Nat.ne_of_lt direct)]
    · simp [blockOf, direct, empty, v', ip']
  refine ⟨?_, blocks, content_congr blocks fun bn _ => Function.update_of_ne (unreferenced bn) _ _⟩
  constructor
  · exact marked_of_used b wf.reserved
  · intro _
    exact Function.update_self b true v.used
  · intro j present
    rw [blocks] at present ⊢
    exact marked_of_used b (wf.block_used j present)
  · intro j present
    rw [blocks] at present ⊢
    simp only [ip', Function.update_self]
    exact unreferenced j
  · intro i j present same
    rw [blocks] at present same
    exact wf.block_inj i j present same
  · intro k below
    rw [blocks]
    exact wf.allocated k below
  · exact wf.size_le

theorem blockOf_update_direct (v : Volume) (ip : Inode) {bn : Nat} (direct : bn < NDIRECT) (a : Nat) :
    blockOf v { ip with addrs := Function.update ip.addrs bn a } = Function.update (blockOf v ip) bn a := by
  funext j
  have other : NDIRECT ≠ bn := Nat.ne_of_gt direct
  by_cases at_bn : j = bn
  · subst at_bn
    simp [blockOf, direct]
  · simp [blockOf, Function.update_of_ne at_bn, Function.update_of_ne other]

/-- Setting entry `bn - NDIRECT` of the indirect block sets block `bn`. -/
theorem blockOf_setEntry (v : Volume) (ip : Inode) {bn : Nat} (indirect : NDIRECT ≤ bn)
    (entry : bn - NDIRECT < NINDIRECT) (present : ip.addrs NDIRECT ≠ 0) {a : Nat} (small : a < 2 ^ 32) :
    blockOf { v with data := Function.update v.data (ip.addrs NDIRECT) (setWord (v.data (ip.addrs NDIRECT)) (bn - NDIRECT) a) } ip =
      Function.update (blockOf v ip) bn a := by
  funext j
  by_cases at_bn : j = bn
  · subst at_bn
    simp [blockOf, Nat.not_lt.mpr indirect, entry, present, getWord_setWord_self _ _ small]
  · rw [Function.update_of_ne at_bn]
    unfold blockOf
    split_ifs with direct inRange
    · rfl
    · simp only [Function.update_self]
      rw [getWord_setWord_of_ne _ _ (by omega)]
    · rfl

/-- The indirect slot as `bmap` finds or allocates it: the blocks, bytes and
size stay, and the slot holds a block. -/
theorem addrOrAlloc_indirect {v v' : Volume} {ip ip' : Inode} {ind : Nat} (wf : Wf v ip)
    (got : addrOrAlloc v ip NDIRECT = .ok (v', ip', ind)) :
    Wf v' ip' ∧ blockOf v' ip' = blockOf v ip ∧ content v' ip' = content v ip ∧ ip'.size = ip.size ∧
      ip'.addrs NDIRECT = ind ∧ ind ≠ 0 := by
  unfold addrOrAlloc at got
  split_ifs at got with empty
  · split at got
    next => cases got
    next v1 addr allocated =>
      simp only [Except.ok.injEq, Prod.mk.injEq] at got
      obtain ⟨rfl, rfl, rfl⟩ := got
      obtain ⟨-, free, rfl⟩ := balloc_ok allocated
      obtain ⟨wf', blocks, same⟩ := wf.addIndirect empty free
      exact ⟨wf', blocks, same, rfl, Function.update_self NDIRECT addr ip.addrs, (wf.fresh free).1⟩
  · simp only [Except.ok.injEq, Prod.mk.injEq] at got
    obtain ⟨rfl, rfl, rfl⟩ := got
    exact ⟨wf, rfl, rfl, rfl, rfl, empty⟩

/-- What `bmap` leaves: the inode still well formed with the same bytes and
size, its `bn`th block `b`, and every block it had. -/
structure Bmapped (v : Volume) (ip : Inode) (v' : Volume) (ip' : Inode) (bn b : Nat) : Prop where
  wf : Wf v' ip'
  bytes : content v' ip' = content v ip
  size : ip'.size = ip.size
  ne_zero : b ≠ 0
  block : blockOf v' ip' bn = b
  kept : ∀ j, blockOf v ip j ≠ 0 → blockOf v' ip' j = blockOf v ip j

theorem Bmapped.found {v : Volume} {ip : Inode} {bn : Nat} (wf : Wf v ip) (present : blockOf v ip bn ≠ 0) :
    Bmapped v ip v ip bn (blockOf v ip bn) :=
  ⟨wf, rfl, rfl, present, rfl, fun _ _ => rfl⟩

theorem Grows.bmapped {v v' : Volume} {ip ip' : Inode} {bn b : Nat} (wf : Wf v ip) (g : Grows v ip v' ip' bn b) :
    Bmapped v ip v' ip' bn b where
  wf := g.wf wf
  bytes := g.content wf
  size := g.size
  ne_zero := (wf.fresh g.free).1
  block := by rw [g.blocks, Function.update_self]
  kept j present := by
    have other : j ≠ bn := fun same => present (same ▸ g.empty)
    rw [g.blocks, Function.update_of_ne other]

/-- A step that keeps the blocks, bytes and size comes before `bmap`'s work for free. -/
theorem Bmapped.of_same {v v₁ v' : Volume} {ip ip₁ ip' : Inode} {bn b : Nat} (blocks : blockOf v₁ ip₁ = blockOf v ip)
    (same : content v₁ ip₁ = content v ip) (size : ip₁.size = ip.size) (m : Bmapped v₁ ip₁ v' ip' bn b) :
    Bmapped v ip v' ip' bn b where
  wf := m.wf
  bytes := m.bytes.trans same
  size := m.size.trans size
  ne_zero := m.ne_zero
  block := m.block
  kept j present := by
    rw [← blocks] at present ⊢
    exact m.kept j present

/-- `bmap` keeps the inode well formed and its bytes: it only finds a block or
puts a zeroed free one where there was none. -/
theorem bmap_spec {v v' : Volume} {ip ip' : Inode} {bn b : Nat} (wf : Wf v ip)
    (got : bmap v ip bn = .ok (v', ip', b)) : Bmapped v ip v' ip' bn b := by
  unfold bmap at got
  split_ifs at got with direct entry
  · unfold addrOrAlloc at got
    split_ifs at got with empty
    · split at got
      next => cases got
      next v₁ addr allocated =>
        simp only [Except.ok.injEq, Prod.mk.injEq] at got
        obtain ⟨rfl, rfl, rfl⟩ := got
        obtain ⟨-, free, rfl⟩ := balloc_ok allocated
        obtain ⟨-, notIndirect, -⟩ := wf.fresh free
        have indirect : Function.update ip.addrs bn addr NDIRECT = ip.addrs NDIRECT :=
          Function.update_of_ne (Nat.ne_of_gt direct) addr ip.addrs
        have unchanged : (Function.update v.data addr fun _ => 0) (ip.addrs NDIRECT) = v.data (ip.addrs NDIRECT) :=
          Function.update_of_ne notIndirect.symm _ _
        apply Grows.bmapped wf
        refine ⟨by simp [blockOf, direct, empty], free, rfl, Function.update_self addr _ v.data, ?_, indirect,
          fun c other _ => Function.update_of_ne other _ _, rfl⟩
        rw [blockOf_congr fun _ => by simpa only [indirect] using unchanged, blockOf_update_direct v ip direct]
    · simp only [Except.ok.injEq, Prod.mk.injEq] at got
      obtain ⟨rfl, rfl, rfl⟩ := got
      have present : blockOf v ip bn ≠ 0 := by simpa [blockOf, direct] using empty
      simpa [blockOf, direct] using Bmapped.found wf present
  · split at got
    next => cases got
    next v₁ ip₁ ind slot =>
      obtain ⟨wf₁, blocks, same, size, rfl, present⟩ := addrOrAlloc_indirect wf slot
      have listed : blockOf v₁ ip₁ bn = getWord (v₁.data (ip₁.addrs NDIRECT)) (bn - NDIRECT) := by
        simp [blockOf, direct, entry, present]
      apply Bmapped.of_same blocks same size
      split_ifs at got with empty
      · split at got
        next => cases got
        next v₂ addr allocated =>
          simp only [Except.ok.injEq, Prod.mk.injEq] at got
          obtain ⟨rfl, rfl, rfl⟩ := got
          obtain ⟨below, free, rfl⟩ := balloc_ok allocated
          obtain ⟨-, notIndirect, -⟩ := wf₁.fresh free
          have small : addr < 2 ^ 32 := Nat.lt_trans below (UInt32.toNat_lt _)
          have unchanged : ip₁.addrs NDIRECT ≠ 0 →
              (Function.update v₁.data addr fun _ => 0) (ip₁.addrs NDIRECT) = v₁.data (ip₁.addrs NDIRECT) :=
            fun _ => Function.update_of_ne notIndirect.symm _ _
          apply Grows.bmapped wf₁
          refine ⟨listed.trans empty, free, rfl, ?_, ?_, rfl, fun c other otherInd => ?_, rfl⟩
          · simp [Function.update_of_ne notIndirect]
          · rw [blockOf_setEntry _ ip₁ (Nat.le_of_not_lt direct) entry present small]
            rw [blockOf_congr unchanged]
          · simp [Function.update_of_ne otherInd, Function.update_of_ne other]
      · simp only [Except.ok.injEq, Prod.mk.injEq] at got
        obtain ⟨rfl, rfl, rfl⟩ := got
        rw [← listed] at empty ⊢
        exact Bmapped.found wf₁ empty

/-- Where the inode has the block, `bmap` finds it and changes nothing. -/
theorem bmap_of_blockOf {v : Volume} {ip : Inode} {bn : Nat} (present : blockOf v ip bn ≠ 0) :
    bmap v ip bn = .ok (v, ip, blockOf v ip bn) := by
  have inside := lt_of_blockOf_ne_zero present
  unfold bmap
  by_cases direct : bn < NDIRECT
  · have slot : ip.addrs bn ≠ 0 := by simpa [blockOf, direct] using present
    simp [direct, addrOrAlloc, slot, blockOf]
  · have entry : bn - NDIRECT < NINDIRECT := by
      unfold MAXFILE at inside
      omega
    have indirect : ip.addrs NDIRECT ≠ 0 := fun none => present (by simp [blockOf, direct, none])
    have listed : getWord (v.data (ip.addrs NDIRECT)) (bn - NDIRECT) ≠ 0 := by
      simpa [blockOf, direct, entry, indirect] using present
    simp [direct, entry, addrOrAlloc, indirect, listed, blockOf]

/-! ## Copying into and out of a block -/

/-- The device with block `b`'s bytes replaced, as a copy into its buffer leaves it. -/
def Volume.setBlock (v : Volume) (b : Nat) (bytes : Nat → UInt8) : Volume :=
  { v with data := Function.update v.data b bytes }

theorem block_chunk_pos (off : Nat) {tot n : Nat} (pending : tot < n) : 0 < min (n - tot) (BSIZE - off % BSIZE) := by
  have : off % BSIZE < BSIZE := Nat.mod_lt off (by decide)
  omega

/-- A copy into the inode's `bn`th block, within the block, writes the file's
bytes from `bn * BSIZE + o` on and keeps its blocks. -/
theorem Wf.store {v : Volume} {ip : Inode} (wf : Wf v ip) {bn o : Nat} {bytes : List UInt8}
    (present : blockOf v ip bn ≠ 0) (within : o + bytes.length ≤ BSIZE) :
    let v' := v.setBlock (blockOf v ip bn) (Flat.write (v.data (blockOf v ip bn)) o bytes)
    Wf v' ip ∧ blockOf v' ip = blockOf v ip ∧ content v' ip = Flat.write (content v ip) (bn * BSIZE + o) bytes := by
  intro v'
  have notIndirect : ip.addrs NDIRECT ≠ blockOf v ip bn := (wf.block_ne_indirect bn present).symm
  have blocks : blockOf v' ip = blockOf v ip := blockOf_congr fun _ => Function.update_of_ne notIndirect _ _
  refine ⟨wf.of_same rfl blocks, blocks, ?_⟩
  funext k
  by_cases at_bn : k / BSIZE = bn
  · have here : content v' ip k = Flat.write (v.data (blockOf v ip bn)) o bytes (k % BSIZE) := by
      unfold content
      rw [blocks, at_bn, if_neg present]
      simp [v', Volume.setBlock]
    have before : content v ip k = v.data (blockOf v ip bn) (k % BSIZE) := by simp [content, at_bn, present]
    have split : k = bn * BSIZE + k % BSIZE := by
      rw [← at_bn]
      exact (Nat.div_add_mod' k BSIZE).symm
    rw [here]
    unfold Flat.write
    rw [before]
    by_cases after : o ≤ k % BSIZE
    · rw [if_pos after, if_pos (by omega), show k - (bn * BSIZE + o) = k % BSIZE - o by omega]
    · rw [if_neg after, if_neg (by omega)]
  · have other : blockOf v ip (k / BSIZE) ≠ blockOf v ip bn := fun same =>
      at_bn (wf.block_inj _ _ (by rw [same]; exact present) same)
    have outside : k < bn * BSIZE + o ∨ bn * BSIZE + o + bytes.length ≤ k := by
      unfold BSIZE at *
      omega
    rw [Flat.write_outside _ _ _ outside]
    unfold content
    rw [blocks]
    by_cases none : blockOf v ip (k / BSIZE) = 0
    · rw [if_pos none, if_pos none]
    · rw [if_neg none, if_neg none]
      simp [v', Volume.setBlock, Function.update_of_ne other]

/-- Within one block, the block's bytes are the file's. -/
theorem read_block {v : Volume} {ip : Inode} {off m : Nat} (present : blockOf v ip (off / BSIZE) ≠ 0)
    (within : off % BSIZE + m ≤ BSIZE) :
    Flat.read (v.data (blockOf v ip (off / BSIZE))) (off % BSIZE) m = Flat.read (content v ip) off m := by
  apply List.ext_getElem (by simp)
  intro k inside _
  simp only [Flat.getElem_read]
  rw [Flat.length_read] at inside
  have block : (off + k) / BSIZE = off / BSIZE := by
    unfold BSIZE at *
    omega
  have offset : (off + k) % BSIZE = off % BSIZE + k := by
    unfold BSIZE at *
    omega
  simp [content, block, offset, present]

/-! ## `either_copyout` and `either_copyin` -/

/-- `either_copyout(user_dst, dst, src, len)`: to user memory through the page
table, or to a kernel address with `memmove`. -/
def eitherCopyout (pt : PageTable) (mem : Nat → UInt8) (userDst : Bool) (dst : Nat) (src : List UInt8) :
    (Nat → UInt8) × Int :=
  if userDst then copyout pt mem dst src else (Flat.write mem dst src, 0)

/-- `either_copyin(dst, user_src, src, len)`, with `dst` an offset into the
kernel buffer `buf`. -/
def eitherCopyin (pt : PageTable) (mem buf : Nat → UInt8) (dst : Nat) (userSrc : Bool) (src len : Nat) :
    (Nat → UInt8) × Int :=
  if userSrc then copyin pt mem buf dst src len else (Flat.write buf dst (Flat.read mem src len), 0)

/-- Every page of the `len` bytes from a user address is one `walkaddr`
accepts; a kernel address always is. -/
def Accepts (pt : PageTable) (user : Bool) (va len : Nat) : Prop :=
  user = true → ∀ k < len, walkaddr pt (PGROUNDDOWN (va + k)) ≠ 0

instance (pt : PageTable) (user : Bool) (va len : Nat) : Decidable (Accepts pt user va len) :=
  inferInstanceAs (Decidable (user = true → ∀ k < len, _))

/-- Where a copy to `dst` puts `bytes`: byte by byte through the page table, or as one write. -/
def eitherStore (pt : PageTable) (mem : Nat → UInt8) (user : Bool) (dst : Nat) (bytes : List UInt8) : Nat → UInt8 :=
  if user then storeVirt pt mem dst bytes else Flat.write mem dst bytes

/-- The `len` bytes a copy from `src` reads. -/
def eitherLoad (pt : PageTable) (mem : Nat → UInt8) (user : Bool) (src len : Nat) : List UInt8 :=
  if user then loadVirt pt mem src len else Flat.read mem src len

theorem accepts_add (pt : PageTable) (user : Bool) (va m n : Nat) :
    Accepts pt user va (m + n) ↔ Accepts pt user va m ∧ Accepts pt user (va + m) n := by
  unfold Accepts
  constructor
  · intro whole
    refine ⟨fun isUser k inside => whole isUser k (by omega), fun isUser k inside => ?_⟩
    rw [Nat.add_assoc]
    exact whole isUser (m + k) (by omega)
  · rintro ⟨first, rest⟩ isUser k inside
    by_cases early : k < m
    · exact first isUser k early
    · have later := rest isUser (k - m) (by omega)
      rwa [show va + m + (k - m) = va + k by omega] at later

@[simp]
theorem eitherLoad_length (pt : PageTable) (mem : Nat → UInt8) (user : Bool) (src len : Nat) :
    (eitherLoad pt mem user src len).length = len := by
  cases user <;> simp [eitherLoad]

theorem eitherLoad_add (pt : PageTable) (mem : Nat → UInt8) (user : Bool) (src m n : Nat) :
    eitherLoad pt mem user src (m + n) = eitherLoad pt mem user src m ++ eitherLoad pt mem user (src + m) n := by
  cases user
  · exact Flat.read_add mem src m n
  · exact loadVirt_add pt mem src m n

@[simp]
theorem eitherLoad_zero (pt : PageTable) (mem : Nat → UInt8) (user : Bool) (src : Nat) :
    eitherLoad pt mem user src 0 = [] := by
  cases user <;> simp [eitherLoad, loadVirt]

@[simp]
theorem eitherStore_nil (pt : PageTable) (mem : Nat → UInt8) (user : Bool) (dst : Nat) :
    eitherStore pt mem user dst [] = mem := by
  cases user <;> simp [eitherStore, storeVirt]

theorem eitherStore_append (pt : PageTable) (mem : Nat → UInt8) (user : Bool) (dst : Nat) (bytes more : List UInt8) :
    eitherStore pt (eitherStore pt mem user dst bytes) user (dst + bytes.length) more =
      eitherStore pt mem user dst (bytes ++ more) := by
  cases user
  · exact Flat.write_append mem dst bytes more
  · exact (storeVirt_append pt mem dst bytes more).symm

theorem eitherCopyout_spec (pt : PageTable) (mem : Nat → UInt8) (user : Bool) (dst : Nat) (src : List UInt8) :
    ((eitherCopyout pt mem user dst src).2 = 0 ↔ Accepts pt user dst src.length) ∧
      ((eitherCopyout pt mem user dst src).2 = 0 → (eitherCopyout pt mem user dst src).1 = eitherStore pt mem user dst src) ∧
      ((eitherCopyout pt mem user dst src).2 = 0 ∨ (eitherCopyout pt mem user dst src).2 = -1) := by
  cases user
  · simp [eitherCopyout, Accepts, eitherStore]
  · obtain ⟨succeeds, stores⟩ := copyout_spec pt mem dst src
    simp only [eitherCopyout, Accepts, eitherStore, if_true, forall_const]
    exact ⟨succeeds, stores, copyout_result pt mem dst src⟩

/-- `either_copyin` succeeds exactly when the source accepts the range, and
then copies all of it; when it fails it has copied a part. -/
theorem eitherCopyin_spec (pt : PageTable) (mem buf : Nat → UInt8) (dst : Nat) (user : Bool) (src len : Nat) :
    ((eitherCopyin pt mem buf dst user src len).2 = 0 ↔ Accepts pt user src len) ∧
      (((eitherCopyin pt mem buf dst user src len).2 = 0 ∧
          (eitherCopyin pt mem buf dst user src len).1 = Flat.write buf dst (eitherLoad pt mem user src len)) ∨
        ((eitherCopyin pt mem buf dst user src len).2 = -1 ∧
          ∃ c < len, (eitherCopyin pt mem buf dst user src len).1 = Flat.write buf dst (eitherLoad pt mem user src c))) := by
  cases user
  · simp [eitherCopyin, Accepts, eitherLoad]
  · obtain ⟨succeeds, loads⟩ := copyin_spec pt mem buf dst src len
    simp only [eitherCopyin, Accepts, eitherLoad, if_true, forall_const]
    refine ⟨succeeds, ?_⟩
    rcases copyin_partial pt mem buf dst src len with done | failed
    · exact Or.inl ⟨done, loads done⟩
    · exact Or.inr failed

/-! ## `readi` and `writei` -/

/-- The loop of `readi` from `off` on, with `tot` of `n` bytes done: one block
a turn, as much of it as is left of the block and of the range. -/
def readiLoop (pt : PageTable) (userDst : Bool) (v : Volume) (ip : Inode) (mem : Nat → UInt8) (dst off n tot : Nat) :
    Except String (Volume × Inode × (Nat → UInt8) × Int) :=
  if pending : tot < n then
    match bmap v ip (off / BSIZE) with
    | .error e => .error e
    | .ok (v, ip, b) =>
      let m := min (n - tot) (BSIZE - off % BSIZE)
      have := block_chunk_pos off pending
      let copied := eitherCopyout pt mem userDst dst (Flat.read (v.data b) (off % BSIZE) m)
      if copied.2 = -1 then .ok (v, ip, copied.1, -1)
      else readiLoop pt userDst v ip copied.1 (dst + m) (off + m) n (tot + m)
  else .ok (v, ip, mem, (tot : Int))
termination_by n - tot

/-- `readi(ip, user_dst, dst, off, n)`: the device and inode after it, memory,
and the result. -/
def readi (pt : PageTable) (userDst : Bool) (v : Volume) (ip : Inode) (mem : Nat → UInt8) (dst : Nat) (off n : UInt32) :
    Except String (Volume × Inode × (Nat → UInt8) × Int) :=
  if ip.size < off.toNat ∨ off + n < off then .ok (v, ip, mem, 0)
  else
    let n := if ip.size < (off + n).toNat then ip.size - off.toNat else n.toNat
    readiLoop pt userDst v ip mem dst off.toNat n 0

/-- The loop of `writei` from `off` on, with `tot` of `n` bytes done: the
device and inode after it, `off` and `tot`. A failed copy breaks out, and the
bytes it did copy stay in the block's buffer. -/
def writeiLoop (pt : PageTable) (userSrc : Bool) (v : Volume) (ip : Inode) (mem : Nat → UInt8) (src off n tot : Nat) :
    Except String (Volume × Inode × Nat × Nat) :=
  if pending : tot < n then
    match bmap v ip (off / BSIZE) with
    | .error e => .error e
    | .ok (v, ip, b) =>
      let m := min (n - tot) (BSIZE - off % BSIZE)
      have := block_chunk_pos off pending
      let copied := eitherCopyin pt mem (v.data b) (off % BSIZE) userSrc src m
      if copied.2 = -1 then .ok (v.setBlock b copied.1, ip, off, tot)
      else writeiLoop pt userSrc (v.setBlock b copied.1) ip mem (src + m) (off + m) n (tot + m)
  else .ok (v, ip, off, tot)
termination_by n - tot

/-- `writei(ip, user_src, src, off, n)`: the device and inode after it, and the result. -/
def writei (pt : PageTable) (userSrc : Bool) (v : Volume) (ip : Inode) (mem : Nat → UInt8) (src : Nat) (off n : UInt32) :
    Except String (Volume × Inode × Int) :=
  if ip.size < off.toNat ∨ off + n < off then .ok (v, ip, -1)
  else if MAXFILE * BSIZE < (off + n).toNat then .ok (v, ip, -1)
  else
    match writeiLoop pt userSrc v ip mem src off.toNat n.toNat 0 with
    | .error e => .error e
    | .ok (v, ip, off, tot) => .ok (v, if ip.size < off then { ip with size := off } else ip, (tot : Int))

theorem toNat_add_of_not_lt {a b : UInt32} (noWrap : ¬ a + b < a) : (a + b).toNat = a.toNat + b.toNat := by
  rw [UInt32.lt_iff_toNat_lt, UInt32.toNat_add] at noWrap
  rw [UInt32.toNat_add]
  have := b.toNat_lt
  omega

/-! ## The size -/

/-- Only `writei` sets the size; `bmap` and `readi` keep it whatever the inode. -/
theorem addrOrAlloc_size {v v' : Volume} {ip ip' : Inode} {i b : Nat} (got : addrOrAlloc v ip i = .ok (v', ip', b)) :
    ip'.size = ip.size := by
  unfold addrOrAlloc at got
  split_ifs at got
  · split at got
    next => cases got
    next =>
      simp only [Except.ok.injEq, Prod.mk.injEq] at got
      rw [← got.2.1]
  · simp only [Except.ok.injEq, Prod.mk.injEq] at got
    rw [← got.2.1]

theorem bmap_size {v v' : Volume} {ip ip' : Inode} {bn b : Nat} (got : bmap v ip bn = .ok (v', ip', b)) :
    ip'.size = ip.size := by
  unfold bmap at got
  split_ifs at got
  · exact addrOrAlloc_size got
  · split at got
    next => cases got
    next slot =>
      have kept := addrOrAlloc_size slot
      split_ifs at got
      · split at got
        next => cases got
        next =>
          simp only [Except.ok.injEq, Prod.mk.injEq] at got
          rw [← got.2.1, kept]
      · simp only [Except.ok.injEq, Prod.mk.injEq] at got
        rw [← got.2.1, kept]

theorem readiLoop_size (pt : PageTable) (userDst : Bool) {v v' : Volume} {ip ip' : Inode} {mem mem' : Nat → UInt8}
    {dst off n tot : Nat} {r : Int} (got : readiLoop pt userDst v ip mem dst off n tot = .ok (v', ip', mem', r)) :
    ip'.size = ip.size := by
  fun_induction readiLoop pt userDst v ip mem dst off n tot with
  | case1 => cases got
  | case2 _ _ _ _ _ _ _ _ _ _ found =>
    simp only [Except.ok.injEq, Prod.mk.injEq] at got
    rw [← got.2.1, bmap_size found]
  | case3 _ _ _ _ _ _ _ _ _ _ found _ _ _ _ ih => rw [ih got, bmap_size found]
  | case4 =>
    simp only [Except.ok.injEq, Prod.mk.injEq] at got
    rw [← got.2.1]

theorem readi_size (pt : PageTable) (userDst : Bool) {v v' : Volume} {ip ip' : Inode} {mem mem' : Nat → UInt8}
    {dst : Nat} {off n : UInt32} {r : Int} (got : readi pt userDst v ip mem dst off n = .ok (v', ip', mem', r)) :
    ip'.size = ip.size := by
  unfold readi at got
  by_cases refused : ip.size < off.toNat ∨ off + n < off
  · simp only [if_pos refused, Except.ok.injEq, Prod.mk.injEq] at got
    rw [← got.2.1]
  · rw [if_neg refused] at got
    exact readiLoop_size pt userDst got

/-! ## `readi` reads the file's bytes -/

theorem readi_turn {v v' : Volume} {ip ip' : Inode} {off tot n b : Nat} (wf : Wf v ip) (pending : tot < n)
    (inside : off + (n - tot) ≤ ip.size) (found : bmap v ip (off / BSIZE) = .ok (v', ip', b)) :
    v = v' ∧ ip = ip' ∧ Flat.read (v'.data b) (off % BSIZE) (min (n - tot) (BSIZE - off % BSIZE)) =
      Flat.read (content v ip) off (min (n - tot) (BSIZE - off % BSIZE)) := by
  have present := wf.allocated off (by omega)
  rw [bmap_of_blockOf present, Except.ok.injEq, Prod.mk.injEq, Prod.mk.injEq] at found
  obtain ⟨rfl, rfl, rfl⟩ := found
  have within : off % BSIZE < BSIZE := Nat.mod_lt off (by decide)
  exact ⟨rfl, rfl, read_block present (by omega)⟩

theorem accepts_zero (pt : PageTable) (user : Bool) (va : Nat) : Accepts pt user va 0 :=
  fun _ k inside => absurd inside (Nat.not_lt_zero k)

/-- Inside the file, `readi`'s loop copies the file's bytes to a destination
that accepts them all and returns `n`; it returns -1 if the destination
refuses a page. -/
theorem readiLoop_spec (pt : PageTable) (userDst : Bool) {v : Volume} {ip : Inode} (wf : Wf v ip) (mem : Nat → UInt8)
    (dst off n tot : Nat) (started : tot ≤ n) (inside : off + (n - tot) ≤ ip.size) :
    ∃ mem' r, readiLoop pt userDst v ip mem dst off n tot = .ok (v, ip, mem', r) ∧
      (Accepts pt userDst dst (n - tot) →
        r = n ∧ mem' = eitherStore pt mem userDst dst (Flat.read (content v ip) off (n - tot))) ∧
      (¬ Accepts pt userDst dst (n - tot) → r = -1) := by
  fun_induction readiLoop pt userDst v ip mem dst off n tot with
  | case1 v ip mem dst off tot pending e found =>
    rw [bmap_of_blockOf (wf.allocated off (by omega))] at found
    cases found
  | case2 v ip mem dst off tot pending v₁ ip₁ b found m _ copied failed =>
    obtain ⟨rfl, rfl, -⟩ := readi_turn wf pending inside found
    have spec := eitherCopyout_spec pt mem userDst dst (Flat.read (v.data b) (off % BSIZE) m)
    refine ⟨_, _, rfl, fun accepted => ?_, fun _ => rfl⟩
    have split : n - tot = m + (n - tot - m) := by omega
    rw [split, accepts_add] at accepted
    have ok := spec.1.mpr (by rw [Flat.length_read]; exact accepted.1)
    rw [show (eitherCopyout pt mem userDst dst (Flat.read (v.data b) (off % BSIZE) m)).2 = -1 from failed] at ok
    cases ok
  | case3 v ip mem dst off tot pending v₁ ip₁ b found m _ copied copiedOk ih =>
    obtain ⟨rfl, rfl, chunk⟩ := readi_turn wf pending inside found
    have spec := eitherCopyout_spec pt mem userDst dst (Flat.read (v.data b) (off % BSIZE) m)
    have ok := spec.2.2.resolve_right copiedOk
    have part : Accepts pt userDst dst m := by simpa using spec.1.mp ok
    have stored : copied.1 = eitherStore pt mem userDst dst (Flat.read (content v ip) off m) := by
      rw [spec.2.1 ok, chunk]
    have split : n - tot = m + (n - (tot + m)) := by omega
    obtain ⟨mem', r, run, whenAccepted, whenRefused⟩ := ih wf (by omega) (by omega)
    refine ⟨mem', r, run, fun accepted => ?_, fun refused => whenRefused fun rest => refused ?_⟩
    · rw [split, accepts_add] at accepted
      obtain ⟨done, rest⟩ := whenAccepted accepted.2
      refine ⟨done, ?_⟩
      have joined := eitherStore_append pt mem userDst dst (Flat.read (content v ip) off m)
        (Flat.read (content v ip) (off + m) (n - (tot + m)))
      rw [Flat.length_read] at joined
      rw [rest, stored, joined, ← Flat.read_add, ← split]
    · rw [split, accepts_add]
      exact ⟨part, rest⟩
  | case4 v ip mem dst off tot done =>
    have finished : tot = n := by omega
    subst finished
    refine ⟨_, _, rfl, fun _ => ⟨rfl, by simp⟩, fun refused => absurd ?_ refused⟩
    rw [Nat.sub_self]
    exact accepts_zero pt userDst dst

/-- The inode reads as the bytes `bytes` up to its size: every `readi` keeps
the device and the inode, returns 0 at an offset past the end or for a range
that wraps, and otherwise copies the `min n (size - off)` bytes from `off` on
to a destination that accepts them and returns their count, or returns -1. -/
def ReadsAs (pt : PageTable) (v : Volume) (ip : Inode) (bytes : Nat → UInt8) : Prop :=
  ∀ userDst mem dst (off n : UInt32), ∃ mem' r, readi pt userDst v ip mem dst off n = .ok (v, ip, mem', r) ∧
    (ip.size < off.toNat ∨ off + n < off → r = 0 ∧ mem' = mem) ∧
    (off.toNat ≤ ip.size → ¬ off + n < off →
      (Accepts pt userDst dst (min n.toNat (ip.size - off.toNat)) → r = (min n.toNat (ip.size - off.toNat) : Nat) ∧
        mem' = eitherStore pt mem userDst dst (Flat.read bytes off.toNat (min n.toNat (ip.size - off.toNat)))) ∧
      (¬ Accepts pt userDst dst (min n.toNat (ip.size - off.toNat)) → r = -1))

/-- A well-formed inode reads as its bytes. -/
theorem readi_spec (pt : PageTable) {v : Volume} {ip : Inode} (wf : Wf v ip) : ReadsAs pt v ip (content v ip) := by
  intro userDst mem dst off n
  unfold readi
  by_cases refused : ip.size < off.toNat ∨ off + n < off
  · rw [if_pos refused]
    refine ⟨mem, 0, rfl, fun _ => ⟨rfl, rfl⟩, fun within noWrap => ?_⟩
    rcases refused with past | wraps
    · exact absurd past (Nat.not_lt_of_le within)
    · exact absurd wraps noWrap
  · rw [if_neg refused]
    obtain ⟨within, noWrap⟩ := not_or.mp refused
    have sum := toNat_add_of_not_lt noWrap
    have clamp : (if ip.size < (off + n).toNat then ip.size - off.toNat else n.toNat) =
        min n.toNat (ip.size - off.toNat) := by
      rw [sum]
      split <;> omega
    obtain ⟨mem', r, run, whenAccepted, whenRefused⟩ :=
      readiLoop_spec pt userDst wf mem dst off.toNat (min n.toNat (ip.size - off.toNat)) 0 (Nat.zero_le _) (by omega)
    rw [Nat.sub_zero] at whenAccepted whenRefused
    refine ⟨mem', r, ?_, fun refused' => absurd refused' refused, fun _ _ => ⟨whenAccepted, whenRefused⟩⟩
    simp only [clamp]
    exact run

/-! ## `writei` writes the file's bytes -/

/-- One turn of `writei`'s loop: `bmap` gives the block, and bytes copied into
its buffer from `off % BSIZE` on land on the file's bytes from `off` on. -/
theorem writei_turn {v v₁ : Volume} {ip ip₁ : Inode} {off b : Nat} (wf : Wf v ip)
    (found : bmap v ip (off / BSIZE) = .ok (v₁, ip₁, b)) (bytes : List UInt8) (fits : off % BSIZE + bytes.length ≤ BSIZE) :
    let v₂ := v₁.setBlock b (Flat.write (v₁.data b) (off % BSIZE) bytes)
    Wf v₂ ip₁ ∧ ip₁.size = ip.size ∧ content v₂ ip₁ = Flat.write (content v ip) off bytes ∧
      (∀ j, blockOf v ip j ≠ 0 → blockOf v₂ ip₁ j = blockOf v ip j) ∧ blockOf v₂ ip₁ (off / BSIZE) ≠ 0 := by
  intro v₂
  have mapped := bmap_spec wf found
  have present : blockOf v₁ ip₁ (off / BSIZE) ≠ 0 := by rw [mapped.block]; exact mapped.ne_zero
  obtain ⟨wf₂, blocks, stored⟩ := mapped.wf.store present fits
  simp only [mapped.block] at wf₂ blocks stored
  rw [mapped.bytes, Nat.div_add_mod'] at stored
  refine ⟨wf₂, mapped.size, stored, fun j had => ?_, ?_⟩
  · rw [blocks]
    exact mapped.kept j had
  · rw [blocks]
    exact present

/-- What copying into an inode from `off` on leaves, with `done` bytes counted
and `w` bytes in all put into its blocks: the inode well formed with its size
and every block it had, blocks under the counted bytes, and the source's first
`w` bytes over the file's bytes from `off` on. -/
structure Wrote (pt : PageTable) (mem : Nat → UInt8) (userSrc : Bool) (src : Nat) (v : Volume) (ip : Inode)
    (v' : Volume) (ip' : Inode) (off done w : Nat) : Prop where
  wf : Wf v' ip'
  size : ip'.size = ip.size
  done_le : done ≤ w
  kept : ∀ j, blockOf v ip j ≠ 0 → blockOf v' ip' j = blockOf v ip j
  allocated : ∀ k, off ≤ k → k < off + done → blockOf v' ip' (k / BSIZE) ≠ 0
  bytes : content v' ip' = Flat.write (content v ip) off (eitherLoad pt mem userSrc src w)

/-- `writei`'s loop counts the bytes of each turn whose copy succeeds and stops
at the first that fails; it has put into the blocks what it counted and, from
the failed turn, the pages that were copied before the refused one. -/
theorem writeiLoop_spec (pt : PageTable) (userSrc : Bool) {v v' : Volume} {ip ip' : Inode} (wf : Wf v ip)
    (mem : Nat → UInt8) (src off n tot : Nat) {off' tot' : Nat} (started : tot ≤ n)
    (got : writeiLoop pt userSrc v ip mem src off n tot = .ok (v', ip', off', tot')) :
    tot ≤ tot' ∧ tot' ≤ n ∧ off' = off + (tot' - tot) ∧ (Accepts pt userSrc src (n - tot) → tot' = n) ∧
      ∃ w ≤ n - tot, (tot' = n → w = n - tot) ∧ Wrote pt mem userSrc src v ip v' ip' off (tot' - tot) w := by
  fun_induction writeiLoop pt userSrc v ip mem src off n tot with
  | case1 v ip src off tot pending e found => cases got
  | case2 v ip src off tot pending v₁ ip₁ b found m _ copied failed =>
    simp only [Except.ok.injEq, Prod.mk.injEq] at got
    obtain ⟨rfl, rfl, rfl, rfl⟩ := got
    have spec := eitherCopyin_spec pt mem (v₁.data b) (off % BSIZE) userSrc src m
    have within : off % BSIZE + m ≤ BSIZE := by
      have := Nat.mod_lt off (show 0 < BSIZE by decide)
      omega
    obtain ⟨c, short, someCopied⟩ : ∃ c < m, copied.1 = Flat.write (v₁.data b) (off % BSIZE) (eitherLoad pt mem userSrc src c) := by
      rcases spec.2 with ⟨ok, -⟩ | ⟨-, someCopied⟩
      · rw [show (eitherCopyin pt mem (v₁.data b) (off % BSIZE) userSrc src m).2 = -1 from failed] at ok
        cases ok
      · exact someCopied
    obtain ⟨wf₂, size, bytes, kept, -⟩ := writei_turn wf found (eitherLoad pt mem userSrc src c)
      (by rw [eitherLoad_length]; omega)
    refine ⟨le_rfl, started, by omega, fun accepted => ?_, c, by omega, fun finished => by omega, ?_⟩
    · rw [show n - tot = m + (n - tot - m) by omega, accepts_add] at accepted
      have ok := spec.1.mpr accepted.1
      rw [show (eitherCopyin pt mem (v₁.data b) (off % BSIZE) userSrc src m).2 = -1 from failed] at ok
      cases ok
    · rw [someCopied]
      exact ⟨wf₂, size, by omega, kept, fun k low high => absurd high (by omega), bytes⟩
  | case3 v ip src off tot pending v₁ ip₁ b found m _ copied copiedOk ih =>
    have spec := eitherCopyin_spec pt mem (v₁.data b) (off % BSIZE) userSrc src m
    have within : off % BSIZE + m ≤ BSIZE := by
      have := Nat.mod_lt off (show 0 < BSIZE by decide)
      omega
    obtain ⟨ok, whole⟩ : copied.2 = 0 ∧ copied.1 = Flat.write (v₁.data b) (off % BSIZE) (eitherLoad pt mem userSrc src m) := by
      rcases spec.2 with done | ⟨failed, -⟩
      · exact done
      · exact absurd failed copiedOk
    have part : Accepts pt userSrc src m := spec.1.mp ok
    obtain ⟨wf₂, size, bytes, kept, present⟩ := writei_turn wf found (eitherLoad pt mem userSrc src m)
      (by rw [eitherLoad_length]; omega)
    rw [← whole] at wf₂ bytes kept present
    obtain ⟨more, most, at_off, rest, w, short, whole', wrote⟩ := ih wf₂ (by omega) got
    have split : n - tot = m + (n - (tot + m)) := by omega
    refine ⟨by omega, most, by omega, fun accepted => rest ?_, m + w, by omega, fun finished => by omega, ?_⟩
    · rw [split, accepts_add] at accepted
      exact accepted.2
    · refine ⟨wrote.wf, wrote.size.trans size, by have := wrote.done_le; omega,
        fun j had => (wrote.kept j (by rw [kept j had]; exact had)).trans (kept j had), fun k low high => ?_, ?_⟩
      · by_cases here : k < off + m
        · have same : k / BSIZE = off / BSIZE := by
            unfold BSIZE at *
            omega
          rw [same, wrote.kept _ present]
          exact present
        · exact wrote.allocated k (by omega) (by omega)
      · have joined := Flat.write_append (content v ip) off (eitherLoad pt mem userSrc src m)
          (eitherLoad pt mem userSrc (src + m) w)
        rw [eitherLoad_length] at joined
        rw [wrote.bytes, bytes, joined, ← eitherLoad_add]
  | case4 v ip src off tot done =>
    simp only [Except.ok.injEq, Prod.mk.injEq] at got
    obtain ⟨rfl, rfl, rfl, rfl⟩ := got
    have finished : tot = n := by omega
    subst finished
    refine ⟨le_rfl, le_rfl, by omega, fun _ => rfl, 0, Nat.zero_le _, fun _ => by omega, ?_⟩
    exact ⟨wf, rfl, by omega, fun _ _ => rfl, fun k low high => absurd high (by omega), by simp⟩

theorem Wf.extend {v : Volume} {ip : Inode} (wf : Wf v ip) {s : Nat}
    (covered : ∀ k, ip.size ≤ k → k < s → blockOf v ip (k / BSIZE) ≠ 0) (room : s ≤ MAXFILE * BSIZE) :
    Wf v { ip with size := s } where
  reserved := wf.reserved
  indirect_used := wf.indirect_used
  block_used := wf.block_used
  block_ne_indirect := wf.block_ne_indirect
  block_inj := wf.block_inj
  allocated k below := if early : k < ip.size then wf.allocated k early else covered k (Nat.le_of_not_lt early) below
  size_le := room

theorem writei_rejects (pt : PageTable) (userSrc : Bool) (v : Volume) (ip : Inode) (mem : Nat → UInt8) (src : Nat)
    (off n : UInt32) (refused : ip.size < off.toNat ∨ off + n < off ∨ MAXFILE * BSIZE < (off + n).toNat) :
    writei pt userSrc v ip mem src off n = .ok (v, ip, -1) := by
  unfold writei
  rcases refused with past | wraps | long
  · rw [if_pos (Or.inl past)]
  · rw [if_pos (Or.inr wraps)]
  · by_cases early : ip.size < off.toNat ∨ off + n < off
    · rw [if_pos early]
    · rw [if_neg early, if_pos long]

/-- A `writei` that gets past its checks returns the `tot` bytes it counted,
sets the size to cover them, and has put the source's first `w` bytes, those
counted and the pages of a failed copy before the refused one, over the file's
bytes from `off` on; a source that accepts the whole range is copied whole. -/
theorem writei_spec (pt : PageTable) (userSrc : Bool) {v v' : Volume} {ip ip' : Inode} (wf : Wf v ip) (mem : Nat → UInt8)
    (src : Nat) (off n : UInt32) {r : Int} (within : off.toNat ≤ ip.size) (noWrap : ¬ off + n < off)
    (room : (off + n).toNat ≤ MAXFILE * BSIZE) (got : writei pt userSrc v ip mem src off n = .ok (v', ip', r)) :
    ∃ tot w : Nat, r = tot ∧ tot ≤ w ∧ w ≤ n.toNat ∧ (tot = n.toNat → w = n.toNat) ∧
      (Accepts pt userSrc src n.toNat → tot = n.toNat) ∧ Wf v' ip' ∧ ip'.size = max ip.size (off.toNat + tot) ∧
      content v' ip' = Flat.write (content v ip) off.toNat (eitherLoad pt mem userSrc src w) := by
  have sum := toNat_add_of_not_lt noWrap
  unfold writei at got
  rw [if_neg (not_or.mpr ⟨Nat.not_lt_of_le within, noWrap⟩), if_neg (Nat.not_lt_of_le room)] at got
  split at got
  next => cases got
  next v₁ ip₁ off' tot loop =>
    simp only [Except.ok.injEq, Prod.mk.injEq] at got
    obtain ⟨rfl, rfl, rfl⟩ := got
    obtain ⟨-, most, at_off, whole, w, short, full, wrote⟩ :=
      writeiLoop_spec pt userSrc wf mem src off.toNat n.toNat 0 (Nat.zero_le _) loop
    rw [Nat.sub_zero] at at_off whole short full wrote
    refine ⟨tot, w, rfl, wrote.done_le, short, full, whole, ?_, ?_, ?_⟩
    · split
      · refine wrote.wf.extend (fun k low high => wrote.allocated k ?_ ?_) (by omega)
        · rw [wrote.size] at low
          omega
        · omega
      · exact wrote.wf
    · have size := wrote.size
      split
      · show off' = max ip.size (off.toNat + tot)
        omega
      · omega
    · split <;> exact wrote.bytes

/-- An inode with no blocks and nothing in it. -/
def emptyInode : Inode := ⟨0, fun _ => 0⟩

theorem wf_empty {v : Volume} (reserved : v.used 0 = true) : Wf v emptyInode := by
  have none : ∀ bn, blockOf v emptyInode bn = 0 := fun bn => by simp [blockOf, emptyInode]
  refine ⟨reserved, fun present => absurd rfl present, fun bn present => absurd (none bn) present,
    fun bn present => absurd (none bn) present, fun i _ present => absurd (none i) present,
    fun k below => absurd below (Nat.not_lt_zero k), Nat.zero_le _⟩

/-- A device on which only block 0 is in use. -/
def bootVolume : Volume := ⟨1000, fun b => decide (b = 0), fun _ _ => 0⟩

end Xv6.Fs
