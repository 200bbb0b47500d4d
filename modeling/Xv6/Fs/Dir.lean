import Xv6.Fs.Inode
import Xv6.Fs.Path
import Xv6.Lib.String

/-! Directories (`kernel/fs.c`: `namecmp`, `dirlookup`, `dirlink`). A
directory is an inode whose bytes are `struct dirent`s of `direntSize` bytes:
a `ushort` inode number, 0 for a free entry, and a `DIRSIZ`-byte name that
`strncpy` pads with NULs and leaves unterminated when it is `DIRSIZ` long.
Both functions read and write entries with `readi` and `writei` at a kernel
address, the local `struct dirent de`, modelled as a buffer of its own.

The abstract view is `lookupEntry`: among the entries' offsets (`slots`), the
first whose entry is live and whose name, cut at its NUL or at `DIRSIZ` bytes
(`nameOf`), is the name looked up. Not modelled: `iget` and `iput`; the
result is the entry's inode number, and the inode cache, with its panic when
it is full, is left out. -/
namespace Xv6.Fs

open Vm

/-- `sizeof(struct dirent)`. -/
def direntSize : Nat := 16

/-- `de.inum`: the `ushort` at the start of the entry. -/
def direntInum (de : Nat → UInt8) : Nat := (de 0).toNat + 2 ^ 8 * (de 1).toNat

/-- `de.name`: the `DIRSIZ` bytes after `inum`. -/
def direntName (de : Nat → UInt8) : Nat → UInt8 := fun i => de (2 + i)

/-- `namecmp(s, t)`. -/
def namecmp (s t : Nat → UInt8) : Int := strncmp s t 0 DIRSIZ

/-- The loop of `dirlookup(dp, name, poff)` from `off` on, with `de` the local
`struct dirent`: the device and inode after it, and the inode number and
offset of the entry found. -/
def dirlookupLoop (pt : PageTable) (v : Volume) (dp : Inode) (name de : Nat → UInt8) (off : Nat) :
    Except String (Volume × Inode × Option (Nat × Nat)) :=
  if off < dp.size then
    match read : readi pt false v dp de 0 off.toUInt32 16 with
    | .error e => .error e
    | .ok (v', dp', de, r) =>
      have := readi_size pt false read
      if r ≠ 16 then .error "dirlookup read"
      else if direntInum de = 0 then dirlookupLoop pt v' dp' name de (off + direntSize)
      else if namecmp name (direntName de) = 0 then .ok (v', dp', some (direntInum de, off))
      else dirlookupLoop pt v' dp' name de (off + direntSize)
  else .ok (v, dp, none)
termination_by dp.size - off
decreasing_by all_goals (unfold direntSize; omega)

/-- `dirlookup(dp, name, poff)`, `dp` an inode of type `type`. -/
def dirlookup (pt : PageTable) (v : Volume) (dp : Inode) (type : Nat) (name de : Nat → UInt8) :
    Except String (Volume × Inode × Option (Nat × Nat)) :=
  if type ≠ T_DIR then .error "dirlookup not DIR" else dirlookupLoop pt v dp name de 0

/-- The scan of `dirlink` for an empty entry from `off` on: where it stops,
at a free entry or at the end. -/
def dirlinkScan (pt : PageTable) (v : Volume) (dp : Inode) (de : Nat → UInt8) (off : Nat) :
    Except String (Volume × Inode × (Nat → UInt8) × Nat) :=
  if off < dp.size then
    match read : readi pt false v dp de 0 off.toUInt32 16 with
    | .error e => .error e
    | .ok (v', dp', de, r) =>
      have := readi_size pt false read
      if r ≠ 16 then .error "dirlink read"
      else if direntInum de = 0 then .ok (v', dp', de, off)
      else dirlinkScan pt v' dp' de (off + direntSize)
  else .ok (v, dp, de, off)
termination_by dp.size - off
decreasing_by unfold direntSize; omega

/-- `dirlink(dp, name, inum)`, `dp` an inode of type `type` and `de` the local
`struct dirent`: the device and inode after it, and the result. -/
def dirlink (pt : PageTable) (v : Volume) (dp : Inode) (type : Nat) (name : Nat → UInt8) (inum : Nat)
    (de : Nat → UInt8) : Except String (Volume × Inode × Int) :=
  -- check that name is not present
  match dirlookup pt v dp type name de with
  | .error e => .error e
  | .ok (v, dp, some _) => .ok (v, dp, -1)
  | .ok (v, dp, none) =>
    match dirlinkScan pt v dp de 0 with
    | .error e => .error e
    | .ok (v, dp, de, off) =>
      let de := strncpy de name 2 0 DIRSIZ
      -- `de.inum = inum;` keeps the low 16 bits
      let de := Flat.write de 0 [inum.toUInt8, (inum / 2 ^ 8).toUInt8]
      match writei pt false v dp de 0 off.toUInt32 16 with
      | .error e => .error e
      | .ok (v, dp, r) => if r ≠ 16 then .error "dirlink" else .ok (v, dp, 0)

/-! ## The entries -/

/-- The offsets of the `n` entries from `off` on. -/
def slots (off n : Nat) : List Nat := (List.range n).map fun k => off + direntSize * k

/-- The inode number of the entry at `off` of a directory whose bytes are `bytes`. -/
def inumAt (bytes : Nat → UInt8) (off : Nat) : Nat := (bytes off).toNat + 2 ^ 8 * (bytes (off + 1)).toNat

/-- The name of the entry at `off`, cut at its NUL or at `DIRSIZ` bytes. -/
def nameAt (bytes : Nat → UInt8) (off : Nat) : List UInt8 := nameOf fun i => bytes (off + 2 + i)

/-- The entry at `off` is live and named `key`. -/
def Matches (bytes : Nat → UInt8) (key : List UInt8) (off : Nat) : Bool :=
  inumAt bytes off != 0 && nameAt bytes off == key

/-- The first live entry named `key` of a directory of `size` bytes. -/
def lookupEntry (bytes : Nat → UInt8) (size : Nat) (key : List UInt8) : Option Nat :=
  (slots 0 (size / direntSize)).find? (Matches bytes key)

/-- Where `dirlink` puts a new entry: at the first free one, or at the end. -/
def freeSlot (bytes : Nat → UInt8) (size : Nat) : Nat :=
  ((slots 0 (size / direntSize)).find? fun off => inumAt bytes off == 0).getD size

/-- The bytes of the entry `dirlink` writes. -/
def entryBytes (inum : Nat) (name : Nat → UInt8) : List UInt8 :=
  [inum.toUInt8, (inum / 2 ^ 8).toUInt8] ++ strncpyBytes (Flat.read name 0 DIRSIZ)

/-- No two live entries of the directory have the same name. -/
def UniqueNames (bytes : Nat → UInt8) (size : Nat) : Prop :=
  ∀ key, ∀ o₁ ∈ slots 0 (size / direntSize), ∀ o₂ ∈ slots 0 (size / direntSize),
    Matches bytes key o₁ = true → Matches bytes key o₂ = true → o₁ = o₂

/-- A well-formed directory: a well-formed inode that holds whole entries. -/
structure DirWf (v : Volume) (dp : Inode) : Prop where
  wf : Wf v dp
  whole : dp.size % direntSize = 0

theorem slots_zero (off : Nat) : slots off 0 = [] := rfl

theorem slots_succ (off n : Nat) : slots off (n + 1) = off :: slots (off + direntSize) n := by
  unfold slots
  rw [List.range_succ_eq_map, List.map_cons, List.map_map]
  congr 1
  refine List.map_congr_left fun k _ => ?_
  simp only [Function.comp, direntSize]
  omega

theorem slots_concat (off n : Nat) : slots off (n + 1) = slots off n ++ [off + direntSize * n] := by
  simp [slots, List.range_succ]

theorem mem_slots {off n o : Nat} : o ∈ slots off n ↔ ∃ k < n, o = off + direntSize * k := by
  simp only [slots, List.mem_map, List.mem_range]
  constructor
  · rintro ⟨k, inside, rfl⟩
    exact ⟨k, inside, rfl⟩
  · rintro ⟨k, inside, rfl⟩
    exact ⟨k, inside, rfl⟩

/-! ## Reading an entry -/

theorem toUInt32_entry {off : Nat} (small : off + 16 < 2 ^ 32) :
    off.toUInt32.toNat = off ∧ ¬ off.toUInt32 + 16 < off.toUInt32 := by
  have exact : off.toUInt32.toNat = off := by
    simp only [Nat.toUInt32_eq, UInt32.toNat_ofNat']
    omega
  refine ⟨exact, ?_⟩
  rw [UInt32.lt_iff_toNat_lt, UInt32.toNat_add, exact]
  simp only [UInt32.reduceToNat]
  omega

/-- Inside a well-formed directory, `readi` of one entry into `de` reads it
whole and changes nothing. -/
theorem readi_entry (pt : PageTable) {v : Volume} {dp : Inode} (wf : Wf v dp) (de : Nat → UInt8) {off : Nat}
    (inside : off + direntSize ≤ dp.size) :
    readi pt false v dp de 0 off.toUInt32 16 = .ok (v, dp, Flat.write de 0 (Flat.read (content v dp) off 16), 16) := by
  have small : off + 16 < 2 ^ 32 := by
    have := wf.size_le
    unfold MAXFILE NDIRECT NINDIRECT BSIZE direntSize at *
    omega
  obtain ⟨exact, noWrap⟩ := toUInt32_entry small
  obtain ⟨mem', r, run, -, within⟩ := readi_spec pt wf false de 0 off.toUInt32 16
  rw [exact] at within
  have whole : min (UInt32.toNat 16) (dp.size - off) = 16 := by
    unfold direntSize at inside
    simp only [UInt32.reduceToNat]
    omega
  rw [whole] at within
  obtain ⟨count, stored⟩ := (within (by omega) noWrap).1 fun isUser => absurd isUser Bool.false_ne_true
  rw [run, stored, count]
  rfl

theorem entry_byte (de bytes : Nat → UInt8) (off : Nat) {k : Nat} (inside : k < 16) :
    Flat.write de 0 (Flat.read bytes off 16) k = bytes (off + k) := by
  have stored := Flat.write_inside de 0 (Flat.read bytes off 16) (k := k) (by simpa using inside)
  rw [Nat.zero_add] at stored
  rw [stored, Flat.getElem_read]

theorem direntInum_read (de bytes : Nat → UInt8) (off : Nat) :
    direntInum (Flat.write de 0 (Flat.read bytes off 16)) = inumAt bytes off := by
  simp only [direntInum, inumAt, entry_byte de bytes off (show 0 < 16 by decide),
    entry_byte de bytes off (show 1 < 16 by decide), Nat.add_zero]

/-- `namecmp` of a name and an entry read into `de` compares the name with
the entry's, each cut at its NUL or at `DIRSIZ` bytes. -/
theorem namecmp_read (name de bytes : Nat → UInt8) (off : Nat) :
    namecmp name (direntName (Flat.write de 0 (Flat.read bytes off 16))) = 0 ↔ nameOf name = nameAt bytes off := by
  have same : Flat.read (direntName (Flat.write de 0 (Flat.read bytes off 16))) 0 DIRSIZ =
      Flat.read (fun i => bytes (off + 2 + i)) 0 DIRSIZ := by
    apply List.ext_getElem (by simp)
    intro i inside _
    simp only [Flat.length_read, DIRSIZ] at inside
    simp only [Flat.getElem_read, direntName, Nat.zero_add]
    rw [entry_byte de bytes off (by omega), Nat.add_assoc]
  unfold namecmp nameAt nameOf
  rw [strncmp_eq_zero_iff, same]

/-! ## `dirlookup` -/

/-- `dirlookup`'s loop from `off` on, with `k` entries left, finds the first
of them that is live and has the name. -/
theorem dirlookupLoop_spec (pt : PageTable) {v : Volume} {dp : Inode} (dir : DirWf v dp) (name : Nat → UInt8)
    (de : Nat → UInt8) (off k : Nat) (ends : off + direntSize * k = dp.size) :
    dirlookupLoop pt v dp name de off =
      .ok (v, dp, ((slots off k).find? (Matches (content v dp) (nameOf name))).map fun o => (inumAt (content v dp) o, o)) := by
  induction k generalizing off de with
  | zero =>
    rw [dirlookupLoop, if_neg (by omega)]
    rfl
  | succ k ih =>
    have inside : off + direntSize ≤ dp.size := by
      rw [← ends, Nat.mul_succ]
      omega
    rw [dirlookupLoop, if_pos (by unfold direntSize at inside; omega)]
    split
    next e read =>
      rw [readi_entry pt dir.wf de inside] at read
      cases read
    next v' dp' de' r read =>
      rw [readi_entry pt dir.wf de inside, Except.ok.injEq, Prod.mk.injEq, Prod.mk.injEq, Prod.mk.injEq] at read
      obtain ⟨rfl, rfl, rfl, rfl⟩ := read
      have rest := ih (Flat.write de 0 (Flat.read (content v dp) off 16)) (off + direntSize)
        (by rw [← ends, Nat.mul_succ]; omega)
      rw [slots_succ, List.find?_cons, if_neg (by decide), direntInum_read]
      by_cases free : inumAt (content v dp) off = 0
      · have skip : Matches (content v dp) (nameOf name) off = false := by simp [Matches, free]
        rw [if_pos free, skip]
        exact rest
      · by_cases named : nameOf name = nameAt (content v dp) off
        · have found : Matches (content v dp) (nameOf name) off = true := by simp [Matches, free, named]
          rw [if_neg free, if_pos ((namecmp_read name de _ off).mpr named), found]
          rfl
        · have skip : Matches (content v dp) (nameOf name) off = false := by simp [Matches, free, Ne.symm named]
          rw [if_neg free, if_neg (fun same => named ((namecmp_read name de _ off).mp same)), skip]
          exact rest

theorem dirlookup_spec (pt : PageTable) {v : Volume} {dp : Inode} (dir : DirWf v dp) (name de : Nat → UInt8) :
    dirlookup pt v dp T_DIR name de =
      .ok (v, dp, (lookupEntry (content v dp) dp.size (nameOf name)).map fun o => (inumAt (content v dp) o, o)) := by
  unfold dirlookup
  rw [if_neg (fun wrong => wrong rfl)]
  exact dirlookupLoop_spec pt dir name de 0 (dp.size / direntSize) (by have := dir.whole; unfold direntSize at *; omega)

/-! ## `dirlink` -/

/-- `dirlink`'s scan from `off` on, with `k` entries left, stops at the first
free one of them, or at the end. -/
theorem dirlinkScan_spec (pt : PageTable) {v : Volume} {dp : Inode} (dir : DirWf v dp) (de : Nat → UInt8)
    (off k : Nat) (ends : off + direntSize * k = dp.size) :
    ∃ de', dirlinkScan pt v dp de off =
      .ok (v, dp, de', ((slots off k).find? fun o => inumAt (content v dp) o == 0).getD dp.size) := by
  induction k generalizing off de with
  | zero =>
    refine ⟨de, ?_⟩
    rw [dirlinkScan, if_neg (by omega)]
    simp only [slots_zero, List.find?_nil, Option.getD_none, Except.ok.injEq, Prod.mk.injEq, true_and]
    omega
  | succ k ih =>
    have inside : off + direntSize ≤ dp.size := by
      rw [← ends, Nat.mul_succ]
      omega
    rw [dirlinkScan, if_pos (by unfold direntSize at inside; omega)]
    split
    next e read =>
      rw [readi_entry pt dir.wf de inside] at read
      cases read
    next v' dp' de' r read =>
      rw [readi_entry pt dir.wf de inside, Except.ok.injEq, Prod.mk.injEq, Prod.mk.injEq, Prod.mk.injEq] at read
      obtain ⟨rfl, rfl, rfl, rfl⟩ := read
      rw [slots_succ, List.find?_cons, if_neg (by decide), direntInum_read]
      by_cases free : inumAt (content v dp) off = 0
      · rw [if_pos free]
        exact ⟨Flat.write de 0 (Flat.read (content v dp) off 16), by simp [free]⟩
      · rw [if_neg free]
        have skip : (inumAt (content v dp) off == 0) = false := by simp [free]
        rw [skip]
        exact ih _ (off + direntSize) (by rw [← ends, Nat.mul_succ]; omega)

/-- `dirlink` puts its entry on a slot: a free one inside the directory, or the end. -/
theorem freeSlot_spec (bytes : Nat → UInt8) {size : Nat} (whole : size % direntSize = 0) :
    freeSlot bytes size % direntSize = 0 ∧ (freeSlot bytes size = size ∨
      (freeSlot bytes size + direntSize ≤ size ∧ inumAt bytes (freeSlot bytes size) = 0)) := by
  unfold freeSlot
  cases found : (slots 0 (size / direntSize)).find? fun off => inumAt bytes off == 0 with
  | none => exact ⟨whole, Or.inl rfl⟩
  | some o =>
    obtain ⟨k, inside, rfl⟩ := mem_slots.mp (List.mem_of_find?_eq_some found)
    have free := List.find?_some found
    simp only [beq_iff_eq] at free
    simp only [Option.getD_some]
    refine ⟨by simp [direntSize], Or.inr ⟨?_, free⟩⟩
    unfold direntSize at inside whole ⊢
    omega

/-- The bytes `dirlink` writes: its `inum` and `strncpy`'s name. -/
theorem read_entry_written (de name : Nat → UInt8) (inum : Nat) :
    Flat.read (Flat.write (strncpy de name 2 0 DIRSIZ) 0 [inum.toUInt8, (inum / 2 ^ 8).toUInt8]) 0 16 =
      entryBytes inum name := by
  rw [strncpy_eq_write]
  apply List.ext_getElem (by simp [entryBytes, DIRSIZ])
  intro i inside _
  simp only [Flat.length_read] at inside
  rw [Flat.getElem_read, Nat.zero_add]
  by_cases head : i < 2
  · have stored := Flat.write_inside (Flat.write de 2 (strncpyBytes (Flat.read name 0 DIRSIZ))) 0
      [inum.toUInt8, (inum / 2 ^ 8).toUInt8] (k := i) (by simpa using head)
    rw [Nat.zero_add] at stored
    rw [stored]
    obtain rfl | rfl : i = 0 ∨ i = 1 := by omega
    · simp [entryBytes]
    · simp [entryBytes]
  · rw [Flat.write_outside _ 0 _ (by simp; omega)]
    obtain ⟨j, rfl⟩ : ∃ j, i = 2 + j := ⟨i - 2, by omega⟩
    rw [Flat.write_inside _ 2 _ (by simp [DIRSIZ]; omega)]
    simp only [entryBytes, List.cons_append, List.nil_append, show 2 + j = j + 1 + 1 by omega,
      List.getElem_cons_succ]

@[simp]
theorem length_entryBytes (inum : Nat) (name : Nat → UInt8) : (entryBytes inum name).length = direntSize := by
  simp [entryBytes, DIRSIZ, direntSize]

/-- The entry `dirlink` writes holds `inum` in a `ushort`, and the name. -/
theorem entry_written (bytes name : Nat → UInt8) (o inum : Nat) :
    inumAt (Flat.write bytes o (entryBytes inum name)) o = inum % 2 ^ 16 ∧
      nameAt (Flat.write bytes o (entryBytes inum name)) o = nameOf name := by
  have byte : ∀ k (inside : k < (entryBytes inum name).length),
      Flat.write bytes o (entryBytes inum name) (o + k) = (entryBytes inum name)[k] :=
    fun k inside => Flat.write_inside bytes o _ inside
  constructor
  · have first := byte 0 (by simp [direntSize])
    rw [Nat.add_zero] at first
    unfold inumAt
    rw [first, byte 1 (by simp [direntSize])]
    simp only [entryBytes, List.cons_append, List.getElem_cons_zero, List.getElem_cons_succ, Nat.toUInt8_eq,
      UInt8.toNat_ofNat']
    omega
  · unfold nameAt nameOf
    have same : Flat.read (fun i => Flat.write bytes o (entryBytes inum name) (o + 2 + i)) 0 DIRSIZ =
        strncpyBytes (Flat.read name 0 DIRSIZ) := by
      apply List.ext_getElem (by simp)
      intro i inside _
      simp only [Flat.length_read, DIRSIZ] at inside
      rw [Flat.getElem_read, Nat.zero_add, Nat.add_assoc, byte (2 + i) (by simp [direntSize]; omega)]
      simp only [entryBytes, List.cons_append, List.nil_append, show 2 + i = i + 1 + 1 by omega,
        List.getElem_cons_succ]
    rw [same, takeWhile_strncpyBytes]

/-- An entry other than the one written stays as it was. -/
theorem matches_write_other (bytes : Nat → UInt8) (key : List UInt8) {o x : Nat} (cells : List UInt8)
    (len : cells.length = direntSize) (aligned : o % direntSize = 0) (alignedX : x % direntSize = 0) (other : x ≠ o) :
    Matches (Flat.write bytes o cells) key x = Matches bytes key x := by
  have apart : ∀ i < direntSize, Flat.write bytes o cells (x + i) = bytes (x + i) := fun i inside =>
    Flat.write_outside bytes o cells (by unfold direntSize at *; omega)
  have name : nameAt (Flat.write bytes o cells) x = nameAt bytes x := by
    unfold nameAt nameOf
    congr 1
    apply List.ext_getElem (by simp)
    intro i inside _
    simp only [Flat.length_read, DIRSIZ] at inside
    simp only [Flat.getElem_read, Nat.zero_add, Nat.add_assoc]
    exact apart (2 + i) (by unfold direntSize; omega)
  have inum : inumAt (Flat.write bytes o cells) x = inumAt bytes x := by
    unfold inumAt
    rw [show x = x + 0 from rfl, apart 0 (by decide), Nat.add_zero, apart 1 (by decide)]
  unfold Matches
  rw [inum, name]

theorem slots_aligned {n x : Nat} (member : x ∈ slots 0 n) : x % direntSize = 0 := by
  obtain ⟨k, -, rfl⟩ := mem_slots.mp member
  simp [direntSize]

theorem mem_slots_link {size o : Nat} (whole : size % direntSize = 0) (aligned : o % direntSize = 0)
    (slot : o = size ∨ o + direntSize ≤ size) :
    o ∈ slots 0 (max size (o + direntSize) / direntSize) ∧
      ∀ x ∈ slots 0 (max size (o + direntSize) / direntSize), x ≠ o → x ∈ slots 0 (size / direntSize) := by
  constructor
  · exact mem_slots.mpr ⟨o / direntSize, by simp only [direntSize] at *; omega, by simp only [direntSize] at *; omega⟩
  · intro x member other
    obtain ⟨k, inside, rfl⟩ := mem_slots.mp member
    exact mem_slots.mpr ⟨k, by simp only [direntSize] at *; omega, rfl⟩

/-- A search in which only `o` can succeed finds `o` if it is there and succeeds. -/
theorem find?_eq_of_only {α : Type} [DecidableEq α] {l : List α} {p : α → Bool} {o : α}
    (only : ∀ x ∈ l, p x = true → x = o) : l.find? p = if o ∈ l ∧ p o = true then some o else none := by
  induction l with
  | nil => simp
  | cons x xs ih =>
    rw [List.find?_cons, ih fun y member => only y (List.mem_cons_of_mem x member)]
    by_cases hit : p x = true
    · have same := only x List.mem_cons_self hit
      subst same
      simp [hit]
    · have miss : ¬ (x = o ∧ p o = true) := fun ⟨same, holds⟩ => hit (same ▸ holds)
      simp only [hit, List.mem_cons]
      by_cases here : o = x
      · subst here
        simp [hit]
      · simp [here]

theorem dirlink_present (pt : PageTable) {v : Volume} {dp : Inode} (dir : DirWf v dp) (name de : Nat → UInt8)
    (inum : Nat) (present : lookupEntry (content v dp) dp.size (nameOf name) ≠ none) :
    dirlink pt v dp T_DIR name inum de = .ok (v, dp, -1) := by
  obtain ⟨o, found⟩ := Option.ne_none_iff_exists'.mp present
  unfold dirlink
  rw [dirlookup_spec pt dir name de, found]
  rfl

/-- For a name no live entry has, a `dirlink` that returns has written the
entry over the first free one, or at the end, and returned 0. -/
theorem dirlink_absent (pt : PageTable) {v v' : Volume} {dp dp' : Inode} (dir : DirWf v dp) (name de : Nat → UInt8)
    (inum : Nat) {r : Int} (absent : lookupEntry (content v dp) dp.size (nameOf name) = none)
    (got : dirlink pt v dp T_DIR name inum de = .ok (v', dp', r)) :
    r = 0 ∧ DirWf v' dp' ∧ dp'.size = max dp.size (freeSlot (content v dp) dp.size + direntSize) ∧
      content v' dp' = Flat.write (content v dp) (freeSlot (content v dp) dp.size) (entryBytes inum name) := by
  obtain ⟨de', scan⟩ := dirlinkScan_spec pt dir de 0 (dp.size / direntSize)
    (by have := dir.whole; unfold direntSize at *; omega)
  have stops : dirlinkScan pt v dp de 0 = .ok (v, dp, de', freeSlot (content v dp) dp.size) := scan
  obtain ⟨aligned, slot⟩ := freeSlot_spec (content v dp) dir.whole
  set o := freeSlot (content v dp) dp.size
  have small : o + 16 < 2 ^ 32 := by
    have := dir.wf.size_le
    unfold MAXFILE NDIRECT NINDIRECT BSIZE direntSize at *
    omega
  obtain ⟨exact, noWrap⟩ := toUInt32_entry small
  have sum : (o.toUInt32 + 16).toNat = o + 16 := by
    rw [toNat_add_of_not_lt noWrap, exact]
    rfl
  unfold dirlink at got
  rw [dirlookup_spec pt dir name de, absent, Option.map_none] at got
  simp only at got
  rw [stops] at got
  simp only at got
  split at got
  next => cases got
  next v₁ dp₁ r₁ written =>
    split_ifs at got with bad
    simp only [Except.ok.injEq, Prod.mk.injEq] at got
    obtain ⟨rfl, rfl, rfl⟩ := got
    have room : (o.toUInt32 + 16).toNat ≤ MAXFILE * BSIZE := by
      by_contra far
      rw [writei_rejects pt false v dp _ 0 _ 16 (Or.inr (Or.inr (Nat.lt_of_not_le far))), Except.ok.injEq,
        Prod.mk.injEq, Prod.mk.injEq] at written
      rw [← written.2.2] at bad
      exact bad (by decide)
    obtain ⟨tot, w, count, -, -, full, whole, wf', size', bytes'⟩ :=
      writei_spec pt false dir.wf _ 0 o.toUInt32 16 (by rw [exact]; unfold direntSize at slot; omega) noWrap room written
    have all : tot = 16 := whole fun isUser => absurd isUser Bool.false_ne_true
    have allW : w = 16 := full all
    refine ⟨rfl, ⟨wf', ?_⟩, ?_, ?_⟩
    · rw [size', exact, all]
      have := dir.whole
      unfold direntSize at *
      omega
    · rw [size', exact, all]
      rfl
    · rw [bytes', exact, allW]
      simp only [eitherLoad, Bool.false_eq_true, if_false]
      rw [read_entry_written]

theorem key_of_matches_written {bytes name : Nat → UInt8} {o inum : Nat} {key : List UInt8}
    (matched : Matches (Flat.write bytes o (entryBytes inum name)) key o = true) : key = nameOf name := by
  simp only [Matches, Bool.and_eq_true, beq_iff_eq] at matched
  rw [← matched.2, (entry_written bytes name o inum).2]

/-- After `dirlink` writes an entry for a name no live entry had, the first
live entry with that name is the new one, unless the `ushort` it stored for
`inum` is 0. -/
theorem lookupEntry_link (bytes name : Nat → UInt8) {size : Nat} (inum : Nat) (whole : size % direntSize = 0)
    (absent : lookupEntry bytes size (nameOf name) = none) :
    lookupEntry (Flat.write bytes (freeSlot bytes size) (entryBytes inum name))
        (max size (freeSlot bytes size + direntSize)) (nameOf name) =
      if inum % 2 ^ 16 = 0 then none else some (freeSlot bytes size) := by
  obtain ⟨aligned, slot⟩ := freeSlot_spec bytes whole
  set o := freeSlot bytes size
  obtain ⟨here, others⟩ := mem_slots_link whole aligned (slot.imp id And.left)
  have unmatched := List.find?_eq_none.mp absent
  have only : ∀ x ∈ slots 0 (max size (o + direntSize) / direntSize),
      Matches (Flat.write bytes o (entryBytes inum name)) (nameOf name) x = true → x = o := by
    intro x member matched
    by_contra other
    rw [matches_write_other bytes _ _ (length_entryBytes inum name) aligned (slots_aligned member) other] at matched
    exact unmatched x (others x member other) matched
  obtain ⟨inum_eq, name_eq⟩ := entry_written bytes name o inum
  unfold lookupEntry
  rw [find?_eq_of_only only]
  by_cases zero : inum % 2 ^ 16 = 0
  · rw [if_pos zero, if_neg]
    rintro ⟨-, matched⟩
    simp only [Matches, inum_eq, zero, bne_self_eq_false, Bool.false_and, Bool.false_eq_true] at matched
  · have live : Matches (Flat.write bytes o (entryBytes inum name)) (nameOf name) o = true := by
      simp only [Matches, inum_eq, name_eq, Bool.and_eq_true, bne_iff_ne, beq_self_eq_true, and_true, ne_eq, zero,
        not_false_eq_true]
    rw [if_neg zero, if_pos ⟨here, live⟩]

/-- `dirlink` keeps the names of the live entries distinct. -/
theorem uniqueNames_link (bytes name : Nat → UInt8) {size : Nat} (inum : Nat) (whole : size % direntSize = 0)
    (absent : lookupEntry bytes size (nameOf name) = none) (unique : UniqueNames bytes size) :
    UniqueNames (Flat.write bytes (freeSlot bytes size) (entryBytes inum name)) (max size (freeSlot bytes size + direntSize)) := by
  obtain ⟨aligned, slot⟩ := freeSlot_spec bytes whole
  set o := freeSlot bytes size
  obtain ⟨-, others⟩ := mem_slots_link whole aligned (slot.imp id And.left)
  have unmatched := List.find?_eq_none.mp absent
  have kept : ∀ key, ∀ x ∈ slots 0 (max size (o + direntSize) / direntSize), x ≠ o →
      Matches (Flat.write bytes o (entryBytes inum name)) key x = Matches bytes key x := fun key x member other =>
    matches_write_other bytes key _ (length_entryBytes inum name) aligned (slots_aligned member) other
  have fresh : ∀ key, ∀ x ∈ slots 0 (max size (o + direntSize) / direntSize), x ≠ o →
      Matches (Flat.write bytes o (entryBytes inum name)) key o = true →
      Matches (Flat.write bytes o (entryBytes inum name)) key x = false := by
    intro key x member other new
    rw [key_of_matches_written new, kept _ x member other]
    simpa using unmatched x (others x member other)
  intro key o₁ member₁ o₂ member₂ matched₁ matched₂
  by_cases at₁ : o₁ = o <;> by_cases at₂ : o₂ = o
  · rw [at₁, at₂]
  · subst at₁
    rw [fresh key o₂ member₂ at₂ matched₁] at matched₂
    cases matched₂
  · subst at₂
    rw [fresh key o₁ member₁ at₁ matched₂] at matched₁
    cases matched₁
  · rw [kept key o₁ member₁ at₁] at matched₁
    rw [kept key o₂ member₂ at₂] at matched₂
    exact unique key o₁ (others o₁ member₁ at₁) o₂ (others o₂ member₂ at₂) matched₁ matched₂

theorem dirWf_empty : DirWf bootVolume emptyInode := ⟨wf_empty rfl, rfl⟩

end Xv6.Fs
