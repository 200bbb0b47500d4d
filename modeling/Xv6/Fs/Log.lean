import Xv6.Machine

/-! The on-disk log of `kernel/log.c` under crashes. The disk is the header
block, as `write_head` writes it (`n` and `block[0..n)`, here a list), and the
contents of every other block. Each `bwrite` replaces one block, and a crash
keeps the writes made so far and loses memory: the buffer cache and the
in-memory log header. `commit` is the sequence of its `2n + 2` writes;
`recover_from_log` reads the header and then makes its writes, reading each log
block from the disk.

The transaction commits at the `write_head` after `write_log`: before it the
header is clear and no home block has been written; after it the header names
the logged blocks and the log holds their new contents, which recovery copies
home, however often it is itself cut short. So once a recovery completes,
either every logged block holds its new contents or every one its old, the
header is clear, and no block outside the transaction and the log has changed. -/
namespace Xv6.Log

variable {α : Type}

structure Disk (α : Type) where
  header : List Nat
  block : Nat → α

/-- One `bwrite`: a crash cannot split it. -/
inductive Op (α : Type) where
  /-- A buffer whose contents came from memory. -/
  | put (b : Nat) (v : α)
  /-- A buffer read from block `src` of the disk, written to block `dst`. -/
  | copy (src dst : Nat)
  /-- `write_head`. -/
  | head (blocks : List Nat)

def Disk.exec (d : Disk α) : Op α → Disk α
  | .put b v => { d with block := Function.update d.block b v }
  | .copy src dst => { d with block := Function.update d.block dst (d.block src) }
  | .head blocks => { d with header := blocks }

/-- `write_log()`: each logged block, from the cache, to its slot of the log. -/
def writeLog (start : Nat) (blocks : List Nat) (cache : Nat → α) : List (Op α) :=
  blocks.mapIdx fun tail b => .put (start + tail + 1) (cache b)

/-- `install_trans(0)` in `commit`: the log buffer of each block holds what
`write_log` copied from the cache, and it goes to the home block. -/
def installCached (blocks : List Nat) (cache : Nat → α) : List (Op α) :=
  blocks.mapIdx fun _ b => .put b (cache b)

/-- `install_trans(1)` in `recover_from_log`: each log block, read from disk,
to its home block. -/
def installFromDisk (start : Nat) (blocks : List Nat) : List (Op α) :=
  blocks.mapIdx fun tail b => .copy (start + tail + 1) b

/-- `commit()` with the in-memory header `blocks` and the cache contents `cache`. -/
def commit (start : Nat) (blocks : List Nat) (cache : Nat → α) : List (Op α) :=
  if 0 < blocks.length then
    writeLog start blocks cache ++ [.head blocks] ++ installCached blocks cache ++ [.head []]
  else []

/-- `recover_from_log()` on the disk `d`: `read_head`, then its writes. -/
def recoverFromLog (start : Nat) (d : Disk α) : List (Op α) :=
  installFromDisk start d.header ++ [.head []]

/-- Recovery after a crash: recoveries cut short after `cuts` writes each, by
further crashes, and then one that completes. -/
def recoverAfter (start : Nat) : Disk α → List Nat → Disk α
  | d, [] => Machine.run Disk.exec d (recoverFromLog start d)
  | d, cut :: cuts => recoverAfter start (Machine.run Disk.exec d ((recoverFromLog start d).take cut)) cuts

@[simp] theorem exec_put_block (d : Disk α) (b : Nat) (v : α) :
    (d.exec (.put b v)).block = Function.update d.block b v := rfl
@[simp] theorem exec_put_header (d : Disk α) (b : Nat) (v : α) : (d.exec (.put b v)).header = d.header := rfl
@[simp] theorem exec_copy_block (d : Disk α) (src dst : Nat) :
    (d.exec (.copy src dst)).block = Function.update d.block dst (d.block src) := rfl
@[simp] theorem exec_copy_header (d : Disk α) (src dst : Nat) :
    (d.exec (.copy src dst)).header = d.header := rfl
@[simp] theorem exec_head_block (d : Disk α) (blocks : List Nat) : (d.exec (.head blocks)).block = d.block := rfl
@[simp] theorem exec_head_header (d : Disk α) (blocks : List Nat) :
    (d.exec (.head blocks)).header = blocks := rfl

/-! ## The three states a crash can leave -/

section Phases

variable (start : Nat) (blocks : List Nat) (cache : Nat → α) (d : Disk α)

/-- A block that neither the transaction nor the log uses. -/
def Untouched (b : Nat) : Prop := b ∉ blocks ∧ ∀ tail < blocks.length, b ≠ start + tail + 1

/-- Every block outside the transaction and the log as in `d`. -/
def Framed (d' : Disk α) : Prop := ∀ b, Untouched start blocks b → d'.block b = d.block b

/-- Not committed: the header clear, every home block old, and the first `k`
log blocks written. -/
structure Logging (k : Nat) (d' : Disk α) : Prop where
  header : d'.header = []
  home : ∀ b ∈ blocks, d'.block b = d.block b
  log : ∀ tail (h : tail < blocks.length), tail < k → d'.block (start + tail + 1) = cache blocks[tail]
  framed : Framed start blocks d d'

/-- Committed: the header names the blocks, the log holds their new contents,
and the first `k` home blocks have them too. -/
structure Installing (k : Nat) (d' : Disk α) : Prop where
  header : d'.header = blocks
  log : ∀ tail (h : tail < blocks.length), d'.block (start + tail + 1) = cache blocks[tail]
  home : ∀ tail (h : tail < blocks.length), tail < k → d'.block blocks[tail] = cache blocks[tail]
  framed : Framed start blocks d d'

/-- Done: the header clear and every home block new. -/
structure Installed (d' : Disk α) : Prop where
  header : d'.header = []
  home : ∀ b ∈ blocks, d'.block b = cache b
  framed : Framed start blocks d d'

/-- Past the commit point: the header names the blocks, or recovery is done. -/
def Committed (d' : Disk α) : Prop :=
  (∃ k, Installing start blocks cache d k d') ∨ Installed start blocks cache d d'

variable {start blocks cache d}

theorem Logging.initial (clean : d.header = []) : Logging start blocks cache d 0 d where
  header := clean
  home _ _ := rfl
  log _ _ lt := absurd lt (Nat.not_lt_zero _)
  framed _ _ := rfl

theorem Installing.weaken {k : Nat} {d' : Disk α} (inv : Installing start blocks cache d k d') :
    Installing start blocks cache d 0 d' :=
  ⟨inv.header, inv.log, fun _ _ lt => absurd lt (Nat.not_lt_zero _), inv.framed⟩

theorem Logging.clear {k : Nat} {d' : Disk α} (inv : Logging start blocks cache d k d') :
    Logging start blocks cache d k (d'.exec (.head [])) :=
  ⟨rfl, by simpa using inv.home, by simpa using inv.log, fun b untouched => by simpa using inv.framed b untouched⟩

theorem Installed.clear {d' : Disk α} (inv : Installed start blocks cache d d') :
    Installed start blocks cache d (d'.exec (.head [])) :=
  ⟨rfl, by simpa using inv.home, fun b untouched => by simpa using inv.framed b untouched⟩

theorem recoverFromLog_of_clear {d' : Disk α} (clear : d'.header = []) :
    recoverFromLog start d' = [.head []] := by
  simp [recoverFromLog, installFromDisk, clear]

theorem Logging.recover {k : Nat} {d' : Disk α} (inv : Logging start blocks cache d k d') (j : Nat) :
    Logging start blocks cache d k (Machine.run Disk.exec d' ((recoverFromLog start d').take j)) := by
  rw [recoverFromLog_of_clear inv.header]
  cases j with
  | zero => simpa using inv
  | succ j => simpa using inv.clear

theorem Installed.recover {d' : Disk α} (inv : Installed start blocks cache d d') (j : Nat) :
    Installed start blocks cache d (Machine.run Disk.exec d' ((recoverFromLog start d').take j)) := by
  rw [recoverFromLog_of_clear inv.header]
  cases j with
  | zero => simpa using inv
  | succ j => simpa using inv.clear

theorem Logging.recoverAfter {k : Nat} {d' : Disk α} (inv : Logging start blocks cache d k d') (cuts : List Nat) :
    Logging start blocks cache d k (recoverAfter start d' cuts) := by
  induction cuts generalizing d' with
  | nil =>
    have whole := inv.recover (recoverFromLog start d').length
    rwa [List.take_length] at whole
  | cons cut cuts ih => exact ih (inv.recover cut)

theorem Logging.commitHead {d' : Disk α} (inv : Logging start blocks cache d blocks.length d') :
    Installing start blocks cache d 0 (d'.exec (.head blocks)) where
  header := rfl
  log tail bound := by simpa using inv.log tail bound bound
  home _ _ lt := absurd lt (Nat.not_lt_zero _)
  framed b untouched := by simpa using inv.framed b untouched

theorem Installing.clear {d' : Disk α} (inv : Installing start blocks cache d blocks.length d') :
    Installed start blocks cache d (d'.exec (.head [])) where
  header := rfl
  home b member := by
    obtain ⟨tail, bound, rfl⟩ := List.getElem_of_mem member
    simpa using inv.home tail bound bound
  framed b untouched := by simpa using inv.framed b untouched

theorem run_take_single (d' : Disk α) (op : Op α) (j : Nat) :
    Machine.run Disk.exec d' ([op].take j) = if 0 < j then d'.exec op else d' := by
  cases j <;> simp

@[simp] theorem length_installFromDisk (start : Nat) (blocks : List Nat) :
    (installFromDisk start blocks : List (Op α)).length = blocks.length := by
  simp [installFromDisk]

/-! Each write, in the phase where it happens. The home blocks are outside the log. -/

variable (outside : ∀ b ∈ blocks, ∀ tail < blocks.length, b ≠ start + tail + 1)
include outside

/-- `write_log` writes log block `k`. -/
theorem Logging.write {k : Nat} {d' : Disk α} (inv : Logging start blocks cache d k d') (inside : k < blocks.length) :
    Logging start blocks cache d (k + 1) (d'.exec (.put (start + k + 1) (cache blocks[k]))) where
  header := inv.header
  home b member := by
    have other : b ≠ start + k + 1 := outside b member k inside
    simp [other, inv.home b member]
  log tail bound lt := by
    by_cases same : tail = k
    · subst same; simp
    · have other : start + tail + 1 ≠ start + k + 1 := by omega
      rw [exec_put_block, Function.update_of_ne other]
      exact inv.log tail bound (by omega)
  framed b untouched := by
    have other : b ≠ start + k + 1 := untouched.2 k inside
    simp [other, inv.framed b untouched]

/-- An install writes home block `k`; a block logged twice gets the same contents twice. -/
theorem Installing.install {k : Nat} {d' : Disk α} (inv : Installing start blocks cache d k d')
    (inside : k < blocks.length) :
    Installing start blocks cache d (k + 1) (d'.exec (.put blocks[k] (cache blocks[k]))) where
  header := inv.header
  log tail bound := by
    have other : start + tail + 1 ≠ blocks[k] := (outside _ (List.getElem_mem inside) tail bound).symm
    simp [other, inv.log tail bound]
  home tail bound lt := by
    by_cases same : blocks[tail] = blocks[k]
    · simp [same]
    · have earlier : tail < k := by
        rcases Nat.lt_succ_iff_lt_or_eq.mp lt with earlier | rfl
        · exact earlier
        · exact absurd rfl same
      simp [same, inv.home tail bound earlier]
  framed b untouched := by
    have other : b ≠ blocks[k] := fun same => untouched.1 (same ▸ List.getElem_mem inside)
    simp [other, inv.framed b untouched]

theorem Installing.copy {k : Nat} {d' : Disk α} (inv : Installing start blocks cache d k d')
    (inside : k < blocks.length) :
    Installing start blocks cache d (k + 1) (d'.exec (.copy (start + k + 1) blocks[k])) := by
  have same : d'.exec (.copy (start + k + 1) blocks[k]) = d'.exec (.put blocks[k] (cache blocks[k])) := by
    simp only [Disk.exec, inv.log k inside]
  rw [same]
  exact inv.install outside inside

/-! ## Runs of writes, cut anywhere -/

theorem Logging.writeLog_cut {d' : Disk α} (inv : Logging start blocks cache d 0 d') (i : Nat) :
    Logging start blocks cache d (min i blocks.length)
      (Machine.run Disk.exec d' ((writeLog start blocks cache).take i)) :=
  Machine.run_take_mapIdx blocks _ (P := fun k d' => Logging start blocks cache d k d') inv
    (fun _ inside _ inv => inv.write outside inside) i

theorem Installing.installCached_cut {d' : Disk α} (inv : Installing start blocks cache d 0 d') (i : Nat) :
    Installing start blocks cache d (min i blocks.length)
      (Machine.run Disk.exec d' ((installCached blocks cache).take i)) :=
  Machine.run_take_mapIdx blocks _ (P := fun k d' => Installing start blocks cache d k d') inv
    (fun _ inside _ inv => inv.install outside inside) i

theorem Installing.installFromDisk_cut {d' : Disk α} (inv : Installing start blocks cache d 0 d') (i : Nat) :
    Installing start blocks cache d (min i blocks.length)
      (Machine.run Disk.exec d' ((installFromDisk (α := α) start blocks).take i)) :=
  Machine.run_take_mapIdx blocks _ (P := fun k d' => Installing start blocks cache d k d') inv
    (fun _ inside _ inv => inv.copy outside inside) i

theorem Installing.recover {k : Nat} {d' : Disk α} (inv : Installing start blocks cache d k d') (j : Nat) :
    (∃ k', Installing start blocks cache d k' (Machine.run Disk.exec d' ((recoverFromLog start d').take j))) ∨
      Installed start blocks cache d (Machine.run Disk.exec d' ((recoverFromLog start d').take j)) := by
  have copied := inv.weaken.installFromDisk_cut outside j
  rw [recoverFromLog, inv.header, Machine.run_take_append, run_take_single, length_installFromDisk]
  split
  · rw [show min j blocks.length = blocks.length by omega] at copied
    exact .inr copied.clear
  · exact .inl ⟨_, copied⟩

/-- The recovery that completes, after the commit point. -/
theorem Installing.recover_all {k : Nat} {d' : Disk α} (inv : Installing start blocks cache d k d') :
    Installed start blocks cache d (Machine.run Disk.exec d' (recoverFromLog start d')) := by
  have whole := inv.recover outside (recoverFromLog start d').length
  rw [List.take_length] at whole
  rcases whole with ⟨k', halfway⟩ | done
  · have cleared : (Machine.run Disk.exec d' (recoverFromLog start d')).header = [] := by
      rw [recoverFromLog, Machine.run_append]
      rfl
    have named := halfway.header
    rw [cleared] at named
    have empty : blocks = [] := named.symm
    exact ⟨cleared, by simp [empty], halfway.framed⟩
  · exact done

theorem Committed.recover {d' : Disk α} (committed : Committed start blocks cache d d') (j : Nat) :
    Committed start blocks cache d (Machine.run Disk.exec d' ((recoverFromLog start d').take j)) := by
  rcases committed with ⟨k, inv⟩ | inv
  · exact inv.recover outside j
  · exact .inr (inv.recover j)

theorem Committed.recoverAfter {d' : Disk α} (committed : Committed start blocks cache d d') (cuts : List Nat) :
    Installed start blocks cache d (recoverAfter start d' cuts) := by
  induction cuts generalizing d' with
  | nil =>
    rcases committed with ⟨k, inv⟩ | inv
    · exact inv.recover_all outside
    · have whole := inv.recover (recoverFromLog start d').length
      rwa [List.take_length] at whole
  | cons cut cuts ih => exact ih (committed.recover outside cut)

/-- A crash in `commit` up to its committing `write_head` leaves the header
clear and no home block written. -/
theorem commit_cut_uncommitted (clean : d.header = []) {crash : Nat} (before : crash ≤ blocks.length) :
    ∃ k, Logging start blocks cache d k (Machine.run Disk.exec d ((commit start blocks cache).take crash)) := by
  unfold commit
  split
  · rw [Machine.run_take_append, Machine.run_take_append, Machine.run_take_append, run_take_single,
      run_take_single]
    have logged := (Logging.initial clean : Logging start blocks cache d 0 d).writeLog_cut outside crash
    simp only [List.length_append, List.length_singleton, writeLog, installCached, List.length_mapIdx]
      at logged ⊢
    rw [if_neg (show ¬ 0 < crash - (blocks.length + 1 + blocks.length) by omega),
      if_neg (show ¬ 0 < crash - blocks.length by omega), show crash - (blocks.length + 1) = 0 by omega]
    simpa using ⟨_, logged⟩
  · simpa using ⟨0, (Logging.initial clean : Logging start blocks cache d 0 d)⟩

/-- A crash in `commit` after its committing `write_head`, or none, leaves it committed. -/
theorem commit_cut_committed (clean : d.header = []) {crash : Nat} (after : blocks.length < crash) :
    Committed start blocks cache d (Machine.run Disk.exec d ((commit start blocks cache).take crash)) := by
  unfold commit
  split
  · rw [Machine.run_take_append, Machine.run_take_append, Machine.run_take_append, run_take_single,
      run_take_single]
    have logged := (Logging.initial clean : Logging start blocks cache d 0 d).writeLog_cut outside crash
    simp only [List.length_append, List.length_singleton, writeLog, installCached, List.length_mapIdx]
      at logged ⊢
    rw [show min crash blocks.length = blocks.length by omega] at logged
    have installing := logged.commitHead.installCached_cut outside (crash - (blocks.length + 1))
    simp only [installCached] at installing
    rw [if_pos (show 0 < crash - blocks.length by omega)]
    by_cases installed : blocks.length + 1 + blocks.length < crash
    · rw [if_pos (show 0 < crash - (blocks.length + 1 + blocks.length) by omega)]
      rw [show min (crash - (blocks.length + 1)) blocks.length = blocks.length by omega] at installing
      exact .inr installing.clear
    · rw [if_neg (show ¬ 0 < crash - (blocks.length + 1 + blocks.length) by omega)]
      exact .inl ⟨_, installing⟩
  · rename_i empty
    have none : blocks = [] := List.eq_nil_of_length_eq_zero (by omega)
    subst none
    simpa using .inr ⟨clean, fun _ member => absurd member List.not_mem_nil, fun _ _ => rfl⟩

end Phases

/-- `commit` cut after `crash` writes, then recoveries cut after `cuts` writes
each, then one recovery that completes. -/
def crashThenRecover (start : Nat) (blocks : List Nat) (cache : Nat → α) (d : Disk α)
    (crash : Nat) (cuts : List Nat) : Disk α :=
  recoverAfter start (Machine.run Disk.exec d ((commit start blocks cache).take crash)) cuts

/-- Crash atomicity of a transaction: whatever write `commit` is cut at, and
however many recoveries are cut short after it, once a recovery completes the
header is clear, either every logged block holds its new contents or every one
its old, and no block outside the transaction and the log has changed. Which
one is decided by the committing `write_head`: a crash after it, or none, leaves
the new contents, and a crash up to it the old. -/
theorem commit_crash_atomic (start : Nat) (blocks : List Nat) (cache : Nat → α) (d : Disk α)
    (clean : d.header = []) (outside : ∀ b ∈ blocks, ∀ tail < blocks.length, b ≠ start + tail + 1)
    (crash : Nat) (cuts : List Nat) :
    (crashThenRecover start blocks cache d crash cuts).header = [] ∧
      ((∀ b ∈ blocks, (crashThenRecover start blocks cache d crash cuts).block b = cache b) ∨
        (∀ b ∈ blocks, (crashThenRecover start blocks cache d crash cuts).block b = d.block b)) ∧
      (∀ b, b ∉ blocks → (∀ tail < blocks.length, b ≠ start + tail + 1) →
        (crashThenRecover start blocks cache d crash cuts).block b = d.block b) ∧
      (blocks.length < crash → ∀ b ∈ blocks, (crashThenRecover start blocks cache d crash cuts).block b = cache b) ∧
      (crash ≤ blocks.length → ∀ b ∈ blocks, (crashThenRecover start blocks cache d crash cuts).block b = d.block b) := by
  by_cases after : blocks.length < crash
  · have new : Installed start blocks cache d (crashThenRecover start blocks cache d crash cuts) :=
      (commit_cut_committed outside clean after).recoverAfter outside cuts
    exact ⟨new.header, .inl new.home, fun b fresh unlogged => new.framed b ⟨fresh, unlogged⟩, fun _ => new.home,
      fun before => absurd after (by omega)⟩
  · obtain ⟨k, uncommitted⟩ : ∃ k, Logging start blocks cache d k _ :=
      commit_cut_uncommitted outside clean (Nat.le_of_not_lt after)
    have old : Logging start blocks cache d k (crashThenRecover start blocks cache d crash cuts) :=
      uncommitted.recoverAfter cuts
    exact ⟨old.header, .inr old.home, fun b fresh unlogged => old.framed b ⟨fresh, unlogged⟩,
      fun committed => absurd committed after, fun _ => old.home⟩

/-- Two blocks logged at 10 and 11 with the log from block 3, `commit` cut after
its committing `write_head`, and one recovery cut after one copy. -/
theorem commit_crash_atomic_after_head :
    (crashThenRecover 2 [10, 11] (fun b => b + 100) ⟨[], fun _ => 0⟩ 3 [1]).header = [] ∧
      ((∀ b ∈ [10, 11], (crashThenRecover 2 [10, 11] (fun b => b + 100) ⟨[], fun _ => 0⟩ 3 [1]).block b = b + 100) ∨
        (∀ b ∈ [10, 11], (crashThenRecover 2 [10, 11] (fun b => b + 100) ⟨[], fun _ => 0⟩ 3 [1]).block b = 0)) ∧
      (∀ b, b ∉ [10, 11] → (∀ tail < 2, b ≠ 2 + tail + 1) →
        (crashThenRecover 2 [10, 11] (fun b => b + 100) ⟨[], fun _ => 0⟩ 3 [1]).block b = 0) ∧
      (2 < 3 → ∀ b ∈ [10, 11], (crashThenRecover 2 [10, 11] (fun b => b + 100) ⟨[], fun _ => 0⟩ 3 [1]).block b =
        b + 100) ∧
      (3 ≤ 2 → ∀ b ∈ [10, 11], (crashThenRecover 2 [10, 11] (fun b => b + 100) ⟨[], fun _ => 0⟩ 3 [1]).block b = 0) :=
  commit_crash_atomic 2 [10, 11] (fun b => b + 100) ⟨[], fun _ => 0⟩ rfl (by decide) 3 [1]

end Xv6.Log
