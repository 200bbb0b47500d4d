import Xv6.Flat

/-! Path names (`kernel/fs.c`: `skipelem`, `namex`). A string is the list of
its bytes before the NUL, and a pointer into it is the suffix from there on;
`peek` reads the byte a pointer points at, `0` at the end. `skipelem` copies
the next element into the `DIRSIZ`-byte buffer `name` and returns the rest of
the path, and `namex` looks the elements up one after another, from the root
or from the current directory. What `namex` reads of the file system is a
`Tree`: each inode's type, and what `dirlookup` finds in a directory for a
name. `dirlookup` compares names with `strncmp(s, t, DIRSIZ)`, which reads a
name up to its NUL or its `DIRSIZ`th byte, so the tree is given that much of
the buffer (`nameOf`). The references `iget`, `idup` and `iput` take and drop
are the multiset `held`; inode locks are not modelled, and `iget` is taken
never to run out of table entries. -/
namespace Xv6.Fs

def DIRSIZ : Nat := 14
def ROOTINO : Nat := 1
def T_DIR : Nat := 1

/-- `'/'`. -/
def slash : UInt8 := 47

/-- `*p`: the byte a string pointer points at, the NUL at the end. -/
def peek : List UInt8 → UInt8
  | [] => 0
  | c :: _ => c

/-- `*path != '/' && *path != 0`: a byte of a path element. -/
def inElement (c : UInt8) : Bool := c != slash && c != 0

/-- `skipelem(path, name)`: the rest of the path, or `none` for the null
pointer when no element is left, and the name buffer after the call. `path`
and `name` are separate arrays, so the `memmove`s store the element's bytes
(`memmove_eq_write`). -/
def skipelem (path : List UInt8) (name : Nat → UInt8) : Option (List UInt8) × (Nat → UInt8) :=
  let path := path.dropWhile (· == slash)
  if peek path = 0 then (none, name)
  else
    let s := path
    let path := path.dropWhile inElement
    let len := s.length - path.length
    let name :=
      if len ≥ DIRSIZ then Flat.write name 0 (s.take DIRSIZ)
      else Function.update (Flat.write name 0 (s.take len)) len 0
    (some (path.dropWhile (· == slash)), name)

/-- The name a buffer holds as `strncmp(s, t, DIRSIZ)` reads it. -/
def nameOf (name : Nat → UInt8) : List UInt8 := (Flat.read name 0 DIRSIZ).takeWhile (· != 0)

/-- What `namex` reads of the file system. -/
structure Tree where
  /-- `ip->type`. -/
  type : Nat → Nat
  /-- `dirlookup(dp, name, 0)`: the inode number of the entry for the name, if any. -/
  dirlookup : Nat → List UInt8 → Option Nat

theorem length_dropWhile_le (p : UInt8 → Bool) (l : List UInt8) : (l.dropWhile p).length ≤ l.length :=
  (List.dropWhile_sublist p).length_le

theorem peek_dropWhile (path : List UInt8) : peek (path.dropWhile (· == slash)) ≠ slash := by
  induction path with
  | nil => decide
  | cons c path ih =>
    by_cases sep : c = slash
    · rwa [List.dropWhile_cons_of_pos (by simp [sep])]
    · rwa [List.dropWhile_cons_of_neg (by simpa using sep)]

/-- Each element `skipelem` copies out shortens the path, so `namex`'s loop ends. -/
theorem skipelem_shorter {path rest : List UInt8} {name name' : Nat → UInt8}
    (step : skipelem path name = (some rest, name')) : rest.length < path.length := by
  dsimp only [skipelem] at step
  split at step
  · cases step
  · rename_i present
    obtain ⟨found, -⟩ := Prod.mk.inj step
    rw [Option.some.injEq] at found
    subst found
    obtain ⟨c, body, split⟩ : ∃ c body, path.dropWhile (· == slash) = c :: body := by
      cases h : path.dropWhile (· == slash) with
      | nil => rw [h] at present; exact absurd rfl present
      | cons c body => exact ⟨c, body, rfl⟩
    have first : inElement c = true := by
      have notSlash := peek_dropWhile path
      rw [split] at present notSlash
      simpa [inElement, peek] using And.intro notSlash present
    rw [split, List.dropWhile_cons_of_pos first]
    calc _ ≤ (body.dropWhile inElement).length := length_dropWhile_le _ _
      _ ≤ body.length := length_dropWhile_le _ _
      _ < (c :: body).length := by simp
      _ = (path.dropWhile (· == slash)).length := by rw [split]
      _ ≤ path.length := length_dropWhile_le _ _

/-! ## The elements of a path -/

/-- The elements of a path: its maximal non-empty runs of bytes other than `/`. -/
def components (path : List UInt8) : List (List UInt8) := (path.splitOn slash).filter fun seg => !seg.isEmpty

@[simp]
theorem components_nil : components [] = [] := rfl

@[simp]
theorem components_slash (path : List UInt8) : components (slash :: path) = components path := by
  simp [components, List.splitOn_cons_eq_if_modifyHead]

theorem components_dropWhile (path : List UInt8) : components (path.dropWhile (· == slash)) = components path := by
  induction path with
  | nil => rfl
  | cons c path ih =>
    by_cases sep : c = slash
    · subst sep
      rw [List.dropWhile_cons_of_pos (by simp), ih, components_slash]
    · rw [List.dropWhile_cons_of_neg (by simpa using sep)]

/-- A non-empty run without `/`, up to a `/` or the end, is the first element. -/
theorem components_append {element after : List UInt8} (nonempty : element ≠ []) (noSlash : slash ∉ element)
    (stop : after = [] ∨ after.head? = some slash) : components (element ++ after) = element :: components after := by
  rcases stop with rfl | start
  · simp [components, List.splitOn_eq_singleton noSlash, nonempty]
  · obtain ⟨rest, rfl⟩ : ∃ rest, after = slash :: rest := by
      cases after with
      | nil => simp at start
      | cons c rest => simp only [List.head?_cons, Option.some.injEq] at start; exact ⟨rest, by rw [start]⟩
    rw [components_slash, components, List.splitOn_append_cons_self_of_not_mem noSlash,
      List.filter_cons_of_pos (by simpa using nonempty)]
    rfl

/-- Without NULs, a path that starts with neither `/` nor its end starts with
the element `skipelem` copies out: the run of `inElement` bytes. -/
theorem components_of_head {body rest : List UInt8} {c : UInt8} (nul : 0 ∉ body) (split : body = c :: rest)
    (notSlash : c ≠ slash) :
    components body = body.takeWhile inElement :: components (body.dropWhile inElement) := by
  have onBody : ∀ x ∈ body, x ≠ 0 := fun x member same => nul (same ▸ member)
  have first : inElement c = true := by
    simpa [inElement, notSlash] using onBody c (by simp [split])
  conv_lhs => rw [← List.takeWhile_append_dropWhile (p := inElement) (l := body)]
  apply components_append
  · simp [split, first]
  · intro member
    have := List.mem_takeWhile_imp member
    simp [inElement] at this
  · cases after : body.dropWhile inElement with
    | nil => exact Or.inl rfl
    | cons d more =>
      right
      have stopped : inElement d = false := by
        simpa [after] using List.head_dropWhile_not inElement (l := body) (by simp [after])
      have present : d ≠ 0 := onBody d ((List.dropWhile_subset inElement) (by simp [after]))
      simp only [inElement, Bool.and_eq_false_iff, bne_eq_false_iff_eq] at stopped
      simp only [List.head?_cons, Option.some.injEq]
      tauto

/-- A buffer holds `seg` as a directory name: its first `DIRSIZ` bytes, then a
NUL if it is shorter. -/
def Holds (seg : List UInt8) (name : Nat → UInt8) : Prop :=
  Flat.read name 0 (min seg.length DIRSIZ) = seg.take DIRSIZ ∧ (seg.length < DIRSIZ → name seg.length = 0)

/-- `strncmp` reads the name a buffer holds as the element cut at `DIRSIZ`. -/
theorem Holds.nameOf {seg : List UInt8} {name : Nat → UInt8} (holds : Holds seg name) (nul : 0 ∉ seg) :
    nameOf name = seg.take DIRSIZ := by
  have noNul : ∀ x ∈ seg.take DIRSIZ, (x != 0) = true := fun x member => by
    have : x ∈ seg := List.mem_of_mem_take member
    simpa using fun same : x = 0 => nul (same ▸ this)
  by_cases long : DIRSIZ ≤ seg.length
  · have copied := holds.1
    rw [Nat.min_eq_right long] at copied
    rw [Fs.nameOf, copied, List.takeWhile_eq_self_iff.mpr noNul]
  · have short : seg.length < DIRSIZ := by omega
    have copied := holds.1
    rw [Nat.min_eq_left short.le, List.take_of_length_le short.le] at copied
    have terminated : Flat.read name 0 DIRSIZ = seg ++ 0 :: Flat.read name (seg.length + 1) (DIRSIZ - seg.length - 1) := by
      rw [show DIRSIZ = seg.length + ((DIRSIZ - seg.length - 1) + 1) by omega, Flat.read_add, copied,
        Flat.read_succ, Nat.zero_add, holds.2 short]
      congr 3
      omega
    rw [List.take_of_length_le short.le] at noNul ⊢
    rw [Fs.nameOf, terminated, List.takeWhile_append_of_pos noNul, List.takeWhile_cons_of_neg (by simp),
      List.append_nil]

/-- One `skipelem` call with an element left: it returns the rest after the
element and its `/`s, which holds the other elements, and leaves the element
in the buffer. -/
theorem skipelem_cons {path seg : List UInt8} {segs : List (List UInt8)} (nul : 0 ∉ path)
    (first : components path = seg :: segs) (name : Nat → UInt8) :
    ∃ rest, (skipelem path name).1 = some rest ∧ components rest = segs ∧ 0 ∉ rest ∧ peek rest ≠ slash ∧
      0 ∉ seg ∧ Holds seg (skipelem path name).2 := by
  set body := path.dropWhile (· == slash) with hbody
  have nulBody : 0 ∉ body := fun member => nul (List.dropWhile_subset _ member)
  have listed : components body = seg :: segs := by rw [hbody, components_dropWhile, first]
  obtain ⟨c, more, split⟩ : ∃ c more, body = c :: more := by
    cases h : body with
    | nil => rw [h, components_nil] at listed; cases listed
    | cons c more => exact ⟨c, more, rfl⟩
  have notSlash : c ≠ slash := by simpa [← hbody, split, peek] using peek_dropWhile path
  have present : peek body ≠ 0 := fun zero => nulBody (by simp [split, peek] at zero ⊢; exact Or.inl zero.symm)
  rw [components_of_head nulBody split notSlash, List.cons.injEq] at listed
  obtain ⟨element, others⟩ := listed
  have len : body.length - (body.dropWhile inElement).length = seg.length := by
    have whole := congrArg List.length (List.takeWhile_append_dropWhile (p := inElement) (l := body))
    rw [List.length_append, element] at whole
    omega
  have prefix_ : ∀ k ≤ seg.length, body.take k = seg.take k := by
    intro k within
    rw [← element]
    conv_lhs => rw [← List.takeWhile_append_dropWhile (p := inElement) (l := body)]
    rw [List.take_append_of_le_length (by rw [element]; exact within)]
  refine ⟨(body.dropWhile inElement).dropWhile (· == slash), ?_, ?_, ?_, ?_, ?_, ?_⟩
  · simp only [skipelem, ← hbody, if_neg present]
  · rw [components_dropWhile, others]
  · exact fun member => nulBody (List.dropWhile_subset _ (List.dropWhile_subset _ member))
  · exact peek_dropWhile _
  · intro member
    rw [← element] at member
    simpa [inElement] using List.mem_takeWhile_imp member
  · simp only [skipelem, ← hbody, if_neg present, len]
    split
    · rename_i long
      rw [prefix_ DIRSIZ long]
      refine ⟨?_, fun short => absurd short (by omega)⟩
      have stored := Flat.read_write name 0 (seg.take DIRSIZ)
      rw [List.length_take, Nat.min_eq_left long] at stored
      rwa [Nat.min_eq_right long]
    · rename_i short
      rw [prefix_ seg.length le_rfl, List.take_length]
      constructor
      · rw [Nat.min_eq_left (by omega), List.take_of_length_le (by omega), Flat.read_update 0 (by omega),
          Flat.read_write]
      · intro _
        exact Function.update_self _ _ _

/-- `skipelem` with no element left returns the null pointer and leaves the buffer. -/
theorem skipelem_nil {path : List UInt8} (nul : 0 ∉ path) (empty : components path = []) (name : Nat → UInt8) :
    skipelem path name = (none, name) := by
  have absent : peek (path.dropWhile (· == slash)) = 0 := by
    cases split : path.dropWhile (· == slash) with
    | nil => rfl
    | cons c more =>
      have notSlash : c ≠ slash := by simpa [split, peek] using peek_dropWhile path
      have listed := components_of_head (fun member => nul (List.dropWhile_subset _ member)) split notSlash
      rw [components_dropWhile, empty] at listed
      cases listed
  simp only [skipelem, if_pos absent]

theorem skipelem_ended {path : List UInt8} {name name' : Nat → UInt8} (nul : 0 ∉ path)
    (step : skipelem path name = (none, name')) : components path = [] := by
  cases listed : components path with
  | nil => rfl
  | cons seg segs =>
    obtain ⟨rest, found, -⟩ := skipelem_cons nul listed name
    rw [step] at found
    cases found

/-- What `namex`'s loop learns from a `skipelem` call that found an element:
the element is the first of the path, the rest holds the others, and the
buffer holds the element as `dirlookup` reads it. -/
theorem skipelem_found {path rest : List UInt8} {name name' : Nat → UInt8} (nul : 0 ∉ path)
    (step : skipelem path name = (some rest, name')) :
    ∃ seg, components path = seg :: components rest ∧ 0 ∉ rest ∧ peek rest ≠ slash ∧ Holds seg name' ∧
      nameOf name' = seg.take DIRSIZ := by
  cases listed : components path with
  | nil =>
    rw [skipelem_nil nul listed name] at step
    cases step
  | cons seg segs =>
    obtain ⟨rest', found, others, nulRest, start, nulSeg, holds⟩ := skipelem_cons nul listed name
    rw [step, Option.some.injEq] at found
    subst found
    rw [step] at holds
    exact ⟨seg, by rw [others], nulRest, start, holds, holds.nameOf nulSeg⟩

theorem components_eq_nil_iff {rest : List UInt8} (nul : 0 ∉ rest) (start : peek rest ≠ slash) :
    components rest = [] ↔ peek rest = 0 := by
  cases rest with
  | nil => simp [peek]
  | cons c more =>
    have present : c ≠ 0 := fun zero => nul (zero ▸ List.mem_cons_self ..)
    rw [components_of_head nul rfl start]
    simp [peek, present]

/-- The calls `namex`'s loop makes: `skipelem` on each rest until it returns
the null pointer, with the rest and the buffer after each call. -/
def skipelemRun (path : List UInt8) (name : Nat → UInt8) : List (List UInt8 × (Nat → UInt8)) :=
  match step : skipelem path name with
  | (none, _) => []
  | (some rest, name') =>
    have := skipelem_shorter step
    (rest, name') :: skipelemRun rest name'
termination_by path.length

/-- Calling `skipelem` until it returns the null pointer copies out the
elements of the path, one per call, and no rest starts with `/`. -/
theorem skipelemRun_components (path : List UInt8) (name : Nat → UInt8) (nul : 0 ∉ path) :
    List.Forall₂ (fun seg call => Holds seg call.2 ∧ peek call.1 ≠ slash) (components path)
      (skipelemRun path name) := by
  fun_induction skipelemRun path name with
  | case1 path name name' step =>
    rw [skipelem_ended nul step]
    exact .nil
  | case2 path name rest name' step _ ih =>
    obtain ⟨seg, listed, nulRest, start, holds, -⟩ := skipelem_found nul step
    rw [listed]
    exact .cons ⟨holds, start⟩ (ih nulRest)

/-! ## Resolving the elements -/

namespace Tree

variable (t : Tree)

/-- Looking `names` up one after another from `ip`, each in a directory. -/
def resolve : Nat → List (List UInt8) → Option Nat
  | ip, [] => some ip
  | ip, name :: names => if t.type ip ≠ T_DIR then none else (t.dirlookup ip name).bind fun next => resolve next names

/-- The directory that all of `names` but the last lead to. -/
def parent (ip : Nat) (names : List (List UInt8)) : Option Nat :=
  if names = [] then none
  else (t.resolve ip names.dropLast).bind fun dir => if t.type dir = T_DIR then some dir else none

theorem parent_of_not_dir {ip : Nat} (notDir : t.type ip ≠ T_DIR) (names : List (List UInt8)) :
    t.parent ip names = none := by
  unfold parent
  split
  · rfl
  · cases names.dropLast with
    | nil => simp [resolve, notDir]
    | cons name more => simp [resolve, notDir]

theorem parent_single {ip : Nat} (dir : t.type ip = T_DIR) (name : List UInt8) :
    t.parent ip [name] = some ip := by
  simp [parent, resolve, dir]

theorem parent_cons {ip : Nat} (dir : t.type ip = T_DIR) (name : List UInt8) {names : List (List UInt8)}
    (more : names ≠ []) : t.parent ip (name :: names) = (t.dirlookup ip name).bind fun next => t.parent next names := by
  simp only [parent, List.cons_ne_nil, if_false, if_neg more, List.dropLast_cons_of_ne_nil more, resolve,
    dir, ne_eq, not_true_eq_false, Option.bind_assoc]

end Tree

variable (t : Tree) (nameiparent : Bool)

/-- The loop of `namex`, from the inode `ip` it holds a reference to. -/
def namexLoop (path : List UInt8) (ip : Nat) (name : Nat → UInt8) (held : Multiset Nat) :
    Option Nat × (Nat → UInt8) × Multiset Nat :=
  match step : skipelem path name with
  | (none, name) =>
    -- `iput(ip); return 0;` for `nameiparent`
    if nameiparent then (none, name, held.erase ip) else (some ip, name, held)
  | (some path', name) =>
    if t.type ip ≠ T_DIR then (none, name, held.erase ip)
    -- Stop one level early.
    else if nameiparent ∧ peek path' = 0 then (some ip, name, held)
    else
      match t.dirlookup ip (nameOf name) with
      | none => (none, name, held.erase ip)
      -- `dirlookup` takes a reference to `next` before `iunlockput(ip)` drops `ip`'s
      | some next =>
        have := skipelem_shorter step
        namexLoop path' next name ((next ::ₘ held).erase ip)
termination_by path.length

/-- `namex(path, nameiparent, name)`: the inode, the name buffer and the references held after. -/
def namex (cwd : Nat) (path : List UInt8) (name : Nat → UInt8) (held : Multiset Nat) :
    Option Nat × (Nat → UInt8) × Multiset Nat :=
  -- `iget(ROOTDEV, ROOTINO)` or `idup(myproc()->cwd)`
  let ip := if peek path = slash then ROOTINO else cwd
  namexLoop t nameiparent path ip name (ip ::ₘ held)

theorem erase_swap (ip next : Nat) (rest : Multiset Nat) : (next ::ₘ ip ::ₘ rest).erase ip = next ::ₘ rest := by
  rw [Multiset.cons_swap, Multiset.erase_cons_head]

/-- `namex(path, 0)`'s loop looks up the elements of the path, and ends
holding a reference to the inode it returns instead of to the one it started
from. -/
theorem namexLoop_resolve (path : List UInt8) (ip : Nat) (name : Nat → UInt8) (held : Multiset Nat) :
    ∀ rest, held = ip ::ₘ rest → 0 ∉ path →
      (namexLoop t false path ip name held).1 = t.resolve ip ((components path).map (List.take DIRSIZ)) ∧
        (namexLoop t false path ip name held).2.2 = (namexLoop t false path ip name held).1.elim rest (· ::ₘ rest) := by
  fun_induction namexLoop t false path ip name held with
  | case1 => contradiction
  | case2 path ip name held name' step =>
    intro rest holding nul
    rw [skipelem_ended nul step]
    exact ⟨rfl, holding⟩
  | case3 path ip name held path' name' step notDir =>
    intro rest holding nul
    obtain ⟨seg, listed, -⟩ := skipelem_found nul step
    rw [listed, List.map_cons, Tree.resolve, if_pos notDir, holding, Multiset.erase_cons_head]
    exact ⟨rfl, rfl⟩
  | case4 _ _ _ _ _ _ _ _ stop => exact absurd stop.1 (by decide)
  | case5 path ip name held path' name' step dir _ missing =>
    intro rest holding nul
    obtain ⟨seg, listed, -, -, -, named⟩ := skipelem_found nul step
    rw [listed, List.map_cons, Tree.resolve, if_neg dir, ← named, missing, holding, Multiset.erase_cons_head]
    exact ⟨rfl, rfl⟩
  | case6 path ip name held path' name' step dir _ next found _ ih =>
    intro rest holding nul
    obtain ⟨seg, listed, nulRest, -, -, named⟩ := skipelem_found nul step
    rw [listed, List.map_cons, Tree.resolve, if_neg dir, ← named, found, Option.bind_some]
    exact ih rest (by rw [holding, erase_swap]) nulRest

/-- `namex(path, 1)`'s loop stops at the directory that all elements but the
last lead to, with the last element in the buffer, and holds a reference to
the inode it returns instead of to the one it started from. -/
theorem namexLoop_parent (path : List UInt8) (ip : Nat) (name : Nat → UInt8) (held : Multiset Nat) :
    ∀ rest, held = ip ::ₘ rest → 0 ∉ path →
      (namexLoop t true path ip name held).1 = t.parent ip ((components path).map (List.take DIRSIZ)) ∧
        (∀ dir seg, (namexLoop t true path ip name held).1 = some dir → (components path).getLast? = some seg →
          Holds seg (namexLoop t true path ip name held).2.1) ∧
        (namexLoop t true path ip name held).2.2 = (namexLoop t true path ip name held).1.elim rest (· ::ₘ rest) := by
  fun_induction namexLoop t true path ip name held with
  | case1 path ip name held name' step =>
    intro rest holding nul
    rw [skipelem_ended nul step, holding, Multiset.erase_cons_head]
    exact ⟨rfl, (fun _ _ found => nomatch found), rfl⟩
  | case2 => contradiction
  | case3 path ip name held path' name' step notDir =>
    intro rest holding nul
    rw [t.parent_of_not_dir notDir, holding, Multiset.erase_cons_head]
    exact ⟨rfl, (fun _ _ found => nomatch found), rfl⟩
  | case4 path ip name held path' name' step dir stop =>
    intro rest holding nul
    obtain ⟨seg, listed, nulRest, start, holds, -⟩ := skipelem_found nul step
    rw [(components_eq_nil_iff nulRest start).mpr stop.2] at listed
    rw [listed, List.map_cons, List.map_nil, t.parent_single (not_not.mp dir), holding]
    refine ⟨rfl, fun _ last _ final => ?_, rfl⟩
    rw [List.getLast?_singleton, Option.some.injEq] at final
    exact final ▸ holds
  | case5 path ip name held path' name' step dir going missing =>
    intro rest holding nul
    obtain ⟨seg, listed, nulRest, start, -, named⟩ := skipelem_found nul step
    have more : components path' ≠ [] := fun empty =>
      going ⟨rfl, (components_eq_nil_iff nulRest start).mp empty⟩
    rw [listed, List.map_cons, t.parent_cons (not_not.mp dir) _ (by simpa using more), ← named, missing,
      holding, Multiset.erase_cons_head]
    exact ⟨rfl, (fun _ _ found => nomatch found), rfl⟩
  | case6 path ip name held path' name' step dir going next found _ ih =>
    intro rest holding nul
    obtain ⟨seg, listed, nulRest, start, -, named⟩ := skipelem_found nul step
    have more : components path' ≠ [] := fun empty =>
      going ⟨rfl, (components_eq_nil_iff nulRest start).mp empty⟩
    obtain ⟨inner, lastName, references⟩ := ih rest (by rw [holding, erase_swap]) nulRest
    rw [listed, List.map_cons, t.parent_cons (not_not.mp dir) _ (by simpa using more), ← named, found,
      Option.bind_some]
    refine ⟨inner, fun dir last returned final => lastName dir last returned ?_, references⟩
    obtain ⟨first, others, split⟩ := List.exists_cons_of_ne_nil more
    rwa [split, List.getLast?_cons_cons, ← split] at final

theorem namex_resolve (cwd : Nat) (path : List UInt8) (nul : 0 ∉ path) (name : Nat → UInt8) (held : Multiset Nat) :
    (namex t false cwd path name held).1 =
        t.resolve (if peek path = slash then ROOTINO else cwd) ((components path).map (List.take DIRSIZ)) ∧
      (namex t false cwd path name held).2.2 = (namex t false cwd path name held).1.elim held (· ::ₘ held) :=
  namexLoop_resolve t path _ name _ held rfl nul

theorem namex_parent (cwd : Nat) (path : List UInt8) (nul : 0 ∉ path) (name : Nat → UInt8) (held : Multiset Nat) :
    (namex t true cwd path name held).1 =
        t.parent (if peek path = slash then ROOTINO else cwd) ((components path).map (List.take DIRSIZ)) ∧
      (∀ dir seg, (namex t true cwd path name held).1 = some dir → (components path).getLast? = some seg →
        Holds seg (namex t true cwd path name held).2.1) ∧
      (namex t true cwd path name held).2.2 = (namex t true cwd path name held).1.elim held (· ::ₘ held) :=
  namexLoop_parent t path _ name _ held rfl nul

theorem namex_components (cwd : Nat) (path : List UInt8) (nul : 0 ∉ path) (name : Nat → UInt8)
    (held : Multiset Nat) :
    List.Forall₂ (fun seg call => Holds seg call.2 ∧ peek call.1 ≠ slash) (components path)
        (skipelemRun path name) ∧
      (namex t false cwd path name held).1 =
        t.resolve (if peek path = slash then ROOTINO else cwd) ((components path).map (List.take DIRSIZ)) ∧
      (namex t true cwd path name held).1 =
        t.parent (if peek path = slash then ROOTINO else cwd) ((components path).map (List.take DIRSIZ)) ∧
      (components path = [] → (namex t true cwd path name held).1 = none) ∧
      ∀ dir seg, (namex t true cwd path name held).1 = some dir → (components path).getLast? = some seg →
        Holds seg (namex t true cwd path name held).2.1 := by
  obtain ⟨parent, lastName, -⟩ := namex_parent t cwd path nul name held
  refine ⟨skipelemRun_components path name nul, (namex_resolve t cwd path nul name held).1, parent, ?_, lastName⟩
  intro empty
  rw [parent, empty, List.map_nil, Tree.parent, if_pos rfl]

/-- A root directory whose entry `a` is a directory holding the file `bb`. -/
def sampleTree : Tree where
  type ip := if ip = 3 then 2 else T_DIR
  dirlookup dir name := if dir = ROOTINO ∧ name = [97] then some 2 else if dir = 2 ∧ name = [98, 98] then some 3 else none

/-- `"///a//bb"`. -/
def samplePath : List UInt8 := [47, 47, 47, 97, 47, 47, 98, 98]

example : (namex sampleTree false 5 samplePath (fun _ => 0) 0).1 = some 3 := by decide +kernel

theorem namex_components_sample :
    0 ∉ samplePath ∧
      List.Forall₂ (fun seg call => Holds seg call.2 ∧ peek call.1 ≠ slash) (components samplePath)
          (skipelemRun samplePath fun _ => 0) ∧
        (namex sampleTree false 5 samplePath (fun _ => 0) 0).1 =
          sampleTree.resolve (if peek samplePath = slash then ROOTINO else 5)
            ((components samplePath).map (List.take DIRSIZ)) ∧
        (namex sampleTree true 5 samplePath (fun _ => 0) 0).1 =
          sampleTree.parent (if peek samplePath = slash then ROOTINO else 5)
            ((components samplePath).map (List.take DIRSIZ)) ∧
        (components samplePath = [] → (namex sampleTree true 5 samplePath (fun _ => 0) 0).1 = none) ∧
        ∀ dir seg, (namex sampleTree true 5 samplePath (fun _ => 0) 0).1 = some dir →
          (components samplePath).getLast? = some seg → Holds seg (namex sampleTree true 5 samplePath (fun _ => 0) 0).2.1 :=
  ⟨by decide, namex_components sampleTree 5 samplePath (by decide) (fun _ => 0) 0⟩

end Xv6.Fs
