import Mathlib.Data.Char
import Mathlib.Data.List.Lex
import Mathlib.Data.List.Sort
import Vanyline.Lib.FileTree
import Vanyline.Lib.TextLines

/-!
# Listing a directory

`list_directory` shows what is below a directory, down to a depth, one entry on a line.  It stops
after a number of entries, which all levels count together.

* `FileSystem` is a finite tree with symbolic links; what `is_dir` and `read_dir` say of a path is
  what its links lead to.  The names in a directory come in any order, and paths are Unicode text.
* `preorder` are the entries of the directory unfolded to a depth, with no limit.
* `recurse_eq`: the recursion adds the entries of a directory to those that it has, and keeps the
  first ones (`Walk.of`).
* `listDirectory_eq`: the first entries are shown, and the notice says that the limit is reached.
-/

namespace Vanyline.Tools.ListDirectory

open Vanyline.Lib TextLines

def listMaxEntries : Nat := 200

/-! ## The file system -/

structure FileSystem where
  tree : FileTree
  maxLinks : Nat
  cwd : Loc
  readable : Loc → Bool
  /-- The names in a directory, in the order in which they are read. -/
  listed : Loc → List Name
  mem_listed : ∀ l name, name ∈ listed l ↔ (tree.node (l ++ [name])).isSome
  nodup_listed : ∀ l, (listed l).Nodup

namespace FileSystem

variable (fs : FileSystem)

def resolve (p : Path) : Option Loc := fs.tree.resolve fs.maxLinks fs.cwd p

/-- `Path::is_dir`, which follows links. -/
def isDir (p : Path) : Bool := (fs.resolve p).any fs.tree.isDir

/-- `read_dir`, which follows links and fails where there is no readable directory. -/
def readDir (p : Path) : Option (List Name) := do
  let l ← fs.resolve p
  if fs.tree.isDir l && fs.readable l then some (fs.listed l) else none

end FileSystem

/-! ## The code -/

structure Entry where
  level : Nat
  name : Name
  isDir : Bool

def Entry.line (e : Entry) : Text :=
  (List.replicate e.level "  ".toList).flatten ++ e.name ++ if e.isDir then ['/'] else []

/-- What the calls share. -/
structure Walk where
  output : List Text
  count : Nat
  limitReached : Bool

def Walk.push (w : Walk) (e : Entry) : Walk :=
  { w with output := w.output ++ [e.line], count := w.count + 1 }

def Walk.stop (w : Walk) : Walk := { w with limitReached := true }

/-- The path of an entry of a directory. -/
def child (dir : Path) (name : Name) : Path := dir.join ⟨false, [name]⟩

section Code

variable (fs : FileSystem) (maxEntries : Nat)

/-- The loop of `recurse` over the names of a directory, which goes down with `descend`. -/
def visit (descend : Path → Walk → Walk) (dir : Path) (level : Nat) : List Name → Walk → Walk
  | [], w => w
  | name :: more, w =>
    if w.limitReached then w
    else
      let full := child dir name
      let isDir := fs.isDir full
      let w := w.push ⟨level, name, isDir⟩
      if maxEntries ≤ w.count then w.stop
      else visit descend dir level more (if isDir then descend full w else w)

def recurse : Nat → Path → Nat → Walk → Walk
  | depth, dir, level, w =>
    if w.limitReached || maxEntries ≤ w.count then w
    else match fs.readDir dir with
      | none => w
      | some names =>
        let descend := match depth with
          | 0 => fun _ w => w
          | depth + 1 => fun full w => if 1 < depth + 1 then recurse depth full (level + 1) w else w
        visit fs maxEntries descend dir level (names.insertionSort (· ≤ ·)) w

def notice : Text :=
  "\n[truncated at ".toList ++ Nat.toDigits 10 listMaxEntries ++
    " entries — narrow the path or reduce depth]".toList

inductive ListError
  /-- `FileNotFound`, or `Io`. -/
  | noMetadata
  | notADirectory

def listDirectory (path : Text) (depth : Nat) : Except ListError Text :=
  let dir := Path.parse path
  match fs.resolve dir with
  | none => .error .noMetadata
  | some l =>
    if !fs.tree.isDir l then .error .notADirectory
    else
      let effectiveDepth := if depth = 0 then 1 else depth
      let w := recurse fs listMaxEntries effectiveDepth dir 0 ⟨[], 0, false⟩
      if w.output.isEmpty then .ok (path ++ " is empty".toList)
      else if w.limitReached then .ok (joinLines w.output ++ notice)
      else .ok (joinLines w.output)

end Code

/-! ## The entries -/

/-- The entries below a directory down to a depth, those of each directory in the order of their
names and with what is below them. -/
def preorder (fs : FileSystem) : Nat → Path → Nat → List Entry
  | 0, _, _ => []
  | depth + 1, dir, level =>
    (((fs.readDir dir).getD []).insertionSort (· ≤ ·)).flatMap fun name =>
      let full := child dir name
      ⟨level, name, fs.isDir full⟩ ::
        if fs.isDir full then preorder fs depth full (level + 1) else []

/-! ## The recursion -/

section Recursion

variable {fs : FileSystem} {maxEntries : Nat}

/-- What the calls share when they have come across these entries. -/
def Walk.of (maxEntries : Nat) (es : List Entry) : Walk where
  output := (es.take maxEntries).map Entry.line
  count := min es.length maxEntries
  limitReached := decide (maxEntries ≤ es.length)

/-- Beyond the limit nothing is added. -/
theorem of_append_of_le {es : List Entry} (h : maxEntries ≤ es.length) (more : List Entry) :
    Walk.of maxEntries (es ++ more) = Walk.of maxEntries es := by
  unfold Walk.of
  rw [List.take_append_of_le_length h, List.length_append, Nat.min_eq_right h,
    Nat.min_eq_right (by omega), decide_eq_true h, decide_eq_true (by omega)]

/-- Below the limit one more entry is added. -/
theorem push_of {es : List Entry} (h : es.length + 1 < maxEntries) (e : Entry) :
    (Walk.of maxEntries es).push e = Walk.of maxEntries (es ++ [e]) := by
  unfold Walk.of Walk.push
  simp only [List.length_append, List.length_singleton, Walk.mk.injEq]
  refine ⟨?_, by omega, ?_⟩
  · rw [List.take_of_length_le (by omega), List.take_of_length_le (by simp; omega),
      List.map_append]
    rfl
  · rw [decide_eq_false (by omega), decide_eq_false (by omega)]

/-- The last entry reaches the limit. -/
theorem push_of_eq {es : List Entry} (h : es.length + 1 = maxEntries) (e : Entry) :
    ((Walk.of maxEntries es).push e).stop = Walk.of maxEntries (es ++ [e]) := by
  unfold Walk.of Walk.push Walk.stop
  simp only [List.length_append, List.length_singleton, Walk.mk.injEq]
  refine ⟨?_, by omega, ?_⟩
  · rw [List.take_of_length_le (by omega), List.take_of_length_le (by simp; omega),
      List.map_append]
    rfl
  · rw [decide_eq_true (by omega)]

/-- The loop adds the entries of the names, with what is below each of them. -/
theorem visit_eq {descend : Path → Walk → Walk} {below : Path → List Entry}
    (hdescend : ∀ full es, descend full (Walk.of maxEntries es) =
      Walk.of maxEntries (es ++ below full)) (dir : Path) (level : Nat) (names : List Name)
    (es : List Entry) :
    visit fs maxEntries descend dir level names (Walk.of maxEntries es) =
      Walk.of maxEntries (es ++ names.flatMap fun name =>
        ⟨level, name, fs.isDir (child dir name)⟩ ::
          if fs.isDir (child dir name) then below (child dir name) else []) := by
  induction names generalizing es with
  | nil => rw [visit, List.flatMap_nil, List.append_nil]
  | cons name more ih =>
      rw [visit]
      by_cases hfull : maxEntries ≤ es.length
      · rw [if_pos (show (Walk.of maxEntries es).limitReached = true from decide_eq_true hfull),
          of_append_of_le hfull]
      · rw [if_neg (show ¬ (Walk.of maxEntries es).limitReached = true by
          simpa [Walk.of] using hfull), List.flatMap_cons, List.cons_append]
        have hcount : ((Walk.of maxEntries es).push
            ⟨level, name, fs.isDir (child dir name)⟩).count = es.length + 1 := by
          simp only [Walk.push, Walk.of]
          omega
        dsimp only
        rw [hcount]
        by_cases hlimit : maxEntries ≤ es.length + 1
        · rw [if_pos hlimit, push_of_eq (by omega), List.append_cons es _ (_ ++ _)]
          exact (of_append_of_le (by simpa using hlimit) _).symm
        · rw [if_neg hlimit, push_of (by omega), List.append_cons es _ (_ ++ _)]
          split_ifs
          · rw [hdescend, ih, List.append_assoc (es ++ _)]
          · rw [ih, List.nil_append]

/-- A call adds the entries of its directory, if what it goes down with does. -/
theorem visit_readDir {descend : Path → Walk → Walk} {depth level : Nat} {dir : Path}
    (hdescend : ∀ full es, descend full (Walk.of maxEntries es) =
      Walk.of maxEntries (es ++ preorder fs depth full (level + 1))) (es : List Entry) :
    (if (Walk.of maxEntries es).limitReached || maxEntries ≤ (Walk.of maxEntries es).count then
        Walk.of maxEntries es
      else match fs.readDir dir with
        | none => Walk.of maxEntries es
        | some names => visit fs maxEntries descend dir level (names.insertionSort (· ≤ ·))
            (Walk.of maxEntries es)) =
      Walk.of maxEntries (es ++ preorder fs (depth + 1) dir level) := by
  by_cases hfull : maxEntries ≤ es.length
  · rw [if_pos (by simp [Walk.of, hfull]), of_append_of_le hfull]
  · rw [if_neg (by simpa [Walk.of] using hfull), preorder]
    cases fs.readDir dir with
    | none =>
        show Walk.of maxEntries es = Walk.of maxEntries (es ++ [])
        rw [List.append_nil]
    | some names => exact visit_eq hdescend dir level _ es

/-- The recursion adds the entries of a directory. -/
theorem recurse_eq (depth : Nat) (dir : Path) (level : Nat) (es : List Entry) :
    recurse fs maxEntries (depth + 1) dir level (Walk.of maxEntries es) =
      Walk.of maxEntries (es ++ preorder fs (depth + 1) dir level) := by
  induction depth generalizing dir level es with
  | zero =>
      rw [recurse]
      refine visit_readDir (fun full es => ?_) es
      rw [if_neg (Nat.lt_irrefl 1), preorder, List.append_nil]
  | succ depth ih =>
      rw [recurse]
      refine visit_readDir (fun full es => ?_) es
      rw [if_pos (by omega)]
      exact ih full (level + 1) es

end Recursion

/-! ## The listing -/

/-- The text of a listing. -/
def shown (path : Text) (es : List Entry) (truncated : Bool) : Text :=
  if es.isEmpty then path ++ " is empty".toList
  else joinLines (es.map Entry.line) ++ if truncated then notice else []

/-- The first entries of the directory are shown, with or without the notice. -/
def ShowsFirst (fs : FileSystem) (path : Text) (depth : Nat) (truncated : Bool) : Prop :=
  listDirectory fs path depth =
    .ok (shown path ((preorder fs (max depth 1) (Path.parse path) 0).take listMaxEntries) truncated)

/-- The first entries are shown, and the notice when they reach the limit. -/
theorem listDirectory_eq {fs : FileSystem} {path : Text}
    (hread : (fs.readDir (Path.parse path)).isSome) (depth : Nat) :
    ShowsFirst fs path depth
      (decide (listMaxEntries ≤ (preorder fs (max depth 1) (Path.parse path) 0).length)) := by
  obtain ⟨l, hl, hdir⟩ : ∃ l, fs.resolve (Path.parse path) = some l ∧ fs.tree.isDir l = true := by
    unfold FileSystem.readDir at hread
    cases hl : fs.resolve (Path.parse path) with
    | none =>
        rw [hl] at hread
        cases hread
    | some l =>
        refine ⟨l, rfl, ?_⟩
        rw [hl, Option.bind_eq_bind, Option.bind_some] at hread
        split_ifs at hread with hdir
        · exact (Bool.and_eq_true_iff.1 hdir).1
        · cases hread
  obtain ⟨d, hd⟩ : ∃ d, max depth 1 = d + 1 := ⟨max depth 1 - 1, by omega⟩
  have heffective : (if depth = 0 then 1 else depth) = d + 1 := by
    split_ifs <;> omega
  have hwalk : recurse fs listMaxEntries (d + 1) (Path.parse path) 0 ⟨[], 0, false⟩ = _ :=
    recurse_eq d (Path.parse path) 0 []
  unfold ShowsFirst listDirectory shown
  simp only [hl, hdir, heffective, hd, hwalk, Walk.of, List.nil_append, Bool.not_true,
    Bool.false_eq_true, if_false, List.isEmpty_map, decide_eq_true_eq]
  split_ifs
  · rfl
  · rfl
  · rw [List.append_nil]

/-! ## A directory at the limit -/

section Crowded

/-- The names of `n` files. -/
def fileNames (n : Nat) : List Name := (List.range n).map fun i => List.replicate (i + 1) 'a'

theorem isName_of_mem_fileNames {n : Nat} {name : Name} (h : name ∈ fileNames n) : IsName name := by
  obtain ⟨i, -, rfl⟩ := List.mem_map.1 h
  have ha : 'a' ∈ List.replicate (i + 1) 'a' := List.mem_replicate.2 ⟨Nat.succ_ne_zero i, rfl⟩
  refine ⟨List.ne_nil_of_mem ha, ?_, ?_, ?_⟩
  · intro hslash
    cases (List.mem_replicate.1 hslash).2
  · intro hdot
    exact absurd (hdot ▸ ha) (by decide)
  · intro hdotdot
    exact absurd (hdotdot ▸ ha) (by decide)

theorem nodup_fileNames (n : Nat) : (fileNames n).Nodup := by
  refine List.nodup_range.map ?_
  intro i j h
  have hlength := congrArg List.length h
  simpa using hlength

def crowdedEntries (n : Nat) : List (Loc × Node) :=
  ([], .dir) :: (fileNames n).map fun name => ([name], .file)

theorem lookup_files (names : List Name) (l : Loc) :
    (names.map fun name => (([name], .file) : Loc × Node)).lookup l =
      if ∃ name ∈ names, l = [name] then some .file else none := by
  induction names with
  | nil => simp
  | cons name names ih =>
      rw [List.map_cons, List.lookup_cons, ih]
      by_cases hl : l = [name]
      · simp [hl]
      · rw [beq_false_of_ne hl]
        simp [hl]

theorem lookup_crowdedEntries (n : Nat) (l : Loc) : (crowdedEntries n).lookup l =
    if l = [] then some .dir
    else if ∃ name ∈ fileNames n, l = [name] then some .file else none := by
  rw [crowdedEntries, List.lookup_cons, lookup_files]
  by_cases hl : l = []
  · simp [hl]
  · rw [beq_false_of_ne hl, if_neg hl]

/-- A root directory with `n` files. -/
def crowded (n : Nat) : FileSystem where
  tree :=
    { entries := crowdedEntries n
      node_root := by rw [lookup_crowdedEntries, if_pos rfl]
      parent_dir := by
        intro e he hne
        rcases List.mem_cons.1 he with rfl | he
        · exact absurd rfl hne
        · obtain ⟨name, -, rfl⟩ := List.mem_map.1 he
          rw [lookup_crowdedEntries]
          rfl
      names := by
        intro e he name hname
        rcases List.mem_cons.1 he with rfl | he
        · cases hname
        · obtain ⟨name', hname', rfl⟩ := List.mem_map.1 he
          rw [List.mem_singleton.1 hname]
          exact isName_of_mem_fileNames hname'
      targets := by
        intro e he
        rcases List.mem_cons.1 he with rfl | he
        · nofun
        · obtain ⟨name, -, rfl⟩ := List.mem_map.1 he
          nofun }
  maxLinks := 40
  cwd := []
  readable := fun _ => true
  listed := fun l => if l = [] then fileNames n else []
  mem_listed := by
    intro l name
    show _ ↔ ((crowdedEntries n).lookup (l ++ [name])).isSome
    rw [lookup_crowdedEntries, if_neg (List.append_ne_nil_of_right_ne_nil _ (List.cons_ne_nil _ _))]
    by_cases hl : l = []
    · simp [hl]
    · have hnone : ¬ ∃ name' ∈ fileNames n, l ++ [name] = [name'] := by
        intro h
        obtain ⟨name', -, heq⟩ := h
        exact hl (List.append_eq_singleton_iff.1 heq |>.elim And.left fun h => absurd h.2 (by simp))
      rw [if_neg hl, if_neg hnone]
      simp
  nodup_listed := by
    intro l
    split_ifs
    · exact nodup_fileNames n
    · exact List.nodup_nil

theorem readDir_crowded (n : Nat) :
    (crowded n).readDir (Path.parse ['/']) = some (fileNames n) := by
  have hparse : Path.parse ['/'] = ⟨true, []⟩ := by decide
  rw [hparse]
  rfl

/-- One level has the entries of the directory. -/
theorem length_preorder_one {fs : FileSystem} {dir : Path} {names : List Name}
    (h : fs.readDir dir = some names) (level : Nat) :
    (preorder fs 1 dir level).length = names.length := by
  have hone : ∀ names : List Name, (names.flatMap fun name =>
      (⟨level, name, fs.isDir (child dir name)⟩ :: if fs.isDir (child dir name) then
        preorder fs 0 (child dir name) (level + 1) else [] : List Entry)).length =
          names.length := by
    intro names
    induction names with
    | nil => rfl
    | cons name names ih =>
        rw [List.flatMap_cons, List.length_append, ih, preorder, ite_self]
        simp [Nat.add_comm]
  rw [preorder, h]
  exact (hone _).trans (List.length_insertionSort _ names)

theorem notice_ne_nil : notice ≠ [] := by
  have hfirst : "\n[truncated at ".toList ≠ [] := by decide
  unfold notice
  exact List.append_ne_nil_of_left_ne_nil (List.append_ne_nil_of_left_ne_nil hfirst _) _

/-- With as many entries as the limit nothing is left out, and the notice is there. -/
theorem notice_at_limit :
    ¬ ∃ truncated, ShowsFirst (crowded listMaxEntries) ['/'] 0 truncated ∧
      (truncated = true ↔ listMaxEntries <
        (preorder (crowded listMaxEntries) (max 0 1) (Path.parse ['/']) 0).length) := by
  intro h
  obtain ⟨truncated, hshows, hiff⟩ := h
  have hread := readDir_crowded listMaxEntries
  have hlength : (preorder (crowded listMaxEntries) (max 0 1) (Path.parse ['/']) 0).length =
      listMaxEntries := by
    rw [Nat.zero_max, length_preorder_one hread, fileNames, List.length_map, List.length_range]
  have hnotice := listDirectory_eq (by rw [hread]; rfl) 0
  rw [hlength] at hiff hnotice
  rw [Bool.eq_false_iff.2 fun h => Nat.lt_irrefl _ (hiff.1 h)] at hshows
  rw [ShowsFirst, hshows, decide_eq_true (Nat.le_refl listMaxEntries)] at hnotice
  have hne : ((preorder (crowded listMaxEntries) (max 0 1) (Path.parse ['/']) 0).take
      listMaxEntries).isEmpty = false := by
    rw [List.isEmpty_eq_false_iff, ← List.length_pos_iff, List.length_take, hlength, Nat.min_self]
    exact Nat.succ_pos 199
  have htext := Except.ok.inj hnotice
  simp only [shown, hne, Bool.false_eq_true, if_false, if_true, List.append_nil] at htext
  exact notice_ne_nil (List.append_right_eq_self.1 htext.symm)

/-- The first entries of the preorder are shown, and the notice if and only if they reach the
limit. -/
theorem shows_first (fs : FileSystem) (path : Text) (depth : Nat)
    (hread : (fs.readDir (Path.parse path)).isSome) :
    ∃ truncated, ShowsFirst fs path depth truncated ∧
      (truncated = true ↔
        listMaxEntries ≤ (preorder fs (max depth 1) (Path.parse path) 0).length) :=
  ⟨_, listDirectory_eq hread depth, decide_eq_true_iff⟩

theorem shows_first_crowded :
    ∃ truncated, ShowsFirst (crowded 3) ['/'] 2 truncated ∧
      (truncated = true ↔
        listMaxEntries ≤ (preorder (crowded 3) (max 2 1) (Path.parse ['/']) 0).length) :=
  shows_first (crowded 3) ['/'] 2 (by rw [readDir_crowded]; rfl)

end Crowded

end Vanyline.Tools.ListDirectory
