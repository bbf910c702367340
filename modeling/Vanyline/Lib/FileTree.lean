import Vanyline.Lib.Pathname

/-!
# File trees with symbolic links, and the resolution of paths in them

A file tree is a finite list of locations with the node each of them holds.  A
location is the list of names from the root down, so it is free of `.`, `..`
and links: it is what `realpath` returns.  The fields of `FileTree` say that
the root is a directory, that every other node lies in a directory, and that
entry names and link targets are what a file system admits.

`walk` is the POSIX resolution of a list of segments from a directory:

* `.` and any later segment need a directory, `..` goes to its parent and stays
  at the root;
* a name leads to its node, and a link is replaced by its target, followed by
  the segments that are left.  Each link uses up one unit of the limit, and the
  walk fails when the limit is used up;
* a missing name fails, unless it is the last one.  Then the walk stops at the
  place where `open` with creation or `rename` would put a new entry.

`resolve` is `realpath`, and `designates` is the place that an operation on the
path touches, whether the entry is there or would be created.

The results are about a location that is walked again.  A location that exists
leads to itself (`walk_names`).  A location below a directory either stays below
it or passes a link, and `walk_through_link` and `walk_below` say which link
that is.  `resolve_dropsDots` says that a path that resolves still does without
some of its `.` segments; the converse fails, because `.` needs a directory.
-/

namespace Vanyline.Lib

/-- A place in a file tree: the names from the root down. -/
abbrev Loc := List Name

/-- What a location holds. -/
inductive Node
  | dir
  | file
  | link (target : Path)
  deriving DecidableEq

/-- A finite tree of directories, files and symbolic links. -/
structure FileTree where
  entries : List (Loc × Node)
  node_root : entries.lookup [] = some .dir
  parent_dir : ∀ e ∈ entries, e.1 ≠ [] → entries.lookup e.1.dropLast = some .dir
  names : ∀ e ∈ entries, ∀ n ∈ e.1, IsName n
  targets : ∀ e ∈ entries, e.2 ≠ .link ⟨false, []⟩

/-- Where a walk ends: at a node, or at a name that is missing in a directory. -/
inductive Outcome
  | found (l : Loc)
  | missing (dir : Loc) (name : Name)
  deriving DecidableEq

/-- The location that an outcome stands for. -/
def Outcome.loc : Outcome → Loc
  | .found l => l
  | .missing dir name => dir ++ [name]

namespace FileTree

variable (t : FileTree)

/-- The node at a location. -/
def node (l : Loc) : Option Node := t.entries.lookup l

/-- Is there a directory at this location? -/
def isDir (l : Loc) : Bool := t.node l = some .dir

/-- The walk, given what to do at a link: `follow` gets the directory the link
lies in, its target and the segments after it. -/
def walkWith (follow : Loc → Path → List Name → Option Outcome) :
    Loc → List Name → Option Outcome
  | cur, [] => some (.found cur)
  | cur, seg :: rest =>
    if seg = dot then
      if t.isDir cur then walkWith follow cur rest else none
    else if seg = dotdot then
      if t.isDir cur then walkWith follow cur.dropLast rest else none
    else match t.node (cur ++ [seg]) with
      | none => if t.isDir cur ∧ rest = [] then some (.missing cur seg) else none
      | some (.link target) => follow cur target rest
      | some _ => walkWith follow (cur ++ [seg]) rest

/-- The walk with at most `limit` links. -/
def walk : Nat → Loc → List Name → Option Outcome
  | 0 => t.walkWith fun _ _ _ => none
  | limit + 1 => t.walkWith fun cur target rest =>
      walk limit (if target.absolute then [] else cur) (target.segs ++ rest)

/-- What the walk does at a link in the directory `cur`. -/
def follow (limit : Nat) (cur : Loc) (target : Path) (rest : List Name) : Option Outcome :=
  match limit with
  | 0 => none
  | limit + 1 => t.walk limit (if target.absolute then [] else cur) (target.segs ++ rest)

/-- The walk of a path, from the root or from the working directory.  The empty
path resolves to nothing. -/
def lookup (limit : Nat) (cwd : Loc) (p : Path) : Option Outcome :=
  if p = ⟨false, []⟩ then none else t.walk limit (if p.absolute then [] else cwd) p.segs

/-- `realpath`: the location of an existing path, all links followed. -/
def resolve (limit : Nat) (cwd : Loc) (p : Path) : Option Loc :=
  match t.lookup limit cwd p with
  | some (.found l) => some l
  | _ => none

/-- The place that opening, creating, renaming or deleting the path touches,
all links followed. -/
def designates (limit : Nat) (cwd : Loc) (p : Path) : Option Loc :=
  (t.lookup limit cwd p).map Outcome.loc

/-! ## The tree -/

variable {t}

theorem mem_of_node {l : Loc} {nd : Node} (h : t.node l = some nd) : (l, nd) ∈ t.entries := by
  obtain ⟨l₁, l₂, heq, _⟩ := List.lookup_eq_some_iff.1 h
  rw [heq]
  simp

/-- A node below a location has that location as its directory. -/
theorem isDir_of_node {l : Loc} {n : Name} {nd : Node} (h : t.node (l ++ [n]) = some nd) :
    t.node l = some .dir := by
  have hdir := t.parent_dir _ (mem_of_node h) (by simp)
  rwa [List.dropLast_concat] at hdir

/-- Everything on the way to a node is a directory. -/
theorem isDir_of_append {l rest : Loc} {nd : Node} (hrest : rest ≠ [])
    (h : t.node (l ++ rest) = some nd) : t.node l = some .dir := by
  induction rest using List.reverseRecOn generalizing nd with
  | nil => exact absurd rfl hrest
  | append_singleton rest n ih =>
      rw [← List.append_assoc] at h
      have hdir := isDir_of_node h
      by_cases hnil : rest = []
      · simpa [hnil] using hdir
      · exact ih hnil hdir

/-- The names on the way to a node are entry names. -/
theorem isName_of_node {l : Loc} {nd : Node} (h : t.node l = some nd) : ∀ n ∈ l, IsName n :=
  t.names _ (mem_of_node h)

/-- The root has no parent but itself, and the parent of a directory is one. -/
theorem isDir_dropLast {l : Loc} (h : t.node l = some .dir) : t.node l.dropLast = some .dir := by
  rcases List.eq_nil_or_concat l with rfl | ⟨l', n, rfl⟩
  · exact h
  · rw [List.concat_eq_append] at h ⊢
    rw [List.dropLast_concat]
    exact isDir_of_node h

/-! ## One segment of a walk -/

@[simp] theorem follow_zero (cur : Loc) (target : Path) (rest : List Name) :
    t.follow 0 cur target rest = none := rfl

@[simp] theorem follow_succ (limit : Nat) (cur : Loc) (target : Path) (rest : List Name) :
    t.follow (limit + 1) cur target rest =
      t.walk limit (if target.absolute then [] else cur) (target.segs ++ rest) := rfl

theorem walk_nil (limit : Nat) (cur : Loc) : t.walk limit cur [] = some (.found cur) := by
  cases limit <;> rfl

/-- A walk with any limit, one name at a time. -/
theorem walk_cons {limit : Nat} {cur : Loc} {seg : Name} {rest : List Name}
    (hseg : Path.Plain seg) :
    t.walk limit cur (seg :: rest) =
      match t.node (cur ++ [seg]) with
      | none => if t.isDir cur ∧ rest = [] then some (.missing cur seg) else none
      | some (.link target) => t.follow limit cur target rest
      | some _ => t.walk limit (cur ++ [seg]) rest := by
  cases limit <;>
    simp only [walk, walkWith, follow, if_neg hseg.1, if_neg hseg.2]

theorem walk_dot {limit : Nat} {cur : Loc} {rest : List Name} :
    t.walk limit cur (dot :: rest) = if t.isDir cur then t.walk limit cur rest else none := by
  cases limit <;> simp [walk, walkWith]

theorem walk_dotdot {limit : Nat} {cur : Loc} {rest : List Name} :
    t.walk limit cur (dotdot :: rest) =
      if t.isDir cur then t.walk limit cur.dropLast rest else none := by
  cases limit <;> simp [walk, walkWith, dot, dotdot]

/-- Every segment is `.`, `..` or a name. -/
theorem segment_cases (seg : Name) : seg = dot ∨ seg = dotdot ∨ Path.Plain seg := by
  by_cases hdot : seg = dot
  · exact .inl hdot
  · by_cases hdd : seg = dotdot
    · exact .inr (.inl hdd)
    · exact .inr (.inr ⟨hdot, hdd⟩)

/-! ## Where a walk ends -/

/-- What a walk can stand on: a directory or a file, never a link. -/
def Solid (t : FileTree) (l : Loc) : Prop := t.node l = some .dir ∨ t.node l = some .file

theorem solid_base {cur : Loc} {target : Path} (h : t.node cur = some .dir) :
    t.Solid (if target.absolute then [] else cur) := by
  split_ifs
  · exact .inl t.node_root
  · exact .inl h

/-- A property of `found` that a followed link gives and every segment keeps.
The walk is by induction on its segments, for a fixed limit. -/
private theorem solid_of_walk_aux {limit : Nat}
    (hfollow : ∀ cur target rest l, t.node cur = some .dir →
      t.follow limit cur target rest = some (.found l) → t.Solid l)
    {cur : Loc} {segs : List Name} {l : Loc} (hcur : t.Solid cur)
    (h : t.walk limit cur segs = some (.found l)) : t.Solid l := by
  induction segs generalizing cur with
  | nil =>
      rw [walk_nil] at h
      simp only [Option.some.injEq, Outcome.found.injEq] at h
      exact h ▸ hcur
  | cons seg rest ih =>
      rcases segment_cases seg with rfl | rfl | hseg
      · rw [walk_dot] at h
        split_ifs at h
        exact ih hcur h
      · rw [walk_dotdot] at h
        split_ifs at h with hdir
        exact ih (.inl (isDir_dropLast (of_decide_eq_true hdir))) h
      · rw [walk_cons hseg] at h
        split at h
        · split_ifs at h
          simp at h
        · rename_i hnd
          exact hfollow _ _ _ _ (isDir_of_node hnd) h
        · rename_i nd hlink hnd
          refine ih ?_ h
          cases nd with
          | dir => exact .inl hnd
          | file => exact .inr hnd
          | link target => exact absurd rfl (hlink target)

/-- A walk that finds something stops at a directory or at a file. -/
theorem solid_of_walk {limit : Nat} {cur : Loc} {segs : List Name} {l : Loc}
    (hcur : t.Solid cur) (h : t.walk limit cur segs = some (.found l)) : t.Solid l := by
  induction limit generalizing cur segs l with
  | zero =>
      refine solid_of_walk_aux (fun cur target rest l _ hf => ?_) hcur h
      simp at hf
  | succ limit ih =>
      refine solid_of_walk_aux (fun cur target rest l hdir hf => ?_) hcur h
      rw [follow_succ] at hf
      exact ih (solid_base hdir) hf

/-- `realpath` succeeds when the walk of the path finds something. -/
theorem resolve_eq_some {limit : Nat} {cwd : Loc} {p : Path} {l : Loc} :
    t.resolve limit cwd p = some l ↔ p ≠ ⟨false, []⟩ ∧
      t.walk limit (if p.absolute then [] else cwd) p.segs = some (.found l) := by
  rw [resolve, lookup]
  by_cases hempty : p = ⟨false, []⟩
  · simp [hempty]
  · rw [if_neg hempty]
    constructor
    · intro h
      refine ⟨hempty, ?_⟩
      split at h
      · rename_i l' hwalk
        rw [hwalk, Option.some.inj h]
      · simp at h
    · rintro ⟨-, h⟩
      rw [h]

/-- Where `realpath` leads is no link. -/
theorem solid_of_resolve {limit : Nat} {cwd : Loc} {p : Path} {l : Loc}
    (hcwd : t.node cwd = some .dir) (h : t.resolve limit cwd p = some l) : t.Solid l :=
  solid_of_walk (solid_base hcwd) (resolve_eq_some.1 h).2

/-! ## A location walked again -/

/-- Walking down the names of an existing location leads to it. -/
theorem walk_names {limit : Nat} {cur names : Loc} (h : t.Solid (cur ++ names)) :
    t.walk limit cur names = some (.found (cur ++ names)) := by
  induction names generalizing cur with
  | nil => rw [walk_nil, List.append_nil]
  | cons n names ih =>
      have happ : cur ++ n :: names = cur ++ [n] ++ names := by simp
      have hplain : Path.Plain n := by
        rcases h with h | h <;> exact Path.plain_of_isName (isName_of_node h n (by simp))
      have hnode : t.node (cur ++ [n]) = some .dir ∨ t.node (cur ++ [n]) = some .file := by
        by_cases hnil : names = []
        · subst hnil
          exact h
        · rw [happ] at h
          rcases h with h | h <;> exact .inl (isDir_of_append hnil h)
      rw [happ] at h ⊢
      rcases hnode with hnode | hnode <;> rw [walk_cons hplain, hnode] <;> exact ih h

/-- A location that passes a link leads where the link leads. -/
theorem walk_through_link {limit : Nat} {cur pre post : Loc} {m : Name} {target : Path}
    (h : t.node (cur ++ pre ++ [m]) = some (.link target)) :
    t.walk limit cur (pre ++ m :: post) = t.follow limit (cur ++ pre) target post := by
  induction pre generalizing cur with
  | nil =>
      have hplain := Path.plain_of_isName (isName_of_node h m (by simp))
      rw [List.append_nil] at h ⊢
      rw [List.nil_append, walk_cons hplain, h]
  | cons n pre ih =>
      have hplain := Path.plain_of_isName (isName_of_node h n (by simp))
      have hassoc : cur ++ n :: pre = cur ++ [n] ++ pre := by simp
      rw [hassoc] at h ⊢
      have hdir : t.node (cur ++ [n]) = some .dir := by
        rw [List.append_assoc (cur ++ [n])] at h
        exact isDir_of_append (by simp) h
      rw [List.cons_append, walk_cons hplain, hdir]
      exact ih h

/-- A walk down some names stays below its start, or passes a link first. -/
theorem walk_below {limit : Nat} {cur names : Loc} {o : Outcome}
    (hplain : ∀ n ∈ names, Path.Plain n) (h : t.walk limit cur names = some o) :
    o.loc = cur ++ names ∨
      ∃ pre m post target, names = pre ++ m :: post ∧
        t.node (cur ++ pre ++ [m]) = some (.link target) ∧
        t.follow limit (cur ++ pre) target post = some o := by
  induction names generalizing cur with
  | nil =>
      rw [walk_nil] at h
      simp only [Option.some.injEq] at h
      exact .inl (by rw [← h, Outcome.loc, List.append_nil])
  | cons n names ih =>
      rw [walk_cons (hplain n (by simp))] at h
      split at h
      · split_ifs at h with hlast
        simp only [Option.some.injEq] at h
        left
        rw [← h, Outcome.loc, hlast.2]
      · rename_i target hnode
        right
        exact ⟨[], n, names, target, rfl, by simpa using hnode, by simpa using h⟩
      · rcases ih (fun m hm => hplain m (by simp [hm])) h with hloc |
          ⟨pre, m, post, target, heq, hnode, hfollow⟩
        · left
          simpa using hloc
        · right
          refine ⟨n :: pre, m, post, target, by simp [heq], ?_, ?_⟩
          · simpa using hnode
          · simpa using hfollow

/-- A path without a component is the root. -/
theorem resolve_root {limit : Nat} {cwd : Loc} {p : Path} (habs : p.absolute = true)
    (hsegs : p.trimDots.segs = []) : t.resolve limit cwd p = some [] := by
  have hdots : ∀ seg ∈ p.segs, seg = dot := by
    rcases p with ⟨abs, segs⟩
    simp only at habs
    subst habs
    simpa [Path.trimDots, List.rdropWhile_eq_nil_iff] using hsegs
  have hwalk : ∀ segs : List Name, (∀ seg ∈ segs, seg = dot) →
      t.walk limit [] segs = some (.found []) := by
    intro segs h
    induction segs with
    | nil => exact walk_nil _ _
    | cons seg segs ih =>
        rw [h seg (by simp), walk_dot, if_pos (by simp [isDir, node, t.node_root])]
        exact ih fun s hs => h s (by simp [hs])
  refine resolve_eq_some.2 ⟨fun h => by simp [h] at habs, ?_⟩
  rw [if_pos habs]
  exact hwalk _ hdots

/-! ## Segments `.` that can be dropped -/

/-- The second list is the first one without some of its `.` segments. -/
inductive DropsDots : List Name → List Name → Prop
  | nil : DropsDots [] []
  | keep {seg : Name} {segs segs' : List Name} (rest : DropsDots segs segs') :
      DropsDots (seg :: segs) (seg :: segs')
  | drop {segs segs' : List Name} (rest : DropsDots segs segs') :
      DropsDots (dot :: segs) segs'

theorem DropsDots.refl (segs : List Name) : DropsDots segs segs := by
  induction segs with
  | nil => exact .nil
  | cons seg segs ih => exact .keep ih

theorem DropsDots.append_left {segs segs' : List Name} (pre : List Name)
    (h : DropsDots segs segs') : DropsDots (pre ++ segs) (pre ++ segs') := by
  induction pre with
  | nil => exact h
  | cons seg pre ih => exact .keep ih

theorem dropsDots_filter (segs : List Name) : DropsDots segs (segs.filter (· ≠ dot)) := by
  induction segs with
  | nil => exact .nil
  | cons seg segs ih =>
      by_cases h : seg = dot
      · subst h
        simpa using DropsDots.drop ih
      · rw [List.filter_cons_of_pos (by simpa using h)]
        exact .keep ih

private theorem walk_dropsDots_aux {limit : Nat}
    (hfollow : ∀ cur target segs segs' l, DropsDots segs segs' →
      t.follow limit cur target segs = some (.found l) →
      t.follow limit cur target segs' = some (.found l))
    {cur : Loc} {segs segs' : List Name} {l : Loc} (hdots : DropsDots segs segs')
    (h : t.walk limit cur segs = some (.found l)) :
    t.walk limit cur segs' = some (.found l) := by
  induction hdots generalizing cur with
  | nil => exact h
  | drop rest ih =>
      rw [walk_dot] at h
      split_ifs at h
      exact ih h
  | @keep seg segs segs' rest ih =>
      rcases segment_cases seg with rfl | rfl | hseg
      · rw [walk_dot] at h ⊢
        split_ifs at h with hdir
        rw [if_pos hdir]
        exact ih h
      · rw [walk_dotdot] at h ⊢
        split_ifs at h with hdir
        rw [if_pos hdir]
        exact ih h
      · rw [walk_cons hseg] at h ⊢
        split at h
        · split_ifs at h
          simp at h
        · exact hfollow _ _ _ _ _ rest h
        · exact ih h

/-- A walk that finds something does so without some of the `.` segments. -/
theorem walk_dropsDots {limit : Nat} {cur : Loc} {segs segs' : List Name} {l : Loc}
    (hdots : DropsDots segs segs') (h : t.walk limit cur segs = some (.found l)) :
    t.walk limit cur segs' = some (.found l) := by
  induction limit generalizing cur segs segs' l with
  | zero =>
      refine walk_dropsDots_aux (fun cur target segs segs' l _ hf => ?_) hdots h
      simp at hf
  | succ limit ih =>
      refine walk_dropsDots_aux (fun cur target segs segs' l hd hf => ?_) hdots h
      rw [follow_succ] at hf ⊢
      exact ih (hd.append_left target.segs) hf

/-- A path that resolves does so without some of its `.` segments, unless
nothing is left of it. -/
theorem resolve_dropsDots {limit : Nat} {cwd : Loc} {abs : Bool} {segs segs' : List Name} {l : Loc}
    (hdots : DropsDots segs segs') (hne : abs = true ∨ segs' ≠ [])
    (h : t.resolve limit cwd ⟨abs, segs⟩ = some l) :
    t.resolve limit cwd ⟨abs, segs'⟩ = some l := by
  obtain ⟨-, hwalk⟩ := resolve_eq_some.1 h
  refine resolve_eq_some.2 ⟨?_, walk_dropsDots hdots hwalk⟩
  intro hempty
  simp only [Path.mk.injEq] at hempty
  rcases hne with habs | hsegs
  · simp [hempty.1] at habs
  · exact hsegs hempty.2

/-- Two paths with the same components that both resolve lead to the same
place. -/
theorem resolve_congr {limit : Nat} {cwd : Loc} {p q : Path} {l m : Loc}
    (hsame : p.sameAs q = true) (hp : t.resolve limit cwd p = some l)
    (hq : t.resolve limit cwd q = some m) : l = m := by
  obtain ⟨habs, hsegs⟩ := Path.filter_eq_of_sameAs hsame
  have hwp := walk_dropsDots (dropsDots_filter _) (resolve_eq_some.1 hp).2
  have hwq := walk_dropsDots (dropsDots_filter _) (resolve_eq_some.1 hq).2
  rw [habs, hsegs, hwq] at hwp
  simpa using hwp.symm

end FileTree

end Vanyline.Lib
