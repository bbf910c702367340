import Mathlib.Data.List.DropRight
import Mathlib.Data.List.Infix

/-!
# Pathnames and their components

A pathname is kept as the list of its segments between slashes, together with
the flag that says whether it starts at the root.  Repeated slashes are dropped
by `Path.parse`, and a trailing slash is read as a last segment `.`, which is
how POSIX resolves it.  The segments `.` and `..` are kept: they matter to the
resolution of a path in a file tree, which is in `Vanyline.Lib.FileTree`.

The rest of the file is the lexical part of Rust's `std::path` on Unix:

* `Path.components` drops every `.` except the first segment of a relative
  path, and keeps `..` as a component of its own;
* `Path.parent` removes the last component together with the `.` segments
  around it, so `parent "a/b/."` is `a`;
* `Path.join`, `Path.startsWith` and `Path.stripPrefix` work on components.
-/

namespace Vanyline.Lib

/-- A path segment, or the name of a directory entry. -/
abbrev Name := List Char

/-- The segment `.`. -/
def dot : Name := ['.']

/-- The segment `..`. -/
def dotdot : Name := ['.', '.']

/-- What the name of a directory entry can be. -/
def IsName (n : Name) : Prop := n ≠ [] ∧ '/' ∉ n ∧ n ≠ dot ∧ n ≠ dotdot

instance (n : Name) : Decidable (IsName n) :=
  inferInstanceAs (Decidable (_ ∧ _))

/-- A pathname: its segments, and whether it starts with a slash. -/
structure Path where
  absolute : Bool
  segs : List Name
  deriving DecidableEq

/-- The components of `std::path`, without the Windows prefixes. -/
inductive Component
  | rootDir
  | curDir
  | parentDir
  | normal (name : Name)
  deriving DecidableEq

namespace Path

/-- The nonempty segments of a pathname. -/
def names (s : List Char) : List Name := (s.splitOn '/').filter (· ≠ [])

/-- Read a pathname.  Empty segments vanish, and a trailing slash after a
segment reads as `.`. -/
def parse (s : List Char) : Path where
  absolute := s.head? = some '/'
  segs := if s.getLast? = some '/' ∧ names s ≠ [] then names s ++ [dot] else names s

/-- The absolute path whose segments are the names of a location. -/
def ofLoc (l : List Name) : Path := ⟨true, l⟩

/-- The component that a segment stands for, if any. -/
def component? (seg : Name) : Option Component :=
  if seg = dot then none else if seg = dotdot then some .parentDir else some (.normal seg)

/-- `Path::components`. -/
def components (p : Path) : List Component :=
  (if p.absolute then [.rootDir] else if p.segs.head? = some dot then [.curDir] else []) ++
    p.segs.filterMap component?

/-- Drop the trailing `.` segments that `components` does not see.  The first
segment of a relative path is one that it does see. -/
def trimDots (p : Path) : Path :=
  match p.absolute, p.segs with
  | false, seg :: rest => ⟨false, seg :: rest.rdropWhile (· = dot)⟩
  | abs, segs => ⟨abs, segs.rdropWhile (· = dot)⟩

/-- `Path::parent`: the path without its last component, `none` for the root
and for the empty path. -/
def parent (p : Path) : Option Path :=
  match p.trimDots.segs with
  | [] => none
  | segs => some (trimDots ⟨p.absolute, segs.dropLast⟩)

/-- `Path::join` with a relative path. -/
def join (p q : Path) : Path := ⟨p.absolute, p.segs ++ q.segs⟩

/-- `Path::starts_with`: by components, not by characters. -/
def startsWith (p base : Path) : Bool := base.components.isPrefixOf p.components

/-- `Path::strip_prefix`, as the components that are left. -/
def stripPrefix (p base : Path) : Option (List Component) :=
  if p.startsWith base then some (p.components.drop base.components.length) else none

/-- Equality of `std::path` paths is equality of their components. -/
def sameAs (p q : Path) : Bool := p.components == q.components

/-- The path, its parent, the parent of that, and so on, for at most `fuel`
parents. -/
def ancestorsFrom : Nat → Path → List Path
  | 0, p => [p]
  | fuel + 1, p => p :: (p.parent.map (ancestorsFrom fuel)).getD []

/-- `Path::ancestors`.  Every parent has fewer segments, so there are at most as
many parents as segments. -/
def ancestors (p : Path) : List Path := ancestorsFrom p.segs.length p

/-! ## Reading a pathname -/

/-- A trailing slash adds no nonempty segment. -/
theorem names_concat_slash (s : List Char) : names (s ++ ['/']) = names s := by
  rw [names, List.splitOn_append_cons_self, List.filter_append]
  simp [names]

/-- The segments on both sides of a slash. -/
theorem names_append_slash (s t : List Char) : names (s ++ '/' :: t) = names s ++ names t := by
  rw [names, List.splitOn_append_cons_self, List.filter_append]
  rfl

/-- Removing the trailing slashes removes no nonempty segment. -/
theorem names_trim (s : List Char) : names (s.rdropWhile (· = '/')) = names s := by
  induction s using List.reverseRecOn with
  | nil => rfl
  | append_singleton s c ih =>
      by_cases h : c = '/'
      · subst h
        rw [List.rdropWhile_concat_pos _ _ _ (by simp), ih, names_concat_slash]
      · rw [List.rdropWhile_concat_neg _ _ _ (by simpa using h)]

/-- Without its trailing slashes, a pathname is its nonempty segments. -/
theorem parse_trim {s : List Char} (hne : s.rdropWhile (· = '/') ≠ []) :
    parse (s.rdropWhile (· = '/')) = ⟨(parse s).absolute, names s⟩ := by
  have hlast : (s.rdropWhile (· = '/')).getLast? ≠ some '/' := by
    intro h
    have hslash := List.rdropWhile_last_not (fun c => decide (c = '/')) s hne
    rw [List.getLast?_eq_some_getLast hne, Option.some.injEq] at h
    simp [h] at hslash
  have hhead : (s.rdropWhile (· = '/')).head? = s.head? := by
    obtain ⟨rest, hrest⟩ := List.rdropWhile_prefix (fun c => decide (c = '/')) s
    conv_rhs => rw [← hrest]
    rw [List.head?_append_of_ne_nil _ hne]
  simp [parse, hlast, hhead, names_trim]

/-- A pathname of slashes has no segment. -/
theorem parse_segs_of_trim_nil {s : List Char} (h : s.rdropWhile (· = '/') = []) :
    (parse s).segs = [] := by
  have hnames : names s = [] := by
    rw [← names_trim, h]
    rfl
  simp [parse, hnames]

/-- The segments of a pathname are its nonempty ones, and maybe a last `.`. -/
theorem parse_segs (s : List Char) :
    (parse s).segs = names s ∨ (parse s).segs = names s ++ [dot] := by
  rw [parse]
  split_ifs <;> simp

/-! ## Facts about components -/

/-- The components of a text that begins with a slash. -/
theorem components_parse {s : List Char} (h : s.head? = some '/') :
    (parse s).components = .rootDir :: (names s).filterMap component? := by
  have hsegs : (parse s).segs.filterMap component? = (names s).filterMap component? := by
    rcases parse_segs s with hsegs | hsegs
    · rw [hsegs]
    · rw [hsegs, List.filterMap_append]
      exact List.append_nil _
  unfold components
  rw [hsegs, if_pos (show (parse s).absolute = true from decide_eq_true h)]
  rfl

/-- What follows a path is what its text goes on with. -/
theorem stripPrefix_parse {s t : List Char} {rest : List Name} (hs : s.head? = some '/')
    (ht : t.head? = some '/') (h : names t = names s ++ rest) :
    (parse t).stripPrefix (parse s) = some (rest.filterMap component?) := by
  have hcomponents : (parse t).components =
      (parse s).components ++ rest.filterMap component? := by
    rw [components_parse hs, components_parse ht, h, List.filterMap_append, List.cons_append]
  unfold stripPrefix startsWith
  rw [hcomponents, if_pos (List.isPrefixOf_iff_prefix.2 (List.prefix_append ..)),
    List.drop_left]

/-- A segment that is a component of its own. -/
def Plain (n : Name) : Prop := n ≠ dot ∧ n ≠ dotdot

theorem plain_of_isName {n : Name} (h : IsName n) : Plain n := h.2.2

theorem component?_eq_normal {seg : Name} (h : Plain seg) :
    component? seg = some (.normal seg) := by
  rw [component?, if_neg h.1, if_neg h.2]

/-- The components of a location are its names. -/
theorem components_ofLoc {l : List Name} (h : ∀ n ∈ l, Plain n) :
    (ofLoc l).components = .rootDir :: l.map .normal := by
  have hmap : l.filterMap component? = l.map .normal := by
    induction l with
    | nil => rfl
    | cons n l ih =>
        rw [List.filterMap_cons, component?_eq_normal (h n (by simp)),
          ih (fun m hm => h m (by simp [hm]))]
        rfl
  simp [components, ofLoc, hmap]

/-- On locations, `starts_with` is the prefix relation. -/
theorem startsWith_ofLoc {l root : List Name} (hl : ∀ n ∈ l, Plain n)
    (hroot : ∀ n ∈ root, Plain n) :
    (ofLoc l).startsWith (ofLoc root) = true ↔ root <+: l := by
  rw [startsWith, components_ofLoc hl, components_ofLoc hroot, List.isPrefixOf_iff_prefix,
    List.cons_prefix_cons]
  simp only [true_and]
  exact List.prefix_map_iff_of_injective fun _ _ h => Component.normal.inj h

/-- A segment is never the component that a path starts with. -/
private theorem lead_notMem_filterMap (segs : List Name) :
    .rootDir ∉ segs.filterMap component? ∧ .curDir ∉ segs.filterMap component? := by
  constructor <;> intro h <;> obtain ⟨seg, _, hcomp⟩ := List.mem_filterMap.1 h <;>
    rw [component?] at hcomp <;> split_ifs at hcomp <;> simp at hcomp

/-- Only an absolute path starts with an absolute one. -/
theorem absolute_of_startsWith_ofLoc {p : Path} {root : List Name}
    (h : p.startsWith (ofLoc root) = true) : p.absolute = true := by
  rw [startsWith, List.isPrefixOf_iff_prefix, components, ofLoc, if_pos rfl,
    List.singleton_append] at h
  obtain ⟨rest, hrest⟩ := h
  have hmem : .rootDir ∈ p.components := by
    rw [← hrest]
    simp
  rw [components, List.mem_append] at hmem
  rcases hmem with hmem | hmem
  · split_ifs at hmem with habs
    · exact habs
    · simp at hmem
    · simp at hmem
  · exact absurd hmem (lead_notMem_filterMap p.segs).1

/-- What follows a path inside itself is nothing. -/
theorem stripPrefix_self (p : Path) : p.stripPrefix p = some [] := by
  simp [stripPrefix, startsWith, List.isPrefixOf_iff_prefix]

/-- The components of the segments determine them, up to the `.` segments. -/
private theorem filter_of_filterMap {segs segs' : List Name}
    (h : segs.filterMap component? = segs'.filterMap component?) :
    segs.filter (· ≠ dot) = segs'.filter (· ≠ dot) := by
  have hinv : ∀ l : List Name, (l.filterMap component?).map (fun
      | .parentDir => dotdot
      | .normal n => n
      | _ => dot) = l.filter (· ≠ dot) := by
    intro l
    induction l with
    | nil => rfl
    | cons seg l ih =>
        by_cases hd : seg = dot
        · simp [component?, hd, ih]
        · by_cases hdd : seg = dotdot
          · have hne : dotdot ≠ dot := by decide
            simp [component?, hdd, ih, hne]
          · simp [component?, hd, hdd, ih]
  rw [← hinv segs, h, hinv]

/-- Paths with the same components differ in `.` segments only. -/
theorem filter_eq_of_sameAs {p q : Path} (h : p.sameAs q = true) :
    p.absolute = q.absolute ∧ p.segs.filter (· ≠ dot) = q.segs.filter (· ≠ dot) := by
  rw [sameAs, beq_iff_eq, components, components] at h
  have hp := lead_notMem_filterMap p.segs
  have hq := lead_notMem_filterMap q.segs
  have hfilter (heq : p.segs.filterMap component? = q.segs.filterMap component?) :=
    filter_of_filterMap heq
  generalize p.segs.filterMap component? = cp at h hp hfilter
  generalize q.segs.filterMap component? = cq at h hq hfilter
  have hheads : p.absolute = q.absolute ∧ cp = cq := by
    split_ifs at h <;> grind
  exact ⟨hheads.1, hfilter hheads.2⟩

/-- Trimming takes segments from the end. -/
theorem trimDots_segs_isPrefix (p : Path) : p.trimDots.segs <+: p.segs := by
  rcases p with ⟨_ | _, _ | ⟨seg, rest⟩⟩
  · exact List.prefix_rfl
  · exact List.cons_prefix_cons.2 ⟨rfl, List.rdropWhile_prefix _ _⟩
  · exact List.rdropWhile_prefix _ _
  · exact List.rdropWhile_prefix _ _

theorem trimDots_absolute (p : Path) : p.trimDots.absolute = p.absolute := by
  rcases p with ⟨_ | _, _ | ⟨seg, rest⟩⟩ <;> rfl

/-- A parent has fewer segments, and starts where the path does. -/
theorem parent_eq_some {p q : Path} (h : p.parent = some q) :
    q.segs.length < p.segs.length ∧ q.absolute = p.absolute := by
  rw [parent] at h
  split at h
  · simp at h
  · rename_i segs hne
    simp only [Option.some.injEq] at h
    subst h
    have htrim := (trimDots_segs_isPrefix p).length_le
    have hlast := (trimDots_segs_isPrefix ⟨p.absolute, p.trimDots.segs.dropLast⟩).length_le
    have hpos := List.length_pos_iff.2 hne
    rw [List.length_dropLast] at hlast
    exact ⟨by omega, trimDots_absolute _⟩

/-- Only the root and the empty path have no parent. -/
theorem parent_eq_none {p : Path} (h : p.parent = none) : p.trimDots.segs = [] := by
  rw [parent] at h
  split at h
  · assumption
  · simp at h

/-- The first ancestor is the path itself. -/
theorem ancestors_eq_cons (p : Path) : ∃ rest, p.ancestors = p :: rest := by
  rw [ancestors]
  cases p.segs.length with
  | zero => exact ⟨[], rfl⟩
  | succ fuel => exact ⟨_, rfl⟩

/-- The ancestors of an absolute path end at a path without a component. -/
theorem exists_root_mem_ancestors {p : Path} (habs : p.absolute = true) :
    ∃ a ∈ p.ancestors, a.absolute = true ∧ a.trimDots.segs = [] := by
  suffices h : ∀ fuel, p.segs.length ≤ fuel →
      ∃ a ∈ ancestorsFrom fuel p, a.absolute = true ∧ a.trimDots.segs = [] from h _ le_rfl
  intro fuel
  induction fuel generalizing p with
  | zero =>
      intro hlen
      have hnil : p.segs = [] := List.length_eq_zero_iff.1 (Nat.le_zero.1 hlen)
      refine ⟨p, by simp [ancestorsFrom], habs, ?_⟩
      exact List.prefix_nil.1 (hnil ▸ trimDots_segs_isPrefix p)
  | succ fuel ih =>
      intro hlen
      cases hparent : p.parent with
      | none => exact ⟨p, by simp [ancestorsFrom], habs, parent_eq_none hparent⟩
      | some q =>
          obtain ⟨hlt, hq⟩ := parent_eq_some hparent
          obtain ⟨a, ha, hroot⟩ := ih (hq.trans habs) (by omega)
          exact ⟨a, by simp [ancestorsFrom, hparent, ha], hroot⟩

/-- The names among the components of a path are neither `.` nor `..`. -/
theorem plain_of_normal_mem {p : Path} {n : Name} (h : .normal n ∈ p.components) :
    Plain n := by
  rw [components, List.mem_append] at h
  rcases h with h | h
  · split_ifs at h <;> simp at h
  · obtain ⟨seg, _, hcomp⟩ := List.mem_filterMap.1 h
    rw [component?] at hcomp
    split_ifs at hcomp with hd hdd
    · simp at hcomp
    · simp only [Option.some.injEq, Component.normal.injEq] at hcomp
      subst hcomp
      exact ⟨hd, hdd⟩

/-- What `strip_prefix` leaves are components of the path. -/
theorem mem_of_mem_stripPrefix {p base : Path} {cs : List Component} {c : Component}
    (h : p.stripPrefix base = some cs) (hc : c ∈ cs) : c ∈ p.components := by
  rw [stripPrefix] at h
  split_ifs at h
  simp only [Option.some.injEq] at h
  subst h
  exact List.mem_of_mem_drop hc

end Path

end Vanyline.Lib
