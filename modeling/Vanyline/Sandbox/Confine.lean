import Vanyline.Lib.FileTree

/-!
# The confinement guard of the sandbox tools

Every file tool of the sandbox passes the path it got from the caller through
`confine_path` and then opens, creates, renames or deletes the path that comes
back.  The guard canonicalises the deepest ancestor of the candidate path that
exists and folds the rest of the candidate onto it without looking at the file
system.  The file system is a `FileTree`, and it does not change between the
check and the use.

`Confines` is what the guard promises for one root and one user path: an
accepted path designates a place inside the root or nothing, and a path that
resolves inside the root is accepted and keeps its meaning.

The second half holds for every path (`confinePath_of_resolves`).  The first
half fails on the paths of `LeavesThroughLink`: the remainder below the deepest
existing ancestor, folded lexically, arrives at a symbolic link inside the root
that leads out of it.  The guard never looks at that link, because the ancestor
it canonicalised lies above it.

* `out -> /etc/new` is a link whose target does not exist, so it is not an
  existing ancestor, and creating `out` creates `/etc/new`;
* `missing/../link` does not resolve, and the fold turns it into `link`;
* `link/.` does not resolve when `link` leads to a regular file, and the
  parent that is tried next drops `link` together with the dot.

`confines_iff` says that there are no other failures.
-/

namespace Vanyline.Sandbox

open Vanyline.Lib

/-- The file system that the guard and the tools see: a tree, the number of
links that a resolution may follow, and the working directory. -/
structure Env where
  tree : FileTree
  limit : Nat
  cwd : Loc
  cwd_dir : tree.node cwd = some .dir

/-- The errors of the guard. -/
inductive SandboxError
  | pathEscape (path : List Char) (root : Loc)
  | invalidRoot (root : List Char)
  | ancestorResolutionFailed (ancestor : Path)
  deriving DecidableEq

/-- The marker at the start of the error text. -/
def SandboxError.code : SandboxError → String
  | .pathEscape _ _ => "VNL-SBX-001"
  | .invalidRoot _ => "VNL-SBX-002"
  | .ancestorResolutionFailed _ => "VNL-SBX-003"

namespace Env

variable (env : Env)

/-- `std::fs::canonicalize`. -/
def canonicalize (p : Path) : Option Loc := env.tree.resolve env.limit env.cwd p

/-- `Path::exists`, which follows links. -/
def pathExists (p : Path) : Bool := (env.canonicalize p).isSome

/-- The place that a tool touches when it opens, creates, renames or deletes
the path. -/
def designates (p : Path) : Option Loc := env.tree.designates env.limit env.cwd p

/-- The loop over the parents of the candidate, up to the first that exists. -/
def deepestExisting (candidate : Path) : Option Path :=
  candidate.ancestors.find? env.pathExists

end Env

/-- Fold the components of `suffix` onto `base` without looking at any file.  A
`..` above the top has no effect. -/
def joinLexical (base : Loc) : List Component → Loc
  | [] => base
  | .parentDir :: rest => joinLexical base.dropLast rest
  | .normal seg :: rest => joinLexical (base ++ [seg]) rest
  | .curDir :: rest | .rootDir :: rest => joinLexical base rest

/-- `trim_end_matches('/')`. -/
def trimSlashes (s : List Char) : List Char := s.rdropWhile (· = '/')

/-- The path that is checked: the user's path as it is when it is absolute, else
joined to the root. -/
def candidate (sandboxRoot trimmed : List Char) : Path :=
  if trimmed.head? = some '/' then Path.parse trimmed
  else (Path.parse sandboxRoot).join (Path.parse trimmed)

/-- The last check: the path must start with the canonical root. -/
def checkInside (userPath : List Char) (root : Loc) (p : Path) : Except SandboxError Path :=
  if p.startsWith (Path.ofLoc root) then .ok p else .error (.pathEscape userPath root)

/-- The remainder of the candidate below its ancestor `d`. -/
def remainder (candidate d : Path) : List Component :=
  (candidate.stripPrefix d).getD candidate.components

/-- Resolve `userPath` under `sandboxRoot`, or refuse it. -/
def confinePath (env : Env) (sandboxRoot userPath : List Char) : Except SandboxError Path :=
  match env.canonicalize (Path.parse sandboxRoot) with
  | none => .error (.invalidRoot sandboxRoot)
  | some root =>
    let trimmed := trimSlashes userPath
    if trimmed = [] then .ok (Path.ofLoc root)
    else
      let candidate := candidate sandboxRoot trimmed
      match env.deepestExisting candidate with
      | none => checkInside userPath root candidate
      | some d =>
        let canon := if d.sameAs (Path.parse sandboxRoot) then some root else env.canonicalize d
        match canon with
        | none => .error (.ancestorResolutionFailed d)
        | some canon =>
          checkInside userPath root (Path.ofLoc (joinLexical canon (remainder candidate d)))

/-! ## What the guard promises -/

/-- The path that the caller means: absolute, or relative to the root. -/
def requested (sandboxRoot userPath : List Char) : Path :=
  if userPath.head? = some '/' then Path.parse userPath
  else (Path.parse sandboxRoot).join (Path.parse userPath)

/-- The promise of the guard for one root and one user path. -/
structure Confines (env : Env) (sandboxRoot userPath : List Char) (root : Loc) : Prop where
  inside : ∀ p, confinePath env sandboxRoot userPath = .ok p →
    ∀ l, env.designates p = some l → root <+: l
  accepts : ∀ l, env.canonicalize (requested sandboxRoot userPath) = some l → root <+: l →
    ∃ p, confinePath env sandboxRoot userPath = .ok p ∧ env.canonicalize p = some l

/-- The link at `root ++ pre ++ [m]` leads out of the root, with the segments
`post` after it. -/
def LeadsOut (env : Env) (root pre : Loc) (m : Name) (post : List Name) : Prop :=
  ∃ target o, env.tree.node (root ++ pre ++ [m]) = some (.link target) ∧
    env.tree.follow env.limit (root ++ pre) target post = some o ∧ ¬ root <+: o.loc

/-- The remainder of the user's path below its deepest existing ancestor spells
a path through a link inside the root that leads out of it. -/
def LeavesThroughLink (env : Env) (sandboxRoot userPath : List Char) (root : Loc) : Prop :=
  trimSlashes userPath ≠ [] ∧
  ∃ d canon pre m post,
    env.deepestExisting (candidate sandboxRoot (trimSlashes userPath)) = some d ∧
    env.canonicalize d = some canon ∧
    joinLexical canon (remainder (candidate sandboxRoot (trimSlashes userPath)) d) =
      root ++ (pre ++ m :: post) ∧
    LeadsOut env root pre m post

/-! ## Where the guard looks -/

section

variable {env : Env} {sandboxRoot userPath : List Char} {root : Loc}

/-- A location that the guard computes consists of plain names. -/
theorem plain_joinLexical {l : Loc} {cs : List Component} (hl : ∀ n ∈ l, Path.Plain n)
    (hcs : ∀ n, .normal n ∈ cs → Path.Plain n) : ∀ n ∈ joinLexical l cs, Path.Plain n := by
  induction cs generalizing l with
  | nil => exact hl
  | cons c cs ih =>
      have hcs' : ∀ n, .normal n ∈ cs → Path.Plain n := fun n hn => hcs n (by simp [hn])
      cases c with
      | rootDir => exact ih hl hcs'
      | curDir => exact ih hl hcs'
      | parentDir => exact ih (fun n hn => hl n (List.mem_of_mem_dropLast hn)) hcs'
      | normal m =>
          refine ih (fun n hn => ?_) hcs'
          rcases List.mem_append.1 hn with hn | hn
          · exact hl n hn
          · rw [List.mem_singleton.1 hn]
            exact hcs m (by simp)

/-- The names in a remainder are plain. -/
theorem plain_remainder {c d : Path} {n : Name} (h : .normal n ∈ remainder c d) :
    Path.Plain n := by
  rw [remainder] at h
  cases hstrip : c.stripPrefix d with
  | none =>
      rw [hstrip] at h
      exact Path.plain_of_normal_mem h
  | some cs =>
      rw [hstrip] at h
      exact Path.plain_of_normal_mem (Path.mem_of_mem_stripPrefix hstrip h)

/-- Canonical locations end at a directory or a file. -/
theorem solid_of_canonicalize {p : Path} {l : Loc} (h : env.canonicalize p = some l) :
    env.tree.Solid l :=
  FileTree.solid_of_resolve env.cwd_dir h

theorem plain_of_canonicalize {p : Path} {l : Loc} (h : env.canonicalize p = some l) :
    ∀ n ∈ l, Path.Plain n := by
  intro n hn
  rcases solid_of_canonicalize h with hnode | hnode <;>
    exact Path.plain_of_isName (FileTree.isName_of_node hnode n hn)

/-- The location that the remainder of a path is folded to has plain names. -/
theorem plain_folded {c d : Path} {canon : Loc} (h : env.canonicalize d = some canon) :
    ∀ n ∈ joinLexical canon (remainder c d), Path.Plain n :=
  plain_joinLexical (plain_of_canonicalize h) fun _ => plain_remainder

/-- A canonical location leads to itself. -/
theorem canonicalize_ofLoc {l : Loc} (h : env.tree.Solid l) :
    env.canonicalize (Path.ofLoc l) = some l := by
  refine FileTree.resolve_eq_some.2 ⟨by simp [Path.ofLoc], ?_⟩
  have h' : env.tree.Solid ([] ++ l) := h
  exact FileTree.walk_names h'

/-- An absolute candidate has an ancestor that exists: the root of the tree. -/
theorem deepestExisting_of_absolute {c : Path} (habs : c.absolute = true) :
    ∃ d, env.deepestExisting c = some d := by
  obtain ⟨a, ha, haabs, hsegs⟩ := Path.exists_root_mem_ancestors habs
  have hexists : env.pathExists a = true := by
    rw [Env.pathExists, Env.canonicalize, FileTree.resolve_root haabs hsegs]
    rfl
  exact Option.isSome_iff_exists.1 (List.find?_isSome.2 ⟨a, ha, hexists⟩)

/-- A candidate that resolves is its own deepest existing ancestor. -/
theorem deepestExisting_of_canonicalize {c : Path} {l : Loc} (h : env.canonicalize c = some l) :
    env.deepestExisting c = some c := by
  obtain ⟨rest, hrest⟩ := Path.ancestors_eq_cons c
  rw [Env.deepestExisting, hrest, List.find?_cons_of_pos]
  rw [Env.pathExists, h]
  rfl

/-- The deepest existing ancestor has a canonical location. -/
theorem canonicalize_of_deepestExisting {c d : Path} (h : env.deepestExisting c = some d) :
    ∃ canon, env.canonicalize d = some canon := by
  have hexists : env.pathExists d = true := List.find?_some h
  exact Option.isSome_iff_exists.1 hexists

/-! ## What the guard returns -/

/-- An empty path is the root itself. -/
theorem confinePath_of_empty (hroot : env.canonicalize (Path.parse sandboxRoot) = some root)
    (hempty : trimSlashes userPath = []) :
    confinePath env sandboxRoot userPath = .ok (Path.ofLoc root) := by
  simp only [confinePath, hroot, hempty, if_true]

/-- Any other path is folded onto the location of its deepest existing
ancestor, whether that is the root or not. -/
theorem confinePath_of_deepest (hroot : env.canonicalize (Path.parse sandboxRoot) = some root)
    (hne : trimSlashes userPath ≠ []) {d : Path} {canon : Loc}
    (hdeep : env.deepestExisting (candidate sandboxRoot (trimSlashes userPath)) = some d)
    (hcanon : env.canonicalize d = some canon) :
    confinePath env sandboxRoot userPath = checkInside userPath root
      (Path.ofLoc (joinLexical canon
        (remainder (candidate sandboxRoot (trimSlashes userPath)) d))) := by
  have hsame : (if d.sameAs (Path.parse sandboxRoot) then some root else env.canonicalize d) =
      some canon := by
    split_ifs with h
    · rw [FileTree.resolve_congr h hcanon hroot]
    · exact hcanon
  simp only [confinePath, hroot, if_neg hne, hdeep, hsame]

/-- A candidate without an existing ancestor is refused. -/
theorem confinePath_of_none (hroot : env.canonicalize (Path.parse sandboxRoot) = some root)
    (hne : trimSlashes userPath ≠ [])
    (hdeep : env.deepestExisting (candidate sandboxRoot (trimSlashes userPath)) = none) :
    confinePath env sandboxRoot userPath = .error (.pathEscape userPath root) := by
  simp only [confinePath, hroot, if_neg hne, hdeep, checkInside]
  rw [if_neg]
  intro hstarts
  obtain ⟨d, hd⟩ : ∃ d, env.deepestExisting _ = some d :=
    deepestExisting_of_absolute (Path.absolute_of_startsWith_ofLoc hstarts)
  rw [hdeep] at hd
  simp at hd

/-- On plain locations the last check is the prefix relation. -/
theorem checkInside_ok {l : Loc} (hl : ∀ n ∈ l, Path.Plain n)
    (hroot : ∀ n ∈ root, Path.Plain n) {p : Path} :
    checkInside userPath root (Path.ofLoc l) = .ok p ↔ root <+: l ∧ p = Path.ofLoc l := by
  rw [checkInside]
  by_cases h : root <+: l
  · rw [if_pos ((Path.startsWith_ofLoc hl hroot).2 h)]
    simp only [Except.ok.injEq, h, true_and]
    exact eq_comm
  · rw [if_neg fun hs => h ((Path.startsWith_ofLoc hl hroot).1 hs)]
    simp [h]

/-- What is accepted is the root, or the fold of a remainder, inside the root. -/
theorem confinePath_ok (hroot : env.canonicalize (Path.parse sandboxRoot) = some root)
    {p : Path} (h : confinePath env sandboxRoot userPath = .ok p) :
    (trimSlashes userPath = [] ∧ p = Path.ofLoc root) ∨
    (trimSlashes userPath ≠ [] ∧ ∃ d canon,
      env.deepestExisting (candidate sandboxRoot (trimSlashes userPath)) = some d ∧
      env.canonicalize d = some canon ∧
      root <+: joinLexical canon (remainder (candidate sandboxRoot (trimSlashes userPath)) d) ∧
      p = Path.ofLoc (joinLexical canon
        (remainder (candidate sandboxRoot (trimSlashes userPath)) d))) := by
  by_cases hne : trimSlashes userPath = []
  · rw [confinePath_of_empty hroot hne] at h
    exact .inl ⟨hne, (Except.ok.inj h).symm⟩
  · right
    refine ⟨hne, ?_⟩
    cases hdeep : env.deepestExisting (candidate sandboxRoot (trimSlashes userPath)) with
    | none =>
        rw [confinePath_of_none hroot hne hdeep] at h
        cases h
    | some d =>
        obtain ⟨canon, hcanon⟩ := canonicalize_of_deepestExisting hdeep
        rw [confinePath_of_deepest hroot hne hdeep hcanon] at h
        obtain ⟨hpre, hp⟩ :=
          (checkInside_ok (plain_folded hcanon) (plain_of_canonicalize hroot)).1 h
        exact ⟨d, canon, rfl, hcanon, hpre, hp⟩

/-! ## The two halves of the promise -/

/-- The path that the caller means resolves only if the candidate does. -/
theorem canonicalize_candidate {l : Loc}
    (hroot : env.canonicalize (Path.parse sandboxRoot) = some root)
    (hne : trimSlashes userPath ≠ [])
    (h : env.canonicalize (requested sandboxRoot userPath) = some l) :
    env.canonicalize (candidate sandboxRoot (trimSlashes userPath)) = some l := by
  have htrim := Path.parse_trim hne
  have hdots : FileTree.DropsDots (Path.parse userPath).segs (Path.names userPath) := by
    rcases Path.parse_segs userPath with hsegs | hsegs <;> rw [hsegs]
    · exact .refl _
    · simpa using FileTree.DropsDots.append_left (Path.names userPath) (.drop .nil)
  have hhead : (trimSlashes userPath).head? = some '/' ↔ userPath.head? = some '/' := by
    have habs := congrArg Path.absolute htrim
    simpa [Path.parse, trimSlashes] using habs
  rw [requested] at h
  rw [candidate]
  split_ifs at h with habs
  · rw [if_pos (hhead.2 habs), trimSlashes, htrim]
    exact FileTree.resolve_dropsDots hdots (.inl (by simpa [Path.parse] using habs)) h
  · rw [if_neg fun hs => habs (hhead.1 hs), trimSlashes, htrim]
    refine FileTree.resolve_dropsDots (hdots.append_left (Path.parse sandboxRoot).segs) ?_ h
    obtain ⟨hempty, -⟩ := FileTree.resolve_eq_some.1 hroot
    cases hsabs : (Path.parse sandboxRoot).absolute with
    | true => exact .inl rfl
    | false =>
        right
        intro hnil
        obtain ⟨hsegs, -⟩ := List.append_eq_nil_iff.1 hnil
        exact hempty (by rw [← hsabs, ← hsegs])

/-- A path that resolves inside the root is accepted, and what is accepted is
the location it resolves to. -/
theorem confinePath_of_resolves {l : Loc}
    (hroot : env.canonicalize (Path.parse sandboxRoot) = some root)
    (h : env.canonicalize (requested sandboxRoot userPath) = some l) (hin : root <+: l) :
    confinePath env sandboxRoot userPath = .ok (Path.ofLoc l) := by
  by_cases hne : trimSlashes userPath = []
  · have hl : l = root := by
      have hsegs := Path.parse_segs_of_trim_nil hne
      rw [requested] at h
      split_ifs at h with habs
      · have htop : env.canonicalize (Path.parse userPath) = some [] :=
          FileTree.resolve_root (by simpa [Path.parse] using habs)
            (List.prefix_nil.1 (hsegs ▸ Path.trimDots_segs_isPrefix _))
        rw [htop, Option.some.injEq] at h
        subst h
        exact (List.prefix_nil.1 hin).symm
      · rw [Path.join, hsegs, List.append_nil] at h
        exact Option.some.inj (h.symm.trans hroot)
    rw [hl]
    exact confinePath_of_empty hroot hne
  · have hcand := canonicalize_candidate hroot hne h
    rw [confinePath_of_deepest hroot hne (deepestExisting_of_canonicalize hcand) hcand,
      remainder, Path.stripPrefix_self]
    exact (checkInside_ok (plain_of_canonicalize h) (plain_of_canonicalize hroot)).2 ⟨hin, rfl⟩

/-- A place below the root is reached, or a link below the root is passed: the
way to the root itself has no link. -/
theorem inside_or_leadsOut {names : Loc} {l : Loc} (hroot : env.tree.Solid root)
    (hplain : ∀ n ∈ names, Path.Plain n) (hin : root <+: names)
    (h : env.designates (Path.ofLoc names) = some l) :
    root <+: l ∨ ∃ pre m post, names = root ++ (pre ++ m :: post) ∧ LeadsOut env root pre m post := by
  obtain ⟨o, hwalk, rfl⟩ : ∃ o, env.tree.walk env.limit [] names = some o ∧ o.loc = l := by
    simpa [Env.designates, FileTree.designates, FileTree.lookup, Path.ofLoc] using h
  by_cases hout : root <+: o.loc
  · exact .inl hout
  · right
    rcases FileTree.walk_below hplain hwalk with hloc | ⟨pre, m, post, target, heq, hnode, hfollow⟩
    · exact absurd (by simpa [hloc] using hin) hout
    · simp only [List.nil_append] at hnode hfollow
      have hlen : root.length ≤ pre.length := by
        by_contra hlt
        have hpre : pre ++ [m] <+: root := by
          refine List.prefix_of_prefix_length_le ?_ hin (by simp; omega)
          exact ⟨post, by simp [heq]⟩
        obtain ⟨rest, hrest⟩ := hpre
        by_cases hnil : rest = []
        · rw [hnil, List.append_nil] at hrest
          rw [FileTree.Solid, ← hrest, hnode] at hroot
          simp at hroot
        · have hdir : env.tree.node (pre ++ [m]) = some .dir := by
            rw [← hrest] at hroot
            rcases hroot with hr | hr <;> exact FileTree.isDir_of_append hnil hr
          rw [hnode] at hdir
          simp at hdir
      have hpre : root <+: pre :=
        List.prefix_of_prefix_length_le hin (heq ▸ List.prefix_append _ _) hlen
      obtain ⟨below, rfl⟩ := hpre
      exact ⟨below, m, post, by simpa using heq, target, o, hnode, hfollow, hout⟩

/-- An accepted path that passes a link out of the root designates a place
outside. -/
theorem designates_of_leadsOut {pre post : Loc} {m : Name}
    (h : LeadsOut env root pre m post) :
    ∃ l, env.designates (Path.ofLoc (root ++ (pre ++ m :: post))) = some l ∧ ¬ root <+: l := by
  obtain ⟨target, o, hnode, hfollow, hout⟩ := h
  have hwalk : env.tree.walk env.limit [] (root ++ pre ++ m :: post) = some o := by
    rw [FileTree.walk_through_link (by simpa using hnode)]
    simpa using hfollow
  rw [List.append_assoc] at hwalk
  refine ⟨o.loc, ?_, hout⟩
  simpa [Env.designates, FileTree.designates, FileTree.lookup, Path.ofLoc] using ⟨o, hwalk, rfl⟩

/-- The guard keeps its promise for a root and a user path exactly when the
remainder of the path does not leave the root through a link. -/
theorem confines_iff (hroot : env.canonicalize (Path.parse sandboxRoot) = some root) :
    Confines env sandboxRoot userPath root ↔ ¬ LeavesThroughLink env sandboxRoot userPath root := by
  constructor
  · rintro hconf ⟨hne, d, canon, pre, m, post, hdeep, hcanon, hfold, hleads⟩
    obtain ⟨l, hdesig, hout⟩ := designates_of_leadsOut hleads
    refine hout (hconf.inside _ ?_ l hdesig)
    rw [confinePath_of_deepest hroot hne hdeep hcanon, ← hfold]
    refine (checkInside_ok (plain_folded hcanon) (plain_of_canonicalize hroot)).2 ⟨?_, rfl⟩
    rw [hfold]
    exact List.prefix_append _ _
  · intro hstays
    refine ⟨fun p hok l hdesig => ?_, fun l hres hin => ?_⟩
    · rcases confinePath_ok hroot hok with ⟨-, rfl⟩ | ⟨hne, d, canon, hdeep, hcanon, hin, rfl⟩
      · rcases inside_or_leadsOut (solid_of_canonicalize hroot) (plain_of_canonicalize hroot)
          List.prefix_rfl hdesig with hl | ⟨pre, m, post, heq, -⟩
        · exact hl
        · simp at heq
      · rcases inside_or_leadsOut (solid_of_canonicalize hroot) (plain_folded hcanon) hin hdesig with
          hl | ⟨pre, m, post, heq, hleads⟩
        · exact hl
        · exact absurd ⟨hne, d, canon, pre, m, post, hdeep, hcanon, heq, hleads⟩ hstays
    · refine ⟨_, confinePath_of_resolves hroot hres hin, ?_⟩
      exact canonicalize_ofLoc (solid_of_canonicalize hres)

end

/-! ## Three ways out -/

/-- A workspace `/ws` with two links: `out` leads to a place that does not exist
yet, `link` to a file. -/
def linkedWorkspace : FileTree where
  entries :=
    [([], .dir), (["etc".toList], .dir), (["etc".toList, "passwd".toList], .file),
      (["ws".toList], .dir),
      (["ws".toList, "out".toList], .link ⟨true, ["etc".toList, "new".toList]⟩),
      (["ws".toList, "link".toList], .link ⟨true, ["etc".toList, "passwd".toList]⟩)]
  node_root := by decide
  parent_dir := by decide
  names := by decide
  targets := by decide

def linkedEnv : Env where
  tree := linkedWorkspace
  limit := 40
  cwd := []
  cwd_dir := by decide

/-- Writing the accepted path `out` creates a file outside the workspace. -/
theorem linkedEnv_out_escapes :
    linkedEnv.canonicalize (Path.parse "/ws".toList) = some ["ws".toList] ∧
    confinePath linkedEnv "/ws".toList "out".toList =
      .ok (Path.ofLoc ["ws".toList, "out".toList]) ∧
    linkedEnv.designates (Path.ofLoc ["ws".toList, "out".toList]) =
      some ["etc".toList, "new".toList] ∧
    ¬ Confines linkedEnv "/ws".toList "out".toList ["ws".toList] := by
  have hok : confinePath linkedEnv "/ws".toList "out".toList =
      .ok (Path.ofLoc ["ws".toList, "out".toList]) := by decide
  have hdesig : linkedEnv.designates (Path.ofLoc ["ws".toList, "out".toList]) =
      some ["etc".toList, "new".toList] := by decide
  refine ⟨by decide, hok, hdesig, fun hconf => ?_⟩
  have hin := hconf.inside _ hok _ hdesig
  exact absurd hin (by decide)

/-- The condition decides the path `out` of the same workspace. -/
theorem linkedEnv_out_iff :
    Confines linkedEnv "/ws".toList "out".toList ["ws".toList] ↔
      ¬ LeavesThroughLink linkedEnv "/ws".toList "out".toList ["ws".toList] :=
  confines_iff (by decide)

example : confinePath linkedEnv "/ws".toList "missing/../link".toList =
    .ok (Path.ofLoc ["ws".toList, "link".toList]) := by decide

example : confinePath linkedEnv "/ws".toList "link/.".toList =
    .ok (Path.ofLoc ["ws".toList, "link".toList]) := by decide

example : linkedEnv.designates (Path.ofLoc ["ws".toList, "link".toList]) =
    some ["etc".toList, "passwd".toList] := by decide

end Vanyline.Sandbox
