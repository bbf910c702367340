import Vanyline.Sandbox.Git

/-!
# The commits of `/git/log` and `/git/unpushed`

Both routes have git print one line for each commit, with a unit separator between the fields.
They ask for one commit more than they answer with, to see if there are others.

* `parseLogLine_line` and `parseCommitLine_line`: a commit is read back when neither its subject
  nor its author has the separator in it.  One field too many is an error.
* `handleLog_iff` and `runUnpushed_iff` say when the answer is the history: all the commits that
  were printed have to be readable, and the number that was asked for must not have wrapped around
  to zero.
* `listings_iff` is about the two routes together.

The history and the references are what git finds in the repository.  Git is a parameter with
`--max-count` as it is documented: at most this number of commits is printed.
-/

namespace Vanyline.Sandbox.Git

open Vanyline.Lib.TextLines Vanyline.Lib.Fields

/-! ## Commits -/

/-- A reference as the decoration of a commit shows it. -/
structure Decoration where
  text : Text
  nonempty : text ≠ []
  printed : ∀ c ∈ text, 32 ≤ c.toNat
  whole : splitAtText [',', ' '] text = none

structure Commit where
  sha : Word
  parents : List Word
  refs : List Decoration
  title : Text
  author : Text
  date : Word
  title_line : '\n' ∉ title
  author_line : '\n' ∉ author

/-- The separator `%x1f` of the formats. -/
def unitSep : Char := '\x1f'

/-- The free texts of the commit leave the separator alone. -/
def Commit.Plain (commit : Commit) : Prop := unitSep ∉ commit.title ∧ unitSep ∉ commit.author

instance (commit : Commit) : Decidable commit.Plain := inferInstanceAs (Decidable (_ ∧ _))

def Commit.parentsText (commit : Commit) : Text := [' '].intercalate (commit.parents.map (·.text))

def Commit.refsText (commit : Commit) : Text :=
  [',', ' '].intercalate (commit.refs.map (·.text))

/-- The line of the format `%H %P %D %s %an %aI`, with separators. -/
def logLine (commit : Commit) : Text :=
  [commit.sha.text, commit.parentsText, commit.refsText, commit.title,
    commit.author].flatMap (· ++ [unitSep]) ++ commit.date.text

/-- The line of the format `%H %s %an %aI`, with separators. -/
def unpushedLine (commit : Commit) : Text :=
  [commit.sha.text, commit.title, commit.author].flatMap (· ++ [unitSep]) ++ commit.date.text

/-! ## `/git/log` -/

structure LogCommit where
  sha : Text
  parents : List Text
  refs : List Text
  title : Text
  author : Text
  date : Text
  deriving DecidableEq

structure LogParams where
  limit : Option UInt32
  all : Option Bool

structure LogResponse where
  branch : Text
  commits : List LogCommit
  truncated : Bool
  deriving DecidableEq

def maxCount (n : Nat) : Text := "--max-count=".toList ++ Nat.toDigits 10 n

def logFormat : Text :=
  "--pretty=format:%H\x1f%P\x1f%D\x1f%s\x1f%an\x1f%aI".toList

/-- The number wraps around, as in a release build. -/
def logArgs (limit : UInt32) (all : Bool) : List Text :=
  let args := ["log".toList, maxCount (limit + 1).toNat, logFormat]
  if all then args.insertIdx 1 "--all".toList else args

def parseLogLine (line : Text) (lineNo : Nat) (full : Text) : Except GitError LogCommit :=
  match line.splitOn unitSep with
  | [sha, parents, refs, title, author, date] =>
    .ok {
      sha := sha
      parents := if parents = [] then [] else (parents.splitOn ' ').filter (! ·.isEmpty)
      refs := if refs = [] then [] else splitText [',', ' '] refs
      title := title
      author := author
      date := date }
  | _ => .error (.parseFailed lineNo full)

def parseLog (output : Text) : Except GitError (List LogCommit) :=
  parseLines (fun lineNo line => parseLogLine line lineNo output) output

def handleLog (git : List Text → Outcome) (root : Text) (params : LogParams) :
    Except GitError LogResponse :=
  let limit := params.limit.getD 100
  let all := params.all == some true
  match currentBranch git root with
  | .error e => .error e
  | .ok branch =>
    match runGit git (["-C".toList, root] ++ logArgs limit all) with
    | .error e => .error e
    | .ok output =>
      match parseLog output with
      | .error e => .error e
      | .ok commits =>
        .ok ⟨branch, commits.take limit.toNat, decide (limit.toNat < commits.length)⟩

/-! ## `/git/unpushed` -/

structure CommitEntry where
  sha : Text
  title : Text
  author : Text
  date : Text
  deriving DecidableEq

structure UnpushedStatus where
  branch : Text
  upstream : Option Text
  commits : List CommitEntry
  truncated : Bool
  deriving DecidableEq

def unpushedMaxCommits : Nat := 200

def unpushedFormat : Text := "--pretty=format:%H\x1f%s\x1f%an\x1f%aI".toList

def parseCommitLine (lineNo : Nat) (line : Text) : Except GitError CommitEntry :=
  match line.splitOn unitSep with
  | [sha, title, author, date] => .ok ⟨sha.take 7, title, author, date⟩
  | _ => .error (.parseFailed lineNo line)

def parseCommits (output : Text) : Except GitError (List CommitEntry) :=
  parseLines parseCommitLine output

def originBranchRef (branch : Text) : Text := "refs/remotes/origin/".toList ++ branch

/-- The upstream of the branch, and what `HEAD` is compared with. -/
def compareRef (git : List Text → Outcome) (root branch : Text) (known : Bool) :
    Option Text × Text :=
  if known then (some ("origin/".toList ++ branch), "origin/".toList ++ branch)
  else (none, "origin/".toList ++ resolveDefaultBranch git root)

def unpushedArgs (root compareRef : Text) : List Text :=
  ["-C".toList, root, "log".toList, compareRef ++ "..HEAD".toList,
    maxCount (unpushedMaxCommits + 1), unpushedFormat]

def runUnpushed (git : List Text → Outcome) (root : Text) : Except GitError UnpushedStatus :=
  match currentBranch git root with
  | .error e => .error e
  | .ok branch =>
    if branch = "HEAD".toList then .error .detachedHead
    else
      match refExists git root (originBranchRef branch) with
      | .error e => .error e
      | .ok known =>
        match runGit git (unpushedArgs root (compareRef git root branch known).2) with
        | .error e => .error e
        | .ok output =>
          match parseCommits output with
          | .error e => .error e
          | .ok commits =>
            .ok ⟨branch, (compareRef git root branch known).1, commits.take unpushedMaxCommits,
              decide (unpushedMaxCommits < commits.length)⟩

/-! ## Lines of commits -/

/-- The commit as an answer shows it. -/
def Commit.logCommit (commit : Commit) : LogCommit :=
  ⟨commit.sha.text, commit.parents.map (·.text), commit.refs.map (·.text), commit.title,
    commit.author, commit.date.text⟩

def Commit.entry (commit : Commit) : CommitEntry :=
  ⟨commit.sha.text.take 7, commit.title, commit.author, commit.date.text⟩

theorem isLine_ended {fields : List Text} (h : ∀ f ∈ fields, '\n' ∉ f) (last : Word) :
    IsLine (fields.flatMap (· ++ [unitSep]) ++ last.text) := by
  refine ⟨List.append_ne_nil_of_right_ne_nil _ last.nonempty, ?_, ?_⟩
  · rw [List.mem_append, List.mem_flatMap]
    rintro (⟨f, hf, hmem⟩ | hmem)
    · rcases List.mem_append.1 hmem with hmem | hmem
      · exact h f hf hmem
      · exact absurd (List.mem_singleton.1 hmem) (by decide)
    · exact last.notMem (by decide) hmem
  · rw [List.getLast?_append_of_ne_nil _ last.nonempty]
    intro hcr
    exact last.notMem (by decide) (List.mem_of_getLast? hcr)

theorem notMem_parentsText (commit : Commit) {c : Char} (h : c.toNat < 32) :
    c ∉ commit.parentsText := by
  intro hmem
  rcases mem_intercalate hmem with hc | ⟨f, hf, hc⟩
  · rw [List.mem_singleton.1 hc] at h
    exact absurd h (by decide)
  · rcases List.mem_map.1 hf with ⟨parent, -, rfl⟩
    exact parent.notMem (by omega) hc

theorem notMem_refsText (commit : Commit) {c : Char} (h : c.toNat < 32) :
    c ∉ commit.refsText := by
  intro hmem
  rcases mem_intercalate hmem with hc | ⟨f, hf, hc⟩
  · simp only [List.mem_cons, List.not_mem_nil, or_false] at hc
    rcases hc with rfl | rfl
    · exact absurd h (by decide)
    · exact absurd h (by decide)
  · rcases List.mem_map.1 hf with ⟨ref, -, rfl⟩
    have hprinted := ref.printed c hc
    omega

theorem isLine_logLine (commit : Commit) : IsLine (logLine commit) := by
  apply isLine_ended
  simp only [List.forall_mem_cons, List.not_mem_nil, false_implies, implies_true, and_true]
  exact ⟨commit.sha.notMem (by decide), notMem_parentsText commit (by decide),
    notMem_refsText commit (by decide), commit.title_line, commit.author_line⟩

theorem isLine_unpushedLine (commit : Commit) : IsLine (unpushedLine commit) := by
  apply isLine_ended
  simp only [List.forall_mem_cons, List.not_mem_nil, false_implies, implies_true, and_true]
  exact ⟨commit.sha.notMem (by decide), commit.title_line, commit.author_line⟩

theorem parents_read (commit : Commit) :
    (if commit.parentsText = [] then []
      else (commit.parentsText.splitOn ' ').filter (! ·.isEmpty)) =
      commit.parents.map (·.text) := by
  unfold Commit.parentsText
  cases hparents : commit.parents with
  | nil => rfl
  | cons parent rest =>
    rw [← hparents]
    have hne : commit.parents.map (·.text) ≠ [] := by rw [hparents]; exact List.cons_ne_nil _ _
    have hword : ∀ f ∈ commit.parents.map (·.text), f ≠ [] ∧ ' ' ∉ f := by
      intro f hf
      rcases List.mem_map.1 hf with ⟨parent, -, rfl⟩
      exact ⟨parent.nonempty, parent.notMem (by decide)⟩
    rw [if_neg (intercalate_ne_nil (fun f hf => (hword f hf).1) hne),
      List.splitOn_intercalate ' ' (fun f hf => (hword f hf).2) hne, List.filter_eq_self]
    intro f hf
    rw [List.isEmpty_eq_false_iff.2 (hword f hf).1]
    rfl

theorem refs_read (commit : Commit) :
    (if commit.refsText = [] then [] else splitText [',', ' '] commit.refsText) =
      commit.refs.map (·.text) := by
  unfold Commit.refsText
  cases hrefs : commit.refs with
  | nil => rfl
  | cons ref rest =>
    rw [← hrefs]
    have hne : commit.refs.map (·.text) ≠ [] := by rw [hrefs]; exact List.cons_ne_nil _ _
    have hwhole : ∀ f ∈ commit.refs.map (·.text), f ≠ [] ∧ Whole [',', ' '] f := by
      intro f hf
      rcases List.mem_map.1 hf with ⟨ref, -, rfl⟩
      exact ⟨ref.nonempty, whole_of_pair (by decide) ref.whole⟩
    rw [if_neg (intercalate_ne_nil (fun f hf => (hwhole f hf).1) hne),
      splitText_intercalate (List.cons_ne_nil _ _) (fun f hf => (hwhole f hf).2) hne]

theorem parseLogLine_line {commit : Commit} (h : commit.Plain) (lineNo : Nat) (full : Text) :
    parseLogLine (logLine commit) lineNo full = .ok commit.logCommit := by
  have hfields : (logLine commit).splitOn unitSep = [commit.sha.text, commit.parentsText,
      commit.refsText, commit.title, commit.author, commit.date.text] := by
    apply splitOn_ended
    · simp only [List.forall_mem_cons, List.not_mem_nil, false_implies, implies_true, and_true]
      exact ⟨commit.sha.notMem (by decide), notMem_parentsText commit (by decide),
        notMem_refsText commit (by decide), h.1, h.2⟩
    · exact commit.date.notMem (by decide)
  rw [parseLogLine, hfields]
  dsimp only
  rw [parents_read, refs_read]
  rfl

theorem parseCommitLine_line {commit : Commit} (h : commit.Plain) (lineNo : Nat) :
    parseCommitLine lineNo (unpushedLine commit) = .ok commit.entry := by
  have hfields : (unpushedLine commit).splitOn unitSep = [commit.sha.text, commit.title,
      commit.author, commit.date.text] := by
    apply splitOn_ended
    · simp only [List.forall_mem_cons, List.not_mem_nil, false_implies, implies_true, and_true]
      exact ⟨commit.sha.notMem (by decide), h.1, h.2⟩
    · exact commit.date.notMem (by decide)
  rw [parseCommitLine, hfields]
  rfl

theorem parseLogLine_separator {commit : Commit} (h : ¬commit.Plain) (lineNo : Nat)
    (full : Text) :
    parseLogLine (logLine commit) lineNo full = .error (.parseFailed lineNo full) := by
  have hcut : ∃ f ∈ [commit.sha.text, commit.parentsText, commit.refsText, commit.title,
      commit.author], unitSep ∈ f := by
    rcases not_and_or.1 h with h | h
    · exact ⟨commit.title, by simp, not_not.1 h⟩
    · exact ⟨commit.author, by simp, not_not.1 h⟩
  have hfields : 6 < ((logLine commit).splitOn unitSep).length :=
    length_splitOn_ended hcut commit.date.text
  unfold parseLogLine
  split
  · rename_i heq
    rw [heq] at hfields
    exact absurd hfields (by simp)
  · rfl

theorem parseCommitLine_separator {commit : Commit} (h : ¬commit.Plain) (lineNo : Nat) :
    parseCommitLine lineNo (unpushedLine commit) =
      .error (.parseFailed lineNo (unpushedLine commit)) := by
  have hcut : ∃ f ∈ [commit.sha.text, commit.title, commit.author],
      unitSep ∈ f := by
    rcases not_and_or.1 h with h | h
    · exact ⟨commit.title, by simp, not_not.1 h⟩
    · exact ⟨commit.author, by simp, not_not.1 h⟩
  have hfields : 4 < ((unpushedLine commit).splitOn unitSep).length :=
    length_splitOn_ended hcut commit.date.text
  unfold parseCommitLine
  split
  · rename_i heq
    rw [heq] at hfields
    exact absurd hfields (by simp)
  · rfl

theorem parseLog_eq_ok_iff {history : List Commit} {commits : List LogCommit} :
    parseLog (joinLines (history.map logLine)) = .ok commits ↔
      commits = history.map Commit.logCommit ∧ ∀ commit ∈ history, commit.Plain := by
  apply parseLines_eq_ok_iff
  · exact fun commit _ => isLine_logLine commit
  · exact fun commit _ hplain i => parseLogLine_line hplain i _
  · exact fun commit _ hplain i => ⟨_, parseLogLine_separator hplain i _⟩

theorem parseCommits_eq_ok_iff {history : List Commit} {commits : List CommitEntry} :
    parseCommits (joinLines (history.map unpushedLine)) = .ok commits ↔
      commits = history.map Commit.entry ∧ ∀ commit ∈ history, commit.Plain := by
  apply parseLines_eq_ok_iff
  · exact fun commit _ => isLine_unpushedLine commit
  · exact fun commit _ hplain i => parseCommitLine_line hplain i
  · exact fun commit _ hplain i => ⟨_, parseCommitLine_separator hplain i⟩

/-! ## Answers -/

/-- The command that prints at most `n` commits. -/
def logCommand (n : Nat) (all : Bool) : List Text :=
  ["log".toList] ++ (if all then ["--all".toList] else []) ++ [maxCount n, logFormat]

/-- What the commands of `handleLog` print: the branch, and the first commits of the history. -/
structure PrintsLog (git : List Text → Outcome) (root head : Text) (all : Bool)
    (history : List Commit) : Prop where
  prints_head : Prints git (headArgs root) head
  log : ∀ n < UInt32.size, Prints git (["-C".toList, root] ++ logCommand n all)
    (joinLines ((history.take n).map logLine))

/-- What the commands of `runUnpushed` print.  The history is what `HEAD` has and the reference
that it is compared with has not. -/
structure PrintsUnpushed (git : List Text → Outcome) (root head : Text) (known : Bool)
    (history : List Commit) : Prop where
  prints_head : Prints git (headArgs root) head
  attached : trim head ≠ "HEAD".toList
  showRef : ∃ status stdout stderr,
    git (["-C".toList, root] ++ showRefArgs (originBranchRef (trim head))) =
      .ended known status stdout stderr
  log : Prints git (unpushedArgs root (compareRef git root (trim head) known).2)
    (joinLines ((history.take (unpushedMaxCommits + 1)).map unpushedLine))

/-- The first commits of the history, and whether there are others. -/
def logAnswer (branch : Text) (params : LogParams) (history : List Commit) : LogResponse :=
  let limit := (params.limit.getD 100).toNat
  ⟨branch, (history.take limit).map Commit.logCommit, decide (limit < history.length)⟩

def unpushedAnswer (branch : Text) (upstream : Option Text) (history : List Commit) :
    UnpushedStatus :=
  ⟨branch, upstream, (history.take unpushedMaxCommits).map Commit.entry,
    decide (unpushedMaxCommits < history.length)⟩

/-- The number asked for does not wrap around, and the commits that are printed for it can be
read.  Of no commits nothing can be missing. -/
def Listed (limit : UInt32) (history : List Commit) : Prop :=
  history = [] ∨
    limit.toNat + 1 < UInt32.size ∧ ∀ commit ∈ history.take (limit.toNat + 1), commit.Plain

theorem logArgs_eq (limit : UInt32) (all : Bool) :
    logArgs limit all = logCommand (limit + 1).toNat all := by
  cases all
  · rfl
  · rfl

/-- One commit more than the answer shows tells whether there are others. -/
theorem lt_length_take_succ {α : Type*} (n : Nat) (l : List α) :
    n < (l.take (n + 1)).length ↔ n < l.length := by
  rw [List.length_take]
  omega

theorem take_take_succ {α : Type*} (n : Nat) (l : List α) :
    (l.take (n + 1)).take n = l.take n := by
  rw [List.take_take, Nat.min_eq_left (Nat.le_succ n)]

theorem handleLog_eq_ok_iff {git : List Text → Outcome} {root head : Text}
    {params : LogParams} {history : List Commit}
    (h : PrintsLog git root head (params.all == some true) history) {answer : LogResponse} :
    handleLog git root params = .ok answer ↔
      (∀ commit ∈ history.take (params.limit.getD 100 + 1).toNat, commit.Plain) ∧
      answer = ⟨trim head,
        ((history.take (params.limit.getD 100 + 1).toNat).map Commit.logCommit).take
          (params.limit.getD 100).toNat,
        decide ((params.limit.getD 100).toNat <
          (history.take (params.limit.getD 100 + 1).toNat).length)⟩ := by
  have hlog := (h.log _ (params.limit.getD 100 + 1).toNat_lt_size).runGit
  rw [handleLog, currentBranch_of_prints h.prints_head, logArgs_eq]
  dsimp only
  rw [hlog]
  dsimp only
  cases hparse : parseLog (joinLines
      ((history.take (params.limit.getD 100 + 1).toNat).map logLine)) with
  | error e =>
    refine ⟨fun heq => (nomatch heq), ?_⟩
    intro hall
    rw [parseLog_eq_ok_iff.2 ⟨rfl, hall.1⟩] at hparse
    cases hparse
  | ok commits =>
    have hread := parseLog_eq_ok_iff.1 hparse
    dsimp only
    rw [hread.1, List.length_map, Except.ok.injEq]
    exact ⟨fun heq => ⟨hread.2, heq.symm⟩, fun heq => heq.2.symm⟩

/-- `/git/log` shows the first commits of the history exactly when they are listed. -/
theorem handleLog_iff {git : List Text → Outcome} {root head : Text}
    {params : LogParams} {history : List Commit}
    (h : PrintsLog git root head (params.all == some true) history) :
    handleLog git root params = .ok (logAnswer (trim head) params history) ↔
      Listed (params.limit.getD 100) history := by
  rw [handleLog_eq_ok_iff h]
  unfold logAnswer Listed
  dsimp only
  generalize params.limit.getD 100 = limit
  have hlt := limit.toNat_lt_size
  have hwrap : (limit + 1).toNat = (limit.toNat + 1) % UInt32.size := UInt32.toNat_add limit 1
  by_cases hmax : limit.toNat + 1 < UInt32.size
  · rw [hwrap, Nat.mod_eq_of_lt hmax, ← List.map_take, take_take_succ,
      decide_eq_decide.2 (lt_length_take_succ limit.toNat history)]
    constructor
    · exact fun hall => Or.inr ⟨hmax, hall.1⟩
    · intro hlisted
      rcases hlisted with rfl | hlisted
      · exact ⟨fun commit hcommit => (nomatch hcommit), rfl⟩
      · exact ⟨hlisted.2, rfl⟩
  · -- The number has become zero: nothing is printed.
    have hsize : UInt32.size = 4294967296 := rfl
    have hzero : (limit + 1).toNat = 0 := by
      rw [hsize] at hlt hwrap hmax
      omega
    rw [hzero]
    constructor
    · intro hall
      have hcommits : (history.take limit.toNat).map Commit.logCommit = [] :=
        (congrArg LogResponse.commits hall.2).trans List.take_nil
      have hnone := List.map_eq_nil_iff.1 hcommits
      rcases List.take_eq_nil_iff.1 hnone with hnone | hnone
      · rw [hsize] at hmax
        omega
      · exact Or.inl hnone
    · intro hlisted
      rcases hlisted with rfl | hlisted
      · rw [List.take_nil, List.take_nil]
        exact ⟨fun commit hcommit => (nomatch hcommit), congrArg (LogResponse.mk _ · _)
          List.take_nil.symm⟩
      · exact absurd hlisted.1 hmax

/-- `/git/unpushed` shows the first commits exactly when all that were printed can be read. -/
theorem runUnpushed_iff {git : List Text → Outcome} {root head : Text} {known : Bool}
    {history : List Commit} (h : PrintsUnpushed git root head known history) :
    runUnpushed git root = .ok
        (unpushedAnswer (trim head) (compareRef git root (trim head) known).1 history) ↔
      ∀ commit ∈ history.take (unpushedMaxCommits + 1), commit.Plain := by
  obtain ⟨status, stdout, stderr, hshow⟩ := h.showRef
  have hrefs : refExists git root (originBranchRef (trim head)) = .ok known := by
    rw [refExists, hshow]
  rw [runUnpushed, currentBranch_of_prints h.prints_head]
  dsimp only
  rw [if_neg h.attached, hrefs]
  dsimp only
  rw [h.log.runGit]
  dsimp only
  cases hparse : parseCommits (joinLines
      ((history.take (unpushedMaxCommits + 1)).map unpushedLine)) with
  | error e =>
    refine ⟨fun heq => (nomatch heq), ?_⟩
    intro hall
    rw [parseCommits_eq_ok_iff.2 ⟨rfl, hall⟩] at hparse
    cases hparse
  | ok commits =>
    have hread := parseCommits_eq_ok_iff.1 hparse
    refine ⟨fun _ => hread.2, ?_⟩
    intro _
    dsimp only
    rw [hread.1, List.length_map, ← List.map_take, take_take_succ,
      decide_eq_decide.2 (lt_length_take_succ unpushedMaxCommits history)]
    rfl

/-! ## Both routes -/

/-- For every history and every limit, the answer is the history exactly when no commit that is
printed has the separator in its subject or its author and the number asked for does not wrap
around. -/
theorem listings_iff (git : List Text → Outcome) (root head : Text)
    (history : List Commit) :
    (∀ params, PrintsLog git root head (params.all == some true) history →
      (handleLog git root params = .ok (logAnswer (trim head) params history) ↔
        Listed (params.limit.getD 100) history)) ∧
    ∀ known, PrintsUnpushed git root head known history →
      (runUnpushed git root = .ok
          (unpushedAnswer (trim head) (compareRef git root (trim head) known).1 history) ↔
        ∀ commit ∈ history.take (unpushedMaxCommits + 1), commit.Plain) :=
  ⟨fun _ h => handleLog_iff h, fun _ h => runUnpushed_iff h⟩

/-! ### A repository on `main` -/

def mainHead : Text := "main\n".toList

def worktree : Text := "/worktree".toList

/-- What git prints in the work tree of a repository that has no branches of a remote. -/
def gitOn (history : List Commit) (args : List Text) : Outcome :=
  let printed stdout := Outcome.ended true "exit status: 0".toList stdout []
  if args = headArgs worktree then printed mainHead
  else
    match (args.findSome? (stripPrefix "--max-count=".toList)).bind (parseNat UInt32.size) with
    | some n =>
      let line := if args.getLast? = some logFormat then logLine else unpushedLine
      printed (joinLines ((history.take n).map line))
    | none => .ended false "exit status: 1".toList [] []

theorem gitOn_prints (history : List Commit) {before : List Text} {n : Nat} {format : Text}
    (hbefore : ∀ arg ∈ before, stripPrefix "--max-count=".toList arg = none) (hn : n < UInt32.size)
    (hformat : format ≠ "HEAD".toList) :
    Prints (gitOn history) (before ++ [maxCount n, format]) (joinLines ((history.take n).map
      (if some format = some logFormat then logLine else unpushedLine))) := by
  have hcount : (before ++ [maxCount n, format]).findSome? (stripPrefix "--max-count=".toList) =
      some (Nat.toDigits 10 n) := by
    have hmax : stripPrefix "--max-count=".toList (maxCount n) = some (Nat.toDigits 10 n) :=
      stripPrefix_append _ _
    simp only [List.findSome?_append, List.findSome?_eq_none_iff.2 hbefore, List.findSome?_cons,
      hmax, Option.none_or]
  have hlast : (before ++ [maxCount n, format]).getLast? = some format := by
    rw [List.getLast?_append_of_ne_nil _ (List.cons_ne_nil _ _)]
    rfl
  have hhead : before ++ [maxCount n, format] ≠ headArgs worktree := by
    intro heq
    rw [heq] at hlast
    exact hformat (Option.some.inj hlast).symm
  refine ⟨"exit status: 0".toList, [], ?_⟩
  unfold gitOn
  dsimp only
  rw [if_neg hhead, hcount, Option.bind_some, parseNat_toDigits, if_pos hn, hlast]

theorem gitOn_log (history : List Commit) (all : Bool) :
    PrintsLog (gitOn history) worktree mainHead all history where
  prints_head := ⟨_, _, rfl⟩
  log := by
    intro n hn
    have hbefore : ∀ arg ∈ ["-C".toList, worktree] ++
        (["log".toList] ++ if all then ["--all".toList] else []),
        stripPrefix "--max-count=".toList arg = none := by
      cases all
      · decide
      · decide
    have hformat : logFormat ≠ "HEAD".toList := by decide
    have hprints := gitOn_prints history hbefore hn hformat
    rw [if_pos rfl, List.append_assoc] at hprints
    exact hprints

theorem gitOn_unpushed (history : List Commit) :
    PrintsUnpushed (gitOn history) worktree mainHead false history where
  prints_head := ⟨_, _, rfl⟩
  attached := by decide
  showRef := ⟨_, _, _, rfl⟩
  log := by
    have hbefore : ∀ arg ∈ ["-C".toList, worktree, "log".toList, "origin/main..HEAD".toList],
        stripPrefix "--max-count=".toList arg = none := by decide
    have hformat : unpushedFormat ≠ "HEAD".toList := by decide
    have hnumber : unpushedMaxCommits + 1 < UInt32.size := by decide
    have hprints := gitOn_prints history hbefore hnumber hformat
    rw [if_neg (by decide)] at hprints
    exact hprints

def mergeCommit (title : Text) (h : '\n' ∉ title) : Commit where
  sha := .ofText "0b5c1ea7d2".toList rfl
  parents := [.ofText "9c4d".toList rfl, .ofText "77aa".toList rfl]
  refs := []
  title := title
  author := "Ada".toList
  date := .ofText "2024-05-06T07:08:09Z".toList rfl
  title_line := h
  author_line := by decide

/-- A carriage return and a quote are read back by both routes. -/
theorem listings_carriageReturn :
    let history := [mergeCommit "a\r \"b\"".toList (by decide)]
    handleLog (gitOn history) worktree ⟨some 1, none⟩ =
        .ok (logAnswer "main".toList ⟨some 1, none⟩ history) ∧
      runUnpushed (gitOn history) worktree = .ok (unpushedAnswer "main".toList none history) :=
  ⟨((listings_iff _ worktree mainHead _).1 _ (gitOn_log _ false)).2
      (Or.inr ⟨by decide, by decide⟩),
    ((listings_iff _ worktree mainHead _).2 false (gitOn_unpushed _)).2 (by decide)⟩

/-- A separator in the subject of one commit makes the listing fail. -/
theorem log_separatorInSubject :
    ¬∀ (git : List Text → Outcome) (root head : Text) (params : LogParams)
        (history : List Commit),
      PrintsLog git root head (params.all == some true) history →
        handleLog git root params = .ok (logAnswer (trim head) params history) := by
  intro hall
  have hanswer := hall _ worktree mainHead ⟨none, none⟩ _
    (gitOn_log [mergeCommit "a\x1fb".toList (by decide)] false)
  rcases (handleLog_iff (gitOn_log _ false)).1 hanswer with hnone | hlisted
  · cases hnone
  · exact absurd hlisted.2 (by decide)

end Vanyline.Sandbox.Git
