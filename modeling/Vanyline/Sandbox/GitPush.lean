import Mathlib.Data.Finset.Basic
import Mathlib.Data.Finset.Card
import Mathlib.Logic.Function.Basic
import Vanyline.Sandbox.GitLog

/-!
# What `/git/push` sends to the remote

The route counts the commits of `HEAD` that the target lacks and pushes the target by its name.
The target is the branch of `HEAD` when the remote is known to have one of that name, and the
default branch of the bare repository otherwise.

* `History` and `Repo` say what the commands are about: the commits with their ancestors, and the
  branches with their commits.  `Documented` is what the route relies on of git.
* `handlePush_ok` takes a push that succeeded apart: the count, and the branch that was updated.
* `handlePush_iff`: the count is always the announced one.  What was sent are the commits of
  `HEAD` exactly when the branch that is pushed carries them and no others.
-/

namespace Vanyline.Sandbox.Git

open Vanyline.Lib.TextLines Vanyline.Lib.Fields

/-! ## The route -/

structure PushResponse where
  ok : Bool
  pushed : Nat
  deriving DecidableEq

inductive PushErrorKind where
  | rejected
  | authFailed
  | other
  deriving DecidableEq

def pushArgs (refspec : Text) : List Text := ["push".toList, "origin".toList, refspec]

def countPushedArgs : Option Text → List Text
  | some refspec => ["rev-list".toList, "--count".toList, refspec ++ "..HEAD".toList]
  | none => ["rev-list".toList, "--count".toList, "HEAD".toList]

/-- The number is a `u32`. -/
def parseCount (output : Text) : Except GitError Nat :=
  match parseNat UInt32.size (trim output) with
  | some n => .ok n
  | none => .error (.parseFailed 1 (trim output))

def contains (text part : Text) : Bool := (splitAtText part text).isSome

def classifyPushStderr (stderr : Text) : PushErrorKind :=
  if contains stderr "rejected".toList || contains stderr "non-fast-forward".toList then .rejected
  else if contains stderr "Authentication failed".toList ||
      contains stderr "Permission denied".toList ||
      contains stderr "Could not read from remote repository".toList ||
      contains stderr "Host key verification failed".toList ||
      contains stderr "failed to authenticate".toList ||
      contains stderr "unable to get credential".toList then .authFailed
  else .other

/-- The target, and the number of commits to push. -/
def pushPlan (git : List Text → Outcome) (root : Text) : Except GitError (Text × Nat) :=
  match currentBranch git root with
  | .error e => .error e
  | .ok branch =>
    if branch = "HEAD".toList then .error .detachedHead
    else
      match refExists git root (originBranchRef branch) with
      | .error e => .error e
      | .ok known =>
        let target := if known then branch else resolveDefaultBranch git root
        match refExists git root (originBranchRef target) with
        | .error e => .error e
        | .ok tracked =>
          let refspec := if tracked then some ("origin/".toList ++ target) else none
          match runGit git (["-C".toList, root] ++ countPushedArgs refspec) with
          | .error e => .error e
          | .ok output =>
            match parseCount output with
            | .error e => .error e
            | .ok pushed => .ok (target, pushed)

def pushError : GitError → GitError
  | .commandFailed args status stderr =>
    match classifyPushStderr stderr with
    | .rejected => .pushRejected stderr
    | .authFailed => .gitWriteFailed stderr
    | .other => .commandFailed args status stderr
  | e => e

/-- The route in a repository: `git` tells how a command ends, `next` what it makes of the
repository.  All commands but the last only read. -/
def handlePush {σ : Type*} (git : σ → List Text → Outcome) (next : σ → List Text → σ)
    (root : Text) (s : σ) : Except GitError PushResponse × σ :=
  match pushPlan (git s) root with
  | .error e => (.error e, s)
  | .ok (target, pushed) =>
    let args := ["-C".toList, root] ++ pushArgs target
    match runGit (git s) args with
    | .ok _ => (.ok ⟨true, pushed⟩, next s args)
    | .error e => (.error (pushError e), next s args)

/-! ## Repositories -/

/-- The commits that can be reached from a commit: itself and its ancestors. -/
structure History (κ : Type*) where
  reach : κ → Finset κ
  self : ∀ c, c ∈ reach c
  trans : ∀ c, ∀ d ∈ reach c, reach d ⊆ reach c

/-- The branches of a work tree at the branch `head`, of its remote `origin` and what is known of
that one.  The default branch is the `HEAD` of the bare repository, if git can tell it. -/
structure Repo (κ : Type*) where
  head : Text
  heads : Text → Option κ
  tracking : Text → Option κ
  remote : Text → Option κ
  defaultBranch : Option Text

variable {κ : Type*}

/-- The commits of a branch that may not exist. -/
def History.reachOf (history : History κ) : Option κ → Finset κ
  | some c => history.reach c
  | none => ∅

/-- The commit is on the remote. -/
def Repo.Published (history : History κ) (s : Repo κ) (commit : κ) : Prop :=
  ∃ branch, commit ∈ history.reachOf (s.remote branch)

/-- The names are read up to white space at their ends. -/
def Repo.pushTarget (s : Repo κ) : Text :=
  if (s.tracking (trim s.head)).isSome then trim s.head
  else
    match s.defaultBranch with
    | some branch => trim branch
    | none => "main".toList

/-- The local branch that is pushed has the commits of `HEAD`, and others only if they are on the
remote already. -/
def Carries (history : History κ) (s : Repo κ) (head : κ) : Prop :=
  ∃ commit, s.heads s.pushTarget = some commit ∧ head ∈ history.reach commit ∧
    ∀ c ∈ history.reach commit, c ∈ history.reach head ∨ s.Published history c

/-- The branch of `HEAD` carries its commits. -/
theorem carries_of_own {history : History κ} {s : Repo κ} {head : κ}
    (hhead : s.heads s.head = some head) (hown : s.pushTarget = s.head) :
    Carries history s head :=
  ⟨head, hown ▸ hhead, history.self head, fun _ hc => Or.inl hc⟩

variable [DecidableEq κ]

def commonDirArgs (root : Text) : List Text :=
  ["-C".toList, root, "rev-parse".toList, "--git-common-dir".toList]

def defaultBranchArgs (commonDir : Text) : List Text :=
  ["--git-dir".toList, commonDir, "symbolic-ref".toList, "--short".toList, "HEAD".toList]

/-- What the commands print in a repository, and what a push makes of it: the branch of the remote
becomes the local branch of that name. -/
structure Documented (history : History κ) (git : Repo κ → List Text → Outcome)
    (next : Repo κ → List Text → Repo κ) (root : Text) (s : Repo κ) (head : κ) : Prop where
  attached : s.heads s.head = some head
  revParse : Prints (git s) (headArgs root) (s.head ++ ['\n'])
  showRef : ∀ branch, ∃ status stdout stderr,
    git s (["-C".toList, root] ++ showRefArgs (originBranchRef branch)) =
      .ended (s.tracking branch).isSome status stdout stderr
  symbolicRef : ∃ dir, Prints (git s) (commonDirArgs root) dir ∧
    match s.defaultBranch with
    | some branch => Prints (git s) (defaultBranchArgs (trim dir)) (branch ++ ['\n'])
    | none => ∃ e, runGit (git s) (defaultBranchArgs (trim dir)) = .error e
  revList : ∀ branch commit, s.tracking branch = some commit →
    Prints (git s) (["-C".toList, root] ++ countPushedArgs (some ("origin/".toList ++ branch)))
      (Nat.toDigits 10 (history.reach head \ history.reach commit).card ++ ['\n'])
  revListAll : Prints (git s) (["-C".toList, root] ++ countPushedArgs none)
    (Nat.toDigits 10 (history.reach head).card ++ ['\n'])
  push : ∀ branch stdout, runGit (git s) (["-C".toList, root] ++ pushArgs branch) = .ok stdout →
    ∃ commit, s.heads branch = some commit ∧
      (next s (["-C".toList, root] ++ pushArgs branch)).remote =
        Function.update s.remote branch (some commit)

/-- The push did what the answer says: the commits of `HEAD` are on the branch of the remote that
was updated, `pushed` of them were not on it as far as was known, and no others were published. -/
def Announced (history : History κ) (s s' : Repo κ) (head : κ) (pushed : Nat) : Prop :=
  ∃ commit, s'.remote s.pushTarget = some commit ∧ head ∈ history.reach commit ∧
    pushed = (history.reach head \ history.reachOf (s.tracking s.pushTarget)).card ∧
    ∀ c ∈ history.reach commit, c ∈ history.reach head ∨ s.Published history c

/-! ## One push -/

theorem parseCount_line {n pushed : Nat}
    (h : parseCount (Nat.toDigits 10 n ++ ['\n']) = .ok pushed) : pushed = n := by
  have hdigits : trim (Nat.toDigits 10 n) = Nat.toDigits 10 n := by
    apply trim_eq_self
    · intro c hc
      exact isWhite_of_isDigit (isDigit_toDigits (List.mem_of_mem_head? hc))
    · intro c hc
      exact isWhite_of_isDigit (isDigit_toDigits (List.mem_of_mem_getLast? hc))
  unfold parseCount at h
  rw [trim_concat isWhite_newline, hdigits, parseNat_toDigits] at h
  split_ifs at h
  exact (Except.ok.inj h).symm

variable {history : History κ} {git : Repo κ → List Text → Outcome}
  {next : Repo κ → List Text → Repo κ} {root : Text} {s : Repo κ} {head : κ}

theorem Documented.refExists (h : Documented history git next root s head) (branch : Text) :
    Git.refExists (git s) root (originBranchRef branch) = .ok (s.tracking branch).isSome := by
  obtain ⟨status, stdout, stderr, hgit⟩ := h.showRef branch
  rw [Git.refExists, hgit]

theorem Documented.resolveDefaultBranch (h : Documented history git next root s head) :
    Git.resolveDefaultBranch (git s) root =
      match s.defaultBranch with
      | some branch => trim branch
      | none => "main".toList := by
  obtain ⟨dir, hdir, hbranch⟩ := h.symbolicRef
  have hdir := hdir.runGit
  unfold commonDirArgs at hdir
  unfold Git.resolveDefaultBranch
  rw [hdir]
  dsimp only
  cases hdefault : s.defaultBranch with
  | none =>
    rw [hdefault] at hbranch
    obtain ⟨e, he⟩ := hbranch
    unfold defaultBranchArgs at he
    rw [he]
  | some branch =>
    rw [hdefault] at hbranch
    have hbranch : Prints (git s) (defaultBranchArgs (trim dir)) (branch ++ ['\n']) := hbranch
    have hprinted := hbranch.runGit
    unfold defaultBranchArgs at hprinted
    rw [hprinted]
    exact trim_concat isWhite_newline branch

/-- The plan is made for the target, and counts what its tracking branch lacks. -/
theorem Documented.pushPlan (h : Documented history git next root s head) {target : Text}
    {pushed : Nat} (hplan : pushPlan (git s) root = .ok (target, pushed)) :
    target = s.pushTarget ∧
      pushed = (history.reach head \ history.reachOf (s.tracking s.pushTarget)).card := by
  unfold Git.pushPlan at hplan
  rw [currentBranch_of_prints h.revParse, trim_concat isWhite_newline] at hplan
  dsimp only at hplan
  split_ifs at hplan with hhead
  rw [h.refExists, h.resolveDefaultBranch] at hplan
  dsimp only at hplan
  have htarget : (if (s.tracking (trim s.head)).isSome then trim s.head
      else match s.defaultBranch with
        | some branch => trim branch
        | none => "main".toList) = s.pushTarget := rfl
  rw [htarget, h.refExists] at hplan
  dsimp only at hplan
  cases htracking : s.tracking s.pushTarget with
  | none =>
    rw [htracking, Option.isSome_none, if_neg Bool.false_ne_true, h.revListAll.runGit] at hplan
    dsimp only at hplan
    cases hcount : parseCount (Nat.toDigits 10 (history.reach head).card ++ ['\n']) with
    | error e =>
      rw [hcount] at hplan
      cases hplan
    | ok n =>
      rw [hcount] at hplan
      cases hplan
      refine ⟨rfl, ?_⟩
      show pushed = (history.reach head \ ∅).card
      rw [Finset.sdiff_empty]
      exact parseCount_line hcount
  | some commit =>
    rw [htracking, Option.isSome_some, if_pos rfl, (h.revList _ _ htracking).runGit] at hplan
    dsimp only at hplan
    cases hcount : parseCount (Nat.toDigits 10
        (history.reach head \ history.reach commit).card ++ ['\n']) with
    | error e =>
      rw [hcount] at hplan
      cases hplan
    | ok n =>
      rw [hcount] at hplan
      cases hplan
      exact ⟨rfl, parseCount_line hcount⟩

/-- A push that succeeds counts what the tracking branch of the target lacks, and the branch of the
remote becomes the local branch with the name of the target. -/
theorem handlePush_ok (h : Documented history git next root s head) {response : PushResponse}
    {s' : Repo κ} (hok : handlePush git next root s = (.ok response, s')) :
    response.pushed =
        (history.reach head \ history.reachOf (s.tracking s.pushTarget)).card ∧
      ∃ commit, s.heads s.pushTarget = some commit ∧
        s'.remote = Function.update s.remote s.pushTarget (some commit) := by
  unfold handlePush at hok
  cases hplan : pushPlan (git s) root with
  | error e =>
    rw [hplan] at hok
    cases hok
  | ok plan =>
    rcases plan with ⟨target, pushed⟩
    obtain ⟨rfl, hpushed⟩ := h.pushPlan hplan
    rw [hplan] at hok
    dsimp only at hok
    cases hrun : runGit (git s) (["-C".toList, root] ++ pushArgs s.pushTarget) with
    | error e =>
      rw [hrun] at hok
      cases hok
    | ok stdout =>
      rw [hrun] at hok
      cases hok
      exact ⟨hpushed, h.push _ _ hrun⟩

/-! ## What is announced -/

/-- A push that succeeds did what it announces exactly when the local branch that was pushed has
the commits of `HEAD` and no other ones that were not on the remote. -/
theorem handlePush_iff (h : Documented history git next root s head) {response : PushResponse}
    {s' : Repo κ} (hok : handlePush git next root s = (.ok response, s')) :
    Announced history s s' head response.pushed ↔ Carries history s head := by
  obtain ⟨hpushed, commit, hlocal, hremote⟩ := handlePush_ok h hok
  have hupdated : s'.remote s.pushTarget = some commit := by
    rw [hremote, Function.update_self]
  constructor
  · intro hannounced
    rcases hannounced with ⟨commit', hcommit', hhead, -, hothers⟩
    rw [hupdated] at hcommit'
    cases hcommit'
    exact ⟨commit, hlocal, hhead, hothers⟩
  · intro hcarries
    rcases hcarries with ⟨commit', hcommit', hhead, hothers⟩
    rw [hlocal] at hcommit'
    cases hcommit'
    exact ⟨commit, hupdated, hhead, hpushed, hothers⟩

/-! ### A git that does what is documented -/

/-- The answer to a command, which is told apart by its last argument. -/
def answerTo (history : History κ) (s : Repo κ) (command last : Text) : Outcome :=
  let printed stdout := Outcome.ended true "exit status: 0".toList stdout []
  let failed := Outcome.ended false "exit status: 1".toList [] []
  if command = "rev-parse".toList then
    printed (if last = "HEAD".toList then s.head ++ ['\n'] else ".git\n".toList)
  else if command = "symbolic-ref".toList then
    match s.defaultBranch with
    | some branch => printed (branch ++ ['\n'])
    | none => failed
  else if command = "show-ref".toList then
    match stripPrefix "refs/remotes/origin/".toList last with
    | some branch => .ended (s.tracking branch).isSome [] [] []
    | none => failed
  else if command = "rev-list".toList then
    let ahead base := Nat.toDigits 10 (history.reachOf (s.heads s.head) \ base).card ++ ['\n']
    match stripPrefix "origin/".toList last with
    | some range =>
      printed (ahead (history.reachOf (s.tracking (range.take (range.length - 6)))))
    | none => printed (ahead ∅)
  else if command = "push".toList then
    if (s.heads last).isSome then printed [] else failed
  else failed

def gitIn (history : History κ) (s : Repo κ) (args : List Text) : Outcome :=
  answerTo history s (args[2]?.getD []) (args.getLast?.getD [])

def nextIn (s : Repo κ) (args : List Text) : Repo κ :=
  let last := args.getLast?.getD []
  if args[2]? = some "push".toList then
    { s with
      remote := Function.update s.remote last (s.heads last)
      tracking := Function.update s.tracking last (s.heads last) }
  else s

theorem gitIn_documented (hhead : s.heads s.head = some head) :
    Documented history (gitIn history) nextIn root s head where
  attached := hhead
  revParse := by
    refine ⟨"exit status: 0".toList, [], ?_⟩
    show answerTo history s "rev-parse".toList "HEAD".toList = _
    unfold answerTo
    dsimp only
    rw [if_pos rfl, if_pos rfl]
  showRef := by
    intro branch
    refine ⟨[], [], [], ?_⟩
    show answerTo history s "show-ref".toList (originBranchRef branch) = _
    have hname : stripPrefix "refs/remotes/origin/".toList (originBranchRef branch) =
        some branch := stripPrefix_append _ _
    unfold answerTo
    dsimp only
    rw [if_neg (by decide), if_neg (by decide), if_pos rfl, hname]
  symbolicRef := by
    have hdir : Prints (gitIn history s) (commonDirArgs root) ".git\n".toList := by
      refine ⟨"exit status: 0".toList, [], ?_⟩
      show answerTo history s "rev-parse".toList "--git-common-dir".toList = _
      unfold answerTo
      dsimp only
      rw [if_pos rfl, if_neg (by decide)]
    refine ⟨".git\n".toList, hdir, ?_⟩
    have hanswer : gitIn history s (defaultBranchArgs (trim ".git\n".toList)) =
        match s.defaultBranch with
        | some branch => .ended true "exit status: 0".toList (branch ++ ['\n']) []
        | none => .ended false "exit status: 1".toList [] [] := by
      show answerTo history s "symbolic-ref".toList "HEAD".toList = _
      unfold answerTo
      dsimp only
      rw [if_neg (by decide), if_pos rfl]
    cases hdefault : s.defaultBranch with
    | none =>
      rw [hdefault] at hanswer
      exact ⟨_, by rw [runGit, hanswer]⟩
    | some branch =>
      rw [hdefault] at hanswer
      exact ⟨_, _, hanswer⟩
  revList := by
    intro branch commit hcommit
    refine ⟨"exit status: 0".toList, [], ?_⟩
    show answerTo history s "rev-list".toList
      ("origin/".toList ++ branch ++ "..HEAD".toList) = _
    have hlength : (branch ++ "..HEAD".toList).length - 6 = branch.length := by
      rw [List.length_append]
      exact Nat.add_sub_cancel branch.length 6
    unfold answerTo
    dsimp only
    rw [if_neg (by decide), if_neg (by decide), if_neg (by decide), if_pos rfl,
      List.append_assoc, stripPrefix_append]
    dsimp only
    rw [hlength, List.take_left, hcommit, hhead]
    rfl
  revListAll := by
    refine ⟨"exit status: 0".toList, [], ?_⟩
    show answerTo history s "rev-list".toList "HEAD".toList = _
    have hnone : stripPrefix "origin/".toList "HEAD".toList = none := by decide
    unfold answerTo
    dsimp only
    rw [if_neg (by decide), if_neg (by decide), if_neg (by decide), if_pos rfl, hnone]
    dsimp only
    rw [Finset.sdiff_empty, hhead]
    rfl
  push := by
    intro branch stdout hrun
    have hanswer : gitIn history s (["-C".toList, root] ++ pushArgs branch) =
        if (s.heads branch).isSome then .ended true "exit status: 0".toList [] []
        else .ended false "exit status: 1".toList [] [] := by
      show answerTo history s "push".toList branch = _
      unfold answerTo
      dsimp only
      rw [if_neg (by decide), if_neg (by decide), if_neg (by decide), if_neg (by decide),
        if_pos rfl]
    cases hlocal : s.heads branch with
    | none =>
      rw [hlocal, Option.isSome_none, if_neg Bool.false_ne_true] at hanswer
      rw [runGit, hanswer] at hrun
      cases hrun
    | some commit =>
      refine ⟨commit, rfl, ?_⟩
      have hnext : (nextIn s (["-C".toList, root] ++ pushArgs branch)).remote =
          Function.update s.remote branch (s.heads branch) := by
        have hcommand : (["-C".toList, root] ++ pushArgs branch)[2]? = some "push".toList := rfl
        unfold nextIn
        dsimp only
        rw [if_pos hcommand]
        rfl
      rw [hnext, hlocal]

/-- Two commits behind the first one, and one beside them. -/
def forked : History (Fin 4) where
  reach
    | 0 => {0}
    | 1 => {0, 1}
    | 2 => {0, 1, 2}
    | 3 => {0, 3}
  self := by decide
  trans := by decide

/-- At `branch`, where the remote has only `main` with the first commit. -/
def forkedRepo (branch : Text) (heads : Text → Option (Fin 4)) : Repo (Fin 4) where
  head := branch
  heads := heads
  tracking name := if name = "main".toList then some 0 else none
  remote name := if name = "main".toList then some 0 else none
  defaultBranch := some "main".toList

def onMainBranch : Repo (Fin 4) := forkedRepo "main".toList fun _ => some 2

/-- A new branch with two commits; `main` has one of its own. -/
def onNewBranch : Repo (Fin 4) :=
  forkedRepo "feat".toList fun name => if name = "feat".toList then some 2 else some 3

/-- The two commits of `main` are announced and pushed. -/
theorem handlePush_main :
    (handlePush (gitIn forked) nextIn worktree onMainBranch).1 = .ok ⟨true, 2⟩ ∧
      Announced forked onMainBranch (handlePush (gitIn forked) nextIn worktree onMainBranch).2
        2 2 := by
  have hok : (handlePush (gitIn forked) nextIn worktree onMainBranch).1 = .ok ⟨true, 2⟩ := by
    decide +kernel
  exact ⟨hok, (handlePush_iff (gitIn_documented rfl) (Prod.ext hok rfl)).2
    (carries_of_own rfl (by decide))⟩

/-- The first push of a new branch pushes `main` in its place. -/
theorem push_newBranch :
    ¬∀ (history : History (Fin 4)) (git : Repo (Fin 4) → List Text → Outcome)
        (next : Repo (Fin 4) → List Text → Repo (Fin 4)) (root : Text) (s s' : Repo (Fin 4))
        (head : Fin 4) (response : PushResponse),
      Documented history git next root s head →
        handlePush git next root s = (.ok response, s') →
          Announced history s s' head response.pushed := by
  intro hall
  have hok : (handlePush (gitIn forked) nextIn worktree onNewBranch).1 = .ok ⟨true, 2⟩ := by
    decide +kernel
  have hrun : handlePush (gitIn forked) nextIn worktree onNewBranch =
      (.ok ⟨true, 2⟩, (handlePush (gitIn forked) nextIn worktree onNewBranch).2) :=
    Prod.ext hok rfl
  have htarget : onNewBranch.pushTarget = "main".toList := by decide
  obtain ⟨commit, hcommit, hhead, -⟩ := hall forked (gitIn forked) nextIn worktree onNewBranch _ 2
    ⟨true, 2⟩ (gitIn_documented rfl) hrun
  obtain ⟨-, pushed, hpushed, hremote⟩ := handlePush_ok (gitIn_documented rfl) hrun
  rw [hremote, Function.update_self] at hcommit
  rw [htarget] at hpushed
  cases hcommit
  cases hpushed
  exact absurd hhead (by decide)

end Vanyline.Sandbox.Git
