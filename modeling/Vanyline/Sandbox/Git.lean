import Vanyline.Lib.Fields

/-!
# Commands of git

The sandbox answers the requests on `/git` by running git.  What a process does is not in the
repository: `git` is a parameter that tells, for each list of arguments, how the process ended.

* `runGit` gives the standard output of a command that succeeds.
* `refExists` and `resolveDefaultBranch` ask about the references of the work tree.
* `parseLines` reads an output that has one record in each line, and `parseLines_eq_ok_iff` says
  when the records that were printed come back.

The text is what the bytes of the output are decoded to.
-/

namespace Vanyline.Sandbox.Git

open Vanyline.Lib.TextLines Vanyline.Lib.Fields

/-! ## Errors -/

/-- The errors of the modelled routes. -/
inductive GitError where
  | commandFailed (args : List Text) (status stderr : Text)
  | parseFailed (lineNo : Nat) (line : Text)
  | detachedHead
  | pushRejected (stderr : Text)
  | gitWriteFailed (stderr : Text)
  deriving DecidableEq

/-- What became of a process. -/
inductive Outcome where
  /-- The program cannot be started. -/
  | notStarted (message : Text)
  | ended (success : Bool) (status stdout stderr : Text)

/-! ## Commands -/

def runGit (git : List Text → Outcome) (args : List Text) : Except GitError Text :=
  match git args with
  | .notStarted message => .error (.commandFailed args message [])
  | .ended false status _ stderr => .error (.commandFailed args status stderr)
  | .ended true _ stdout _ => .ok stdout

def showRefArgs (refname : Text) : List Text :=
  ["show-ref".toList, "--verify".toList, "--quiet".toList, refname]

def refExists (git : List Text → Outcome) (worktreeRoot refname : Text) : Except GitError Bool :=
  match git (["-C".toList, worktreeRoot] ++ showRefArgs refname) with
  | .notStarted message => .error (.commandFailed (showRefArgs refname) message [])
  | .ended success _ _ _ => .ok success

/-- The branch of the `HEAD` of the bare repository.  An error stands for `main`. -/
def resolveDefaultBranch (git : List Text → Outcome) (worktreeRoot : Text) : Text :=
  match runGit git ["-C".toList, worktreeRoot, "rev-parse".toList, "--git-common-dir".toList] with
  | .error _ => "main".toList
  | .ok commonDir =>
    match runGit git ["--git-dir".toList, trim commonDir, "symbolic-ref".toList,
        "--short".toList, "HEAD".toList] with
    | .ok branch => trim branch
    | .error _ => "main".toList

def headArgs (root : Text) : List Text :=
  ["-C".toList, root, "rev-parse".toList, "--abbrev-ref".toList, "HEAD".toList]

/-- The short name of `HEAD`; it is `HEAD` when that is detached. -/
def currentBranch (git : List Text → Outcome) (root : Text) : Except GitError Text :=
  match runGit git (headArgs root) with
  | .ok branch => .ok (trim branch)
  | .error e => .error e

/-- The command succeeds and prints a text. -/
def Prints (git : List Text → Outcome) (args : List Text) (stdout : Text) : Prop :=
  ∃ status stderr, git args = .ended true status stdout stderr

theorem Prints.runGit {git : List Text → Outcome} {args : List Text} {stdout : Text}
    (h : Prints git args stdout) : runGit git args = .ok stdout := by
  rcases h with ⟨status, stderr, hgit⟩
  rw [Git.runGit, hgit]

/-- A text with something in it and no space or control character of ASCII. -/
structure Word where
  text : Text
  nonempty : text ≠ []
  visible : ∀ c ∈ text, 32 < c.toNat

/-- The word of a text that passes the check. -/
def Word.ofText (text : Text)
    (h : (!text.isEmpty && text.all fun c => decide (32 < c.toNat)) = true) : Word where
  text := text
  nonempty := by
    intro hnil
    rw [hnil] at h
    cases h
  visible := by
    rw [Bool.and_eq_true, List.all_eq_true] at h
    exact fun c hc => of_decide_eq_true (h.2 c hc)

theorem Word.notMem (w : Word) {c : Char} (h : c.toNat ≤ 32) : c ∉ w.text := by
  intro hmem
  have hvisible := w.visible c hmem
  omega

theorem currentBranch_of_prints {git : List Text → Outcome} {root head : Text}
    (h : Prints git (headArgs root) head) : currentBranch git root = .ok (trim head) := by
  rw [currentBranch, h.runGit]

/-! ## Outputs with a record in each line -/

section Records

variable {α β : Type*}

/-- The records of the lines from a number on.  Empty lines are left out. -/
def parseLinesFrom (parse : Nat → Text → Except GitError α) :
    Nat → List Text → Except GitError (List α)
  | _, [] => .ok []
  | idx, line :: rest =>
    if line = [] then parseLinesFrom parse (idx + 1) rest
    else
      match parse (idx + 1) line with
      | .error e => .error e
      | .ok record =>
        match parseLinesFrom parse (idx + 1) rest with
        | .error e => .error e
        | .ok records => .ok (record :: records)

def parseLines (parse : Nat → Text → Except GitError α) (output : Text) :
    Except GitError (List α) :=
  parseLinesFrom parse 0 (lines output)

variable {parse : Nat → Text → Except GitError α} {render : β → Text} {view : β → α}

/-- What a line of the output is like. -/
def IsLine (line : Text) : Prop := line ≠ [] ∧ '\n' ∉ line ∧ line.getLast? ≠ some '\r'

theorem lines_render {records : List β} (hline : ∀ r ∈ records, IsLine (render r)) :
    lines (joinLines (records.map render)) = records.map render := by
  apply lines_joinLines
  intro line hmem
  rcases List.mem_map.1 hmem with ⟨r, hr, rfl⟩
  exact hline r hr

theorem parseLinesFrom_eq_ok_iff {plain : β → Prop} {records : List β}
    (hline : ∀ r ∈ records, render r ≠ [])
    (hplain : ∀ r ∈ records, plain r → ∀ i, parse i (render r) = .ok (view r))
    (hother : ∀ r ∈ records, ¬plain r → ∀ i, ∃ e, parse i (render r) = .error e) (idx : Nat)
    {out : List α} :
    parseLinesFrom parse idx (records.map render) = .ok out ↔
      out = records.map view ∧ ∀ r ∈ records, plain r := by
  induction records generalizing idx out with
  | nil =>
    show Except.ok [] = Except.ok out ↔ _
    rw [Except.ok.injEq]
    exact ⟨fun h => ⟨h.symm, fun r hr => nomatch hr⟩, fun h => h.1.symm⟩
  | cons r records ih =>
    rw [List.forall_mem_cons] at hline hplain hother
    rw [List.map_cons, parseLinesFrom, if_neg hline.1, List.forall_mem_cons]
    by_cases hr : plain r
    · rw [hplain.1 hr]
      dsimp only
      cases hrest : parseLinesFrom parse (idx + 1) (records.map render) with
      | error e =>
        have hnone := (ih hline.2 hplain.2 hother.2 (idx + 1)).not.1
          (show ¬parseLinesFrom parse (idx + 1) _ = .ok (records.map view) by rw [hrest]; simp)
        exact ⟨fun h => (nomatch h), fun h => absurd ⟨rfl, h.2.2⟩ hnone⟩
      | ok rest =>
        have hrest := (ih hline.2 hplain.2 hother.2 (idx + 1)).1 hrest
        show Except.ok (view r :: rest) = Except.ok out ↔ _
        rw [Except.ok.injEq, hrest.1, List.map_cons]
        exact ⟨fun h => ⟨h.symm, hr, hrest.2⟩, fun h => h.1.symm⟩
    · obtain ⟨e, he⟩ := hother.1 hr (idx + 1)
      rw [he]
      exact ⟨fun h => (nomatch h), fun h => absurd h.2.1 hr⟩

/-- The records that were printed, each in a line of its own, come back when all of them can be
read.  One line that cannot be read makes the whole output an error. -/
theorem parseLines_eq_ok_iff {plain : β → Prop} {records : List β}
    (hline : ∀ r ∈ records, IsLine (render r))
    (hplain : ∀ r ∈ records, plain r → ∀ i, parse i (render r) = .ok (view r))
    (hother : ∀ r ∈ records, ¬plain r → ∀ i, ∃ e, parse i (render r) = .error e) {out : List α} :
    parseLines parse (joinLines (records.map render)) = .ok out ↔
      out = records.map view ∧ ∀ r ∈ records, plain r := by
  rw [parseLines, lines_render hline]
  exact parseLinesFrom_eq_ok_iff (fun r hr => (hline r hr).1) hplain hother 0

end Records

end Vanyline.Sandbox.Git
