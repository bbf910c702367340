import Vanyline.Lib.Utf8
import Vanyline.Sandbox.Git

/-!
# The files of `/git/status`

`parseStatus` reads the output of `git status --porcelain=v2 --branch`: a header, and one line for
each changed file, with its path at the end.

* Git prints a path with special characters between quotes, in the notation of C (`quotePath`).
  Which characters are special depends on the setting `core.quotePath`.
* `parseStatus_porcelain` says what comes back for every header and every list of entries: the
  state and the columns of each, and its path as it was printed.  The quotes are not taken away.
* `parseStatus_iff`: the paths come back exactly when none of them had to be quoted.
-/

namespace Vanyline.Sandbox.Git

open Vanyline.Lib.TextLines Vanyline.Lib.Fields

/-! ## The answer -/

inductive FileState where
  | modified
  | added
  | deleted
  | renamed
  | untracked
  | conflicted
  deriving DecidableEq

structure FileEntry where
  path : Text
  state : FileState
  staged : Bool
  deriving DecidableEq

structure GitStatus where
  branch : Text
  files : List FileEntry
  clean : Bool
  deriving DecidableEq

/-! ## Reading the lines -/

def mapStateChar : Char → Option FileState
  | 'A' => some .added
  | 'D' => some .deleted
  | 'M' => some .modified
  | 'T' => some .modified
  | 'R' => some .renamed
  | 'C' => some .renamed
  | 'U' => some .conflicted
  | _ => none

/-- The index column counts, and the column of the work tree when that has a dot. -/
def entryFromXy (xy path : Text) (lineNo : Nat) (fullLine : Text) : Except GitError FileEntry :=
  match xy with
  | x :: y :: _ =>
    let effective := if x = '.' then y else x
    let staged := if x = '.' then false else true
    match mapStateChar effective with
    | some state => .ok ⟨path, state, staged⟩
    | none => .error (.parseFailed lineNo fullLine)
  | _ => .error (.parseFailed lineNo fullLine)

def parseOrdinary (remainder : Text) (lineNo : Nat) (fullLine : Text) :
    Except GitError FileEntry :=
  match splitn ' ' 8 remainder with
  | [xy, _sub, _mh, _mi, _mw, _hh, _hi, path] => entryFromXy xy path lineNo fullLine
  | _ => .error (.parseFailed lineNo fullLine)

/-- The path is in front of a tab, the original path behind it. -/
def parseRename (remainder : Text) (lineNo : Nat) (fullLine : Text) : Except GitError FileEntry :=
  match splitn ' ' 9 remainder with
  | [xy, _sub, _mh, _mi, _mw, _hh, _hi, _score, pathAndOrig] =>
    entryFromXy xy (splitOnce '\t' pathAndOrig).1 lineNo fullLine
  | _ => .error (.parseFailed lineNo fullLine)

def parseUnmerged (remainder : Text) (lineNo : Nat) (fullLine : Text) :
    Except GitError FileEntry :=
  match splitn ' ' 10 remainder with
  | [_xy, _sub, _m1, _m2, _m3, _mw, _h1, _h2, _h3, path] => .ok ⟨path, .conflicted, true⟩
  | _ => .error (.parseFailed lineNo fullLine)

/-- What has been read so far. -/
structure StatusLines where
  branch : Option Text
  files : List FileEntry

def StatusLines.push (read : StatusLines) : Except GitError FileEntry → Except GitError StatusLines
  | .ok file => .ok { read with files := read.files ++ [file] }
  | .error e => .error e

def parseStatusLine (lineNo : Nat) (line : Text) (read : StatusLines) :
    Except GitError StatusLines :=
  match stripPrefix "# branch.head ".toList line with
  | some rest => .ok { read with branch := some rest }
  | none =>
    if (stripPrefix "# branch.".toList line).isSome then .ok read
    else
      let tag := (splitOnce ' ' line).1
      let remainder := (splitOnce ' ' line).2.getD []
      if tag = ['1'] then read.push (parseOrdinary remainder lineNo line)
      else if tag = ['2'] then read.push (parseRename remainder lineNo line)
      else if tag = ['u'] then read.push (parseUnmerged remainder lineNo line)
      else if tag = ['?'] then read.push (.ok ⟨remainder, .untracked, false⟩)
      else if tag = ['!'] then .ok read
      else .error (.parseFailed lineNo line)

def parseStatusFrom : Nat → List Text → StatusLines → Except GitError StatusLines
  | _, [], read => .ok read
  | idx, line :: rest, read =>
    if line = [] then parseStatusFrom (idx + 1) rest read
    else
      match parseStatusLine (idx + 1) line read with
      | .ok read => parseStatusFrom (idx + 1) rest read
      | .error e => .error e

def missingHeader : Text := "missing '# branch.head' header in git status output".toList

def parseStatus (output : Text) : Except GitError GitStatus :=
  match parseStatusFrom 0 (lines output) ⟨none, []⟩ with
  | .error e => .error e
  | .ok read =>
    match read.branch with
    | none => .error (.parseFailed 0 missingHeader)
    | some branch => .ok ⟨branch, read.files, read.files.isEmpty⟩

def statusArgs (root : Text) : List Text :=
  ["-C".toList, root, "status".toList, "--porcelain=v2".toList, "--branch".toList]

def runStatus (git : List Text → Outcome) (root : Text) : Except GitError GitStatus :=
  match runGit git (statusArgs root) with
  | .error e => .error e
  | .ok output => parseStatus output

/-! ## What git prints -/

/-- A path of git: parts between slashes, none of them empty. -/
structure GitPath where
  text : Text
  no_nul : '\x00' ∉ text
  parts : ∀ part ∈ text.splitOn '/', part ≠ []

/-- The characters that cannot be printed as they are.  With `core.quotePath` these are also all
that are not ASCII. -/
def IsSpecial (quoteNonAscii : Bool) (c : Char) : Prop :=
  c.toNat < 32 ∨ c = '"' ∨ c = '\\' ∨ c.toNat = 127 ∨ quoteNonAscii = true ∧ 127 < c.toNat

instance (quoteNonAscii : Bool) (c : Char) : Decidable (IsSpecial quoteNonAscii c) :=
  inferInstanceAs (Decidable (_ ∨ _))

/-- A byte as a backslash and three octal digits. -/
def octal (b : UInt8) : Text :=
  let digit (n : Nat) := Char.ofNat (48 + n % 8)
  ['\\', digit (b.toNat / 64), digit (b.toNat / 8), digit b.toNat]

def escape (c : Char) : Text :=
  if c = '\x07' then ['\\', 'a']
  else if c = '\x08' then ['\\', 'b']
  else if c = '\t' then ['\\', 't']
  else if c = '\n' then ['\\', 'n']
  else if c = '\x0b' then ['\\', 'v']
  else if c = '\x0c' then ['\\', 'f']
  else if c = '\r' then ['\\', 'r']
  else if c = '"' ∨ c = '\\' then ['\\', c]
  else (String.utf8EncodeChar c).flatMap octal

/-- A path as git prints it. -/
def quotePath (quoteNonAscii : Bool) (path : Text) : Text :=
  if path.any fun c => decide (IsSpecial quoteNonAscii c) then
    '"' :: path.flatMap (fun c => if IsSpecial quoteNonAscii c then escape c else [c]) ++ ['"']
  else path

/-- A change that a column of the status tells of. -/
inductive Change where
  | modified
  | typechange
  | added
  | deleted
  | renamed
  | copied

def Change.letter : Change → Char
  | .modified => 'M'
  | .typechange => 'T'
  | .added => 'A'
  | .deleted => 'D'
  | .renamed => 'R'
  | .copied => 'C'

/-- The states of the answer: there is none for a change of the type or for a copy. -/
def Change.state : Change → FileState
  | .modified => .modified
  | .typechange => .modified
  | .added => .added
  | .deleted => .deleted
  | .renamed => .renamed
  | .copied => .renamed

/-- The changes in the index and in the work tree: there is one in at least one of them. -/
inductive Columns where
  | staged (index : Change) (worktree : Option Change)
  | unstaged (worktree : Change)

def columnLetter : Option Change → Char
  | none => '.'
  | some change => change.letter

def Columns.text : Columns → Text
  | .staged index worktree => [index.letter, columnLetter worktree]
  | .unstaged worktree => ['.', worktree.letter]

/-- A file that git lists. -/
inductive Entry where
  | ordinary (xy : Columns) (sub mH mI mW hH hI : Word) (path : GitPath)
  | renamed (xy : Columns) (sub mH mI mW hH hI score : Word) (path orig : GitPath)
  | unmerged (xy sub m1 m2 m3 mW h1 h2 h3 : Word) (path : GitPath)
  | untracked (path : GitPath)

def Entry.path : Entry → GitPath
  | .ordinary _ _ _ _ _ _ _ path => path
  | .renamed _ _ _ _ _ _ _ _ path _ => path
  | .unmerged _ _ _ _ _ _ _ _ _ path => path
  | .untracked path => path

/-- The fields in front of the path. -/
def Entry.fields : Entry → List Text
  | .ordinary xy sub mH mI mW hH hI _ =>
    [['1'], xy.text, sub.text, mH.text, mI.text, mW.text, hH.text, hI.text]
  | .renamed xy sub mH mI mW hH hI score _ _ =>
    [['2'], xy.text, sub.text, mH.text, mI.text, mW.text, hH.text, hI.text, score.text]
  | .unmerged xy sub m1 m2 m3 mW h1 h2 h3 _ =>
    [['u'], xy.text, sub.text, m1.text, m2.text, m3.text, mW.text, h1.text, h2.text, h3.text]
  | .untracked _ => [['?']]

/-- The end of the line: the path, and the original path of a file that was renamed. -/
def Entry.paths (quoteNonAscii : Bool) : Entry → Text
  | .renamed _ _ _ _ _ _ _ _ path orig =>
    quotePath quoteNonAscii path.text ++ '\t' :: quotePath quoteNonAscii orig.text
  | entry => quotePath quoteNonAscii entry.path.text

def entryLine (quoteNonAscii : Bool) (entry : Entry) : Text :=
  entry.fields.flatMap (· ++ [' ']) ++ entry.paths quoteNonAscii

/-- The header: the commit, the branch, its upstream and how many commits each is ahead. -/
structure Header where
  oid : Word
  branch : Word
  upstream : Option (Word × Option (Nat × Nat))

def Header.lines (header : Header) : List Text :=
  ["# branch.oid ".toList ++ header.oid.text, "# branch.head ".toList ++ header.branch.text] ++
    match header.upstream with
    | none => []
    | some (name, none) => ["# branch.upstream ".toList ++ name.text]
    | some (name, some (ahead, behind)) =>
      ["# branch.upstream ".toList ++ name.text,
        "# branch.ab +".toList ++ Nat.toDigits 10 ahead ++ " -".toList ++ Nat.toDigits 10 behind]

/-- The output of `git status --porcelain=v2 --branch`. -/
def porcelain (quoteNonAscii : Bool) (header : Header) (entries : List Entry) : Text :=
  unlines (header.lines ++ entries.map (entryLine quoteNonAscii))

/-! ## Quoted paths -/

/-- The check of the characters of a text. -/
theorem visible_of_all {text : Text} (h : text.all (fun c => decide (32 ≤ c.toNat)) = true) :
    ∀ c ∈ text, 32 ≤ c.toNat := by
  rw [List.all_eq_true] at h
  exact fun c hc => of_decide_eq_true (h c hc)

theorem octal_visible (b : UInt8) : ∀ c ∈ octal b, 32 ≤ c.toNat := by
  have hdigits : ∀ n < 8, 32 ≤ (Char.ofNat (48 + n)).toNat := by decide
  have hdigit : ∀ n, 32 ≤ (Char.ofNat (48 + n % 8)).toNat :=
    fun n => hdigits _ (Nat.mod_lt n (by decide))
  intro c hc
  simp only [octal, List.mem_cons, List.not_mem_nil, or_false] at hc
  rcases hc with rfl | rfl | rfl | rfl
  · decide
  · exact hdigit _
  · exact hdigit _
  · exact hdigit _

theorem escape_visible (c : Char) : ∀ d ∈ escape c, 32 ≤ d.toNat := by
  unfold escape
  split_ifs with h1 h2 h3 h4 h5 h6 h7 h8
  · exact visible_of_all rfl
  · exact visible_of_all rfl
  · exact visible_of_all rfl
  · exact visible_of_all rfl
  · exact visible_of_all rfl
  · exact visible_of_all rfl
  · exact visible_of_all rfl
  · rcases h8 with rfl | rfl
    · exact visible_of_all rfl
    · exact visible_of_all rfl
  · intro d hd
    rcases List.mem_flatMap.1 hd with ⟨b, -, hmem⟩
    exact octal_visible b d hmem

theorem escape_ne_nil (c : Char) : escape c ≠ [] := by
  unfold escape
  split_ifs
  · exact List.cons_ne_nil _ _
  · exact List.cons_ne_nil _ _
  · exact List.cons_ne_nil _ _
  · exact List.cons_ne_nil _ _
  · exact List.cons_ne_nil _ _
  · exact List.cons_ne_nil _ _
  · exact List.cons_ne_nil _ _
  · exact List.cons_ne_nil _ _
  · intro hnil
    cases hbytes : String.utf8EncodeChar c with
    | nil =>
      have hlength := String.length_utf8EncodeChar c
      have hpos := Char.utf8Size_pos c
      rw [hbytes, List.length_nil] at hlength
      omega
    | cons b bytes =>
      rw [hbytes] at hnil
      cases hnil

/-- A printed path has no control characters. -/
theorem quotePath_visible (quoteNonAscii : Bool) (path : Text) :
    ∀ c ∈ quotePath quoteNonAscii path, 32 ≤ c.toNat := by
  intro c hc
  unfold quotePath at hc
  split_ifs at hc with hspecial
  · rcases List.mem_append.1 hc with hc | hc
    · rcases List.mem_cons.1 hc with rfl | hc
      · decide
      · rcases List.mem_flatMap.1 hc with ⟨d, -, hd⟩
        split_ifs at hd with hd'
        · exact escape_visible d c hd
        · rw [List.mem_singleton.1 hd]
          exact Nat.le_of_not_lt fun hlt => hd' (Or.inl hlt)
    · rw [List.mem_singleton.1 hc]
      decide
  · refine Nat.le_of_not_lt fun hlt => hspecial ?_
    exact List.any_eq_true.2 ⟨c, hc, decide_eq_true (Or.inl hlt)⟩

/-- Quotes make a path longer. -/
theorem quotePath_eq_self_iff (quoteNonAscii : Bool) (path : Text) :
    quotePath quoteNonAscii path = path ↔ ∀ c ∈ path, ¬IsSpecial quoteNonAscii c := by
  constructor
  · intro heq c hc hspecial
    unfold quotePath at heq
    rw [if_pos (List.any_eq_true.2 ⟨c, hc, decide_eq_true hspecial⟩)] at heq
    have hlonger : ∀ text : Text, text.length ≤ (text.flatMap fun c =>
        if IsSpecial quoteNonAscii c then escape c else [c]).length := by
      intro text
      induction text with
      | nil => exact Nat.zero_le _
      | cons d text ih =>
        have hpos : 0 < (if IsSpecial quoteNonAscii d then escape d else [d]).length := by
          split_ifs
          · exact List.length_pos_iff.2 (escape_ne_nil d)
          · exact Nat.one_pos
        rw [List.flatMap_cons, List.length_append, List.length_cons]
        omega
    have hlength := congrArg List.length heq
    have hpath := hlonger path
    rw [List.length_append, List.length_cons, List.length_singleton] at hlength
    omega
  · intro hnone
    rw [quotePath, if_neg]
    intro hspecial
    rcases List.any_eq_true.1 hspecial with ⟨c, hc, h⟩
    exact hnone c hc (of_decide_eq_true h)

/-! ## Lines that are read back -/

def Columns.shown : Columns → FileState × Bool
  | .staged index _ => (index.state, true)
  | .unstaged worktree => (worktree.state, false)

/-- What the answer says of an entry, with a path. -/
def Entry.file (path : Text) : Entry → FileEntry
  | .ordinary xy .. => ⟨path, xy.shown.1, xy.shown.2⟩
  | .renamed xy .. => ⟨path, xy.shown.1, xy.shown.2⟩
  | .unmerged .. => ⟨path, .conflicted, true⟩
  | .untracked _ => ⟨path, .untracked, false⟩

theorem mapStateChar_letter (change : Change) :
    mapStateChar change.letter = some change.state := by
  cases change <;> rfl

theorem letter_ne_dot (change : Change) : change.letter ≠ '.' := by
  cases change <;> decide

theorem entryFromXy_columns (xy : Columns) (path : Text) (lineNo : Nat) (fullLine : Text) :
    entryFromXy xy.text path lineNo fullLine = .ok ⟨path, xy.shown.1, xy.shown.2⟩ := by
  cases xy with
  | staged index worktree =>
    unfold Columns.text entryFromXy
    dsimp only
    rw [if_neg (letter_ne_dot index), if_neg (letter_ne_dot index), mapStateChar_letter]
    rfl
  | unstaged worktree =>
    unfold Columns.text entryFromXy
    dsimp only
    rw [if_pos rfl, if_pos rfl, mapStateChar_letter]
    rfl

theorem columns_visible (xy : Columns) : ∀ c ∈ xy.text, 32 < c.toNat := by
  have hletter : ∀ change : Change, 32 < change.letter.toNat := by
    intro change
    cases change <;> decide
  intro c hc
  cases xy with
  | staged index worktree =>
    rcases List.mem_cons.1 hc with rfl | hc
    · exact hletter index
    · rw [List.mem_singleton.1 hc]
      cases worktree with
      | none => decide
      | some change => exact hletter change
  | unstaged worktree =>
    rcases List.mem_cons.1 hc with rfl | hc
    · decide
    · rw [List.mem_singleton.1 hc]
      exact hletter worktree

theorem space_notMem_columns (xy : Columns) : ' ' ∉ xy.text := fun h =>
  absurd (columns_visible xy _ h) (by decide)

theorem tab_notMem_quotePath (quoteNonAscii : Bool) (path : Text) :
    '\t' ∉ quotePath quoteNonAscii path := fun h =>
  absurd (quotePath_visible quoteNonAscii path _ h) (by decide)

theorem parseOrdinary_fields (xy : Columns) (sub mH mI mW hH hI : Word) (path : Text)
    (lineNo : Nat) (fullLine : Text) :
    parseOrdinary ([xy.text, sub.text, mH.text, mI.text, mW.text, hH.text, hI.text].flatMap
      (· ++ [' ']) ++ path) lineNo fullLine = .ok ⟨path, xy.shown.1, xy.shown.2⟩ := by
  have hfields : ∀ f ∈ [xy.text, sub.text, mH.text, mI.text, mW.text, hH.text, hI.text],
      ' ' ∉ f := by
    simp only [List.forall_mem_cons, List.not_mem_nil, false_implies, implies_true, and_true]
    exact ⟨space_notMem_columns xy, sub.notMem (by decide), mH.notMem (by decide),
      mI.notMem (by decide), mW.notMem (by decide), hH.notMem (by decide),
      hI.notMem (by decide)⟩
  have hsplit := splitn_ended hfields path
  rw [parseOrdinary]
  simp only [List.length_cons, List.length_nil] at hsplit
  rw [hsplit]
  exact entryFromXy_columns xy path lineNo fullLine

/-- The original path is left out. -/
theorem parseRename_fields (xy : Columns) (sub mH mI mW hH hI score : Word) {path : Text}
    (hpath : '\t' ∉ path) (orig : Text) (lineNo : Nat) (fullLine : Text) :
    parseRename ([xy.text, sub.text, mH.text, mI.text, mW.text, hH.text, hI.text,
      score.text].flatMap (· ++ [' ']) ++ (path ++ '\t' :: orig)) lineNo fullLine =
      .ok ⟨path, xy.shown.1, xy.shown.2⟩ := by
  have hfields : ∀ f ∈ [xy.text, sub.text, mH.text, mI.text, mW.text, hH.text, hI.text,
      score.text], ' ' ∉ f := by
    simp only [List.forall_mem_cons, List.not_mem_nil, false_implies, implies_true, and_true]
    exact ⟨space_notMem_columns xy, sub.notMem (by decide), mH.notMem (by decide),
      mI.notMem (by decide), mW.notMem (by decide), hH.notMem (by decide),
      hI.notMem (by decide), score.notMem (by decide)⟩
  have hsplit := splitn_ended hfields (path ++ '\t' :: orig)
  rw [parseRename]
  simp only [List.length_cons, List.length_nil] at hsplit
  rw [hsplit]
  dsimp only [List.cons_append, List.nil_append]
  rw [splitOnce_append hpath]
  exact entryFromXy_columns xy path lineNo fullLine

theorem parseUnmerged_fields (xy sub m1 m2 m3 mW h1 h2 h3 : Word) (path : Text) (lineNo : Nat)
    (fullLine : Text) :
    parseUnmerged ([xy.text, sub.text, m1.text, m2.text, m3.text, mW.text, h1.text, h2.text,
      h3.text].flatMap (· ++ [' ']) ++ path) lineNo fullLine = .ok ⟨path, .conflicted, true⟩ := by
  have hfields : ∀ f ∈ [xy.text, sub.text, m1.text, m2.text, m3.text, mW.text, h1.text, h2.text,
      h3.text], ' ' ∉ f := by
    simp only [List.forall_mem_cons, List.not_mem_nil, false_implies, implies_true, and_true]
    exact ⟨xy.notMem (by decide), sub.notMem (by decide), m1.notMem (by decide),
      m2.notMem (by decide), m3.notMem (by decide), mW.notMem (by decide), h1.notMem (by decide),
      h2.notMem (by decide), h3.notMem (by decide)⟩
  have hsplit := splitn_ended hfields path
  rw [parseUnmerged]
  simp only [List.length_cons, List.length_nil] at hsplit
  rw [hsplit]
  rfl

/-- The path of an entry as the answer has it. -/
def Entry.printed (quoteNonAscii : Bool) (entry : Entry) : FileEntry :=
  entry.file (quotePath quoteNonAscii entry.path.text)

theorem parseStatusLine_entry (quoteNonAscii : Bool) (entry : Entry) (lineNo : Nat)
    (read : StatusLines) :
    parseStatusLine lineNo (entryLine quoteNonAscii entry) read =
      .ok { read with files := read.files ++ [entry.printed quoteNonAscii] } := by
  have hhead : stripPrefix "# branch.head ".toList (entryLine quoteNonAscii entry) = none := by
    cases entry <;> rfl
  have hheader : (stripPrefix "# branch.".toList (entryLine quoteNonAscii entry)).isSome =
      false := by
    cases entry <;> rfl
  unfold parseStatusLine
  rw [hhead]
  dsimp only
  rw [hheader, if_neg Bool.false_ne_true]
  cases entry with
  | ordinary xy sub mH mI mW hH hI path =>
    have hsplit : splitOnce ' ' (entryLine quoteNonAscii
        (.ordinary xy sub mH mI mW hH hI path)) = _ :=
      splitOnce_ended (f := ['1']) (by decide) _ _
    rw [hsplit]
    dsimp only
    rw [if_pos rfl, Option.getD_some, parseOrdinary_fields]
    rfl
  | renamed xy sub mH mI mW hH hI score path orig =>
    have hsplit : splitOnce ' ' (entryLine quoteNonAscii
        (.renamed xy sub mH mI mW hH hI score path orig)) = _ :=
      splitOnce_ended (f := ['2']) (by decide) _ _
    rw [hsplit]
    dsimp only
    rw [if_neg (by decide), if_pos rfl, Option.getD_some]
    show read.push (parseRename (_ ++ (quotePath quoteNonAscii path.text ++ '\t' ::
      quotePath quoteNonAscii orig.text)) _ _) = _
    rw [parseRename_fields xy sub mH mI mW hH hI score (tab_notMem_quotePath _ _)]
    rfl
  | unmerged xy sub m1 m2 m3 mW h1 h2 h3 path =>
    have hsplit : splitOnce ' ' (entryLine quoteNonAscii
        (.unmerged xy sub m1 m2 m3 mW h1 h2 h3 path)) = _ :=
      splitOnce_ended (f := ['u']) (by decide) _ _
    rw [hsplit]
    dsimp only
    rw [if_neg (by decide), if_neg (by decide), if_pos rfl, Option.getD_some,
      parseUnmerged_fields]
    rfl
  | untracked path =>
    have hsplit : splitOnce ' ' (entryLine quoteNonAscii (.untracked path)) = _ :=
      splitOnce_ended (f := ['?']) (by decide) _ _
    rw [hsplit]
    dsimp only
    rw [if_neg (by decide), if_neg (by decide), if_neg (by decide), if_pos rfl,
      Option.getD_some, List.flatMap_nil, List.nil_append]
    rfl

/-! ## The whole output -/

theorem parseStatusFrom_cons {line : Text} (hne : line ≠ []) {idx : Nat} {read read' : StatusLines}
    (h : parseStatusLine (idx + 1) line read = .ok read') (rest : List Text) :
    parseStatusFrom idx (line :: rest) read = parseStatusFrom (idx + 1) rest read' := by
  rw [parseStatusFrom, if_neg hne, h]

theorem entryLine_ne_nil (quoteNonAscii : Bool) (entry : Entry) :
    entryLine quoteNonAscii entry ≠ [] := by
  cases entry <;> exact List.cons_ne_nil _ _

theorem parseStatusFrom_entries (quoteNonAscii : Bool) (entries : List Entry) (idx : Nat)
    (read : StatusLines) :
    parseStatusFrom idx (entries.map (entryLine quoteNonAscii)) read =
      .ok { read with files := read.files ++ entries.map (·.printed quoteNonAscii) } := by
  induction entries generalizing idx read with
  | nil =>
    rw [List.map_nil, List.map_nil, List.append_nil]
    rfl
  | cons entry entries ih =>
    rw [List.map_cons, parseStatusFrom_cons (entryLine_ne_nil quoteNonAscii entry)
      (parseStatusLine_entry quoteNonAscii entry _ read), ih, List.append_assoc]
    rfl

/-- A line of the header that is not about the branch changes nothing. -/
theorem parseStatusFrom_skip {name : Text} (hhead : stripPrefix "head ".toList name = none)
    (idx : Nat) (rest : List Text) (read : StatusLines) :
    parseStatusFrom idx (("# branch.".toList ++ name) :: rest) read =
      parseStatusFrom (idx + 1) rest read := by
  have hne : "# branch.".toList ++ name ≠ [] :=
    List.append_ne_nil_of_left_ne_nil (by decide) name
  apply parseStatusFrom_cons hne
  unfold parseStatusLine
  have hkeyword : "# branch.head ".toList = "# branch.".toList ++ "head ".toList := by decide
  rw [hkeyword, stripPrefix_append_append, hhead]
  dsimp only
  rw [stripPrefix_append, Option.isSome_some, if_pos rfl]

theorem parseStatusFrom_branch (branch : Text) (idx : Nat) (rest : List Text)
    (read : StatusLines) :
    parseStatusFrom idx (("# branch.head ".toList ++ branch) :: rest) read =
      parseStatusFrom (idx + 1) rest { read with branch := some branch } := by
  have hne : "# branch.head ".toList ++ branch ≠ [] :=
    List.append_ne_nil_of_left_ne_nil (by decide) branch
  apply parseStatusFrom_cons hne
  rw [parseStatusLine, stripPrefix_append]

theorem parseStatusFrom_header (header : Header) (rest : List Text) :
    ∃ idx, parseStatusFrom 0 (header.lines ++ rest) ⟨none, []⟩ =
      parseStatusFrom idx rest ⟨some header.branch.text, []⟩ := by
  have hskip : ∀ (keyword : Text) (value : Text) (idx : Nat) (rest : List Text)
      (read : StatusLines), stripPrefix "head ".toList (keyword ++ value) = none →
      parseStatusFrom idx (("# branch.".toList ++ keyword ++ value) :: rest) read =
        parseStatusFrom (idx + 1) rest read := by
    intro keyword value idx rest read hnone
    rw [List.append_assoc]
    exact parseStatusFrom_skip hnone idx rest read
  have hoid : "# branch.oid ".toList = "# branch.".toList ++ "oid ".toList := by decide
  have hupstream : "# branch.upstream ".toList = "# branch.".toList ++ "upstream ".toList := by
    decide
  have hab : "# branch.ab +".toList = "# branch.".toList ++ "ab +".toList := by decide
  unfold Header.lines
  rw [List.append_assoc, hoid, List.cons_append, hskip _ _ _ _ _ rfl, List.cons_append,
    parseStatusFrom_branch, List.nil_append]
  rcases header.upstream with _ | ⟨name, _ | ⟨ahead, behind⟩⟩
  · exact ⟨2, rfl⟩
  · refine ⟨3, ?_⟩
    dsimp only
    rw [hupstream, List.cons_append, hskip _ _ _ _ _ rfl, List.nil_append]
  · refine ⟨4, ?_⟩
    dsimp only
    rw [hupstream, hab, List.cons_append, hskip _ _ _ _ _ rfl, List.cons_append,
      List.append_assoc ("# branch.".toList ++ "ab +".toList),
      List.append_assoc ("# branch.".toList ++ "ab +".toList), hskip _ _ _ _ _ rfl,
      List.nil_append]

theorem fields_visible (entry : Entry) : ∀ f ∈ entry.fields, ∀ c ∈ f, 32 < c.toNat := by
  cases entry with
  | ordinary xy sub mH mI mW hH hI path =>
    simp only [Entry.fields, List.forall_mem_cons, List.not_mem_nil, false_implies, implies_true,
      and_true]
    exact ⟨by decide, columns_visible xy, sub.visible, mH.visible, mI.visible, mW.visible,
      hH.visible, hI.visible⟩
  | renamed xy sub mH mI mW hH hI score path orig =>
    simp only [Entry.fields, List.forall_mem_cons, List.not_mem_nil, false_implies, implies_true,
      and_true]
    exact ⟨by decide, columns_visible xy, sub.visible, mH.visible, mI.visible, mW.visible,
      hH.visible, hI.visible, score.visible⟩
  | unmerged xy sub m1 m2 m3 mW h1 h2 h3 path =>
    simp only [Entry.fields, List.forall_mem_cons, List.not_mem_nil, false_implies, implies_true,
      and_true]
    exact ⟨by decide, xy.visible, sub.visible, m1.visible, m2.visible, m3.visible, mW.visible,
      h1.visible, h2.visible, h3.visible⟩
  | untracked path =>
    simp only [Entry.fields, List.forall_mem_cons, List.not_mem_nil, false_implies, implies_true,
      and_true]
    decide

theorem paths_chars (quoteNonAscii : Bool) (entry : Entry) :
    ∀ c ∈ entry.paths quoteNonAscii, 32 ≤ c.toNat ∨ c = '\t' := by
  intro c hc
  cases entry with
  | renamed xy sub mH mI mW hH hI score path orig =>
    rcases List.mem_append.1 hc with hc | hc
    · exact Or.inl (quotePath_visible _ _ c hc)
    · rcases List.mem_cons.1 hc with htab | hc
      · exact Or.inr htab
      · exact Or.inl (quotePath_visible _ _ c hc)
  | ordinary xy sub mH mI mW hH hI path => exact Or.inl (quotePath_visible _ _ c hc)
  | unmerged xy sub m1 m2 m3 mW h1 h2 h3 path => exact Or.inl (quotePath_visible _ _ c hc)
  | untracked path => exact Or.inl (quotePath_visible _ _ c hc)

/-- The characters of the lines are printed ones and tabs. -/
theorem entryLine_chars (quoteNonAscii : Bool) (entry : Entry) :
    ∀ c ∈ entryLine quoteNonAscii entry, 32 ≤ c.toNat ∨ c = '\t' := by
  intro c hc
  rcases List.mem_append.1 hc with hc | hc
  · rcases List.mem_flatMap.1 hc with ⟨f, hf, hc⟩
    rcases List.mem_append.1 hc with hc | hc
    · exact Or.inl (fields_visible entry f hf c hc).le
    · rw [List.mem_singleton.1 hc]
      exact Or.inl (by decide)
  · exact paths_chars quoteNonAscii entry c hc

theorem header_visible (header : Header) : ∀ line ∈ header.lines, ∀ c ∈ line, 32 ≤ c.toNat := by
  have hword : ∀ (keyword : Text) (w : Word), (∀ c ∈ keyword, 32 ≤ c.toNat) →
      ∀ c ∈ keyword ++ w.text, 32 ≤ c.toNat := by
    intro keyword w hkeyword c hc
    rcases List.mem_append.1 hc with hc | hc
    · exact hkeyword c hc
    · exact (w.visible c hc).le
  have hnumber : ∀ n, ∀ c ∈ Nat.toDigits 10 n, 32 ≤ c.toNat := by
    intro n c hc
    have hdigit := isDigit_toDigits hc
    simp only [Char.isDigit, Bool.and_eq_true, decide_eq_true_eq] at hdigit
    have hlow : 48 ≤ c.toNat := hdigit.1
    omega
  have hoid := hword "# branch.oid ".toList header.oid (visible_of_all rfl)
  have hbranch := hword "# branch.head ".toList header.branch (visible_of_all rfl)
  unfold Header.lines
  rcases header.upstream with _ | ⟨name, _ | ⟨ahead, behind⟩⟩
  · dsimp only
    simp only [List.append_nil, List.forall_mem_cons, List.not_mem_nil, false_implies,
      implies_true, and_true]
    exact ⟨hoid, hbranch⟩
  · have hupstream := hword "# branch.upstream ".toList name (visible_of_all rfl)
    dsimp only
    simp only [List.cons_append, List.nil_append, List.forall_mem_cons, List.not_mem_nil,
      false_implies, implies_true, and_true]
    exact ⟨hoid, hbranch, hupstream⟩
  · have hupstream := hword "# branch.upstream ".toList name (visible_of_all rfl)
    have hab : ∀ c ∈ "# branch.ab +".toList, 32 ≤ c.toNat := visible_of_all rfl
    have hminus : ∀ c ∈ " -".toList, 32 ≤ c.toNat := visible_of_all rfl
    dsimp only
    simp only [List.cons_append, List.nil_append, List.forall_mem_cons, List.not_mem_nil,
      false_implies, implies_true, and_true]
    refine ⟨hoid, hbranch, hupstream, ?_⟩
    intro c hc
    rw [List.mem_append, List.mem_append, List.mem_append] at hc
    rcases hc with ((hc | hc) | hc) | hc
    · exact hab c hc
    · exact hnumber ahead c hc
    · exact hminus c hc
    · exact hnumber behind c hc

theorem lines_porcelain (quoteNonAscii : Bool) (header : Header) (entries : List Entry) :
    lines (porcelain quoteNonAscii header entries) =
      header.lines ++ entries.map (entryLine quoteNonAscii) := by
  have hchars : ∀ line ∈ header.lines ++ entries.map (entryLine quoteNonAscii),
      '\n' ∉ line ∧ '\r' ∉ line := by
    intro line hline
    have hprinted : ∀ c ∈ line, 32 ≤ c.toNat ∨ c = '\t' := by
      rcases List.mem_append.1 hline with hline | hline
      · exact fun c hc => Or.inl (header_visible header line hline c hc)
      · rcases List.mem_map.1 hline with ⟨entry, -, rfl⟩
        exact entryLine_chars quoteNonAscii entry
    exact ⟨fun h => absurd (hprinted _ h) (by decide), fun h => absurd (hprinted _ h) (by decide)⟩
  have hstrip : (header.lines ++ entries.map (entryLine quoteNonAscii)).map stripCr =
      header.lines ++ entries.map (entryLine quoteNonAscii) := by
    conv_rhs => rw [← List.map_id (header.lines ++ entries.map (entryLine quoteNonAscii))]
    exact List.map_congr_left fun line hline => stripCr_of_notMem (hchars line hline).2
  rw [porcelain, lines_unlines fun line hline => (hchars line hline).1, hstrip]

/-- What is read back of an output: all entries, with their paths as they were printed. -/
theorem parseStatus_porcelain (quoteNonAscii : Bool) (header : Header) (entries : List Entry) :
    parseStatus (porcelain quoteNonAscii header entries) =
      .ok ⟨header.branch.text, entries.map (·.printed quoteNonAscii), entries.isEmpty⟩ := by
  obtain ⟨idx, hheader⟩ :=
    parseStatusFrom_header header (entries.map (entryLine quoteNonAscii))
  rw [parseStatus, lines_porcelain, hheader, parseStatusFrom_entries]
  dsimp only
  rw [List.nil_append, List.isEmpty_map]

theorem runStatus_porcelain {git : List Text → Outcome} {root : Text} {quoteNonAscii : Bool}
    {header : Header} {entries : List Entry}
    (h : Prints git (statusArgs root) (porcelain quoteNonAscii header entries)) :
    runStatus git root =
      .ok ⟨header.branch.text, entries.map (·.printed quoteNonAscii), entries.isEmpty⟩ := by
  rw [runStatus, h.runGit]
  exact parseStatus_porcelain quoteNonAscii header entries

/-- The status of the files with their real paths. -/
def realStatus (header : Header) (entries : List Entry) : GitStatus :=
  ⟨header.branch.text, entries.map fun entry => entry.file entry.path.text, entries.isEmpty⟩

theorem file_inj {entry : Entry} {path path' : Text} :
    entry.file path = entry.file path' ↔ path = path' := by
  constructor
  · intro heq
    have hpath := congrArg FileEntry.path heq
    cases entry <;> exact hpath
  · exact congrArg entry.file

/-- The status is the real one exactly when no path has a character that git prints in another
way: a quote, a backslash, a control character or, with `core.quotePath`, one that is not ASCII. -/
theorem parseStatus_iff (quoteNonAscii : Bool) (header : Header) (entries : List Entry) :
    parseStatus (porcelain quoteNonAscii header entries) = .ok (realStatus header entries) ↔
      ∀ entry ∈ entries, ∀ c ∈ entry.path.text, ¬IsSpecial quoteNonAscii c := by
  rw [parseStatus_porcelain, Except.ok.injEq, realStatus, GitStatus.mk.injEq, List.map_inj_left]
  constructor
  · intro heq entry hmem
    rw [← quotePath_eq_self_iff]
    exact file_inj.1 (heq.2.1 entry hmem)
  · intro hplain
    refine ⟨rfl, fun entry hmem => ?_, rfl⟩
    exact file_inj.2 ((quotePath_eq_self_iff _ _).2 (hplain entry hmem))

def onMain : Header := ⟨.ofText "4d2e9a".toList rfl, .ofText "main".toList rfl, none⟩

def accented : GitPath := ⟨"docs/été.md".toList, by decide, by decide⟩

/-- A letter with an accent is shown as the octal digits of its bytes. -/
theorem status_accentedPath :
    ¬∀ (quoteNonAscii : Bool) (header : Header) (entries : List Entry),
      parseStatus (porcelain quoteNonAscii header entries) = .ok (realStatus header entries) := by
  intro hall
  have hstatus := hall true onMain [.untracked accented]
  rw [parseStatus_porcelain, realStatus, Except.ok.injEq, GitStatus.mk.injEq,
    List.map_inj_left] at hstatus
  have hpath := file_inj.1 (hstatus.2.1 _ List.mem_cons_self)
  exact (quotePath_eq_self_iff true _).1 hpath 'é' (by decide) (by decide)

end Vanyline.Sandbox.Git
