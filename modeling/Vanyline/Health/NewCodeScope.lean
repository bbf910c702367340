import Vanyline.Health.Diff

/-!
# The new code that is found in a diff

`diffText` is what git prints for a list of changes.  `Scoped` says that `parseChangedLines` takes
it, and gives each path with new lines the normalized union of its hunks.

* The lines of a hunk are read like all others, so that an added line `++ b/q` is a `+++ ` line
  that names the file `q` for the hunks behind it, and other lines with `++ ` are refused.
* git puts a tab behind a path with a space, and it is read as a part of the path.

`scoped_iff` says that these are the only things that go wrong: the text is taken if and only if
no added line and no number is refused, and then each hunk counts for the file that is named
last before it (`read`).
-/

namespace Vanyline.Health.Diff

open Vanyline.Lib TextLines

/-! ## What git prints -/

/-- One hunk of `-U0`.  `heading` is what git shows behind the second `@@`. -/
structure Hunk where
  oldStart : Nat
  removed : List Text
  oldNoNewline : Bool
  newStart : Nat
  added : List Text
  newNoNewline : Bool
  heading : Text

/-- A change of a file.  `extended` are the header lines of git about modes, blobs and renames. -/
inductive Change
  | text (oldPath : Option Text) (path : Text) (extended : List Text) (hunks : List Hunk)
  | deleted (path : Text) (extended : List Text) (hunk : Hunk)
  | binary (path : Text) (extended : List Text)

/-- A count of one is left out. -/
def rangeText (start count : Nat) : Text :=
  Nat.toDigits 10 start ++ if count = 1 then [] else ',' :: Nat.toDigits 10 count

def noNewline (isLast : Bool) : List Text :=
  if isLast then ["\\ No newline at end of file".toList] else []

namespace Hunk

variable (hunk : Hunk)

def headerLine : Text :=
  "@@ ".toList ++ ('-' :: rangeText hunk.oldStart hunk.removed.length) ++
    (' ' :: '+' :: rangeText hunk.newStart hunk.added.length) ++ " @@".toList ++ hunk.heading

def lines : List Text :=
  hunk.headerLine :: (hunk.removed.map ('-' :: ·) ++ noNewline hunk.oldNoNewline ++
    hunk.added.map ('+' :: ·) ++ noNewline hunk.newNoNewline)

end Hunk

/-- The name of a file behind `+++ b/`, with the tab that a space asks for. -/
def shown (path : Text) : Text := path ++ if ' ' ∈ path then ['\t'] else []

def gitLine (oldPath path : Text) : Text :=
  "diff --git a/".toList ++ oldPath ++ " b/".toList ++ path

/-- Without hunks there are no lines with the names. -/
def Change.lines : Change → List Text
  | .text oldPath path extended hunks =>
    gitLine (oldPath.getD path) path :: extended ++
      if hunks = [] then []
      else
        [match oldPath with
          | some old => "--- a/".toList ++ shown old
          | none => "--- /dev/null".toList,
        "+++ b/".toList ++ shown path] ++ hunks.flatMap Hunk.lines
  | .deleted path extended hunk =>
    gitLine path path :: extended ++
      ["--- a/".toList ++ shown path, "+++ /dev/null".toList] ++ hunk.lines
  | .binary path extended =>
    gitLine path path :: extended ++
      ["Binary files a/".toList ++ path ++ " and b/".toList ++ path ++ " differ".toList]

def diffText (changes : List Change) : Text := unlines (changes.flatMap Change.lines)

/-! ## What is assumed of a change -/

/-- A path that git does not quote. -/
def plainPath (path : Text) : Bool :=
  !path.isEmpty && path.all fun c =>
    decide (32 ≤ c.toNat) && c.toNat != 127 && c.toNat != 34 && c.toNat != 92

/-- A line that begins neither with a plus nor with an at sign. -/
def inert (line : Text) : Bool := line.head? != some '+' && line.head? != some '@'

/-- The lines are lines, and lines are numbered from one. -/
structure Hunk.WellFormed (hunk : Hunk) : Prop where
  removed : ∀ line ∈ hunk.removed, '\n' ∉ line
  added : ∀ line ∈ hunk.added, '\n' ∉ line
  heading : '\n' ∉ hunk.heading
  start : hunk.added ≠ [] → 1 ≤ hunk.newStart

def extendedLines (lines : List Text) : Prop := ∀ line ∈ lines, '\n' ∉ line ∧ inert line = true

def Change.WellFormed : Change → Prop
  | .text oldPath path extended hunks =>
    (∀ old, oldPath = some old → plainPath old = true) ∧ plainPath path = true ∧
      extendedLines extended ∧ ∀ hunk ∈ hunks, hunk.WellFormed
  | .deleted path extended hunk =>
    plainPath path = true ∧ extendedLines extended ∧ hunk.WellFormed ∧ hunk.added = []
  | .binary path extended => plainPath path = true ∧ extendedLines extended

/-! ## What is claimed -/

/-- The lines of a path, in a list of ranges with their paths. -/
def Covered (pairs : List (Text × LineRange)) (path : Text) (n : Nat) : Prop :=
  ∃ range, (path, range) ∈ pairs ∧ range.Covers n

/-- The new lines of a hunk, in its file. -/
def Hunk.own (path : Text) (hunk : Hunk) : List (Text × LineRange) :=
  if hunk.added = [] then []
  else [(path, ⟨hunk.newStart, hunk.newStart + hunk.added.length - 1⟩)]

def Change.own : Change → List (Text × LineRange)
  | .text _ path _ hunks => hunks.flatMap (Hunk.own path)
  | .deleted .. | .binary .. => []

/-- The diff is taken, and the paths with new lines have the normalized ranges of these. -/
def Scoped (changes : List Change) : Prop :=
  ∃ changed, parseChangedLines (diffText changes) = .ok changed ∧ ∀ path,
    (∀ ranges, changed.lookup path = some ranges → ranges ≠ [] ∧ Range.Normal ranges) ∧
    ∀ n, Range.CoversAll ((changed.lookup path).getD []) n ↔
      Covered (changes.flatMap Change.own) path n

/-! ## How the hunks are read -/

/-- The added lines of a hunk that are read as `+++ ` lines. -/
def Hunk.names (hunk : Hunk) : List Header :=
  hunk.added.filterMap fun line => headerOf (stripCr ('+' :: line))

def Header.isRefused : Header → Bool
  | .refused _ => true
  | _ => false

/-- The numbers of the header are below `2 ^ 32`. -/
def Hunk.fits (hunk : Hunk) : Bool :=
  decide (hunk.oldStart ≤ u32Max) && decide (hunk.removed.length ≤ u32Max) &&
    decide (hunk.newStart ≤ u32Max) && decide (hunk.added.length ≤ u32Max)

/-- Numbers are only read behind the name of a file. -/
def Hunk.headerTaken (header : Header) (hunk : Hunk) : Bool :=
  match header with
  | .file _ => hunk.fits
  | _ => true

/-- Is a hunk taken with all its lines? -/
def Hunk.accepted (header : Header) (hunk : Hunk) : Bool :=
  hunk.headerTaken header && hunk.names.all fun name => !name.isRefused

/-- The name that is the last one behind the hunk. -/
def Hunk.leaves (header : Header) (hunk : Hunk) : Header := hunk.names.getLast?.getD header

def Hunk.read (header : Header) (hunk : Hunk) : List (Text × LineRange) :=
  match header with
  | .file path =>
    if hunk.added = [] then []
    else [(path, ⟨hunk.newStart, min (hunk.newStart + hunk.added.length) u32Max - 1⟩)]
  | _ => []

def acceptedHunks : Header → List Hunk → Bool
  | _, [] => true
  | header, hunk :: hunks => hunk.accepted header && acceptedHunks (hunk.leaves header) hunks

def readHunks : Header → List Hunk → List (Text × LineRange)
  | _, [] => []
  | header, hunk :: hunks => hunk.read header ++ readHunks (hunk.leaves header) hunks

namespace Change

def accepted : Change → Bool
  | .text _ path _ hunks => acceptedHunks (.file (shown path)) hunks
  | .deleted _ _ hunk => acceptedHunks .ignored [hunk]
  | .binary .. => true

def read : Change → List (Text × LineRange)
  | .text _ path _ hunks => readHunks (.file (shown path)) hunks
  | .deleted _ _ hunk => readHunks .ignored [hunk]
  | .binary .. => []

end Change

/-- All is taken, and the hunks that are read for a path are lines of this path. -/
def ReadWell (changes : List Change) : Prop :=
  (∀ change ∈ changes, change.accepted = true) ∧
    ∀ path n, Covered (changes.flatMap Change.read) path n ↔
      Covered (changes.flatMap Change.own) path n

/-! ## One line -/

theorem headerOf_of_head {line : Text} (h : line.head? ≠ some '+') : headerOf line = none := by
  unfold headerOf
  have hnone : stripPrefix "+++ ".toList line = none := by
    cases line with
    | nil => rfl
    | cons c line => exact stripPrefix_cons_ne (fun heq => h (by rw [← heq]; rfl)) _ _
  rw [hnone]
  rfl

theorem hunkPrefix_of_head {line : Text} (h : line.head? ≠ some '@') :
    stripPrefix "@@ ".toList line = none := by
  cases line with
  | nil => rfl
  | cons c line => exact stripPrefix_cons_ne (fun heq => h (by rw [← heq]; rfl)) _ _

theorem head_stripCr {line : Text} {c : Char} (h : line.head? ≠ some c) :
    (stripCr line).head? ≠ some c := by
  unfold stripCr
  split_ifs
  · cases line with
    | nil => exact h
    | cons d line =>
        cases line with
        | nil => simp
        | cons e line => exact h
  · exact h

theorem readLine_inert {line : Text} (h : inert line = true) (scan : Scan) :
    readLine scan (stripCr line) = .ok scan := by
  simp only [inert, Bool.and_eq_true, bne_iff_ne] at h
  unfold readLine
  rw [headerOf_of_head (head_stripCr h.1), hunkPrefix_of_head (head_stripCr h.2)]

/-- The file that a name is for the hunks behind it. -/
def Header.current : Header → Option (Option Text)
  | .file path => some (some path)
  | .ignored => some none
  | .refused _ => none

/-- The ranges that are collected for a path. -/
def Scan.ranges (scan : Scan) (path : Text) : List LineRange :=
  (scan.collected.lookup path).getD []

/-- The ranges of a path, of a list of pairs. -/
def rangesOf (pairs : List (Text × LineRange)) (path : Text) : List LineRange :=
  pairs.filterMap fun pair => if pair.1 = path then some pair.2 else none

theorem rangesOf_append (pairs pairs' : List (Text × LineRange)) (path : Text) :
    rangesOf (pairs ++ pairs') path = rangesOf pairs path ++ rangesOf pairs' path :=
  List.filterMap_append

/-- The name that was read last. -/
def Behind (header : Header) (scan : Scan) : Prop := scan.current = header.current

/-- What comes of some lines: a scan with the pairs, of which `After` holds, or an error. -/
structure Outcome (scan : Scan) (result : Except InvalidDiff Scan) (accepted : Bool)
    (pairs : List (Text × LineRange)) (After : Scan → Prop) : Prop where
  taken : accepted = true → ∃ scan', result = .ok scan' ∧ After scan' ∧
    ∀ path, scan'.ranges path = scan.ranges path ++ rangesOf pairs path
  refused : accepted = false → ∃ reason, result = .error reason

theorem Outcome.append {scan : Scan} {ls : List Text} {accepted accepted' : Bool}
    {pairs pairs' : List (Text × LineRange)} {After After' : Scan → Prop}
    (h : Outcome scan (ls.foldlM readLine scan) accepted pairs After) (ls' : List Text)
    (h' : accepted = true → ∀ scan', After scan' →
      Outcome scan' (ls'.foldlM readLine scan') accepted' pairs' After') :
    Outcome scan ((ls ++ ls').foldlM readLine scan) (accepted && accepted') (pairs ++ pairs')
      After' := by
  rw [List.foldlM_append]
  cases haccepted : accepted with
  | false =>
      obtain ⟨reason, hresult⟩ := h.refused haccepted
      rw [hresult]
      exact ⟨fun hfalse => (nomatch hfalse), fun _ => ⟨reason, rfl⟩⟩
  | true =>
      obtain ⟨middle, hresult, hafter, hranges⟩ := h.taken haccepted
      rw [hresult]
      obtain ⟨htaken, hrefused⟩ := h' haccepted middle hafter
      refine ⟨fun htrue => ?_, hrefused⟩
      obtain ⟨last, hlast, hafter', hranges'⟩ := htaken htrue
      refine ⟨last, hlast, hafter', fun path => ?_⟩
      rw [hranges', hranges, rangesOf_append, List.append_assoc]

theorem outcome_nil {scan : Scan} {After : Scan → Prop} (h : After scan) :
    Outcome scan (List.foldlM readLine scan []) true [] After :=
  ⟨fun _ => ⟨scan, rfl, h, fun _ => (List.append_nil _).symm⟩, fun hfalse => (nomatch hfalse)⟩

theorem outcome_inert {scan : Scan} {After : Scan → Prop} (h : After scan) {ls : List Text}
    (hls : ∀ line ∈ ls, inert line = true) :
    Outcome scan ((ls.map stripCr).foldlM readLine scan) true [] After := by
  have hfold : (ls.map stripCr).foldlM readLine scan = .ok scan := by
    induction ls with
    | nil => rfl
    | cons line ls ih =>
        rw [List.map_cons, List.foldlM_cons, readLine_inert (hls line (List.mem_cons_self ..))]
        exact ih fun other hother => hls other (List.mem_cons_of_mem _ hother)
  exact ⟨fun _ => ⟨scan, hfold, h, fun _ => (List.append_nil _).symm⟩,
    fun hfalse => (nomatch hfalse)⟩

theorem foldlM_readLine_singleton (scan : Scan) (line : Text) :
    [line].foldlM readLine scan = readLine scan line := by
  rw [List.foldlM_cons]
  cases readLine scan line <;> rfl

/-- A line that names something. -/
theorem outcome_name (scan : Scan) {line : Text} {name : Header} (h : headerOf line = some name) :
    Outcome scan ([line].foldlM readLine scan) (!name.isRefused) [] (Behind name) := by
  rw [foldlM_readLine_singleton]
  unfold readLine
  rw [h]
  cases name with
  | file path =>
      refine ⟨fun _ => ⟨_, rfl, rfl, fun other => ?_⟩, fun hfalse => (nomatch hfalse)⟩
      unfold Scan.ranges
      rw [SortedMap.lookup_update]
      split_ifs with hpath
      · subst hpath
        exact (List.append_nil _).symm
      · exact (List.append_nil _).symm
  | ignored =>
      exact ⟨fun _ => ⟨_, rfl, rfl, fun other => (List.append_nil _).symm⟩,
        fun hfalse => (nomatch hfalse)⟩
  | refused reason => exact ⟨fun hfalse => (nomatch hfalse), fun _ => ⟨reason, rfl⟩⟩

/-- The added lines of a hunk. -/
theorem outcome_added {scan : Scan} {header : Header} (h : Behind header scan)
    (added : List Text) :
    Outcome scan (((added.map ('+' :: ·)).map stripCr).foldlM readLine scan)
      ((added.filterMap fun line => headerOf (stripCr ('+' :: line))).all fun name =>
        !name.isRefused) []
      (Behind ((added.filterMap fun line => headerOf (stripCr ('+' :: line))).getLast?.getD
        header)) := by
  induction added generalizing scan header with
  | nil => exact outcome_nil h
  | cons line added ih =>
      rw [List.map_cons, List.map_cons, List.filterMap_cons]
      split
      · rename_i hnone
        have hsame : readLine scan (stripCr ('+' :: line)) = .ok scan := by
          unfold readLine
          rw [hnone, stripCr_cons (by decide), hunkPrefix_of_head (by simp)]
        rw [List.foldlM_cons, hsame]
        exact ih h
      · rename_i name hname
        have hfirst := outcome_name scan hname
        have hrest := hfirst.append ((added.map ('+' :: ·)).map stripCr)
          fun _ scan' hscan' => ih hscan'
        rw [List.singleton_append, List.append_nil] at hrest
        rw [List.all_cons, List.getLast?_cons]
        exact hrest

/-! ## One hunk -/

theorem comma_notMem_toDigits (n : Nat) : ',' ∉ Nat.toDigits 10 n :=
  fun h => absurd (isDigit_toDigits h) (by decide)

theorem parseU32_toDigits (n : Nat) :
    parseU32 (Nat.toDigits 10 n) = if n ≤ u32Max then some n else none := by
  unfold parseU32
  rw [parseNat_toDigits]
  split_ifs <;> first | rfl | omega

theorem parseRange_rangeText (start count : Nat) :
    parseRange (rangeText start count) =
      if start ≤ u32Max ∧ count ≤ u32Max then
        some (start, if count = 1 then none else some count)
      else none := by
  have hne : rangeText start count ≠ [] := by
    unfold rangeText
    exact List.append_ne_nil_of_left_ne_nil Nat.toDigits_ne_nil _
  unfold parseRange
  rw [if_neg hne]
  unfold rangeText
  by_cases hone : count = 1
  · subst hone
    rw [if_pos rfl, if_pos rfl, List.append_nil, splitOnce_of_notMem (comma_notMem_toDigits start)]
    dsimp only
    rw [parseU32_toDigits]
    by_cases hstart : start ≤ u32Max
    · rw [if_pos hstart, if_pos ⟨hstart, by decide⟩]
      rfl
    · rw [if_neg hstart, if_neg fun hboth => hstart hboth.1]
      rfl
  · rw [if_neg hone, if_neg hone, splitOnce_append (comma_notMem_toDigits start)]
    dsimp only
    rw [parseU32_toDigits, parseU32_toDigits]
    by_cases hstart : start ≤ u32Max
    · rw [if_pos hstart]
      by_cases hcount : count ≤ u32Max
      · rw [if_pos hcount, if_pos (And.intro hstart hcount)]
        rfl
      · rw [if_neg hcount, if_neg fun hboth : start ≤ u32Max ∧ count ≤ u32Max => hcount hboth.2]
        rfl
    · rw [if_neg hstart, if_neg fun hboth : start ≤ u32Max ∧ count ≤ u32Max => hstart hboth.1]
      rfl

theorem notMem_rangeText {c : Char} (hdigit : c.isDigit = false) (hcomma : c ≠ ',')
    (start count : Nat) : c ∉ rangeText start count := by
  intro h
  have hno : ∀ n, c ∉ Nat.toDigits 10 n := by
    intro n hn
    rw [isDigit_toDigits hn] at hdigit
    cases hdigit
  unfold rangeText at h
  rcases List.mem_append.1 h with h | h
  · exact hno start h
  · split_ifs at h
    · cases h
    · rcases List.mem_cons.1 h with h | h
      · exact hcomma h
      · exact hno count h

theorem isWhite_rangeText {start count : Nat} {c : Char} (h : c ∈ rangeText start count) :
    isWhite c = false := by
  unfold rangeText at h
  rcases List.mem_append.1 h with h | h
  · exact isWhite_of_isDigit (isDigit_toDigits h)
  · split_ifs at h
    · cases h
    · rcases List.mem_cons.1 h with rfl | h
      · decide
      · exact isWhite_of_isDigit (isDigit_toDigits h)

/-- What is behind `@@ ` in the header of a hunk. -/
def Hunk.numbers (hunk : Hunk) : Text :=
  ('-' :: rangeText hunk.oldStart hunk.removed.length) ++
    (' ' :: '+' :: rangeText hunk.newStart hunk.added.length) ++ " @@".toList

theorem parseHunkNewSide_numbers {hunk : Hunk} (h : hunk.added ≠ [] → 1 ≤ hunk.newStart)
    (heading : Text) :
    (hunk.fits = true → parseHunkNewSide (hunk.numbers ++ heading) = .ok
      (if hunk.added = [] then none
        else some ⟨hunk.newStart, min (hunk.newStart + hunk.added.length) u32Max - 1⟩)) ∧
    (hunk.fits = false → ∃ reason, parseHunkNewSide (hunk.numbers ++ heading) = .error reason) := by
  have hsign : ∀ (sign : Char) (start count : Nat), isWhite sign = false →
      ∀ c ∈ sign :: rangeText start count, isWhite c = false := by
    intro sign start count hsign c hc
    rcases List.mem_cons.1 hc with rfl | hc
    · exact hsign
    · exact isWhite_rangeText hc
  have htext : hunk.numbers ++ heading =
      ('-' :: rangeText hunk.oldStart hunk.removed.length) ++ ' ' ::
        (('+' :: rangeText hunk.newStart hunk.added.length) ++
          ' ' :: ("@@".toList ++ heading)) := by
    simp [Hunk.numbers]
  have hat : ∀ c ∈ "@@".toList, isWhite c = false := by
    intro c hc
    rw [show c = '@' by simpa using hc]
    decide
  have hclosing : (firstWord (' ' :: ("@@".toList ++ heading))).all
      (fun word => !"@@".toList.isPrefixOf word.1) = false := by
    rw [firstWord_space, firstWord_begin (by decide) hat]
    simp
  have hfits : hunk.fits = true ↔ (hunk.oldStart ≤ u32Max ∧ hunk.removed.length ≤ u32Max) ∧
      (hunk.newStart ≤ u32Max ∧ hunk.added.length ≤ u32Max) := by
    simp only [Hunk.fits, Bool.and_eq_true, decide_eq_true_eq]
    omega
  unfold parseHunkNewSide
  rw [htext, firstWord_append (by simp) (hsign '-' _ _ (by decide))]
  dsimp only
  rw [firstWord_space, firstWord_append (by simp) (hsign '+' _ _ (by decide))]
  dsimp only
  rw [hclosing, if_neg (by simp)]
  have hminus : ∀ text, stripPrefix ['-'] ('-' :: text) = some text := fun text => if_pos rfl
  have hplus : ∀ text, stripPrefix ['+'] ('+' :: text) = some text := fun text => if_pos rfl
  rw [hminus]
  dsimp only
  rw [parseRange_rangeText]
  by_cases hold : hunk.oldStart ≤ u32Max ∧ hunk.removed.length ≤ u32Max
  · rw [if_pos hold, hplus, if_neg (by simp)]
    dsimp only
    rw [parseRange_rangeText]
    by_cases hnew : hunk.newStart ≤ u32Max ∧ hunk.added.length ≤ u32Max
    · rw [if_pos hnew]
      refine ⟨fun _ => ?_, fun hfalse => ?_⟩
      · have hcount : (if hunk.added.length = 1 then none else some hunk.added.length).getD 1 =
            hunk.added.length := by
          split_ifs with hone
          · exact hone.symm
          · rfl
        dsimp only
        rw [hcount]
        by_cases hadded : hunk.added = []
        · rw [if_pos hadded, if_pos (by rw [hadded]; rfl)]
        · have hstart := h hadded
          rw [if_neg hadded, if_neg (by simpa using hadded), if_neg (by omega)]
      · rw [hfits.2 ⟨hold, hnew⟩] at hfalse
        cases hfalse
    · rw [if_neg hnew]
      refine ⟨fun htrue => absurd (hfits.1 htrue).2 hnew, fun _ => ⟨_, rfl⟩⟩
  · rw [if_neg hold, if_pos (show (none : Option (Nat × Option Nat)).isNone = true from rfl)]
    exact ⟨fun htrue => absurd (hfits.1 htrue).1 hold, fun _ => ⟨_, rfl⟩⟩

theorem cr_notMem_numbers (hunk : Hunk) : '\r' ∉ "@@ ".toList ++ hunk.numbers := by
  have hrange : ∀ start count, '\r' ∉ rangeText start count :=
    fun start count => notMem_rangeText (by decide) (by decide) start count
  simp only [Hunk.numbers, List.mem_append, List.mem_cons, not_or]
  exact ⟨by decide, ⟨⟨by decide, hrange _ _⟩, by decide, by decide, hrange _ _⟩, by decide⟩

/-- The header of a hunk. -/
theorem outcome_header {scan : Scan} {header : Header} (h : Behind header scan)
    (htaken : header.isRefused = false) {hunk : Hunk}
    (hstart : hunk.added ≠ [] → 1 ≤ hunk.newStart) :
    Outcome scan ([stripCr hunk.headerLine].foldlM readLine scan)
      (hunk.headerTaken header) (hunk.read header) (Behind header) := by
  have hline : stripCr hunk.headerLine =
      "@@ ".toList ++ (hunk.numbers ++ stripCr hunk.heading) := by
    rw [← List.append_assoc, ← stripCr_append (cr_notMem_numbers hunk)]
    simp [Hunk.headerLine, Hunk.numbers]
  rw [foldlM_readLine_singleton, hline]
  unfold readLine
  rw [headerOf_of_head (by simp), stripPrefix_append]
  cases header with
  | refused reason => cases htaken
  | ignored =>
      have hcurrent : scan.current = some none := h
      dsimp only
      rw [hcurrent]
      exact ⟨fun _ => ⟨scan, rfl, h, fun _ => (List.append_nil _).symm⟩,
        fun hfalse => (nomatch hfalse)⟩
  | file path =>
      obtain ⟨hfits, hrefused⟩ := parseHunkNewSide_numbers hstart (stripCr hunk.heading)
      have hcurrent : scan.current = some (some path) := h
      dsimp only
      rw [hcurrent]
      dsimp only
      constructor
      · intro htrue
        rw [hfits htrue]
        unfold Hunk.read
        by_cases hadded : hunk.added = []
        · rw [if_pos hadded]
          refine ⟨scan, rfl, h, fun other => ?_⟩
          dsimp only
          rw [if_pos hadded]
          exact (List.append_nil _).symm
        · rw [if_neg hadded]
          refine ⟨_, rfl, rfl, fun other => ?_⟩
          unfold Scan.ranges
          dsimp only
          rw [if_neg hadded, SortedMap.lookup_update]
          by_cases hother : other = path
          · subst hother
            rw [if_pos rfl]
            simp [rangesOf]
          · rw [if_neg hother]
            simp [rangesOf, Ne.symm hother]
      · intro hfalse
        obtain ⟨reason, hreason⟩ := hrefused hfalse
        rw [hreason]
        exact ⟨reason, rfl⟩

/-- The lines of a hunk, behind a name. -/
theorem outcome_hunk {scan : Scan} {header : Header} (h : Behind header scan)
    (htaken : header.isRefused = false) {hunk : Hunk} (hwf : hunk.WellFormed) :
    Outcome scan ((hunk.lines.map stripCr).foldlM readLine scan) (hunk.accepted header)
      (hunk.read header) (Behind (hunk.leaves header)) := by
  have hlines : hunk.lines.map stripCr =
      [stripCr hunk.headerLine] ++
        ((hunk.removed.map ('-' :: ·) ++ noNewline hunk.oldNoNewline).map stripCr ++
          ((hunk.added.map ('+' :: ·)).map stripCr ++
            (noNewline hunk.newNoNewline).map stripCr)) := by
    simp [Hunk.lines]
  have hnoNewline : ∀ isLast, ∀ line ∈ noNewline isLast, inert line = true := by
    intro isLast line hline
    unfold noNewline at hline
    split_ifs at hline
    · rw [List.mem_singleton.1 hline]
      decide
    · cases hline
  have hinert : ∀ line ∈ hunk.removed.map ('-' :: ·) ++ noNewline hunk.oldNoNewline,
      inert line = true := by
    intro line hline
    rcases List.mem_append.1 hline with hline | hline
    · obtain ⟨text, -, rfl⟩ := List.mem_map.1 hline
      rfl
    · exact hnoNewline _ line hline
  have hall := (outcome_header h htaken hwf.start).append _
    fun _ scan' hscan' => (outcome_inert hscan' hinert).append _ fun _ scan' hscan' =>
      (outcome_added hscan' hunk.added).append _ fun _ scan' hscan' =>
        outcome_inert hscan' (hnoNewline hunk.newNoNewline)
  rw [Bool.and_true, Bool.true_and, List.append_nil, List.append_nil, List.append_nil] at hall
  rw [hlines]
  exact hall

theorem isRefused_leaves {header : Header} (htaken : header.isRefused = false) {hunk : Hunk}
    (h : hunk.accepted header = true) : (hunk.leaves header).isRefused = false := by
  unfold Hunk.leaves
  cases hlast : hunk.names.getLast? with
  | none => exact htaken
  | some name =>
      rw [Hunk.accepted, Bool.and_eq_true, List.all_eq_true] at h
      simpa using h.2 name (List.mem_of_getLast? hlast)

/-- The hunks of a file. -/
theorem outcome_hunks {scan : Scan} {header : Header} (h : Behind header scan)
    (htaken : header.isRefused = false) {hunks : List Hunk}
    (hwf : ∀ hunk ∈ hunks, hunk.WellFormed) :
    Outcome scan (((hunks.flatMap Hunk.lines).map stripCr).foldlM readLine scan)
      (acceptedHunks header hunks) (readHunks header hunks)
      (Behind (hunks.foldl Hunk.leaves header)) := by
  induction hunks generalizing scan header with
  | nil => exact outcome_nil h
  | cons hunk hunks ih =>
      rw [List.flatMap_cons, List.map_append]
      apply (outcome_hunk h htaken (hwf hunk (List.mem_cons_self ..))).append
      intro haccepted scan' hscan'
      exact ih hscan' (isRefused_leaves htaken haccepted)
        fun other hother => hwf other (List.mem_cons_of_mem _ hother)

/-! ## One change -/

theorem Outcome.mono {scan : Scan} {result : Except InvalidDiff Scan} {accepted : Bool}
    {pairs : List (Text × LineRange)} {After After' : Scan → Prop}
    (h : Outcome scan result accepted pairs After) (himp : ∀ scan', After scan' → After' scan') :
    Outcome scan result accepted pairs After' := by
  refine ⟨fun htrue => ?_, h.refused⟩
  obtain ⟨scan', hresult, hafter, hranges⟩ := h.taken htrue
  exact ⟨scan', hresult, himp scan' hafter, hranges⟩

theorem notMem_of_plainPath {path : Text} (h : plainPath path = true) {c : Char}
    (hc : c.toNat < 32) : c ∉ path := by
  intro hmem
  simp only [plainPath, Bool.and_eq_true, List.all_eq_true, decide_eq_true_eq] at h
  have := (h.2 c hmem).1.1.1
  omega

theorem notMem_shown {path : Text} (h : plainPath path = true) {c : Char} (hc : c.toNat < 32)
    (htab : c ≠ '\t') : c ∉ shown path := by
  unfold shown
  rw [List.mem_append, not_or]
  refine ⟨notMem_of_plainPath h hc, ?_⟩
  split_ifs
  · simpa using htab
  · exact fun hmem => (nomatch hmem)

theorem headerOf_shown {path : Text} (h : plainPath path = true) :
    headerOf (stripCr ("+++ b/".toList ++ shown path)) = some (.file (shown path)) := by
  have hcr : '\r' ∉ "b/".toList ++ shown path := by
    rw [List.mem_append, not_or]
    exact ⟨by decide, notMem_shown h (by decide) (by decide)⟩
  have hline : stripCr ("+++ b/".toList ++ shown path) =
      "+++ ".toList ++ ("b/".toList ++ shown path) := by
    have hsplit : "+++ b/".toList = "+++ ".toList ++ "b/".toList := by decide
    rw [hsplit, List.append_assoc, stripCr_append (by decide), stripCr_of_notMem hcr]
  unfold headerOf
  rw [hline, stripPrefix_append, Option.map_some]
  dsimp only
  rw [stripCr_of_notMem hcr, if_neg (by simp), if_neg (by simp), stripPrefix_append]

theorem inert_of_head {c : Char} {line : Text} (hplus : c ≠ '+') (hat : c ≠ '@') :
    inert (c :: line) = true := by
  simp [inert, hplus, hat]

theorem inert_gitLine (oldPath path : Text) {extended : List Text}
    (h : extendedLines extended) :
    ∀ line ∈ gitLine oldPath path :: extended, inert line = true := by
  intro line hline
  rcases List.mem_cons.1 hline with rfl | hline
  · exact inert_of_head (by decide) (by decide)
  · exact (h line hline).2

/-- The lines before the names of a file. -/
theorem outcome_start (scan : Scan) {ls : List Text} (h : ∀ line ∈ ls, inert line = true) :
    Outcome scan ((ls.map stripCr).foldlM readLine scan) true [] fun _ => True :=
  outcome_inert trivial h

theorem outcome_change (scan : Scan) {change : Change} (hwf : change.WellFormed) :
    Outcome scan ((change.lines.map stripCr).foldlM readLine scan) change.accepted change.read
      fun _ => True := by
  cases change with
  | text oldPath path extended hunks =>
      obtain ⟨-, hpath, hextended, hhunks⟩ := hwf
      have hinert := inert_gitLine (oldPath.getD path) path hextended
      by_cases hnone : hunks = []
      · subst hnone
        have hlines : (Change.text oldPath path extended []).lines =
            gitLine (oldPath.getD path) path :: extended := by
          show gitLine _ _ :: extended ++ [] = _
          rw [List.append_nil]
        rw [hlines]
        exact outcome_start scan hinert
      · have hlines : ((Change.text oldPath path extended hunks).lines.map stripCr) =
            (gitLine (oldPath.getD path) path :: extended ++
              [match oldPath with
                | some old => "--- a/".toList ++ shown old
                | none => "--- /dev/null".toList]).map stripCr ++
            ([stripCr ("+++ b/".toList ++ shown path)] ++
              (hunks.flatMap Hunk.lines).map stripCr) := by
          simp [Change.lines, hnone]
        rw [hlines]
        apply (outcome_start scan _).append
        · intro _ scan' _
          refine (outcome_name scan' (headerOf_shown hpath)).append _ fun _ scan' hscan' => ?_
          exact (outcome_hunks hscan' rfl hhunks).mono fun _ _ => trivial
        · intro line hline
          rcases List.mem_append.1 hline with hline | hline
          · exact hinert line hline
          · rw [List.mem_singleton.1 hline]
            cases oldPath <;> exact inert_of_head (by decide) (by decide)
  | deleted path extended hunk =>
      obtain ⟨-, hextended, hhunk, -⟩ := hwf
      have hlines : ((Change.deleted path extended hunk).lines.map stripCr) =
          (gitLine path path :: extended ++ ["--- a/".toList ++ shown path]).map stripCr ++
          ([stripCr "+++ /dev/null".toList] ++ ([hunk].flatMap Hunk.lines).map stripCr) := by
        simp [Change.lines]
      rw [hlines]
      apply (outcome_start scan _).append
      · intro _ scan' _
        have hname : headerOf (stripCr "+++ /dev/null".toList) = some .ignored := rfl
        refine (outcome_name scan' hname).append _ fun _ scan' hscan' => ?_
        apply (outcome_hunks hscan' rfl _).mono fun _ _ => trivial
        intro other hother
        rw [List.mem_singleton.1 hother]
        exact hhunk
      · intro line hline
        rcases List.mem_append.1 hline with hline | hline
        · exact inert_gitLine path path hextended line hline
        · rw [List.mem_singleton.1 hline]
          exact inert_of_head (by decide) (by decide)
  | binary path extended =>
      obtain ⟨-, hextended⟩ := hwf
      apply outcome_start scan
      intro line hline
      rcases List.mem_append.1 hline with hline | hline
      · exact inert_gitLine path path hextended line hline
      · rw [List.mem_singleton.1 hline]
        exact inert_of_head (by decide) (by decide)

theorem outcome_changes (scan : Scan) {changes : List Change}
    (hwf : ∀ change ∈ changes, change.WellFormed) :
    Outcome scan (((changes.flatMap Change.lines).map stripCr).foldlM readLine scan)
      (changes.all Change.accepted) (changes.flatMap Change.read) fun _ => True := by
  induction changes generalizing scan with
  | nil => exact outcome_nil trivial
  | cons change changes ih =>
      rw [List.flatMap_cons, List.map_append]
      apply (outcome_change scan (hwf change (List.mem_cons_self ..))).append
      exact fun _ scan' _ => ih scan' fun other hother => hwf other (List.mem_cons_of_mem _ hother)

/-! ## The lines of a change are lines -/

theorem newline_notMem_gitLine {oldPath path : Text} {extended : List Text}
    (hold : plainPath oldPath = true) (hpath : plainPath path = true)
    (h : extendedLines extended) :
    ∀ line ∈ gitLine oldPath path :: extended, '\n' ∉ line := by
  have hfirst : '\n' ∉ gitLine oldPath path := by
    unfold gitLine
    simp only [List.mem_append, not_or]
    exact ⟨⟨⟨by simp, notMem_of_plainPath hold (by decide)⟩, by simp⟩,
      notMem_of_plainPath hpath (by decide)⟩
  intro line hline
  rcases List.mem_cons.1 hline with rfl | hline
  · exact hfirst
  · exact (h line hline).1

theorem newline_notMem_noNewline (isLast : Bool) : ∀ line ∈ noNewline isLast, '\n' ∉ line := by
  intro line hline
  cases isLast with
  | false => cases hline
  | true =>
      rw [List.mem_singleton.1 hline]
      decide

theorem newline_notMem_hunk {hunk : Hunk} (hwf : hunk.WellFormed) :
    ∀ line ∈ hunk.lines, '\n' ∉ line := by
  have hrange : ∀ start count, '\n' ∉ rangeText start count :=
    fun start count => notMem_rangeText (by decide) (by decide) start count
  have hmarked : ∀ mark, mark ≠ '\n' → ∀ ls : List Text, (∀ line ∈ ls, '\n' ∉ line) →
      ∀ line ∈ ls.map (mark :: ·), '\n' ∉ line := by
    intro mark hmark ls hls line hline
    obtain ⟨text, htext, rfl⟩ := List.mem_map.1 hline
    rw [List.mem_cons, not_or]
    exact ⟨Ne.symm hmark, hls text htext⟩
  intro line hline
  rcases List.mem_cons.1 hline with rfl | hline
  · simp only [Hunk.headerLine, List.mem_append, List.mem_cons, not_or]
    exact ⟨⟨⟨⟨by decide, by decide, hrange _ _⟩, by decide, by decide, hrange _ _⟩, by decide⟩,
      hwf.heading⟩
  · simp only [List.mem_append, or_assoc] at hline
    rcases hline with hline | hline | hline | hline
    · exact hmarked '-' (by decide) _ hwf.removed line hline
    · exact newline_notMem_noNewline _ line hline
    · exact hmarked '+' (by decide) _ hwf.added line hline
    · exact newline_notMem_noNewline _ line hline

theorem newline_notMem_shown {path : Text} (h : plainPath path = true) (pre : Text)
    (hpre : '\n' ∉ pre) : '\n' ∉ pre ++ shown path := by
  rw [List.mem_append, not_or]
  exact ⟨hpre, notMem_shown h (by decide) (by decide)⟩

theorem newline_notMem_change {change : Change} (hwf : change.WellFormed) :
    ∀ line ∈ change.lines, '\n' ∉ line := by
  intro line hline
  cases change with
  | text oldPath path extended hunks =>
      obtain ⟨hold, hpath, hextended, hhunks⟩ := hwf
      have hbefore : plainPath (oldPath.getD path) = true := by
        cases oldPath with
        | none => exact hpath
        | some old => exact hold old rfl
      rcases List.mem_append.1 hline with hline | hline
      · exact newline_notMem_gitLine hbefore hpath hextended line hline
      · split_ifs at hline with hnone
        · cases hline
        · rcases List.mem_append.1 hline with hline | hline
          · rcases List.mem_pair.1 hline with rfl | rfl
            · cases oldPath with
              | none => decide
              | some old => exact newline_notMem_shown (hold old rfl) _ (by decide)
            · exact newline_notMem_shown hpath _ (by decide)
          · obtain ⟨hunk, hhunk, hline⟩ := List.mem_flatMap.1 hline
            exact newline_notMem_hunk (hhunks hunk hhunk) line hline
  | deleted path extended hunk =>
      obtain ⟨hpath, hextended, hhunk, -⟩ := hwf
      rcases List.mem_append.1 hline with hline | hline
      · rcases List.mem_append.1 hline with hline | hline
        · exact newline_notMem_gitLine hpath hpath hextended line hline
        · rcases List.mem_pair.1 hline with rfl | rfl
          · exact newline_notMem_shown hpath _ (by decide)
          · decide
      · exact newline_notMem_hunk hhunk line hline
  | binary path extended =>
      obtain ⟨hpath, hextended⟩ := hwf
      rcases List.mem_append.1 hline with hline | hline
      · exact newline_notMem_gitLine hpath hpath hextended line hline
      · rw [List.mem_singleton.1 hline]
        simp only [List.mem_append, not_or]
        exact ⟨⟨⟨⟨by simp, notMem_of_plainPath hpath (by decide)⟩, by simp⟩,
          notMem_of_plainPath hpath (by decide)⟩, by simp⟩

/-! ## The whole diff -/

theorem outcome_diff {changes : List Change} (hwf : ∀ change ∈ changes, change.WellFormed) :
    Outcome ⟨.empty, none⟩ ((lines (diffText changes)).foldlM readLine ⟨.empty, none⟩)
      (changes.all Change.accepted) (changes.flatMap Change.read) fun _ => True := by
  have hlines : ∀ line ∈ changes.flatMap Change.lines, '\n' ∉ line := by
    intro line hline
    obtain ⟨change, hchange, hline⟩ := List.mem_flatMap.1 hline
    exact newline_notMem_change (hwf change hchange) line hline
  rw [diffText, lines_unlines hlines]
  exact outcome_changes _ hwf

theorem normalizeRanges_spec (ranges : List LineRange) :
    (∀ n, Range.CoversAll (normalizeRanges ranges) n ↔ Range.CoversAll ranges n) ∧
    ((∀ range ∈ ranges, range.start ≤ range.stop) → Range.Normal (normalizeRanges ranges)) := by
  have : Std.Total SortedBefore := ⟨fun a b => by simp only [SortedBefore]; omega⟩
  have : IsTrans LineRange SortedBefore := ⟨fun a b c => by simp only [SortedBefore]; omega⟩
  have hperm := List.perm_insertionSort SortedBefore ranges
  have hsorted := List.pairwise_insertionSort SortedBefore ranges
  have hstarts := hsorted.imp (S := fun a b => a.start ≤ b.start) fun {a b} hab => by
    simp only [SortedBefore] at hab
    omega
  have hbefore : ∀ range ∈ ranges.insertionSort SortedBefore, Range.Before [] range.start :=
    fun _ _ _ h => (nomatch h)
  refine ⟨fun n => ?_, fun hne => ?_⟩
  · unfold normalizeRanges
    rw [Range.coversAll_foldl_merge hstarts hbefore, or_iff_right (Range.coversAll_nil n)]
    exact Range.coversAll_perm hperm n
  · apply Range.normal_foldl_merge .nil _ hstarts hbefore
    exact fun range hrange => hne range (hperm.mem_iff.1 hrange)

theorem lookup_foldl_normalized {entries : List (Text × List LineRange)}
    (h : (entries.map Prod.fst).Pairwise (· < ·)) (changed : ChangedLines) (path : Text) :
    (entries.foldl (fun changed entry =>
      let normalized := normalizeRanges entry.2
      if normalized.isEmpty then changed else changed.update entry.1 fun _ => normalized)
        changed).lookup path =
      match SortedMap.lookupEntries path entries with
      | none => changed.lookup path
      | some ranges =>
        if (normalizeRanges ranges).isEmpty then changed.lookup path
        else some (normalizeRanges ranges) := by
  induction entries generalizing changed with
  | nil => rfl
  | cons entry entries ih =>
      obtain ⟨key, ranges⟩ := entry
      rw [List.map_cons, List.pairwise_cons] at h
      rw [List.foldl_cons, ih h.2, SortedMap.lookupEntries]
      dsimp only
      by_cases hpath : path = key
      · subst hpath
        rw [if_pos rfl, SortedMap.lookupEntries_of_lt h.1]
        dsimp only
        split_ifs
        · rfl
        · rw [SortedMap.lookup_update, if_pos rfl]
      · rw [if_neg hpath]
        split_ifs
        · rfl
        · rw [SortedMap.lookup_update, if_neg hpath]

theorem covered_iff_rangesOf {pairs : List (Text × LineRange)} {path : Text} {n : Nat} :
    Covered pairs path n ↔ Range.CoversAll (rangesOf pairs path) n := by
  constructor
  · rintro ⟨range, hrange, hcovers⟩
    exact ⟨range, List.mem_filterMap.2 ⟨(path, range), hrange, if_pos rfl⟩, hcovers⟩
  · rintro ⟨range, hrange, hcovers⟩
    obtain ⟨pair, hpair, hsome⟩ := List.mem_filterMap.1 hrange
    split_ifs at hsome with hpath
    cases hsome
    exact ⟨pair.2, hpath ▸ hpair, hcovers⟩

/-- What the parser gives for the text of a diff. -/
theorem parseChangedLines_diffText {changes : List Change}
    (hwf : ∀ change ∈ changes, change.WellFormed) :
    (changes.all Change.accepted = true → ∃ changed,
      parseChangedLines (diffText changes) = .ok changed ∧ ∀ path, changed.lookup path =
        let normalized := normalizeRanges (rangesOf (changes.flatMap Change.read) path)
        if normalized.isEmpty then none else some normalized) ∧
    (changes.all Change.accepted = false → ∃ reason,
      parseChangedLines (diffText changes) = .error reason) := by
  have houtcome := outcome_diff hwf
  unfold parseChangedLines
  constructor
  · intro haccepted
    obtain ⟨scan, hscan, -, hranges⟩ := houtcome.taken haccepted
    rw [hscan]
    refine ⟨_, rfl, fun path => ?_⟩
    rw [lookup_foldl_normalized scan.collected.sorted]
    have hpath : (scan.collected.lookup path).getD [] =
        rangesOf (changes.flatMap Change.read) path := hranges path
    rw [← hpath]
    show (match scan.collected.lookup path with | none => none | some ranges => _) = _
    cases scan.collected.lookup path with
    | none => rfl
    | some ranges => rfl
  · intro haccepted
    obtain ⟨reason, hreason⟩ := houtcome.refused haccepted
    rw [hreason]
    exact ⟨reason, rfl⟩

theorem coversAll_lookup {ranges : List LineRange} {found : Option (List LineRange)}
    (h : found = let normalized := normalizeRanges ranges
      if normalized.isEmpty then none else some normalized) (n : Nat) :
    Range.CoversAll (found.getD []) n ↔ Range.CoversAll ranges n := by
  rw [← (normalizeRanges_spec ranges).1 n, h]
  dsimp only
  split_ifs with hempty
  · rw [List.isEmpty_iff.1 hempty]
    rfl
  · rfl

/-! ## What is read of a hunk -/

theorem read_hunk {header : Header} {hunk : Hunk} {pair : Text × LineRange}
    (h : pair ∈ hunk.read header) : hunk.added ≠ [] ∧
      pair.2 = ⟨hunk.newStart, min (hunk.newStart + hunk.added.length) u32Max - 1⟩ := by
  cases header with
  | file path =>
      rw [Hunk.read] at h
      split_ifs at h with hadded
      · cases h
      · rw [List.mem_singleton.1 h]
        exact ⟨hadded, rfl⟩
  | ignored => cases h
  | refused reason => cases h

theorem read_hunks {header : Header} {hunks : List Hunk} {pair : Text × LineRange}
    (h : pair ∈ readHunks header hunks) : ∃ hunk ∈ hunks, hunk.added ≠ [] ∧
      pair.2 = ⟨hunk.newStart, min (hunk.newStart + hunk.added.length) u32Max - 1⟩ := by
  induction hunks generalizing header with
  | nil => cases h
  | cons hunk hunks ih =>
      rcases List.mem_append.1 h with h | h
      · exact ⟨hunk, List.mem_cons_self .., read_hunk h⟩
      · obtain ⟨other, hother, hpair⟩ := ih h
        exact ⟨other, List.mem_cons_of_mem _ hother, hpair⟩

/-- What is read ends before the largest number, and comes from a hunk with new lines. -/
theorem read_changes {changes : List Change} (hwf : ∀ change ∈ changes, change.WellFormed)
    {pair : Text × LineRange} (h : pair ∈ changes.flatMap Change.read) :
    pair.2.stop ≤ u32Max - 1 ∧ ∃ path length, 0 < length ∧ 1 ≤ pair.2.start ∧
      pair.2.stop = min (pair.2.start + length) u32Max - 1 ∧
      (path, ⟨pair.2.start, pair.2.start + length - 1⟩) ∈ changes.flatMap Change.own := by
  obtain ⟨change, hchange, hpair⟩ := List.mem_flatMap.1 h
  have hchangeWf := hwf change hchange
  cases change with
  | text oldPath path extended hunks =>
      obtain ⟨hunk, hhunk, hadded, hrange⟩ := read_hunks hpair
      have hlength := List.length_pos_iff.2 hadded
      have hstart := (hchangeWf.2.2.2 hunk hhunk).start hadded
      rw [hrange]
      dsimp only
      refine ⟨by omega, path, hunk.added.length, hlength, hstart, rfl, ?_⟩
      refine List.mem_flatMap.2 ⟨_, hchange, List.mem_flatMap.2 ⟨hunk, hhunk, ?_⟩⟩
      rw [Hunk.own, if_neg hadded]
      exact List.mem_singleton_self _
  | deleted path extended hunk =>
      obtain ⟨other, hother, hadded, -⟩ := read_hunks hpair
      rw [List.mem_singleton.1 hother] at hadded
      exact absurd hchangeWf.2.2.2 hadded
  | binary path extended => cases hpair

/-- Where each path is given its own lines, no number is cut off. -/
theorem nonempty_of_readWell {changes : List Change} (hwf : ∀ change ∈ changes, change.WellFormed)
    (hread : ReadWell changes) : ∀ pair ∈ changes.flatMap Change.read,
      pair.2.start ≤ pair.2.stop := by
  intro pair hpair
  obtain ⟨-, path, length, hlength, hstart, hstop, hown⟩ := read_changes hwf hpair
  obtain ⟨range, hrange, -, hlast⟩ := (hread.2 path (pair.2.start + length - 1)).2
    ⟨_, hown, by dsimp only; omega, Nat.le_refl _⟩
  have hbound := (read_changes hwf hrange).1
  dsimp only at hbound
  omega

/-! ## Usual diffs -/

/-- No added line begins as the name of a file does, and the numbers are small. -/
structure Hunk.Plain (hunk : Hunk) : Prop where
  added : ∀ line ∈ hunk.added, stripPrefix "++ ".toList line = none
  old : hunk.oldStart ≤ u32Max ∧ hunk.removed.length ≤ u32Max
  new : hunk.newStart + hunk.added.length ≤ u32Max

def Change.Plain : Change → Prop
  | .text _ path _ hunks => ' ' ∉ path ∧ ∀ hunk ∈ hunks, hunk.Plain
  | .deleted .. | .binary .. => True

theorem stripPrefix_stripCr {pre line : Text} (h : stripPrefix pre line = none) :
    stripPrefix pre (stripCr line) = none := by
  cases hsome : stripPrefix pre (stripCr line) with
  | none => rfl
  | some rest =>
      have hline := stripPrefix_eq_some hsome
      unfold stripCr at hline
      split_ifs at hline with hcr
      · rw [← List.dropLast_append_getLast? _ hcr, hline, List.append_assoc,
          stripPrefix_append] at h
        cases h
      · rw [hline, stripPrefix_append] at h
        cases h

namespace Hunk.Plain

variable {hunk : Hunk} (h : hunk.Plain)
include h

theorem names : hunk.names = [] := by
  refine List.filterMap_eq_nil_iff.2 fun line hline => ?_
  have hplus : stripPrefix "+++ ".toList ('+' :: stripCr line) =
      stripPrefix "++ ".toList (stripCr line) := if_pos rfl
  unfold headerOf
  rw [stripCr_cons (by decide), hplus, stripPrefix_stripCr (h.added line hline)]
  rfl

theorem accepted (header : Header) : hunk.accepted header = true := by
  have hnew := h.new
  have hfits : hunk.fits = true := by
    simp only [fits, Bool.and_eq_true, decide_eq_true_eq]
    exact ⟨⟨h.old, by omega⟩, by omega⟩
  rw [Hunk.accepted, h.names, List.all_nil, Bool.and_true]
  cases header <;> first | exact hfits | rfl

theorem leaves (header : Header) : hunk.leaves header = header := by
  rw [Hunk.leaves, h.names]
  rfl

theorem read (path : Text) : hunk.read (.file path) = hunk.own path := by
  have hnew := h.new
  show (if _ then _ else _) = if _ then _ else _
  rw [Nat.min_eq_left hnew]

end Hunk.Plain

theorem hunks_of_plain {path : Text} {hunks : List Hunk} (h : ∀ hunk ∈ hunks, hunk.Plain) :
    acceptedHunks (.file path) hunks = true ∧
      readHunks (.file path) hunks = hunks.flatMap (Hunk.own path) := by
  induction hunks with
  | nil => exact ⟨rfl, rfl⟩
  | cons hunk hunks ih =>
      have hfirst := h hunk (List.mem_cons_self ..)
      obtain ⟨haccepted, hread⟩ := ih fun other hother => h other (List.mem_cons_of_mem _ hother)
      rw [acceptedHunks, readHunks, hfirst.leaves, hfirst.accepted, hfirst.read, haccepted, hread]
      exact ⟨rfl, rfl⟩

theorem change_of_plain {change : Change} (hwf : change.WellFormed) (h : change.Plain) :
    change.accepted = true ∧ change.read = change.own := by
  cases change with
  | text oldPath path extended hunks =>
      have hshown : shown path = path := by
        rw [shown, if_neg h.1, List.append_nil]
      rw [Change.accepted, Change.read, Change.own, hshown]
      exact hunks_of_plain h.2
  | deleted path extended hunk =>
      have hnames : hunk.names = [] := by
        rw [Hunk.names, hwf.2.2.2]
        rfl
      have hread : hunk.read .ignored = [] := rfl
      rw [Change.accepted, Change.read, Change.own, acceptedHunks, readHunks, Hunk.accepted, hnames]
      exact ⟨rfl, rfl⟩
  | binary path extended => exact ⟨rfl, rfl⟩

/-- Without spaces in paths and such added lines, everything is read well. -/
theorem readWell_of_plain {changes : List Change} (hwf : ∀ change ∈ changes, change.WellFormed)
    (h : ∀ change ∈ changes, change.Plain) : ReadWell changes := by
  have hread : changes.flatMap Change.read = changes.flatMap Change.own := by
    rw [List.flatMap_def, List.flatMap_def]
    congr 1
    exact List.map_congr_left fun change hchange =>
      (change_of_plain (hwf change hchange) (h change hchange)).2
  refine ⟨fun change hchange => (change_of_plain (hwf change hchange) (h change hchange)).1, ?_⟩
  intro path n
  rw [hread]

/-! ## The scope of new code -/

/-- The lines of a diff are found where the lines are that are read under each path. -/
theorem scoped_iff {changes : List Change} (hwf : ∀ change ∈ changes, change.WellFormed) :
    Scoped changes ↔ ReadWell changes := by
  obtain ⟨htaken, hrefused⟩ := parseChangedLines_diffText hwf
  constructor
  · rintro ⟨changed, hresult, hscoped⟩
    cases haccepted : changes.all Change.accepted with
    | false =>
        obtain ⟨reason, hreason⟩ := hrefused haccepted
        rw [hreason] at hresult
        cases hresult
    | true =>
        obtain ⟨changed', hresult', hlookup⟩ := htaken haccepted
        rw [hresult'] at hresult
        cases hresult
        refine ⟨List.all_eq_true.1 haccepted, fun path n => ?_⟩
        rw [covered_iff_rangesOf, ← coversAll_lookup (hlookup path)]
        exact (hscoped path).2 n
  · intro hread
    obtain ⟨changed, hresult, hlookup⟩ := htaken (List.all_eq_true.2 hread.1)
    refine ⟨changed, hresult, fun path => ⟨?_, fun n => ?_⟩⟩
    · intro ranges hranges
      rw [hlookup] at hranges
      dsimp only at hranges
      split_ifs at hranges with hempty
      cases hranges
      refine ⟨fun hnil => hempty (List.isEmpty_iff.2 hnil), (normalizeRanges_spec _).2 ?_⟩
      intro range hrange
      obtain ⟨pair, hpair, hsome⟩ := List.mem_filterMap.1 hrange
      split_ifs at hsome
      cases hsome
      exact nonempty_of_readWell hwf hread pair hpair
    · rw [coversAll_lookup (hlookup path), ← covered_iff_rangesOf]
      exact hread.2 path n

/-- A changed file and a deleted one. -/
theorem scoped_iff_two : Scoped
    [.text (some ['a']) ['a'] [] [⟨1, [['x']], false, 1, [['y'], ['z']], true, []⟩],
      .deleted ['b'] [] ⟨1, [['x']], false, 0, [], false, []⟩] := by
  have hwf : ∀ change ∈ [Change.text (some ['a']) ['a'] []
      [⟨1, [['x']], false, 1, [['y'], ['z']], true, []⟩],
      .deleted ['b'] [] ⟨1, [['x']], false, 0, [], false, []⟩], change.WellFormed := by
    have hline : ∀ c, c ≠ '\n' → ∀ line ∈ [[c]], '\n' ∉ line := by
      intro c hc line hline
      rw [List.mem_singleton.1 hline]
      simpa using Ne.symm hc
    intro change hchange
    rcases List.mem_pair.1 hchange with rfl | rfl
    · refine ⟨fun old hold => ?_, by decide, fun _ h => (nomatch h), fun hunk hhunk => ?_⟩
      · cases hold
        decide
      · rw [List.mem_singleton.1 hhunk]
        exact ⟨hline 'x' (by decide), by decide, fun h => (nomatch h), fun _ => Nat.le_refl 1⟩
    · exact ⟨by decide, fun _ h => (nomatch h),
        ⟨hline 'x' (by decide), fun _ h => (nomatch h), fun h => (nomatch h),
          fun h => absurd rfl h⟩, rfl⟩
  refine (scoped_iff hwf).2 (readWell_of_plain hwf fun change hchange => ?_)
  rcases List.mem_pair.1 hchange with rfl | rfl
  · refine ⟨by decide, fun hunk hhunk => ?_⟩
    rw [List.mem_singleton.1 hhunk]
    exact ⟨by decide, by decide, by decide⟩
  · trivial

/-- Is line `n` of the path found in the diff? -/
def finds (changes : List Change) (path : Text) (n : Nat) : Bool :=
  match parseChangedLines (diffText changes) with
  | .ok changed => ((changed.lookup path).getD []).any fun range =>
      decide (range.start ≤ n) && decide (n ≤ range.stop)
  | .error _ => false

theorem not_scoped_of_finds {changes : List Change} (path : Text) (n : Nat)
    (hown : Covered (changes.flatMap Change.own) path n) (h : finds changes path n = false) :
    ¬Scoped changes := by
  rintro ⟨changed, hresult, hscoped⟩
  obtain ⟨range, hrange, hcovers⟩ := ((hscoped path).2 n).2 hown
  unfold finds at h
  rw [hresult] at h
  have hnone := List.any_eq_false.1 h range hrange
  simp only [Bool.and_eq_true, decide_eq_true_eq] at hnone
  exact hnone hcovers

/-- A new file whose path has a space. -/
def spacedPath : List Change := [.text none "a b".toList [] [⟨0, [], false, 1, [['y']], false, []⟩]]

/-- An added line is read as the name of a file. -/
def namedByLine : List Change :=
  [.text none ['a'] [] [⟨0, [], false, 1, ["++ b/q".toList], false, []⟩,
    ⟨0, [], false, 3, [['y']], false, []⟩]]

/-- An added line is refused. -/
def refusedByLine : List Change :=
  [.text none ['a'] [] [⟨0, [], false, 3, ["++ x".toList], false, []⟩]]

theorem wellFormed_added (n : Nat) (line : Text) (hn : 1 ≤ n) (hline : '\n' ∉ line) :
    Hunk.WellFormed ⟨0, [], false, n, [line], false, []⟩ := by
  refine ⟨fun _ h => (nomatch h), fun other hother => ?_, fun h => (nomatch h), fun _ => hn⟩
  rw [List.mem_singleton.1 hother]
  exact hline

theorem wellFormed_new {path : Text} {hunks : List Hunk} (hpath : plainPath path = true)
    (hhunks : ∀ hunk ∈ hunks, hunk.WellFormed) :
    ∀ change ∈ [Change.text none path [] hunks], change.WellFormed := by
  intro change hchange
  rw [List.mem_singleton.1 hchange]
  exact ⟨fun _ h => (nomatch h), hpath, fun _ h => (nomatch h), hhunks⟩

/-- Line 1 of `a b` and line 3 of the others are new lines that are not found. -/
theorem scoped_fails :
    ((∀ change ∈ spacedPath, change.WellFormed) ∧ ¬Scoped spacedPath) ∧
    ((∀ change ∈ namedByLine, change.WellFormed) ∧ ¬Scoped namedByLine) ∧
    (∀ change ∈ refusedByLine, change.WellFormed) ∧ ¬Scoped refusedByLine := by
  refine ⟨⟨wellFormed_new (by decide) ?_, ?_⟩, ⟨wellFormed_new (by decide) ?_, ?_⟩,
    wellFormed_new (by decide) ?_, ?_⟩
  · simpa using wellFormed_added 1 _ (by decide) (by decide)
  · exact not_scoped_of_finds "a b".toList 1
      ⟨⟨1, 1⟩, by decide, Nat.le_refl _, Nat.le_refl _⟩ (by decide +kernel)
  · simpa using ⟨wellFormed_added 1 _ (by decide) (by decide),
      wellFormed_added 3 ['y'] (by decide) (by decide)⟩
  · exact not_scoped_of_finds ['a'] 3
      ⟨⟨3, 3⟩, by decide, Nat.le_refl _, Nat.le_refl _⟩ (by decide +kernel)
  · simpa using wellFormed_added 3 _ (by decide) (by decide)
  · exact not_scoped_of_finds ['a'] 3
      ⟨⟨3, 3⟩, by decide, Nat.le_refl _, Nat.le_refl _⟩ (by decide +kernel)

end Vanyline.Health.Diff
