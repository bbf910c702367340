import Vanyline.Lib.Fields
import Vanyline.Lib.Splices

/-!
# The base of a diff

The view of a diff has the text of the working tree and the patch that git prints for it.
`reconstructBase` applies the hunks of the patch the other way round, from the last one to the first
one, and so gets back the text of the base.

* `Prints` says what git prints for two texts: headers, and hunks of context, removed and added
  lines at the right places, each with a marker when its line has no line break.
* `reconstructBase_spec`: where every hunk has a line of the working tree, and no change from the
  first line on that is taken for its end (`Kept`), the base comes back if and only if both texts
  end in a line break or both do not.  A working text which the patch does not fit comes back as it
  is when every hunk is refused or finds nothing to change.
-/

namespace Vanyline.Frontend.DiffPatch

open Vanyline.Lib TextLines

/-! ## The code -/

inductive Marker
  | context
  | removed
  | added
  deriving DecidableEq

structure HunkLine where
  marker : Marker
  content : Text
  deriving DecidableEq

structure Hunk where
  newStart : Nat
  lines : List HunkLine
  deriving DecidableEq

/-- `\d+`, as a number, and what is behind it. -/
def digits (text : Text) : Option (Nat × Text) :=
  let found := text.takeWhile Char.isDigit
  if found = [] then none
  else some (Nat.ofDigitChars 10 found 0, text.dropWhile Char.isDigit)

/-- `(?:,\d+)?`. -/
def skipCount (text : Text) : Text :=
  match text with
  | ',' :: rest =>
    match digits rest with
    | some (_, rest) => rest
    | none => text
  | _ => text

/-- The start behind the `+` of a line `@@ -l,s +l,s @@`. -/
def hunkStart (line : Text) : Option Nat := do
  let rest ← stripPrefix "@@ -".toList line
  let (_, rest) ← digits rest
  let rest ← stripPrefix " +".toList (skipCount rest)
  let (start, rest) ← digits rest
  let _ ← stripPrefix " @@".toList (skipCount rest)
  return start

/-- What `--+` finds, at any place of the line. -/
def hasDashes : Text → Bool
  | [] => false
  | c :: line => ['-', '-'].isPrefixOf (c :: line) || hasDashes line

/-- `^@@ ` or `^diff |--+|^\+\+\+`. -/
def endsHunk (line : Text) : Bool :=
  "@@ ".toList.isPrefixOf line || "diff ".toList.isPrefixOf line ||
    hasDashes line || "+++".toList.isPrefixOf line

def readLine (line : Text) : Option HunkLine :=
  match line with
  | ' ' :: content => some ⟨.context, content⟩
  | '-' :: content => some ⟨.removed, content⟩
  | '+' :: content => some ⟨.added, content⟩
  | _ => none

def Hunk.push (hunk : Hunk) (line : Text) : Hunk :=
  { hunk with lines := hunk.lines ++ (readLine line).toList }

/-- Both loops over the lines, with the hunk that is being read.  A line that ends it is read again
by the outer loop. -/
def parseLines : Option Hunk → List Text → List Hunk
  | current, [] => current.toList
  | none, line :: rest => parseLines ((hunkStart line).map fun start => ⟨start, []⟩) rest
  | some hunk, line :: rest =>
    if endsHunk line then
      hunk :: parseLines ((hunkStart line).map fun start => ⟨start, []⟩) rest
    else parseLines (some (hunk.push line)) rest

def parseHunks (patch : Text) : List Hunk := parseLines none (patch.splitOn '\n')

/-- A removed line and an added one behind it: whichever of them is there is replaced by the
other. -/
def swap (lines : List Text) (i : Nat) (old new : Text) : List Text :=
  if lines[i]? = some new then lines.set i old
  else if lines[i]? = some old then lines.set i new
  else lines

def outside (pos : Int) (lines : List Text) : Bool := pos < 0 || pos > lines.length

/-- The loop over the lines of a hunk.  There is no value when `ok` becomes false, since what the
loop then still does is given up. -/
def applyLines : List HunkLine → Int → List Text → Option (List Text)
  | [], _, lines => some lines
  | ⟨.context, _⟩ :: rest, pos, lines =>
    if outside pos lines then none else applyLines rest (pos + 1) lines
  | ⟨.removed, old⟩ :: ⟨.added, new⟩ :: rest, pos, lines =>
    if outside pos lines then none
    else applyLines rest (pos + 1) (swap lines pos.toNat old new)
  | ⟨.removed, old⟩ :: rest, pos, lines =>
    if outside pos lines then none
    else applyLines rest (pos + 1) (lines.insertIdx pos.toNat old)
  | ⟨.added, new⟩ :: rest, pos, lines =>
    if outside pos lines then none
    else if lines[pos.toNat]? = some new then
      applyLines rest pos (lines.eraseIdx pos.toNat)
    else none

def applyHunk (doc : Text) (hunk : Hunk) : Text :=
  match applyLines hunk.lines (hunk.newStart - 1) (doc.splitOn '\n') with
  | some lines => ['\n'].intercalate lines
  | none => doc

/-- `sort` is stable. -/
def reconstructBase (working patch : Text) : Text :=
  if patch = [] then working
  else
    let hunks := parseHunks patch
    if hunks = [] then working
    else (descending Hunk.newStart hunks).foldl applyHunk working

/-! ## What git prints -/

/-- A line of a text; only the last one may have no line break. -/
structure Line where
  content : Text
  ended : Bool
  deriving DecidableEq

def linesOf (text : Text) : List Line :=
  (cut text).1.map (⟨·, true⟩) ++ if (cut text).2 = [] then [] else [⟨(cut text).2, false⟩]

structure DiffLine where
  marker : Marker
  line : Line
  deriving DecidableEq

structure DiffHunk where
  oldStart : Nat
  newStart : Nat
  heading : Text
  lines : List DiffLine
  deriving DecidableEq

def oldSide (lines : List DiffLine) : List Line :=
  (lines.filter (·.marker ≠ .added)).map DiffLine.line

def newSide (lines : List DiffLine) : List Line :=
  (lines.filter (·.marker ≠ .removed)).map DiffLine.line

/-- The start of a side behind so many lines; of an empty one the line before it. -/
def startOf (before : Nat) (side : List Line) : Nat := if side = [] then before else before + 1

/-- The hunks turn the lines of the base into those of the working tree, both of which begin behind
so many lines.  What is between the hunks is the same in both. -/
inductive Differ : Nat → Nat → List DiffHunk → List Line → List Line → Prop
  | same (i j : Nat) (lines : List Line) : Differ i j [] lines lines
  | hunk {i j : Nat} {gap : List Line} {h : DiffHunk} {hs : List DiffHunk}
      {base working : List Line}
      (hold : h.oldStart = startOf (i + gap.length) (oldSide h.lines))
      (hnew : h.newStart = startOf (j + gap.length) (newSide h.lines))
      (hrest : Differ (i + gap.length + (oldSide h.lines).length)
        (j + gap.length + (newSide h.lines).length) hs base working) :
      Differ i j (h :: hs) (gap ++ (oldSide h.lines ++ base)) (gap ++ (newSide h.lines ++ working))

def Marker.char : Marker → Char
  | .context => ' '
  | .removed => '-'
  | .added => '+'

def DiffLine.text (l : DiffLine) : Text := l.marker.char :: l.line.content

def noNewline : Text := "\\ No newline at end of file".toList

def DiffLine.print (l : DiffLine) : List Text :=
  l.text :: if l.line.ended then [] else [noNewline]

/-- `l,s`, or `l` for one line. -/
def printRange (start count : Nat) : Text :=
  Nat.toDigits 10 start ++ if count = 1 then [] else ',' :: Nat.toDigits 10 count

def DiffHunk.header (h : DiffHunk) : Text :=
  "@@ -".toList ++ (printRange h.oldStart (oldSide h.lines).length ++
    (" +".toList ++ (printRange h.newStart (newSide h.lines).length ++
      (" @@".toList ++ h.heading))))

def DiffHunk.print (h : DiffHunk) : List Text := h.header :: h.lines.flatMap DiffLine.print

/-- The patch is printed with these hunks behind the headers of the file. -/
structure PrintsHunks (base working patch : Text) (hunks : List DiffHunk) : Prop where
  differ : Differ 0 0 hunks (linesOf base) (linesOf working)
  headings : ∀ h ∈ hunks, '\n' ∉ h.heading
  printed : ∃ headers : List Text, (∀ line ∈ headers, '\n' ∉ line ∧ ¬ "@@".toList <+: line) ∧
    patch = unlines (headers ++ hunks.flatMap DiffHunk.print)

def Prints (base working patch : Text) : Prop := ∃ hunks, PrintsHunks base working patch hunks

/-! ## Reading the patch -/

variable {h : DiffHunk} {hs : List DiffHunk} {ls : List DiffLine} {l : DiffLine}

theorem digits_number (n : Nat) {rest : Text} (h : ∀ c ∈ rest.head?, c.isDigit = false) :
    digits (Nat.toDigits 10 n ++ rest) = some (n, rest) := by
  have hdigits : ∀ c ∈ Nat.toDigits 10 n, c.isDigit = true := fun c hc => isDigit_toDigits hc
  have hrest : rest.takeWhile Char.isDigit = [] ∧ rest.dropWhile Char.isDigit = rest := by
    cases rest with
    | nil => exact ⟨rfl, rfl⟩
    | cons c rest =>
        have hc : ¬ c.isDigit = true := by
          rw [h c rfl]
          exact Bool.false_ne_true
        exact ⟨List.takeWhile_cons_of_neg hc, List.dropWhile_cons_of_neg hc⟩
  rw [digits, List.takeWhile_append_of_pos hdigits, List.dropWhile_append_of_pos hdigits, hrest.1,
    hrest.2, List.append_nil]
  rw [if_neg Nat.toDigits_ne_nil, Nat.ofDigitChars_ten_toDigits]

/-- A range is read up to the space behind it. -/
theorem digits_printRange (start count : Nat) (rest : Text) :
    ∃ more, digits (printRange start count ++ ' ' :: rest) = some (start, more) ∧
      skipCount more = ' ' :: rest := by
  rw [printRange]
  split_ifs with hone
  · refine ⟨' ' :: rest, ?_, rfl⟩
    rw [List.append_nil]
    exact digits_number start fun c hc => by cases hc; rfl
  · refine ⟨',' :: (Nat.toDigits 10 count ++ ' ' :: rest), ?_, ?_⟩
    · rw [List.append_assoc]
      exact digits_number start fun c hc => by cases hc; rfl
    · have hcount : digits (Nat.toDigits 10 count ++ ' ' :: rest) = some (count, ' ' :: rest) :=
        digits_number count fun c hc => by cases hc; rfl
      rw [skipCount, hcount]

theorem hunkStart_header (h : DiffHunk) : hunkStart h.header = some h.newStart := by
  obtain ⟨more, hold, hskip⟩ := digits_printRange h.oldStart (oldSide h.lines).length
    ('+' :: (printRange h.newStart (newSide h.lines).length ++ (" @@".toList ++ h.heading)))
  obtain ⟨more', hnew, hskip'⟩ := digits_printRange h.newStart (newSide h.lines).length
    ("@@".toList ++ h.heading)
  have hplus : stripPrefix " +".toList
      (' ' :: '+' :: (printRange h.newStart (newSide h.lines).length ++
        (" @@".toList ++ h.heading))) =
          some (printRange h.newStart (newSide h.lines).length ++ (" @@".toList ++ h.heading)) :=
    stripPrefix_append " +".toList _
  have hend : stripPrefix " @@".toList (' ' :: ("@@".toList ++ h.heading)) = some h.heading :=
    stripPrefix_append " @@".toList _
  rw [hunkStart, DiffHunk.header, stripPrefix_append]
  show (digits (printRange h.oldStart (oldSide h.lines).length ++ ' ' :: '+' ::
    (printRange h.newStart (newSide h.lines).length ++ (" @@".toList ++ h.heading)))).bind _ = _
  rw [hold, Option.bind_some]
  dsimp only
  rw [hskip, hplus]
  show (digits (printRange h.newStart (newSide h.lines).length ++ ' ' ::
    ("@@".toList ++ h.heading))).bind _ = _
  rw [hnew, Option.bind_some]
  dsimp only
  rw [hskip', hend]
  rfl

/-- A line that does not begin as a header does is none. -/
theorem hunkStart_eq_none {line : Text} (h : ¬ "@@".toList <+: line) : hunkStart line = none := by
  have hstrip : stripPrefix "@@ -".toList line = none := by
    rw [Option.eq_none_iff_forall_ne_some]
    intro rest hrest
    have hline := stripPrefix_eq_some hrest
    exact h ⟨" -".toList ++ rest, by rw [hline]; rfl⟩
  rw [hunkStart, hstrip]
  rfl

theorem not_header_text (l : DiffLine) : ¬ "@@".toList <+: l.text := by
  intro hprefix
  obtain ⟨rest, hrest⟩ := hprefix
  have hhead := congrArg List.head? hrest
  have hmarker : some '@' = some l.marker.char := hhead
  cases hcase : l.marker with
  | context => rw [hcase] at hmarker; exact absurd hmarker (by decide)
  | removed => rw [hcase] at hmarker; exact absurd hmarker (by decide)
  | added => rw [hcase] at hmarker; exact absurd hmarker (by decide)

def DiffLine.read (l : DiffLine) : HunkLine := ⟨l.marker, l.line.content⟩

theorem readLine_text (l : DiffLine) : readLine l.text = some l.read := by
  rcases l with ⟨_ | _ | _, line⟩
  all_goals rfl

/-- The lines up to the first one that is taken for the end of the hunk. -/
def kept (ls : List DiffLine) : List DiffLine := ls.takeWhile fun l => !endsHunk l.text

def dropped (ls : List DiffLine) : List DiffLine := ls.dropWhile fun l => !endsHunk l.text

def DiffHunk.read (h : DiffHunk) : Hunk := ⟨h.newStart, (kept h.lines).map DiffLine.read⟩

theorem endsHunk_header (h : DiffHunk) : endsHunk h.header = true := by
  have hprefix : "@@ ".toList.isPrefixOf h.header = true := rfl
  rw [endsHunk, hprefix, Bool.true_or, Bool.true_or, Bool.true_or]

theorem not_header_noNewline : ¬ "@@".toList <+: noNewline := by decide

theorem parseLines_none (line : Text) (rest : List Text) : parseLines none (line :: rest) =
    parseLines ((hunkStart line).map fun start => ⟨start, []⟩) rest := rfl

theorem parseLines_some (hunk : Hunk) (line : Text) (rest : List Text) :
    parseLines (some hunk) (line :: rest) =
      if endsHunk line then hunk :: parseLines none (line :: rest)
      else parseLines (some (hunk.push line)) rest := rfl

/-- The outer loop goes over the lines of a hunk. -/
theorem parseLines_skip (ls : List DiffLine) (rest : List Text) :
    parseLines none (ls.flatMap DiffLine.print ++ rest) = parseLines none rest := by
  induction ls with
  | nil => rfl
  | cons l ls ih =>
      rw [List.flatMap_cons, DiffLine.print, List.append_assoc, List.cons_append, parseLines_none,
        hunkStart_eq_none (not_header_text l), Option.map_none]
      split_ifs
      · exact ih
      · rw [List.singleton_append, parseLines_none, hunkStart_eq_none not_header_noNewline]
        exact ih

/-- The inner loop reads the lines up to the first one that ends the hunk for it. -/
theorem parseLines_read (hunk : Hunk) (ls : List DiffLine) {rest : List Text}
    (hrest : ∀ hunk, parseLines (some hunk) rest = hunk :: parseLines none rest) :
    parseLines (some hunk) (ls.flatMap DiffLine.print ++ rest) =
      { hunk with lines := hunk.lines ++ (kept ls).map DiffLine.read } ::
        parseLines none rest := by
  induction ls generalizing hunk with
  | nil =>
      rw [List.flatMap_nil, List.nil_append, hrest]
      simp [kept]
  | cons l ls ih =>
      by_cases hends : endsHunk l.text = true
      · have hkept : kept (l :: ls) = [] :=
          List.takeWhile_cons_of_neg (by rw [hends]; exact Bool.false_ne_true)
        have hskip := parseLines_skip (l :: ls) rest
        rw [List.flatMap_cons, DiffLine.print, List.append_assoc, List.cons_append] at hskip ⊢
        rw [parseLines_some, if_pos hends, hskip, hkept, List.map_nil, List.append_nil]
      · have hkept : kept (l :: ls) = l :: kept ls :=
          List.takeWhile_cons_of_pos (by rw [Bool.not_eq_true] at hends; rw [hends]; rfl)
        have hpush : hunk.push l.text = { hunk with lines := hunk.lines ++ [l.read] } := by
          rw [Hunk.push, readLine_text]
          rfl
        have hresult := ih { hunk with lines := hunk.lines ++ [l.read] }
        rw [List.append_assoc, List.singleton_append] at hresult
        rw [List.flatMap_cons, DiffLine.print, List.append_assoc, List.cons_append,
          parseLines_some, if_neg hends, hpush, hkept, List.map_cons]
        split_ifs
        · exact hresult
        · have hmarker : endsHunk noNewline = false := by decide
          have hnothing : Hunk.push { hunk with lines := hunk.lines ++ [l.read] } noNewline =
              { hunk with lines := hunk.lines ++ [l.read] } := by
            rw [Hunk.push]
            exact congrArg (Hunk.mk _) (List.append_nil _)
          rw [List.singleton_append, parseLines_some, hmarker, hnothing]
          exact hresult

theorem parseLines_print (hs : List DiffHunk) :
    parseLines none (hs.flatMap DiffHunk.print ++ [[]]) = hs.map DiffHunk.read := by
  induction hs with
  | nil => rfl
  | cons h hs ih =>
      have hclose : ∀ hunk, parseLines (some hunk) (hs.flatMap DiffHunk.print ++ [[]]) =
          hunk :: parseLines none (hs.flatMap DiffHunk.print ++ [[]]) := by
        intro hunk
        cases hs with
        | nil =>
            have hnothing : hunk.push [] = hunk := congrArg (Hunk.mk _) (List.append_nil _)
            rw [List.flatMap_nil, List.nil_append, parseLines_some, hnothing]
            rfl
        | cons next hs =>
            rw [List.flatMap_cons, DiffHunk.print, List.append_assoc, List.cons_append,
              parseLines_some, if_pos (endsHunk_header next)]
      rw [List.flatMap_cons, DiffHunk.print, List.append_assoc, List.cons_append, parseLines_none,
        hunkStart_header, Option.map_some, parseLines_read _ _ hclose, ih]
      rfl

/-! ## Applying a hunk -/

def news (ls : List HunkLine) : List Text :=
  (ls.filter (·.marker ≠ .removed)).map HunkLine.content

def olds (ls : List HunkLine) : List Text :=
  (ls.filter (·.marker ≠ .added)).map HunkLine.content

variable {lines front rest : List Text} {old new : Text} {pos : Int}

theorem not_outside (hpos : pos = front.length) (hlines : lines = front ++ rest) :
    ¬ outside pos lines = true := by
  rw [outside, hlines, List.length_append]
  simp only [Bool.or_eq_true, decide_eq_true_eq]
  omega

theorem getElem?_behind (hpos : pos = front.length) :
    (front ++ new :: rest)[pos.toNat]? = some new := by
  rw [hpos, Int.toNat_natCast, List.getElem?_append_right (Nat.le_refl _), Nat.sub_self]
  rfl

theorem swap_behind (front rest : List Text) (old new : Text) :
    swap (front ++ new :: rest) front.length old new = front ++ old :: rest := by
  have hpos : (front.length : Int) = front.length := rfl
  have hfound : (front ++ new :: rest)[front.length]? = some new := getElem?_behind hpos
  rw [swap, if_pos hfound, List.set_append_right _ _ (Nat.le_refl _), Nat.sub_self]
  rfl

theorem insertIdx_behind (front rest : List Text) (old : Text) :
    (front ++ rest).insertIdx front.length old = front ++ old :: rest := by
  induction front with
  | nil => rfl
  | cons line front ih =>
      rw [List.cons_append, List.length_cons, List.insertIdx_succ_cons, ih, List.cons_append]

theorem eraseIdx_behind (front rest : List Text) (new : Text) :
    (front ++ new :: rest).eraseIdx front.length = front ++ rest := by
  rw [List.eraseIdx_append_of_length_le (Nat.le_refl _), Nat.sub_self]
  rfl

/-- Where the new lines of a hunk are, the old ones come. -/
theorem applyLines_news (ls : List HunkLine) (hpos : pos = front.length)
    (hlines : lines = front ++ (news ls ++ rest)) :
    applyLines ls pos lines = some (front ++ (olds ls ++ rest)) := by
  fun_induction applyLines ls pos lines generalizing front with
  | case1 pos lines => rw [hlines]; rfl
  | case2 content ls pos lines houtside => exact absurd houtside (not_outside hpos hlines)
  | case3 content ls pos lines houtside ih =>
      have hnext : pos + 1 = (front ++ [content]).length := by
        rw [hpos, List.length_append, List.length_singleton]
        rfl
      rw [ih hnext (by rw [hlines, List.append_assoc]; rfl), List.append_assoc]
      rfl
  | case4 old new ls pos lines houtside => exact absurd houtside (not_outside hpos hlines)
  | case5 old new ls pos lines houtside ih =>
      have hnext : pos + 1 = (front ++ [old]).length := by
        rw [hpos, List.length_append, List.length_singleton]
        rfl
      have hswap : swap lines pos.toNat old new = (front ++ [old]) ++ (news ls ++ rest) := by
        rw [hlines, hpos, Int.toNat_natCast, List.append_assoc]
        exact swap_behind front (news ls ++ rest) old new
      rw [ih hnext hswap, List.append_assoc]
      rfl
  | case6 old ls pos lines hnext houtside => exact absurd houtside (not_outside hpos hlines)
  | case7 old ls pos lines hadded houtside ih =>
      have hnext : pos + 1 = (front ++ [old]).length := by
        rw [hpos, List.length_append, List.length_singleton]
        rfl
      have hinsert : lines.insertIdx pos.toNat old = (front ++ [old]) ++ (news ls ++ rest) := by
        rw [hlines, hpos, Int.toNat_natCast, List.append_assoc]
        exact insertIdx_behind front (news ls ++ rest) old
      rw [ih hnext hinsert, List.append_assoc]
      rfl
  | case8 new ls pos lines houtside => exact absurd houtside (not_outside hpos hlines)
  | case9 new ls pos lines houtside hfound ih =>
      have herase : lines.eraseIdx pos.toNat = front ++ (news ls ++ rest) := by
        rw [hlines, hpos, Int.toNat_natCast]
        exact eraseIdx_behind front (news ls ++ rest) new
      rw [ih hpos herase]
      rfl
  | case10 new ls pos lines houtside hmissing =>
      exact absurd (hlines ▸ getElem?_behind hpos) hmissing

/-! ## The hunks of a patch -/

/-- The hunk has a line of the working tree, and behind a line that is taken for its end only
context. -/
structure Kept (h : DiffHunk) : Prop where
  new_side : newSide h.lines ≠ []
  context : ∀ l ∈ dropped h.lines, l.marker = .context

theorem contents_newSide (ls : List DiffLine) :
    (newSide ls).map Line.content = news (ls.map DiffLine.read) := by
  rw [newSide, news, List.filter_map, List.map_map, List.map_map]
  rfl

theorem contents_oldSide (ls : List DiffLine) :
    (oldSide ls).map Line.content = olds (ls.map DiffLine.read) := by
  rw [oldSide, olds, List.filter_map, List.map_map, List.map_map]
  rfl

theorem sides_append (ls more : List DiffLine) :
    newSide (ls ++ more) = newSide ls ++ newSide more ∧
      oldSide (ls ++ more) = oldSide ls ++ oldSide more := by
  rw [newSide, oldSide, List.filter_append, List.filter_append, List.map_append, List.map_append]
  exact ⟨rfl, rfl⟩

theorem sides_of_context (hcontext : ∀ l ∈ ls, l.marker = .context) : newSide ls = oldSide ls := by
  rw [newSide, oldSide]
  refine congrArg (List.map DiffLine.line) (List.filter_congr fun l hl => ?_)
  rw [hcontext l hl]
  rfl

/-- A hunk that is kept gives its old lines in place of its new ones. -/
theorem applyLines_read (hkept : Kept h) (front rest : List Text) :
    applyLines h.read.lines front.length
        (front ++ ((newSide h.lines).map Line.content ++ rest)) =
      some (front ++ ((oldSide h.lines).map Line.content ++ rest)) := by
  have hdivide : h.lines = kept h.lines ++ dropped h.lines :=
    (List.takeWhile_append_dropWhile ..).symm
  have hsame := sides_of_context hkept.context
  have hnew : (newSide h.lines).map Line.content =
      news h.read.lines ++ (newSide (dropped h.lines)).map Line.content := by
    conv_lhs => rw [hdivide, (sides_append _ _).1, List.map_append, contents_newSide]
    rfl
  have hold : (oldSide h.lines).map Line.content =
      olds h.read.lines ++ (newSide (dropped h.lines)).map Line.content := by
    conv_lhs => rw [hdivide, (sides_append _ _).2, List.map_append, contents_oldSide, ← hsame]
    rfl
  rw [hnew, hold, List.append_assoc, List.append_assoc]
  exact applyLines_news h.read.lines rfl rfl

/-! ## All hunks -/

variable {i j : Nat} {base working : List Line}

def contents (lines : List Line) : List Text := lines.map Line.content

def joined (lines : List Text) : Text := ['\n'].intercalate lines

theorem contents_append (first second : List Line) :
    contents (first ++ second) = contents first ++ contents second := List.map_append

theorem applyHunk_read (hkept : Kept h) {front rest : List Text}
    (hstart : h.newStart = front.length + 1)
    (hlines : ∀ line ∈ front ++ (contents (newSide h.lines) ++ rest), '\n' ∉ line) :
    applyHunk (joined (front ++ (contents (newSide h.lines) ++ rest))) h.read =
      joined (front ++ (contents (oldSide h.lines) ++ rest)) := by
  have hne : front ++ (contents (newSide h.lines) ++ rest) ≠ [] := by
    intro hnil
    obtain ⟨-, hnil⟩ := List.append_eq_nil_iff.1 hnil
    exact hkept.new_side (List.map_eq_nil_iff.1 (List.append_eq_nil_iff.1 hnil).1)
  have hpos : (h.read.newStart : Int) - 1 = front.length := by
    show (h.newStart : Int) - 1 = front.length
    omega
  have hresult := applyLines_read hkept front rest
  rw [applyHunk, joined, List.splitOn_intercalate '\n' hlines hne, hpos]
  rw [contents, hresult]
  rfl

/-- From the last hunk to the first one, the lines of the working tree become those of the base. -/
theorem Differ.foldr_applyHunk (hdiffer : Differ i j hs base working)
    (hkept : ∀ h ∈ hs, Kept h) {front tail : List Text} (hfront : front.length = j)
    (hworking : ∀ line ∈ front ++ (contents working ++ tail), '\n' ∉ line)
    (hbase : ∀ l ∈ base, '\n' ∉ l.content) :
    hs.foldr (fun h doc => applyHunk doc h.read) (joined (front ++ (contents working ++ tail))) =
      joined (front ++ (contents base ++ tail)) := by
  induction hdiffer generalizing front with
  | same i j lines => rfl
  | @hunk i j gap h hs base working hold hnew hrest ih =>
      rw [List.forall_mem_cons] at hkept
      obtain ⟨hfirst, hothers⟩ := hkept
      have hassoc : front ++ (contents (gap ++ (newSide h.lines ++ working)) ++ tail) =
          (front ++ contents gap ++ contents (newSide h.lines)) ++ (contents working ++ tail) := by
        simp only [contents_append, List.append_assoc]
      have hlength : (front ++ contents gap ++ contents (newSide h.lines)).length =
          j + gap.length + (newSide h.lines).length := by
        simp only [contents, List.length_append, List.length_map, hfront]
      have hstart : h.newStart = (front ++ contents gap).length + 1 := by
        rw [hnew, startOf, if_neg hfirst.new_side, List.length_append, contents, List.length_map,
          hfront]
      rw [hassoc] at hworking ⊢
      have hafter := ih hothers hlength hworking fun l hl => hbase l <|
        List.mem_append_right _ (List.mem_append_right _ hl)
      rw [List.foldr_cons, hafter, List.append_assoc (front ++ contents gap),
        applyHunk_read hfirst hstart]
      · simp only [contents_append, List.append_assoc]
      · intro line hline
        rw [← List.append_assoc] at hline
        rcases List.mem_append.1 hline with hline | hline
        · exact hworking line (List.mem_append_left _ hline)
        · rcases List.mem_append.1 hline with hline | hline
          · obtain ⟨l, hl, rfl⟩ := List.mem_map.1 hline
            exact hbase l (List.mem_append_right _ (List.mem_append_right _ hl))
          · exact hworking line (List.mem_append_right _ (List.mem_append_right _ hline))

/-- The hunks come in the order of their lines. -/
theorem Differ.increasing (hdiffer : Differ i j hs base working) (hkept : ∀ h ∈ hs, Kept h) :
    (∀ h ∈ hs, j < h.newStart) ∧ hs.Pairwise fun a b => a.newStart < b.newStart := by
  induction hdiffer with
  | same i j lines => exact ⟨fun h hh => absurd hh List.not_mem_nil, .nil⟩
  | @hunk i j gap h hs base working hold hnew hrest ih =>
      rw [List.forall_mem_cons] at hkept
      obtain ⟨hfirst, hothers⟩ := hkept
      obtain ⟨hbehind, hpairs⟩ := ih hothers
      rw [startOf, if_neg hfirst.new_side] at hnew
      have hpos := List.length_pos_of_ne_nil hfirst.new_side
      refine ⟨?_, List.pairwise_cons.2 ⟨fun b hb => ?_, hpairs⟩⟩
      · intro a ha
        rcases List.mem_cons.1 ha with rfl | ha
        · omega
        · have hlt := hbehind a ha
          omega
      · have hlt := hbehind b hb
        omega

theorem descending_of_increasing {key : Hunk → Nat} {hunks : List Hunk}
    (h : hunks.Pairwise fun a b => key a < key b) : descending key hunks = hunks.reverse := by
  induction hunks with
  | nil => rfl
  | cons a hunks ih =>
      obtain ⟨hfirst, hrest⟩ := List.pairwise_cons.1 h
      have hlast : ∀ l : List Hunk, (∀ b ∈ l, key a < key b) →
          l.orderedInsert (fun a b => key b ≤ key a) a = l ++ [a] := by
        intro l hl
        induction l with
        | nil => rfl
        | cons b l ih =>
            rw [List.forall_mem_cons] at hl
            rw [List.orderedInsert_cons, if_neg (Nat.not_le_of_lt hl.1), ih hl.2]
            rfl
      rw [descending_cons, ih hrest, List.reverse_cons]
      exact hlast _ fun b hb => hfirst b (List.mem_reverse.1 hb)

theorem reconstructBase_eq (working patch : Text) :
    reconstructBase working patch =
      (descending Hunk.newStart (parseHunks patch)).foldl applyHunk working := by
  rw [reconstructBase]
  split_ifs with hempty
  · rw [hempty]
    rfl
  · dsimp only
    split_ifs with hnone
    · rw [hnone]
      rfl
    · rfl

/-! ## The printed patch -/

theorem newline_notMem_linesOf (text : Text) : ∀ l ∈ linesOf text, '\n' ∉ l.content := by
  obtain ⟨hlines, hlast⟩ := newline_notMem_cut text
  intro l hl
  rcases List.mem_append.1 hl with hl | hl
  · obtain ⟨line, hline, rfl⟩ := List.mem_map.1 hl
    exact hlines line hline
  · split_ifs at hl
    · exact absurd hl List.not_mem_nil
    · rw [List.mem_singleton] at hl
      rw [hl]
      exact hlast

/-- The lines of the hunks are lines of the texts. -/
theorem Differ.mem (hdiffer : Differ i j hs base working) :
    ∀ h ∈ hs, ∀ l ∈ h.lines, l.line ∈ base ∨ l.line ∈ working := by
  induction hdiffer with
  | same i j lines => exact fun h hh => absurd hh List.not_mem_nil
  | @hunk i j gap first hs base working hold hnew hrest ih =>
      intro h hh l hl
      rcases List.mem_cons.1 hh with rfl | hh
      · by_cases hmarker : l.marker = .removed
        · have hside : l ∈ h.lines.filter (·.marker ≠ .added) :=
            List.mem_filter.2 ⟨hl, by rw [hmarker]; rfl⟩
          exact .inl (List.mem_append_right _ (List.mem_append_left _ (List.mem_map_of_mem hside)))
        · have hside : l ∈ h.lines.filter (·.marker ≠ .removed) :=
            List.mem_filter.2 ⟨hl, decide_eq_true hmarker⟩
          exact .inr (List.mem_append_right _ (List.mem_append_left _ (List.mem_map_of_mem hside)))
      · rcases ih h hh l hl with hmem | hmem
        · exact .inl (List.mem_append_right _ (List.mem_append_right _ hmem))
        · exact .inr (List.mem_append_right _ (List.mem_append_right _ hmem))

theorem newline_notMem_printRange (start count : Nat) : '\n' ∉ printRange start count := by
  have hdigits : ∀ n, '\n' ∉ Nat.toDigits 10 n := fun n hmem =>
    absurd (isDigit_toDigits hmem) (by decide)
  rw [printRange, List.mem_append, not_or]
  refine ⟨hdigits start, ?_⟩
  split_ifs
  · exact List.not_mem_nil
  · rw [List.mem_cons, not_or]
    exact ⟨by decide, hdigits count⟩

theorem newline_notMem_header (hheading : '\n' ∉ h.heading) : '\n' ∉ h.header := by
  have hold := newline_notMem_printRange h.oldStart (oldSide h.lines).length
  have hnew := newline_notMem_printRange h.newStart (newSide h.lines).length
  rw [DiffHunk.header]
  simp only [List.mem_append, not_or]
  exact ⟨by decide, hold, by decide, hnew, by decide, hheading⟩

theorem newline_notMem_print (hl : '\n' ∉ l.line.content) : ∀ line ∈ l.print, '\n' ∉ line := by
  intro line hline
  rcases List.mem_cons.1 hline with rfl | hline
  · rw [DiffLine.text, List.mem_cons, not_or]
    refine ⟨?_, hl⟩
    cases l.marker with
    | context => decide
    | removed => decide
    | added => decide
  · split_ifs at hline
    · exact absurd hline List.not_mem_nil
    · rw [List.mem_singleton] at hline
      rw [hline]
      decide

theorem parseLines_headers {headers : List Text}
    (hheaders : ∀ line ∈ headers, '\n' ∉ line ∧ ¬ "@@".toList <+: line) (rest : List Text) :
    parseLines none (headers ++ rest) = parseLines none rest := by
  induction headers with
  | nil => rfl
  | cons line headers ih =>
      rw [List.forall_mem_cons] at hheaders
      rw [List.cons_append, parseLines_none, hunkStart_eq_none hheaders.1.2]
      exact ih hheaders.2

variable {baseText workingText patch : Text}

/-- The hunks of a printed patch are read up to the lines that end them. -/
theorem parseHunks_printed (hprints : PrintsHunks baseText workingText patch hs) :
    parseHunks patch = hs.map DiffHunk.read := by
  obtain ⟨headers, hheaders, rfl⟩ := hprints.printed
  have hcontent : ∀ h ∈ hs, ∀ l ∈ h.lines, '\n' ∉ l.line.content := by
    intro h hh l hl
    rcases hprints.differ.mem h hh l hl with hmem | hmem
    · exact newline_notMem_linesOf baseText _ hmem
    · exact newline_notMem_linesOf workingText _ hmem
  have hlines : ∀ line ∈ headers ++ hs.flatMap DiffHunk.print, '\n' ∉ line := by
    intro line hline
    rcases List.mem_append.1 hline with hline | hline
    · exact (hheaders line hline).1
    · obtain ⟨h, hh, hline⟩ := List.mem_flatMap.1 hline
      rcases List.mem_cons.1 hline with rfl | hline
      · exact newline_notMem_header (hprints.headings h hh)
      · obtain ⟨l, hl, hline⟩ := List.mem_flatMap.1 hline
        exact newline_notMem_print (hcontent h hh l hl) line hline
  have hsplit : (unlines (headers ++ hs.flatMap DiffHunk.print)).splitOn '\n' =
      headers ++ hs.flatMap DiffHunk.print ++ [[]] := by
    have hended : (unlines (headers ++ hs.flatMap DiffHunk.print) ++ []).splitOn '\n' =
        headers ++ hs.flatMap DiffHunk.print ++ [[]] :=
      Fields.splitOn_ended hlines List.not_mem_nil
    rwa [List.append_nil] at hended
  rw [parseHunks, hsplit, List.append_assoc, parseLines_headers hheaders, parseLines_print]

/-- What is behind the last line when a text is divided at its line breaks. -/
def endTail (text : Text) : List Text := if (cut text).2 = [] then [[]] else []

theorem splitOn_linesOf (text : Text) :
    text.splitOn '\n' = contents (linesOf text) ++ endTail text := by
  have hended : ((cut text).1.map fun line => (⟨line, true⟩ : Line)).map Line.content =
      (cut text).1 := by
    rw [List.map_map]
    exact List.map_id _
  rw [Fields.splitOn_newline, contents, linesOf, endTail, List.map_append, hended]
  split_ifs with hlast
  · rw [hlast, List.map_nil, List.append_nil]
  · rw [List.append_nil]
    rfl

theorem joined_linesOf (text : Text) : joined (contents (linesOf text) ++ endTail text) = text := by
  rw [← splitOn_linesOf]
  exact List.intercalate_splitOn '\n'

/-- The result for a patch whose hunks are kept. -/
theorem reconstructBase_printed (hprints : PrintsHunks baseText workingText patch hs)
    (hkept : ∀ h ∈ hs, Kept h) :
    reconstructBase workingText patch =
      joined (contents (linesOf baseText) ++ endTail workingText) := by
  have hincreasing : (hs.map DiffHunk.read).Pairwise fun a b => a.newStart < b.newStart :=
    List.pairwise_map.2 (hprints.differ.increasing hkept).2
  have hworking : ∀ line ∈ [] ++ (contents (linesOf workingText) ++ endTail workingText),
      '\n' ∉ line := by
    rw [List.nil_append, ← splitOn_linesOf, Fields.splitOn_newline]
    obtain ⟨hlines, hlast⟩ := newline_notMem_cut workingText
    intro line hline
    rcases List.mem_append.1 hline with hline | hline
    · exact hlines line hline
    · rw [List.mem_singleton.1 hline]
      exact hlast
  have hresult := hprints.differ.foldr_applyHunk hkept rfl hworking
    (newline_notMem_linesOf baseText)
  rw [List.nil_append, List.nil_append, joined_linesOf] at hresult
  rw [reconstructBase_eq, parseHunks_printed hprints, descending_of_increasing hincreasing,
    List.foldl_reverse, List.foldr_map]
  exact hresult

/-- The base is empty, or both texts end in a line break (or are empty), or both do not. -/
def SameEnd (base working : Text) : Prop :=
  base = [] ∨ ((cut base).2 = [] ↔ (cut working).2 = [])

theorem endTail_eq_iff (text other : Text) :
    endTail text = endTail other ↔ ((cut text).2 = [] ↔ (cut other).2 = []) := by
  rw [endTail, endTail]
  by_cases htext : (cut text).2 = []
  · by_cases hother : (cut other).2 = []
    · simp [htext, hother]
    · simp [htext, hother]
  · by_cases hother : (cut other).2 = []
    · simp [htext, hother]
    · simp [htext, hother]

theorem eq_nil_of_linesOf {text : Text} (h : linesOf text = []) : text = [] := by
  obtain ⟨hlines, hlast⟩ := List.append_eq_nil_iff.1 h
  have hended : (cut text).1 = [] := List.map_eq_nil_iff.1 hlines
  have hrest : (cut text).2 = [] := by
    by_contra hne
    rw [if_neg hne] at hlast
    exact List.cons_ne_nil _ _ hlast
  rw [← unlines_cut text, hended, hrest]
  rfl

/-- When the hunks are kept, only the ends of the texts decide. -/
theorem reconstructBase_eq_base_iff (hprints : PrintsHunks baseText workingText patch hs)
    (hkept : ∀ h ∈ hs, Kept h) :
    reconstructBase workingText patch = baseText ↔ SameEnd baseText workingText := by
  rw [reconstructBase_printed hprints hkept, SameEnd, ← endTail_eq_iff]
  constructor
  · intro h
    by_cases hnone : linesOf baseText = []
    · exact .inl (eq_nil_of_linesOf hnone)
    · refine .inr ?_
      have hne : contents (linesOf baseText) ++ endTail workingText ≠ [] := by
        intro hnil
        exact hnone (List.map_eq_nil_iff.1 (List.append_eq_nil_iff.1 hnil).1)
      have hlines : ∀ line ∈ contents (linesOf baseText) ++ endTail workingText,
          '\n' ∉ line := by
        intro line hline
        rcases List.mem_append.1 hline with hline | hline
        · obtain ⟨l, hl, rfl⟩ := List.mem_map.1 hline
          exact newline_notMem_linesOf baseText l hl
        · rw [endTail] at hline
          split_ifs at hline
          · rw [List.mem_singleton.1 hline]
            exact List.not_mem_nil
          · exact absurd hline List.not_mem_nil
      have hsplit := congrArg (List.splitOn '\n') h
      rw [joined, List.splitOn_intercalate '\n' hlines hne, splitOn_linesOf] at hsplit
      exact (List.append_cancel_left hsplit).symm
  · intro h
    rcases h with rfl | h
    · rw [endTail]
      split_ifs
      · rfl
      · rfl
    · rw [← h, joined_linesOf]

/-! ## A patch that does not fit -/

/-- The place of the line behind `before` in a hunk. -/
def place (start : Int) (before : List HunkLine) : Int := start + (news before).length

/-- A line that is added and does not come right behind a removed one. -/
def Alone (before : List HunkLine) (l : HunkLine) : Prop :=
  l.marker = .added ∧ before.getLast?.map HunkLine.marker ≠ some .removed

/-- A line of the hunk is outside of the text, or an added one is not there. -/
def Refused (lines : List Text) (hunk : Hunk) : Prop :=
  ∃ before l after, hunk.lines = before ++ l :: after ∧
    (outside (place (hunk.newStart - 1) before) lines = true ∨
      Alone before l ∧
        lines[(place (hunk.newStart - 1) before).toNat]? ≠ some l.content)

/-- All changes of the lines are replacements of one line by another one, and neither of them is
there. -/
def IdleBy (lines : List Text) (pos : Int) (ls : List HunkLine) : Prop :=
  ∀ before l after, ls = before ++ l :: after → ¬ Alone before l ∧
    (l.marker = .removed → ∃ new more, after = ⟨.added, new⟩ :: more ∧
      lines[(place pos before).toNat]? ≠ some l.content ∧
        lines[(place pos before).toNat]? ≠ some new)

def Idle (lines : List Text) (hunk : Hunk) : Prop := IdleBy lines (hunk.newStart - 1) hunk.lines

theorem applyLines_outside {ls : List HunkLine} (hne : ls ≠ [])
    (houtside : outside pos lines = true) :
    applyLines ls pos lines = none := by
  fun_cases applyLines ls pos lines with
  | case1 pos lines => exact absurd rfl hne
  | case2 => rfl
  | case3 _ _ _ _ hinside => exact absurd houtside hinside
  | case4 => rfl
  | case5 _ _ _ _ _ hinside => exact absurd houtside hinside
  | case6 => rfl
  | case7 _ _ _ _ _ hinside => exact absurd houtside hinside
  | case8 => rfl
  | case9 _ _ _ _ hinside => exact absurd houtside hinside
  | case10 => rfl

theorem outside_behind (hpos : pos = front.length) (hlines : lines.length = front.length) :
    outside (pos + 1) lines = true := by
  rw [outside, hlines]
  simp only [Bool.or_eq_true, decide_eq_true_eq]
  omega

theorem not_alone {l : HunkLine} (h : l.marker ≠ .added) (before : List HunkLine) :
    ¬ Alone before l := fun halone => h halone.1

theorem context_ne_added : Marker.context ≠ Marker.added := nofun

theorem removed_ne_added : Marker.removed ≠ Marker.added := nofun

theorem context_ne_removed : Marker.context ≠ Marker.removed := nofun

theorem added_ne_removed : Marker.added ≠ Marker.removed := nofun

theorem Alone.tail {l head : HunkLine} {before : List HunkLine}
    (halone : Alone (head :: before) l) : Alone before l := by
  refine ⟨halone.1, ?_⟩
  have hlast := halone.2
  cases before with
  | nil => exact Option.some_ne_none _ ∘ Eq.symm
  | cons next before => rwa [List.getLast?_cons_cons] at hlast

theorem length_news_cons {head : HunkLine} (h : head.marker ≠ .removed) (ls : List HunkLine) :
    (news (head :: ls)).length = (news ls).length + 1 := by
  have hpos : decide (head.marker ≠ .removed) = true := decide_eq_true h
  rw [news, news, List.filter_cons, if_pos hpos, List.map_cons, List.length_cons]

/-- The hunk is refused by the lines `rest` behind its place. -/
def RefusedBy (rest : List Text) (ls : List HunkLine) : Prop :=
  ∃ before l after, ls = before ++ l :: after ∧
    (rest.length < (news before).length ∨
      Alone before l ∧ rest[(news before).length]? ≠ some l.content)

/-- Behind a line of the working tree. -/
theorem RefusedBy.tail {head : HunkLine} {ls : List HunkLine} {line : Text}
    (hhead : head.marker ≠ .removed) (h : RefusedBy (line :: rest) (head :: ls))
    (hfirst : ¬ (Alone [] head ∧ some line ≠ some head.content)) : RefusedBy rest ls := by
  obtain ⟨before, l, after, hls, hrefused⟩ := h
  cases before with
  | nil =>
      obtain ⟨rfl, rfl⟩ := List.cons.inj hls
      rcases hrefused with hlt | ⟨halone, hne⟩
      · exact absurd hlt (Nat.not_lt_zero _)
      · exact absurd ⟨halone, hne⟩ hfirst
  | cons first before =>
      obtain ⟨rfl, rfl⟩ := List.cons.inj hls
      rw [length_news_cons hhead] at hrefused
      refine ⟨before, l, after, rfl, ?_⟩
      rcases hrefused with hlt | ⟨halone, hne⟩
      · exact .inl (Nat.lt_of_succ_lt_succ hlt)
      · exact .inr ⟨halone.tail, hne⟩

theorem RefusedBy.tail_ne_nil {head : HunkLine} {ls : List HunkLine}
    (hhead : ¬ Alone [] head) (h : RefusedBy [] (head :: ls)) : ls ≠ [] := by
  rintro rfl
  obtain ⟨before, l, after, hls, hrefused⟩ := h
  cases before with
  | nil =>
      obtain ⟨rfl, -⟩ := List.cons.inj hls
      rcases hrefused with hlt | ⟨halone, -⟩
      · exact absurd hlt (Nat.not_lt_zero _)
      · exact hhead halone
  | cons first before =>
      have hnil := (List.cons.inj hls).2
      exact absurd hnil.symm (List.append_ne_nil_of_right_ne_nil _ (List.cons_ne_nil _ _))

/-- Behind an old line that is not replaced. -/
theorem RefusedBy.tail_removed {ls : List HunkLine} (h : RefusedBy rest (⟨.removed, old⟩ :: ls)) :
    RefusedBy rest ls := by
  obtain ⟨before, l, after, hls, hrefused⟩ := h
  cases before with
  | nil =>
      obtain ⟨rfl, rfl⟩ := List.cons.inj hls
      rcases hrefused with hlt | ⟨halone, -⟩
      · exact absurd hlt (Nat.not_lt_zero _)
      · exact absurd halone (not_alone removed_ne_added _)
  | cons first before =>
      obtain ⟨rfl, rfl⟩ := List.cons.inj hls
      refine ⟨before, l, after, rfl, ?_⟩
      rcases hrefused with hlt | ⟨halone, hne⟩
      · exact .inl hlt
      · exact .inr ⟨halone.tail, hne⟩

/-- The line added in a replacement is not alone. -/
theorem RefusedBy.swap {ls : List HunkLine}
    (h : RefusedBy rest (⟨.removed, old⟩ :: ⟨.added, new⟩ :: ls)) :
    RefusedBy rest (⟨.context, new⟩ :: ls) := by
  obtain ⟨before, l, after, hls, hrefused⟩ := h
  cases before with
  | nil =>
      obtain ⟨rfl, rfl⟩ := List.cons.inj hls
      rcases hrefused with hlt | ⟨halone, -⟩
      · exact absurd hlt (Nat.not_lt_zero _)
      · exact absurd halone (not_alone removed_ne_added _)
  | cons first before =>
      obtain ⟨rfl, hls'⟩ := List.cons.inj hls
      cases before with
      | nil =>
          rcases hrefused with hlt | ⟨halone, -⟩
          · exact absurd hlt (Nat.not_lt_zero _)
          · exact absurd rfl halone.2
      | cons second before =>
          obtain ⟨rfl, rfl⟩ := List.cons.inj hls'
          refine ⟨⟨.context, new⟩ :: before, l, after, rfl, ?_⟩
          rcases hrefused with hlt | ⟨halone, hne⟩
          · exact .inl hlt
          · refine .inr ⟨?_, hne⟩
            cases before with
            | nil => exact ⟨halone.1, fun hlast => nomatch Option.some.inj hlast⟩
            | cons third before =>
                refine ⟨halone.1, ?_⟩
                have hlast := halone.tail.tail.2
                rwa [List.getLast?_cons_cons]

theorem length_swap (lines : List Text) (i : Nat) (old new : Text) :
    (swap lines i old new).length = lines.length := by
  rw [DiffPatch.swap]
  split_ifs
  · exact List.length_set
  · exact List.length_set
  · rfl

/-- A replacement changes one line at most. -/
theorem swap_inside {line : Text} (hpos : pos = front.length) (hlines : lines = front ++ line :: rest)
    (old new : Text) : ∃ line', swap lines pos.toNat old new = front ++ line' :: rest := by
  have hset : ∀ other, lines.set pos.toNat other = front ++ other :: rest := by
    intro other
    rw [hlines, hpos, Int.toNat_natCast, List.set_append_right _ _ (Nat.le_refl _), Nat.sub_self]
    rfl
  rw [DiffPatch.swap]
  split_ifs
  · exact ⟨old, hset old⟩
  · exact ⟨new, hset new⟩
  · exact ⟨line, hlines⟩

/-- Behind the last line there is no place for another one. -/
theorem applyLines_behind {head : HunkLine} {ls : List HunkLine} (hpos : pos = front.length)
    (hlength : lines.length = front.length) (hhead : ¬ Alone [] head)
    (h : RefusedBy [] (head :: ls)) : applyLines ls (pos + 1) lines = none :=
  applyLines_outside (h.tail_ne_nil hhead) (outside_behind hpos hlength)

theorem applyLines_refused (ls : List HunkLine) (hpos : pos = front.length)
    (hlines : lines = front ++ rest) (h : RefusedBy rest ls) : applyLines ls pos lines = none := by
  fun_induction applyLines ls pos lines generalizing front rest with
  | case1 pos lines =>
      obtain ⟨before, l, after, hls, -⟩ := h
      exact absurd hls.symm (List.append_ne_nil_of_right_ne_nil _ (List.cons_ne_nil _ _))
  | case2 content ls pos lines houtside => rfl
  | case3 content ls pos lines houtside ih =>
      cases rest with
      | nil =>
          rw [List.append_nil] at hlines
          exact applyLines_behind hpos (congrArg List.length hlines)
            (not_alone context_ne_added []) h
      | cons line rest =>
          have hfront : pos + 1 = (front ++ [line]).length := by
            rw [hpos, List.length_append, List.length_singleton]
            rfl
          refine ih hfront (by rw [hlines, List.append_assoc]; rfl) (h.tail context_ne_removed ?_)
          exact fun hfirst => not_alone context_ne_added [] hfirst.1
  | case4 old new ls pos lines houtside => rfl
  | case5 old new ls pos lines houtside ih =>
      cases rest with
      | nil =>
          rw [List.append_nil] at hlines
          refine applyLines_behind hpos ?_ (not_alone context_ne_added []) h.swap
          rw [length_swap, hlines]
      | cons line rest =>
          obtain ⟨line', hswap⟩ := swap_inside hpos hlines old new
          have hfront : pos + 1 = (front ++ [line']).length := by
            rw [hpos, List.length_append, List.length_singleton]
            rfl
          refine ih hfront (by rw [hswap, List.append_assoc]; rfl) (h.swap.tail context_ne_removed ?_)
          exact fun hfirst => not_alone context_ne_added [] hfirst.1
  | case6 old ls pos lines hadded houtside => rfl
  | case7 old ls pos lines hadded houtside ih =>
      have hfront : pos + 1 = (front ++ [old]).length := by
        rw [hpos, List.length_append, List.length_singleton]
        rfl
      have hinsert : lines.insertIdx pos.toNat old = (front ++ [old]) ++ rest := by
        rw [hlines, hpos, Int.toNat_natCast, List.append_assoc]
        exact insertIdx_behind front rest old
      exact ih hfront hinsert h.tail_removed
  | case8 new ls pos lines houtside => rfl
  | case9 new ls pos lines houtside hfound ih =>
      have hhead : rest[0]? = some new := by
        rw [← hfound, hlines, hpos, Int.toNat_natCast, List.getElem?_append_right (Nat.le_refl _),
          Nat.sub_self]
      cases rest with
      | nil => exact nomatch hhead
      | cons line rest =>
          cases hhead
          have herase : lines.eraseIdx pos.toNat = front ++ rest := by
            rw [hlines, hpos, Int.toNat_natCast]
            exact eraseIdx_behind front rest new
          exact ih hpos herase (h.tail added_ne_removed fun hfirst => hfirst.2 rfl)
  | case10 new ls pos lines houtside hmissing => rfl

theorem applyLines_of_refused {hunk : Hunk} (h : Refused lines hunk) :
    applyLines hunk.lines (hunk.newStart - 1) lines = none := by
  obtain ⟨before, l, after, hls, hrefused⟩ := h
  by_cases houtside : outside (hunk.newStart - 1) lines = true
  · refine applyLines_outside ?_ houtside
    rw [hls]
    exact List.append_ne_nil_of_right_ne_nil _ (List.cons_ne_nil _ _)
  · rw [outside] at houtside
    simp only [Bool.or_eq_true, decide_eq_true_eq, not_or] at houtside
    have hlength : (lines.take (hunk.newStart - 1)).length = hunk.newStart - 1 :=
      List.length_take_of_le (by omega)
    refine applyLines_refused _ (by rw [hlength]; omega)
      (List.take_append_drop (hunk.newStart - 1) lines).symm ⟨before, l, after, hls, ?_⟩
    rw [List.length_drop, List.getElem?_drop]
    rcases hrefused with hbehind | ⟨halone, hne⟩
    · rw [outside, place] at hbehind
      simp only [Bool.or_eq_true, decide_eq_true_eq] at hbehind
      left
      omega
    · have hplace : (place (hunk.newStart - 1) before).toNat =
          hunk.newStart - 1 + (news before).length := by
        rw [place]
        omega
      rw [hplace] at hne
      exact .inr ⟨halone, hne⟩

theorem Alone.cons {head l : HunkLine} {before : List HunkLine} (h : Alone before l)
    (hhead : before = [] → head.marker ≠ .removed) : Alone (head :: before) l := by
  refine ⟨h.1, ?_⟩
  cases before with
  | nil => exact fun hlast => hhead rfl (Option.some.inj hlast)
  | cons next before =>
      rw [List.getLast?_cons_cons]
      exact h.2

theorem IdleBy.tail {head : HunkLine} {ls : List HunkLine} (hhead : head.marker ≠ .removed)
    (h : IdleBy lines pos (head :: ls)) : IdleBy lines (pos + 1) ls := by
  intro before l after hls
  obtain ⟨halone, hremoved⟩ := h (head :: before) l after (by rw [hls]; rfl)
  have hplace : place pos (head :: before) = place (pos + 1) before := by
    rw [place, place, length_news_cons hhead]
    omega
  rw [hplace] at hremoved
  exact ⟨fun halone' => halone (halone'.cons fun _ => hhead), hremoved⟩

theorem IdleBy.tail_swap {ls : List HunkLine}
    (h : IdleBy lines pos (⟨.removed, old⟩ :: ⟨.added, new⟩ :: ls)) :
    IdleBy lines (pos + 1) ls := by
  intro before l after hls
  obtain ⟨halone, hremoved⟩ :=
    h (⟨.removed, old⟩ :: ⟨.added, new⟩ :: before) l after (by rw [hls]; rfl)
  have hplace : place pos (⟨.removed, old⟩ :: ⟨.added, new⟩ :: before) =
      place (pos + 1) before := by
    have hnews : news (⟨.removed, old⟩ :: ⟨.added, new⟩ :: before) =
        news (⟨.added, new⟩ :: before) := rfl
    rw [place, place, hnews, length_news_cons added_ne_removed]
    omega
  rw [hplace] at hremoved
  refine ⟨fun halone' => halone ?_, hremoved⟩
  exact (halone'.cons fun _ => added_ne_removed).cons nofun

theorem not_idleBy_added (lines : List Text) (pos : Int) (ls : List HunkLine) :
    ¬ IdleBy lines pos (⟨.added, new⟩ :: ls) := fun h => (h [] _ _ rfl).1 ⟨rfl, nofun⟩

/-- Neither line of the replacement is there. -/
theorem IdleBy.swap_eq {ls : List HunkLine}
    (h : IdleBy lines pos (⟨.removed, old⟩ :: ⟨.added, new⟩ :: ls)) :
    swap lines pos.toNat old new = lines := by
  obtain ⟨new', more, hafter, hold, hnew⟩ := (h [] _ _ rfl).2 rfl
  cases hafter
  have hplace : place pos [] = pos := Int.add_zero pos
  rw [hplace] at hold hnew
  rw [DiffPatch.swap, if_neg hnew, if_neg hold]

/-- A hunk that finds nothing to change leaves the lines as they are. -/
theorem applyLines_idle {result : List Text} (ls : List HunkLine) (h : IdleBy lines pos ls)
    (hresult : applyLines ls pos lines = some result) : result = lines := by
  fun_induction applyLines ls pos lines with
  | case1 pos lines => exact (Option.some.inj hresult).symm
  | case2 content ls pos lines houtside => exact nomatch hresult
  | case3 content ls pos lines houtside ih => exact ih (h.tail context_ne_removed) hresult
  | case4 old new ls pos lines houtside => exact nomatch hresult
  | case5 old new ls pos lines houtside ih =>
      have hswap := h.swap_eq
      rw [hswap] at ih hresult
      exact ih h.tail_swap hresult
  | case6 old ls pos lines hnext houtside => exact nomatch hresult
  | case7 old ls pos lines hnext houtside ih =>
      obtain ⟨new, more, hls, -⟩ := (h [] _ _ rfl).2 rfl
      exact absurd hls (hnext new more)
  | case8 new ls pos lines houtside => exact nomatch hresult
  | case9 new ls pos lines houtside hfound ih =>
      exact absurd h (not_idleBy_added lines pos ls)
  | case10 new ls pos lines houtside hmissing => exact nomatch hresult

/-- A hunk that is refused or idle leaves the text as it is. -/
theorem applyHunk_eq_self {working : Text} {hunk : Hunk}
    (h : Refused (working.splitOn '\n') hunk ∨ Idle (working.splitOn '\n') hunk) :
    applyHunk working hunk = working := by
  rw [applyHunk]
  cases hresult : applyLines hunk.lines (hunk.newStart - 1) (working.splitOn '\n') with
  | none => rfl
  | some lines =>
      rcases h with h | h
      · rw [applyLines_of_refused h] at hresult
        exact nomatch hresult
      · rw [applyLines_idle hunk.lines h hresult]
        exact List.intercalate_splitOn '\n'

theorem foldl_applyHunk_eq_self {working : Text} {hunks : List Hunk}
    (h : ∀ hunk ∈ hunks, Refused (working.splitOn '\n') hunk ∨
      Idle (working.splitOn '\n') hunk) : hunks.foldl applyHunk working = working := by
  induction hunks with
  | nil => rfl
  | cons hunk hunks ih =>
      rw [List.forall_mem_cons] at h
      rw [List.foldl_cons, applyHunk_eq_self h.1]
      exact ih h.2

/-- A patch that is printed for two texts gives back the base, when its hunks are kept, if and only
if the texts have the same end; another one leaves the text as it is when all its hunks are refused
or idle. -/
theorem reconstructBase_spec (working patch : Text) :
    (∀ base hunks, PrintsHunks base working patch hunks → (∀ h ∈ hunks, Kept h) →
      (reconstructBase working patch = base ↔ SameEnd base working)) ∧
    ((¬ ∃ base, Prints base working patch) →
      (∀ hunk ∈ parseHunks patch, Refused (working.splitOn '\n') hunk ∨
        Idle (working.splitOn '\n') hunk) → reconstructBase working patch = working) := by
  refine ⟨fun base hunks hprints hkept => reconstructBase_eq_base_iff hprints hkept, ?_⟩
  intro _ h
  rw [reconstructBase_eq]
  exact foldl_applyHunk_eq_self fun hunk hhunk => h hunk (mem_descending.1 hhunk)

/-- The hunk that brings a text of two lines back from its first one. -/
def secondLine (first second : String) : DiffHunk where
  oldStart := 1
  newStart := 1
  heading := []
  lines := [⟨.context, ⟨first.toList, true⟩⟩, ⟨.removed, ⟨second.toList, true⟩⟩]

theorem prints_secondLine (first second : String) {base working patch : String}
    (hbase : linesOf base.toList = [⟨first.toList, true⟩, ⟨second.toList, true⟩])
    (hworking : linesOf working.toList = [⟨first.toList, true⟩])
    (hpatch : patch.toList = unlines ((secondLine first second).print)) :
    PrintsHunks base.toList working.toList patch.toList [secondLine first second] := by
  refine ⟨?_, fun h hh => ?_, [], fun line hline => absurd hline List.not_mem_nil, ?_⟩
  · rw [hbase, hworking]
    exact @Differ.hunk 0 0 [] (secondLine first second) [] [] [] rfl rfl (.same _ _ [])
  · rw [List.mem_singleton.1 hh]
    exact List.not_mem_nil
  · rw [hpatch, List.flatMap_singleton, List.nil_append]

theorem reconstructBase_spec_two :
    reconstructBase "a\n".toList "@@ -1,2 +1 @@\n a\n-b\n".toList = "a\nb\n".toList := by
  refine ((reconstructBase_spec _ _).1 _ _ (prints_secondLine "a" "b"
    (by decide) (by decide) (by decide)) ?_).2 (.inr (by decide))
  intro h hh
  rw [List.mem_singleton.1 hh]
  exact ⟨by decide, by decide⟩

/-- A removed line with two dashes is taken for a header, and does not come back. -/
theorem dashes_lost : ¬ ∀ base working patch, Prints base working patch →
    reconstructBase working patch = base := by
  intro h
  have hresult := h "a\n-- b\n".toList "a\n".toList "@@ -1,2 +1 @@\n a\n--- b\n".toList
    ⟨_, prints_secondLine "a" "-- b" (by decide) (by decide) (by decide)⟩
  have hlost : reconstructBase "a\n".toList "@@ -1,2 +1 @@\n a\n--- b\n".toList =
      "a\n".toList := by decide
  rw [hlost] at hresult
  exact absurd hresult (by decide)

end Vanyline.Frontend.DiffPatch
