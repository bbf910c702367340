import Mathlib.Data.Char
import Mathlib.Data.List.Lex
import Vanyline.Lib.ByteOffsets

/-!
# Reading a file page by page

`read_file` shows the lines of a file from an offset on, with their numbers, up to a limit of lines
and a limit of bytes.  A page that does not reach the end of the file says how many lines are left
and at which offset to call again.

The lines are joined and divided again twice on the way: before they are numbered, and before the
page is bounded.  `displayed` is what becomes of them.

* `readFile_eq` says what a page is: the first lines of what is displayed from the offset on.
* `follows_exists` follows the announcements to the end of the file.
* `covered_iff`: the pages cover the file exactly when the last line is not blank, no line is
  longer than a page, and no line but the last ends in a carriage return.
-/

namespace Vanyline.Tools.ReadFile

open Vanyline.Lib TextLines ByteOffsets

def readMaxLines : Nat := 200
def readMaxBytes : Nat := 16 * 1024

/-- What is before the last line feed. -/
def beforeLastNewline : Text → Option Text
  | [] => none
  | c :: text =>
    match beforeLastNewline text with
    | some before => some (c :: before)
    | none => if c = '\n' then some [] else none

/-- The loop of `bound_lines` that takes lines away from the end. -/
def dropLines (maxBytes : Nat) : Nat → Text → Text
  | 0, result => result
  | n + 1, result =>
    let shorter := (beforeLastNewline result).getD result
    if byteLen shorter ≤ maxBytes then shorter else dropLines maxBytes n shorter

def marker (remaining next : Nat) : Text :=
  "\n[truncated — ".toList ++ Nat.toDigits 10 remaining ++
    " more lines, call again with offset=".toList ++ Nat.toDigits 10 next ++ "]".toList

def boundLines (text : Text) (offset maxLines maxBytes : Nat) : Text :=
  if text = [] then []
  else
    let all := lines text
    let lineLimit := min all.length maxLines
    let joined := joinLines (all.take lineLimit)
    let result := if byteLen joined > maxBytes then dropLines maxBytes lineLimit joined else joined
    let returned := if result = [] then 0 else (lines result).length
    if returned < all.length then
      result ++ marker (all.length - returned) (offset + returned)
    else result

/-- `{:>5}\t{}`. -/
def numberLine (n : Nat) (line : Text) : Text :=
  (Nat.toDigits 10 n).leftpad 5 ' ' ++ '\t' :: line

def numberLines (text : Text) (startLine : Nat) : Text :=
  if text = [] then []
  else joinLines ((lines text).mapIdx fun i line => numberLine (startLine + i) line)

structure ReadFileOptions where
  offset : Nat
  limit : Nat
  raw : Bool

inductive ToolsError
  | invalidArgument (name reason : Text)
deriving DecidableEq

/-- `read_file` once it has read the file. -/
def readFile (content : Text) (opts : ReadFileOptions) : Except ToolsError Text :=
  if opts.raw then .ok content
  else
    let total := (lines content).length
    if total = 0 then
      if opts.offset = 0 then .ok []
      else .error (.invalidArgument "offset".toList "file is empty".toList)
    else if opts.offset ≥ total then
      .error (.invalidArgument "offset".toList
        ("file has ".toList ++ Nat.toDigits 10 total ++ " lines, offset ".toList ++
          Nat.toDigits 10 opts.offset ++ " is out of range".toList))
    else
      let effectiveLimit := if opts.limit = 0 then readMaxLines else opts.limit
      let slicedText := joinLines ((lines content).drop opts.offset)
      let numbered := numberLines slicedText (opts.offset + 1)
      .ok (boundLines numbered opts.offset effectiveLimit readMaxBytes)

/-! ## Following the announcements -/

/-- The two numbers of a line that begins with `start` and has `middle` between them. -/
def readAnnouncement (start middle line : Text) : Option (Nat × Nat) :=
  (stripPrefix start line).bind fun rest =>
    let remaining := rest.takeWhile Char.isDigit
    (stripPrefix middle (rest.dropWhile Char.isDigit)).bind fun rest =>
      let next := rest.takeWhile Char.isDigit
      if rest.dropWhile Char.isDigit = [']'] then
        some (Nat.ofDigitChars 10 remaining 0, Nat.ofDigitChars 10 next 0)
      else none

/-- How many lines are left and the offset of the next call, when the last line of a page says
so. -/
def announced (page : Text) : Option (Nat × Nat) :=
  readAnnouncement "[truncated — ".toList " more lines, call again with offset=".toList (cut page).2

/-- A page without the announcement. -/
def pageContent (page : Text) : Text :=
  if (announced page).isSome then (beforeLastNewline page).getD page else page

/-- The lines that a page shows. -/
def shownLines (page : Text) : List Text :=
  let content := pageContent page
  if content = [] then [] else (cut content).1 ++ [(cut content).2]

structure Page where
  offset : Nat
  text : Text

/-- The calls from an offset on, each at the offset that the page before announced, up to a page
that announces nothing. -/
inductive Follows (content : Text) (limit : Nat) : Nat → List Page → Prop
  | last {offset : Nat} {text : Text}
    (read : readFile content ⟨offset, limit, false⟩ = .ok text)
    (ends : announced text = none) : Follows content limit offset [⟨offset, text⟩]
  | more {offset remaining next : Nat} {text : Text} {pages : List Page}
    (read : readFile content ⟨offset, limit, false⟩ = .ok text)
    (goes : announced text = some (remaining, next))
    (rest : Follows content limit next pages) :
    Follows content limit offset (⟨offset, text⟩ :: pages)

/-- The lines of the file with their numbers. -/
def numberedFile (content : Text) : List Text :=
  (lines content).mapIdx fun i line => numberLine (i + 1) line

/-- The pages show the file. -/
structure Covers (content : Text) (pages : List Page) : Prop where
  increasing : (pages.map Page.offset).Pairwise (· < ·)
  shown : pages.flatMap (fun page => shownLines page.text) = numberedFile content
  left : ∀ page ∈ pages, ∀ remaining next, announced page.text = some (remaining, next) →
    next + remaining = (lines content).length
  bounded : ∀ page ∈ pages, byteLen (pageContent page.text) ≤ readMaxBytes

/-- The file can be read page by page. -/
structure Pageable (content : Text) : Prop where
  not_blank : (lines content).getLast? ≠ some []
  short : ∀ line ∈ numberedFile content, byteLen line ≤ readMaxBytes
  no_cr : ∀ line ∈ (lines content).dropLast, line.getLast? ≠ some '\r'

example : readFile "a\r\nb\nc".toList ⟨1, 1, false⟩ = .ok
    "    2\tb\n[truncated — 1 more lines, call again with offset=2]".toList := by
  decide +kernel

/-! ## Joining lines and dividing them again -/

/-- Lines that have been joined and divided again. -/
def relined (ls : List Text) : List Text := lines (joinLines ls)

/-- No line has a line feed in it. -/
def Clean (ls : List Text) : Prop := ∀ line ∈ ls, '\n' ∉ line

theorem clean_stripCr {line : Text} (h : '\n' ∉ line) : '\n' ∉ stripCr line := by
  unfold stripCr
  split_ifs
  · exact fun hmem => h (List.dropLast_subset _ hmem)
  · exact h

theorem clean_lines (text : Text) : Clean (lines text) := by
  obtain ⟨hended, hrest⟩ := newline_notMem_cut text
  intro line hline
  rcases List.mem_append.1 hline with hline | hline
  · obtain ⟨ended, hmem, rfl⟩ := List.mem_map.1 hline
    exact clean_stripCr (hended ended hmem)
  · split_ifs at hline
    · cases hline
    · rw [List.mem_singleton.1 hline]
      exact hrest

theorem cut_joinLines {ls : List Text} {last : Text} (h : Clean (ls ++ [last])) :
    cut (joinLines (ls ++ [last])) = (ls, last) := by
  have hls : ∀ line ∈ ls, '\n' ∉ line := fun line hline => h line (List.mem_append_left _ hline)
  have hlast : '\n' ∉ last := h last (by simp)
  rw [joinLines_concat, cut_unlines hls, cut_of_no_newline hlast, List.append_nil]

/-- All lines but the last lose a carriage return, and a blank last line is lost. -/
theorem relined_concat {ls : List Text} {last : Text} (h : Clean (ls ++ [last])) :
    relined (ls ++ [last]) = ls.map stripCr ++ if last = [] then [] else [last] := by
  rw [relined, lines, cut_joinLines h]

theorem joinLines_eq_nil_iff {ls : List Text} (h : ∀ line ∈ ls, line ≠ []) :
    joinLines ls = [] ↔ ls = [] := by
  refine ⟨fun hnil => ?_, fun hnil => by rw [hnil]; rfl⟩
  cases ls using List.reverseRecOn with
  | nil => rfl
  | append_singleton ls last _ =>
    rw [joinLines_concat] at hnil
    exact absurd (List.append_eq_nil_iff.1 hnil).2 (h last (by simp))

/-- No line is lost when the last one is not blank. -/
theorem length_relined {ls : List Text} (h : Clean ls) (hlast : ls.getLast? ≠ some []) :
    (relined ls).length = ls.length := by
  cases ls using List.reverseRecOn with
  | nil => rfl
  | append_singleton ls last _ =>
    rw [List.getLast?_concat] at hlast
    rw [relined_concat h, if_neg fun hnil => hlast (congrArg some hnil)]
    simp

theorem length_relined_le {ls : List Text} (h : Clean ls) : (relined ls).length ≤ ls.length := by
  cases ls using List.reverseRecOn with
  | nil => exact Nat.le_refl _
  | append_singleton ls last _ =>
    rw [relined_concat h, List.length_append, List.length_append, List.length_map]
    split_ifs
    · exact Nat.add_le_add_left (Nat.zero_le _) _
    · exact Nat.le_refl _

/-- What is before an offset does not matter for what is behind it. -/
theorem relined_drop {ls : List Text} (h : Clean ls) {n : Nat} (hn : n < ls.length) :
    relined (ls.drop n) = (relined ls).drop n := by
  cases ls using List.reverseRecOn with
  | nil => cases hn
  | append_singleton ls last _ =>
    have hle : n ≤ ls.length := by
      rw [List.length_append, List.length_singleton] at hn
      omega
    have hdrop : (ls ++ [last]).drop n = ls.drop n ++ [last] :=
      List.drop_append_of_le_length hle
    have hclean : Clean (ls.drop n ++ [last]) := by
      intro line hline
      apply h line
      rw [← hdrop] at hline
      exact List.mem_of_mem_drop hline
    rw [hdrop, relined_concat hclean, relined_concat h,
      List.drop_append_of_le_length (by rwa [List.length_map]), List.map_drop]

/-! ## Taking lines away from the end -/

theorem beforeLastNewline_of_notMem {text : Text} (h : '\n' ∉ text) :
    beforeLastNewline text = none := by
  induction text with
  | nil => rfl
  | cons c text ih =>
    rw [List.mem_cons, not_or] at h
    rw [beforeLastNewline, ih h.2]
    exact if_neg (Ne.symm h.1)

theorem beforeLastNewline_append (before : Text) {last : Text} (h : '\n' ∉ last) :
    beforeLastNewline (before ++ '\n' :: last) = some before := by
  induction before with
  | nil =>
    rw [List.nil_append, beforeLastNewline, beforeLastNewline_of_notMem h]
    exact if_pos rfl
  | cons c before ih => rw [List.cons_append, beforeLastNewline, ih]

/-- A join of two or more lines is a join of one line less, and the last one. -/
theorem joinLines_concat_of_ne_nil {ls : List Text} (h : ls ≠ []) (last : Text) :
    joinLines (ls ++ [last]) = joinLines ls ++ '\n' :: last := by
  cases ls using List.reverseRecOn with
  | nil => exact absurd rfl h
  | append_singleton ls line _ =>
    rw [joinLines_concat, joinLines_concat, unlines_append, unlines_cons, unlines_nil,
      List.append_assoc, List.append_assoc]
    simp

/-- How many of the first `n` lines a page has: so many as fit, but one at least. -/
def fit (maxBytes : Nat) (ls : List Text) : Nat → Nat
  | n + 2 =>
    if byteLen (joinLines (ls.take (n + 2))) ≤ maxBytes then n + 2 else fit maxBytes ls (n + 1)
  | n => n

theorem fit_of_le {maxBytes n : Nat} {ls : List Text}
    (h : byteLen (joinLines (ls.take n)) ≤ maxBytes) : fit maxBytes ls n = n := by
  cases n with
  | zero => rfl
  | succ n =>
    cases n with
    | zero => rfl
    | succ n => exact if_pos h

theorem fit_bounds (maxBytes : Nat) (ls : List Text) (n : Nat) :
    fit maxBytes ls n ≤ n ∧ (0 < n → 0 < fit maxBytes ls n) ∧
      (fit maxBytes ls n ≤ 1 ∨ byteLen (joinLines (ls.take (fit maxBytes ls n))) ≤ maxBytes) := by
  induction n with
  | zero => exact ⟨Nat.le_refl _, id, .inl (Nat.zero_le _)⟩
  | succ n ih =>
    cases n with
    | zero => exact ⟨Nat.le_refl _, id, .inl (Nat.le_refl _)⟩
    | succ n =>
      rw [fit]
      split_ifs with hfits
      · exact ⟨Nat.le_refl _, id, .inr hfits⟩
      · exact ⟨ih.1.trans (Nat.le_succ _), fun _ => ih.2.1 (Nat.succ_pos n), ih.2.2⟩

theorem dropLines_of_one {text : Text} (h : beforeLastNewline text = none) (maxBytes m : Nat) :
    dropLines maxBytes m text = text := by
  induction m with
  | zero => rfl
  | succ m ih =>
    rw [dropLines, h]
    show (if byteLen text ≤ maxBytes then text else dropLines maxBytes m text) = text
    rw [ih, ite_self]

/-- The loop takes lines away until the rest fits, or one is left. -/
theorem dropLines_take {ls : List Text} (h : Clean ls) {maxBytes n m : Nat} (hn : n < ls.length)
    (hm : n < m) (hlong : maxBytes < byteLen (joinLines (ls.take (n + 1)))) :
    dropLines maxBytes m (joinLines (ls.take (n + 1))) =
      joinLines (ls.take (fit maxBytes ls (n + 1))) := by
  induction n generalizing m with
  | zero =>
    obtain ⟨line, rest, rfl⟩ := List.exists_cons_of_length_pos hn
    apply dropLines_of_one
    exact beforeLastNewline_of_notMem (h line (List.mem_cons_self ..))
  | succ n ih =>
    obtain ⟨m, rfl⟩ := Nat.exists_eq_add_of_lt (Nat.lt_of_le_of_lt (Nat.zero_le _) hm)
    have hne : ls.take (n + 1) ≠ [] := by
      rw [Ne, List.take_eq_nil_iff]
      rintro (hzero | rfl)
      · cases hzero
      · cases hn
    have hlast : '\n' ∉ ls[n + 1] := h _ (List.getElem_mem hn)
    have hbefore : beforeLastNewline (joinLines (ls.take (n + 1 + 1))) =
        some (joinLines (ls.take (n + 1))) := by
      rw [List.take_succ_eq_append_getElem hn, joinLines_concat_of_ne_nil hne,
        beforeLastNewline_append _ hlast]
    rw [fit, if_neg (Nat.not_le_of_lt hlong), Nat.zero_add, dropLines, hbefore, Option.getD_some]
    split_ifs with hfits
    · rw [fit_of_le hfits]
    · exact ih (Nat.lt_of_succ_lt hn) (by omega) (Nat.lt_of_not_le hfits)

/-! ## Numbered lines -/

/-- The lines with their numbers, of which this is the first. -/
def numberFrom (start : Nat) : List Text → List Text
  | [] => []
  | line :: ls => numberLine start line :: numberFrom (start + 1) ls

theorem mapIdx_numberLine (start : Nat) (ls : List Text) :
    (ls.mapIdx fun i line => numberLine (start + i) line) = numberFrom start ls := by
  induction ls generalizing start with
  | nil => rfl
  | cons line ls ih =>
    rw [List.mapIdx_cons, numberFrom, ← ih]
    simp only [Nat.add_zero, Nat.add_assoc, Nat.add_comm 1]

theorem numberedFile_eq (content : Text) : numberedFile content = numberFrom 1 (lines content) := by
  rw [numberedFile, ← mapIdx_numberLine]
  simp only [Nat.add_comm 1]

@[simp] theorem length_numberFrom (start : Nat) (ls : List Text) :
    (numberFrom start ls).length = ls.length := by
  induction ls generalizing start with
  | nil => rfl
  | cons line ls ih => rw [numberFrom, List.length_cons, List.length_cons, ih]

theorem numberFrom_append (start : Nat) (ls ls' : List Text) :
    numberFrom start (ls ++ ls') = numberFrom start ls ++ numberFrom (start + ls.length) ls' := by
  induction ls generalizing start with
  | nil => rfl
  | cons line ls ih =>
    rw [List.cons_append, numberFrom, numberFrom, ih, List.cons_append, List.length_cons,
      Nat.add_assoc, Nat.add_comm 1]

theorem numberFrom_drop (start n : Nat) (ls : List Text) :
    (numberFrom start ls).drop n = numberFrom (start + n) (ls.drop n) := by
  induction n generalizing start ls with
  | zero => rfl
  | succ n ih =>
    cases ls with
    | nil => rfl
    | cons line ls =>
      rw [numberFrom, List.drop_succ_cons, List.drop_succ_cons, ih, Nat.add_assoc, Nat.add_comm 1]

theorem mem_numberFrom {start : Nat} {ls : List Text} {numbered : Text}
    (h : numbered ∈ numberFrom start ls) : ∃ n, ∃ line ∈ ls, numbered = numberLine n line := by
  induction ls generalizing start with
  | nil => cases h
  | cons line ls ih =>
    rcases List.mem_cons.1 h with rfl | h
    · exact ⟨start, line, List.mem_cons_self .., rfl⟩
    · obtain ⟨n, other, hmem, rfl⟩ := ih h
      exact ⟨n, other, List.mem_cons_of_mem _ hmem, rfl⟩

theorem numberLine_injective {n : Nat} {line line' : Text}
    (h : numberLine n line = numberLine n line') : line = line' :=
  (List.cons.inj (List.append_cancel_left h)).2

theorem numberFrom_injective {start : Nat} {ls ls' : List Text}
    (h : numberFrom start ls = numberFrom start ls') : ls = ls' := by
  induction ls generalizing start ls' with
  | nil =>
    cases ls' with
    | nil => rfl
    | cons line' ls' => cases h
  | cons line ls ih =>
    cases ls' with
    | nil => cases h
    | cons line' ls' =>
      obtain ⟨hline, hrest⟩ := List.cons.inj h
      rw [numberLine_injective hline, ih hrest]

/-- A number in front of a line: blanks and digits. -/
theorem mem_leftpad {n : Nat} {c : Char} (h : c ∈ (Nat.toDigits 10 n).leftpad 5 ' ') :
    c = ' ' ∨ c.isDigit = true := by
  rcases List.mem_append.1 h with h | h
  · exact .inl (List.eq_of_mem_replicate h)
  · exact .inr (isDigit_toDigits h)

theorem newline_notMem_numberLine {n : Nat} {line : Text} (h : '\n' ∉ line) :
    '\n' ∉ numberLine n line := by
  intro hmem
  rcases List.mem_append.1 hmem with hmem | hmem
  · rcases mem_leftpad hmem with heq | hdigit
    · exact absurd heq (by decide)
    · exact absurd hdigit (by decide)
  · rcases List.mem_cons.1 hmem with heq | hmem
    · exact absurd heq (by decide)
    · exact h hmem

theorem clean_numberFrom {start : Nat} {ls : List Text} (h : Clean ls) :
    Clean (numberFrom start ls) := by
  intro numbered hmem
  obtain ⟨n, line, hline, rfl⟩ := mem_numberFrom hmem
  exact newline_notMem_numberLine (h line hline)

theorem stripCr_numberLine (n : Nat) (line : Text) :
    stripCr (numberLine n line) = numberLine n (stripCr line) := by
  have hcr : '\r' ∉ (Nat.toDigits 10 n).leftpad 5 ' ' := by
    intro hmem
    rcases mem_leftpad hmem with heq | hdigit
    · exact absurd heq (by decide)
    · exact absurd hdigit (by decide)
  rw [numberLine, stripCr_append hcr, stripCr_cons (by decide)]
  rfl

theorem numberLine_ne_nil (n : Nat) (line : Text) : numberLine n line ≠ [] :=
  List.append_ne_nil_of_right_ne_nil _ (List.cons_ne_nil _ _)

theorem map_stripCr_numberFrom (start : Nat) (ls : List Text) :
    (numberFrom start ls).map stripCr = numberFrom start (ls.map stripCr) := by
  induction ls generalizing start with
  | nil => rfl
  | cons line ls ih =>
    rw [numberFrom, List.map_cons, stripCr_numberLine, ih, List.map_cons, numberFrom]

/-! ## What is displayed -/

/-- All lines but the last lose a carriage return. -/
def stripInit : List Text → List Text
  | [] => []
  | [last] => [last]
  | line :: next :: ls => stripCr line :: stripInit (next :: ls)

theorem stripInit_concat (ls : List Text) (last : Text) :
    stripInit (ls ++ [last]) = ls.map stripCr ++ [last] := by
  induction ls with
  | nil => rfl
  | cons line ls ih =>
    obtain ⟨next, rest, hrest⟩ := List.exists_cons_of_ne_nil (l := ls ++ [last]) (by simp)
    rw [List.cons_append, hrest, stripInit, ← hrest, ih]
    rfl

@[simp] theorem length_stripInit (ls : List Text) : (stripInit ls).length = ls.length := by
  cases ls using List.reverseRecOn with
  | nil => rfl
  | append_singleton ls last _ => rw [stripInit_concat]; simp

theorem stripInit_drop (ls : List Text) (n : Nat) :
    stripInit (ls.drop n) = (stripInit ls).drop n := by
  induction n generalizing ls with
  | zero => rfl
  | succ n ih =>
    cases ls with
    | nil => rfl
    | cons line ls =>
      cases ls with
      | nil => simp [stripInit]
      | cons next ls => rw [stripInit, List.drop_succ_cons, List.drop_succ_cons, ih]

/-- Numbered lines that are joined and divided again. -/
theorem relined_numberFrom {start : Nat} {ls : List Text} (h : Clean ls) :
    relined (numberFrom start ls) = numberFrom start (stripInit ls) := by
  cases ls using List.reverseRecOn with
  | nil => rfl
  | append_singleton ls last _ =>
    have hsplit : ∀ xs : List Text, numberFrom start (xs ++ [last]) =
        numberFrom start xs ++ [numberLine (start + xs.length) last] :=
      fun xs => numberFrom_append start xs [last]
    have hclean : Clean (numberFrom start (ls ++ [last])) := clean_numberFrom h
    rw [hsplit] at hclean ⊢
    rw [relined_concat hclean, if_neg (numberLine_ne_nil _ _), map_stripCr_numberFrom,
      stripInit_concat, hsplit, List.length_map]

/-- The lines that the pages of a file show, from the first to the last page. -/
def displayed (content : Text) : List Text :=
  numberFrom 1 (stripInit (relined (lines content)))

theorem clean_relined {ls : List Text} : Clean (relined ls) := clean_lines _

theorem clean_displayed (content : Text) : Clean (displayed content) := by
  rw [displayed, ← relined_numberFrom clean_relined]
  exact clean_relined

theorem mem_displayed {content line : Text} (h : line ∈ displayed content) :
    ∃ n line', line = numberLine n line' := by
  obtain ⟨n, line', -, rfl⟩ := mem_numberFrom h
  exact ⟨n, line', rfl⟩

/-- What the page at an offset is made of. -/
theorem lines_numberLines {content : Text} {offset : Nat} (h : offset < (lines content).length) :
    lines (numberLines (joinLines ((lines content).drop offset)) (offset + 1)) =
      (displayed content).drop offset := by
  have hnumbered : numberLines (joinLines ((lines content).drop offset)) (offset + 1) =
      joinLines (numberFrom (offset + 1) (relined ((lines content).drop offset))) := by
    rw [numberLines, mapIdx_numberLine]
    split_ifs with hnil
    · rw [relined, hnil]
      rfl
    · rfl
  rw [hnumbered]
  show relined _ = _
  rw [relined_numberFrom clean_relined, relined_drop (clean_lines content) h, stripInit_drop,
    displayed, numberFrom_drop, Nat.add_comm 1]

/-- A page of `k` of the lines. -/
def pageText (ls : List Text) (offset k : Nat) : Text :=
  joinLines (ls.take k) ++ if k < ls.length then marker (ls.length - k) (offset + k) else []

theorem boundLines_eq {text : Text} (offset maxLines maxBytes : Nat)
    (hne : ∀ line ∈ lines text, line ≠ []) :
    boundLines text offset maxLines maxBytes = pageText (lines text) offset
      (fit maxBytes (lines text) (min (lines text).length maxLines)) := by
  have hclean := clean_lines text
  generalize hlines : lines text = ls at *
  unfold boundLines
  split_ifs with hnil
  · have hls : ls = [] := by rw [← hlines, hnil]; rfl
    subst hls
    simp [pageText, fit, joinLines]
  · dsimp only
    rw [hlines]
    generalize hlimit : min ls.length maxLines = limit
    have hle : limit ≤ ls.length := hlimit ▸ Nat.min_le_left _ _
    -- The lines that are kept.
    have hresult : (if byteLen (joinLines (ls.take limit)) > maxBytes then
        dropLines maxBytes limit (joinLines (ls.take limit)) else joinLines (ls.take limit)) =
        joinLines (ls.take (fit maxBytes ls limit)) := by
      split_ifs with hlong
      · cases limit with
        | zero => rfl
        | succ n => exact dropLines_take hclean hle (Nat.lt_succ_self n) hlong
      · rw [fit_of_le (Nat.le_of_not_lt hlong)]
    rw [hresult]
    have hfit : fit maxBytes ls limit ≤ ls.length := (fit_bounds maxBytes ls limit).1.trans hle
    generalize fit maxBytes ls limit = k at *
    have hkept : ∀ line ∈ ls.take k, line ≠ [] := fun line hline =>
      hne line (List.mem_of_mem_take hline)
    have hreturned : (if joinLines (ls.take k) = [] then 0
        else (lines (joinLines (ls.take k))).length) = k := by
      split_ifs with hempty
      · have hlength := congrArg List.length ((joinLines_eq_nil_iff hkept).1 hempty)
        rw [List.length_take, Nat.min_eq_left hfit] at hlength
        exact hlength.symm
      · have htake : Clean (ls.take k) := fun line hline =>
          hclean line (List.mem_of_mem_take hline)
        have hlast : (ls.take k).getLast? ≠ some [] := fun hlast =>
          hkept [] (List.mem_of_mem_getLast? hlast) rfl
        have hlength := length_relined htake hlast
        rw [List.length_take, Nat.min_eq_left hfit] at hlength
        exact hlength
    rw [hreturned, pageText]
    split_ifs
    · rfl
    · rw [List.append_nil]

/-- How many lines the page at an offset has. -/
def pageSize (content : Text) (limit offset : Nat) : Nat :=
  let ls := (displayed content).drop offset
  fit readMaxBytes ls (min ls.length (if limit = 0 then readMaxLines else limit))

/-- A page within the file is a page of what is displayed from its offset on. -/
theorem readFile_eq {content : Text} {limit offset : Nat} (h : offset < (lines content).length) :
    readFile content ⟨offset, limit, false⟩ =
      .ok (pageText ((displayed content).drop offset) offset (pageSize content limit offset)) := by
  have hlines := lines_numberLines h
  have hne : ∀ line ∈ lines (numberLines (joinLines ((lines content).drop offset)) (offset + 1)),
      line ≠ [] := by
    intro line hline
    rw [hlines] at hline
    obtain ⟨n, line', rfl⟩ := mem_displayed (List.mem_of_mem_drop hline)
    exact numberLine_ne_nil n line'
  unfold readFile
  rw [if_neg Bool.false_ne_true]
  dsimp only
  rw [if_neg (Nat.ne_of_gt (Nat.lt_of_le_of_lt (Nat.zero_le _) h)), if_neg (Nat.not_le_of_lt h),
    boundLines_eq _ _ _ hne, hlines]
  rfl

/-- A page that can be read is within the file, or the file is empty. -/
theorem readFile_cases {content text : Text} {limit offset : Nat}
    (h : readFile content ⟨offset, limit, false⟩ = .ok text) :
    offset < (lines content).length ∨ lines content = [] ∧ offset = 0 ∧ text = [] := by
  unfold readFile at h
  rw [if_neg Bool.false_ne_true] at h
  dsimp only at h
  by_cases hrange : offset ≥ (lines content).length
  · rw [if_pos hrange] at h
    split_ifs at h with htotal hoffset
    cases h
    exact .inr ⟨List.eq_nil_of_length_eq_zero htotal, hoffset, rfl⟩
  · exact .inl (Nat.lt_of_not_le hrange)

/-- A page has at least one line, if there are any left. -/
theorem pageSize_bounds (content : Text) (limit offset : Nat) :
    pageSize content limit offset ≤ ((displayed content).drop offset).length ∧
      (offset < (displayed content).length → 0 < pageSize content limit offset) ∧
      (pageSize content limit offset ≤ 1 ∨
        byteLen (joinLines (((displayed content).drop offset).take
          (pageSize content limit offset))) ≤ readMaxBytes) := by
  obtain ⟨hle, hpos, hfits⟩ := fit_bounds readMaxBytes ((displayed content).drop offset)
    (min ((displayed content).drop offset).length (if limit = 0 then readMaxLines else limit))
  refine ⟨hle.trans (Nat.min_le_left _ _), fun hlt => hpos ?_, hfits⟩
  rw [List.length_drop]
  have hlimit : 0 < if limit = 0 then readMaxLines else limit := by
    split_ifs with hzero
    · exact Nat.succ_pos _
    · exact Nat.pos_of_ne_zero hzero
  omega

/-! ## Announcements -/

theorem cut_append_last (before : Text) {last : Text} (h : '\n' ∉ last) :
    (cut (before ++ '\n' :: last)).2 = last := by
  have hlast : cut ('\n' :: last) = ([[]], last) := by
    rw [cut, if_pos rfl, cut_of_no_newline h]
  rw [cut_append, hlast]

/-- The line of the marker. -/
def markerLine (remaining next : Nat) : Text :=
  "[truncated — ".toList ++ (Nat.toDigits 10 remaining ++
    (" more lines, call again with offset=".toList ++ (Nat.toDigits 10 next ++ "]".toList)))

theorem marker_eq (remaining next : Nat) :
    marker remaining next = '\n' :: markerLine remaining next := by
  have hstart : "\n[truncated — ".toList = '\n' :: "[truncated — ".toList := rfl
  unfold marker markerLine
  rw [hstart]
  generalize "[truncated — ".toList = start
  generalize " more lines, call again with offset=".toList = middle
  simp only [List.cons_append, List.append_assoc]

theorem takeWhile_digits (n : Nat) {c : Char} (hc : c.isDigit = false) (rest : Text) :
    (Nat.toDigits 10 n ++ c :: rest).takeWhile Char.isDigit = Nat.toDigits 10 n := by
  rw [List.takeWhile_append_of_pos fun d hd => isDigit_toDigits hd,
    List.takeWhile_cons_of_neg (by simp [hc]), List.append_nil]

theorem dropWhile_digits (n : Nat) {c : Char} (hc : c.isDigit = false) (rest : Text) :
    (Nat.toDigits 10 n ++ c :: rest).dropWhile Char.isDigit = c :: rest := by
  rw [List.dropWhile_append_of_pos fun d hd => isDigit_toDigits hd,
    List.dropWhile_cons_of_neg (by simp [hc])]

theorem newline_notMem_markerLine (remaining next : Nat) : '\n' ∉ markerLine remaining next := by
  have hdigits : ∀ n, '\n' ∉ Nat.toDigits 10 n := fun n hmem =>
    absurd (isDigit_toDigits hmem) (by decide)
  have hstart : '\n' ∉ "[truncated — ".toList := by simp
  have hmiddle : '\n' ∉ " more lines, call again with offset=".toList := by simp
  have hend : '\n' ∉ "]".toList := by simp
  unfold markerLine
  generalize "[truncated — ".toList = start at *
  generalize " more lines, call again with offset=".toList = middle at *
  generalize "]".toList = last at *
  simp only [List.mem_append, not_or]
  exact ⟨hstart, hdigits remaining, hmiddle, hdigits next, hend⟩

theorem readAnnouncement_eq (start : Text) {c : Char} (hc : c.isDigit = false) (middle : Text)
    (remaining next : Nat) :
    readAnnouncement start (c :: middle) (start ++ (Nat.toDigits 10 remaining ++
      (c :: middle ++ (Nat.toDigits 10 next ++ [']'])))) = some (remaining, next) := by
  rw [readAnnouncement, stripPrefix_append, Option.bind_some, List.cons_append,
    takeWhile_digits remaining hc, dropWhile_digits remaining hc, ← List.cons_append,
    stripPrefix_append, Option.bind_some]
  dsimp only
  rw [takeWhile_digits next rfl, dropWhile_digits next rfl, if_pos rfl,
    Nat.ofDigitChars_ten_toDigits, Nat.ofDigitChars_ten_toDigits]

/-- The announcement is read back. -/
theorem announced_marker (content : Text) (remaining next : Nat) :
    announced (content ++ marker remaining next) = some (remaining, next) := by
  have hmiddle : " more lines, call again with offset=".toList =
      ' ' :: "more lines, call again with offset=".toList := rfl
  have hend : "]".toList = [']'] := rfl
  have hcut := cut_append_last content (newline_notMem_markerLine remaining next)
  have hread := readAnnouncement_eq "[truncated — ".toList (c := ' ') rfl
    "more lines, call again with offset=".toList remaining next
  rw [← hmiddle, ← hend] at hread
  unfold announced
  rw [marker_eq, hcut]
  exact hread

/-- A numbered line is no announcement. -/
theorem announced_joinLines {ls : List Text} (hclean : Clean ls)
    (h : ∀ line ∈ ls, ∃ n line', line = numberLine n line') : announced (joinLines ls) = none := by
  cases ls using List.reverseRecOn with
  | nil => rfl
  | append_singleton ls last _ =>
    obtain ⟨n, line', rfl⟩ := h last (by simp)
    have hne : (Nat.toDigits 10 n).leftpad 5 ' ' ≠ [] :=
      List.append_ne_nil_of_right_ne_nil _ Nat.toDigits_ne_nil
    obtain ⟨c, rest, hpad⟩ := List.exists_cons_of_ne_nil hne
    have hc : '[' ≠ c := by
      rintro rfl
      rcases mem_leftpad (n := n) (c := '[') (by rw [hpad]; exact List.mem_cons_self ..) with
        heq | hdigit
      · exact absurd heq (by decide)
      · exact absurd hdigit (by decide)
    have hstrip : stripPrefix "[truncated — ".toList (numberLine n line') = none := by
      rw [numberLine, hpad]
      exact stripPrefix_cons_ne hc _ _
    rw [announced, cut_joinLines hclean, readAnnouncement, hstrip]
    rfl

/-! ## One page -/

/-- Lines of which each has a number in front. -/
structure Numbered (ls : List Text) : Prop where
  clean : Clean ls
  number : ∀ line ∈ ls, ∃ n line', line = numberLine n line'

theorem Numbered.take {ls : List Text} (h : Numbered ls) (k : Nat) : Numbered (ls.take k) :=
  ⟨fun line hline => h.clean line (List.mem_of_mem_take hline),
    fun line hline => h.number line (List.mem_of_mem_take hline)⟩

theorem numbered_drop (content : Text) (offset : Nat) :
    Numbered ((displayed content).drop offset) :=
  ⟨fun line hline => clean_displayed content line (List.mem_of_mem_drop hline),
    fun _ hline => mem_displayed (List.mem_of_mem_drop hline)⟩

theorem announced_pageText {ls : List Text} (h : Numbered ls) (offset k : Nat) :
    announced (pageText ls offset k) =
      if k < ls.length then some (ls.length - k, offset + k) else none := by
  rw [pageText]
  split_ifs
  · exact announced_marker _ _ _
  · rw [List.append_nil]
    exact announced_joinLines (h.take k).clean (h.take k).number

theorem pageContent_pageText {ls : List Text} (h : Numbered ls) (offset k : Nat) :
    pageContent (pageText ls offset k) = joinLines (ls.take k) := by
  rw [pageContent, announced_pageText h]
  by_cases hk : k < ls.length
  · rw [if_pos hk, Option.isSome_some, if_pos rfl, pageText, if_pos hk, marker_eq,
      beforeLastNewline_append _ (newline_notMem_markerLine _ _), Option.getD_some]
  · rw [if_neg hk, Option.isSome_none, if_neg Bool.false_ne_true, pageText, if_neg hk,
      List.append_nil]

theorem shownLines_pageText {ls : List Text} (h : Numbered ls) (offset k : Nat) :
    shownLines (pageText ls offset k) = ls.take k := by
  have hne : ∀ line ∈ ls.take k, line ≠ [] := by
    intro line hline
    obtain ⟨n, line', rfl⟩ := (h.take k).number line hline
    exact numberLine_ne_nil n line'
  rw [shownLines, pageContent_pageText h]
  split_ifs with hnil
  · exact ((joinLines_eq_nil_iff hne).1 hnil).symm
  · have hclean := (h.take k).clean
    cases hcase : ls.take k using List.reverseRecOn with
    | nil => exact absurd (by rw [hcase]; rfl) hnil
    | append_singleton front last _ =>
      rw [hcase] at hclean
      rw [cut_joinLines hclean]

/-! ## The pages -/

/-- What the pages from an offset on have in common. -/
structure From (content : Text) (offset : Nat) (pages : List Page) : Prop where
  shown : pages.flatMap (fun page => shownLines page.text) = (displayed content).drop offset
  offsets : ∀ page ∈ pages, offset ≤ page.offset
  increasing : (pages.map Page.offset).Pairwise (· < ·)
  left : offset ≤ (displayed content).length → ∀ page ∈ pages, ∀ remaining next,
    announced page.text = some (remaining, next) → next + remaining = (displayed content).length
  bounded : (∀ line ∈ displayed content, byteLen line ≤ readMaxBytes) →
    ∀ page ∈ pages, byteLen (pageContent page.text) ≤ readMaxBytes

/-- A line of a text is not longer than the text. -/
theorem byteLen_le_joinLines {ls : List Text} {line : Text} (h : line ∈ ls) :
    byteLen line ≤ byteLen (joinLines ls) := by
  induction ls with
  | nil => cases h
  | cons first ls ih =>
    cases ls with
    | nil =>
      rw [List.mem_singleton.1 h]
      exact Nat.le_refl _
    | cons next ls =>
      rw [joinLines, byteLen_append]
      rcases List.mem_cons.1 h with rfl | h
      · exact Nat.le_add_right _ _
      · have hrest := ih h
        have hcons : byteLen ('\n' :: joinLines (next :: ls)) =
            1 + byteLen (joinLines (next :: ls)) := rfl
        omega

theorem byteLen_le_of_shown {page line : Text} (h : line ∈ shownLines page) :
    byteLen line ≤ byteLen (pageContent page) := by
  rw [shownLines] at h
  split_ifs at h with hnil
  · cases h
  · have htext := unlines_cut (pageContent page)
    rw [← joinLines_concat] at htext
    calc byteLen line ≤ byteLen (joinLines _) := byteLen_le_joinLines h
      _ = byteLen (pageContent page) := by rw [htext]

/-- What one page contributes. -/
theorem page_bounded {content : Text} {limit offset : Nat}
    (hshort : ∀ line ∈ displayed content, byteLen line ≤ readMaxBytes) :
    byteLen (joinLines (((displayed content).drop offset).take (pageSize content limit offset))) ≤
      readMaxBytes := by
  obtain ⟨-, -, hone | hfits⟩ := pageSize_bounds content limit offset
  · cases hls : (displayed content).drop offset with
    | nil =>
      rw [List.take_nil]
      exact Nat.zero_le _
    | cons line ls =>
      have hline : byteLen line ≤ readMaxBytes := by
        apply hshort line
        apply List.mem_of_mem_drop (i := offset)
        rw [hls]
        exact List.mem_cons_self ..
      rcases Nat.le_one_iff_eq_zero_or_eq_one.1 hone with hzero | hone
      · rw [hzero]
        exact Nat.zero_le _
      · rw [hone]
        exact hline
  · exact hfits

/-- A page that can be read. -/
theorem page_cases {content text : Text} {limit offset : Nat}
    (h : readFile content ⟨offset, limit, false⟩ = .ok text) :
    text = pageText ((displayed content).drop offset) offset (pageSize content limit offset) ∨
      displayed content = [] ∧ text = [] := by
  rcases readFile_cases h with hlt | ⟨hempty, -, htext⟩
  · exact .inl (Except.ok.inj (h.symm.trans (readFile_eq hlt)))
  · refine .inr ⟨?_, htext⟩
    rw [displayed, hempty]
    rfl

theorem Follows.from {content : Text} {limit offset : Nat} {pages : List Page}
    (h : Follows content limit offset pages) : From content offset pages := by
  induction h with
  | @last offset text hread hends =>
    have hnumbered := numbered_drop content offset
    have hshown : shownLines text = (displayed content).drop offset := by
      rcases page_cases hread with rfl | ⟨hempty, rfl⟩
      · rw [announced_pageText hnumbered] at hends
        rw [shownLines_pageText hnumbered, List.take_of_length_le]
        by_contra hlt
        rw [if_pos (Nat.lt_of_not_le hlt)] at hends
        cases hends
      · rw [hempty, List.drop_nil]
        rfl
    constructor
    · rw [List.flatMap_singleton, hshown]
    · intro page hpage
      rw [List.mem_singleton.1 hpage]
    · exact List.pairwise_singleton ..
    · intro _ page hpage remaining next hgoes
      rw [List.mem_singleton.1 hpage] at hgoes
      cases hends.symm.trans hgoes
    · intro hshort page hpage
      rw [List.mem_singleton.1 hpage]
      rcases page_cases hread with rfl | ⟨-, rfl⟩
      · rw [pageContent_pageText hnumbered]
        exact page_bounded hshort
      · exact Nat.zero_le _
  | @more offset remaining next text pages hread hgoes hrest ih =>
    have hnumbered := numbered_drop content offset
    rcases page_cases hread with rfl | ⟨-, rfl⟩
    · have hannounced := hgoes
      rw [announced_pageText hnumbered] at hannounced
      split_ifs at hannounced with hk
      cases hannounced
      rw [List.length_drop] at hk
      have hpos : 0 < pageSize content limit offset :=
        (pageSize_bounds content limit offset).2.1 (by omega)
      constructor
      · rw [List.flatMap_cons, ih.shown, shownLines_pageText hnumbered, ← List.drop_drop,
          List.take_append_drop]
      · intro page hpage
        rcases List.mem_cons.1 hpage with rfl | hpage
        · exact Nat.le_refl _
        · exact (Nat.le_add_right _ _).trans (ih.offsets page hpage)
      · rw [List.map_cons, List.pairwise_cons]
        refine ⟨?_, ih.increasing⟩
        intro other hother
        obtain ⟨page, hpage, rfl⟩ := List.mem_map.1 hother
        have hle := ih.offsets page hpage
        show offset < page.offset
        omega
      · intro hle page hpage remaining' next' hgoes'
        rcases List.mem_cons.1 hpage with rfl | hpage
        · cases hgoes.symm.trans hgoes'
          rw [List.length_drop]
          omega
        · exact ih.left (by omega) page hpage remaining' next' hgoes'
      · intro hshort page hpage
        rcases List.mem_cons.1 hpage with rfl | hpage
        · rw [pageContent_pageText hnumbered]
          exact page_bounded hshort
        · exact ih.bounded hshort page hpage
    · cases hgoes

/-- Following the announcements comes to an end, as every page has a line. -/
theorem follows_exists (content : Text) (limit : Nat) {offset : Nat}
    (h : offset < (displayed content).length ∨ offset = 0) :
    ∃ pages, Follows content limit offset pages := by
  induction hleft : (displayed content).length - offset using Nat.strong_induction_on
    generalizing offset with
  | _ left ih =>
    have hnumbered := numbered_drop content offset
    by_cases hempty : lines content = []
    · have hdisplayed : displayed content = [] := by rw [displayed, hempty]; rfl
      have hoffset : offset = 0 := by
        rcases h with h | h
        · rw [hdisplayed] at h
          cases h
        · exact h
      subst hoffset
      have hread : readFile content ⟨0, limit, false⟩ = .ok [] := by
        unfold readFile
        rw [hempty]
        rfl
      exact ⟨_, .last hread rfl⟩
    · have hlength : (displayed content).length ≤ (lines content).length := by
        rw [displayed, length_numberFrom, length_stripInit]
        exact length_relined_le (clean_lines content)
      have hlt : offset < (lines content).length := by
        have hpos := List.length_pos_iff.2 hempty
        omega
      have hread : readFile content ⟨offset, limit, false⟩ = .ok _ := readFile_eq hlt
      by_cases hk : pageSize content limit offset < ((displayed content).drop offset).length
      · have hgoes := announced_pageText hnumbered offset (pageSize content limit offset)
        rw [if_pos hk] at hgoes
        rw [List.length_drop] at hk
        have hpos : 0 < pageSize content limit offset :=
          (pageSize_bounds content limit offset).2.1 (by omega)
        obtain ⟨pages, hpages⟩ := ih ((displayed content).length -
          (offset + pageSize content limit offset)) (by omega) (.inl (by omega)) rfl
        exact ⟨_, .more hread hgoes hpages⟩
      · have hends := announced_pageText hnumbered offset (pageSize content limit offset)
        rw [if_neg hk] at hends
        exact ⟨_, .last hread hends⟩

/-! ## Exactly the lines of the file -/

/-- Joining and dividing twice leaves the lines as they are. -/
theorem stripInit_relined_iff {ls : List Text} (h : Clean ls) :
    stripInit (relined ls) = ls ↔
      ls.getLast? ≠ some [] ∧ ∀ line ∈ ls.dropLast, line.getLast? ≠ some '\r' := by
  cases ls using List.reverseRecOn with
  | nil => simp [relined, joinLines, lines, cut, stripInit]
  | append_singleton ls last _ =>
    rw [relined_concat h, List.getLast?_concat, List.dropLast_concat]
    by_cases hblank : last = []
    · -- The blank line is lost.
      rw [if_pos hblank, List.append_nil]
      refine iff_of_false (fun heq => ?_) fun hand => hand.1 (congrArg some hblank)
      have hlength := congrArg List.length heq
      rw [length_stripInit, List.length_map, List.length_append, List.length_singleton] at hlength
      omega
    · rw [if_neg hblank, stripInit_concat]
      have hlast : some last ≠ some [] := fun heq => hblank (Option.some.inj heq)
      constructor
      · intro heq
        refine ⟨hlast, fun line hline hcr => ?_⟩
        have hmap := List.append_cancel_right heq
        rw [List.map_map] at hmap
        have hline' : stripCr (stripCr line) = line :=
          List.map_inj_left.1 (hmap.trans (List.map_id ls).symm) line hline
        have hshorter := length_stripCr_lt hcr
        have hle := length_stripCr_le (stripCr line)
        rw [hline'] at hle
        omega
      · rintro ⟨-, hcr⟩
        have hmap : ls.map stripCr = ls := by
          rw [List.map_congr_left fun line hline => stripCr_eq_self_iff.2 (hcr line hline)]
          exact List.map_id' ls
        rw [hmap, hmap]

theorem displayed_eq_iff (content : Text) : displayed content = numberedFile content ↔
    (lines content).getLast? ≠ some [] ∧
      ∀ line ∈ (lines content).dropLast, line.getLast? ≠ some '\r' := by
  rw [← stripInit_relined_iff (clean_lines content), displayed, numberedFile_eq]
  exact ⟨numberFrom_injective, congrArg _⟩

/-- Pages that cover a file show what the pages of the file show. -/
theorem Covers.pageable {content : Text} {limit : Nat} {pages : List Page}
    (h : Covers content pages) (hfollows : Follows content limit 0 pages) : Pageable content := by
  have hshown := hfollows.from.shown
  rw [List.drop_zero, h.shown] at hshown
  obtain ⟨hblank, hcr⟩ := (displayed_eq_iff content).1 hshown.symm
  refine ⟨hblank, fun line hline => ?_, hcr⟩
  rw [← h.shown] at hline
  obtain ⟨page, hpage, hmem⟩ := List.mem_flatMap.1 hline
  exact (byteLen_le_of_shown hmem).trans (h.bounded page hpage)

/-- For every file and every limit: the calls that follow the announcements come to an end and
cover the file, if and only if the last line is not blank, no line is longer than a page, and no
line but the last ends in a carriage return. -/
theorem covered_iff (content : Text) (limit : Nat) :
    (∃ pages, Follows content limit 0 pages ∧ Covers content pages) ↔ Pageable content := by
  constructor
  · rintro ⟨pages, hfollows, hcovers⟩
    exact hcovers.pageable hfollows
  · intro hpageable
    obtain ⟨pages, hfollows⟩ := follows_exists content limit (.inr rfl)
    have hfrom := hfollows.from
    have hdisplayed := (displayed_eq_iff content).2 ⟨hpageable.not_blank, hpageable.no_cr⟩
    have hlength : (displayed content).length = (lines content).length := by
      rw [hdisplayed, numberedFile_eq, length_numberFrom]
    refine ⟨pages, hfollows, hfrom.increasing, ?_, ?_, ?_⟩
    · rw [hfrom.shown, List.drop_zero, hdisplayed]
    · rw [← hlength]
      exact hfrom.left (Nat.zero_le _)
    · apply hfrom.bounded
      rw [hdisplayed]
      exact hpageable.short

/-- The second line is blank and the last one. -/
theorem blank_line_lost : ¬ ∀ content limit,
    ∃ pages, Follows content limit 0 pages ∧ Covers content pages := by
  intro h
  obtain ⟨pages, hfollows, hcovers⟩ := h "a\n\n".toList 0
  exact (hcovers.pageable hfollows).not_blank rfl

end Vanyline.Tools.ReadFile
