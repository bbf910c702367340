import Vanyline.Lib.ByteOffsets
import Vanyline.Lib.Segments

/-!
# Graphemes

The editor of the chat counts and cuts its lines in graphemes: a character with the diacritics,
selectors and skin tones behind it, two regional indicators, and whatever a joiner connects.

* `graphemes` is the iterator of the source, `graphemeCount` and `graphemeOffset` are made of it.
  A text is a list of characters; offsets are in bytes.
* `scanner` reads a text one character at a time, and `graphemes_eq` says that it cuts a text where
  the iterator does, which makes the lemmas on segments available.
* `graphemeOffset_eq`: the offset of a column is where the first graphemes end.
-/

namespace Vanyline.Editor

open Vanyline.Lib
open Vanyline.Lib.ByteOffsets (byteLen splitAtByte byteLen_append splitAtByte_eq_some)
open Vanyline.Lib.Segments

abbrev Text := List Char

/-! ## The iterator -/

/-- ZWJ and ZWNJ. -/
def isJoiner (c : Char) : Bool := c.val == 0x200D || c.val == 0x200C

/-- Variation selectors, combining diacritics and skin tones. -/
def isCombining (c : Char) : Bool :=
  (0xFE00 ≤ c.val && c.val ≤ 0xFE0F) || (0x0300 ≤ c.val && c.val ≤ 0x036F) ||
    (0x1AB0 ≤ c.val && c.val ≤ 0x1AFF) || (0x1F3FB ≤ c.val && c.val ≤ 0x1F3FF)

def isRegional (c : Char) : Bool := 0x1F1E6 ≤ c.val && c.val ≤ 0x1F1FF

/-- The loop of `Graphemes::next`: what is taken behind the first character, and what is left.
`alone` says that nothing was taken yet. -/
def graphemeRest (first : Char) : Bool → Text → Text × Text
  | _, [] => ([], [])
  | alone, [c] =>
    if isJoiner c then ([c], [])
    else if isCombining c || (isRegional c && isRegional first && alone) then ([c], [])
    else ([], [c])
  | alone, c :: c2 :: rest =>
    if isJoiner c then
      let (taken, left) := graphemeRest first false rest
      (c :: c2 :: taken, left)
    else if isCombining c || (isRegional c && isRegional first && alone) then
      let (taken, left) := graphemeRest first false (c2 :: rest)
      (c :: taken, left)
    else ([], c :: c2 :: rest)

/-- The iterator, for as many characters as `fuel`. -/
def graphemesFrom : Nat → Text → List Text
  | 0, _ => []
  | _, [] => []
  | fuel + 1, first :: rest =>
    let (taken, left) := graphemeRest first true rest
    (first :: taken) :: graphemesFrom fuel left

def graphemes (s : Text) : List Text := graphemesFrom s.length s

def graphemeCount (line : Text) : Nat := (graphemes line).length

/-- The loop of `grapheme_offset`, over the graphemes from index `i` on. -/
def offsetFrom (line : Text) (col : Nat) : List Text → Nat → Nat → Option Nat
  | [], _, _ => some (byteLen line)
  | _ :: more, i, off =>
    if col ≤ i then some off
    else do
      let (_, tail) ← splitAtByte off line
      offsetFrom line col more (i + 1) (off + ((graphemes tail).head?.map byteLen).getD 0)

def graphemeOffset (line : Text) (col : Nat) : Option Nat :=
  offsetFrom line col (graphemes line) 0 0

/-! ## The scanner -/

/-- What was read of a grapheme: its first character, more than that, or a joiner at the end that
takes the next character. -/
inductive Mode
  | first (regional : Bool)
  | closed
  | opened

def Mode.step : Mode → Char → Option Mode
  | .opened, _ => some .closed
  | .closed, c => if isJoiner c then some .opened else if isCombining c then some .closed else none
  | .first regional, c =>
    if isJoiner c then some .opened
    else if isCombining c || (isRegional c && regional) then some .closed
    else none

def scanner : Scanner Char Mode := ⟨fun c => .first (isRegional c), Mode.step⟩

/-- The mode in the loop of the iterator. -/
def loopMode (first : Char) (alone : Bool) : Mode :=
  if alone then .first (isRegional first) else .closed

theorem step_loopMode (first : Char) (alone : Bool) (c : Char) :
    (loopMode first alone).step c =
      if isJoiner c then some .opened
      else if isCombining c || (isRegional c && isRegional first && alone) then some .closed
      else none := by
  cases alone with
  | true =>
    rw [Bool.and_true]
    rfl
  | false =>
    rw [Bool.and_false, Bool.or_false]
    rfl

theorem cut_of_step {m n : Mode} {c : Char} (h : m.step c = some n) (rest : Text) :
    scanner.cut (some m) (c :: rest) =
      (c :: (scanner.cut (some n) rest).1, (scanner.cut (some n) rest).2) := by
  have hbegins : ¬ scanner.begins (some m) c = true := by
    show ¬ (m.step c).isNone = true
    rw [h]
    exact Bool.false_ne_true
  have hnext : scanner.next (some m) c = n := by
    show (m.step c).getD _ = n
    rw [h]
    rfl
  rw [Scanner.cut_of_joins hbegins, hnext]

theorem cut_of_stop {m : Mode} {c : Char} (h : m.step c = none) (rest : Text) :
    scanner.cut (some m) (c :: rest) = ([], scanner.segments (c :: rest)) := by
  have hboundary : scanner.Boundary (scanner.after (some m) []) (c :: rest) := by
    show (m.step c).isNone = true
    rw [h]
    rfl
  have hcut := Scanner.cut_append hboundary
  rw [List.nil_append] at hcut
  rw [hcut]
  rfl

/-- The loop takes what joins the grapheme. -/
theorem cut_loopMode (first : Char) (alone : Bool) (rest : Text) :
    scanner.cut (some (loopMode first alone)) rest =
      ((graphemeRest first alone rest).1, scanner.segments (graphemeRest first alone rest).2) := by
  induction alone, rest using graphemeRest.induct first with
  | case1 alone => rfl
  | case2 alone c hjoiner =>
    have hstep := step_loopMode first alone c
    rw [if_pos hjoiner] at hstep
    rw [cut_of_step hstep, graphemeRest, if_pos hjoiner]
    rfl
  | case3 alone c hjoiner htaken =>
    have hstep := step_loopMode first alone c
    rw [if_neg hjoiner, if_pos htaken] at hstep
    rw [cut_of_step hstep, graphemeRest, if_neg hjoiner, if_pos htaken]
    rfl
  | case4 alone c hjoiner htaken =>
    have hstep := step_loopMode first alone c
    rw [if_neg hjoiner, if_neg htaken] at hstep
    rw [cut_of_stop hstep, graphemeRest, if_neg hjoiner, if_neg htaken]
  | case5 alone c c2 rest hjoiner taken left hrest ih =>
    have hstep := step_loopMode first alone c
    rw [if_pos hjoiner] at hstep
    have hopened : Mode.opened.step c2 = some .closed := rfl
    rw [cut_of_step hstep, cut_of_step hopened, graphemeRest, if_pos hjoiner]
    exact congrArg (fun parts : Text × List Text => (c :: c2 :: parts.1, parts.2)) ih
  | case6 alone c c2 rest hjoiner htaken taken left hrest ih =>
    have hstep := step_loopMode first alone c
    rw [if_neg hjoiner, if_pos htaken] at hstep
    rw [cut_of_step hstep, graphemeRest, if_neg hjoiner, if_pos htaken]
    exact congrArg (fun parts : Text × List Text => (c :: parts.1, parts.2)) ih
  | case7 alone c c2 rest hjoiner htaken =>
    have hstep := step_loopMode first alone c
    rw [if_neg hjoiner, if_neg htaken] at hstep
    rw [cut_of_stop hstep, graphemeRest, if_neg hjoiner, if_neg htaken]

theorem graphemeRest_append (first : Char) (alone : Bool) (rest : Text) :
    (graphemeRest first alone rest).1 ++ (graphemeRest first alone rest).2 = rest := by
  have h := Scanner.cut_flatten (S := scanner) (s := some (loopMode first alone)) rest
  rw [cut_loopMode, Scanner.flatten_segments] at h
  exact h

theorem graphemesFrom_eq {fuel : Nat} {s : Text} (h : s.length ≤ fuel) :
    graphemesFrom fuel s = scanner.segments s := by
  induction fuel generalizing s with
  | zero =>
    rw [List.length_eq_zero_iff.1 (by omega : s.length = 0)]
    rfl
  | succ fuel ih =>
    cases s with
    | nil => rfl
    | cons first rest =>
      have hlength := congrArg List.length (graphemeRest_append first true rest)
      rw [List.length_append] at hlength
      rw [List.length_cons] at h
      show (first :: (graphemeRest first true rest).1) ::
        graphemesFrom fuel (graphemeRest first true rest).2 = _
      have hcut : scanner.cut (some (scanner.next none first)) rest = _ :=
        cut_loopMode first true rest
      have hsegments : scanner.segments (first :: rest) = _ :=
        congrArg Prod.snd (Scanner.cut_of_begins (S := scanner) (s := none) (a := first) rfl rest)
      rw [ih (by omega), hsegments, hcut]

/-- The iterator cuts where the scanner does. -/
theorem graphemes_eq (s : Text) : graphemes s = scanner.segments s :=
  graphemesFrom_eq (Nat.le_refl _)

theorem graphemeCount_eq (line : Text) : graphemeCount line = scanner.count none line := by
  rw [graphemeCount, graphemes_eq, Scanner.length_segments]

/-! ## Columns -/

/-- The first graphemes of a line, up to a column. -/
def upTo (col : Nat) (line : Text) : Text := scanner.first col none line

theorem upTo_eq (col : Nat) (line : Text) :
    upTo col line = ((graphemes line).take col).flatten := by
  rw [upTo, Scanner.first, Scanner.cut_none_fst, List.nil_append, graphemes_eq]
  rfl

/-- The loop adds the length of one grapheme after the other. -/
theorem offsetFrom_eq {line : Text} (col : Nat) {gs : List Text} {i : Nat} {before : Text}
    (hline : before ++ gs.flatten = line) (hgs : scanner.segments gs.flatten = gs) :
    offsetFrom line col gs i (byteLen before) =
      some (byteLen (before ++ (gs.take (col - i)).flatten)) := by
  induction gs generalizing i before with
  | nil =>
    rw [List.flatten_nil, List.append_nil] at hline
    rw [List.take_nil, List.flatten_nil, List.append_nil, hline]
    rfl
  | cons g more ih =>
    unfold offsetFrom
    split_ifs with hcol
    · rw [Nat.sub_eq_zero_of_le hcol, List.take_zero, List.flatten_nil, List.append_nil]
    · have hsplit : splitAtByte (byteLen before) line = some (before, (g :: more).flatten) :=
        splitAtByte_eq_some.2 ⟨hline, rfl⟩
      rw [hsplit]
      show offsetFrom line col more (i + 1)
        (byteLen before + ((graphemes (g :: more).flatten).head?.map byteLen).getD 0) = _
      rw [graphemes_eq, hgs]
      show offsetFrom line col more (i + 1) (byteLen before + byteLen g) = _
      obtain ⟨n, hn⟩ : ∃ n, col - i = n + 1 := ⟨col - i - 1, by omega⟩
      have hnext : col - (i + 1) = n := by omega
      rw [← byteLen_append, ih (by rw [← hline, List.flatten_cons, List.append_assoc])
        (Scanner.segments_tail (S := scanner) hgs), hn, hnext, List.take_succ_cons,
        List.flatten_cons, List.append_assoc]

/-- The offset of a column is where the first graphemes end. -/
theorem graphemeOffset_eq (line : Text) (col : Nat) :
    graphemeOffset line col = some (byteLen (upTo col line)) := by
  have hline : ([] : Text) ++ (graphemes line).flatten = line := by
    rw [graphemes_eq, List.nil_append, Scanner.flatten_segments]
  have hgs : scanner.segments (graphemes line).flatten = graphemes line := by
    rw [graphemes_eq, Scanner.flatten_segments]
  have h := offsetFrom_eq col (i := 0) hline hgs
  rw [List.nil_append, Nat.sub_zero, ← upTo_eq] at h
  exact h

/-! ## A grapheme in another place -/

/-- From wherever it is read, the text begins at most one grapheme. -/
def Single (piece : Text) : Prop := ∀ s, scanner.count s piece ≤ 1

theorem single_char (c : Char) : Single [c] := by
  intro s
  rw [Scanner.count_singleton]
  split <;> omega

theorem count_of_step {m n : Mode} {c : Char} (h : m.step c = some n) (rest : Text) :
    scanner.count (some m) (c :: rest) = scanner.count (some n) rest := by
  rw [← Scanner.length_cut, ← Scanner.length_cut, cut_of_step h]

theorem count_of_stop {m : Mode} {c : Char} (h : m.step c = none) (rest : Text) :
    scanner.count (some m) (c :: rest) =
      scanner.count (some (.first (isRegional c))) rest + 1 := by
  have hbegins : scanner.begins (some m) c = true := by
    show (m.step c).isNone = true
    rw [h]
    rfl
  rw [Scanner.count, if_pos hbegins, Scanner.next_of_begins hbegins, Nat.add_comm]
  rfl

/-- What joins a grapheme that is closed also joins one of which one character was read. -/
theorem count_first_of_closed {rest : Text} (h : scanner.count (some .closed) rest = 0)
    (regional : Bool) : scanner.count (some (.first regional)) rest = 0 := by
  cases rest with
  | nil => rfl
  | cons c rest =>
    by_cases hjoiner : isJoiner c = true
    · have hclosed : Mode.closed.step c = some .opened := by rw [Mode.step, if_pos hjoiner]
      have hfirst : (Mode.first regional).step c = some .opened := by
        rw [Mode.step, if_pos hjoiner]
      rw [count_of_step hclosed] at h
      rw [count_of_step hfirst, h]
    · by_cases hcombining : isCombining c = true
      · have hclosed : Mode.closed.step c = some .closed := by
          rw [Mode.step, if_neg hjoiner, if_pos hcombining]
        have hfirst : (Mode.first regional).step c = some .closed := by
          rw [Mode.step, if_neg hjoiner, hcombining]
          rfl
        rw [count_of_step hclosed] at h
        rw [count_of_step hfirst, h]
      · have hclosed : Mode.closed.step c = none := by
          rw [Mode.step, if_neg hjoiner, if_neg hcombining]
        rw [count_of_stop hclosed] at h
        omega

/-- Where one reading joins a character and another one does not, the first one is closed. -/
theorem closed_of_step {m n n' : Mode} {c : Char} (hstop : m.step c = none)
    (hstep : n.step c = some n') : n' = .closed := by
  have hplain : ¬ isJoiner c = true ∧ ¬ isCombining c = true := by
    cases m with
    | opened => cases hstop
    | closed =>
      rw [Mode.step] at hstop
      split_ifs at hstop with hjoiner hcombining
      exact ⟨hjoiner, hcombining⟩
    | first regional =>
      rw [Mode.step] at hstop
      split_ifs at hstop with hjoiner hcombining
      rw [Bool.or_eq_true, not_or] at hcombining
      exact ⟨hjoiner, hcombining.1⟩
  cases n with
  | opened => exact (Option.some.inj hstep).symm
  | closed =>
    rw [Mode.step, if_neg hplain.1, if_neg hplain.2] at hstep
    cases hstep
  | first regional =>
    rw [Mode.step, if_neg hplain.1] at hstep
    split_ifs at hstep
    exact (Option.some.inj hstep).symm

/-- What joins a grapheme begins at most one from any other mode. -/
theorem count_le_one {rest : Text} {m n : Mode} (h : scanner.count (some n) rest = 0) :
    scanner.count (some m) rest ≤ 1 := by
  induction rest generalizing m n with
  | nil => exact Nat.zero_le 1
  | cons c rest ih =>
    cases hn : n.step c with
    | none =>
      rw [count_of_stop hn] at h
      omega
    | some n' =>
      rw [count_of_step hn] at h
      cases hm : m.step c with
      | none =>
        rw [closed_of_step hm hn] at h
        rw [count_of_stop hm, count_first_of_closed h]
      | some m' =>
        rw [count_of_step hm]
        exact ih h

theorem single_of_mem_graphemes {s g : Text} (h : g ∈ graphemes s) : Single g := by
  rw [graphemes_eq] at h
  obtain ⟨first, rest, rfl, hrest⟩ := Scanner.exists_of_mem_cut h
  have hstart : scanner.count (some (.first (isRegional first))) rest = 0 := hrest
  intro mode
  cases mode with
  | none =>
    show 1 + scanner.count (some (.first (isRegional first))) rest ≤ 1
    rw [hstart]
  | some m =>
    cases hm : m.step first with
    | none => rw [count_of_stop hm, hstart]
    | some m' =>
      rw [count_of_step hm]
      exact count_le_one hstart

end Vanyline.Editor
