import Vanyline.Cli.Editor

/-!
# The place of the cursor

The cursor of the editor stands in a line, between the graphemes that are before it and what is
behind it (`At`); the other lines are above and below.  Each command is a function of these parts.

* `normalise_eq`: before any command the column becomes the number of graphemes before the cursor.
* `insertAtCursor_eq`, `newline_eq`, `backspace_eq`, `delete_eq`, … say what becomes of the parts,
  and that the command has a value.
-/

namespace Vanyline.Editor

open Vanyline.Lib
open Vanyline.Lib.ByteOffsets (byteLen splitAtByte replaceRange byteLen_append splitAtByte_eq_some)
open Vanyline.Lib.Segments

/-! ## Columns of a line -/

theorem graphemeCount_append_le (before behind : Text) :
    graphemeCount before ≤ graphemeCount (before ++ behind) := by
  rw [graphemeCount_eq, graphemeCount_eq]
  exact Scanner.count_le_append before behind

/-- The text can be divided here without dividing a grapheme. -/
def Apart (before behind : Text) : Prop :=
  graphemes (before ++ behind) = graphemes before ++ graphemes behind

theorem upTo_append {col : Nat} {before behind : Text} :
    upTo col (before ++ behind) = before ↔
      scanner.Boundary (scanner.after none before) behind ∧
        (graphemeCount before = col ∨ behind = [] ∧ graphemeCount before ≤ col) := by
  rw [graphemeCount_eq]
  exact Scanner.first_eq_iff

theorem apart_iff {before behind : Text} :
    Apart before behind ↔ scanner.Boundary (scanner.after none before) behind := by
  constructor
  · intro h
    have hupTo : upTo (graphemeCount before) (before ++ behind) = before := by
      rw [upTo_eq, h, graphemeCount, List.take_left, graphemes_eq, Scanner.flatten_segments]
    exact (upTo_append.1 hupTo).1
  · intro h
    unfold Apart
    rw [graphemes_eq, graphemes_eq, graphemes_eq, Scanner.segments_append h]

theorem upTo_append_iff {col : Nat} {before behind : Text} :
    upTo col (before ++ behind) = before ↔
      Apart before behind ∧
        (graphemeCount before = col ∨ behind = [] ∧ graphemeCount before ≤ col) := by
  rw [apart_iff, upTo_append]

theorem apart_nil_left (behind : Text) : Apart [] behind := rfl

theorem apart_nil_right (before : Text) : Apart before [] := by
  unfold Apart
  rw [List.append_nil]
  exact (List.append_nil _).symm

theorem Apart.count {before behind : Text} (h : Apart before behind) :
    graphemeCount (before ++ behind) = graphemeCount before + graphemeCount behind := by
  unfold graphemeCount
  rw [h, List.length_append]

theorem Apart.upTo {before behind : Text} (h : Apart before behind) :
    upTo (graphemeCount before) (before ++ behind) = before :=
  upTo_append_iff.2 ⟨h, .inl rfl⟩

theorem graphemes_flatten (s : Text) : (graphemes s).flatten = s := by
  rw [graphemes_eq, Scanner.flatten_segments]

theorem graphemeCount_nil : graphemeCount [] = 0 := rfl

theorem graphemeCount_pos {s : Text} (h : s ≠ []) : 0 < graphemeCount s := by
  apply List.length_pos_iff.2
  intro hnil
  have hflatten := graphemes_flatten s
  rw [hnil] at hflatten
  exact h hflatten.symm

/-- Every column divides the line. -/
theorem exists_upTo (col : Nat) (line : Text) : ∃ behind, upTo col line ++ behind = line :=
  ⟨_, Scanner.first_append_rest col line⟩

/-- The columns of a line, one for each number of graphemes. -/
theorem exists_column (col : Nat) (line : Text) (h : col ≤ graphemeCount line) :
    ∃ before behind, line = before ++ behind ∧ graphemeCount before = col ∧
      Apart before behind := by
  obtain ⟨behind, hline⟩ := exists_upTo col line
  have hupTo : upTo col (upTo col line ++ behind) = upTo col line := by rw [hline]
  obtain ⟨hapart, hcount⟩ := upTo_append_iff.1 hupTo
  refine ⟨upTo col line, behind, hline.symm, ?_, hapart⟩
  rcases hcount with hcount | ⟨hnil, hcount⟩
  · exact hcount
  · rw [hnil, List.append_nil] at hline
    rw [hline] at hcount ⊢
    omega

/-- Between two columns is one grapheme. -/
theorem exists_grapheme {before behind : Text} (h : Apart before behind) (hbehind : behind ≠ []) :
    ∃ g rest, behind = g ++ rest ∧ Apart (before ++ g) rest ∧
      graphemeCount (before ++ g) = graphemeCount before + 1 ∧
      graphemes (before ++ behind) = graphemes before ++ g :: graphemes rest := by
  have hpos := graphemeCount_pos hbehind
  obtain ⟨g, rest, rfl, hg, hrest⟩ := exists_column 1 behind (by omega)
  obtain ⟨x, hx⟩ := List.length_eq_one_iff.1 hg
  have hflatten := graphemes_flatten g
  rw [hx, List.flatten_singleton] at hflatten
  subst hflatten
  have hall : graphemes (before ++ (x ++ rest)) = graphemes before ++ x :: graphemes rest := by
    rw [h, hrest, hx]
    rfl
  have happend : Apart before x := by
    rw [apart_iff] at h ⊢
    cases x with
    | nil => exact trivial
    | cons c x => exact h
  have hgx : graphemes (before ++ x) = graphemes before ++ [x] := by
    rw [happend, hx]
  refine ⟨x, rest, rfl, ?_, ?_, hall⟩
  · unfold Apart
    rw [List.append_assoc, hall, hgx, List.append_assoc]
    rfl
  · rw [graphemeCount, hgx, List.length_append]
    rfl

theorem upTo_prefix {i col : Nat} (h : i ≤ col) (line : Text) :
    ∃ more, upTo col line = upTo i line ++ more := by
  refine ⟨(((graphemes line).take col).drop i).flatten, ?_⟩
  have htake : (graphemes line).take i = ((graphemes line).take col).take i := by
    rw [List.take_take, Nat.min_eq_left h]
  rw [upTo_eq, upTo_eq, htake, ← List.flatten_append, List.take_append_drop]

/-- What is before a column ends with a grapheme. -/
theorem exists_last_grapheme {before behind : Text} (h : Apart before behind) (hne : before ≠ []) :
    ∃ first g, before = first ++ g ∧ Apart first (g ++ behind) ∧
      graphemeCount (first ++ g) = graphemeCount first + 1 ∧
      graphemes (first ++ (g ++ behind)) = graphemes first ++ g :: graphemes behind := by
  have hpos := graphemeCount_pos hne
  have hle := graphemeCount_append_le before behind
  obtain ⟨first, rest, hline, hcount, hfirst⟩ :=
    exists_column (graphemeCount before - 1) (before ++ behind) (by omega)
  have hrest : rest ≠ [] := by
    intro hnil
    rw [hline, hnil, List.append_nil] at hle
    omega
  obtain ⟨g, rest, rfl, hg, hsucc, hgraphemes⟩ := exists_grapheme hfirst hrest
  have hbefore : before = first ++ g := by
    have hupTo := hg.upTo
    rw [List.append_assoc, ← hline, hsucc, hcount, Nat.sub_add_cancel hpos, h.upTo] at hupTo
    exact hupTo
  rw [hbefore, List.append_assoc] at hline
  have hrest := List.append_cancel_left (List.append_cancel_left hline)
  subst hrest
  exact ⟨first, g, hbefore, hfirst, hsucc, hgraphemes⟩

/-! ## The cursor -/

/-- The cursor stands between `before` and `behind`, in the line between `above` and `below`. -/
structure At (st : EditorState) (above : List Text) (before behind : Text) (below : List Text) :
    Prop where
  lines : st.lines = above ++ (before ++ behind) :: below
  row : st.cursor.1 = above.length
  col : upTo st.cursor.2 (before ++ behind) = before

/-- The column is the number of graphemes before the cursor. -/
structure Placed (st : EditorState) (above : List Text) (before behind : Text)
    (below : List Text) : Prop extends At st above before behind below where
  exact : st.cursor.2 = graphemeCount before

theorem exists_at {st : EditorState} (h : st.cursor.1 < st.lines.length) :
    ∃ above before behind below, At st above before behind below := by
  obtain ⟨behind, hline⟩ := exists_upTo st.cursor.2 st.lines[st.cursor.1]
  refine ⟨st.lines.take st.cursor.1, upTo st.cursor.2 st.lines[st.cursor.1], behind,
    st.lines.drop (st.cursor.1 + 1), ?_, ?_, ?_⟩
  · rw [hline, ← List.drop_eq_getElem_cons h, List.take_append_drop]
  · rw [List.length_take]
    omega
  · rw [hline]

theorem Placed.of_apart {st : EditorState} {above : List Text} {before behind : Text}
    {below : List Text} (hlines : st.lines = above ++ (before ++ behind) :: below)
    (hcursor : st.cursor = (above.length, graphemeCount before)) (h : Apart before behind) :
    Placed st above before behind below where
  lines := hlines
  row := by rw [hcursor]
  col := by
    rw [hcursor]
    exact h.upTo
  exact := by rw [hcursor]

theorem getElem?_middle {above : List Text} {line : Text} {below : List Text} :
    (above ++ line :: below)[above.length]? = some line := by
  rw [List.getElem?_append_right (Nat.le_refl _), Nat.sub_self]
  rfl

theorem set_middle {above : List Text} {line line' : Text} {below : List Text} :
    (above ++ line :: below).set above.length line' = above ++ line' :: below := by
  rw [List.set_append_right _ _ (Nat.le_refl _), Nat.sub_self]
  rfl

theorem insertIdx_middle {above : List Text} {line : Text} {below : List Text} :
    (above ++ below).insertIdx above.length line = above ++ line :: below := by
  induction above with
  | nil => exact List.insertIdx_zero
  | cons first above ih =>
    rw [List.cons_append, List.length_cons, List.insertIdx_succ_cons, ih]
    rfl

theorem eraseIdx_middle {above : List Text} {line : Text} {below : List Text} :
    (above ++ line :: below).eraseIdx above.length = above ++ below := by
  rw [List.eraseIdx_append_of_length_le (Nat.le_refl _), Nat.sub_self]
  rfl

section Commands

variable {st : EditorState} {above below : List Text} {before behind : Text}

theorem At.eq_mk (h : At st above before behind below) :
    ∃ col history historyPos draft, upTo col (before ++ behind) = before ∧
      st = ⟨above ++ (before ++ behind) :: below, (above.length, col), history, historyPos,
        draft⟩ := by
  rcases st with ⟨lines, ⟨row, col⟩, history, historyPos, draft⟩
  rcases h with ⟨hlines, hrow, hcol⟩
  simp only at hlines hrow hcol
  exact ⟨col, history, historyPos, draft, hcol, by rw [hlines, hrow]⟩

theorem At.apart (h : At st above before behind below) : Apart before behind :=
  (upTo_append_iff.1 h.col).1

theorem At.getElem? (h : At st above before behind below) :
    st.lines[st.cursor.1]? = some (before ++ behind) := by
  rw [h.lines, h.row, getElem?_middle]

theorem At.set (h : At st above before behind below) (line : Text) :
    st.lines.set st.cursor.1 line = above ++ line :: below := by
  rw [h.lines, h.row, set_middle]

theorem At.offset (h : At st above before behind below) :
    graphemeOffset (before ++ behind) st.cursor.2 = some (byteLen before) := by
  rw [graphemeOffset_eq, h.col]

/-- A range in the middle of a line. -/
theorem replaceRange_middle (before removed behind inserted : Text) :
    replaceRange (before ++ removed ++ behind) (byteLen before) (byteLen (before ++ removed))
      inserted = some (before ++ inserted ++ behind) := by
  have hstart : splitAtByte (byteLen before) (before ++ removed ++ behind) =
      some (before, removed ++ behind) := by
    rw [splitAtByte_eq_some, List.append_assoc]
    exact ⟨rfl, rfl⟩
  have hstop : splitAtByte (byteLen (before ++ removed)) (before ++ removed ++ behind) =
      some (before ++ removed, behind) := splitAtByte_eq_some.2 ⟨rfl, rfl⟩
  unfold replaceRange
  rw [hstart, hstop, if_pos (by rw [byteLen_append]; omega)]

/-- The column never is beyond the graphemes before the cursor, once a command has begun. -/
theorem normalise_eq (h : At st above before behind below) :
    ∃ st', normalise st = some st' ∧ Placed st' above before behind below ∧
      st' = { st with cursor := (above.length, graphemeCount before) } := by
  have hne : st.lines.isEmpty = false := by
    rw [h.lines]
    cases above <;> rfl
  have hrow : min st.cursor.1 (st.lines.length - 1) = above.length := by
    rw [h.row, h.lines, List.length_append, List.length_cons]
    omega
  have hcol : min st.cursor.2 (graphemeCount (before ++ behind)) = graphemeCount before := by
    have hle := graphemeCount_append_le before behind
    rcases (upTo_append_iff.1 h.col).2 with hcount | ⟨hnil, hcount⟩
    · omega
    · rw [hnil, List.append_nil]
      omega
  have hline : st.lines[above.length]? = some (before ++ behind) := by rw [h.lines, getElem?_middle]
  refine ⟨{ st with cursor := (above.length, graphemeCount before) }, ?_,
    Placed.of_apart h.lines rfl h.apart, rfl⟩
  unfold normalise
  simp only [hne, Bool.false_eq_true, if_false, hrow, hline, hcol, Option.bind_eq_bind,
    Option.bind_some]
  rfl

theorem insertAtCursor_eq (h : At st above before behind below) (inserted : Text) :
    insertAtCursor inserted st = some { st with
      lines := above ++ (before ++ inserted ++ behind) :: below
      cursor := (above.length, st.cursor.2 + 1) } := by
  have hreplace := replaceRange_middle before [] behind inserted
  rw [List.append_nil] at hreplace
  obtain ⟨col, history, historyPos, draft, hcol, rfl⟩ := h.eq_mk
  simp only [insertAtCursor, getElem?_middle, graphemeOffset_eq, hcol, hreplace, set_middle,
    Option.bind_eq_bind, Option.bind_some]
  rfl

theorem newline_eq (h : At st above before behind below) :
    newline st = some { st with
      lines := (above ++ [before]) ++ behind :: below
      cursor := (above.length + 1, 0) } := by
  have hsplit : splitAtByte (byteLen before) (before ++ behind) = some (before, behind) :=
    splitAtByte_eq_some.2 ⟨rfl, rfl⟩
  have hinsert : insertLine (above.length + 1) behind (above ++ before :: below) =
      some ((above ++ [before]) ++ behind :: below) := by
    unfold insertLine
    have hlength : above.length + 1 = (above ++ [before]).length := by rw [List.length_append]; rfl
    have happend : above ++ before :: below = (above ++ [before]) ++ below := by
      rw [List.append_assoc]
      rfl
    rw [happend, hlength, insertIdx_middle, if_pos]
    simp only [List.length_append]
    omega
  obtain ⟨col, history, historyPos, draft, hcol, rfl⟩ := h.eq_mk
  simp only [newline, getElem?_middle, graphemeOffset_eq, hcol, hsplit, set_middle, hinsert,
    Option.bind_eq_bind, Option.bind_some]
  rfl

/-- A grapheme before the cursor. -/
theorem backspace_grapheme {g : Text} (h : Placed st above (before ++ g) behind below)
    (hapart : Apart before (g ++ behind))
    (hcount : graphemeCount (before ++ g) = graphemeCount before + 1) :
    backspace st = some { st with
      lines := above ++ (before ++ behind) :: below
      cursor := (above.length, graphemeCount before) } := by
  have hexact := h.exact
  have hstart := hapart.upTo
  have hreplace := replaceRange_middle before g behind []
  rw [List.append_nil] at hreplace
  rw [← List.append_assoc] at hstart
  obtain ⟨col, history, historyPos, draft, hcol, rfl⟩ := h.eq_mk
  simp only at hexact
  have hprev : col - 1 = graphemeCount before := by omega
  have hpos : 0 < col := by omega
  simp only [backspace, if_pos hpos, getElem?_middle, graphemeOffset_eq, hcol, hprev, hstart,
    hreplace, set_middle, Option.bind_eq_bind, Option.bind_some]
  rfl

/-- At the beginning of a line, it is joined to the one above. -/
theorem backspace_line {prev : Text} (h : Placed st (above ++ [prev]) [] behind below) :
    backspace st = some { st with
      lines := above ++ (prev ++ behind) :: below
      cursor := (above.length, graphemeCount prev) } := by
  have hexact := h.exact
  obtain ⟨col, history, historyPos, draft, hcol, rfl⟩ := h.eq_mk
  simp only [graphemeCount_nil] at hexact
  subst hexact
  have hlength : (above ++ [prev]).length = above.length + 1 := by rw [List.length_append]; rfl
  have hlines : (above ++ [prev]) ++ ([] ++ behind) :: below =
      above ++ prev :: behind :: below := by
    rw [List.append_assoc]
    rfl
  have hprev : ((above ++ [prev]) ++ ([] ++ behind) :: below)[above.length]? = some prev := by
    rw [hlines, getElem?_middle]
  have herase : ((above ++ [prev]) ++ ([] ++ behind) :: below).eraseIdx (above.length + 1) =
      above ++ prev :: below := by
    rw [← hlength, eraseIdx_middle, List.append_assoc]
    rfl
  have hline : ((above ++ [prev]) ++ ([] ++ behind) :: below)[above.length + 1]? = some behind := by
    rw [← hlength, getElem?_middle]
    rfl
  simp only [backspace, Nat.lt_irrefl, if_false, hlength, Nat.succ_pos, if_true,
    Nat.add_sub_cancel, hprev, removeLine, hline, herase, getElem?_middle, set_middle,
    Option.bind_eq_bind, Option.bind_some, Option.pure_def]

theorem backspace_start (h : Placed st [] [] behind below) : backspace st = some st := by
  have hexact := h.exact
  obtain ⟨col, history, historyPos, draft, hcol, rfl⟩ := h.eq_mk
  simp only [graphemeCount_nil] at hexact
  subst hexact
  rfl

/-- A grapheme behind the cursor. -/
theorem delete_grapheme {g : Text} (h : Placed st above before (g ++ behind) below)
    (hapart : Apart (before ++ g) behind)
    (hcount : graphemeCount (before ++ g) = graphemeCount before + 1) :
    delete st = some { st with lines := above ++ (before ++ behind) :: below } := by
  have hexact := h.exact
  have hstop := hapart.upTo
  have hreplace := replaceRange_middle before g behind []
  have hlt := graphemeCount_append_le (before ++ g) behind
  rw [List.append_nil] at hreplace
  rw [List.append_assoc] at hstop hreplace hlt
  obtain ⟨col, history, historyPos, draft, hcol, rfl⟩ := h.eq_mk
  simp only at hexact
  have hnext : col + 1 = graphemeCount (before ++ g) := by omega
  have hpos : col < graphemeCount (before ++ (g ++ behind)) := by omega
  simp only [delete, getElem?_middle, if_pos hpos, graphemeOffset_eq, hcol, hnext, hstop,
    hreplace, set_middle, Option.bind_eq_bind, Option.bind_some]
  rfl

/-- At the end of a line, the one below is joined to it. -/
theorem delete_line {next : Text} (h : Placed st above before [] (next :: below)) :
    delete st = some { st with lines := above ++ (before ++ next) :: below } := by
  have hexact := h.exact
  obtain ⟨col, history, historyPos, draft, hcol, rfl⟩ := h.eq_mk
  simp only at hexact
  have hend : ¬ col < graphemeCount before := by omega
  have hlines : above ++ before :: next :: below = (above ++ [before]) ++ next :: below := by
    rw [List.append_assoc]
    rfl
  have hlength : above.length + 1 = (above ++ [before]).length := by rw [List.length_append]; rfl
  have hbelow : above.length + 1 < (above ++ before :: next :: below).length := by
    rw [List.length_append, List.length_cons, List.length_cons]
    omega
  have hnext : (above ++ before :: next :: below)[above.length + 1]? = some next := by
    rw [hlines, hlength, getElem?_middle]
  have herase : (above ++ before :: next :: below).eraseIdx (above.length + 1) =
      above ++ before :: below := by
    rw [hlines, hlength, eraseIdx_middle, List.append_assoc]
    rfl
  simp only [delete, List.append_nil, getElem?_middle, hend, if_false, hbelow, if_true, removeLine,
    hnext, herase, set_middle, Option.bind_eq_bind, Option.bind_some, Option.pure_def]

theorem delete_end (h : Placed st above before [] []) : delete st = some st := by
  have hexact := h.exact
  obtain ⟨col, history, historyPos, draft, hcol, rfl⟩ := h.eq_mk
  simp only at hexact
  have hend : ¬ col < graphemeCount before := by omega
  have hbelow : ¬ above.length + 1 < (above ++ [before]).length := by
    rw [List.length_append]
    exact Nat.lt_irrefl _
  simp only [delete, List.append_nil, getElem?_middle, hend, if_false, hbelow, Option.bind_eq_bind,
    Option.bind_some, Option.pure_def]

theorem left_grapheme {g : Text} (h : Placed st above (before ++ g) behind below)
    (hcount : graphemeCount (before ++ g) = graphemeCount before + 1) :
    left st = some { st with cursor := (above.length, graphemeCount before) } := by
  have hexact := h.exact
  obtain ⟨col, history, historyPos, draft, hcol, rfl⟩ := h.eq_mk
  simp only at hexact
  have hprev : col - 1 = graphemeCount before := by omega
  have hpos : 0 < col := by omega
  simp only [left, if_pos hpos, hprev]
  rfl

theorem left_line {prev : Text} (h : Placed st (above ++ [prev]) [] behind below) :
    left st = some { st with cursor := (above.length, graphemeCount prev) } := by
  have hexact := h.exact
  obtain ⟨col, history, historyPos, draft, hcol, rfl⟩ := h.eq_mk
  simp only [graphemeCount_nil] at hexact
  subst hexact
  have hlength : (above ++ [prev]).length = above.length + 1 := by rw [List.length_append]; rfl
  have hprev : ((above ++ [prev]) ++ ([] ++ behind) :: below)[above.length]? = some prev := by
    rw [List.append_assoc]
    exact getElem?_middle
  simp only [left, Nat.lt_irrefl, if_false, hlength, Nat.succ_pos, if_true, Nat.add_sub_cancel,
    hprev, Option.bind_eq_bind, Option.bind_some, Option.pure_def]

theorem left_start (h : Placed st [] [] behind below) : left st = some st := by
  have hexact := h.exact
  obtain ⟨col, history, historyPos, draft, hcol, rfl⟩ := h.eq_mk
  simp only [graphemeCount_nil] at hexact
  subst hexact
  rfl

end Commands

end Vanyline.Editor
