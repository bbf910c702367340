import Vanyline.Cli.EditorCursor
import Vanyline.Lib.RowFilling

/-!
# What is shown of the editor

The lines of the editor are wrapped to the width of the screen, and some rows around the cursor
are shown.  `renderView` wraps the lines grapheme by grapheme; `displayCursor` does so for the
line of the cursor, but counts the rows of the lines above by dividing their widths.

* The width of a character is a parameter.
* A grapheme that does not fit into the rest of its row leaves it empty.  The two agree on a line
  as long as what stays empty is less than what is in the last row (`Aligned`).
* `displayed_iff`: the cursor is shown at its place in the text exactly then.
-/

namespace Vanyline.Editor

open Vanyline.Lib.RowFilling

/-! ## The view -/

section View

variable (charWidth : Char → Nat) (width : Nat)

def displayWidth (s : Text) : Nat := (s.map charWidth).sum

def wrappedRows (w : Nat) : Nat :=
  if width = 0 then 1 else if w = 0 then 1 else (w + width - 1) / width

/-- The loop of `displayCursor` over the lines above the cursor. -/
def rowsAbove (lines : List Text) : Nat :=
  lines.foldl (fun y line => y + wrappedRows width (displayWidth charWidth line)) 0

/-- The loop of `displayCursor` over the graphemes before the cursor. -/
def cursorStep (pos : Nat × Nat) (g : Text) : Nat × Nat :=
  let gw := displayWidth charWidth g
  if width < pos.1 + gw then (gw, pos.2 + 1) else (pos.1 + gw, pos.2)

def displayCursor (st : EditorState) : Nat × Nat :=
  if width = 0 then (0, 0)
  else
    let y := rowsAbove charWidth width (st.lines.take st.cursor.1)
    match st.lines[st.cursor.1]? with
    | none => (0, y)
    | some line => ((graphemes line).take st.cursor.2).foldl (cursorStep charWidth width) (0, y)

/-- The loop of `renderView` over the graphemes of a line, with the rows that are full, the
present one and its width. -/
def wrapStep : List Text × Text × Nat → Text → List Text × Text × Nat
  | (wrapped, cur, curW), g =>
    let gw := displayWidth charWidth g
    if width < curW + gw then (wrapped ++ [cur], g, gw) else (wrapped, cur ++ g, curW + gw)

/-- The rows of a line. -/
def wrapLine (line : Text) : List Text :=
  if width = 0 ∨ displayWidth charWidth line ≤ width then [line]
  else
    let (wrapped, cur, _) := (graphemes line).foldl (wrapStep charWidth width) ([], [], 0)
    wrapped ++ [cur]

def wrapLines (st : EditorState) : List Text :=
  let wrapped := st.lines.flatMap (wrapLine charWidth width)
  if wrapped.isEmpty then [[]] else wrapped

/-- The first row that is shown. -/
def viewStart (height : Nat) (st : EditorState) : Nat :=
  let cy := (displayCursor charWidth width st).2
  let first := if height ≤ cy then cy - (height - 1) else 0
  min first ((wrapLines charWidth width st).length - 1)

def renderView (height : Nat) (st : EditorState) : List Text × (Nat × Nat) :=
  if height = 0 then ([], (0, 0))
  else
    let wrapped := wrapLines charWidth width st
    let (x, cy) := displayCursor charWidth width st
    let first := viewStart charWidth width height st
    let last := min (first + height) wrapped.length
    ((wrapped.take last).drop first, (x, cy - first))

/-! ## The place of the cursor -/

/-- The view is a window of the wrapped text, with the cursor in it.  The rows of the line before
the cursor, and what is before the cursor in its row, are what is before it in the line. -/
structure Displayed (height : Nat) (st : EditorState) (above : List Text) (before behind : Text) :
    Prop where
  narrow : ∀ row ∈ wrapLines charWidth width st, displayWidth charWidth row ≤ width
  window : (renderView charWidth width height st).1 <+:
    (wrapLines charWidth width st).drop (viewStart charWidth width height st)
  shown : (renderView charWidth width height st).2.2 <
    (renderView charWidth width height st).1.length
  within : ∀ row, (renderView charWidth width height st).1[
      (renderView charWidth width height st).2.2]? = some row →
    (renderView charWidth width height st).2.1 ≤ displayWidth charWidth row
  place : ∃ head front back rest,
    wrapLine charWidth width (before ++ behind) = head ++ (front ++ back) :: rest ∧
      head.flatten ++ front = before ∧
      displayWidth charWidth front = (renderView charWidth width height st).2.1 ∧
      viewStart charWidth width height st + (renderView charWidth width height st).2.2 =
        (above.flatMap (wrapLine charWidth width)).length + head.length

/-- The cursor is on a line, and it is displayed there. -/
def ShowsCursor (height : Nat) (st : EditorState) : Prop :=
  ∃ above before behind below, At st above before behind below ∧
    Displayed charWidth width height st above before behind

/-- The rows of a line, as lists of graphemes. -/
def filling (line : Text) : Filling Text := fill (displayWidth charWidth) width (graphemes line)

/-- The cursor is on a line, no grapheme is wider than the screen, and in no line above the cursor
as much stays empty at the ends of the rows as is in the last one. -/
structure Aligned (st : EditorState) : Prop where
  onLine : st.cursor.1 < st.lines.length
  narrow : ∀ line ∈ st.lines, ∀ g ∈ graphemes line, displayWidth charWidth g ≤ width
  tight : ∀ line ∈ st.lines.take st.cursor.1,
    (filling charWidth width line).Tight (displayWidth charWidth) width

end View

/-! ## Widths -/

section Rows

variable {charWidth : Char → Nat} {width : Nat}

theorem displayWidth_append (front back : Text) :
    displayWidth charWidth (front ++ back) =
      displayWidth charWidth front + displayWidth charWidth back := by
  simp only [displayWidth, List.map_append, List.sum_append]

/-- The width of a row is the sum of those of its graphemes. -/
theorem displayWidth_flatten (row : List Text) :
    displayWidth charWidth row.flatten = load (displayWidth charWidth) row := by
  induction row with
  | nil => rfl
  | cons g row ih => rw [List.flatten_cons, displayWidth_append, ih, load_cons]

theorem wrappedRows_eq (hwidth : 0 < width) (w : Nat) : wrappedRows width w = needed width w := by
  unfold wrappedRows needed
  rw [if_neg (Nat.pos_iff_ne_zero.1 hwidth)]
  split_ifs with hw
  · rw [hw, Nat.zero_add, Nat.div_eq_of_lt (by omega)]
    rfl
  · rw [Nat.max_eq_right]
    rw [Nat.le_div_iff_mul_le hwidth]
    omega

/-! ## The rows of a line -/

/-- The loop fills the rows. -/
theorem foldl_wrapStep (gs : List Text) (f : Filling Text) :
    gs.foldl (wrapStep charWidth width)
        (f.done.map List.flatten, f.row.flatten, load (displayWidth charWidth) f.row) =
      let f' := gs.foldl (add (displayWidth charWidth) width) f
      (f'.done.map List.flatten, f'.row.flatten, load (displayWidth charWidth) f'.row) := by
  induction gs generalizing f with
  | nil => rfl
  | cons g gs ih =>
      rw [List.foldl_cons, List.foldl_cons, ← ih]
      congr 1
      unfold wrapStep add
      simp only
      split
      · simp
      · simp [load_append]

theorem wrapLine_eq (hwidth : 0 < width) (line : Text) :
    wrapLine charWidth width line = (filling charWidth width line).rows.map List.flatten := by
  unfold wrapLine filling
  split_ifs with hfits
  · have hload : load (displayWidth charWidth) (graphemes line) ≤ width := by
      rw [← displayWidth_flatten, graphemes_flatten]
      exact hfits.resolve_left (by omega)
    rw [fill_of_load_le hload]
    show [line] = [(graphemes line).flatten]
    rw [graphemes_flatten]
  · have hfold : (graphemes line).foldl (wrapStep charWidth width) ([], [], 0) = _ :=
      foldl_wrapStep (graphemes line) ⟨[], []⟩
    rw [hfold, Filling.rows, List.map_append]
    rfl

/-- The loop over the graphemes before the cursor fills the same rows. -/
theorem foldl_cursorStep (gs : List Text) (f : Filling Text) (y : Nat) :
    gs.foldl (cursorStep charWidth width) (load (displayWidth charWidth) f.row, y + f.done.length) =
      let f' := gs.foldl (add (displayWidth charWidth) width) f
      (load (displayWidth charWidth) f'.row, y + f'.done.length) := by
  induction gs generalizing f with
  | nil => rfl
  | cons g gs ih =>
      rw [List.foldl_cons, List.foldl_cons, ← ih]
      congr 1
      unfold cursorStep add
      simp only
      split
      · simp [Nat.add_assoc]
      · simp [load_append]

/-- The rows that are counted for a line are as many as it has if and only if its rows are filled
tightly. -/
theorem wrappedRows_eq_iff (hwidth : 0 < width) {line : Text}
    (hnarrow : ∀ g ∈ graphemes line, displayWidth charWidth g ≤ width) :
    wrappedRows width (displayWidth charWidth line) = (wrapLine charWidth width line).length ↔
      (filling charWidth width line).Tight (displayWidth charWidth) width := by
  have hiff := needed_eq_iff hwidth hnarrow
  rw [← displayWidth_flatten, graphemes_flatten] at hiff
  rw [wrappedRows_eq hwidth, wrapLine_eq hwidth, List.length_map]
  exact hiff

theorem wrappedRows_le (hwidth : 0 < width) {line : Text}
    (hnarrow : ∀ g ∈ graphemes line, displayWidth charWidth g ≤ width) :
    wrappedRows width (displayWidth charWidth line) ≤ (wrapLine charWidth width line).length := by
  have hle := needed_le hwidth hnarrow
  rw [← displayWidth_flatten, graphemes_flatten] at hle
  rw [wrappedRows_eq hwidth, wrapLine_eq hwidth, List.length_map]
  exact hle

theorem rowsAbove_eq (lines : List Text) : rowsAbove charWidth width lines =
    (lines.map fun line => wrappedRows width (displayWidth charWidth line)).sum := by
  rw [rowsAbove, List.sum_eq_foldl, List.foldl_map]

/-- They are no more than the lines have, and as many if and only if each line is filled
tightly. -/
theorem rowsAbove_iff (hwidth : 0 < width) {lines : List Text}
    (hnarrow : ∀ line ∈ lines, ∀ g ∈ graphemes line, displayWidth charWidth g ≤ width) :
    rowsAbove charWidth width lines ≤ (lines.flatMap (wrapLine charWidth width)).length ∧
      (rowsAbove charWidth width lines = (lines.flatMap (wrapLine charWidth width)).length ↔
        ∀ line ∈ lines, (filling charWidth width line).Tight (displayWidth charWidth) width) := by
  rw [rowsAbove_eq]
  induction lines with
  | nil => simp
  | cons line lines ih =>
      obtain ⟨hle, hiff⟩ := ih fun line' hline' => hnarrow line' (List.mem_cons_of_mem _ hline')
      have hfirst := wrappedRows_le hwidth (hnarrow line List.mem_cons_self)
      rw [List.map_cons, List.sum_cons, List.flatMap_cons, List.length_append, List.forall_mem_cons,
        ← hiff, ← wrappedRows_eq_iff hwidth (hnarrow line List.mem_cons_self)]
      omega

/-! ## The cursor -/

section Cursor

variable {st : EditorState} {above below : List Text} {before behind : Text} {height : Nat}

/-- The graphemes before the cursor. -/
def frontFilling (charWidth : Char → Nat) (width : Nat) (st : EditorState) (line : Text) :
    Filling Text :=
  fill (displayWidth charWidth) width ((graphemes line).take st.cursor.2)

theorem At.take_eq (h : At st above before behind below) :
    st.lines.take st.cursor.1 = above := by
  rw [h.lines, h.row, List.take_left]

variable (charWidth width) in
theorem At.flatten_front (h : At st above before behind below) :
    (frontFilling charWidth width st (before ++ behind)).rows.flatten.flatten = before := by
  rw [frontFilling, flatten_rows, ← upTo_eq, h.col]

variable (charWidth) in
theorem At.displayCursor_eq (hwidth : 0 < width) (h : At st above before behind below) :
    displayCursor charWidth width st =
      (load (displayWidth charWidth) (frontFilling charWidth width st (before ++ behind)).row,
        rowsAbove charWidth width above +
          (frontFilling charWidth width st (before ++ behind)).done.length) := by
  unfold displayCursor
  rw [if_neg (Nat.pos_iff_ne_zero.1 hwidth), h.take_eq, h.getElem?]
  exact foldl_cursorStep _ ⟨[], []⟩ _

variable (charWidth st) in
/-- The rows of the line of the cursor begin with those before it. -/
theorem wrapLine_front (hwidth : 0 < width) (line : Text) :
    ∃ back rest, wrapLine charWidth width line =
      (frontFilling charWidth width st line).done.map List.flatten ++
        ((frontFilling charWidth width st line).row.flatten ++ back) :: rest := by
  obtain ⟨back, rest, hrows⟩ := rows_append (displayWidth charWidth) width
    ((graphemes line).take st.cursor.2) ((graphemes line).drop st.cursor.2)
  rw [List.take_append_drop] at hrows
  refine ⟨back.flatten, rest.map List.flatten, ?_⟩
  rw [wrapLine_eq hwidth, filling, hrows, List.map_append, List.map_cons, List.flatten_append]
  rfl

variable (charWidth) in
theorem wrapLines_eq (hwidth : 0 < width) (h : At st above before behind below) :
    wrapLines charWidth width st = above.flatMap (wrapLine charWidth width) ++
      (wrapLine charWidth width (before ++ behind) ++
        below.flatMap (wrapLine charWidth width)) := by
  have hne : wrapLine charWidth width (before ++ behind) ≠ [] := by
    rw [wrapLine_eq hwidth, Filling.rows, List.map_append]
    exact List.append_ne_nil_of_right_ne_nil _ (List.cons_ne_nil _ _)
  unfold wrapLines
  simp only
  rw [h.lines, List.flatMap_append, List.flatMap_cons, if_neg (by simp [hne])]

theorem narrow_iff (hwidth : 0 < width) (h : At st above before behind below) :
    (∀ row ∈ wrapLines charWidth width st, displayWidth charWidth row ≤ width) ↔
      ∀ line ∈ st.lines, ∀ g ∈ graphemes line, displayWidth charWidth g ≤ width := by
  have hline : ∀ line, (∀ row ∈ wrapLine charWidth width line,
      displayWidth charWidth row ≤ width) ↔
        ∀ g ∈ graphemes line, displayWidth charWidth g ≤ width := by
    intro line
    have hload : (∀ row ∈ (filling charWidth width line).rows,
        load (displayWidth charWidth) row ≤ width) ↔ _ := load_le_iff
    rw [wrapLine_eq hwidth, List.forall_mem_map, ← hload]
    simp only [displayWidth_flatten]
  rw [wrapLines_eq charWidth hwidth h, h.lines]
  simp only [List.forall_mem_append, List.forall_mem_cons, List.forall_mem_flatMap, hline]

theorem renderView_eq (hheight : 0 < height) : renderView charWidth width height st =
    (((wrapLines charWidth width st).take (min (viewStart charWidth width height st + height)
        (wrapLines charWidth width st).length)).drop (viewStart charWidth width height st),
      ((displayCursor charWidth width st).1,
        (displayCursor charWidth width st).2 - viewStart charWidth width height st)) := by
  unfold renderView
  rw [if_neg (Nat.pos_iff_ne_zero.1 hheight)]

theorem viewStart_le :
    viewStart charWidth width height st ≤ (displayCursor charWidth width st).2 := by
  unfold viewStart
  simp only
  split <;> omega

theorem lt_viewStart_add (hheight : 0 < height)
    (hcursor : (displayCursor charWidth width st).2 < (wrapLines charWidth width st).length) :
    (displayCursor charWidth width st).2 < viewStart charWidth width height st + height := by
  unfold viewStart
  simp only
  split <;> omega

/-- When the rows before the cursor in its line are no more than those that are full, they are
those. -/
theorem At.length_head_eq (hwidth : 0 < width) (h : At st above before behind below)
    (hnarrow : ∀ g ∈ graphemes (before ++ behind), displayWidth charWidth g ≤ width)
    {head rest : List Text} {front back : Text}
    (hwrap : wrapLine charWidth width (before ++ behind) = head ++ (front ++ back) :: rest)
    (hflat : head.flatten ++ front = before)
    (hle : head.length ≤ (frontFilling charWidth width st (before ++ behind)).done.length) :
    head.length = (frontFilling charWidth width st (before ++ behind)).done.length := by
  by_contra hne
  obtain ⟨back', rest', hfront⟩ := wrapLine_front charWidth st hwidth (before ++ behind)
  have hpos : 0 < load (displayWidth charWidth)
      (frontFilling charWidth width st (before ++ behind)).row := by
    apply load_row_pos
    · intro g hg
      exact hnarrow g (List.mem_of_mem_take hg)
    · intro hnil
      apply hne
      rw [frontFilling, hnil] at hle ⊢
      exact Nat.le_zero.1 hle
  have hall := h.flatten_front charWidth width
  generalize frontFilling charWidth width st (before ++ behind) = f at hfront hpos hall hle hne
  -- One more row would be before the cursor, and the one that is being filled be empty.
  have hhead : head ++ [front ++ back] <+: wrapLine charWidth width (before ++ behind) := by
    rw [hwrap]
    exact ⟨rest, List.append_assoc _ _ _⟩
  have hfull : f.done.map List.flatten <+: wrapLine charWidth width (before ++ behind) :=
    ⟨_, hfront.symm⟩
  have hprefix : head ++ [front ++ back] <+: f.done.map List.flatten := by
    apply List.prefix_of_prefix_length_le hhead hfull
    rw [List.length_append, List.length_map, List.length_singleton]
    omega
  obtain ⟨more, hmore⟩ := hprefix
  have hdone : f.done.flatten.flatten = head.flatten ++ (front ++ back) ++ more.flatten := by
    rw [List.flatten_flatten, ← hmore]
    simp only [List.flatten_append, List.flatten_cons, List.flatten_nil, List.append_nil]
  have hempty : f.row.flatten = [] := by
    rw [Filling.rows, List.flatten_append, List.flatten_append, hdone, List.flatten_singleton,
      ← hflat] at hall
    have hlength := congrArg List.length hall
    simp only [List.length_append] at hlength
    exact List.length_eq_zero_iff.1 (by omega)
  rw [← displayWidth_flatten, hempty] at hpos
  exact Nat.lt_irrefl 0 hpos

/-- The cursor is at its place when the rows above are counted rightly. -/
theorem At.displayed (hwidth : 0 < width) (hheight : 0 < height)
    (h : At st above before behind below)
    (hnarrow : ∀ line ∈ st.lines, ∀ g ∈ graphemes line, displayWidth charWidth g ≤ width)
    (habove : rowsAbove charWidth width above =
      (above.flatMap (wrapLine charWidth width)).length) :
    Displayed charWidth width height st above before behind := by
  obtain ⟨back, rest, hfront⟩ := wrapLine_front charWidth st hwidth (before ++ behind)
  have hcursor := h.displayCursor_eq charWidth hwidth
  have hall := h.flatten_front charWidth width
  have hrow := wrapLines_eq charWidth hwidth h
  have hstart : viewStart charWidth width height st ≤ (displayCursor charWidth width st).2 :=
    viewStart_le
  generalize frontFilling charWidth width st (before ++ behind) = f at hfront hcursor hall
  rw [habove] at hcursor
  have hget : (wrapLines charWidth width st)[(displayCursor charWidth width st).2]? =
      some (f.row.flatten ++ back) := by
    rw [hrow, hcursor, List.getElem?_append_right (Nat.le_add_right _ _), Nat.add_sub_cancel_left,
      hfront, List.append_assoc, List.cons_append]
    rw [← List.length_map List.flatten]
    exact getElem?_middle
  obtain ⟨hlength, -⟩ := List.getElem?_eq_some_iff.1 hget
  have hend := lt_viewStart_add hheight hlength
  refine ⟨(narrow_iff hwidth h).2 hnarrow, ?_, ?_, ?_, ?_⟩
  · rw [renderView_eq hheight, List.drop_take]
    exact List.take_prefix _ _
  · rw [renderView_eq hheight]
    simp only [List.length_drop, List.length_take]
    omega
  · intro row hshown
    rw [renderView_eq hheight] at hshown ⊢
    simp only at hshown ⊢
    rw [List.getElem?_drop, Nat.add_sub_cancel' hstart, List.getElem?_take_of_lt (by omega), hget,
      Option.some.injEq] at hshown
    rw [← hshown, displayWidth_append, displayWidth_flatten, hcursor]
    exact Nat.le_add_right _ _
  · refine ⟨f.done.map List.flatten, f.row.flatten, back, rest, hfront, ?_, ?_, ?_⟩
    · rw [← hall, Filling.rows, List.flatten_append, List.flatten_append, List.flatten_singleton,
        List.flatten_flatten]
    · rw [renderView_eq hheight, displayWidth_flatten, hcursor]
    · rw [renderView_eq hheight, List.length_map]
      simp only
      rw [Nat.add_sub_cancel' hstart, hcursor]

/-- The cursor is displayed at its place if and only if it is on a line, each grapheme fits into a
row, and the lines above are filled tightly. -/
theorem displayed_iff (hwidth : 0 < width) (hheight : 0 < height) :
    ShowsCursor charWidth width height st ↔ Aligned charWidth width st := by
  constructor
  · intro hshows
    obtain ⟨above, before, behind, below, h, hshown⟩ := hshows
    have hnarrow := (narrow_iff hwidth h).1 hshown.narrow
    have hmem : ∀ line ∈ above, line ∈ st.lines := by
      intro line hline
      rw [h.lines]
      exact List.mem_append_left _ hline
    have hfits : ∀ line ∈ above, ∀ g ∈ graphemes line, displayWidth charWidth g ≤ width :=
      fun line hline => hnarrow line (hmem line hline)
    obtain ⟨hle, hiff⟩ := rowsAbove_iff hwidth hfits
    obtain ⟨head, front, back, rest, hwrap, hflat, -, hplace⟩ := hshown.place
    rw [renderView_eq hheight] at hplace
    simp only at hplace
    rw [Nat.add_sub_cancel' viewStart_le, h.displayCursor_eq charWidth hwidth] at hplace
    simp only at hplace
    have hhead := h.length_head_eq hwidth (hnarrow _ (by rw [h.lines]; simp)) hwrap hflat (by omega)
    refine ⟨?_, hnarrow, ?_⟩
    · rw [h.lines, h.row, List.length_append, List.length_cons]
      omega
    · rw [h.take_eq]
      exact hiff.1 (by omega)
  · intro haligned
    obtain ⟨above, before, behind, below, h⟩ := exists_at haligned.onLine
    have htight := haligned.tight
    rw [h.take_eq] at htight
    have hnarrow : ∀ line ∈ above, ∀ g ∈ graphemes line, displayWidth charWidth g ≤ width := by
      intro line hline
      apply haligned.narrow
      rw [h.lines]
      exact List.mem_append_left _ hline
    exact ⟨above, before, behind, below, h, h.displayed hwidth hheight haligned.narrow
      ((rowsAbove_iff hwidth hnarrow).2.2 htight)⟩

end Cursor

/-- The widths of the characters of the next two examples. -/
def columns (c : Char) : Nat := if c = '日' then 2 else 1

/-- The cursor in the second of two lines, behind a wide character. -/
theorem displayed_iff_wide :
    ShowsCursor columns 3 1 ⟨[['日', 'a'], ['日', '日']], (1, 1), [], none, none⟩ := by
  refine (displayed_iff (by decide) (by decide)).2 ⟨by decide, by decide +kernel, ?_⟩
  intro line hline
  obtain rfl := List.mem_singleton.1 hline
  exact .inl (by decide +kernel)

/-- Three wide characters take three rows of three columns, and are counted as two. -/
theorem cursor_in_the_row_above :
    ¬ ShowsCursor columns 3 8 ⟨[['日', '日', '日'], []], (1, 0), [], none, none⟩ := by
  intro hshows
  obtain ⟨above, before, behind, below, h, hshown⟩ := hshows
  obtain rfl : [['日', '日', '日']] = above := h.take_eq
  obtain ⟨head, front, back, rest, -, -, -, hplace⟩ := hshown.place
  have hrows : ([['日', '日', '日']].flatMap (wrapLine columns 3)).length = 3 := by decide +kernel
  have hcursor : viewStart columns 3 8 ⟨[['日', '日', '日'], []], (1, 0), [], none, none⟩ +
      (renderView columns 3 8 ⟨[['日', '日', '日'], []], (1, 0), [], none, none⟩).2.2 = 2 := by
    decide +kernel
  rw [hrows, hcursor] at hplace
  omega

end Rows

end Vanyline.Editor
