import Mathlib.Data.List.Chain
import Vanyline.Lib.Run
import Vanyline.Cli.EditorCursor

/-!
# Runs of the editor

The editor takes commands, and what was sent is recorded in its history.  A run is any sequence of
these from the empty editor.

* `Framed` is what no command breaks: the cursor is in a line, and the history is in order.
* `Invariant` adds that no line has a control character and that the column is one of the line.
  A command keeps this where it `Fits`: where each piece that is inserted has no control character
  and makes one more grapheme before the cursor.
* `editor_runs`: no command panics, every run is `Framed`, and a run of inputs that fit has the
  invariant.
-/

namespace Vanyline.Editor

open Vanyline.Lib
open Vanyline.Lib.TextLines (cut unlines_cut newline_notMem_cut)
open Vanyline.Lib.ByteOffsets (byteLen byteLen_append splitAtByte splitAtByte_eq_some)

/-! ## Inputs -/

inductive Input
  | edit (command : EditCommand)
  | push (entry : Text)

def step (st : EditorState) : Input → Option EditorState
  | .edit command => apply st command
  | .push entry => some (pushHistory st entry)

/-! ## The invariant -/

def NoControl (line : Text) : Prop := ∀ c ∈ line, isControl c = false

def Clean (lines : List Text) : Prop := ∀ line ∈ lines, NoControl line

/-- A text of clean lines. -/
def Plain (entry : Text) : Prop := ∀ c ∈ entry, c = '\n' ∨ isControl c = false

def Within (st : EditorState) : Prop :=
  ∃ line, st.lines[st.cursor.1]? = some line ∧ st.cursor.2 ≤ graphemeCount line

structure Framed (st : EditorState) : Prop where
  nonempty : st.lines ≠ []
  row : st.cursor.1 < st.lines.length
  pos : ∀ pos, st.historyPos = some pos → pos < st.history.length
  bounded : st.history.length ≤ 500
  distinct : st.history.IsChain (· ≠ ·)

structure Invariant (st : EditorState) : Prop extends Framed st where
  clean : Clean st.lines
  column : Within st

/-- What can come back into the lines. -/
structure Stored (st : EditorState) : Prop where
  history : ∀ entry ∈ st.history, Plain entry
  draft : ∀ entry, st.draft = some entry → Plain entry

/-! ## The guard -/

/-- What a pasted grapheme puts into the line. -/
def pieceOf (g : Text) : Text :=
  if g.head?.any isControl then g.filter fun x => !isControl x else g

/-- The line divided at a column. -/
def divide (col : Nat) (line : Text) : Text × Text :=
  (upTo col line, line.drop (upTo col line).length)

/-- The piece has no control character and makes one more grapheme before the cursor. -/
def fitsPiece (before piece : Text) : Bool :=
  piece.all (fun c => !isControl c) && graphemeCount before < graphemeCount (before ++ piece)

/-- All pieces of a text that is pasted fit, each one where the cursor is by then. -/
def fits : Text → Text → List Text → Bool
  | _, _, [] => true
  | before, behind, g :: more =>
    if g.head? = some '\n' then fits [] behind more
    else if pieceOf g = [] then fits before behind more
    else
      let place := divide (graphemeCount before + 1) (before ++ pieceOf g ++ behind)
      fitsPiece before (pieceOf g) && fits place.1 place.2 more

/-- What is before the cursor in its line, and what is behind it. -/
def here (st : EditorState) : Text × Text := divide st.cursor.2 (st.lines.getD st.cursor.1 [])

def fitsCommand (st : EditorState) : EditCommand → Bool
  | .insert c => c = '\n' || isControl c || fitsPiece (here st).1 [c]
  | .insertStr s => fits (here st).1 (here st).2 (graphemes s)
  | _ => true

def Fits (st : EditorState) : Input → Prop
  | .edit command => fitsCommand st command = true
  | .push entry => entry.all (fun c => c = '\n' || !isControl c) = true

instance (st : EditorState) : (input : Input) → Decidable (Fits st input)
  | .edit command => inferInstanceAs (Decidable (fitsCommand st command = true))
  | .push entry => inferInstanceAs (Decidable (entry.all _ = true))

/-! ## Lines without control characters -/

theorem noControl_nil : NoControl [] := fun _ h => nomatch h

theorem noControl_append {line more : Text} :
    NoControl (line ++ more) ↔ NoControl line ∧ NoControl more := List.forall_mem_append

theorem noControl_iff {line : Text} : line.all (fun c => !isControl c) = true ↔ NoControl line := by
  rw [List.all_eq_true]
  refine forall_congr' fun c => forall_congr' fun _ => ?_
  rw [Bool.not_eq_true']

theorem plain_iff {entry : Text} :
    entry.all (fun c => c = '\n' || !isControl c) = true ↔ Plain entry := by
  rw [List.all_eq_true]
  refine forall_congr' fun c => forall_congr' fun _ => ?_
  rw [Bool.or_eq_true, decide_eq_true_iff, Bool.not_eq_true']

theorem clean_nil : Clean [] := fun _ h => nomatch h

theorem clean_middle {above : List Text} {line : Text} {below : List Text} :
    Clean (above ++ line :: below) ↔ Clean above ∧ NoControl line ∧ Clean below := by
  unfold Clean
  rw [List.forall_mem_append, List.forall_mem_cons]

theorem plain_text {st : EditorState} (h : Clean st.lines) : Plain (text st) := by
  have hplain : ∀ lines : List Text, Clean lines → Plain (['\n'].intercalate lines) := by
    intro lines
    induction lines with
    | nil =>
      intro _ c hc
      cases hc
    | cons line lines ih =>
      intro hclean c hc
      cases lines with
      | nil =>
        rw [List.intercalate_singleton] at hc
        exact .inr (hclean line List.mem_cons_self c hc)
      | cons next lines =>
        rw [List.intercalate_cons_cons, List.append_assoc] at hc
        rcases List.mem_append.1 hc with hc | hc
        · exact .inr (hclean line List.mem_cons_self c hc)
        · rcases List.mem_append.1 hc with hc | hc
          · exact .inl (List.mem_singleton.1 hc)
          · exact ih (fun l hl => hclean l (List.mem_cons_of_mem _ hl)) c hc
  exact hplain st.lines h

theorem clean_splitLines {entry : Text} (h : Plain entry) : Clean (splitLines entry) := by
  intro line hline c hc
  have hnewline := newline_notMem_cut entry
  have hflatten := unlines_cut entry
  have hmem : c ∈ entry := by
    rw [← hflatten, List.mem_append]
    rcases List.mem_append.1 hline with hline | hline
    · left
      exact List.mem_flatMap.2 ⟨line, hline, List.mem_append_left _ hc⟩
    · right
      rw [List.mem_singleton] at hline
      rwa [← hline]
  have hne : '\n' ∉ line := by
    rcases List.mem_append.1 hline with hline | hline
    · exact hnewline.1 line hline
    · rw [List.mem_singleton] at hline
      rw [hline]
      exact hnewline.2
  rcases h c hmem with heq | hcontrol
  · rw [heq] at hc
    exact absurd hc hne
  · exact hcontrol

/-! ## What a command does -/

/-- A command leaves the history, the position in it is kept or given up, and the cursor is in a
line. -/
structure Edited (st u : EditorState) : Prop where
  row : u.cursor.1 < u.lines.length
  history : u.history = st.history
  recalled : u.historyPos = st.historyPos ∧ u.draft = st.draft ∨
    u.historyPos = none ∧ u.draft = none

/-- A command has a value, and where the guard holds the column is one of the line and no control
character comes in. -/
def Does (guard : Prop) (st : EditorState) (next : Option EditorState) : Prop :=
  ∃ u, next = some u ∧ Edited st u ∧ (guard → Within u ∧ (Clean st.lines → Clean u.lines))

theorem within_middle {u : EditorState} {above : List Text} {line : Text} {below : List Text}
    (hlines : u.lines = above ++ line :: below) (hrow : u.cursor.1 = above.length)
    (hcol : u.cursor.2 ≤ graphemeCount line) : Within u := by
  refine ⟨line, ?_, hcol⟩
  rw [hlines, hrow, getElem?_middle]

theorem Within.row {u : EditorState} (h : Within u) : u.cursor.1 < u.lines.length := by
  rcases h with ⟨line, hline, -⟩
  exact (List.getElem?_eq_some_iff.1 hline).1

/-- What the commands that do not touch the history have in common. -/
theorem does_of {guard : Prop} {st : EditorState} {lines : List Text} {cursor : Nat × Nat}
    {above below : List Text} {line : Text} (hlines : lines = above ++ line :: below)
    (hrow : cursor.1 = above.length) (hcol : guard → cursor.2 ≤ graphemeCount line)
    (hclean : guard → Clean st.lines → Clean lines) :
    Does guard st (some { st with lines, cursor }) := by
  refine ⟨_, rfl, ⟨?_, rfl, .inl ⟨rfl, rfl⟩⟩, ?_⟩
  · show cursor.1 < lines.length
    rw [hlines, hrow, List.length_append, List.length_cons]
    omega
  · intro hguard
    exact ⟨within_middle hlines hrow (hcol hguard), hclean hguard⟩

theorem does_cursor {guard : Prop} {st : EditorState} {cursor : Nat × Nat} {line : Text}
    (hline : st.lines[cursor.1]? = some line) (hcol : cursor.2 ≤ graphemeCount line) :
    Does guard st (some { st with cursor }) := by
  refine ⟨_, rfl, ⟨(List.getElem?_eq_some_iff.1 hline).1, rfl, .inl ⟨rfl, rfl⟩⟩, ?_⟩
  intro _
  exact ⟨⟨line, hline, hcol⟩, id⟩

section Commands

variable {st : EditorState} {above below : List Text} {before behind : Text}

theorem Placed.within (h : Placed st above before behind below) : Within st := by
  refine within_middle h.lines h.row ?_
  rw [h.exact]
  exact graphemeCount_append_le before behind

theorem Placed.row_lt (h : Placed st above before behind below) :
    st.cursor.1 < st.lines.length := h.within.row

/-- A command that does nothing. -/
theorem Placed.does_self {guard : Prop} (h : Placed st above before behind below) :
    Does guard st (some st) :=
  ⟨st, rfl, ⟨h.row_lt, rfl, .inl ⟨rfl, rfl⟩⟩, fun _ => ⟨h.within, id⟩⟩

theorem newline_does {guard : Prop} (h : At st above before behind below) :
    Does guard st (newline st) := by
  rw [newline_eq h]
  refine does_of (show _ = (above ++ [before]) ++ behind :: below from rfl) ?_
    (fun _ => Nat.zero_le _) ?_
  · rw [List.length_append]
    rfl
  · intro _ hclean
    rw [h.lines, clean_middle, noControl_append] at hclean
    rw [clean_middle, clean_middle]
    exact ⟨⟨hclean.1, hclean.2.1.1, clean_nil⟩, hclean.2.1.2, hclean.2.2⟩

theorem applyNewline_does {guard : Prop} (h : At st above before behind below) :
    Does guard st (applyNewline st) := by
  obtain ⟨st', hst', hplaced, heq⟩ := normalise_eq h
  have hdoes : Does guard st' (newline st') := newline_does hplaced.toAt
  obtain ⟨u, hu, hedited, hkeeps⟩ := hdoes
  subst heq
  refine ⟨u, ?_, ⟨hedited.row, hedited.history, hedited.recalled⟩, hkeeps⟩
  show (normalise st).bind newline = some u
  rw [hst']
  exact hu

theorem insertAtCursor_does {guard : Prop} {inserted : Text}
    (h : At st above before behind below)
    (hcol : guard → st.cursor.2 + 1 ≤ graphemeCount (before ++ inserted ++ behind))
    (hcontrol : guard → NoControl inserted) : Does guard st (insertAtCursor inserted st) := by
  rw [insertAtCursor_eq h]
  refine does_of rfl rfl hcol ?_
  intro hguard hclean
  rw [h.lines, clean_middle, noControl_append] at hclean
  rw [clean_middle, noControl_append, noControl_append]
  exact ⟨hclean.1, ⟨⟨hclean.2.1.1, hcontrol hguard⟩, hclean.2.1.2⟩, hclean.2.2⟩

theorem backspace_does {guard : Prop} (h : Placed st above before behind below) :
    Does guard st (backspace st) := by
  by_cases hbefore : before = []
  · subst hbefore
    rcases List.eq_nil_or_concat' above with rfl | ⟨above, prev, rfl⟩
    · rw [backspace_start h]
      exact h.does_self
    · rw [backspace_line h]
      refine does_of rfl rfl (fun _ => graphemeCount_append_le prev behind) ?_
      intro _ hclean
      rw [h.lines, clean_middle, clean_middle] at hclean
      rw [clean_middle, noControl_append]
      exact ⟨hclean.1.1, ⟨hclean.1.2.1, hclean.2.1⟩, hclean.2.2⟩
  · obtain ⟨first, g, rfl, hapart, hcount, -⟩ := exists_last_grapheme h.apart hbefore
    rw [backspace_grapheme h hapart hcount]
    refine does_of rfl rfl (fun _ => graphemeCount_append_le first behind) ?_
    intro _ hclean
    rw [h.lines, clean_middle, noControl_append, noControl_append] at hclean
    rw [clean_middle, noControl_append]
    exact ⟨hclean.1, ⟨hclean.2.1.1.1, hclean.2.1.2⟩, hclean.2.2⟩

theorem delete_does {guard : Prop} (h : Placed st above before behind below) :
    Does guard st (delete st) := by
  by_cases hbehind : behind = []
  · subst hbehind
    cases below with
    | nil =>
      rw [delete_end h]
      exact h.does_self
    | cons next below =>
      rw [delete_line h]
      refine does_of rfl h.row ?_ ?_
      · intro _
        rw [h.exact]
        exact graphemeCount_append_le before next
      · intro _ hclean
        rw [h.lines, List.append_nil, clean_middle] at hclean
        rw [clean_middle, noControl_append]
        have hbelow : NoControl next ∧ Clean below := List.forall_mem_cons.1 hclean.2.2
        exact ⟨hclean.1, ⟨hclean.2.1, hbelow.1⟩, hbelow.2⟩
  · obtain ⟨g, rest, rfl, hapart, hcount, -⟩ := exists_grapheme h.apart hbehind
    rw [delete_grapheme h hapart hcount]
    refine does_of rfl h.row ?_ ?_
    · intro _
      rw [h.exact]
      exact graphemeCount_append_le before rest
    · intro _ hclean
      rw [h.lines, clean_middle, noControl_append, noControl_append] at hclean
      rw [clean_middle, noControl_append]
      exact ⟨hclean.1, ⟨hclean.2.1.1, hclean.2.1.2.2⟩, hclean.2.2⟩

/-! ## Moves -/

theorem left_does {guard : Prop} (h : Placed st above before behind below) :
    Does guard st (left st) := by
  by_cases hbefore : before = []
  · subst hbefore
    rcases List.eq_nil_or_concat' above with rfl | ⟨above, prev, rfl⟩
    · rw [left_start h]
      exact h.does_self
    · rw [left_line h]
      have hline : st.lines[above.length]? = some prev := by
        rw [h.lines, List.append_assoc]
        exact getElem?_middle
      exact does_cursor hline (Nat.le_refl _)
  · obtain ⟨first, g, rfl, -, hcount, -⟩ := exists_last_grapheme h.apart hbefore
    rw [left_grapheme h hcount]
    have hline : st.lines[above.length]? = some (first ++ g ++ behind) := by
      rw [h.lines]
      exact getElem?_middle
    refine does_cursor hline ?_
    rw [List.append_assoc]
    exact graphemeCount_append_le first (g ++ behind)

theorem right_does {guard : Prop} (h : Placed st above before behind below) :
    Does guard st (right st) := by
  have hline := h.getElem?
  unfold right
  simp only [hline, Option.bind_eq_bind, Option.bind_some]
  by_cases hcol : st.cursor.2 < graphemeCount (before ++ behind)
  · rw [if_pos hcol]
    exact does_cursor hline hcol
  · rw [if_neg hcol]
    by_cases hrow : st.cursor.1 + 1 < st.lines.length
    · rw [if_pos hrow]
      exact does_cursor (List.getElem?_eq_getElem hrow) (Nat.zero_le _)
    · rw [if_neg hrow]
      exact h.does_self

theorem moveToRow_does {guard : Prop} {row : Nat} (h : row < st.lines.length) :
    Does guard st (moveToRow row st) := by
  unfold moveToRow
  rw [List.getElem?_eq_getElem h]
  exact does_cursor (List.getElem?_eq_getElem h) (Nat.min_le_right _ _)

theorem home_does {guard : Prop} (h : Placed st above before behind below) :
    Does guard st (home st) := does_cursor h.getElem? (Nat.zero_le _)

theorem endOfLine_does {guard : Prop} (h : Placed st above before behind below) :
    Does guard st (endOfLine st) := by
  unfold endOfLine
  rw [h.getElem?]
  exact does_cursor h.getElem? (Nat.le_refl _)

theorem exists_skipBack (skip : Text → Bool) {gs : List Text} {i : Nat} (h : i ≤ gs.length) :
    ∃ j, skipBack skip gs i = some j ∧ j ≤ i := by
  induction i with
  | zero => exact ⟨0, rfl, Nat.le_refl 0⟩
  | succ i ih =>
    unfold skipBack
    rw [List.getElem?_eq_getElem (by omega)]
    simp only [Option.bind_eq_bind, Option.bind_some]
    split_ifs
    · obtain ⟨j, hj, hle⟩ := ih (by omega)
      exact ⟨j, hj, by omega⟩
    · exact ⟨i + 1, rfl, Nat.le_refl _⟩

theorem exists_skipOn (skip : Text → Bool) {gs : List Text} {rest i : Nat}
    (h : i + rest = gs.length) : ∃ j, skipOn skip gs rest i = some j ∧ j ≤ gs.length := by
  induction rest generalizing i with
  | zero => exact ⟨i, rfl, by omega⟩
  | succ rest ih =>
    unfold skipOn
    rw [List.getElem?_eq_getElem (by omega)]
    simp only [Option.bind_eq_bind, Option.bind_some]
    split_ifs
    · exact ih (by omega)
    · exact ⟨i, rfl, by omega⟩

/-- The graphemes before the cursor. -/
theorem Placed.take_length (h : Placed st above before behind below) :
    ((graphemes (before ++ behind)).take st.cursor.2).length = graphemeCount before := by
  have hle := graphemeCount_append_le before behind
  rw [List.length_take, h.exact]
  exact Nat.min_eq_left hle

theorem wordLeft_does {guard : Prop} (h : Placed st above before behind below) :
    Does guard st (wordLeft st) := by
  have hle := graphemeCount_append_le before behind
  have htake := h.take_length
  obtain ⟨i, hi, hile⟩ := exists_skipBack isBlank
    (Nat.le_refl ((graphemes (before ++ behind)).take st.cursor.2).length)
  obtain ⟨j, hj, hjle⟩ := exists_skipBack (fun g => !isBlank g) hile
  unfold wordLeft
  simp only [h.getElem?, Option.bind_eq_bind, Option.bind_some, hi, hj]
  exact does_cursor h.getElem? (by show j ≤ graphemeCount (before ++ behind); omega)

theorem wordRight_does {guard : Prop} (h : Placed st above before behind below) :
    Does guard st (wordRight st) := by
  have hmin := Nat.min_le_right st.cursor.2 (graphemes (before ++ behind)).length
  obtain ⟨i, hi, hile⟩ := exists_skipOn (fun g => !isBlank g)
    (Nat.add_sub_cancel' hmin)
  obtain ⟨j, hj, hjle⟩ := exists_skipOn isBlank (Nat.add_sub_cancel' hile)
  unfold wordRight
  simp only [h.getElem?, Option.bind_eq_bind, Option.bind_some, hi, hj]
  exact does_cursor h.getElem? hjle

/-! ## Killing -/

theorem killLine_does {guard : Prop} (h : Placed st above before behind below) :
    Does guard st (killLine st) := by
  have htruncate : truncate (before ++ behind) (byteLen before) = some before := by
    unfold truncate
    rw [if_pos (by rw [byteLen_append]; omega), splitAtByte_eq_some.2 ⟨rfl, rfl⟩]
    rfl
  unfold killLine
  simp only [h.getElem?, h.offset, htruncate, h.set, Option.bind_eq_bind, Option.bind_some]
  refine does_of rfl h.row (fun _ => Nat.le_of_eq h.exact) ?_
  intro _ hclean
  rw [h.lines, clean_middle, noControl_append] at hclean
  rw [clean_middle]
  exact ⟨hclean.1, hclean.2.1.1, hclean.2.2⟩

theorem killToStart_does {guard : Prop} (h : Placed st above before behind below) :
    Does guard st (killToStart st) := by
  have hsplit : splitAtByte (byteLen before) (before ++ behind) = some (before, behind) :=
    splitAtByte_eq_some.2 ⟨rfl, rfl⟩
  unfold killToStart
  simp only [h.getElem?, h.offset, hsplit, h.set, Option.bind_eq_bind, Option.bind_some]
  refine does_of rfl h.row (fun _ => Nat.zero_le _) ?_
  intro _ hclean
  rw [h.lines, clean_middle, noControl_append] at hclean
  rw [clean_middle]
  exact ⟨hclean.1, hclean.2.1.2, hclean.2.2⟩

theorem deleteWord_does {guard : Prop} (h : Placed st above before behind below) :
    Does guard st (deleteWord st) := by
  have htake := h.take_length
  obtain ⟨i, hi, hile⟩ := exists_skipBack (fun g => !isBlank g)
    (Nat.le_refl ((graphemes (before ++ behind)).take st.cursor.2).length)
  have hexact := h.exact
  obtain ⟨removed, hbefore⟩ := upTo_prefix (show i ≤ st.cursor.2 by omega) (before ++ behind)
  rw [h.col] at hbefore
  have hfirst : i ≤ graphemeCount (upTo i (before ++ behind) ++ behind) := by
    obtain ⟨first, rest, hline, hcount, hapart⟩ :=
      exists_column i (before ++ behind)
        (by have := graphemeCount_append_le before behind; omega)
    have hupTo := hapart.upTo
    rw [hcount, ← hline] at hupTo
    rw [hupTo, ← hcount]
    exact graphemeCount_append_le first behind
  have hreplace := replaceRange_middle (upTo i (before ++ behind)) removed behind []
  rw [← hbefore, List.append_nil] at hreplace
  unfold deleteWord
  simp only [h.getElem?, hi, graphemeOffset_eq, h.col, hreplace, h.set, Option.bind_eq_bind,
    Option.bind_some]
  refine does_of rfl h.row (fun _ => hfirst) ?_
  intro _ hclean
  rw [h.lines, hbefore, clean_middle, noControl_append, noControl_append] at hclean
  rw [clean_middle, noControl_append]
  rw [hbefore] at hclean ⊢
  exact ⟨hclean.1, ⟨hclean.2.1.1.1, hclean.2.1.2⟩, hclean.2.2⟩

theorem clear_does {guard : Prop} : Does guard st (clear st) := by
  refine ⟨_, rfl, ⟨Nat.zero_lt_one, rfl, .inr ⟨rfl, rfl⟩⟩, ?_⟩
  intro _
  refine ⟨⟨[], rfl, Nat.zero_le _⟩, ?_⟩
  intro _ line hline
  rw [List.mem_singleton.1 hline]
  exact noControl_nil

/-! ## Insertions -/

theorem insert_does {c : Char} (h : Placed st above before behind below) :
    Does (c = '\n' ∨ isControl c = true ∨ fitsPiece before [c] = true) st (insert c st) := by
  unfold insert
  by_cases hnewline : c = '\n'
  · rw [if_pos hnewline]
    exact applyNewline_does h.toAt
  · rw [if_neg hnewline]
    by_cases hcontrol : isControl c = true
    · rw [if_pos hcontrol]
      exact h.does_self
    · rw [if_neg hcontrol]
      apply insertAtCursor_does h.toAt
      · rintro (heq | hcontrol' | hfits)
        · exact absurd heq hnewline
        · exact absurd hcontrol' hcontrol
        · rw [fitsPiece, Bool.and_eq_true, decide_eq_true_iff] at hfits
          have hle := graphemeCount_append_le (before ++ [c]) behind
          have hexact := h.exact
          omega
      · intro _ x hx
        rw [List.mem_singleton.1 hx]
        exact Bool.eq_false_iff.2 hcontrol

/-- One round of the loop. -/
theorem insertCluster_eq {g : Text} (hne : g ≠ []) : insertCluster st g =
    if g.head? = some '\n' then applyNewline st
    else if pieceOf g = [] then some st
    else insertAtCursor (pieceOf g) st := by
  cases g with
  | nil => exact absurd rfl hne
  | cons c rest =>
    unfold insertCluster
    simp only [List.head?_cons, Option.some.injEq]
    by_cases hnewline : c = '\n'
    · rw [if_pos hnewline, if_pos hnewline]
    · rw [if_neg hnewline, if_neg hnewline]
      by_cases hcontrol : isControl c = true
      · have hpiece : pieceOf (c :: rest) = (c :: rest).filter fun x => !isControl x :=
          if_pos hcontrol
        rw [if_pos hcontrol, hpiece]
        simp only [List.isEmpty_iff]
      · have hpiece : pieceOf (c :: rest) = c :: rest := if_neg hcontrol
        rw [if_neg hcontrol, hpiece, if_neg (List.cons_ne_nil c rest)]

theorem insertCluster_edited {g : Text} (hne : g ≠ []) (h : At st above before behind below) :
    ∃ u, insertCluster st g = some u ∧ Edited st u := by
  have hdoes : Does False st (insertCluster st g) := by
    rw [insertCluster_eq hne]
    split_ifs
    · exact applyNewline_does h
    · refine ⟨st, rfl, ⟨?_, rfl, .inl ⟨rfl, rfl⟩⟩, False.elim⟩
      rw [h.lines, h.row, List.length_append, List.length_cons]
      omega
    · exact insertAtCursor_does h False.elim False.elim
  obtain ⟨u, hu, hedited, -⟩ := hdoes
  exact ⟨u, hu, hedited⟩

theorem Edited.trans {u v : EditorState} (h : Edited st u) (h' : Edited u v) : Edited st v where
  row := h'.row
  history := h'.history.trans h.history
  recalled := by
    rcases h'.recalled with ⟨hpos, hdraft⟩ | hnone
    · rw [hpos, hdraft]
      exact h.recalled
    · exact .inr hnone

theorem insertClusters_edited {gs : List Text} (hne : ∀ g ∈ gs, g ≠ [])
    (h : st.cursor.1 < st.lines.length) :
    ∃ u, gs.foldlM insertCluster st = some u ∧ Edited st u := by
  induction gs generalizing st with
  | nil => exact ⟨st, rfl, h, rfl, .inl ⟨rfl, rfl⟩⟩
  | cons g gs ih =>
    rw [List.forall_mem_cons] at hne
    obtain ⟨above, before, behind, below, hat⟩ := exists_at h
    obtain ⟨t, ht, hedited⟩ := insertCluster_edited hne.1 hat
    obtain ⟨u, hu, hrest⟩ := ih hne.2 hedited.row
    refine ⟨u, ?_, hedited.trans hrest⟩
    rw [List.foldlM_cons, ht]
    exact hu

/-- The cursor is at a place where the pieces fit. -/
def Ready (st : EditorState) (gs : List Text) : Prop :=
  ∃ above before behind below, Placed st above before behind below ∧ fits before behind gs = true

theorem divide_append (col : Nat) (line : Text) :
    (divide col line).1 ++ (divide col line).2 = line := by
  obtain ⟨behind, hline⟩ := exists_upTo col line
  have hdrop : (upTo col line ++ behind).drop (upTo col line).length = behind := List.drop_left
  rw [hline] at hdrop
  show upTo col line ++ line.drop (upTo col line).length = line
  rw [hdrop, hline]

theorem count_divide {col : Nat} {line : Text} (h : col ≤ graphemeCount line) :
    graphemeCount (divide col line).1 = col := by
  obtain ⟨first, rest, rfl, hcount, hapart⟩ := exists_column col line h
  have hupTo := hapart.upTo
  rw [hcount] at hupTo
  show graphemeCount (upTo col (first ++ rest)) = col
  rw [hupTo, hcount]

theorem Placed.divided {col : Nat} {line : Text} (hlines : st.lines = above ++ line :: below)
    (hcursor : st.cursor = (above.length, col)) (h : col ≤ graphemeCount line) :
    Placed st above (divide col line).1 (divide col line).2 below where
  lines := by rw [divide_append, hlines]
  row := by rw [hcursor]
  col := by rw [divide_append, hcursor]; rfl
  exact := by rw [count_divide h, hcursor]

theorem applyNewline_eq (h : At st above before behind below) :
    applyNewline st = some { st with
      lines := (above ++ [before]) ++ behind :: below
      cursor := (above.length + 1, 0) } := by
  obtain ⟨st', hst', hplaced, heq⟩ := normalise_eq h
  have hnewline := newline_eq hplaced.toAt
  subst heq
  show (normalise st).bind newline = _
  rw [hst']
  exact hnewline

theorem insertCluster_ready {g : Text} {more : List Text} (hne : g ≠ [])
    (h : Placed st above before behind below) (hfits : fits before behind (g :: more) = true) :
    ∃ u, insertCluster st g = some u ∧ Ready u more ∧ (Clean st.lines → Clean u.lines) := by
  rw [insertCluster_eq hne]
  unfold fits at hfits
  by_cases hnewline : g.head? = some '\n'
  · rw [if_pos hnewline] at hfits
    rw [if_pos hnewline, applyNewline_eq h.toAt]
    refine ⟨_, rfl, ⟨above ++ [before], [], behind, below, ?_, hfits⟩, ?_⟩
    · apply Placed.of_apart rfl _ (apart_nil_left behind)
      rw [List.length_append]
      rfl
    · intro hclean
      rw [h.lines, clean_middle, noControl_append] at hclean
      rw [clean_middle, clean_middle]
      exact ⟨⟨hclean.1, hclean.2.1.1, clean_nil⟩, hclean.2.1.2, hclean.2.2⟩
  · rw [if_neg hnewline] at hfits ⊢
    by_cases hpiece : pieceOf g = []
    · rw [if_pos hpiece] at hfits ⊢
      exact ⟨st, rfl, ⟨above, before, behind, below, h, hfits⟩, id⟩
    · rw [if_neg hpiece, Bool.and_eq_true, fitsPiece, Bool.and_eq_true, decide_eq_true_iff,
        noControl_iff] at hfits
      have hle := graphemeCount_append_le (before ++ pieceOf g) behind
      rw [if_neg hpiece, insertAtCursor_eq h.toAt]
      refine ⟨_, rfl, ⟨above, _, _, below, ?_, hfits.2⟩, ?_⟩
      · refine Placed.divided rfl ?_ (by omega)
        rw [h.exact]
      · intro hclean
        rw [h.lines, clean_middle, noControl_append] at hclean
        rw [clean_middle, noControl_append, noControl_append]
        exact ⟨hclean.1, ⟨⟨hclean.2.1.1, hfits.1.1⟩, hclean.2.1.2⟩, hclean.2.2⟩

theorem insertClusters_ready {gs : List Text} (hne : ∀ g ∈ gs, g ≠ []) (h : Ready st gs) :
    ∃ u, gs.foldlM insertCluster st = some u ∧ Within u ∧ (Clean st.lines → Clean u.lines) := by
  induction gs generalizing st with
  | nil =>
    obtain ⟨above, before, behind, below, hplaced, -⟩ := h
    exact ⟨st, rfl, hplaced.within, id⟩
  | cons g gs ih =>
    rw [List.forall_mem_cons] at hne
    obtain ⟨above, before, behind, below, hplaced, hfits⟩ := h
    obtain ⟨t, ht, hready, hclean⟩ := insertCluster_ready hne.1 hplaced hfits
    obtain ⟨u, hu, hwithin, hclean'⟩ := ih hne.2 hready
    refine ⟨u, ?_, hwithin, fun h => hclean' (hclean h)⟩
    rw [List.foldlM_cons, ht]
    exact hu

theorem insertStr_does {s : Text} (h : Placed st above before behind below) :
    Does (fits before behind (graphemes s) = true) st (insertStr s st) := by
  have hne : ∀ g ∈ graphemes s, g ≠ [] := by
    intro g hg
    rw [graphemes_eq] at hg
    exact Segments.Scanner.ne_nil_of_mem_cut hg
  obtain ⟨u, hu, hedited⟩ := insertClusters_edited hne h.row_lt
  refine ⟨u, hu, hedited, ?_⟩
  intro hfits
  obtain ⟨v, hv, hkeeps⟩ := insertClusters_ready hne ⟨above, before, behind, below, h, hfits⟩
  rw [hu] at hv
  rw [Option.some.inj hv]
  exact hkeeps

end Commands

/-! ## Steps -/

/-- A step has a value, it leaves the frame, and where the guard holds it keeps the invariant. -/
def Good (guard : Prop) (st : EditorState) (next : Option EditorState) : Prop :=
  ∃ u, next = some u ∧ Framed u ∧ (guard → Invariant st → Stored st → Invariant u ∧ Stored u)

variable {st : EditorState}

theorem Does.good {guard : Prop} {next : Option EditorState} (h : Does guard st next)
    (hframed : Framed st) : Good guard st next := by
  obtain ⟨u, hu, hedited, hkeeps⟩ := h
  have hpos : Framed u := by
    refine ⟨?_, hedited.row, ?_, ?_, ?_⟩
    · apply List.ne_nil_of_length_pos
      have hrow := hedited.row
      omega
    · intro pos hpos
      rw [hedited.history]
      rcases hedited.recalled with ⟨hsame, -⟩ | ⟨hnone, -⟩
      · rw [hsame] at hpos
        exact hframed.pos pos hpos
      · rw [hnone] at hpos
        cases hpos
    · rw [hedited.history]
      exact hframed.bounded
    · rw [hedited.history]
      exact hframed.distinct
  refine ⟨u, hu, hpos, ?_⟩
  intro hguard hinv hstored
  obtain ⟨hwithin, hclean⟩ := hkeeps hguard
  refine ⟨⟨hpos, hclean hinv.clean, hwithin⟩, ?_, ?_⟩
  · rw [hedited.history]
    exact hstored.history
  · intro entry hentry
    rcases hedited.recalled with ⟨-, hsame⟩ | ⟨-, hnone⟩
    · rw [hsame] at hentry
      exact hstored.draft entry hentry
    · rw [hnone] at hentry
      cases hentry

theorem setText_eq (entry : Text) : setText st entry = some { st with
    lines := (cut entry).1 ++ [(cut entry).2]
    cursor := ((cut entry).1.length, graphemeCount (cut entry).2) } := by
  have hne : (splitLines entry).isEmpty = false := by
    unfold splitLines
    cases (cut entry).1 <;> rfl
  have hlength : (splitLines entry).length - 1 = (cut entry).1.length := by
    unfold splitLines
    rw [List.length_append]
    rfl
  have hline : (splitLines entry)[(cut entry).1.length]? = some (cut entry).2 := getElem?_middle
  unfold setText
  simp only [hne, Bool.false_eq_true, if_false, hlength, hline, Option.bind_eq_bind,
    Option.bind_some]
  rfl

/-- A text that is put into the editor, with another place in the history. -/
theorem setText_good {entry : Text} (h : Framed st)
    (hentry : Invariant st → Stored st → Plain entry) {historyPos : Option Nat}
    {draft : Option Text} (hpos : ∀ pos, historyPos = some pos → pos < st.history.length)
    (hdraft : Invariant st → Stored st → ∀ entry, draft = some entry → Plain entry) :
    Good True st (setText { st with historyPos, draft } entry) := by
  rw [setText_eq]
  have hrow : (cut entry).1.length < ((cut entry).1 ++ [(cut entry).2]).length := by
    rw [List.length_append]
    exact Nat.lt_succ_self _
  have hframed : Framed ⟨(cut entry).1 ++ [(cut entry).2],
      ((cut entry).1.length, graphemeCount (cut entry).2), st.history, historyPos, draft⟩ :=
    ⟨List.append_ne_nil_of_right_ne_nil _ (List.cons_ne_nil _ _), hrow, hpos, h.bounded, h.distinct⟩
  refine ⟨_, rfl, hframed, ?_⟩
  intro _ hinv hstored
  refine ⟨⟨hframed, clean_splitLines (hentry hinv hstored), ?_⟩, hstored.history,
    hdraft hinv hstored⟩
  exact within_middle (show _ = (cut entry).1 ++ (cut entry).2 :: [] from rfl) rfl (Nat.le_refl _)

/-- An entry of the history comes back. -/
theorem recallEntry_good {pos : Nat} {draft : Option Text} (h : Framed st)
    (hpos : pos < st.history.length)
    (hdraft : Invariant st → Stored st → ∀ entry, draft = some entry → Plain entry) :
    Good True st (recallEntry pos { st with draft }) := by
  have hget : st.history[pos]? = some st.history[pos] := List.getElem?_eq_getElem hpos
  unfold recallEntry
  simp only [hget, Option.bind_eq_bind, Option.bind_some]
  refine setText_good h (fun _ hstored => hstored.history _ (List.getElem_mem hpos)) ?_ hdraft
  intro p hp
  rw [← Option.some.inj hp]
  exact hpos

theorem historyPrev_good (h : Framed st) (hself : Does True st (some st)) :
    Good True st (historyPrev st) := by
  unfold historyPrev
  by_cases hempty : st.history.isEmpty = true
  · rw [if_pos hempty]
    exact hself.good h
  · rw [if_neg hempty]
    have hlength : 0 < st.history.length := by
      apply List.length_pos_iff.2
      intro hnil
      exact hempty (List.isEmpty_iff.2 hnil)
    split
    · refine recallEntry_good h (by omega) ?_
      intro hinv _ entry hentry
      rw [← Option.some.inj hentry]
      exact plain_text hinv.clean
    · rename_i pos hpos
      have hlt := h.pos pos hpos
      split_ifs
      · exact recallEntry_good h (by omega) fun _ hstored => hstored.draft
      · exact hself.good h

theorem historyNext_good (h : Framed st) (hself : Does True st (some st)) :
    Good True st (historyNext st) := by
  unfold historyNext
  split
  · exact hself.good h
  · rename_i pos hpos
    split_ifs with hlt
    · exact recallEntry_good h hlt fun _ hstored => hstored.draft
    · refine setText_good h ?_ (fun _ h => nomatch h) (fun _ _ _ h => nomatch h)
      intro _ hstored c hc
      cases hdraft : st.draft with
      | none =>
        rw [hdraft] at hc
        cases hc
      | some draft =>
        rw [hdraft] at hc
        exact hstored.draft draft hdraft c hc

theorem pushHistory_good {entry : Text} (h : Framed st) :
    Good (Plain entry) st (some (pushHistory st entry)) := by
  have hgiven : Good (Plain entry) st (some { st with historyPos := none, draft := none }) := by
    have hframed : Framed { st with historyPos := none, draft := none } :=
      ⟨h.nonempty, h.row, (fun _ hnone => nomatch hnone), h.bounded, h.distinct⟩
    refine ⟨_, rfl, hframed, ?_⟩
    intro _ hinv hstored
    exact ⟨⟨hframed, hinv.clean, hinv.column⟩, hstored.history, fun _ hnone => nomatch hnone⟩
  unfold pushHistory
  by_cases hempty : entry.isEmpty = true
  · simp only [if_pos hempty]
    exact hgiven
  · simp only [if_neg hempty]
    by_cases hlast : (st.history.getLast?.any fun last => last == entry) = true
    · rw [if_pos hlast]
      exact hgiven
    · rw [if_neg hlast]
      have hchain : (st.history ++ [entry]).IsChain (· ≠ ·) := by
        rw [List.isChain_append]
        refine ⟨h.distinct, List.isChain_singleton entry, ?_⟩
        intro last hlast' other hother heq
        rw [List.head?_cons, Option.mem_def, Option.some.injEq] at hother
        apply hlast
        rw [Option.mem_def.1 hlast', Option.any_some, heq, hother]
        exact beq_self_eq_true _
      generalize hkept : (st.history ++ [entry]).drop ((st.history ++ [entry]).length - 500) = kept
      have hframed : Framed { st with historyPos := none, draft := none, history := kept } := by
        refine ⟨h.nonempty, h.row, (fun _ hnone => nomatch hnone), ?_, ?_⟩
        · show kept.length ≤ 500
          rw [← hkept, List.length_drop]
          omega
        · show kept.IsChain (· ≠ ·)
          rw [← hkept]
          exact hchain.drop _
      refine ⟨_, rfl, hframed, ?_⟩
      intro hplain hinv hstored
      refine ⟨⟨hframed, hinv.clean, hinv.column⟩, ?_, fun _ hnone => nomatch hnone⟩
      intro other hother
      have hother' : other ∈ kept := hother
      rw [← hkept] at hother'
      rcases List.mem_append.1 (List.mem_of_mem_drop hother') with hmem | hmem
      · exact hstored.history other hmem
      · rw [List.mem_singleton.1 hmem]
        exact hplain

theorem Does.mono {guard guard' : Prop} {next : Option EditorState} (h : Does guard st next)
    (hguard : guard' → guard) : Does guard' st next := by
  obtain ⟨u, hu, hedited, hkeeps⟩ := h
  exact ⟨u, hu, hedited, fun h => hkeeps (hguard h)⟩

theorem Good.mono {guard guard' : Prop} {next : Option EditorState} (h : Good guard st next)
    (hguard : guard' → guard) : Good guard' st next := by
  obtain ⟨u, hu, hframed, hkeeps⟩ := h
  exact ⟨u, hu, hframed, fun h => hkeeps (hguard h)⟩

/-- One command that does not go through the history, from a cursor that has its exact column. -/
theorem perform_does (command : EditCommand) {above : List Text} {before behind : Text}
    {below : List Text} (h : Placed st above before behind below)
    (hhere : here st = (before, behind)) (hprev : command ≠ .historyPrev)
    (hnext : command ≠ .historyNext) :
    Does (fitsCommand st command = true) st (perform command st) := by
  cases command with
  | insert c =>
    refine (insert_does h).mono ?_
    intro hfits
    rw [fitsCommand, hhere, Bool.or_eq_true, Bool.or_eq_true, decide_eq_true_iff, or_assoc] at hfits
    exact hfits
  | insertStr s =>
    refine (insertStr_does h).mono ?_
    intro hfits
    rw [fitsCommand, hhere] at hfits
    exact hfits
  | newline => exact newline_does h.toAt
  | backspace => exact backspace_does h
  | delete => exact delete_does h
  | left => exact left_does h
  | right => exact right_does h
  | up =>
    have hrow := h.row_lt
    exact moveToRow_does (by omega)
  | down =>
    have hrow := h.row_lt
    exact moveToRow_does (by omega)
  | wordLeft => exact wordLeft_does h
  | wordRight => exact wordRight_does h
  | home => exact home_does h
  | endOfLine => exact endOfLine_does h
  | killLine => exact killLine_does h
  | killToStart => exact killToStart_does h
  | deleteWord => exact deleteWord_does h
  | clear => exact clear_does
  | historyPrev => exact absurd rfl hprev
  | historyNext => exact absurd rfl hnext

/-- One command, from a cursor that has its exact column. -/
theorem perform_good (command : EditCommand) {above : List Text} {before behind : Text}
    {below : List Text} (hframed : Framed st) (h : Placed st above before behind below)
    (hhere : here st = (before, behind)) :
    Good (fitsCommand st command = true) st (perform command st) := by
  by_cases hprev : command = .historyPrev
  · subst hprev
    exact (historyPrev_good hframed h.does_self).mono fun _ => trivial
  · by_cases hnext : command = .historyNext
    · subst hnext
      exact (historyNext_good hframed h.does_self).mono fun _ => trivial
    · exact (perform_does command h hhere hprev hnext).good hframed

theorem At.here {above : List Text} {before behind : Text} {below : List Text}
    (h : At st above before behind below) : here st = (before, behind) := by
  have hline : st.lines.getD st.cursor.1 [] = before ++ behind := by
    rw [List.getD_eq_getElem?_getD, h.getElem?]
    rfl
  unfold Editor.here divide
  rw [hline, h.col, List.drop_left]

theorem fitsCommand_congr {st' : EditorState} (h : here st = here st') (command : EditCommand) :
    fitsCommand st command = fitsCommand st' command := by
  cases command with
  | insert c => rw [fitsCommand, fitsCommand, h]
  | insertStr s => rw [fitsCommand, fitsCommand, h]
  | _ => rfl

theorem apply_good (h : Framed st) (command : EditCommand) :
    Good (fitsCommand st command = true) st (apply st command) := by
  obtain ⟨above, before, behind, below, hat⟩ := exists_at h.row
  obtain ⟨st', hst', hplaced, heq⟩ := normalise_eq hat
  have hhere : here st' = (before, behind) := hplaced.toAt.here
  have hrow := hplaced.row_lt
  have hcolumn := hplaced.within
  have hframed' : Framed st' := by
    subst heq
    exact ⟨h.nonempty, hrow, h.pos, h.bounded, h.distinct⟩
  obtain ⟨u, hu, hframed, hkeeps⟩ := perform_good command hframed' hplaced hhere
  refine ⟨u, ?_, hframed, ?_⟩
  · show (normalise st).bind (perform command) = some u
    rw [hst']
    exact hu
  · intro hfits hinv hstored
    rw [fitsCommand_congr (hat.here.trans hhere.symm)] at hfits
    apply hkeeps hfits
    · refine ⟨hframed', ?_, hcolumn⟩
      subst heq
      exact hinv.clean
    · subst heq
      exact ⟨hstored.history, hstored.draft⟩

theorem step_good (h : Framed st) (input : Input) : Good (Fits st input) st (step st input) := by
  cases input with
  | edit command => exact apply_good h command
  | push entry => exact (pushHistory_good h).mono fun hfits => plain_iff.1 hfits

theorem framed_new : Framed EditorState.new :=
  ⟨List.cons_ne_nil _ _, Nat.zero_lt_one, (fun _ hnone => nomatch hnone), Nat.zero_le _,
    List.isChain_nil⟩

theorem invariant_new : Invariant EditorState.new := by
  refine ⟨framed_new, ?_, [], rfl, Nat.zero_le _⟩
  intro line hline
  rw [List.mem_singleton.1 hline]
  exact noControl_nil

theorem stored_new : Stored EditorState.new :=
  ⟨(fun _ hentry => nomatch hentry), fun _ hnone => nomatch hnone⟩

/-! ## Runs -/

theorem run_framed {inputs : List Input} (h : Run step free EditorState.new inputs st) :
    Framed st := by
  refine Run.invariant framed_new ?_ h
  intro t input u hframed _ hstep
  obtain ⟨v, hv, hv', -⟩ := step_good hframed input
  rw [hstep] at hv
  rw [Option.some.inj hv]
  exact hv'

theorem run_invariant {inputs : List Input} (h : Run step Fits EditorState.new inputs st) :
    Invariant st ∧ Stored st := by
  refine Run.invariant (I := fun st => Invariant st ∧ Stored st) ⟨invariant_new, stored_new⟩ ?_ h
  intro t input u hinv hfits hstep
  obtain ⟨v, hv, -, hkeeps⟩ := step_good hinv.1.toFramed input
  rw [hstep] at hv
  rw [Option.some.inj hv]
  exact hkeeps hfits hinv.1 hinv.2

/-- No input is refused. -/
theorem exists_run (inputs : List Input) : ∃ st, Run step free EditorState.new inputs st := by
  induction inputs using List.reverseRecOn with
  | nil => exact ⟨_, .nil⟩
  | append_singleton inputs input ih =>
    obtain ⟨t, hrun⟩ := ih
    obtain ⟨u, hu, -⟩ := step_good (run_framed hrun) input
    exact ⟨u, .snoc hrun trivial hu⟩

/-- The editor never panics, its cursor is in a line and its history in order after any inputs, and
where all inputs fit its lines are clean and the column is one of the line. -/
theorem editor_runs (inputs : List Input) :
    (∃ st, Run step free EditorState.new inputs st) ∧
      (∀ st, Run step free EditorState.new inputs st → Framed st) ∧
      ∀ st, Run step Fits EditorState.new inputs st → Invariant st :=
  ⟨exists_run inputs, fun _ h => run_framed h, fun _ h => (run_invariant h).1⟩

/-- An accent that joins the letter before it. -/
theorem editor_runs_accented :
    ∃ st, Run step Fits EditorState.new
      [.edit (.insertStr ['e', '\u0301', '\n', 'x']), .edit .historyPrev, .push ['o', 'k'],
        .edit .historyPrev, .edit .left, .edit (.insert '!')] st ∧
      st.lines = [['o', '!', 'k']] ∧ Invariant st := by
  obtain ⟨st, hrun, htest⟩ := Run.exists_of_exec (fun st => st.lines == [['o', '!', 'k']])
    (show (exec step Fits EditorState.new
      [.edit (.insertStr ['e', '\u0301', '\n', 'x']), .edit .historyPrev, .push ['o', 'k'],
        .edit .historyPrev, .edit .left, .edit (.insert '!')]).any _ = true by decide +kernel)
  exact ⟨st, hrun, beq_iff_eq.1 htest, (editor_runs _).2.2 st hrun⟩

/-- An accent that is typed is not one more column, and a joiner takes the tab behind it into the
line. -/
theorem accent_typed :
    (¬ ∀ inputs st, Run step free EditorState.new inputs st → Within st) ∧
      ¬ ∀ inputs st, Run step free EditorState.new inputs st → Clean st.lines := by
  constructor
  · intro hall
    obtain ⟨st, hrun, htest⟩ := Run.exists_of_exec
      (fun st => st.lines == [['a', '\u0301']] && st.cursor == (0, 2))
      (show (exec step free EditorState.new
        [.edit (.insert 'a'), .edit (.insert '\u0301')]).any _ = true by decide +kernel)
    rw [Bool.and_eq_true, beq_iff_eq, beq_iff_eq] at htest
    obtain ⟨line, hline, hcol⟩ := hall _ st hrun
    rw [htest.1, htest.2] at hline
    rw [htest.2, ← Option.some.inj hline] at hcol
    exact absurd hcol (by decide +kernel)
  · intro hall
    obtain ⟨st, hrun, htest⟩ := Run.exists_of_exec
      (fun st => st.lines == [['a', '\u200D', '\t']])
      (show (exec step free EditorState.new
        [.edit (.insertStr ['a', '\u200D', '\t'])]).any _ = true by decide +kernel)
    have hclean := hall _ st hrun
    rw [beq_iff_eq.1 htest] at hclean
    have hcontrol := hclean _ (List.mem_singleton_self _) '\t' (by decide)
    exact absurd hcontrol (by decide)

end Vanyline.Editor
