import Vanyline.Cli.EditorRuns

/-!
# Typing and pasting

A text that is typed or pasted should come in at the byte position of the cursor, and the cursor
should be behind it (`Inserted`).

* The text of the editor is what is left of the cursor and what is right of it (`At.text_eq`,
  `At.position_eq`).
* `Puts` is what typing a character and pasting a grapheme have in common: the line becomes the one
  with the piece, and the cursor is at the end of the piece or behind it.  As it never comes back,
  it is behind the whole text only if it was at the end of each piece (`exists_insertion`).
* `typing_iff`: this is so where nothing is behind the cursor in its line, or where each character
  makes a grapheme of its own (`Fitting`).  Pasting also drops what joins a line break.
* What is erased always is one grapheme of a line or one line break (`backspace_erases`,
  `delete_erases`).
-/

namespace Vanyline.Editor

open Vanyline.Lib
open Vanyline.Lib.ByteOffsets (byteLen byteLen_append byteLen_pos replaceRange splitAtByte
  splitAtByte_eq_some)
open Vanyline.Lib.TextLines (unlines)
open Vanyline.Lib.Segments

/-! ## The text and the cursor -/

/-- The byte position of the cursor in the text. -/
def position (st : EditorState) : Option Nat := do
  let line ← st.lines[st.cursor.1]?
  let off ← graphemeOffset line st.cursor.2
  return byteLen (unlines (st.lines.take st.cursor.1)) + off

/-- The text came in where the cursor was, and the cursor is behind it. -/
def Inserted (st : EditorState) (s : Text) (u : EditorState) : Prop :=
  ∃ pos, position st = some pos ∧ replaceRange (text st) pos pos s = some (text u) ∧
    position u = some (pos + byteLen s)

/-- The lines below the one with the cursor, each one behind its line break. -/
def led (lines : List Text) : Text := lines.flatMap ('\n' :: ·)

theorem text_middle (above : List Text) (line : Text) (below : List Text) :
    ['\n'].intercalate (above ++ line :: below) = unlines above ++ line ++ led below := by
  have hbelow : ∀ (line : Text) (below : List Text),
      ['\n'].intercalate (line :: below) = line ++ led below := by
    intro line below
    induction below generalizing line with
    | nil =>
      rw [List.intercalate_singleton]
      exact (List.append_nil line).symm
    | cons next below ih =>
      rw [List.intercalate_cons_cons, ih, List.append_assoc]
      rfl
  induction above with
  | nil => exact hbelow line below
  | cons first above ih =>
    have hne : ∃ next rest, above ++ line :: below = next :: rest := by
      cases above with
      | nil => exact ⟨line, below, rfl⟩
      | cons next above => exact ⟨next, above ++ line :: below, rfl⟩
    obtain ⟨next, rest, hrest⟩ := hne
    rw [List.cons_append, hrest, List.intercalate_cons_cons, ← hrest, ih]
    show first ++ ['\n'] ++ (unlines above ++ line ++ led below) =
      (first ++ ['\n']) ++ unlines above ++ line ++ led below
    rw [List.append_assoc, List.append_assoc, List.append_assoc, List.append_assoc,
      List.append_assoc]

section Cursor

variable {st u : EditorState} {above above' below : List Text}
  {before before' behind behind' : Text}

theorem At.text_eq (h : At st above before behind below) :
    text st = (unlines above ++ before) ++ (behind ++ led below) := by
  unfold text
  rw [h.lines, text_middle, ← List.append_assoc, List.append_assoc, List.append_assoc]

theorem At.position_eq (h : At st above before behind below) :
    position st = some (byteLen (unlines above ++ before)) := by
  have htake : st.lines.take st.cursor.1 = above := by
    rw [h.lines, h.row, List.take_left]
  unfold position
  rw [h.getElem?, htake]
  simp only [Option.bind_eq_bind, Option.bind_some, h.offset, byteLen_append]
  rfl

theorem inserted_iff {s : Text} (h : At st above before behind below)
    (h' : At u above' before' behind' below) :
    Inserted st s u ↔ unlines above' ++ before' = unlines above ++ before ++ s ∧
      behind' ++ led below = behind ++ led below := by
  unfold Inserted
  have hreplace := replaceRange_middle (unlines above ++ before) [] (behind ++ led below) s
  rw [List.append_nil, ← h.text_eq] at hreplace
  rw [h.position_eq, h'.position_eq]
  constructor
  · rintro ⟨pos, hpos, htext, hend⟩
    rw [← Option.some.inj hpos, hreplace, h'.text_eq] at htext
    rw [← Option.some.inj hpos, ← byteLen_append] at hend
    have hsplit : splitAtByte (byteLen (unlines above ++ before ++ s)) (unlines above' ++ before' ++
        (behind' ++ led below)) = some (unlines above' ++ before', behind' ++ led below) :=
      splitAtByte_eq_some.2 ⟨rfl, Option.some.inj hend⟩
    rw [splitAtByte_eq_some.2 ⟨Option.some.inj htext, rfl⟩] at hsplit
    have hparts := Prod.mk.inj (Option.some.inj hsplit)
    exact ⟨hparts.1.symm, hparts.2.symm⟩
  · rintro ⟨hleft, hright⟩
    refine ⟨_, rfl, ?_, ?_⟩
    · rw [hreplace, h'.text_eq, hleft, hright]
    · rw [hleft, byteLen_append]

end Cursor
/-! ## Pieces -/

/-- The piece is a grapheme of its own between what is before it and what is behind it. -/
def Separate (before behind piece : Text) : Prop :=
  Apart (before ++ piece) behind ∧ graphemeCount (before ++ piece) = graphemeCount before + 1

/-- So is each of the pieces, when they come in one after the other. -/
def Fitting : Text → Text → List Text → Prop
  | _, _, [] => True
  | before, behind, piece :: more =>
    if piece = ['\n'] then Fitting [] behind more
    else Separate before behind piece ∧ Fitting (before ++ piece) behind more

/-- What is put in becomes a part of the line, and the cursor is at its end or behind that. -/
structure Puts (put : EditorState → Option EditorState) (piece : Text) : Prop where
  newline : piece = ['\n'] → ∀ {st above before behind below}, At st above before behind below →
    ∃ u, put st = some u ∧ At u (above ++ [before]) [] behind below
  inline : piece ≠ ['\n'] → ∀ {st above before behind below}, At st above before behind below →
    ∃ u before' behind', put st = some u ∧ At u above before' behind' below ∧
      before' ++ behind' = before ++ piece ++ behind ∧ before ++ piece <+: before' ∧
      (before' = before ++ piece ↔ behind = [] ∨ Separate before behind piece)

section Pieces

variable {st : EditorState} {above below : List Text} {before behind : Text}

theorem unlines_concat (above : List Text) (line : Text) :
    unlines (above ++ [line]) = unlines above ++ line ++ ['\n'] := by
  unfold unlines
  rw [List.flatMap_append, List.flatMap_singleton, List.append_assoc]

theorem newline_at (h : At st above before behind below) :
    ∃ u, applyNewline st = some u ∧ At u (above ++ [before]) [] behind below := by
  refine ⟨_, applyNewline_eq h, rfl, ?_, ?_⟩
  · rw [List.length_append]
    rfl
  · exact (apart_nil_left behind).upTo

/-- A piece that begins at most one grapheme, at the cursor. -/
theorem insertAtCursor_at {piece : Text} (hsingle : Single piece)
    (h : At st above before behind below) :
    ∃ u before' behind', insertAtCursor piece st = some u ∧ At u above before' behind' below ∧
      before' ++ behind' = before ++ piece ++ behind ∧ before ++ piece <+: before' ∧
      (before' = before ++ piece ↔ behind = [] ∨ Separate before behind piece) := by
  have hcol := (upTo_append_iff.1 h.col).2
  have hcount : graphemeCount (before ++ piece) ≤ graphemeCount before + 1 := by
    have hpiece := hsingle (scanner.after none before)
    rw [graphemeCount_eq, graphemeCount_eq, Scanner.count_append]
    omega
  have hle : graphemeCount (before ++ piece) ≤ st.cursor.2 + 1 := by
    rcases hcol with hcol | ⟨-, hcol⟩ <;> omega
  refine ⟨_, (divide (st.cursor.2 + 1) (before ++ piece ++ behind)).1,
    (divide (st.cursor.2 + 1) (before ++ piece ++ behind)).2, insertAtCursor_eq h piece, ?_,
    divide_append _ _, ?_, ?_⟩
  · refine ⟨?_, rfl, ?_⟩
    · rw [divide_append]
    · rw [divide_append]
      rfl
  · rw [graphemeCount_eq] at hle
    exact Scanner.prefix_first hle
  · show upTo (st.cursor.2 + 1) (before ++ piece ++ behind) = before ++ piece ↔ _
    rw [upTo_append_iff]
    constructor
    · rintro ⟨hapart, hcount' | ⟨hnil, -⟩⟩
      · right
        refine ⟨hapart, ?_⟩
        rcases hcol with hcol | ⟨-, hcol⟩ <;> omega
      · exact .inl hnil
    · rintro (hnil | ⟨hapart, hcount'⟩)
      · rw [hnil]
        exact ⟨apart_nil_right _, .inr ⟨rfl, hle⟩⟩
      · refine ⟨hapart, ?_⟩
        rcases hcol with hcol | ⟨hnil, -⟩
        · left
          omega
        · exact .inr ⟨hnil, hle⟩

variable {α : Type} {put : EditorState → α → Option EditorState} (piece : α → Text)

/-- The cursor never comes back, so that it is behind all pieces only if it was behind each. -/
theorem exists_insertion {xs : List α} (hputs : ∀ x ∈ xs, Puts (put · x) (piece x))
    (h : At st above before behind below) :
    ∃ u above' before' behind', xs.foldlM put st = some u ∧ At u above' before' behind' below ∧
      (unlines above' ++ before').length + behind'.length =
        (unlines above ++ before).length + (xs.flatMap piece).length + behind.length ∧
      (unlines above ++ before).length + (xs.flatMap piece).length ≤
        (unlines above' ++ before').length ∧
      (unlines above' ++ before' = unlines above ++ before ++ xs.flatMap piece ∧
          behind' = behind ↔
        behind = [] ∨ Fitting before behind (xs.map piece)) := by
  induction xs generalizing st above before behind with
  | nil =>
    refine ⟨st, above, before, behind, rfl, h, rfl, Nat.le_refl _, ?_⟩
    rw [List.flatMap_nil, List.append_nil]
    exact ⟨fun _ => .inr trivial, fun _ => ⟨rfl, rfl⟩⟩
  | cons x xs ih =>
    rw [List.forall_mem_cons] at hputs
    by_cases hnewline : piece x = ['\n']
    · obtain ⟨t, ht, hat⟩ := hputs.1.newline hnewline h
      obtain ⟨u, above', before', behind', hu, hat', htotal, hle, hiff⟩ := ih hputs.2 hat
      rw [unlines_concat, List.append_nil] at htotal hle hiff
      refine ⟨u, above', before', behind', ?_, hat', ?_, ?_, ?_⟩
      · rw [List.foldlM_cons, ht]
        exact hu
      · rw [List.flatMap_cons, hnewline]
        rw [List.length_append] at htotal ⊢
        rw [htotal]
        simp only [List.length_append]
        omega
      · rw [List.flatMap_cons, hnewline]
        simp only [List.length_append] at hle ⊢
        omega
      · rw [List.flatMap_cons, hnewline, ← List.append_assoc, hiff, List.map_cons, Fitting,
          if_pos hnewline]
    · obtain ⟨t, first, rest, ht, hat, hline, hprefix, hexact⟩ := hputs.1.inline hnewline h
      obtain ⟨u, above', before', behind', hu, hat', htotal, hle, hiff⟩ := ih hputs.2 hat
      have hlength := congrArg List.length hline
      have hfirst := hprefix.length_le
      simp only [List.length_append] at hlength hfirst htotal hle
      refine ⟨u, above', before', behind', ?_, hat', ?_, ?_, ?_⟩
      · rw [List.foldlM_cons, ht]
        exact hu
      · rw [List.flatMap_cons]
        simp only [List.length_append]
        omega
      · rw [List.flatMap_cons]
        simp only [List.length_append]
        omega
      · rw [List.flatMap_cons, List.map_cons, Fitting, if_neg hnewline]
        constructor
        · rintro ⟨hleft, hright⟩
          have hleft' := congrArg List.length hleft
          simp only [List.length_append] at hleft'
          have heq : before ++ piece x = first :=
            hprefix.eq_of_length (by rw [List.length_append]; omega)
          subst heq
          have hrest : behind = rest := (List.append_cancel_left hline).symm
          subst hrest
          have hnext := hiff.1 ⟨by rw [hleft]; simp only [List.append_assoc], hright⟩
          rcases hexact.1 rfl with hnil | hseparate
          · exact .inl hnil
          · rcases hnext with hnil | hfitting
            · exact .inl hnil
            · exact .inr ⟨hseparate, hfitting⟩
        · intro hfits
          have heq : first = before ++ piece x := hexact.2 (hfits.imp_right And.left)
          subst heq
          have hrest : behind = rest := (List.append_cancel_left hline).symm
          subst hrest
          obtain ⟨hleft, hright⟩ := hiff.2 (hfits.imp_right And.right)
          refine ⟨?_, hright⟩
          rw [hleft]
          simp only [List.append_assoc]

end Pieces

/-! ## Typing and pasting -/

/-- The characters are typed one after the other. -/
def typeAll (s : Text) (st : EditorState) : Option EditorState :=
  s.foldlM (fun st c => apply st (.insert c)) st

/-- What the loop over the pasted graphemes keeps of one. -/
def kept (g : Text) : Text := if g.head? = some '\n' then ['\n'] else g

/-- Nothing joins a line break of the text. -/
def Kept (s : Text) : Prop := ∀ g ∈ graphemes s, kept g = g

section Insertions

variable {st : EditorState} {above below : List Text} {before behind s : Text}

theorem puts_typed {c : Char} (h : c = '\n' ∨ isControl c = false) :
    Puts (fun st => apply st (.insert c)) [c] where
  newline := by
    intro heq st above before behind below hat
    obtain ⟨st', hst', hplaced, -⟩ := normalise_eq hat
    obtain ⟨u, hu, hat'⟩ := newline_at hplaced.toAt
    refine ⟨u, ?_, hat'⟩
    show (normalise st).bind (insert c) = some u
    rw [hst', (List.cons.inj heq).1]
    exact hu
  inline := by
    intro hne st above before behind below hat
    have hnewline : c ≠ '\n' := fun heq => hne (by rw [heq])
    have hcontrol : ¬ isControl c = true := by
      rw [h.resolve_left hnewline]
      exact Bool.false_ne_true
    obtain ⟨st', hst', hplaced, -⟩ := normalise_eq hat
    obtain ⟨u, before', behind', hu, hrest⟩ := insertAtCursor_at (single_char c) hplaced.toAt
    refine ⟨u, before', behind', ?_, hrest⟩
    show (normalise st).bind (insert c) = some u
    rw [hst', Option.bind_some, insert, if_neg hnewline, if_neg hcontrol]
    exact hu

theorem head_of_mem_graphemes {g : Text} (hs : Plain s) (hg : g ∈ graphemes s) :
    ∃ c rest, g = c :: rest ∧ (c = '\n' ∨ isControl c = false) ∧
      scanner.count (some (scanner.start c)) rest = 0 := by
  have hflatten := graphemes_flatten s
  have hg' := hg
  rw [graphemes_eq] at hg'
  obtain ⟨c, rest, rfl, hrest⟩ := Scanner.exists_of_mem_cut hg'
  refine ⟨c, rest, rfl, hs c ?_, hrest⟩
  rw [← hflatten]
  exact List.mem_flatten_of_mem hg List.mem_cons_self

theorem puts_pasted {g : Text} (hs : Plain s) (hg : g ∈ graphemes s) :
    Puts (insertCluster · g) (kept g) := by
  have hsingle := single_of_mem_graphemes hg
  obtain ⟨c, rest, rfl, hc, -⟩ := head_of_mem_graphemes hs hg
  have hne : c :: rest ≠ [] := List.cons_ne_nil c rest
  by_cases hnewline : c = '\n'
  · have hkept : kept (c :: rest) = ['\n'] := if_pos (congrArg some hnewline)
    rw [hkept]
    refine ⟨?_, fun h => absurd rfl h⟩
    intro _ st above before behind below hat
    obtain ⟨u, hu, hat'⟩ := newline_at hat
    refine ⟨u, ?_, hat'⟩
    have hhead : (c :: rest).head? = some '\n' := congrArg some hnewline
    rw [insertCluster_eq hne, if_pos hhead]
    exact hu
  · have hhead : ¬ (c :: rest).head? = some '\n' := fun h => hnewline (Option.some.inj h)
    have hkept : kept (c :: rest) = c :: rest := if_neg hhead
    have hpiece : pieceOf (c :: rest) = c :: rest := by
      apply if_neg
      rw [List.head?_cons, Option.any_some, hc.resolve_left hnewline]
      exact Bool.false_ne_true
    rw [hkept]
    refine ⟨fun h => absurd (List.cons.inj h).1 hnewline, ?_⟩
    intro _ st above before behind below hat
    obtain ⟨u, before', behind', hu, hrest⟩ := insertAtCursor_at hsingle hat
    refine ⟨u, before', behind', ?_, hrest⟩
    rw [insertCluster_eq hne, if_neg hhead, hpiece, if_neg hne]
    exact hu

/-- The whole text comes in where each piece fits. -/
theorem inserted_iff_parts {u : EditorState} {above' : List Text} {before' behind' : Text}
    (h : At st above before behind below) (h' : At u above' before' behind' below) :
    Inserted st s u ↔ unlines above' ++ before' = unlines above ++ before ++ s ∧
      behind' = behind := by
  rw [inserted_iff h h']
  refine and_congr_right fun _ => ?_
  exact ⟨List.append_cancel_right, congrArg (· ++ led below)⟩

theorem typing_inserts (hs : Plain s) (h : At st above before behind below) :
    ∃ u, typeAll s st = some u ∧
      (Inserted st s u ↔ behind = [] ∨ Fitting before behind (s.map ([·]))) := by
  obtain ⟨u, above', before', behind', hu, hat, -, -, hiff⟩ :=
    exists_insertion ([·]) (fun c hc => puts_typed (hs c hc)) h
  have hpieces : s.flatMap ([·]) = s := List.flatMap_singleton' s
  rw [hpieces] at hiff
  refine ⟨u, hu, ?_⟩
  rw [inserted_iff_parts h hat]
  exact hiff

theorem kept_lengths {gs : List Text} (h : ∀ g ∈ gs, g ≠ []) :
    (gs.flatMap kept).length ≤ gs.flatten.length ∧
      ((gs.flatMap kept).length = gs.flatten.length → ∀ g ∈ gs, kept g = g) := by
  have hone : ∀ g : Text, g ≠ [] → (kept g).length ≤ g.length ∧
      ((kept g).length = g.length → kept g = g) := by
    intro g hne
    unfold kept
    by_cases hhead : g.head? = some '\n'
    · rw [if_pos hhead]
      rcases g with - | ⟨c, rest⟩
      · exact absurd rfl hne
      · rw [List.head?_cons, Option.some_inj] at hhead
        rw [hhead, List.length_singleton, List.length_cons]
        refine ⟨by omega, ?_⟩
        intro hlength
        rw [List.length_eq_zero_iff.1 (show rest.length = 0 by omega)]
    · rw [if_neg hhead]
      exact ⟨Nat.le_refl _, fun _ => rfl⟩
  induction gs with
  | nil => exact ⟨Nat.le_refl _, fun _ _ hg => nomatch hg⟩
  | cons g gs ih =>
    rw [List.forall_mem_cons] at h
    obtain ⟨hle, hall⟩ := ih h.2
    obtain ⟨hle', hall'⟩ := hone g h.1
    rw [List.flatMap_cons, List.flatten_cons, List.length_append, List.length_append]
    refine ⟨by omega, ?_⟩
    intro hlength
    rw [List.forall_mem_cons]
    exact ⟨hall' (by omega), hall (by omega)⟩

theorem pasting_inserts (hs : Plain s) (h : At st above before behind below) :
    ∃ u, apply st (.insertStr s) = some u ∧
      (Inserted st s u ↔ Kept s ∧ (behind = [] ∨ Fitting before behind (graphemes s))) := by
  have hne : ∀ g ∈ graphemes s, g ≠ [] := by
    intro g hg
    obtain ⟨c, rest, rfl, -⟩ := head_of_mem_graphemes hs hg
    exact List.cons_ne_nil c rest
  obtain ⟨st', hst', hplaced, -⟩ := normalise_eq h
  obtain ⟨u, above', before', behind', hu, hat, htotal, -, hiff⟩ :=
    exists_insertion kept (fun g hg => puts_pasted hs hg) hplaced.toAt
  have hkept : Kept s → (graphemes s).flatMap kept = s ∧ (graphemes s).map kept = graphemes s := by
    intro hall
    have hmap : (graphemes s).map kept = graphemes s := by
      conv_rhs => rw [← List.map_id (graphemes s)]
      exact List.map_congr_left hall
    refine ⟨?_, hmap⟩
    rw [List.flatMap_def, hmap, graphemes_flatten]
  refine ⟨u, ?_, ?_⟩
  · show (normalise st).bind (insertStr s) = some u
    rw [hst']
    exact hu
  · rw [inserted_iff_parts h hat]
    constructor
    · intro hparts
      have hall : Kept s := by
        apply (kept_lengths hne).2
        rw [hparts.1, hparts.2, List.length_append] at htotal
        rw [graphemes_flatten]
        omega
      rw [(hkept hall).1, (hkept hall).2] at hiff
      exact ⟨hall, hiff.1 hparts⟩
    · rintro ⟨hall, hfits⟩
      rw [(hkept hall).1, (hkept hall).2] at hiff
      exact hiff.2 hfits

theorem newline_begins (regional : Bool) :
    scanner.begins (some (.first regional)) '\n' = true := by
  cases regional <;> decide

/-- Where each character fits, each grapheme is one. -/
theorem Fitting.graphemes {gs : List Text}
    (hgs : ∀ g ∈ gs, ∃ c rest, g = c :: rest ∧ scanner.count (some (scanner.start c)) rest = 0)
    (hkept : ∀ g ∈ gs, kept g = g) (h : Fitting before behind (gs.flatten.map ([·]))) :
    Fitting before behind gs := by
  induction gs generalizing before with
  | nil => exact trivial
  | cons g gs ih =>
    rw [List.forall_mem_cons] at hgs hkept
    obtain ⟨⟨c, rest, rfl, hrest⟩, hgs⟩ := hgs
    rw [List.flatten_cons, List.cons_append, List.map_cons, Fitting] at h
    have hrest : rest = [] := by
      by_cases hnewline : c = '\n'
      · have hhead : kept (c :: rest) = ['\n'] := if_pos (congrArg some hnewline)
        rw [hkept.1] at hhead
        exact (List.cons.inj hhead).2
      · rw [if_neg fun heq => hnewline (List.cons.inj heq).1] at h
        have hcount := h.1.2
        rw [graphemeCount_eq, graphemeCount_eq, Scanner.count_append, Scanner.count_singleton]
          at hcount
        have hbegins : scanner.begins (scanner.after none before) c = true := by
          by_contra hjoins
          rw [if_neg hjoins] at hcount
          omega
        have hafter : scanner.after none (before ++ [c]) = some (scanner.start c) := by
          rw [Scanner.after_append, Scanner.after_cons, Scanner.next_of_begins hbegins]
          rfl
        cases rest with
        | nil => rfl
        | cons d rest =>
          have hjoins : ¬ scanner.begins (some (scanner.start c)) d = true := by
            intro hbegins'
            rw [Scanner.count, if_pos hbegins'] at hrest
            omega
          have hd : d ≠ '\n' := by
            intro heq
            rw [heq] at hjoins
            exact hjoins (newline_begins (isRegional c))
          have hnext := h.2
          rw [List.cons_append, List.map_cons, Fitting,
            if_neg fun heq => hd (List.cons.inj heq).1] at hnext
          have hcount' := hnext.1.2
          rw [graphemeCount_eq, graphemeCount_eq, Scanner.count_append (before ++ [c]), hafter,
            Scanner.count_singleton, if_neg hjoins] at hcount'
          omega
    subst hrest
    rw [Fitting]
    rw [List.nil_append] at h
    split_ifs at h ⊢
    · exact ih hgs hkept.2 h
    · exact ⟨h.1, ih hgs hkept.2 h.2⟩

end Insertions

/-! ## Erasing -/

/-- The graphemes of the lines and the line breaks between them. -/
def units : List Text → List Text
  | [] => []
  | [line] => graphemes line
  | line :: rest => graphemes line ++ ['\n'] :: units rest

/-- The unit before the cursor is taken out of the text, and nothing else. -/
def ErasesBefore (st u : EditorState) : Prop :=
  ∃ left g right, units st.lines = left ++ g :: right ∧
    position st = some (byteLen (left.flatten ++ g)) ∧ text u = left.flatten ++ right.flatten

/-- Backspace erases the unit before the cursor, or nothing at the start of the text. -/
def BackspaceErases (st : EditorState) : Prop :=
  ∃ u, apply st .backspace = some u ∧
    (ErasesBefore st u ∨ position st = some 0 ∧ text u = text st)

/-- After a step to the left, Delete erases that unit too, or the first one of the text. -/
def DeleteErases (st : EditorState) : Prop :=
  ∃ t u, apply st .left = some t ∧ apply t .delete = some u ∧
    (ErasesBefore st u ∨ position st = some 0 ∧ text u = (units st.lines).tail.flatten)

def unitsAbove (lines : List Text) : List Text :=
  lines.flatMap fun line => graphemes line ++ [['\n']]

def unitsBelow (lines : List Text) : List Text :=
  lines.flatMap fun line => ['\n'] :: graphemes line

theorem units_middle (above : List Text) (line : Text) (below : List Text) :
    units (above ++ line :: below) = unitsAbove above ++ (graphemes line ++ unitsBelow below) := by
  have hbelow : ∀ (line : Text) (below : List Text),
      units (line :: below) = graphemes line ++ unitsBelow below := by
    intro line below
    induction below generalizing line with
    | nil => exact (List.append_nil _).symm
    | cons next below ih =>
      rw [units, ih]
      · rfl
      · exact List.cons_ne_nil next below
  induction above with
  | nil => exact hbelow line below
  | cons first above ih =>
    rw [List.cons_append, units, ih]
    · show graphemes first ++ ['\n'] :: (unitsAbove above ++ _) =
        ((graphemes first ++ [['\n']]) ++ unitsAbove above) ++ _
      rw [List.append_assoc, List.append_assoc]
      rfl
    · exact List.append_ne_nil_of_right_ne_nil _ (List.cons_ne_nil line below)

theorem flatten_unitsAbove (lines : List Text) : (unitsAbove lines).flatten = unlines lines := by
  induction lines with
  | nil => rfl
  | cons line lines ih =>
    show ((graphemes line ++ [['\n']]) ++ unitsAbove lines).flatten =
      (line ++ ['\n']) ++ unlines lines
    rw [List.flatten_append, ih, List.flatten_append, graphemes_flatten, List.flatten_singleton]

theorem flatten_unitsBelow (lines : List Text) : (unitsBelow lines).flatten = led lines := by
  induction lines with
  | nil => rfl
  | cons line lines ih =>
    show ((['\n'] :: graphemes line) ++ unitsBelow lines).flatten = ('\n' :: line) ++ led lines
    rw [List.flatten_append, ih, List.flatten_cons, graphemes_flatten]
    rfl

section Erasing

variable {st u : EditorState} {above below : List Text} {before behind : Text}

/-- A grapheme of the line is gone. -/
theorem erases_grapheme {first g : Text} (h : At st above (first ++ g) behind below)
    (hgraphemes : graphemes (first ++ (g ++ behind)) = graphemes first ++ g :: graphemes behind)
    (hu : u.lines = above ++ (first ++ behind) :: below) : ErasesBefore st u := by
  refine ⟨unitsAbove above ++ graphemes first, g, graphemes behind ++ unitsBelow below, ?_, ?_, ?_⟩
  · rw [h.lines, units_middle, List.append_assoc, hgraphemes, List.append_assoc, List.append_assoc]
    rfl
  · rw [h.position_eq, List.flatten_append, flatten_unitsAbove, graphemes_flatten,
      List.append_assoc]
  · unfold text
    rw [hu, text_middle, List.flatten_append, List.flatten_append, flatten_unitsAbove,
      flatten_unitsBelow, graphemes_flatten, graphemes_flatten]
    simp only [List.append_assoc]

/-- A line break is gone. -/
theorem erases_break {prev : Text} (h : At st (above ++ [prev]) [] behind below)
    (hu : u.lines = above ++ (prev ++ behind) :: below) : ErasesBefore st u := by
  refine ⟨unitsAbove above ++ graphemes prev, ['\n'], graphemes behind ++ unitsBelow below, ?_, ?_,
    ?_⟩
  · rw [h.lines, units_middle, unitsAbove, List.flatMap_append, List.flatMap_singleton]
    simp only [List.append_assoc]
    rfl
  · rw [h.position_eq, List.append_nil, unlines_concat, List.flatten_append, flatten_unitsAbove,
      graphemes_flatten]
  · unfold text
    rw [hu, text_middle, List.flatten_append, List.flatten_append, flatten_unitsAbove,
      flatten_unitsBelow, graphemes_flatten, graphemes_flatten]
    simp only [List.append_assoc]

theorem position_start (h : At st [] [] behind below) : position st = some 0 := h.position_eq

theorem backspace_erases (h : At st above before behind below) : BackspaceErases st := by
  obtain ⟨st', hst', hplaced, heq⟩ := normalise_eq h
  have happly : apply st .backspace = backspace st' := by
    show (normalise st).bind backspace = _
    rw [hst']
    rfl
  unfold BackspaceErases
  rw [happly]
  by_cases hbefore : before = []
  · subst hbefore
    rcases List.eq_nil_or_concat' above with rfl | ⟨above, prev, rfl⟩
    · refine ⟨st', backspace_start hplaced, .inr ⟨position_start h, ?_⟩⟩
      rw [hplaced.toAt.text_eq, h.text_eq]
    · exact ⟨_, backspace_line hplaced, .inl (erases_break h rfl)⟩
  · obtain ⟨first, g, rfl, hapart, hcount, hgraphemes⟩ := exists_last_grapheme h.apart hbefore
    exact ⟨_, backspace_grapheme hplaced hapart hcount, .inl (erases_grapheme h hgraphemes rfl)⟩

/-- A command after the cursor was moved. -/
theorem apply_moved (command : EditCommand) {t : EditorState}
    (h : Placed t above before behind below) :
    ∃ t', apply t command = perform command t' ∧ Placed t' above before behind below := by
  obtain ⟨t', ht', hplaced, -⟩ := normalise_eq h.toAt
  refine ⟨t', ?_, hplaced⟩
  show (normalise t).bind (perform command) = _
  rw [ht']
  rfl

theorem delete_erases (h : At st above before behind below) : DeleteErases st := by
  obtain ⟨st', hst', hplaced, heq⟩ := normalise_eq h
  have happly : apply st .left = left st' := by
    show (normalise st).bind left = _
    rw [hst']
    rfl
  unfold DeleteErases
  rw [happly]
  by_cases hbefore : before = []
  · subst hbefore
    rcases List.eq_nil_or_concat' above with rfl | ⟨above, prev, rfl⟩
    · obtain ⟨t, ht, hmoved⟩ := apply_moved .delete hplaced
      have hunits := units_middle [] ([] ++ behind) below
      rw [← h.lines] at hunits
      by_cases hbehind : behind = []
      · subst hbehind
        cases below with
        | nil =>
          refine ⟨st', t, left_start hplaced, ht.trans (delete_end hmoved), .inr
            ⟨position_start h, ?_⟩⟩
          rw [hunits, hmoved.toAt.text_eq]
          rfl
        | cons next below =>
          refine ⟨st', _, left_start hplaced, ht.trans (delete_line hmoved), .inr
            ⟨position_start h, ?_⟩⟩
          rw [hunits]
          unfold text
          rw [text_middle]
          show _ = (graphemes next ++ unitsBelow below).flatten
          rw [List.flatten_append, graphemes_flatten, flatten_unitsBelow]
          rfl
      · obtain ⟨g, rest, rfl, hapart, hcount, hgraphemes⟩ := exists_grapheme h.apart hbehind
        refine ⟨st', _, left_start hplaced, ht.trans (delete_grapheme hmoved hapart hcount), .inr
          ⟨position_start h, ?_⟩⟩
        rw [hunits, hgraphemes]
        unfold text
        rw [text_middle]
        show _ = (graphemes rest ++ unitsBelow below).flatten
        rw [List.flatten_append, graphemes_flatten, flatten_unitsBelow]
        rfl
    · have hlines : st'.lines = above ++ (prev ++ []) :: behind :: below := by
        rw [hplaced.lines, List.append_assoc, List.append_nil]
        rfl
      have hleft : Placed { st' with cursor := (above.length, graphemeCount prev) } above prev []
          (behind :: below) := Placed.of_apart hlines rfl (apart_nil_right prev)
      obtain ⟨t, ht, hmoved⟩ := apply_moved .delete hleft
      exact ⟨_, _, left_line hplaced, ht.trans (delete_line hmoved), .inl (erases_break h rfl)⟩
  · obtain ⟨first, g, rfl, hapart, hcount, hgraphemes⟩ := exists_last_grapheme h.apart hbefore
    have hlines : st'.lines = above ++ (first ++ (g ++ behind)) :: below := by
      rw [hplaced.lines, List.append_assoc]
    have hleft : Placed { st' with cursor := (above.length, graphemeCount first) } above first
        (g ++ behind) below := Placed.of_apart hlines rfl hapart
    obtain ⟨t, ht, hmoved⟩ := apply_moved .delete hleft
    exact ⟨_, _, left_grapheme hplaced hcount, ht.trans (delete_grapheme hmoved h.apart hcount),
      .inl (erases_grapheme h hgraphemes rfl)⟩

end Erasing

/-! ## The result -/

/-- Typing and pasting insert the text at the cursor, and what is erased is one unit. -/
structure TypingInserts (st : EditorState) (s : Text) : Prop where
  typed : ∃ u, typeAll s st = some u ∧ Inserted st s u
  pasted : ∃ u, apply st (.insertStr s) = some u ∧ Inserted st s u
  backspace : BackspaceErases st
  delete : DeleteErases st

/-- Typing and pasting a text are its insertion at the cursor exactly when nothing joins a line
break of it, and either nothing is behind the cursor in its line or each character that comes in is
a grapheme of its own. -/
theorem typing_iff {inputs : List Input} {st : EditorState} {s : Text}
    (h : Run step free EditorState.new inputs st) (hs : Plain s) :
    TypingInserts st s ↔
      Kept s ∧ ((here st).2 = [] ∨ Fitting (here st).1 (here st).2 (s.map ([·]))) := by
  obtain ⟨above, before, behind, below, hat⟩ := exists_at (run_framed h).row
  rw [hat.here]
  obtain ⟨t, ht, htyped⟩ := typing_inserts hs hat
  obtain ⟨u, hu, hpasted⟩ := pasting_inserts hs hat
  constructor
  · intro hinserts
    obtain ⟨t', ht', hinserted⟩ := hinserts.typed
    obtain ⟨u', hu', hinserted'⟩ := hinserts.pasted
    rw [ht] at ht'
    rw [hu] at hu'
    rw [← Option.some.inj ht'] at hinserted
    rw [← Option.some.inj hu'] at hinserted'
    exact ⟨(hpasted.1 hinserted').1, htyped.1 hinserted⟩
  · rintro ⟨hkept, hfits⟩
    refine ⟨⟨t, ht, htyped.2 hfits⟩, ⟨u, hu, hpasted.2 ⟨hkept, ?_⟩⟩, backspace_erases hat,
      delete_erases hat⟩
    refine hfits.imp_right fun hfitting => Fitting.graphemes ?_ hkept ?_
    · intro g hg
      obtain ⟨c, rest, heq, -, hrest⟩ := head_of_mem_graphemes hs hg
      exact ⟨c, rest, heq, hrest⟩
    · rw [graphemes_flatten]
      exact hfitting

theorem typing_iff_twoLines :
    ∃ st, Run step free EditorState.new [.edit (.insert 'b'), .edit .home] st ∧
      TypingInserts st ['a', '\n', 'c'] := by
  have hrun : Run step free EditorState.new [.edit (.insert 'b'), .edit .home]
      ⟨[['b']], (0, 0), [], none, none⟩ := Run.of_exec (by decide +kernel)
  refine ⟨_, hrun, (typing_iff hrun (plain_iff.1 (by decide))).2 ⟨?_, .inr ?_⟩⟩
  · unfold Kept
    decide +kernel
  · show Fitting [] ['b'] [['a'], ['\n'], ['c']]
    have hlast : Fitting [] ['b'] [['c']] := ⟨⟨by unfold Apart; decide, by decide⟩, trivial⟩
    exact ⟨⟨by unfold Apart; decide, by decide⟩, hlast⟩

/-- Before a letter, a word with an accent is typed around it. -/
theorem typed_around : ¬ ∀ (inputs : List Input) (st : EditorState) (s : Text),
    Run step free EditorState.new inputs st → Plain s → TypingInserts st s := by
  intro hall
  have hrun : Run step free EditorState.new [.edit (.insert 'b'), .edit .home]
      ⟨[['b']], (0, 0), [], none, none⟩ := Run.of_exec (by decide +kernel)
  obtain ⟨u, hu, pos, hpos, htext, -⟩ :=
    (hall _ _ ['e', '\u0301', 'x'] hrun (plain_iff.1 (by decide))).typed
  have htyped : typeAll ['e', '\u0301', 'x'] ⟨[['b']], (0, 0), [], none, none⟩ =
      some ⟨[['e', '\u0301', 'b', 'x']], (0, 3), [], none, none⟩ := by decide +kernel
  rw [htyped] at hu
  have hzero : position ⟨[['b']], (0, 0), [], none, none⟩ = some 0 := by decide +kernel
  rw [hzero] at hpos
  rw [← Option.some.inj hpos, ← Option.some.inj hu] at htext
  exact absurd htext (by decide +kernel)

end Vanyline.Editor
