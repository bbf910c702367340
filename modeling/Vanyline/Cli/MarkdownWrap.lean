import Vanyline.Cli.EditorView

/-!
# Lines of rendered Markdown

The answer of an agent is rendered to lines of styled spans.  `wrapSpans` wraps a paragraph word by
word and cuts words that are too long, `hardSplit` cuts the lines of a code block, and `clipAll`
takes the spans away from a line that is still too wide.

* The width of a character is a parameter, as for the editor.
* `clipAll_flush`: of a paragraph without wide graphemes nothing is clipped, and every character
  but the spaces is shown, in order and in its style.
* `clipAll_flushCode`: of a code block whose graphemes leave room for the mark of continuation
  nothing is clipped either, and the lines of the code can be read back.
-/

namespace Vanyline.Markdown

open Vanyline.Editor (Text graphemes graphemes_eq graphemes_flatten displayWidth
  displayWidth_append displayWidth_flatten)
open Vanyline.Lib.RowFilling (load)
open Vanyline.Lib.Segments

structure Span (σ : Type) where
  content : Text
  style : σ

abbrev Line (σ : Type) := List (Span σ)

/-! ## Graphemes -/

theorem ne_nil_of_mem_graphemes {s g : Text} (h : g ∈ graphemes s) : g ≠ [] := by
  rw [graphemes_eq] at h
  exact Scanner.ne_nil_of_mem_cut h

theorem graphemes_ne_nil {s : Text} (h : s ≠ []) : graphemes s ≠ [] := by
  intro hnil
  apply h
  rw [← graphemes_flatten s, hnil, List.flatten_nil]

theorem length_head_graphemes {s : Text} (h : s ≠ []) :
    0 < ((graphemes s).head?.getD []).length := by
  obtain ⟨g, gs, hgs⟩ := List.exists_cons_of_ne_nil (graphemes_ne_nil h)
  rw [hgs, List.head?_cons, Option.getD_some]
  exact List.length_pos_iff.2 (ne_nil_of_mem_graphemes (hgs ▸ List.mem_cons_self))

/-- What is left behind some graphemes has the other ones. -/
theorem graphemes_drop (s : Text) (k : Nat) :
    graphemes ((graphemes s).drop k).flatten = (graphemes s).drop k := by
  have hdrop : ∀ gs : List Text, Editor.scanner.segments gs.flatten = gs →
      ∀ k, Editor.scanner.segments (gs.drop k).flatten = gs.drop k := by
    intro gs hgs k
    induction gs generalizing k with
    | nil =>
        rw [List.drop_nil]
        exact hgs
    | cons g gs ih =>
        cases k with
        | zero => exact hgs
        | succ k => exact ih (Scanner.segments_tail hgs) k
  rw [graphemes_eq, graphemes_eq]
  exact hdrop _ (by rw [Scanner.flatten_segments]) k

section Rendering

variable {σ : Type} (charWidth : Char → Nat) (width : Nat)

def lineWidth (line : Line σ) : Nat :=
  (line.map fun span => displayWidth charWidth span.content).sum

/-! ## Clipping -/

/-- The graphemes that fit into the room, behind `used` columns. -/
def fitting (room : Nat) : Nat → List Text → List Text
  | _, [] => []
  | used, g :: gs =>
    let gw := displayWidth charWidth g
    if room < used + gw then [] else g :: fitting room (used + gw) gs

/-- The spans up to the first one with a grapheme that does not fit. -/
def clipSpans : Nat → Line σ → Line σ
  | _, [] => []
  | used, span :: spans =>
    let gs := graphemes span.content
    let piece := fitting charWidth width used gs
    if piece.length < gs.length then []
    else
      ⟨piece.flatten, span.style⟩ ::
        clipSpans (used + (piece.map (displayWidth charWidth)).sum) spans

def clipAll (lines : List (Line σ)) : List (Line σ) :=
  lines.map fun line =>
    if lineWidth charWidth line ≤ width then line else clipSpans charWidth width 0 line

/-! ## Code blocks -/

/-- The loop of `hard_split`: the pieces that are done, and the present one with its width. -/
def splitStep : List Text × Text × Nat → Text → List Text × Text × Nat
  | (out, cur, w), g =>
    let gw := displayWidth charWidth g
    if width < w + gw ∧ 0 < w then (out ++ [cur], g, gw) else (out, cur ++ g, w + gw)

def hardSplit (s : Text) : List Text :=
  if width = 0 then [[]]
  else
    let (out, cur, _) := (graphemes s).foldl (splitStep charWidth width) ([], [], 0)
    out ++ [cur]

/-- The pieces of a line of code, with a mark before those that go on. -/
def codeLines (style : σ) (raw : Text) : List (Line σ) :=
  if raw = [] then [[⟨[], style⟩]]
  else
    match hardSplit charWidth (max (width - 1) 1) raw with
    | [] => []
    | first :: more => [⟨first, style⟩] :: more.map fun piece => [⟨'↩' :: piece, style⟩]

/-- What `flush_code` adds to the lines. -/
def flushCode (style : σ) (lang buf : Text) : List (Line σ) :=
  (if lang = [] then [] else [[⟨"``` ".toList ++ lang, style⟩]]) ++
    (buf.splitOn '\n').flatMap (codeLines charWidth width style)

/-! ## Paragraphs -/

/-- The lines that are done, and the present one with its width. -/
structure Wrapping (σ : Type) where
  lines : List (Line σ)
  cur : Line σ
  curW : Nat

namespace Wrapping

def flushLine (s : Wrapping σ) : Wrapping σ where
  lines := s.lines ++ [s.cur.filter fun span => span.content ≠ []]
  cur := []
  curW := 0

def push (s : Wrapping σ) (content : Text) (style : σ) : Wrapping σ :=
  { s with cur := s.cur ++ [⟨content, style⟩] }

end Wrapping

/-- The loop over what is left of a word. -/
def wrapRest (hwidth : 0 < width) (style : σ) (s : Wrapping σ) (rest : Text) : Wrapping σ :=
  if rest = [] then s
  else
    let gs := graphemes rest
    let restW := (gs.map (displayWidth charWidth)).sum
    if s.curW + restW ≤ width then { s.push rest style with curW := s.curW + restW }
    else
      let room := width - s.curW
      if room = 0 then wrapRest hwidth style s.flushLine rest
      else
        let head := (fitting charWidth room 0 gs).flatten
        if head = [] then
          let g := gs.head?.getD []
          wrapRest hwidth style (s.push g style).flushLine (rest.drop g.length)
        else wrapRest hwidth style (s.push head style).flushLine (rest.drop head.length)
termination_by (rest.length, s.curW)
decreasing_by
  · apply Prod.Lex.right
    show 0 < s.curW
    omega
  · apply Prod.Lex.left
    have hrest : rest ≠ [] := ‹_›
    have hlength := length_head_graphemes hrest
    have hpos := List.length_pos_iff.2 hrest
    rw [List.length_drop]
    omega
  · apply Prod.Lex.left
    have hlength :
        0 < (fitting charWidth (width - s.curW) 0 (graphemes rest)).flatten.length :=
      List.length_pos_iff.2 ‹_›
    have hpos : 0 < rest.length := List.length_pos_iff.2 ‹_›
    rw [List.length_drop]
    omega

def wrapWord (hwidth : 0 < width) (style : σ) (first : Bool) (s : Wrapping σ) (word : Text) :
    Wrapping σ :=
  if word = [] then
    if 0 < s.curW ∧ s.curW < width then { s.push [' '] style with curW := s.curW + 1 } else s
  else
    wrapRest charWidth width hwidth style (if !first ∧ 0 < s.curW then s.flushLine else s) word

def wrapSpan (hwidth : 0 < width) (s : Wrapping σ) (span : Span σ) : Wrapping σ :=
  match span.content.splitOn ' ' with
  | [] => s
  | word :: words =>
    words.foldl (wrapWord charWidth width hwidth span.style false)
      (wrapWord charWidth width hwidth span.style true s word)

def wrapSpans (spans : Line σ) : List (Line σ) :=
  if hwidth : 0 < width then
    let s := spans.foldl (wrapSpan charWidth width hwidth) ⟨[], [], 0⟩
    let lines := if s.cur = [] then s.lines else s.flushLine.lines
    if lines = [] then [[]] else lines
  else []

/-- A line behind a prefix, which has a style of its own if it is a bullet. -/
def prefixed (bullet text : σ) (start : Text) (line : Line σ) : Line σ :=
  (if start = [] then [] else [⟨start, if '•' ∈ start then bullet else text⟩]) ++ line

/-- The first line comes behind the prefix, the other ones behind that of continuation. -/
def prefixAll (bullet text : σ) (pre cont : Text) : List (Line σ) → List (Line σ)
  | [] => []
  | first :: more => prefixed bullet text pre first :: more.map (prefixed bullet text cont)

/-- What `flush` adds to the lines. -/
def flush (bullet text : σ) (pre cont : Text) (spans : Line σ) : List (Line σ) :=
  if spans = [] then []
  else
    prefixAll bullet text pre cont
      (wrapSpans charWidth (max (width - displayWidth charWidth pre) 1) spans)

end Rendering

/-! ## What fits -/

section Fitting

variable {σ : Type} {charWidth : Char → Nat} {width : Nat}

theorem exists_fitting (charWidth : Char → Nat) (room used : Nat) (gs : List Text) :
    ∃ k, fitting charWidth room used gs = gs.take k ∧
      (used ≤ room → used + ((gs.take k).map (displayWidth charWidth)).sum ≤ room) ∧
      ∀ g, gs[k]? = some g →
        room < used + ((gs.take k).map (displayWidth charWidth)).sum +
          displayWidth charWidth g := by
  induction gs generalizing used with
  | nil => exact ⟨0, rfl, fun h => h, fun g hg => nomatch hg⟩
  | cons g gs ih =>
      by_cases hfit : room < used + displayWidth charWidth g
      · refine ⟨0, if_pos hfit, fun h => h, fun g' hg' => ?_⟩
        obtain rfl := Option.some.inj hg'
        exact hfit
      · obtain ⟨k, hk, hle, hnext⟩ := ih (used + displayWidth charWidth g)
        refine ⟨k + 1, ?_, fun _ => ?_, fun g' hg' => ?_⟩
        · rw [fitting, if_neg hfit, hk, List.take_succ_cons]
        · have hsum := hle (by omega)
          rw [List.take_succ_cons, List.map_cons, List.sum_cons]
          omega
        · have hsum := hnext g' hg'
          rw [List.take_succ_cons, List.map_cons, List.sum_cons]
          omega

theorem lineWidth_append (front back : Line σ) :
    lineWidth charWidth (front ++ back) = lineWidth charWidth front + lineWidth charWidth back := by
  rw [lineWidth, List.map_append, List.sum_append]
  rfl

theorem clipAll_eq_self {lines : List (Line σ)}
    (h : ∀ line ∈ lines, lineWidth charWidth line ≤ width) :
    clipAll charWidth width lines = lines := by
  conv_rhs => rw [← List.map_id lines]
  exact List.map_congr_left fun line hline => if_pos (h line hline)

/-- Whatever the lines are, none is wider than the screen when it is clipped. -/
theorem lineWidth_clipAll (lines : List (Line σ)) :
    ∀ line ∈ clipAll charWidth width lines, lineWidth charWidth line ≤ width := by
  have hclip : ∀ (line : Line σ) (used : Nat), used ≤ width →
      used + lineWidth charWidth (clipSpans charWidth width used line) ≤ width := by
    intro line
    induction line with
    | nil => exact fun used h => h
    | cons span spans ih =>
        intro used hused
        obtain ⟨k, hk, hle, -⟩ :=
          exists_fitting charWidth width used (graphemes span.content)
        rw [clipSpans]
        split_ifs
        · exact hused
        · rw [hk]
          have hspans := ih _ (hle hused)
          have hpiece : displayWidth charWidth ((graphemes span.content).take k).flatten =
              (((graphemes span.content).take k).map (displayWidth charWidth)).sum := by
            rw [displayWidth_flatten]
            rfl
          show used + (displayWidth charWidth _ + lineWidth charWidth _) ≤ width
          rw [hpiece]
          omega
  intro line hline
  obtain ⟨old, -, rfl⟩ := List.mem_map.1 hline
  split_ifs with hfit
  · exact hfit
  · have hclipped := hclip old 0 (Nat.zero_le _)
    rw [Nat.zero_add] at hclipped
    exact hclipped

theorem lineWidth_clipAll_second :
    lineWidth (fun _ => 1) [⟨"ab".toList, true⟩] ≤ 3 :=
  lineWidth_clipAll [[⟨"ab".toList, true⟩, ⟨"cd".toList, true⟩]] _
    (List.mem_map.2 ⟨_, List.mem_singleton_self _, rfl⟩)

/-- What is left of a text behind its first graphemes. -/
theorem take_append_drop_graphemes (rest : Text) (k : Nat) :
    ((graphemes rest).take k).flatten ++ ((graphemes rest).drop k).flatten = rest := by
  rw [← List.flatten_append, List.take_append_drop, graphemes_flatten]

theorem sum_graphemes (rest : Text) :
    ((graphemes rest).map (displayWidth charWidth)).sum = displayWidth charWidth rest := by
  conv_rhs => rw [← graphemes_flatten rest, displayWidth_flatten]
  rfl

/-- When nothing fits, it is because of the first grapheme. -/
theorem exists_wide {rest : Text} (hrest : rest ≠ []) {room : Nat}
    (h : (fitting charWidth room 0 (graphemes rest)).flatten = []) :
    ∃ g gs, graphemes rest = g :: gs ∧ room < displayWidth charWidth g := by
  obtain ⟨g, gs, hgs⟩ := List.exists_cons_of_ne_nil (graphemes_ne_nil hrest)
  refine ⟨g, gs, hgs, ?_⟩
  by_contra hfit
  rw [hgs, fitting, if_neg (by omega), List.flatten_cons, List.append_eq_nil_iff] at h
  exact ne_nil_of_mem_graphemes (hgs ▸ List.mem_cons_self) h.1

theorem drop_graphemes (rest : Text) (k : Nat) :
    rest.drop ((graphemes rest).take k).flatten.length = ((graphemes rest).drop k).flatten := by
  have hdrop :=
    @List.drop_left _ ((graphemes rest).take k).flatten ((graphemes rest).drop k).flatten
  rw [take_append_drop_graphemes] at hdrop
  exact hdrop

end Fitting

/-! ## What a paragraph shows -/

section Paragraph

variable {σ : Type} {charWidth : Char → Nat} {width : Nat}

/-- The characters of a text that are not spaces, in a style. -/
def inkOf (style : σ) (content : Text) : List (Char × σ) :=
  (content.filter (· ≠ ' ')).map (·, style)

def ink (line : Line σ) : List (Char × σ) := line.flatMap fun span => inkOf span.style span.content

def Wrapping.ink (s : Wrapping σ) : List (Char × σ) :=
  s.lines.flatMap Markdown.ink ++ Markdown.ink s.cur

theorem inkOf_append (style : σ) (front back : Text) :
    inkOf style (front ++ back) = inkOf style front ++ inkOf style back := by
  rw [inkOf, List.filter_append, List.map_append]
  rfl

theorem ink_filter (line : Line σ) :
    ink (line.filter fun span => span.content ≠ []) = ink line := by
  induction line with
  | nil => rfl
  | cons span line ih =>
      by_cases hempty : span.content = []
      · rw [List.filter_cons_of_neg (by simpa using hempty), ih]
        show ink line = inkOf span.style span.content ++ ink line
        rw [hempty]
        rfl
      · rw [List.filter_cons_of_pos (by simpa using hempty)]
        show _ ++ ink _ = _ ++ ink line
        rw [ih]

theorem Wrapping.ink_flushLine (s : Wrapping σ) : s.flushLine.ink = s.ink := by
  show (s.lines ++ [_]).flatMap Markdown.ink ++ [] = _
  rw [List.append_nil, List.flatMap_append, List.flatMap_singleton, ink_filter]
  rfl

theorem Wrapping.ink_push (s : Wrapping σ) (content : Text) (style : σ) :
    (s.push content style).ink = s.ink ++ inkOf style content := by
  show s.lines.flatMap Markdown.ink ++ Markdown.ink (s.cur ++ [_]) = _
  rw [Markdown.ink, List.flatMap_append, List.flatMap_singleton, ← List.append_assoc]
  rfl

/-- The present line fits, and the lines that are done are less than `m` columns too wide. -/
structure Wrapping.Fits (charWidth : Char → Nat) (width m : Nat) (s : Wrapping σ) : Prop where
  cur : lineWidth charWidth s.cur ≤ s.curW
  curW : s.curW ≤ width
  lines : ∀ line ∈ s.lines, lineWidth charWidth line < width + m

theorem lineWidth_filter (line : Line σ) :
    lineWidth charWidth (line.filter fun span => span.content ≠ []) = lineWidth charWidth line := by
  induction line with
  | nil => rfl
  | cons span line ih =>
      by_cases hempty : span.content = []
      · rw [List.filter_cons_of_neg (by simpa using hempty), ih]
        show _ = displayWidth charWidth span.content + lineWidth charWidth line
        rw [hempty]
        exact (Nat.zero_add _).symm
      · rw [List.filter_cons_of_pos (by simpa using hempty)]
        show _ + lineWidth charWidth _ = _ + lineWidth charWidth line
        rw [ih]

/-- A line that is less than `m` columns too wide is done. -/
theorem Wrapping.Fits.flushLine {m : Nat} {s : Wrapping σ} (h : s.Fits charWidth width m)
    (line : Line σ) (hline : lineWidth charWidth line < width + m) :
    ({ s with cur := line } : Wrapping σ).flushLine.Fits charWidth width m where
  cur := Nat.le_refl _
  curW := Nat.zero_le _
  lines other hother := by
    rcases List.mem_append.1 hother with hold | hnew
    · exact h.lines other hold
    · rw [List.mem_singleton.1 hnew, lineWidth_filter]
      exact hline

theorem lineWidth_push (line : Line σ) (content : Text) (style : σ) :
    lineWidth charWidth (line ++ [⟨content, style⟩]) =
      lineWidth charWidth line + displayWidth charWidth content := by
  rw [lineWidth_append]
  rfl

/-- The loop shows all of the word, and a line is too wide only by what is wider than a column of
its last grapheme. -/
theorem wrapRest_spec (charWidth : Char → Nat) (hwidth : 0 < width) (style : σ) {m : Nat}
    (hm : 0 < m) (s : Wrapping σ) (rest : Text) :
    (wrapRest charWidth width hwidth style s rest).ink = s.ink ++ inkOf style rest ∧
      ((∀ g ∈ graphemes rest, displayWidth charWidth g ≤ m) → s.Fits charWidth width m →
        (wrapRest charWidth width hwidth style s rest).Fits charWidth width m) := by
  induction s, rest using wrapRest.induct charWidth width hwidth style with
  | case1 s =>
      rw [wrapRest, if_pos rfl]
      exact ⟨(List.append_nil _).symm, fun _ h => h⟩
  | case2 s rest hrest gs restW hfit =>
      have hW : restW = displayWidth charWidth rest := sum_graphemes rest
      rw [wrapRest, if_neg hrest]
      dsimp only
      rw [if_pos hfit]
      refine ⟨s.ink_push rest style, fun _ h => ⟨?_, hfit, h.lines⟩⟩
      show lineWidth charWidth (s.cur ++ [_]) ≤ s.curW + restW
      rw [lineWidth_push, hW]
      exact Nat.add_le_add_right h.cur _
  | case3 s rest hrest gs restW hfit room hroom ih =>
      rw [wrapRest, if_neg hrest]
      dsimp only
      rw [if_neg hfit, if_pos hroom]
      rw [s.ink_flushLine] at ih
      refine ⟨ih.1, fun hgraphemes h => ih.2 hgraphemes (h.flushLine s.cur ?_)⟩
      have hcur := h.cur
      have hcurW := h.curW
      omega
  | case4 s rest hrest gs restW hfit room hroom head hhead g ih =>
      rw [wrapRest, if_neg hrest]
      dsimp only
      rw [if_neg hfit, if_neg hroom, if_pos hhead]
      obtain ⟨g', gs', hgs, hwide⟩ := exists_wide hrest hhead
      have hg : g = ((graphemes rest).take 1).flatten := by
        show ((graphemes rest).head?.getD []) = _
        rw [hgs]
        exact (List.append_nil g').symm
      have hgm : g = g' := by
        rw [hg, hgs]
        exact List.append_nil g'
      have hrestEq : rest.drop g.length = ((graphemes rest).drop 1).flatten := by
        rw [hg, drop_graphemes]
      refine ⟨?_, fun hgraphemes h => ih.2 ?_ (h.flushLine _ ?_)⟩
      · show (wrapRest charWidth width hwidth style _ (rest.drop g.length)).ink = _
        rw [ih.1, Wrapping.ink_flushLine, Wrapping.ink_push, List.append_assoc, ← inkOf_append]
        rw [hrestEq, hg, take_append_drop_graphemes]
      · rw [hrestEq, graphemes_drop]
        exact fun other hother => hgraphemes other (List.mem_of_mem_drop hother)
      · rw [lineWidth_push, hgm]
        have hgW := hgraphemes g' (hgs ▸ List.mem_cons_self)
        have hcur := h.cur
        have hcurW := h.curW
        omega
  | case5 s rest hrest gs restW hfit room hroom head hhead ih =>
      rw [wrapRest, if_neg hrest]
      dsimp only
      rw [if_neg hfit, if_neg hroom, if_neg hhead]
      obtain ⟨k, hk, hle, -⟩ := exists_fitting charWidth room 0 (graphemes rest)
      have hheadEq : head = ((graphemes rest).take k).flatten := congrArg List.flatten hk
      have hrestEq : rest.drop head.length = ((graphemes rest).drop k).flatten := by
        rw [hheadEq, drop_graphemes]
      refine ⟨?_, fun hgraphemes h => ih.2 ?_ (h.flushLine _ ?_)⟩
      · show (wrapRest charWidth width hwidth style _ (rest.drop head.length)).ink = _
        rw [ih.1, Wrapping.ink_flushLine, Wrapping.ink_push, List.append_assoc, ← inkOf_append]
        rw [hrestEq, hheadEq, take_append_drop_graphemes]
      · rw [hrestEq, graphemes_drop]
        exact fun other hother => hgraphemes other (List.mem_of_mem_drop hother)
      · have hheadW : displayWidth charWidth head ≤ room := by
          have hsum := hle (Nat.zero_le _)
          rw [hheadEq, displayWidth_flatten]
          rw [Nat.zero_add] at hsum
          exact hsum
        rw [lineWidth_push]
        have hcur := h.cur
        have hcurW := h.curW
        omega

/-- The graphemes of the words are at most `m` columns wide. -/
def Narrow (charWidth : Char → Nat) (m : Nat) (spans : Line σ) : Prop :=
  ∀ span ∈ spans, ∀ word ∈ span.content.splitOn ' ', ∀ g ∈ graphemes word,
    displayWidth charWidth g ≤ m

theorem wrapWord_spec (hwidth : 0 < width) (hspace : charWidth ' ' ≤ 1) (style : σ) (first : Bool)
    {m : Nat} (hm : 0 < m) (s : Wrapping σ) (word : Text) :
    (wrapWord charWidth width hwidth style first s word).ink = s.ink ++ inkOf style word ∧
      ((∀ g ∈ graphemes word, displayWidth charWidth g ≤ m) → s.Fits charWidth width m →
        (wrapWord charWidth width hwidth style first s word).Fits charWidth width m) := by
  unfold wrapWord
  by_cases hword : word = []
  · rw [if_pos hword, hword]
    by_cases hroom : 0 < s.curW ∧ s.curW < width
    · rw [if_pos hroom]
      refine ⟨s.ink_push [' '] style, fun _ h => ⟨?_, hroom.2, h.lines⟩⟩
      show lineWidth charWidth (s.cur ++ [_]) ≤ s.curW + 1
      rw [lineWidth_push]
      exact Nat.add_le_add h.cur hspace
    · rw [if_neg hroom]
      exact ⟨(List.append_nil _).symm, fun _ h => h⟩
  · rw [if_neg hword]
    by_cases hbreak : (!first) = true ∧ 0 < s.curW
    · obtain ⟨hink, hfits⟩ :=
        wrapRest_spec charWidth hwidth style hm s.flushLine word
      rw [if_pos hbreak]
      refine ⟨by rw [hink, s.ink_flushLine], fun hgraphemes h => hfits hgraphemes ?_⟩
      refine h.flushLine s.cur ?_
      have hcur := h.cur
      have hcurW := h.curW
      omega
    · rw [if_neg hbreak]
      exact wrapRest_spec charWidth hwidth style hm s word

theorem inkOf_eq_flatMap (style : σ) (content : Text) :
    inkOf style content = (content.splitOn ' ').flatMap (inkOf style) := by
  have hjoin : content = [' '].intercalate (content.splitOn ' ') :=
    (List.intercalate_splitOn ' ').symm
  conv_lhs => rw [hjoin]
  induction content.splitOn ' ' with
  | nil => rfl
  | cons word words ih =>
      cases words with
      | nil => rw [List.intercalate_singleton, List.flatMap_singleton]
      | cons next words =>
          rw [List.intercalate_cons_cons, List.flatMap_cons, ← ih, inkOf_append, inkOf_append]
          show inkOf style word ++ [] ++ _ = _
          rw [List.append_nil]

theorem wrapSpan_spec (hwidth : 0 < width) (hspace : charWidth ' ' ≤ 1) {m : Nat} (hm : 0 < m)
    (s : Wrapping σ) (span : Span σ) :
    (wrapSpan charWidth width hwidth s span).ink = s.ink ++ inkOf span.style span.content ∧
      (Narrow charWidth m [span] → s.Fits charWidth width m →
        (wrapSpan charWidth width hwidth s span).Fits charWidth width m) := by
  have hwords : ∀ (words : List Text) (s : Wrapping σ),
      (words.foldl (wrapWord charWidth width hwidth span.style false) s).ink =
          s.ink ++ words.flatMap (inkOf span.style) ∧
        ((∀ word ∈ words, ∀ g ∈ graphemes word, displayWidth charWidth g ≤ m) →
          s.Fits charWidth width m →
          (words.foldl (wrapWord charWidth width hwidth span.style false) s).Fits
            charWidth width m) := by
    intro words
    induction words with
    | nil => exact fun s => ⟨(List.append_nil _).symm, fun _ h => h⟩
    | cons word words ih =>
        intro s
        obtain ⟨hink, hfits⟩ := wrapWord_spec hwidth hspace span.style false hm s word
        obtain ⟨hinks, hfitss⟩ := ih (wrapWord charWidth width hwidth span.style false s word)
        refine ⟨?_, fun hnarrow h => hfitss (fun other hother => ?_) (hfits ?_ h)⟩
        · rw [List.foldl_cons, hinks, hink, List.append_assoc]
          rfl
        · exact hnarrow other (List.mem_cons_of_mem _ hother)
        · exact hnarrow word List.mem_cons_self
  rw [inkOf_eq_flatMap, wrapSpan]
  split
  · next hnil => exact absurd hnil (List.splitOn_ne_nil _ _)
  · next word words hsplit =>
    obtain ⟨hink, hfits⟩ := wrapWord_spec hwidth hspace span.style true hm s word
    obtain ⟨hinks, hfitss⟩ := hwords words (wrapWord charWidth width hwidth span.style true s word)
    refine ⟨?_, fun hnarrow h => ?_⟩
    · rw [hinks, hink, hsplit, List.flatMap_cons, List.append_assoc]
    · have hall := hnarrow span List.mem_cons_self
      rw [hsplit] at hall
      exact hfitss (fun other hother => hall other (List.mem_cons_of_mem _ hother))
        (hfits (hall word List.mem_cons_self) h)

/-- The present line is done at the end, unless it is empty. -/
theorem Wrapping.ended (charWidth : Char → Nat) (width m : Nat) (s : Wrapping σ) :
    (if s.cur = [] then s.lines else s.flushLine.lines).flatMap Markdown.ink = s.ink ∧
      (s.Fits charWidth width m → 0 < m →
        ∀ line ∈ if s.cur = [] then s.lines else s.flushLine.lines,
          lineWidth charWidth line < width + m) := by
  by_cases hcur : s.cur = []
  · rw [if_pos hcur]
    refine ⟨?_, fun h _ => h.lines⟩
    rw [Wrapping.ink, hcur]
    exact (List.append_nil _).symm
  · rw [if_neg hcur]
    refine ⟨?_, fun h hm => (h.flushLine s.cur ?_).lines⟩
    · rw [← s.ink_flushLine]
      exact (List.append_nil _).symm
    · have hfit := h.cur
      have hcurW := h.curW
      omega

/-- A wrapped paragraph shows what its spans have, apart from the spaces, and no line is more than
`m - 1` columns too wide. -/
theorem wrapSpans_spec (charWidth : Char → Nat) {width : Nat} (hwidth : 0 < width)
    (hspace : charWidth ' ' ≤ 1) {m : Nat} (hm : 0 < m) (spans : Line σ) :
    (wrapSpans charWidth width spans).flatMap ink = ink spans ∧
      (Narrow charWidth m spans → ∀ line ∈ wrapSpans charWidth width spans,
        lineWidth charWidth line < width + m) := by
  have hspans : ∀ (spans : Line σ) (s : Wrapping σ),
      (spans.foldl (wrapSpan charWidth width hwidth) s).ink = s.ink ++ ink spans ∧
        (Narrow charWidth m spans → s.Fits charWidth width m →
          (spans.foldl (wrapSpan charWidth width hwidth) s).Fits charWidth width m) := by
    intro spans
    induction spans with
    | nil => exact fun s => ⟨(List.append_nil _).symm, fun _ h => h⟩
    | cons span spans ih =>
        intro s
        obtain ⟨hink, hfits⟩ := wrapSpan_spec hwidth hspace hm s span
        obtain ⟨hinks, hfitss⟩ := ih (wrapSpan charWidth width hwidth s span)
        refine ⟨?_, fun hnarrow h => hfitss (fun other hother => ?_) (hfits ?_ h)⟩
        · rw [List.foldl_cons, hinks, hink, List.append_assoc]
          rfl
        · exact hnarrow other (List.mem_cons_of_mem _ hother)
        · intro other hother
          exact hnarrow other (List.mem_singleton.1 hother ▸ List.mem_cons_self)
  obtain ⟨hink, hfits⟩ := hspans spans ⟨[], [], 0⟩
  unfold wrapSpans
  rw [dif_pos hwidth]
  generalize spans.foldl (wrapSpan charWidth width hwidth) ⟨[], [], 0⟩ = s at hink hfits
  obtain ⟨hlines, hshort⟩ := s.ended charWidth width m
  dsimp only
  generalize (if s.cur = [] then s.lines else s.flushLine.lines) = lines at hlines hshort
  refine ⟨?_, fun hnarrow => ?_⟩
  · have hshown : lines.flatMap ink = ink spans := by
      rw [hlines, hink]
      rfl
    by_cases hnone : lines = []
    · rw [if_pos hnone, ← hshown, hnone]
      rfl
    · rw [if_neg hnone, hshown]
  · have hall := hshort (hfits hnarrow ⟨Nat.le_refl _, Nat.zero_le _, List.forall_mem_nil _⟩) hm
    by_cases hnone : lines = []
    · rw [if_pos hnone]
      intro line hline
      rw [List.mem_singleton.1 hline]
      show 0 < width + m
      omega
    · rw [if_neg hnone]
      exact hall

theorem lineWidth_prefixed (bullet text : σ) (start : Text) (line : Line σ) :
    lineWidth charWidth (prefixed bullet text start line) =
      displayWidth charWidth start + lineWidth charWidth line := by
  rw [prefixed, lineWidth_append]
  congr 1
  by_cases hstart : start = []
  · rw [if_pos hstart, hstart]
    rfl
  · rw [if_neg hstart]
    exact Nat.add_zero _

/-- Behind a prefix that leaves room, a paragraph without wide graphemes is shown with every
character but the spaces, in order and in its style, and nothing is clipped. -/
theorem clipAll_flush {pre cont : Text} (hpre : displayWidth charWidth pre < width)
    (hcont : displayWidth charWidth cont ≤ displayWidth charWidth pre)
    (hspace : charWidth ' ' ≤ 1) {spans : Line σ} (hnarrow : Narrow charWidth 1 spans)
    (bullet text : σ) :
    ∃ lines : List (Line σ), lines.flatMap ink = ink spans ∧
      clipAll charWidth width (flush charWidth width bullet text pre cont spans) =
        prefixAll bullet text pre cont lines := by
  by_cases hspans : spans = []
  · refine ⟨[], by rw [hspans]; rfl, ?_⟩
    rw [flush, if_pos hspans]
    rfl
  · have hroom : max (width - displayWidth charWidth pre) 1 =
        width - displayWidth charWidth pre := by omega
    obtain ⟨hink, hlines⟩ := wrapSpans_spec charWidth
      (show 0 < width - displayWidth charWidth pre by omega) hspace Nat.one_pos spans
    refine ⟨_, hink, ?_⟩
    rw [flush, if_neg hspans, hroom]
    refine clipAll_eq_self fun line hline => ?_
    have hfit := hlines hnarrow
    generalize wrapSpans charWidth _ spans = lines at hline hfit
    cases lines with
    | nil => cases hline
    | cons first more =>
        rcases List.mem_cons.1 hline with rfl | hmem
        · have hfirst := hfit first List.mem_cons_self
          rw [lineWidth_prefixed]
          omega
        · obtain ⟨old, hold, rfl⟩ := List.mem_map.1 hmem
          have hmore := hfit old (List.mem_cons_of_mem _ hold)
          rw [lineWidth_prefixed]
          omega

/-- Two words behind a bullet, which come on lines of their own. -/
theorem clipAll_flush_bullet :
    ∃ lines : List (Line Bool), lines.flatMap ink = ink [⟨"ab cd".toList, true⟩] ∧
      clipAll (fun _ => 1) 5
          (flush (fun _ => 1) 5 false true "• ".toList "  ".toList [⟨"ab cd".toList, true⟩]) =
        prefixAll false true "• ".toList "  ".toList lines :=
  clipAll_flush (by decide) (by decide) (by decide) (by unfold Narrow; decide) false true

end Paragraph

/-! ## What a code block shows -/

section Code

variable {σ : Type} {charWidth : Char → Nat} {width : Nat}

theorem splitStep_fold (gs : List Text) (hnarrow : ∀ g ∈ gs, displayWidth charWidth g ≤ width)
    (out : List Text) (cur : Text) (w : Nat) (hw : displayWidth charWidth cur = w)
    (hcur : w ≤ width) (hout : ∀ piece ∈ out, displayWidth charWidth piece ≤ width) :
    ∃ out' cur' w', gs.foldl (splitStep charWidth width) (out, cur, w) = (out', cur', w') ∧
      out'.flatten ++ cur' = out.flatten ++ cur ++ gs.flatten ∧
      displayWidth charWidth cur' ≤ width ∧
      ∀ piece ∈ out', displayWidth charWidth piece ≤ width := by
  induction gs generalizing out cur w with
  | nil => exact ⟨out, cur, w, rfl, (List.append_nil _).symm, hw ▸ hcur, hout⟩
  | cons g gs ih =>
      have hg := hnarrow g List.mem_cons_self
      have hgs : ∀ g ∈ gs, displayWidth charWidth g ≤ width :=
        fun other hother => hnarrow other (List.mem_cons_of_mem _ hother)
      rw [List.foldl_cons, splitStep]
      by_cases hfull : width < w + displayWidth charWidth g ∧ 0 < w
      · obtain ⟨out', cur', w', hfold, htext, hfit⟩ :=
          ih hgs (out ++ [cur]) g _ rfl hg fun piece hpiece => by
            rcases List.mem_append.1 hpiece with hold | hnew
            · exact hout piece hold
            · rw [List.mem_singleton.1 hnew, hw]
              exact hcur
        refine ⟨out', cur', w', by rw [if_pos hfull, hfold], ?_, hfit⟩
        rw [htext, List.flatten_append, List.flatten_singleton, List.flatten_cons]
        simp only [List.append_assoc]
      · obtain ⟨out', cur', w', hfold, htext, hfit⟩ :=
          ih hgs out (cur ++ g) _ (by rw [displayWidth_append, hw]) (by omega) hout
        refine ⟨out', cur', w', by rw [if_neg hfull, hfold], ?_, hfit⟩
        rw [htext, List.flatten_cons]
        simp only [List.append_assoc]

/-- The pieces together are the text, and none is too wide when no grapheme is. -/
theorem hardSplit_spec (charWidth : Char → Nat) {width : Nat} (hwidth : 0 < width) (s : Text)
    (hnarrow : ∀ g ∈ graphemes s, displayWidth charWidth g ≤ width) :
    (hardSplit charWidth width s).flatten = s ∧
      ∀ piece ∈ hardSplit charWidth width s, displayWidth charWidth piece ≤ width := by
  obtain ⟨out, cur, w, hfold, htext, hcur, hout⟩ :=
    splitStep_fold (graphemes s) hnarrow [] [] 0 rfl (Nat.zero_le _) (List.forall_mem_nil _)
  rw [hardSplit, if_neg (by omega), hfold]
  refine ⟨?_, fun piece hpiece => ?_⟩
  · show (out ++ [cur]).flatten = s
    rw [List.flatten_append, List.flatten_singleton, htext]
    exact graphemes_flatten s
  · rcases List.mem_append.1 hpiece with hold | hnew
    · exact hout piece hold
    · rw [List.mem_singleton.1 hnew]
      exact hcur

def lineText (line : Line σ) : Text := (line.map Span.content).flatten

/-- The text of a line of code, from the lines that show it. -/
def readBack : List (Line σ) → Text
  | [] => []
  | first :: more => lineText first ++ more.flatMap fun line => (lineText line).drop 1

theorem codeLines_spec (hwidth : 2 ≤ width) (hmark : charWidth '↩' ≤ 1) (style : σ) {raw : Text}
    (hnarrow : ∀ g ∈ graphemes raw, displayWidth charWidth g < width) :
    readBack (codeLines charWidth width style raw) = raw ∧
      ∀ line ∈ codeLines charWidth width style raw, lineWidth charWidth line ≤ width := by
  unfold codeLines
  by_cases hraw : raw = []
  · rw [if_pos hraw, hraw]
    refine ⟨rfl, fun line hline => ?_⟩
    rw [List.mem_singleton.1 hline]
    exact Nat.zero_le _
  · have hroom : max (width - 1) 1 = width - 1 := by omega
    obtain ⟨htext, hfit⟩ := hardSplit_spec charWidth
      (show 0 < width - 1 by omega) raw fun g hg => by
        have hlt := hnarrow g hg
        omega
    rw [if_neg hraw, hroom]
    generalize hardSplit charWidth (width - 1) raw = pieces at htext hfit
    cases pieces with
    | nil => exact absurd htext.symm hraw
    | cons first more =>
        refine ⟨?_, fun line hline => ?_⟩
        · have hmore : (more.map fun piece => ([⟨'↩' :: piece, style⟩] : Line σ)).flatMap
              (fun line => (lineText line).drop 1) = more.flatten := by
            rw [List.flatMap_map, ← List.flatMap_id']
            congr 1
            funext piece
            exact List.append_nil _
          show (first ++ []) ++ _ = raw
          rw [List.append_nil, hmore, ← htext, List.flatten_cons]
        · rcases List.mem_cons.1 hline with rfl | hmem
          · have hfirst := hfit first List.mem_cons_self
            show displayWidth charWidth first + 0 ≤ width
            omega
          · obtain ⟨piece, hpiece, rfl⟩ := List.mem_map.1 hmem
            have hone := hfit piece (List.mem_cons_of_mem _ hpiece)
            show charWidth '↩' + displayWidth charWidth piece + 0 ≤ width
            omega

/-- Of a code block only the line with the language can be clipped, when each grapheme leaves room
for the mark.  Each line of the code can be read back from the lines that show it. -/
theorem clipAll_flushCode (hwidth : 2 ≤ width) (hmark : charWidth '↩' ≤ 1) (style : σ)
    (lang : Text) {buf : Text}
    (hnarrow : ∀ raw ∈ buf.splitOn '\n', ∀ g ∈ graphemes raw, displayWidth charWidth g < width) :
    ∃ shown : List (List (Line σ)),
      clipAll charWidth width (flushCode charWidth width style lang buf) =
          clipAll charWidth width (if lang = [] then [] else [[⟨"``` ".toList ++ lang, style⟩]]) ++
            shown.flatten ∧
        shown.map readBack = buf.splitOn '\n' := by
  refine ⟨(buf.splitOn '\n').map (codeLines charWidth width style), ?_, ?_⟩
  · rw [flushCode, clipAll, List.map_append, ← clipAll, ← clipAll, List.flatMap_def]
    congr 1
    refine clipAll_eq_self fun line hline => ?_
    obtain ⟨raw, hraw, hmem⟩ := List.mem_flatMap.1 (List.flatMap_def ▸ hline)
    exact (codeLines_spec hwidth hmark style (hnarrow raw hraw)).2 line hmem
  · rw [List.map_map]
    conv_rhs => rw [← List.map_id (buf.splitOn '\n')]
    exact List.map_congr_left fun raw hraw =>
      (codeLines_spec hwidth hmark style (hnarrow raw hraw)).1

theorem clipAll_flushCode_long :
    ∃ shown : List (List (Line Bool)),
      clipAll (fun _ => 1) 3 (flushCode (fun _ => 1) 3 true [] "abcd\ne".toList) = shown.flatten ∧
        shown.map readBack = ["abcd".toList, "e".toList] :=
  @clipAll_flushCode Bool (fun _ => 1) 3 (by decide) (by decide) true [] "abcd\ne".toList
    (by decide)

end Code

end Vanyline.Markdown
