import Vanyline.Lib.ByteOffsets
import Vanyline.Sandbox.DiagnosticsDiff
import Vanyline.Sandbox.RuffLint

/-!
# Incremental document sync of the ruff wrapper

The editor changes a document and describes every change: by the whole new text, or by a range of
positions and the text that comes there.  A position is a line and a column in units of UTF-16, of
the document as it was just before the change.  The wrapper turns positions into byte offsets and
replaces the range in its own copy.

* `applyContentChanges_eq` says that the byte offsets never cut a character, so nothing panics, and
  that the copy changes as in `Vanyline.Sandbox.RuffLint`, which counts characters.
* `utf16Offset_positionAt`: the position of a place leads back to the place; where no "\r" stands
  alone, it is the position of the protocol (`positionAt_eq_lspPosition`).
* `sync_reconstructs`: after any notifications the copy is the text of the editor, and a malformed
  change leaves it as it is.
-/

namespace Vanyline.Sandbox.IncrementalSync

open Vanyline.Lib TextLines ByteOffsets
open Vanyline.Sandbox.RuffLint (lenUtf16 Doc)

/-! ## The wrapper -/

/-- The line and the column of a position. -/
def rangePosition (value : Option Json) : Option (Int × Int) := do
  let position ← value
  let line ← asI64 (← position.get "line")
  let character ← asI64 (← position.get "character")
  return (line, character)

/-- The byte offsets behind the line feeds, when the text begins at `offset`. -/
def startsFrom : Nat → Text → List Nat
  | _, [] => []
  | offset, c :: text =>
    if c = '\n' then (offset + 1) :: startsFrom (offset + c.utf8Size) text
    else startsFrom (offset + c.utf8Size) text

/-- The bytes of a line that are before so many units. -/
def columnBytes (target : Nat) : Text → Nat → Nat
  | [], _ => 0
  | c :: line, units =>
    if target < units + lenUtf16 c then 0
    else c.utf8Size + columnBytes target line (units + lenUtf16 c)

/-- The byte offset of a position; it has no value when a slice is not at a character boundary. -/
def utf16Offset (text : Text) (line character : Int) : Option Nat := do
  let starts := 0 :: startsFrom 0 text
  let start ← starts[min line.toNat (starts.length - 1)]?
  let (_, lineStr) ← splitAtByte start text
  return start + columnBytes character.toNat (lineStr.takeWhile (· ≠ '\n')) 0

/-- One change; it has no value when `replace_range` panics. -/
def applyChange (text : Text) (change : Json) : Option Text :=
  match (change.get "text").bind asStr with
  | none => some text
  | some newText =>
    match change.get "range" with
    | none | some .null => some newText
    | some range =>
      match rangePosition (range.get "start"), rangePosition (range.get "end") with
      | some start, some stop => do
        let i ← utf16Offset text start.1 start.2
        let j ← utf16Offset text stop.1 stop.2
        if i ≤ j then replaceRange text i j newText else replaceRange text j i newText
      | _, _ => some text

def applyContentChanges (text : Text) (changes : List Json) : Option Text :=
  changes.foldlM applyChange text

/-- The documents of the wrapper. -/
abbrev Docs := Text → Option Doc

/-- The changes of a notification; anything but an array has none. -/
def contentChanges (params : Json) : List Json :=
  match params.get "contentChanges" with
  | some (.arr changes) => changes
  | _ => []

/-- The handler of `textDocument/didChange`, up to the lint; it has no value when it panics. -/
def didChange (docs : Docs) (params : Json) : Option Docs :=
  match params.get "textDocument" with
  | none => some docs
  | some document =>
    match (document.get "uri").bind asStr with
    | none => some docs
    | some uri =>
      match docs uri with
      | none => some docs
      | some doc => do
        let text ← applyContentChanges doc.text (contentChanges params)
        let version := ((document.get "version").bind asI64).getD doc.version
        return Function.update docs uri (some ⟨text, version⟩)

/-! ## Bytes and characters -/

/-- What a change says, without its JSON. -/
def parseChange (change : Json) : RuffLint.Change where
  text := (change.get "text").bind asStr
  range :=
    match change.get "range" with
    | none | some .null => .whole
    | some range =>
      match rangePosition (range.get "start"), rangePosition (range.get "end") with
      | some start, some stop => .edit ⟨start.1, start.2⟩ ⟨stop.1, stop.2⟩
      | _, _ => .malformed

/-- The starts in bytes are those in characters. -/
theorem startsFrom_eq (before text : Text) : startsFrom (byteLen before) text =
    ((text.zipIdx before.length).filterMap fun (c, i) =>
      if c = '\n' then some (i + 1) else none).map fun i => byteLen ((before ++ text).take i) := by
  induction text generalizing before with
  | nil => rfl
  | cons c text ih =>
      have hnext : byteLen (before ++ [c]) = byteLen before + c.utf8Size := by
        rw [byteLen_append]
        rfl
      have hrest := ih (before ++ [c])
      rw [hnext, List.length_append, List.length_singleton, List.append_assoc,
        List.singleton_append] at hrest
      rw [startsFrom, List.zipIdx_cons, hrest]
      split_ifs with hc
      · subst hc
        rw [List.filterMap_cons_some (b := before.length + 1) (by simp), List.map_cons]
        congr 1
        rw [List.take_length_add_append, byteLen_append]
        rfl
      · rw [List.filterMap_cons_none (by simp [hc])]

theorem columnBytes_eq (target : Nat) (text : Text) (units : Nat) :
    columnBytes target (text.takeWhile (· ≠ '\n')) units =
      byteLen (text.take (RuffLint.column target text units)) := by
  induction text generalizing units with
  | nil => rfl
  | cons c text ih =>
      rw [RuffLint.column]
      by_cases hc : c = '\n'
      · rw [if_pos (.inl hc), List.takeWhile_cons_of_neg (by simp [hc])]
        rfl
      · rw [List.takeWhile_cons_of_pos (by simp [hc]), columnBytes]
        by_cases hlt : target < units + lenUtf16 c
        · rw [if_pos hlt, if_pos (.inr hlt)]
          rfl
        · rw [if_neg hlt, if_neg (by simp [hc, hlt]), ih, List.take_succ_cons, byteLen_cons]

/-- The offset in bytes is that of the place in characters. -/
theorem utf16Offset_eq (text : Text) (line character : Int) :
    utf16Offset text line character =
      some (byteLen (text.take (RuffLint.utf16Offset text ⟨line, character⟩))) := by
  have hstarts : 0 :: startsFrom 0 text =
      (RuffLint.lineStarts text).map fun i => byteLen (text.take i) := by
    have heq := startsFrom_eq [] text
    rw [show byteLen [] = 0 from rfl] at heq
    rw [heq]
    rfl
  have hpos : 0 < (RuffLint.lineStarts text).length := Nat.succ_pos _
  simp only [utf16Offset, RuffLint.utf16Offset, hstarts, List.length_map]
  set k := min line.toNat ((RuffLint.lineStarts text).length - 1) with hk
  have hlt : k < (RuffLint.lineStarts text).length := by omega
  rw [List.getElem?_map, List.getElem?_eq_getElem hlt, List.getD_eq_getElem?_getD,
    List.getElem?_eq_getElem hlt]
  set start := (RuffLint.lineStarts text)[k] with hstart
  have hsplit : splitAtByte (byteLen (text.take start)) text =
      some (text.take start, text.drop start) :=
    splitAtByte_eq_some.2 ⟨List.take_append_drop start text, rfl⟩
  simp only [Option.map_some, Option.bind_eq_bind, Option.bind_some, hsplit, Option.getD_some,
    columnBytes_eq]
  rw [List.take_add, byteLen_append]
  rfl

/-- A change never panics, and does to the text what it says. -/
theorem applyChange_eq (text : Text) (change : Json) :
    applyChange text change = some (RuffLint.applyChange text (parseChange change)) := by
  unfold applyChange RuffLint.applyChange parseChange
  cases (change.get "text").bind asStr with
  | none => rfl
  | some newText =>
      simp only
      split
      · rfl
      · rfl
      · next range _ _ =>
        cases rangePosition (range.get "start") with
        | none => rfl
        | some start =>
            cases rangePosition (range.get "end") with
            | none => rfl
            | some stop =>
                simp only [utf16Offset_eq, Option.bind_eq_bind, Option.bind_some]
                set i := RuffLint.utf16Offset text ⟨start.1, start.2⟩
                set j := RuffLint.utf16Offset text ⟨stop.1, stop.2⟩
                have hi : i ≤ text.length := RuffLint.utf16Offset_le _ _
                have hj : j ≤ text.length := RuffLint.utf16Offset_le _ _
                have hiff := byteLen_take_le_iff hi hj
                by_cases hle : i ≤ j
                · rw [if_pos (hiff.2 hle), Nat.min_eq_left hle, Nat.max_eq_right hle]
                  exact replaceRange_eq_some.2 ⟨i, j, hle, hj, rfl, rfl, rfl⟩
                · have hge : j ≤ i := Nat.le_of_not_le hle
                  rw [if_neg (mt hiff.1 hle), Nat.min_eq_right hge, Nat.max_eq_left hge]
                  exact replaceRange_eq_some.2 ⟨j, i, hge, hi, rfl, rfl, rfl⟩

theorem applyContentChanges_eq (text : Text) (changes : List Json) :
    applyContentChanges text changes =
      some (RuffLint.applyContentChanges text (changes.map parseChange)) := by
  unfold applyContentChanges RuffLint.applyContentChanges
  induction changes generalizing text with
  | nil => rfl
  | cons change changes ih =>
      rw [List.foldlM_cons, applyChange_eq, List.map_cons, List.foldl_cons]
      exact ih _

/-! ## The editor -/

def utf16Len (text : Text) : Nat := (text.map lenUtf16).sum

/-- The position of the place behind `i` characters: how many lines end before it, and the units
between the last of these and the place. -/
def positionAt (text : Text) (i : Nat) : Nat × Nat :=
  ((cut (text.take i)).1.length, utf16Len (cut (text.take i)).2)

/-- A change in the editor: the whole text, or what is between two places. -/
inductive Edit
  | full (new : Text)
  | range (start stop : Nat) (new : Text)

def Edit.apply (text : Text) : Edit → Text
  | .full new => new
  | .range start stop new => text.take start ++ new ++ text.drop stop

/-- A `Position`, whose numbers the protocol bounds. -/
def IsPosition (value : Option Json) (position : Nat × Nat) : Prop :=
  ∃ json, value = some json ∧ json.get "line" = some (.num position.1) ∧
    json.get "character" = some (.num position.2) ∧ position.1 < 2 ^ 31 ∧ position.2 < 2 ^ 31

/-- The content change that describes an edit of the text. -/
inductive Describes (text : Text) : Edit → Json → Prop
  | full {change : Json} {new : Text} (htext : change.get "text" = some (.str new))
      (hrange : change.get "range" = none ∨ change.get "range" = some .null) :
      Describes text (.full new) change
  | range {change range : Json} {start stop : Nat} {new : Text}
      (htext : change.get "text" = some (.str new)) (hrange : change.get "range" = some range)
      (hle : start ≤ stop) (hstop : stop ≤ text.length)
      (hfirst : IsPosition (range.get "start") (positionAt text start))
      (hlast : IsPosition (range.get "end") (positionAt text stop)) :
      Describes text (.range start stop new) change

/-- Edits one after the other, each described on the text as it is then. -/
inductive Edits : Text → List Json → Text → Prop
  | nil {text : Text} : Edits text [] text
  | cons {text final : Text} {edit : Edit} {change : Json} {changes : List Json}
      (hchange : Describes text edit change) (hrest : Edits (edit.apply text) changes final) :
      Edits text (change :: changes) final

def documentUri (params : Json) : Option Text :=
  (params.get "textDocument").bind fun document => (document.get "uri").bind asStr

/-- The notifications of a session, with those about a document; its text is `text` before them
and `final` after them. -/
inductive Session (uri : Text) : Text → List Json → Text → Prop
  | nil {text : Text} : Session uri text [] text
  | change {text text' final : Text} {params : Json} {changes rest : List Json}
      (huri : documentUri params = some uri)
      (hchanges : params.get "contentChanges" = some (.arr changes))
      (hedits : Edits text changes text') (hrest : Session uri text' rest final) :
      Session uri text (params :: rest) final
  | other {text final : Text} {params : Json} {rest : List Json}
      (huri : documentUri params ≠ some uri) (hrest : Session uri text rest final) :
      Session uri text (params :: rest) final

/-! ## Positions of places -/

/-- The protocol's own count: "\n", "\r\n" and "\r" end a line.  The flag says that a "\r" has
just ended one. -/
def lspPosition : Nat → Nat → Bool → Text → Nat × Nat
  | line, column, _, [] => (line, column)
  | line, column, afterCr, c :: text =>
    if c = '\n' then lspPosition (if afterCr then line else line + 1) 0 false text
    else if c = '\r' then lspPosition (line + 1) 0 true text
    else lspPosition line (column + lenUtf16 c) false text

/-- Every "\r" is that of a "\r\n". -/
def NoLoneCr : Text → Prop
  | [] => True
  | c :: text => (c = '\r' → text.head? = some '\n') ∧ NoLoneCr text

/-- The position behind the lines `cut.1` and the text `cut.2`. -/
def behind (line column : Nat) (cut : List Text × Text) : Nat × Nat :=
  if cut.1 = [] then (line, column + utf16Len cut.2) else (line + cut.1.length, utf16Len cut.2)

theorem behind_line (line column : Nat) (first : Text) (cut : List Text × Text) :
    behind line column (first :: cut.1, cut.2) = behind (line + 1) 0 cut := by
  unfold behind
  rw [if_neg (List.cons_ne_nil _ _)]
  split_ifs with h
  · rw [h, Nat.zero_add]
    rfl
  · rw [List.length_cons, Nat.add_right_comm, Nat.add_assoc]

theorem lspPosition_eq {text : Text} (h : NoLoneCr text) (line column : Nat) :
    lspPosition line column false text = behind line column (cut text) ∧
      ∀ rest, text = '\n' :: rest → lspPosition line 0 true text = behind line 0 (cut rest) := by
  induction text generalizing line column with
  | nil => exact ⟨rfl, fun rest hrest => by cases hrest⟩
  | cons c text ih =>
      have hrest := ih h.2
      constructor
      · rw [lspPosition, cut]
        by_cases hlf : c = '\n'
        · rw [if_pos hlf, if_pos hlf, behind_line]
          exact (hrest (line + 1) 0).1
        · rw [if_neg hlf, if_neg hlf]
          by_cases hcr : c = '\r'
          · rcases hhead : text with _ | ⟨d, rest⟩
            · rw [hhead] at h
              cases h.1 hcr
            · have hd : d = '\n' := by
                rw [hhead] at h
                exact Option.some.inj (h.1 hcr)
              subst hd
              rw [if_pos hcr, ← hhead, (hrest (line + 1) 0).2 rest hhead, hhead, cut, if_pos rfl]
              exact (behind_line line column [c] (cut rest)).symm
          · rw [if_neg hcr, (hrest line (column + lenUtf16 c)).1]
            rcases hcut : cut text with ⟨_ | ⟨first, ls⟩, last⟩
            · show (line, column + lenUtf16 c + utf16Len last) =
                (line, column + utf16Len (c :: last))
              rw [Nat.add_assoc]
              rfl
            · rfl
      · intro rest heq
        cases heq
        exact (hrest line 0).1

/-- Where no "\r" stands alone, the positions are those of the protocol. -/
theorem positionAt_eq_lspPosition {text : Text} {i : Nat} (h : NoLoneCr (text.take i)) :
    positionAt text i = lspPosition 0 0 false (text.take i) := by
  rw [(lspPosition_eq h 0 0).1, behind]
  split_ifs with hnil
  · rw [positionAt, hnil, Nat.zero_add]
    rfl
  · rw [positionAt, Nat.zero_add]

theorem lenUtf16_pos (c : Char) : 0 < lenUtf16 c := by
  unfold lenUtf16
  split_ifs <;> decide

/-- The start behind as many lines as `ls`. -/
theorem start_unlines {ls : List Text} (h : ∀ line ∈ ls, '\n' ∉ line) (rest : Text) (k : Nat) :
    (k :: (((unlines ls ++ rest).zipIdx k).filterMap fun (c, i) =>
      if c = '\n' then some (i + 1) else none))[ls.length]? = some (k + (unlines ls).length) := by
  induction ls generalizing k with
  | nil => rfl
  | cons line ls ih =>
      have hnone : (line.zipIdx k).filterMap (fun (c, i) =>
          if c = '\n' then some (i + 1) else none) = [] := by
        rw [List.filterMap_eq_nil_iff]
        rintro ⟨c, i⟩ hmem
        have hc : c ≠ '\n' := by
          rintro rfl
          exact h line (List.mem_cons_self ..) (List.fst_mem_of_mem_zipIdx hmem)
        exact if_neg hc
      have hrest := ih (fun other hother => h other (List.mem_cons_of_mem _ hother))
        (k + line.length + 1)
      rw [unlines_cons, List.append_assoc, List.cons_append, List.zipIdx_append,
        List.filterMap_append, hnone, List.nil_append, List.zipIdx_cons,
        List.filterMap_cons_some (b := k + line.length + 1) (by simp), List.length_cons,
        List.getElem?_cons_succ, hrest, List.length_append, List.length_cons]
      congr 1
      omega

theorem column_within {last : Text} (h : '\n' ∉ last) (after : Text) (units : Nat) :
    RuffLint.column (units + utf16Len last) (last ++ after) units = last.length := by
  induction last generalizing units with
  | nil =>
      cases after with
      | nil => rfl
      | cons c after =>
          have hpos := lenUtf16_pos c
          have hzero : utf16Len [] = 0 := rfl
          rw [List.nil_append, RuffLint.column, if_pos (.inr (by omega))]
          rfl
  | cons c last ih =>
      rw [List.mem_cons, not_or] at h
      have hunits : utf16Len (c :: last) = lenUtf16 c + utf16Len last := rfl
      have hstop : ¬ (c = '\n' ∨ units + utf16Len (c :: last) < units + lenUtf16 c) := by
        rintro (hc | hlt)
        · exact h.1 hc.symm
        · omega
      rw [List.cons_append, RuffLint.column, if_neg hstop, hunits, ← Nat.add_assoc, ih h.2]
      rfl

/-- The position of a place leads back to the place. -/
theorem utf16Offset_positionAt {text : Text} {i : Nat} (h : i ≤ text.length) :
    RuffLint.utf16Offset text ⟨(positionAt text i).1, (positionAt text i).2⟩ = i := by
  unfold positionAt
  have hno := newline_notMem_cut (text.take i)
  have htake := unlines_cut (text.take i)
  set ls := (cut (text.take i)).1
  set last := (cut (text.take i)).2
  have htext : text = unlines ls ++ (last ++ text.drop i) := by
    rw [← List.append_assoc, htake, List.take_append_drop]
  have hlength : (unlines ls).length + last.length = i := by
    rw [← List.length_append, htake, List.length_take, Nat.min_eq_left h]
  have hstart : (RuffLint.lineStarts text)[ls.length]? = some (unlines ls).length := by
    have hstarts := start_unlines hno.1 (last ++ text.drop i) 0
    rw [← htext, Nat.zero_add] at hstarts
    exact hstarts
  have hlt : ls.length < (RuffLint.lineStarts text).length := by
    rw [List.getElem?_eq_some_iff] at hstart
    exact hstart.1
  have hdrop : text.drop (unlines ls).length = last ++ text.drop i := by
    conv_lhs => rw [htext]
    exact List.drop_left
  have hcolumn := column_within hno.2 (text.drop i) 0
  rw [Nat.zero_add] at hcolumn
  simp only [RuffLint.utf16Offset, Int.toNat_natCast]
  rw [Nat.min_eq_left (by omega), List.getD_eq_getElem?_getD, hstart, Option.getD_some, hdrop,
    hcolumn, hlength]

/-! ## The copy follows the editor -/

theorem rangePosition_of_isPosition {value : Option Json} {position : Nat × Nat}
    (h : IsPosition value position) :
    rangePosition value = some ((position.1 : Int), (position.2 : Int)) := by
  rcases h with ⟨json, rfl, hline, hcharacter, hl, hc⟩
  have hi64 : ∀ n : Nat, n < 2 ^ 31 → asI64 (.num n) = some (n : Int) := by
    intro n hn
    rw [asI64, if_pos]
    rw [i64Max]
    omega
  simp only [rangePosition, Option.bind_eq_bind, Option.bind_some, hline, hcharacter,
    hi64 _ hl, hi64 _ hc]
  rfl

/-- A described edit does to the copy what it did in the editor. -/
theorem applyChange_of_describes {text : Text} {edit : Edit} {change : Json}
    (h : Describes text edit change) : applyChange text change = some (edit.apply text) := by
  rw [applyChange_eq]
  cases h with
  | full htext hrange =>
      rcases hrange with hrange | hrange
      · simp only [parseChange, htext, hrange]
        rfl
      · simp only [parseChange, htext, hrange]
        rfl
  | @range _ range start stop new htext hrange hle hstop hfirst hlast =>
      have hparse : parseChange change = ⟨some new, .edit
          ⟨(positionAt text start).1, (positionAt text start).2⟩
          ⟨(positionAt text stop).1, (positionAt text stop).2⟩⟩ := by
        simp only [parseChange, htext, hrange]
        cases range with
        | null => rcases hfirst with ⟨json, hjson, -⟩; cases hjson
        | _ =>
            simp only [rangePosition_of_isPosition hfirst, rangePosition_of_isPosition hlast]
            rfl
      simp only [hparse, RuffLint.applyChange, utf16Offset_positionAt (hle.trans hstop),
        utf16Offset_positionAt hstop, Nat.min_eq_left hle, Nat.max_eq_right hle]
      rfl

theorem applyContentChanges_of_edits {text final : Text} {changes : List Json}
    (h : Edits text changes final) : applyContentChanges text changes = some final := by
  unfold applyContentChanges
  induction h with
  | nil => rfl
  | cons hchange _ ih =>
      rw [List.foldlM_cons, applyChange_of_describes hchange]
      exact ih

/-- A notification changes its document, when that is open, and nothing else. -/
theorem didChange_cases (docs : Docs) (params : Json) :
    (∃ uri doc version, documentUri params = some uri ∧ docs uri = some doc ∧
      didChange docs params = some (Function.update docs uri (some ⟨RuffLint.applyContentChanges
        doc.text ((contentChanges params).map parseChange), version⟩))) ∨
    ((∀ uri, documentUri params = some uri → docs uri = none) ∧
      didChange docs params = some docs) := by
  unfold didChange documentUri
  cases params.get "textDocument" with
  | none => exact .inr ⟨fun uri h => (by cases h), rfl⟩
  | some document =>
      simp only [Option.bind_some]
      cases (document.get "uri").bind asStr with
      | none => exact .inr ⟨fun uri h => (by cases h), rfl⟩
      | some uri =>
          cases hdoc : docs uri with
          | none =>
              refine .inr ⟨?_, by simp only [hdoc]⟩
              intro uri' h
              cases h
              exact hdoc
          | some doc =>
              refine .inl ⟨uri, doc, ((document.get "version").bind asI64).getD doc.version, rfl,
                hdoc, ?_⟩
              simp only [hdoc, applyContentChanges_eq, Option.bind_eq_bind, Option.bind_some]
              rfl

theorem exists_didChange (docs : Docs) (params : Json) :
    ∃ docs', didChange docs params = some docs' := by
  rcases didChange_cases docs params with ⟨uri, doc, version, -, -, h⟩ | ⟨-, h⟩
  · exact ⟨_, h⟩
  · exact ⟨_, h⟩

/-- After a session the copy of an open document is the text of the editor. -/
theorem sync_of_session {uri text final : Text} {notes : List Json}
    (h : Session uri text notes final) {docs : Docs} {version : Int}
    (hdoc : docs uri = some ⟨text, version⟩) :
    ∃ docs' version', notes.foldlM didChange docs = some docs' ∧
      docs' uri = some ⟨final, version'⟩ := by
  induction h generalizing docs version with
  | nil => exact ⟨docs, version, rfl, hdoc⟩
  | @change text text' final params changes rest huri hchanges hedits _ ih =>
      rcases didChange_cases docs params with ⟨uri', doc, version', huri', hdoc', heq⟩ | ⟨hnone, -⟩
      · rw [huri, Option.some.injEq] at huri'
        subst huri'
        rw [hdoc, Option.some.injEq] at hdoc'
        subst hdoc'
        have htext := applyContentChanges_of_edits hedits
        rw [applyContentChanges_eq, Option.some.injEq] at htext
        have hlist : contentChanges params = changes := by simp only [contentChanges, hchanges]
        rw [hlist, htext] at heq
        rw [List.foldlM_cons, heq]
        exact ih (Function.update_self _ _ _)
      · rw [hnone uri huri] at hdoc
        cases hdoc
  | @other text final params rest huri _ ih =>
      rw [List.foldlM_cons]
      rcases didChange_cases docs params with ⟨uri', doc, version', huri', -, heq⟩ | ⟨-, heq⟩
      · have hne : uri ≠ uri' := by
          rintro rfl
          exact huri huri'
        rw [heq]
        apply ih
        rw [Function.update_of_ne hne]
        exact hdoc
      · rw [heq]
        exact ih hdoc

/-- The change has no text, or an end of its range is not a position. -/
def Malformed (change : Json) : Prop :=
  (change.get "text").bind asStr = none ∨
    ∃ range, change.get "range" = some range ∧ range ≠ .null ∧
      (rangePosition (range.get "start") = none ∨ rangePosition (range.get "end") = none)

/-- Whole characters of the text are replaced. -/
def Replaced (text result : Text) : Prop :=
  ∃ i j new, i ≤ j ∧ j ≤ text.length ∧ result = text.take i ++ new ++ text.drop j

theorem applyChange_malformed {text : Text} {change : Json} (h : Malformed change) :
    RuffLint.applyChange text (parseChange change) = text := by
  rcases h with htext | ⟨range, hrange, hnull, hends⟩
  · simp only [RuffLint.applyChange, parseChange, htext]
  · have hspan : (parseChange change).range = .malformed := by
      simp only [parseChange, hrange]
      cases range with
      | null => exact absurd rfl hnull
      | _ =>
          rcases hends with hstart | hend
          · simp only [hstart]
          · simp only [hend]
            split
            · next heq => cases heq
            · rfl
    unfold RuffLint.applyChange
    rw [hspan]
    cases (parseChange change).text <;> rfl

theorem replaced_applyChange (text : Text) (change : RuffLint.Change) :
    Replaced text (RuffLint.applyChange text change) := by
  have hnothing : Replaced text text := ⟨0, 0, [], Nat.le_refl _, Nat.zero_le _, rfl⟩
  rcases change with ⟨_ | new, range⟩
  · exact hnothing
  · cases range with
    | malformed => exact hnothing
    | whole =>
        refine ⟨0, text.length, new, Nat.zero_le _, Nat.le_refl _, ?_⟩
        rw [List.drop_length, List.append_nil]
        rfl
    | edit start stop =>
        refine ⟨_, _, new, ?_, ?_, rfl⟩
        · exact Nat.le_trans (Nat.min_le_left _ _) (Nat.le_max_left _ _)
        · exact Nat.max_le.2 ⟨RuffLint.utf16Offset_le _ _, RuffLint.utf16Offset_le _ _⟩

/-- The copy is the text of the editor after every session of edits; whatever a notification
holds, nothing panics, whole characters are replaced, and a malformed change does nothing. -/
theorem sync_reconstructs :
    (∀ (docs : Docs) (uri text final : Text) (version : Int) (notes : List Json),
      docs uri = some ⟨text, version⟩ → Session uri text notes final →
      ∃ docs' version', notes.foldlM didChange docs = some docs' ∧
        docs' uri = some ⟨final, version'⟩) ∧
    (∀ (docs : Docs) (params : Json), ∃ docs', didChange docs params = some docs') ∧
    ∀ (text : Text) (change : Json), ∃ result, applyChange text change = some result ∧
      Replaced text result ∧ (Malformed change → result = text) := by
  refine ⟨?_, exists_didChange, ?_⟩
  · intro docs uri text final version notes hdoc hsession
    exact sync_of_session hsession hdoc
  · intro text change
    exact ⟨_, applyChange_eq text change, replaced_applyChange text _, applyChange_malformed⟩

/-- The second of two changes is read on the text that the first one leaves: the character outside
the basic plane, of two units, goes, and then the empty line behind the last break is filled. -/
example :
    let at_ (line character : Nat) : Json :=
      .object [("line", .num line), ("character", .num character)]
    let change (start stop : Json) (text : String) : Json :=
      .object [("range", .object [("start", start), ("end", stop)]), ("text", .str text.toList)]
    applyContentChanges "é𝄞\r\nx\n".toList
      [change (at_ 0 1) (at_ 0 3) "ab", change (at_ 2 0) (at_ 2 0) "y"] =
      some "éab\r\nx\ny".toList := by decide +kernel

end Vanyline.Sandbox.IncrementalSync
