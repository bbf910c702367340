import Vanyline.Lib.Fields
import Vanyline.Sandbox.TextEditPlaces

/-!
# Renaming a symbol from the editor

The answer of a language server to a rename has edits of several files.  A file that is open is
changed by a transaction of CodeMirror; the text of another one is read, changed by
`applyTextEditsToString` and written.  The sandbox has a way of its own for the same edits.

* The edits of a file mean the replacement of all ranges at once, where insertions at one position
  come in the order of the array (`meaning`).  CodeMirror is a parameter that is to do just that.
* `applyTextEditsToString` replaces one range after the other, the last one first, so that of two
  insertions at one position the second one comes first; the sandbox does the same.  Behind a last
  line break the sandbox has no line.
* `rename_iff`: the three ways give the text that is meant exactly when all places are settled and,
  where the sandbox can read the edits, none of them is behind a last line break.  The files and
  their edits are always right.
-/

namespace Vanyline.Frontend.LspRename

open Vanyline.Lib TextLines
open Vanyline.Sandbox (TextEdits.applyTextEdits)

/-! ## The code -/

/-- A string of JavaScript: its UTF-16 units. -/
abbrev JsString := List UInt16

def newline : UInt16 := 10

structure LspPosition where
  line : Int
  character : Int
  deriving DecidableEq

structure LspRange where
  start : LspPosition
  stop : LspPosition
  deriving DecidableEq

structure TextEdit where
  range : LspRange
  newText : JsString
  deriving DecidableEq

/-- The edits of one file. -/
structure FileEdits where
  uri : JsString
  edits : List TextEdit
  deriving DecidableEq

/-- The entries of the object `changes` have different keys. -/
structure WorkspaceEdit where
  changes : Option (List FileEdits)
  documentChanges : Option (List FileEdits)
  nodup : ((changes.getD []).map FileEdits.uri).Nodup

/-- A document of CodeMirror, which has one line at least. -/
structure Doc where
  lines : List JsString
  lines_ne : lines ≠ []

namespace Doc

def ofText (content : JsString) : Doc := ⟨content.splitOn newline, List.splitOn_ne_nil _ _⟩

def text (doc : Doc) : JsString := [newline].intercalate doc.lines

def length (doc : Doc) : Nat := (doc.lines.map fun line => line.length + 1).sum - 1

/-- The `from` of the line with this index. -/
def lineFrom (doc : Doc) (line : Nat) : Nat :=
  ((doc.lines.take line).map fun line => line.length + 1).sum

end Doc

def positionToOffset (doc : Doc) (pos : LspPosition) : Nat :=
  if pos.line ≥ doc.lines.length then doc.length
  else
    let line := (max 1 (pos.line + 1) - 1).toNat
    let character := max 0 (min pos.character (doc.lines.getD line []).length)
    doc.lineFrom line + character.toNat

def stringPositionToOffset (content : JsString) (pos : LspPosition) : Nat :=
  let lines := content.splitOn newline
  let line := (max 0 (min pos.line (lines.length - 1))).toNat
  let character := max 0 (min pos.character (lines.getD line []).length)
  ((lines.take line).map fun line => line.length + 1).sum + character.toNat

/-- `sort` is stable. -/
def applyTextEditsToString (content : JsString) (edits : List TextEdit) : JsString :=
  let parsed := edits.map fun e =>
    ⟨stringPositionToOffset content e.range.start, stringPositionToOffset content e.range.stop,
      e.newText⟩
  Splice.applyAll (descending Splice.start parsed) content

/-- The edits behind those of the entry of their URI, or in a new entry. -/
def addEntry : List FileEdits → FileEdits → List FileEdits
  | [], dc => [dc]
  | entry :: result, dc =>
    if entry.uri = dc.uri then ⟨entry.uri, entry.edits ++ dc.edits⟩ :: result
    else entry :: addEntry result dc

def workspaceEditFiles (edit : WorkspaceEdit) : List FileEdits :=
  ((edit.documentChanges.getD []).filter fun dc => !dc.edits.isEmpty).foldl addEntry
    ((edit.changes.getD []).filter fun entry => !entry.edits.isEmpty)

def uriToPath (uri : JsString) : JsString := uri.drop 8

/-- A change of CodeMirror, which has `from`, `to` and `insert`. -/
abbrev Change := Splice UInt16

/-- The changes of the transaction. -/
def changesOf (doc : Doc) (edits : List TextEdit) : List Change :=
  edits.map fun e =>
    ⟨positionToOffset doc e.range.start, positionToOffset doc e.range.stop, e.newText⟩

/-- What the loop meets: the documents of the open files, CodeMirror, which may throw, and the
requests of the file system. -/
structure Site where
  view : JsString → Option Doc
  dispatch : Doc → List Change → Option JsString
  read : JsString → Option JsString
  write : JsString → JsString → Bool

/-- What becomes of a file, with its new text. -/
inductive Renamed
  | pendingSave (text : JsString)
  | savedToDisk (text : JsString)
  | failed
  deriving DecidableEq

/-- The body of the loop of `renameSymbolCustom`. -/
def renameFile (site : Site) (file : FileEdits) : Renamed :=
  match site.view file.uri with
  | some doc =>
    match site.dispatch doc (changesOf doc file.edits) with
    | some text => .pendingSave text
    | none => .failed
  | none =>
    match site.read (uriToPath file.uri) with
    | none => .failed
    | some content =>
      let content := applyTextEditsToString content file.edits
      if site.write (uriToPath file.uri) content then .savedToDisk content else .failed

/-! ## What the edits mean -/

namespace LspPosition

variable (content : JsString) (pos : LspPosition)

/-- The document has the line; in a line that is shorter, its end is meant. -/
def Valid : Prop := 0 ≤ pos.line ∧ pos.line < (content.splitOn newline).length ∧ 0 ≤ pos.character

/-- The units before the position. -/
def index : Nat :=
  (((content.splitOn newline).take pos.line.toNat).map fun line => line.length + 1).sum +
    min pos.character.toNat ((content.splitOn newline).getD pos.line.toNat []).length

/-- The position is in an empty line behind the last line break. -/
def BehindLastBreak : Prop :=
  pos.line + 1 = (content.splitOn newline).length ∧
    (content.splitOn newline).getLast? = some []

end LspPosition

instance (content : JsString) (pos : LspPosition) : Decidable (pos.Valid content) :=
  inferInstanceAs (Decidable (_ ∧ _ ∧ _))

instance (content : JsString) (pos : LspPosition) : Decidable (pos.BehindLastBreak content) :=
  inferInstanceAs (Decidable (_ ∧ _))

def TextEdit.splice (content : JsString) (e : TextEdit) : Change :=
  ⟨e.range.start.index content, e.range.stop.index content, e.newText⟩

def meaning (content : JsString) (edits : List TextEdit) : JsString :=
  Splice.replaceAll (edits.map (TextEdit.splice content)) content

/-- Ranges of the document that do not overlap. -/
structure ValidEdits (content : JsString) (edits : List TextEdit) : Prop where
  start_valid : ∀ e ∈ edits, e.range.start.Valid content
  stop_valid : ∀ e ∈ edits, e.range.stop.Valid content
  ordered : ∀ e ∈ edits, e.range.start.index content ≤ e.range.stop.index content
  disjoint : edits.Pairwise fun a b =>
    a.range.stop.index content ≤ b.range.start.index content ∨
      b.range.stop.index content ≤ a.range.start.index content

/-- What CodeMirror is assumed to do with changes that do not overlap. -/
def Simultaneous (dispatch : Doc → List Change → Option JsString) : Prop :=
  ∀ doc changes, Splice.Within doc.text.length changes →
    (changes.Pairwise fun s t => s.stop ≤ t.start ∨ t.stop ≤ s.start) →
      dispatch doc changes = some (Splice.replaceAll changes doc.text)

/-! ## The edits in the sandbox -/

/-- The only unit of a character of the BMP. -/
def unit (c : Char) : UInt16 := c.toNat.toUInt16

/-- The units of a text without characters outside of the BMP. -/
def units (text : Text) : JsString := text.map unit

def ofPosition (position : Sandbox.TextEdits.Position) : LspPosition :=
  ⟨position.line, position.character⟩

def ofEdit (e : Sandbox.TextEdits.TextEdit) : TextEdit :=
  ⟨⟨ofPosition e.start, ofPosition e.stop⟩, units e.newText⟩

/-- The sandbox has the same document and the same edits, and all their characters are in the
BMP. -/
structure OnBmp (content : JsString) (edits : List TextEdit) (text : Text)
    (same : List Sandbox.TextEdits.TextEdit) : Prop where
  text_bmp : ∀ c ∈ text, c.toNat < 0x10000
  new_bmp : ∀ e ∈ same, ∀ c ∈ e.newText, c.toNat < 0x10000
  content_eq : content = units text
  edits_eq : edits = same.map ofEdit

/-- All ways to apply the edits of a file give the text that is meant. -/
structure Agree (content : JsString) (file : FileEdits) : Prop where
  closed : ∀ site : Site, site.view file.uri = none →
    site.read (uriToPath file.uri) = some content →
      (∀ text, site.write (uriToPath file.uri) text = true) →
        renameFile site file = .savedToDisk (meaning content file.edits)
  opened : ∀ site : Site, Simultaneous site.dispatch →
    site.view file.uri = some (Doc.ofText content) →
      renameFile site file = .pendingSave (meaning content file.edits)
  sandbox : ∀ text same, OnBmp content file.edits text same → ∀ values,
    List.Forall₂ Sandbox.TextEdits.TextEdit.Written values same →
      ∃ result, Sandbox.TextEdits.applyTextEdits text values = .ok result ∧
        units result = meaning content file.edits

/-- All edits of a file, in their order. -/
def editsOf (edit : WorkspaceEdit) (uri : JsString) : List TextEdit :=
  (((edit.changes.getD []) ++ edit.documentChanges.getD []).filter fun entry =>
    entry.uri = uri).flatMap FileEdits.edits

/-- One entry for each file, every edit once, and the same text in every way. -/
structure Faithful (edit : WorkspaceEdit) (contents : JsString → JsString) : Prop where
  one_entry : ((workspaceEditFiles edit).map FileEdits.uri).Nodup
  every_edit : ∀ uri, ((workspaceEditFiles edit).filter fun file => file.uri = uri).flatMap
    FileEdits.edits = editsOf edit uri
  agree : ∀ file ∈ workspaceEditFiles edit, Agree (contents file.uri) file

/-- What comes out at each place is what is meant there, and where the sandbox can read the edits
no position is behind a last line break. -/
structure Sound (content : JsString) (edits : List TextEdit) : Prop where
  settled : ∀ s ∈ edits.map (TextEdit.splice content),
    Splice.Settled (edits.map (TextEdit.splice content)) content s.start
  in_lines : (∃ text same, OnBmp content edits text same) → ∀ e ∈ edits,
    ¬ e.range.start.BehindLastBreak content ∧ ¬ e.range.stop.BehindLastBreak content

variable {content : JsString} {edits : List TextEdit} {pos : LspPosition}

/-! ## Positions -/

theorem sum_splitOn (content : JsString) :
    ((content.splitOn newline).map fun line => line.length + 1).sum = content.length + 1 := by
  induction content with
  | nil => rfl
  | cons u content ih =>
      rw [List.splitOn_cons_eq_if_modifyHead]
      split_ifs
      · rw [List.map_cons, List.sum_cons, ih, List.length_nil, List.length_cons]
        omega
      · cases hsplit : content.splitOn newline with
        | nil => exact absurd hsplit (List.splitOn_ne_nil _ _)
        | cons line lines =>
            rw [hsplit, List.map_cons, List.sum_cons] at ih
            rw [List.modifyHead_cons, List.map_cons, List.sum_cons, List.length_cons,
              List.length_cons]
            omega

theorem LspPosition.index_le (h : pos.Valid content) : pos.index content ≤ content.length := by
  obtain ⟨hline, hlt, -⟩ := h
  have hlt : pos.line.toNat < (content.splitOn newline).length := by omega
  have hsum := sum_splitOn content
  rw [← List.take_append_drop pos.line.toNat (content.splitOn newline),
    List.drop_eq_getElem_cons hlt, List.map_append, List.map_cons, List.sum_append,
    List.sum_cons] at hsum
  rw [index, List.getD_eq_getElem?_getD, List.getElem?_eq_getElem hlt, Option.getD_some]
  omega

theorem stringPositionToOffset_eq (h : pos.Valid content) :
    stringPositionToOffset content pos = pos.index content := by
  obtain ⟨hline, hlt, hcharacter⟩ := h
  have hclamp : (max 0 (min pos.line ((content.splitOn newline).length - 1))).toNat =
      pos.line.toNat := by omega
  rw [stringPositionToOffset, hclamp, LspPosition.index]
  omega

theorem positionToOffset_eq (h : pos.Valid content) :
    positionToOffset (Doc.ofText content) pos = pos.index content := by
  obtain ⟨hline, hlt, hcharacter⟩ := h
  have hclamp : (max 1 (pos.line + 1) - 1).toNat = pos.line.toNat := by omega
  have hinside : ¬ pos.line ≥ (Doc.ofText content).lines.length := Int.not_le.2 hlt
  have hfrom : (Doc.ofText content).lineFrom pos.line.toNat =
      (((content.splitOn newline).take pos.line.toNat).map fun line => line.length + 1).sum := rfl
  have hlines : (Doc.ofText content).lines = content.splitOn newline := rfl
  rw [positionToOffset, if_neg hinside, hclamp]
  dsimp only
  rw [hfrom, hlines, LspPosition.index]
  omega

theorem text_ofText (content : JsString) : (Doc.ofText content).text = content :=
  List.intercalate_splitOn newline

/-! ## The file that is not open -/

section Valid

variable (hvalid : ValidEdits content edits)
include hvalid

theorem within_splices :
    Splice.Within content.length (edits.map (TextEdit.splice content)) := by
  refine List.forall_mem_map.2 fun e he => ?_
  exact ⟨hvalid.ordered e he, LspPosition.index_le (hvalid.stop_valid e he)⟩

theorem disjoint_splices : (edits.map (TextEdit.splice content)).Pairwise
    fun s t => s.stop ≤ t.start ∨ t.stop ≤ s.start :=
  List.pairwise_map.2 hvalid.disjoint

theorem applyTextEditsToString_eq : applyTextEditsToString content edits =
    Splice.applyAll (descending Splice.start (edits.map (TextEdit.splice content))) content := by
  have hparsed : (edits.map fun e => (⟨stringPositionToOffset content e.range.start,
      stringPositionToOffset content e.range.stop, e.newText⟩ : Change)) =
        edits.map (TextEdit.splice content) := by
    refine List.map_congr_left fun e he => ?_
    rw [stringPositionToOffset_eq (hvalid.start_valid e he),
      stringPositionToOffset_eq (hvalid.stop_valid e he)]
    rfl
  rw [applyTextEditsToString, hparsed]

/-- A text that is read and written is the one that is meant when all places are settled. -/
theorem applyTextEditsToString_iff : applyTextEditsToString content edits = meaning content edits ↔
    ∀ s ∈ edits.map (TextEdit.splice content),
      Splice.Settled (edits.map (TextEdit.splice content)) content s.start := by
  rw [applyTextEditsToString_eq hvalid, meaning]
  exact Splice.applyAll_eq_replaceAll_iff (within_splices hvalid) (disjoint_splices hvalid)

/-! ## The open file -/

theorem renameFile_opened {site : Site} {uri : JsString} (hdispatch : Simultaneous site.dispatch)
    (hview : site.view uri = some (Doc.ofText content)) :
    renameFile site ⟨uri, edits⟩ = .pendingSave (meaning content edits) := by
  have hchanges : changesOf (Doc.ofText content) edits =
      edits.map (TextEdit.splice content) := by
    refine List.map_congr_left fun e he => ?_
    rw [positionToOffset_eq (hvalid.start_valid e he),
      positionToOffset_eq (hvalid.stop_valid e he)]
    rfl
  have hresult : site.dispatch (Doc.ofText content) (changesOf (Doc.ofText content) edits) =
      some (meaning content edits) := by
    rw [hchanges, hdispatch _ _ _ (disjoint_splices hvalid), text_ofText, meaning]
    rw [text_ofText]
    exact within_splices hvalid
  rw [renameFile, hview]
  dsimp only
  rw [hresult]

end Valid

/-! ## The files of the answer -/

theorem mem_uris_addEntry (result : List FileEdits) (dc : FileEdits) (uri : JsString) :
    uri ∈ (addEntry result dc).map FileEdits.uri ↔
      uri ∈ result.map FileEdits.uri ∨ uri = dc.uri := by
  induction result with
  | nil => simp [addEntry]
  | cons entry result ih =>
      rw [addEntry]
      split_ifs with heq
      · rw [List.map_cons, List.map_cons, List.mem_cons]
        constructor
        · exact .inl
        · intro h
          rcases h with h | rfl
          · exact h
          · exact .inl heq.symm
      · rw [List.map_cons, List.mem_cons, ih, List.map_cons, List.mem_cons, or_assoc]

theorem nodup_addEntry {result : List FileEdits} (h : (result.map FileEdits.uri).Nodup)
    (dc : FileEdits) : ((addEntry result dc).map FileEdits.uri).Nodup := by
  induction result with
  | nil => exact List.nodup_singleton dc.uri
  | cons entry result ih =>
      rw [List.map_cons, List.nodup_cons] at h
      rw [addEntry]
      split_ifs with heq
      · exact List.nodup_cons.2 h
      · rw [List.map_cons, List.nodup_cons, mem_uris_addEntry]
        exact ⟨fun hmem => hmem.elim h.1 heq, ih h.2⟩

/-- The edits of a file among the entries. -/
def found (files : List FileEdits) (uri : JsString) : List TextEdit :=
  (files.filter fun file => file.uri = uri).flatMap FileEdits.edits

theorem found_nil (uri : JsString) : found [] uri = [] := rfl

theorem found_cons (file : FileEdits) (files : List FileEdits) (uri : JsString) :
    found (file :: files) uri =
      (if file.uri = uri then file.edits else []) ++ found files uri := by
  rw [found, List.filter_cons]
  split_ifs with h h' h'
  · rfl
  · exact absurd (of_decide_eq_true h) h'
  · exact absurd (decide_eq_true h') h
  · rfl

theorem found_eq_nil {files : List FileEdits} {uri : JsString}
    (h : uri ∉ files.map FileEdits.uri) : found files uri = [] := by
  have hnone : (files.filter fun file => file.uri = uri) = [] := by
    refine List.filter_eq_nil_iff.2 fun file hfile heq => h ?_
    exact List.mem_map.2 ⟨file, hfile, of_decide_eq_true heq⟩
  rw [found, hnone, List.flatMap_nil]

/-- The new edits come behind those of their file. -/
theorem found_addEntry {result : List FileEdits} (h : (result.map FileEdits.uri).Nodup)
    (dc : FileEdits) (uri : JsString) :
    found (addEntry result dc) uri = found result uri ++ found [dc] uri := by
  induction result with
  | nil => rfl
  | cons entry result ih =>
      rw [List.map_cons, List.nodup_cons] at h
      rw [addEntry]
      split_ifs with heq
      · rw [found_cons, found_cons, found_cons dc, ← heq]
        by_cases hentry : entry.uri = uri
        · rw [if_pos hentry, if_pos hentry, if_pos hentry, found_eq_nil (hentry ▸ h.1)]
          rw [found_nil, List.append_nil, List.append_nil, List.append_nil]
        · rw [if_neg hentry, if_neg hentry, if_neg hentry, found_nil, List.append_nil,
            List.append_nil]
      · rw [found_cons, found_cons, ih h.2, List.append_assoc]

theorem foldl_addEntry (more : List FileEdits) {result : List FileEdits}
    (h : (result.map FileEdits.uri).Nodup) :
    ((more.foldl addEntry result).map FileEdits.uri).Nodup ∧
      ∀ uri, found (more.foldl addEntry result) uri = found result uri ++ found more uri := by
  induction more generalizing result with
  | nil => exact ⟨h, fun uri => (List.append_nil _).symm⟩
  | cons dc more ih =>
      obtain ⟨hnodup, hfound⟩ := ih (nodup_addEntry h dc)
      refine ⟨hnodup, fun uri => ?_⟩
      have hdc : found (dc :: more) uri = found [dc] uri ++ found more uri := by
        rw [found_cons, found_cons dc, found_nil, List.append_nil]
      rw [List.foldl_cons, hfound, found_addEntry h, hdc, List.append_assoc]

/-- Entries without edits do not count. -/
theorem found_filter (files : List FileEdits) (uri : JsString) :
    found (files.filter fun file => !file.edits.isEmpty) uri = found files uri := by
  induction files with
  | nil => rfl
  | cons file files ih =>
      rw [found_cons, List.filter_cons]
      cases hedits : file.edits with
      | nil =>
          rw [if_neg (by rw [List.isEmpty_nil]; exact Bool.false_ne_true), ih, ite_self]
          rfl
      | cons e more =>
          have hnonempty : (!(e :: more).isEmpty) = true := rfl
          rw [if_pos hnonempty, found_cons, ih, hedits]

/-- One entry for each file. -/
theorem nodup_files (edit : WorkspaceEdit) :
    ((workspaceEditFiles edit).map FileEdits.uri).Nodup := by
  have hsub : List.Sublist
      (((edit.changes.getD []).filter fun file => !file.edits.isEmpty).map FileEdits.uri)
        ((edit.changes.getD []).map FileEdits.uri) := List.filter_sublist.map _
  exact (foldl_addEntry _ (edit.nodup.sublist hsub)).1

/-- Every edit is kept once. -/
theorem found_files (edit : WorkspaceEdit) (uri : JsString) :
    found (workspaceEditFiles edit) uri = editsOf edit uri := by
  have hsub : List.Sublist
      (((edit.changes.getD []).filter fun file => !file.edits.isEmpty).map FileEdits.uri)
        ((edit.changes.getD []).map FileEdits.uri) := List.filter_sublist.map _
  rw [workspaceEditFiles, (foldl_addEntry _ (edit.nodup.sublist hsub)).2, found_filter,
    found_filter, editsOf, List.filter_append, List.flatMap_append]
  rfl

theorem edits_eq_of_mem {edit : WorkspaceEdit} {file : FileEdits}
    (h : file ∈ workspaceEditFiles edit) : file.edits = editsOf edit file.uri := by
  obtain ⟨front, back, hfiles⟩ := List.append_of_mem h
  have hnodup := nodup_files edit
  rw [hfiles, List.map_append, List.map_cons, List.nodup_append] at hnodup
  obtain ⟨-, hback, hcross⟩ := hnodup
  have hfront : file.uri ∉ front.map FileEdits.uri := fun hmem =>
    hcross _ hmem _ (List.mem_cons_self ..) rfl
  have hfound : found front file.uri = [] := found_eq_nil hfront
  rw [← found_files, hfiles, found, List.filter_append, List.flatMap_append, ← found, hfound,
    ← found, found_cons, if_pos rfl, found_eq_nil (List.nodup_cons.1 hback).1, List.append_nil]
  rfl

/-! ## The sandbox -/

section Units

variable {text : Text} {c : Char}

/-- The character of a unit that is one of the BMP. -/
def charOf (u : UInt16) : Char := Char.ofNat u.toNat

theorem toNat_unit (h : c.toNat < 0x10000) : (unit c).toNat = c.toNat := by
  show c.toNat % 2 ^ 16 = c.toNat
  exact Nat.mod_eq_of_lt h

theorem charOf_unit (h : c.toNat < 0x10000) : charOf (unit c) = c := by
  rw [charOf, toNat_unit h, Char.ofNat_toNat]

theorem unit_inj {d : Char} (hc : c.toNat < 0x10000) (hd : d.toNat < 0x10000) :
    unit c = unit d ↔ c = d := by
  refine ⟨fun h => ?_, congrArg unit⟩
  rw [← charOf_unit hc, h, charOf_unit hd]

theorem map_charOf_units (h : ∀ c ∈ text, c.toNat < 0x10000) : (units text).map charOf = text := by
  rw [units, List.map_map]
  exact (List.map_congr_left fun c hc => charOf_unit (h c hc)).trans (List.map_id text)

variable (hbmp : ∀ c ∈ text, c.toNat < 0x10000)
include hbmp

/-- The lines of the units. -/
theorem splitOn_units : (units text).splitOn newline = (text.splitOn '\n').map units := by
  induction text with
  | nil => rfl
  | cons c text ih =>
      rw [List.forall_mem_cons] at hbmp
      have hfeed : '\n'.toNat < 0x10000 := by decide
      have hnewline : (unit c == newline) = (c == '\n') := by
        rw [Bool.eq_iff_iff, beq_iff_eq, beq_iff_eq]
        exact unit_inj hbmp.1 hfeed
      show ((unit c :: units text).splitOn newline) = _
      rw [List.splitOn_cons_eq_if_modifyHead, List.splitOn_cons_eq_if_modifyHead, hnewline,
        ih hbmp.2]
      split_ifs
      · rfl
      · cases text.splitOn '\n' with
        | nil => rfl
        | cons line lines => rfl

end Units

theorem length_unlines (ls : List Text) :
    (unlines ls).length = (ls.map fun line => line.length + 1).sum := by
  induction ls with
  | nil => rfl
  | cons line ls ih =>
      rw [unlines_cons, List.length_append, List.length_cons, ih, List.map_cons, List.sum_cons]
      omega

section OnBmp

variable {text : Text} {same : List Sandbox.TextEdits.TextEdit}
  {position : Sandbox.TextEdits.Position}

/-- No line of the text has a carriage return. -/
theorem stripCr_cut (h : '\r' ∉ text) : (cut text).1.map stripCr = (cut text).1 := by
  have hlines : ∀ line ∈ (cut text).1, '\r' ∉ line := by
    intro line hline hcr
    apply h
    rw [← unlines_cut text]
    exact List.mem_append_left _ (List.mem_flatMap.2 ⟨line, hline, List.mem_append_left _ hcr⟩)
  exact (List.map_congr_left fun line hline => stripCr_of_notMem (hlines line hline)).trans
    (List.map_id _)

variable (hbmp : ∀ c ∈ text, c.toNat < 0x10000) (hcr : '\r' ∉ text)
include hbmp hcr

theorem lines_units :
    (units text).splitOn newline = (Sandbox.TextEdits.documentLines text).map units := by
  rw [splitOn_units hbmp, Fields.splitOn_newline, Sandbox.TextEdits.documentLines, stripCr_cut hcr]

theorem valid_iff : (ofPosition position).Valid (units text) ↔ position.Valid text := by
  rw [LspPosition.Valid, lines_units hbmp hcr, List.length_map, Sandbox.TextEdits.Position.Valid,
    ofPosition]
  dsimp only
  omega

theorem index_ofPosition (h : position.Valid text) :
    (ofPosition position).index (units text) = position.index text := by
  have hle := Sandbox.TextEdits.valid_iff.1 h
  have hgetD : (((Sandbox.TextEdits.documentLines text).map units).getD position.line []).length =
      (Sandbox.TextEdits.lineAt text position.line).length := by
    rw [Sandbox.TextEdits.lineAt, List.getD_eq_getElem?_getD, List.getD_eq_getElem?_getD,
      List.getElem?_map]
    cases (Sandbox.TextEdits.documentLines text)[position.line]? with
    | none => rfl
    | some line => exact List.length_map _
  have htake : ((Sandbox.TextEdits.documentLines text).map units).take position.line =
      ((cut text).1.take position.line).map units := by
    rw [← List.map_take, Sandbox.TextEdits.documentLines, stripCr_cut hcr,
      List.take_append_of_le_length hle]
  have hsum : ((((cut text).1.take position.line).map units).map fun line =>
      line.length + 1).sum = (unlines ((cut text).1.take position.line)).length := by
    rw [length_unlines, List.map_map]
    refine congrArg List.sum (List.map_congr_left fun line _ => ?_)
    show (units line).length + 1 = line.length + 1
    rw [units, List.length_map]
  rw [Sandbox.TextEdits.index_eq hbmp h, LspPosition.index, lines_units hbmp hcr, ofPosition]
  dsimp only
  rw [Int.toNat_natCast, Int.toNat_natCast, htake, hsum, hgetD]
  rfl

/-- The sandbox counts every line but an empty one behind the last line break. -/
theorem in_lines_iff (h : position.Valid text) :
    position.line < (lines text).length ↔ ¬ (ofPosition position).BehindLastBreak (units text) := by
  have hle := Sandbox.TextEdits.valid_iff.1 h
  rw [LspPosition.BehindLastBreak, lines_units hbmp hcr, List.length_map,
    Sandbox.TextEdits.documentLines, List.map_append, List.map_singleton,
    List.getLast?_concat, List.length_append, List.length_map, List.length_singleton, lines,
    List.length_append, List.length_map, ofPosition, Option.some.injEq, units, List.map_eq_nil_iff]
  by_cases hlast : (cut text).2 = []
  · rw [if_pos hlast, List.length_nil]
    simp only [hlast, and_true]
    omega
  · rw [if_neg hlast, List.length_singleton]
    simp only [hlast, and_false, not_false_eq_true, iff_true]
    omega

end OnBmp

theorem carriageReturn_notMem {text : Text} (h : 13 ∉ units text) : '\r' ∉ text := fun hmem =>
  h (List.mem_map.2 ⟨'\r', hmem, rfl⟩)

section Same

variable {text : Text} {same : List Sandbox.TextEdits.TextEdit}
  (hsame : OnBmp content edits text same) (hlf : 13 ∉ content)
include hsame hlf

/-- The edits of the sandbox are valid as well. -/
theorem validEdits_sandbox (hvalid : ValidEdits content edits) :
    Sandbox.TextEdits.ValidEdits text same := by
  obtain ⟨hbmp, -, rfl, rfl⟩ := hsame
  have hcr := carriageReturn_notMem hlf
  have hstart : ∀ e ∈ same, e.start.Valid text := fun e he =>
    (valid_iff hbmp hcr).1 (hvalid.start_valid _ (List.mem_map_of_mem he))
  have hstop : ∀ e ∈ same, e.stop.Valid text := fun e he =>
    (valid_iff hbmp hcr).1 (hvalid.stop_valid _ (List.mem_map_of_mem he))
  refine ⟨hstart, hstop, fun e he => ?_, ?_⟩
  · have hordered := hvalid.ordered _ (List.mem_map_of_mem he)
    rwa [ofEdit, index_ofPosition hbmp hcr (hstart e he),
      index_ofPosition hbmp hcr (hstop e he)] at hordered
  · refine (List.pairwise_map.1 hvalid.disjoint).imp_of_mem fun {a b} ha hb hdisjoint => ?_
    rwa [ofEdit, ofEdit, index_ofPosition hbmp hcr (hstop a ha),
      index_ofPosition hbmp hcr (hstart b hb), index_ofPosition hbmp hcr (hstop b hb),
      index_ofPosition hbmp hcr (hstart a ha)] at hdisjoint

/-- The splices are those of the sandbox. -/
theorem splices_eq (hvalid : ValidEdits content edits) :
    edits.map (TextEdit.splice content) =
      (same.map (Sandbox.TextEdits.TextEdit.splice text)).map (Splice.map unit) := by
  have hvalid' := validEdits_sandbox hsame hlf hvalid
  obtain ⟨hbmp, -, rfl, rfl⟩ := hsame
  have hcr := carriageReturn_notMem hlf
  rw [List.map_map, List.map_map]
  refine List.map_congr_left fun e he => ?_
  show TextEdit.splice (units text) (ofEdit e) =
    Splice.map unit (Sandbox.TextEdits.TextEdit.splice text e)
  rw [TextEdit.splice, ofEdit, index_ofPosition hbmp hcr (hvalid'.start_valid e he),
    index_ofPosition hbmp hcr (hvalid'.stop_valid e he)]
  rfl

theorem meaning_units (hvalid : ValidEdits content edits) :
    meaning content edits = units (Sandbox.TextEdits.meaning text same) := by
  rw [meaning, splices_eq hsame hlf hvalid, hsame.content_eq, units, Splice.replaceAll_map]
  rfl

/-- A place that is settled in units is settled in characters. -/
theorem settled_sandbox (hvalid : ValidEdits content edits)
    (hsettled : ∀ s ∈ edits.map (TextEdit.splice content),
      Splice.Settled (edits.map (TextEdit.splice content)) content s.start) :
    ∀ s ∈ same.map (Sandbox.TextEdits.TextEdit.splice text),
      Splice.Settled (same.map (Sandbox.TextEdits.TextEdit.splice text)) text s.start := by
  have hback : ((edits.map (TextEdit.splice content)).map (Splice.map charOf)) =
      same.map (Sandbox.TextEdits.TextEdit.splice text) := by
    rw [splices_eq hsame hlf hvalid, List.map_map, List.map_map]
    refine List.map_congr_left fun e he => ?_
    exact congrArg (Splice.mk _ _) (map_charOf_units (hsame.new_bmp e he))
  have hcontent : content.map charOf = text := by
    rw [hsame.content_eq, map_charOf_units hsame.text_bmp]
  intro s hs
  rw [splices_eq hsame hlf hvalid] at hsettled
  have hplace := (hsettled _ (List.mem_map_of_mem hs)).map charOf
  rw [← splices_eq hsame hlf hvalid, hback, hcontent] at hplace
  exact hplace

/-- The sandbox applies the edits as they are meant. -/
theorem sandbox_of_sound (hvalid : ValidEdits content edits) (hsound : Sound content edits) :
    Sandbox.TextEdits.Applied text same := by
  have hvalid' := validEdits_sandbox hsame hlf hvalid
  have hsettled := settled_sandbox hsame hlf hvalid hsound.settled
  have hin := hsound.in_lines ⟨text, same, hsame⟩
  obtain ⟨hbmp, -, rfl, rfl⟩ := hsame
  have hcr := carriageReturn_notMem hlf
  have hplain : ∀ position : Sandbox.TextEdits.Position, position.Valid text →
      ¬ (ofPosition position).BehindLastBreak (units text) → position.Plain text := by
    intro position hposition hbehind
    refine ⟨fun line hline hlast => hcr ?_, (in_lines_iff hbmp hcr hposition).2 hbehind⟩
    rw [← unlines_cut text]
    exact List.mem_append_left _ (List.mem_flatMap.2 ⟨line, List.mem_of_mem_take hline,
      List.mem_append_left _ (List.mem_of_getLast? hlast)⟩)
  refine Sandbox.TextEdits.applied_of_settled hbmp hvalid' (fun e he => ?_) hsettled
  obtain ⟨hstart, hstop⟩ := hin _ (List.mem_map_of_mem he)
  exact ⟨hplain e.start (hvalid'.start_valid e he) hstart,
    hplain e.stop (hvalid'.stop_valid e he) hstop⟩

/-- When the sandbox has a result, no position is behind the last line break. -/
theorem in_lines_of_ok (hvalid : ValidEdits content edits) {values : List Json} {result : Text}
    (hwritten : List.Forall₂ Sandbox.TextEdits.TextEdit.Written values same)
    (hok : Sandbox.TextEdits.applyTextEdits text values = .ok result) :
    ∀ e ∈ edits, ¬ e.range.start.BehindLastBreak content ∧
      ¬ e.range.stop.BehindLastBreak content := by
  have hvalid' := validEdits_sandbox hsame hlf hvalid
  have hread := (Sandbox.TextEdits.replaceRanges_of_ok hwritten hok).1
  obtain ⟨hbmp, -, rfl, rfl⟩ := hsame
  have hcr := carriageReturn_notMem hlf
  refine List.forall_mem_map.2 fun e he => ?_
  obtain ⟨hstart, hstop, -⟩ := hread e he
  exact ⟨(in_lines_iff hbmp hcr (hvalid'.start_valid e he)).1 hstart,
    (in_lines_iff hbmp hcr (hvalid'.stop_valid e he)).1 hstop⟩

end Same

/-! ## All ways -/

theorem renameFile_closed {site : Site} {file : FileEdits} (hview : site.view file.uri = none)
    (hread : site.read (uriToPath file.uri) = some content)
    (hwrite : ∀ text, site.write (uriToPath file.uri) text = true) :
    renameFile site file = .savedToDisk (applyTextEditsToString content file.edits) := by
  rw [renameFile, hview]
  dsimp only
  rw [hread]
  dsimp only
  rw [hwrite, if_pos rfl]

/-- One file, which is not open. -/
def closedSite (content : JsString) : Site where
  view := fun _ => none
  dispatch := fun _ _ => none
  read := fun _ => some content
  write := fun _ _ => true

theorem agree_on_file_iff {file : FileEdits} (hlf : 13 ∉ content)
    (hvalid : ValidEdits content file.edits) : Agree content file ↔ Sound content file.edits := by
  constructor
  · intro h
    refine ⟨?_, fun hsame => ?_⟩
    · have hclosed := h.closed (closedSite content) rfl rfl fun _ => rfl
      rw [renameFile_closed rfl rfl fun _ => rfl, Renamed.savedToDisk.injEq] at hclosed
      exact (applyTextEditsToString_iff hvalid).1 hclosed
    · obtain ⟨text, same, hsame⟩ := hsame
      obtain ⟨values, hwritten⟩ := Sandbox.TextEdits.exists_written same
      obtain ⟨result, hok, -⟩ := h.sandbox text same hsame values hwritten
      exact in_lines_of_ok hsame hlf hvalid hwritten hok
  · intro hsound
    refine ⟨fun site hview hread hwrite => ?_, fun site hdispatch hview => ?_,
      fun text same hsame values hwritten => ?_⟩
    · rw [renameFile_closed hview hread hwrite,
        (applyTextEditsToString_iff hvalid).2 hsound.settled]
    · exact renameFile_opened hvalid hdispatch hview
    · exact ⟨_, sandbox_of_sound hsame hlf hvalid hsound values hwritten,
        (meaning_units hsame hlf hvalid).symm⟩

/-- A rename keeps every edit once in one entry for each file, and gives the same text in every way,
exactly when all places are settled and no position that the sandbox can read is behind a last line
break. -/
theorem rename_iff (edit : WorkspaceEdit) (contents : JsString → JsString)
    (hlf : ∀ uri, 13 ∉ contents uri)
    (hvalid : ∀ uri, ValidEdits (contents uri) (editsOf edit uri)) :
    Faithful edit contents ↔ ∀ uri, Sound (contents uri) (editsOf edit uri) := by
  have hagree : ∀ file ∈ workspaceEditFiles edit,
      Agree (contents file.uri) file ↔ Sound (contents file.uri) (editsOf edit file.uri) := by
    intro file hfile
    have hedits := edits_eq_of_mem hfile
    rw [← hedits]
    exact agree_on_file_iff (hlf file.uri) (hedits ▸ hvalid file.uri)
  constructor
  · intro h uri
    by_cases hmem : uri ∈ (workspaceEditFiles edit).map FileEdits.uri
    · obtain ⟨file, hfile, rfl⟩ := List.mem_map.1 hmem
      exact (hagree file hfile).1 (h.agree file hfile)
    · have hnone : editsOf edit uri = [] := by
        rw [← found_files, found_eq_nil hmem]
      rw [hnone]
      exact ⟨fun s hs => absurd hs List.not_mem_nil, fun _ e he => absurd he List.not_mem_nil⟩
  · intro h
    exact ⟨nodup_files edit, found_files edit,
      fun file hfile => (hagree file hfile).2 (h file.uri)⟩

/-- The edits of the only file, which are divided between the two parts of the answer. -/
def oneFile (uri : JsString) (first second : List TextEdit) : WorkspaceEdit where
  changes := some [⟨uri, first⟩]
  documentChanges := some [⟨uri, second⟩]
  nodup := List.nodup_singleton uri

theorem editsOf_oneFile (uri other : JsString) (first second : List TextEdit) :
    editsOf (oneFile uri first second) other = if uri = other then first ++ second else [] := by
  show found [⟨uri, first⟩, ⟨uri, second⟩] other = _
  rw [found_cons, found_cons, found_nil, List.append_nil]
  split_ifs
  · rfl
  · rfl

/-- A text for units of the first line. -/
def editAt (start stop : Int) (newText : String) : TextEdit :=
  ⟨⟨⟨0, start⟩, ⟨0, stop⟩⟩, units newText.toList⟩

theorem forall_oneFile {p : List TextEdit → Prop} {uri : JsString} {first second : List TextEdit}
    (hboth : p (first ++ second)) (hnone : p []) (other : JsString) :
    p (editsOf (oneFile uri first second) other) := by
  rw [editsOf_oneFile]
  split_ifs
  · exact hboth
  · exact hnone

/-- A replacement and an insertion that touches it. -/
theorem rename_iff_touching :
    Faithful (oneFile (units "file:///a".toList) [editAt 0 1 "new"] [editAt 1 1 "s"])
      fun _ => units "x.y\n".toList := by
  refine (rename_iff _ _ (fun _ => by decide) (forall_oneFile ⟨by decide, by decide, by decide,
    by decide⟩ ⟨by decide, by decide, by decide, by decide⟩)).2 (forall_oneFile ?_ ?_)
  · exact ⟨by decide, fun _ => by decide⟩
  · exact ⟨by decide, fun _ => by decide⟩

/-- Two insertions at one position come out in the opposite order in a file that is not open. -/
theorem insertions_reversed : ¬ ∀ edit contents, (∀ uri, 13 ∉ contents uri) →
    (∀ uri, ValidEdits (contents uri) (editsOf edit uri)) → Faithful edit contents := by
  intro h
  have hfaithful := h (oneFile (units "file:///a".toList) [editAt 0 0 "A"] [editAt 0 0 "B"])
    (fun _ => units "x".toList) (fun _ => by decide)
    (forall_oneFile ⟨by decide, by decide, by decide, by decide⟩
      ⟨by decide, by decide, by decide, by decide⟩)
  have hclosed := (hfaithful.agree ⟨units "file:///a".toList, [editAt 0 0 "A", editAt 0 0 "B"]⟩
    (by decide)).closed (closedSite (units "x".toList)) rfl rfl fun _ => rfl
  exact absurd hclosed (by decide)

end Vanyline.Frontend.LspRename
