import Vanyline.Sandbox.IncrementalSync

/-!
# Diagnostics of ruff

The wrapper of ruff turns each item of its output into a diagnostic.  Rows and columns count from
one there and from zero here; what is outside of the document is moved to its border, and a range
whose end is missing, or before its start, ends with the line.

* The JSON library is a parameter.  There is no value where the code panics, at a line behind the
  last one.
* Lines end at line feeds; a carriage return before one belongs to the line.
* `convert_ranges`: every item that is accepted gets a valid range, and that of ruff when it is one
  of the document without characters outside of the BMP.
-/

namespace Vanyline.Sandbox.RuffRanges

open Vanyline.Lib TextLines
open RuffLint (lenUtf16)
open IncrementalSync (utf16Len)

/-! ## The code -/

def i64Min : Int := -9223372036854775808

/-- `usize::try_from(n.saturating_sub(1)).unwrap_or(0).min(limit)`. -/
def clampIndex (n : Int) (limit : Nat) : Nat := min (max (n - 1) i64Min).toNat limit

/-- The row and the column of a location. -/
def readLocation (location : Json) : Option (Int × Int) := do
  let row ← (location.get "row").bind asI64
  return (row, ((location.get "column").bind asI64).getD 1)

structure Diagnostic where
  start : Nat × Nat
  stop : Nat × Nat
  severity : Nat
  code : Option Json
  message : Text
  /-- The `href` of the `codeDescription`. -/
  href : Option Text

def ruffSeverity (item : Json) : Nat :=
  match (item.get "severity").bind asStr with
  | some severity =>
    if severity = "error".toList ∨ severity = "fatal".toList then 1
    else if severity = "warning".toList then 2
    else if severity = "info".toList ∨ severity = "information".toList ∨
      severity = "notice".toList then 3
    else if severity = "hint".toList then 4
    else 2
  | none => 2

/-- The line, the character and the length of the line. -/
def clampPosition (lines : List Text) (row column : Int) : Option (Nat × Nat × Nat) := do
  let lineIdx := clampIndex row (lines.length - 1)
  let line ← lines[lineIdx]?
  return (lineIdx, clampIndex column (utf16Len line), utf16Len line)

def before (a b : Nat × Nat) : Bool := a.1 < b.1 || (a.1 == b.1 && a.2 < b.2)

/-- The file name is there, and is not that of the standard input. -/
def isForeign (item : Json) : Bool :=
  match item.get "filename" with
  | none => false
  | some filename => asStr filename != some ['-']

def endLocation (item : Json) : Option (Int × Int) :=
  match item.get "end_location" with
  | none | some .null => none
  | some location => readLocation location

def notNull : Option Json → Option Json
  | some .null => none
  | value => value

/-- The end of an item, whose line ends at `lineEnd`. -/
def endPosition (lines : List Text) (lineEnd : Nat × Nat) (item : Json) : Option (Nat × Nat) :=
  match endLocation item with
  | none => some lineEnd
  | some (row, column) => do
    let (endIdx, endChar, _) ← clampPosition lines row column
    return (endIdx, endChar)

/-- One item; the outer option is the panic. -/
def convertItem (lines : List Text) (item : Json) : Option (Option Diagnostic) :=
  if isForeign item then some none
  else match (item.get "location").bind readLocation with
    | none => some none
    | some (row, column) => do
      let (lineIdx, startChar, lineUnits) ← clampPosition lines row column
      let stop ← endPosition lines (lineIdx, lineUnits) item
      return some
        { start := (lineIdx, startChar)
          stop := if before stop (lineIdx, startChar) then (lineIdx, lineUnits) else stop
          severity := ruffSeverity item
          code := notNull (item.get "code")
          message := ((item.get "message").bind asStr).getD []
          href := (item.get "url").bind asStr }

def convertRuffOutput (parse : Text → Option Json) (ruffJson docText : Text) :
    Option (List Diagnostic) :=
  match parse ruffJson with
  | some (.arr items) => do
    let diagnostics ← items.mapM (convertItem (docText.splitOn '\n'))
    return diagnostics.filterMap id
  | _ => some []

/-! ## What it is to be right -/

/-- The items of the output. -/
def itemsOf : Option Json → List Json
  | some (.arr items) => items
  | _ => []

/-- The row is an integer, and the item is not of another file. -/
def accepted (item : Json) : Bool :=
  !isForeign item && ((item.get "location").bind readLocation).isSome

/-- The position is in a line. -/
def Inside (lines : List Text) (p : Nat × Nat) : Prop :=
  ∃ line, lines[p.1]? = some line ∧ p.2 ≤ utf16Len line

/-- A row and a column, counted from one, are a position of a line without characters outside of
the BMP. -/
def IsPosition (lines : List Text) (row column : Int) (p : Nat × Nat) : Prop :=
  ∃ line, lines[p.1]? = some line ∧ (∀ c ∈ line, c.toNat < 65536) ∧ row = p.1 + 1 ∧
    ∃ i ≤ line.length, column = i + 1 ∧ p.2 = utf16Len (line.take i)

/-- Both positions of the item are positions of the document, the end not before the start. -/
def Designates (lines : List Text) (item : Json) (start stop : Nat × Nat) : Prop :=
  ∃ row column endRow endColumn, (item.get "location").bind readLocation = some (row, column) ∧
    endLocation item = some (endRow, endColumn) ∧ IsPosition lines row column start ∧
    IsPosition lines endRow endColumn stop ∧ before stop start = false

/-- The diagnostic is one of the item, with a range of the document. -/
structure Converts (lines : List Text) (item : Json) (d : Diagnostic) : Prop where
  message : d.message = ((item.get "message").bind asStr).getD []
  code : d.code = notNull (item.get "code")
  ordered : before d.stop d.start = false
  start : Inside lines d.start
  stop : Inside lines d.stop
  exact : ∀ start stop, Designates lines item start stop → d.start = start ∧ d.stop = stop

/-! ## Positions -/

section Positions

variable {lines : List Text} {item : Json} {row column : Int}

/-- A character of the BMP is one unit. -/
theorem utf16Len_of_bmp {line : Text} (h : ∀ c ∈ line, c.toNat < 65536) :
    utf16Len line = line.length := by
  induction line with
  | nil => rfl
  | cons c line ih =>
      have hc : lenUtf16 c = 1 := if_pos (h c List.mem_cons_self)
      have hline := ih fun d hd => h d (List.mem_cons_of_mem c hd)
      rw [utf16Len, List.map_cons, List.sum_cons, hc, List.length_cons, ← hline, Nat.add_comm]
      rfl

theorem clampIndex_le (n : Int) (limit : Nat) : clampIndex n limit ≤ limit := Nat.min_le_right _ _

theorem clampIndex_succ {i limit : Nat} (h : i ≤ limit) : clampIndex (i + 1) limit = i := by
  unfold clampIndex i64Min
  omega

/-- A clamped position is in a line, and a position of the document stays where it is. -/
theorem clampPosition_spec (hlines : lines ≠ []) (row column : Int) :
    ∃ i c units, clampPosition lines row column = some (i, c, units) ∧ c ≤ units ∧
      (∃ line, lines[i]? = some line ∧ units = utf16Len line) ∧
      ∀ p, IsPosition lines row column p → p = (i, c) := by
  have hlt : clampIndex row (lines.length - 1) < lines.length := by
    have hle := clampIndex_le row (lines.length - 1)
    have hpos := List.length_pos_iff.2 hlines
    omega
  obtain ⟨line', hline'⟩ : ∃ line', lines[clampIndex row (lines.length - 1)]? = some line' :=
    ⟨_, List.getElem?_eq_getElem hlt⟩
  refine ⟨clampIndex row (lines.length - 1), clampIndex column (utf16Len line'), utf16Len line', ?_,
    clampIndex_le _ _, ⟨line', hline', rfl⟩, ?_⟩
  · simp only [clampPosition, hline', Option.bind_eq_bind, Option.bind_some]
    rfl
  · intro p hp
    obtain ⟨line, hline, hbmp, rfl, i, hi, rfl, hunits⟩ := hp
    have hrow : clampIndex (p.1 + 1) (lines.length - 1) = p.1 := by
      have hlt := (List.getElem?_eq_some_iff.1 hline).1
      exact clampIndex_succ (by omega)
    rw [hrow, hline, Option.some.injEq] at hline'
    rw [← hline', hrow, utf16Len_of_bmp hbmp, clampIndex_succ hi]
    rw [utf16Len_of_bmp fun c hc => hbmp c (List.mem_of_mem_take hc), List.length_take,
      Nat.min_eq_left hi] at hunits
    exact Prod.ext rfl hunits

/-- In one line the positions are in the order of the characters. -/
theorem before_same_line {i c d : Nat} (h : c ≤ d) : before (i, d) (i, c) = false := by
  simp [before, h]

/-- The end is in a line, and is that of the document which the item designates. -/
theorem endPosition_spec (hlines : lines ≠ []) {lineEnd : Nat × Nat}
    (hlineEnd : Inside lines lineEnd) (item : Json) :
    ∃ stop, endPosition lines lineEnd item = some stop ∧ Inside lines stop ∧
      ∀ row column p, endLocation item = some (row, column) → IsPosition lines row column p →
        p = stop := by
  cases hend : endLocation item with
  | none =>
      refine ⟨lineEnd, by rw [endPosition, hend], hlineEnd, ?_⟩
      intro row column p h
      cases h
  | some location =>
      obtain ⟨i, c, units, hclamp, hc, ⟨line, hline, rfl⟩, hexact⟩ :=
        clampPosition_spec hlines location.1 location.2
      refine ⟨(i, c), ?_, ⟨line, hline, hc⟩, ?_⟩
      · simp only [endPosition, hend, hclamp, Option.bind_eq_bind, Option.bind_some]
        rfl
      · intro row column p h hp
        cases h
        exact hexact p hp

/-- An item that is accepted gives a diagnostic, and none of the others does. -/
theorem convertItem_spec (hlines : lines ≠ []) (item : Json) :
    ∃ result, convertItem lines item = some result ∧
      (accepted item = false → result = none) ∧
      (accepted item = true → ∃ d, result = some d ∧ Converts lines item d) := by
  unfold convertItem accepted
  cases isForeign item with
  | true => exact ⟨none, rfl, fun _ => rfl, nofun⟩
  | false =>
      cases hlocation : (item.get "location").bind readLocation with
      | none => exact ⟨none, rfl, fun _ => rfl, nofun⟩
      | some location =>
          obtain ⟨i, c, units, hclamp, hc, ⟨line, hline, rfl⟩, hexact⟩ :=
            clampPosition_spec hlines location.1 location.2
          have hlineEnd : Inside lines (i, utf16Len line) := ⟨line, hline, Nat.le_refl _⟩
          obtain ⟨stop, hstop, hinside, hexactStop⟩ := endPosition_spec hlines hlineEnd item
          refine ⟨some _, by simp only [Bool.false_eq_true, if_false, hclamp, hstop,
            Option.bind_eq_bind, Option.bind_some]; rfl, nofun, fun _ => ⟨_, rfl, ?_⟩⟩
          constructor
          · rfl
          · rfl
          · dsimp only
            split_ifs with hbefore
            · exact before_same_line hc
            · exact Bool.eq_false_iff.2 hbefore
          · exact ⟨line, hline, hc⟩
          · dsimp only
            split_ifs
            · exact hlineEnd
            · exact hinside
          · intro start stop' hdesignates
            obtain ⟨row, column, endRow, endColumn, hrow, hend, hposition, hposition', hordered⟩ :=
              hdesignates
            rw [hlocation, Option.some.injEq] at hrow
            subst hrow
            rw [hexact start hposition, hexactStop endRow endColumn stop' hend hposition']
              at hordered
            dsimp only
            rw [hordered, hexact start hposition, hexactStop endRow endColumn stop' hend hposition']
            exact ⟨rfl, rfl⟩

/-- Each item that is accepted gives a diagnostic, in their order. -/
theorem mapM_convertItem (hlines : lines ≠ []) (items : List Json) :
    ∃ results, items.mapM (convertItem lines) = some results ∧
      List.Forall₂ (Converts lines) (items.filter accepted) (results.filterMap id) := by
  induction items with
  | nil => exact ⟨[], rfl, .nil⟩
  | cons item items ih =>
      obtain ⟨result, hresult, hnone, hsome⟩ := convertItem_spec hlines item
      obtain ⟨results, hresults, hforall⟩ := ih
      refine ⟨result :: results, ?_, ?_⟩
      · rw [List.mapM_cons, hresult, hresults]
        rfl
      · cases haccepted : accepted item with
        | false =>
            rw [hnone haccepted, List.filterMap_cons_none rfl,
              List.filter_cons_of_neg (by rw [haccepted]; exact Bool.false_ne_true)]
            exact hforall
        | true =>
            obtain ⟨d, rfl, hd⟩ := hsome haccepted
            have hkeep : (some d :: results).filterMap id = d :: results.filterMap id := rfl
            rw [hkeep, List.filter_cons_of_pos haccepted]
            exact .cons hd hforall

end Positions

/-! ## The output -/

/-- An item with nothing but a location. -/
def locatedAt (row column : Nat) : Json :=
  .object [("location", .object [("row", .num row), ("column", .num column)])]

/-- The lines without their terminators. -/
def bareLines (docText : Text) : List Text := (cut docText).1.map stripCr ++ [(cut docText).2]

end Vanyline.Sandbox.RuffRanges
