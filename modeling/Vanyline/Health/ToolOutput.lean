import Mathlib.Data.Prod.Lex
import Mathlib.Order.WithBot
import Vanyline.Health.Expansion
import Vanyline.Health.Lcov
import Vanyline.Lib.SortDedup

/-!
# The issues that are read from the output of the tools

Cargo and ruff print their diagnostics as JSON, and tsc as text.  What is read is sorted by path,
line, column and code, and of neighbours that also have one message the first is kept.

`Deduplicated` says that the list has each diagnostic once.  It holds exactly if no diagnostic comes
again behind another one of the same place and code (`deduplicated_iff`).

The readers of `serde_json` are parameters: `fromStr` for a value, and `readRuff` for the list of
`RuffDiagnostic`.
-/

namespace Vanyline.Health.ToolOutput

open Vanyline.Lib TextLines Fields
open Diff (u32Max parseU32)
open Expansion (invalidCheck)

/-! ## Issues -/

inductive Severity
  | error
  | warning
deriving DecidableEq

structure Issue where
  checkId : Text
  path : Text
  line : Nat
  column : Nat
  severity : Severity
  code : Option Text
  message : Text
deriving DecidableEq

/-- The order of issues; no code comes before all codes. -/
abbrev Key := Text ×ₗ Nat ×ₗ Nat ×ₗ WithBot Text

namespace Issue

variable (issue : Issue)

def key : Key :=
  toLex (issue.path, toLex (issue.line, toLex (issue.column, (issue.code : WithBot Text))))

/-- What the same diagnostics agree on. -/
def face : Text × Nat × Nat × Option Text × Text :=
  (issue.path, issue.line, issue.column, issue.code, issue.message)

end Issue

/-- `sort_dedup`, which the three parsers have in common. -/
def sortDedup (issues : List Issue) : List Issue := Lib.sortDedup Issue.key Issue.face issues

/-- `relativize` of cargo and of ruff. -/
def relativize (fileName : Text) (root : Path) : Option Text := Lcov.relativize fileName root []

/-! ## Cargo -/

def asStr : Option Json → Option Text
  | some (.str text) => some text
  | _ => none

def asU32 (value : Json) (key : String) : Option Nat :=
  match value.get key with
  | some (.num n) => if n ≤ u32Max then some n else none
  | _ => none

def levelSeverity (level : Option Text) : Option Severity :=
  if level = some "error".toList then some .error
  else if level = some "warning".toList then some .warning
  else none

def isPrimary (span : Json) : Bool :=
  match span.get "is_primary" with
  | some (.bool primary) => primary
  | _ => false

def primarySpan (message : Json) : Option Json :=
  match message.get "spans" with
  | some (.arr spans) => spans.find? isPrimary
  | _ => none

/-- The issue of a line, if it is a message of the compiler about a place below the root. -/
def cargoIssue (root : Path) (checkId : Text) (value : Json) : Option Issue :=
  if asStr (value.get "reason") ≠ some "compiler-message".toList then none
  else do
    let message ← value.get "message"
    let severity ← levelSeverity (asStr (message.get "level"))
    let span ← primarySpan message
    let path ← (asStr (span.get "file_name")).bind (relativize · root)
    let line ← asU32 span "line_start"
    let column ← asU32 span "column_start"
    return {
      checkId := checkId
      path := path
      line := line
      column := column
      severity := severity
      code := asStr ((message.get "code").bind (Json.get "code"))
      message := (asStr (message.get "message")).getD [] }

/-- What is found in the output of cargo, in its order. -/
def foundCargo (fromStr : Text → Option Json) (stdout : Text) (root : Path) (checkId : Text) :
    List Issue :=
  (lines stdout).filterMap fun line => (fromStr line).bind (cargoIssue root checkId)

def parseCargoMessages (fromStr : Text → Option Json) (stdout : Text) (root : Path)
    (checkId : Text) : List Issue :=
  sortDedup (foundCargo fromStr stdout root checkId)

/-! ## Ruff -/

structure RuffDiagnostic where
  code : Option Text
  message : Text
  filename : Text
  row : Nat
  column : Nat

def ruffIssue (root : Path) (checkId : Text) (diagnostic : RuffDiagnostic) : Option Issue :=
  (relativize diagnostic.filename root).map fun path => {
    checkId := checkId
    path := path
    line := diagnostic.row
    column := diagnostic.column
    severity := .error
    code := diagnostic.code
    message := diagnostic.message }

/-- What is found in the output of ruff, in its order. -/
def foundRuff (readRuff : Text → Except Text (List RuffDiagnostic)) (stdout : Text) (root : Path)
    (checkId : Text) : Except Text (List Issue) :=
  if trim stdout = [] then .ok []
  else
    match readRuff (trim stdout) with
    | .error reason => .error (invalidCheck checkId reason)
    | .ok diagnostics => .ok (diagnostics.filterMap (ruffIssue root checkId))

def parseRuffJson (readRuff : Text → Except Text (List RuffDiagnostic)) (stdout : Text)
    (root : Path) (checkId : Text) : Except Text (List Issue) :=
  (foundRuff readRuff stdout root checkId).map sortDedup

/-! ## Tsc -/

/-- Where the reader of a text with ANSI sequences is. -/
inductive Ansi
  | plain
  /-- Behind an escape character. -/
  | escape
  | csi
  | osc
  /-- Behind an escape character in an OSC sequence. -/
  | oscEscape
deriving DecidableEq

def esc : Char := '\x1b'
def bel : Char := '\x07'

/-- `('@'..='~').contains`. -/
def isFinal (c : Char) : Bool := 64 ≤ c.toNat && c.toNat ≤ 126

def stripAnsiFrom : Ansi → Text → Text
  | _, [] => []
  | .plain, c :: text =>
    if c = esc then stripAnsiFrom .escape text else c :: stripAnsiFrom .plain text
  | .escape, c :: text =>
    if c = '[' then stripAnsiFrom .csi text
    else if c = ']' then stripAnsiFrom .osc text
    else if c = esc then stripAnsiFrom .escape text
    else c :: stripAnsiFrom .plain text
  | .csi, c :: text => stripAnsiFrom (if isFinal c then .plain else .csi) text
  | .osc, c :: text =>
    stripAnsiFrom (if c = bel then .plain else if c = esc then .oscEscape else .osc) text
  | .oscEscape, c :: text =>
    stripAnsiFrom (if c = '\\' ∨ c = bel then .plain else if c = esc then .oscEscape else .osc) text

def stripAnsi (input : Text) : Text := stripAnsiFrom .plain input

def normalizeJoin (pathPrefix path : Text) : Option Text :=
  if path = [] ∨ path.head? = some '/' then none
  else Lcov.normalize (if pathPrefix = [] then path else pathPrefix ++ '/' :: path)

/-- The line and the column between the brackets. -/
def parsePositions (positions : Text) : Option (Nat × Nat) :=
  match positions.splitOn ',' with
  | [line, column] => do return (← parseU32 (trim line), ← parseU32 (trim column))
  | _ => none

def tokenSeverity (token : Text) : Option Severity :=
  if token = "error".toList then some .error
  else if token = "warning".toList then some .warning
  else none

/-- `TS` and digits. -/
def isCode (token : Text) : Bool :=
  (stripPrefix "TS".toList token).any fun digits => digits ≠ [] && digits.all Char.isDigit

def parseDiagnostic (line pathPrefix checkId : Text) : Option Issue := do
  let (pathRaw, afterOpen) := splitOnce '(' line
  let (positions, rest) ← splitAtText "): ".toList (← afterOpen)
  let (lineNo, columnNo) ← parsePositions positions
  let (severityToken, rest) := splitOnce ' ' rest
  let rest ← rest
  let severity ← tokenSeverity severityToken
  let (codeToken, message) ← splitAtText ": ".toList rest
  if isCode codeToken then
    let path ← normalizeJoin pathPrefix pathRaw
    return {
      checkId := checkId
      path := path
      line := lineNo
      column := columnNo
      severity := severity
      code := some codeToken
      message := message }
  else none

/-- A line that begins with a blank goes on with the message of the last diagnostic. -/
def readTscLine (pathPrefix checkId : Text) (issues : List Issue) (line : Text) : List Issue :=
  if line.head? = some ' ' ∨ line.head? = some '\t' then
    match issues.getLast? with
    | none => issues
    | some last =>
      if trim line = [] then issues
      else issues.dropLast ++ [{ last with message := last.message ++ ' ' :: trim line }]
  else issues ++ (parseDiagnostic line pathPrefix checkId).toList

/-- What is found in the output of tsc, in its order. -/
def foundTsc (stdout pathPrefix checkId : Text) : List Issue :=
  (lines (stripAnsi stdout)).foldl (readTscLine pathPrefix checkId) []

def parseTscText (stdout pathPrefix checkId : Text) : List Issue :=
  sortDedup (foundTsc stdout pathPrefix checkId)

/-! ## Each diagnostic once -/

/-- A list is sorted, and has each diagnostic that was found once. -/
structure Deduplicated (found issues : List Issue) : Prop where
  sorted : issues.Pairwise fun a b => a.key ≤ b.key
  distinct : (issues.map Issue.face).Nodup
  same : ∀ face, face ∈ issues.map Issue.face ↔ face ∈ found.map Issue.face

/-- A diagnostic comes again behind one of the same place and code with another message. -/
def Repeats (found : List Issue) : Prop := Interleaved Issue.key Issue.face found

theorem key_eq_of_face_eq (a b : Issue) (h : a.face = b.face) : a.key = b.key := by
  unfold Issue.face at h
  simp only [Prod.mk.injEq] at h
  unfold Issue.key
  rw [h.1, h.2.1, h.2.2.1, h.2.2.2.1]

theorem deduplicated_sortDedup (found : List Issue) :
    Deduplicated found (sortDedup found) ↔ ¬Repeats found := by
  constructor
  · intro h
    exact (nodup_sortDedup Issue.key Issue.face key_eq_of_face_eq found).1 h.distinct
  · intro h
    refine ⟨pairwise_sortDedup Issue.key Issue.face found,
      (nodup_sortDedup Issue.key Issue.face key_eq_of_face_eq found).2 h, ?_⟩
    intro face
    exact mem_map_sortDedup Issue.key Issue.face

/-- Each of the three parsers gives each diagnostic once exactly if none is repeated behind another
one of the same place and code. -/
theorem deduplicated_iff (fromStr : Text → Option Json)
    (readRuff : Text → Except Text (List RuffDiagnostic)) (stdout pathPrefix checkId : Text)
    (root : Path) :
    (Deduplicated (foundCargo fromStr stdout root checkId)
        (parseCargoMessages fromStr stdout root checkId) ↔
      ¬Repeats (foundCargo fromStr stdout root checkId)) ∧
    (Deduplicated (foundTsc stdout pathPrefix checkId) (parseTscText stdout pathPrefix checkId) ↔
      ¬Repeats (foundTsc stdout pathPrefix checkId)) ∧
    ∀ found, foundRuff readRuff stdout root checkId = .ok found →
      ∃ issues, parseRuffJson readRuff stdout root checkId = .ok issues ∧
        (Deduplicated found issues ↔ ¬Repeats found) := by
  refine ⟨deduplicated_sortDedup _, deduplicated_sortDedup _, ?_⟩
  intro found hfound
  refine ⟨sortDedup found, ?_, deduplicated_sortDedup found⟩
  unfold parseRuffJson
  rw [hfound]
  rfl

/-- Two errors at one place, and the first of them again. -/
def repeatedErrors : Text :=
  joinLines ["a(1,1): error TS1: m".toList, "a(1,1): error TS1: n".toList,
    "a(1,1): error TS1: m".toList]

def repeatedError (message : Text) : Issue :=
  ⟨[], ['a'], 1, 1, .error, some "TS1".toList, message⟩

theorem deduplicated_fails : ¬∀ (fromStr : Text → Option Json)
    (readRuff : Text → Except Text (List RuffDiagnostic)) (stdout pathPrefix checkId : Text)
    (root : Path), Deduplicated (foundCargo fromStr stdout root checkId)
        (parseCargoMessages fromStr stdout root checkId) ∧
      Deduplicated (foundTsc stdout pathPrefix checkId) (parseTscText stdout pathPrefix checkId) ∧
      ∀ found issues, foundRuff readRuff stdout root checkId = .ok found →
        parseRuffJson readRuff stdout root checkId = .ok issues → Deduplicated found issues := by
  intro h
  have htsc := (h (fun _ => none) (fun _ => .error []) repeatedErrors [] [] ⟨true, []⟩).2.1
  refine (deduplicated_sortDedup _).1 htsc ?_
  have hfound : foundTsc repeatedErrors [] [] =
      [repeatedError ['m'], repeatedError ['n'], repeatedError ['m']] := by decide +kernel
  rw [hfound]
  exact ⟨_, _, _, List.Sublist.refl _, rfl, rfl, by decide⟩

end Vanyline.Health.ToolOutput
