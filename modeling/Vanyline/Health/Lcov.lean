import Mathlib.Data.Char
import Mathlib.Data.List.Lex
import Vanyline.Health.Diff
import Vanyline.Lib.Pathname

/-!
# Coverage reports in the format of lcov

`parseLcov` reads the lines of a text one after the other: `SF:` opens a record for a file, `DA:`
gives the hits of a line of it, and `end_of_record` closes it.  All other lines are passed over.

A file is named by its path below the root of the repository (`relativize`), and a record of a file
that is not below it is read, but left out of the report.
-/

namespace Vanyline.Health.Lcov

open Vanyline.Lib TextLines
open Diff (u32Max parseU32 LineRange)

def u64Max : Nat := 18446744073709551615

def parseU64 (text : Text) : Option Nat := parseNat (u64Max + 1) text

/-- `saturating_add` of `u64`. -/
def satAdd (a b : Nat) : Nat := min (a + b) u64Max

/-- `HealthError::InvalidLcov`. -/
structure InvalidLcov where
  line : Nat
  reason : Text
deriving DecidableEq

structure FileCoverage where
  path : Text
  linesFound : Nat
  linesHit : Nat
  uncovered : List LineRange
deriving DecidableEq

structure CoverageReport where
  files : List FileCoverage
deriving DecidableEq

/-! ## Paths -/

/-- The components of a path between slashes, with `..` resolved. -/
def resolve : List Name → List Name → Option (List Name)
  | parts, [] => some parts
  | parts, component :: components =>
    if component = [] ∨ component = dot then resolve parts components
    else if component = dotdot then
      if parts = [] then none else resolve parts.dropLast components
    else resolve (parts ++ [component]) components

def normalizeComponents (components : List Name) : Option Text :=
  (resolve [] components).bind fun parts =>
    if parts = [] then none else some (List.intercalate ['/'] parts)

def normalize (joined : Text) : Option Text := normalizeComponents (joined.splitOn '/')

/-- What stands for a component in the text of a path. -/
def componentText : Component → Name
  | .rootDir => []
  | .curDir => dot
  | .parentDir => dotdot
  | .normal name => name

/-- A path of `SF:` below the root.  An absolute one is taken by its components, as
`Path::strip_prefix` does. -/
def relativize (raw : Text) (root : Path) (pathPrefix : Text) : Option Text :=
  if raw = [] then none
  else if raw.head? = some '/' then
    ((Path.parse raw).stripPrefix root).bind fun components =>
      normalizeComponents (components.map componentText)
  else if pathPrefix = [] then normalize raw
  else normalize (pathPrefix ++ '/' :: raw)

/-! ## Lines -/

/-- The line and the hits of a `DA:`, in its first two fields. -/
def readData (rest : Text) : Except Text (Nat × Nat) :=
  match splitOnce ',' rest with
  | (numberField, more) =>
    if trim numberField = [] then .error "DA: missing line number".toList
    else
      match more.map fun more => (splitOnce ',' more).1 with
      | none => .error "DA: missing hit count".toList
      | some hitsField =>
        if trim hitsField = [] then .error "DA: missing hit count".toList
        else
          match parseU32 (trim numberField) with
          | none => .error "DA: line number is not a number".toList
          | some number =>
            if number = 0 then .error "DA: line number 0".toList
            else
              match parseU64 (trim hitsField) with
              | none => .error "DA: hit count is not a number".toList
              | some hits => .ok (number, hits)

abbrev Hits := SortedMap Nat Nat

/-- What the loop keeps: the hits of each file, and the file of the record that is open, if it is
below the root. -/
structure Scan where
  files : SortedMap Text Hits
  record : Option (Option Text)

def addHits (hits : Option Hits) (number count : Nat) : Hits :=
  (hits.getD .empty).update number fun before => satAdd (before.getD 0) count

/-- A line with its number. -/
def readLine (root : Path) (pathPrefix : Text) (scan : Scan) (numbered : Text × Nat) :
    Except InvalidLcov Scan :=
  let line := trim numbered.1
  if line = "end_of_record".toList then .ok { scan with record := none }
  else
    match stripPrefix "SF:".toList line with
    | some rawPath =>
      if scan.record.isSome then
        .error ⟨numbered.2, "duplicate SF: without end_of_record".toList⟩
      else .ok { scan with record := some (relativize (trim rawPath) root pathPrefix) }
    | none =>
      match stripPrefix "DA:".toList line with
      | some rest =>
        match scan.record with
        | none => .error ⟨numbered.2, "DA before any SF".toList⟩
        | some current =>
          match readData rest with
          | .error reason => .error ⟨numbered.2, reason⟩
          | .ok (number, count) =>
            match current with
            | none => .ok scan
            | some path =>
              .ok { scan with
                files := scan.files.update path fun hits => addHits hits number count }
      | none => .ok scan

/-! ## Reports -/

def coverageOf (path : Text) (hits : Hits) : FileCoverage where
  path := path
  linesFound := min hits.entries.length u32Max
  linesHit := min (hits.entries.filter fun entry => entry.2 ≠ 0).length u32Max
  uncovered := (hits.entries.filter fun entry => entry.2 = 0).foldl
    (fun uncovered entry => Range.extend uncovered entry.1) []

def parseLcov (input : Text) (root : Path) (pathPrefix : Text) :
    Except InvalidLcov CoverageReport :=
  match ((lines input).zipIdx 1).foldlM (readLine root pathPrefix) ⟨.empty, none⟩ with
  | .error error => .error error
  | .ok scan =>
    if scan.record.isSome then
      .error ⟨max (lines input).length 1, "unterminated lcov record (truncated report)".toList⟩
    else .ok ⟨scan.files.entries.map fun entry => coverageOf entry.1 entry.2⟩

/-- `texts.join("\n")`. -/
def joinTexts (texts : List Text) : Text := List.intercalate ['\n'] texts

/-- `merge_lcov`; an error is logged. -/
def mergeLcov (texts : List Text) (root : Path) : Option CoverageReport :=
  if texts = [] then none
  else
    match parseLcov (joinTexts texts) root [] with
    | .ok report => if report.files = [] then none else some report
    | .error _ => none

end Vanyline.Health.Lcov
