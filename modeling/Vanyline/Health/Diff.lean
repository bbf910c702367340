import Mathlib.Data.Char
import Mathlib.Data.List.Lex
import Vanyline.Lib.Ranges
import Vanyline.Lib.SortedMap
import Vanyline.Lib.TextLines

/-!
# The new code of a diff

`parseChangedLines` takes the lines that are added or modified out of the text of
`git diff -U0`.  It reads the lines by their prefixes: `+++ ` names a file, and `@@ ` begins a
hunk of it.

The numbers are below `2 ^ 32`, and additions that go beyond stay at the largest one.
-/

namespace Vanyline.Health.Diff

open Vanyline.Lib TextLines

def u32Max : Nat := 4294967295

/-- `LineRange`; its `end` is `stop`. -/
abbrev LineRange := Range

abbrev ChangedLines := SortedMap Text (List LineRange)

/-- `HealthError::InvalidDiff`, with its reason. -/
structure InvalidDiff where
  reason : Text

/-! ## Hunks -/

def parseU32 (text : Text) : Option Nat := parseNat (u32Max + 1) text

/-- A range `a` or `a,b`. -/
def parseRange (text : Text) : Option (Nat × Option Nat) :=
  if text = [] then some (0, some 0)
  else
    match splitOnce ',' text with
    | (start, none) => (parseU32 start).map fun start => (start, none)
    | (start, some count) =>
      (parseU32 start).bind fun start => (parseU32 count).map fun count => (start, some count)

def malformed (reason : String) : InvalidDiff := ⟨"malformed hunk header: ".toList ++ reason.toList⟩

/-- What is behind `@@ `; no range for a hunk that only removes. -/
def parseHunkNewSide (header : Text) : Except InvalidDiff (Option LineRange) :=
  match firstWord header with
  | none => .error (malformed "missing old range")
  | some (old, header) =>
    match firstWord header with
    | none => .error (malformed "missing new range")
    | some (new, header) =>
      if (firstWord header).all fun word => !"@@".toList.isPrefixOf word.1 then
        .error (malformed "missing closing @@")
      else
        match stripPrefix ['-'] old with
        | none => .error (malformed "old range must start with -")
        | some old =>
          if (parseRange old).isNone then .error (malformed "old range is not numeric")
          else
            match stripPrefix ['+'] new with
            | none => .error (malformed "new range must start with +")
            | some new =>
              match parseRange new with
              | none => .error (malformed "new range is not numeric")
              | some (start, count) =>
                let count := count.getD 1
                if count = 0 then .ok none
                else if start = 0 then
                  .error (malformed "new range starts at 0 with added lines")
                else .ok (some ⟨start, min (start + count) u32Max - 1⟩)

/-- The order of ranges. -/
def SortedBefore (a b : LineRange) : Prop := a.start < b.start ∨ a.start = b.start ∧ a.stop ≤ b.stop

instance : DecidableRel SortedBefore := fun _ _ => inferInstanceAs (Decidable (_ ∨ _))

/-- Sorted, and merged where ranges overlap or touch.  The code adds one to an end that may be the
largest number, which changes nothing here. -/
def normalizeRanges (ranges : List LineRange) : List LineRange :=
  (ranges.insertionSort SortedBefore).foldl Range.merge []

/-! ## The lines of a diff -/

/-- What a `+++ ` line says: a file, one that is to be ignored, or what is refused. -/
inductive Header
  | file (path : Text)
  | ignored
  | refused (reason : InvalidDiff)

def headerOf (line : Text) : Option Header :=
  (stripPrefix "+++ ".toList line).map fun rest =>
    let target := stripCr rest
    if target = "/dev/null".toList then .ignored
    else if target.head? = some '\x22' then
      .refused ⟨"quoted file name in diff: ".toList ++ target⟩
    else
      match stripPrefix "b/".toList target with
      | some path => .file path
      | none => .refused ⟨"unexpected +++ target: ".toList ++ target⟩

/-- What the loop keeps: the ranges of each path, and the file that was named last, or that is
ignored. -/
structure Scan where
  collected : SortedMap Text (List LineRange)
  current : Option (Option Text)

def readLine (scan : Scan) (line : Text) : Except InvalidDiff Scan :=
  match headerOf line with
  | some (.refused reason) => .error reason
  | some .ignored => .ok { scan with current := some none }
  | some (.file path) =>
    .ok ⟨scan.collected.update path fun ranges => ranges.getD [], some (some path)⟩
  | none =>
    match stripPrefix "@@ ".toList line with
    | none => .ok scan
    | some header =>
      match scan.current with
      | none => .error ⟨"hunk before any +++ file header".toList⟩
      | some none => .ok scan
      | some (some path) =>
        match parseHunkNewSide header with
        | .error reason => .error reason
        | .ok none => .ok scan
        | .ok (some range) =>
          .ok { scan with
            collected := scan.collected.update path fun ranges => ranges.getD [] ++ [range] }

def parseChangedLines (diff : Text) : Except InvalidDiff ChangedLines :=
  ((lines diff).foldlM readLine ⟨.empty, none⟩).map fun scan =>
    scan.collected.entries.foldl (fun changed entry =>
      let normalized := normalizeRanges entry.2
      if normalized.isEmpty then changed else changed.update entry.1 fun _ => normalized) .empty

end Vanyline.Health.Diff
