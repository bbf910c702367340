import Vanyline.Cli.Graphemes

/-!
# The editor of the interactive chat

The input of the chat is a list of lines with a cursor, whose column counts graphemes.  `apply` is
the update of the state by one command, and `pushHistory` records what was sent.

* There is no value where the code panics: at an index behind the end of a list, and at an offset
  inside a character.
* Counters do not overflow, as texts and lists fit into memory.
* What is drawn of the state is left out.
-/

namespace Vanyline.Editor

open Vanyline.Lib
open Vanyline.Lib.ByteOffsets (byteLen splitAtByte replaceRange)
open Vanyline.Lib.TextLines (cut trim)

/-! ## The state -/

structure EditorState where
  lines : List Text
  cursor : Nat × Nat
  history : List Text
  historyPos : Option Nat
  draft : Option Text
  deriving DecidableEq

def EditorState.new : EditorState := ⟨[[]], (0, 0), [], none, none⟩

/-- The lines with a line feed between each two of them. -/
def text (st : EditorState) : Text := ['\n'].intercalate st.lines

inductive EditCommand
  | insert (c : Char)
  | insertStr (s : Text)
  | newline
  | backspace
  | delete
  | left
  | right
  | up
  | down
  | wordLeft
  | wordRight
  | home
  | endOfLine
  | killLine
  | killToStart
  | deleteWord
  | clear
  | historyPrev
  | historyNext

/-- `char::is_control`. -/
def isControl (c : Char) : Bool := c.val ≤ 0x1F || (0x7F ≤ c.val && c.val ≤ 0x9F)

/-- `Vec::insert`. -/
def insertLine (i : Nat) (line : Text) (lines : List Text) : Option (List Text) :=
  if i ≤ lines.length then some (lines.insertIdx i line) else none

/-- `Vec::remove`. -/
def removeLine (i : Nat) (lines : List Text) : Option (Text × List Text) := do
  return (← lines[i]?, lines.eraseIdx i)

/-- The lines between the line feeds of a text. -/
def splitLines (entry : Text) : List Text := (cut entry).1 ++ [(cut entry).2]

def setText (st : EditorState) (entry : Text) : Option EditorState := do
  let lines := splitLines entry
  let lines := if lines.isEmpty then [[]] else lines
  let row := lines.length - 1
  let line ← lines[row]?
  return { st with lines, cursor := (row, graphemeCount line) }

/-- What `apply` does before any command. -/
def normalise (st : EditorState) : Option EditorState := do
  let lines := if st.lines.isEmpty then [[]] else st.lines
  let row := min st.cursor.1 (lines.length - 1)
  let line ← lines[row]?
  return { st with lines, cursor := (row, min st.cursor.2 (graphemeCount line)) }

/-! ## Editing -/

def insertAtCursor (inserted : Text) (st : EditorState) : Option EditorState := do
  let (row, col) := st.cursor
  let line ← st.lines[row]?
  let off ← graphemeOffset line col
  let line ← replaceRange line off off inserted
  return { st with lines := st.lines.set row line, cursor := (row, col + 1) }

def newline (st : EditorState) : Option EditorState := do
  let (row, col) := st.cursor
  let line ← st.lines[row]?
  let off ← graphemeOffset line col
  let (head, tail) ← splitAtByte off line
  let lines ← insertLine (row + 1) tail (st.lines.set row head)
  return { st with lines, cursor := (row + 1, 0) }

/-- The command `Newline`, as other commands call it. -/
def applyNewline (st : EditorState) : Option EditorState := do newline (← normalise st)

def insert (c : Char) (st : EditorState) : Option EditorState :=
  if c = '\n' then applyNewline st
  else if isControl c then some st
  else insertAtCursor [c] st

/-- One round of the loop over the graphemes that are pasted. -/
def insertCluster (st : EditorState) : Text → Option EditorState
  | [] => some st
  | c :: rest =>
    if c = '\n' then applyNewline st
    else if isControl c then
      let clean := (c :: rest).filter fun x => !isControl x
      if clean.isEmpty then some st else insertAtCursor clean st
    else insertAtCursor (c :: rest) st

def insertStr (s : Text) (st : EditorState) : Option EditorState :=
  (graphemes s).foldlM insertCluster st

def backspace (st : EditorState) : Option EditorState := do
  let (row, col) := st.cursor
  if 0 < col then
    let line ← st.lines[row]?
    let start ← graphemeOffset line (col - 1)
    let stop ← graphemeOffset line col
    let line ← replaceRange line start stop []
    return { st with lines := st.lines.set row line, cursor := (row, col - 1) }
  else if 0 < row then
    let prev ← st.lines[row - 1]?
    let (tail, lines) ← removeLine row st.lines
    let line ← lines[row - 1]?
    return { st with
      lines := lines.set (row - 1) (line ++ tail)
      cursor := (row - 1, graphemeCount prev) }
  else return st

def delete (st : EditorState) : Option EditorState := do
  let (row, col) := st.cursor
  let line ← st.lines[row]?
  if col < graphemeCount line then
    let start ← graphemeOffset line col
    let stop ← graphemeOffset line (col + 1)
    let line ← replaceRange line start stop []
    return { st with lines := st.lines.set row line }
  else if row + 1 < st.lines.length then
    let (tail, lines) ← removeLine (row + 1) st.lines
    let line ← lines[row]?
    return { st with lines := lines.set row (line ++ tail) }
  else return st

/-! ## Moving the cursor -/

def left (st : EditorState) : Option EditorState := do
  let (row, col) := st.cursor
  if 0 < col then return { st with cursor := (row, col - 1) }
  else if 0 < row then
    let prev ← st.lines[row - 1]?
    return { st with cursor := (row - 1, graphemeCount prev) }
  else return st

def right (st : EditorState) : Option EditorState := do
  let (row, col) := st.cursor
  let line ← st.lines[row]?
  if col < graphemeCount line then return { st with cursor := (row, col + 1) }
  else if row + 1 < st.lines.length then return { st with cursor := (row + 1, 0) }
  else return st

/-- The cursor in another row, as far to the right as that row allows. -/
def moveToRow (row : Nat) (st : EditorState) : Option EditorState := do
  let line ← st.lines[row]?
  return { st with cursor := (row, min st.cursor.2 (graphemeCount line)) }

def up (st : EditorState) : Option EditorState := moveToRow (st.cursor.1 - 1) st

def down (st : EditorState) : Option EditorState :=
  moveToRow (min (st.cursor.1 + 1) (st.lines.length - 1)) st

def isBlank (g : Text) : Bool := (trim g).isEmpty

/-- The index `i` goes back over the graphemes before it that are as `skip` says. -/
def skipBack (skip : Text → Bool) (gs : List Text) : Nat → Option Nat
  | 0 => some 0
  | i + 1 => do
    let g ← gs[i]?
    if skip g then skipBack skip gs i else return i + 1

/-- The index `i` goes on over the graphemes behind it, of which there are `rest`. -/
def skipOn (skip : Text → Bool) (gs : List Text) : Nat → Nat → Option Nat
  | 0, i => some i
  | rest + 1, i => do
    let g ← gs[i]?
    if skip g then skipOn skip gs rest (i + 1) else return i

def wordLeft (st : EditorState) : Option EditorState := do
  let (row, col) := st.cursor
  let gs := (graphemes (← st.lines[row]?)).take col
  let i ← skipBack isBlank gs gs.length
  let i ← skipBack (fun g => !isBlank g) gs i
  return { st with cursor := (row, i) }

def wordRight (st : EditorState) : Option EditorState := do
  let (row, col) := st.cursor
  let gs := graphemes (← st.lines[row]?)
  let i := min col gs.length
  let i ← skipOn (fun g => !isBlank g) gs (gs.length - i) i
  let i ← skipOn isBlank gs (gs.length - i) i
  return { st with cursor := (row, i) }

def home (st : EditorState) : Option EditorState := some { st with cursor := (st.cursor.1, 0) }

def endOfLine (st : EditorState) : Option EditorState := do
  let line ← st.lines[st.cursor.1]?
  return { st with cursor := (st.cursor.1, graphemeCount line) }

/-! ## Killing -/

/-- `String::truncate`, which does nothing behind the end. -/
def truncate (line : Text) (off : Nat) : Option Text :=
  if off ≤ byteLen line then (splitAtByte off line).map Prod.fst else some line

def killLine (st : EditorState) : Option EditorState := do
  let (row, col) := st.cursor
  let line ← st.lines[row]?
  let off ← graphemeOffset line col
  return { st with lines := st.lines.set row (← truncate line off) }

def killToStart (st : EditorState) : Option EditorState := do
  let (row, col) := st.cursor
  let line ← st.lines[row]?
  let off ← graphemeOffset line col
  let (_, tail) ← splitAtByte off line
  return { st with lines := st.lines.set row tail, cursor := (row, 0) }

def deleteWord (st : EditorState) : Option EditorState := do
  let (row, col) := st.cursor
  let line ← st.lines[row]?
  let gs := (graphemes line).take col
  let i ← skipBack (fun g => !isBlank g) gs gs.length
  let start ← graphemeOffset line i
  let stop ← graphemeOffset line col
  let line ← replaceRange line start stop []
  return { st with lines := st.lines.set row line, cursor := (row, i) }

def clear (st : EditorState) : Option EditorState :=
  some { st with lines := [[]], cursor := (0, 0), historyPos := none, draft := none }

/-! ## The history -/

/-- The entry at a position becomes the text. -/
def recallEntry (pos : Nat) (st : EditorState) : Option EditorState := do
  let entry ← st.history[pos]?
  setText { st with historyPos := some pos } entry

def historyPrev (st : EditorState) : Option EditorState :=
  if st.history.isEmpty then some st
  else
    match st.historyPos with
    | none => recallEntry (st.history.length - 1) { st with draft := some (text st) }
    | some pos => if 0 < pos then recallEntry (pos - 1) st else some st

def historyNext (st : EditorState) : Option EditorState :=
  match st.historyPos with
  | none => some st
  | some pos =>
    if pos + 1 < st.history.length then recallEntry (pos + 1) st
    else setText { st with historyPos := none, draft := none } (st.draft.getD [])

/-- An entry that repeats the last one is not recorded, and the oldest entries are dropped. -/
def pushHistory (st : EditorState) (entry : Text) : EditorState :=
  let st := { st with historyPos := none, draft := none }
  if entry.isEmpty then st
  else if st.history.getLast?.any fun last => last == entry then st
  else
    let history := st.history ++ [entry]
    { st with history := history.drop (history.length - 500) }

/-! ## Commands -/

def perform : EditCommand → EditorState → Option EditorState
  | .insert c => insert c
  | .insertStr s => insertStr s
  | .newline => newline
  | .backspace => backspace
  | .delete => delete
  | .left => left
  | .right => right
  | .up => up
  | .down => down
  | .wordLeft => wordLeft
  | .wordRight => wordRight
  | .home => home
  | .endOfLine => endOfLine
  | .killLine => killLine
  | .killToStart => killToStart
  | .deleteWord => deleteWord
  | .clear => clear
  | .historyPrev => historyPrev
  | .historyNext => historyNext

def apply (st : EditorState) (command : EditCommand) : Option EditorState := do
  perform command (← normalise st)

end Vanyline.Editor
