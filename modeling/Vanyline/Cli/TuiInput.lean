import Vanyline.Cli.EditorTyping
import Vanyline.Cli.Tui

/-!
# The input of the chat

The update of the chat with its editor: every key is a command of the editor, a change of the chat
or both.  Enter sends the text of the input, and the message that is sent becomes the last entry
of the history.

* A state is a state of the chat whose input is the text of an editor (`ChatState`).
* `meaning` is what a text stands for: a command, a message, or nothing.
* `update_spec`: an update never fails, and it leaves the history alone unless it sends.
* `recalled_text`: going through the history shows the message that was sent last.
* `resend_iff`: to send it again gives the same turn, unless it is an escaped message that would
  be read as a command or unescaped once more.

Scrolling and the size of the screen are left out.
-/

namespace Vanyline.Cli.TuiInput

open Vanyline.Lib Vanyline.Editor
open Vanyline.Lib.TextLines (trim isWhite cut unlines_cut)
open Vanyline.Cli.Tui (AppState Effect)

/-! ## The state -/

/-- The state of the chat and of its editor. -/
structure ChatState where
  chat : AppState
  input : EditorState
  shown : chat.input = text input

def withInput (chat : AppState) (input : EditorState) : ChatState :=
  ⟨{ chat with input := text input }, input, rfl⟩

inductive KeyCode
  | char (c : Char)
  | enter
  | tab
  | backTab
  | pageUp
  | pageDown
  | endKey
  | home
  | up
  | down
  | left
  | right
  | backspace
  | delete
  | other

structure KeyEvent where
  code : KeyCode
  ctrl : Bool
  alt : Bool

inductive Action
  | key (key : KeyEvent)
  | paste (pasted : Text)
  | resize
  | mouse
  | tick
  | agent (event : ChatEvent)
  | turnFinished (result : Except Text Unit)
  | gitSummary (summary : Option Text)

/-! ## The update -/

def edit (s : ChatState) (command : EditCommand) : Option (ChatState × List Effect) := do
  let input ← apply s.input command
  return (withInput s.chat input, [])

/-- An edit that disarms `Ctrl+C`. -/
def editDisarmed (s : ChatState) (command : EditCommand) : Option (ChatState × List Effect) := do
  let input ← apply s.input command
  return (withInput { s.chat with quitArmed := false } input, [])

/-- All lines are blank. -/
def blankInput (s : ChatState) : Bool := s.input.lines.all isBlank

def sendMessage (s : ChatState) (message : Text) : Option (ChatState × List Effect) := do
  let cleared ← apply s.input .clear
  let (chat, effects) := Tui.sendMessage s.chat message
  return (withInput chat (pushHistory cleared message), effects)

/-- The command that leaves its line in the input: `/agent` without a name. -/
def keepsLine (line : Text) : Bool := Tui.splitCommand line = ("/agent".toList, [])

def slashCommand (s : ChatState) (line : Text) : Option (ChatState × List Effect) := do
  let (chat, effects) := Tui.slashCommand s.chat line
  if keepsLine line then return (withInput chat s.input, effects)
  else
    let cleared ← apply s.input .clear
    return (withInput chat cleared, effects)

/-- Enter: send the input, carry out a command, or say that a turn is on its way. -/
def submit (s : ChatState) : Option (ChatState × List Effect) :=
  match s.chat.status with
  | .running _ =>
    some (withInput (Tui.pushNotice s.chat .warn "tour en cours — patientez".toList) s.input, [])
  | .idle =>
    match trim (text s.input) with
    | [] => some (s, [])
    | '/' :: '/' :: rest => sendMessage s ('/' :: rest)
    | '/' :: rest =>
      if '\n' ∈ rest then sendMessage s ('/' :: rest) else slashCommand s ('/' :: rest)
    | message => sendMessage s message

/-- `Ctrl+C`. -/
def interrupt (s : ChatState) : Option (ChatState × List Effect) :=
  match s.chat.status with
  | .running _ =>
    let chat := { s.chat with transcript := s.chat.transcript ++ [.interrupted], status := .idle }
    some (withInput chat s.input, [.cancelTurn])
  | .idle =>
    if !blankInput s then editDisarmed s .clear
    else if s.chat.quitArmed then some (s, [.quit])
    else some (withInput { s.chat with quitArmed := true } s.input, [])

/-- A key with `Ctrl`, which has none of the meanings that it has without. -/
def controlUpdate (s : ChatState) (c : Char) : Option (ChatState × List Effect) :=
  if c = 'c' then interrupt s
  else if c = 'd' then
    if s.input.lines = [[]] then some (s, [.quit]) else edit s .delete
  else if c = 'j' then edit s .newline
  else if c = 'r' then some (withInput (Tui.toggleAllReasoning s.chat) s.input, [])
  else if c = 't' then
    some (withInput { s.chat with todoVisible := !s.chat.todoVisible } s.input, [])
  else some (s, [])

def keyUpdate (s : ChatState) (key : KeyEvent) : Option (ChatState × List Effect) :=
  match key.code with
  | .char c =>
    if c = ' ' && s.chat.selected.isSome && blankInput s then
      some (withInput (Tui.toggleSelected s.chat) s.input, [])
    else if key.ctrl then controlUpdate s c
    else editDisarmed s (.insert c)
  | .enter => if key.alt then edit s .newline else submit s
  | .tab => some (withInput (Tui.moveSelection s.chat true) s.input, [])
  | .backTab => some (withInput (Tui.moveSelection s.chat false) s.input, [])
  | .endKey => edit s .endOfLine
  | .home => edit s .home
  | .up => if s.input.cursor.1 = 0 then edit s .historyPrev else edit s .up
  | .down =>
    if s.input.lines.length ≤ s.input.cursor.1 + 1 then edit s .historyNext else edit s .down
  | .left => edit s .left
  | .right => edit s .right
  | .backspace => editDisarmed s .backspace
  | .delete => edit s .delete
  | .pageUp | .pageDown | .other => some (s, [])

def update (s : ChatState) : Action → Option (ChatState × List Effect)
  | .key key => keyUpdate s key
  | .paste pasted => editDisarmed s (.insertStr pasted)
  | .resize | .mouse => some (s, [])
  | .tick => some (withInput (Tui.update s.chat .tick).1 s.input, [])
  | .agent event => some (withInput (Tui.agentUpdate s.chat event) s.input, [])
  | .turnFinished result =>
    let (chat, effects) := Tui.update s.chat (.turnFinished result)
    some (withInput chat s.input, effects)
  | .gitSummary summary => some (withInput { s.chat with gitSummary := summary } s.input, [])

def step (s : ChatState) (a : Action) : Option ChatState := (update s a).map Prod.fst

/-! ## What a text stands for -/

inductive Meaning
  | nothing
  | command (line : Text)
  | message (message : Text)

/-- One line that begins with `/` is a command, and `//` at the beginning stands for `/`. -/
def meaning (input : Text) : Meaning :=
  match trim input with
  | [] => .nothing
  | '/' :: '/' :: rest => .message ('/' :: rest)
  | '/' :: rest => if '\n' ∈ rest then .message ('/' :: rest) else .command ('/' :: rest)
  | message => .message message

/-- What a command asks of the loop. -/
def commandEffects (line : Text) : List Effect :=
  let (cmd, arg) := Tui.splitCommand line
  if cmd = "/help".toList then []
  else if cmd = "/new".toList then [.newConversation]
  else if cmd = "/agent".toList then if arg.isEmpty then [] else [.switchAgent arg]
  else if cmd = "/todo".toList then []
  else if cmd = "/quit".toList then [.quit]
  else []

def effectsOf : Meaning → List Effect
  | .nothing => []
  | .command line => commandEffects line
  | .message message => [.startTurn message]

/-- The text is a message that begins with `/`, and this message would be read as a command or
lose one more `/`. -/
def Escaped (input : Text) : Prop :=
  ∃ rest, trim input = '/' :: '/' :: rest ∧ (rest.head? = some '/' ∨ '\n' ∉ rest)

theorem meaning_trim (input : Text) : meaning (trim input) = meaning input := by
  unfold meaning
  rw [TextLines.trim_trim]

/-- A message without the first character of the input. -/
theorem trim_tail {c d : Char} {input rest : Text} (h : trim input = c :: d :: rest)
    (hd : isWhite d = false) : trim (d :: rest) = d :: rest := by
  apply TextLines.trim_eq_self
  · intro e he
    cases he
    exact hd
  · intro e he
    apply TextLines.getLast?_trim input
    rw [h, List.getLast?_cons_cons]
    exact he

theorem meaning_nil {input : Text} (h : trim input = []) : meaning input = .nothing := by
  unfold meaning
  rw [h]

theorem meaning_slashes {input rest : Text} (h : trim input = '/' :: '/' :: rest) :
    meaning input = .message ('/' :: rest) := by
  unfold meaning
  rw [h]
  rfl

theorem meaning_slash {input rest : Text} (h : trim input = '/' :: rest)
    (hrest : rest.head? ≠ some '/') :
    meaning input = if '\n' ∈ rest then .message ('/' :: rest) else .command ('/' :: rest) := by
  unfold meaning
  rw [h]
  split
  · rename_i hnil
    cases hnil
  · rename_i heq
    cases heq
    exact absurd rfl hrest
  · rename_i heq
    cases heq
    rfl
  · rename_i hslash
    exact (hslash rest rfl).elim

theorem meaning_plain {input : Text} (hne : trim input ≠ [])
    (hhead : (trim input).head? ≠ some '/') : meaning input = .message (trim input) := by
  unfold meaning
  split
  · rename_i hnil
    exact absurd hnil hne
  · rename_i heq
    rw [heq] at hhead
    exact absurd rfl hhead
  · rename_i heq
    rw [heq] at hhead
    exact absurd rfl hhead
  · rfl

/-- What a trimmed text can begin with. -/
theorem trim_cases (input : Text) : trim input = [] ∨
    (∃ rest, trim input = '/' :: '/' :: rest) ∨
    (∃ rest, trim input = '/' :: rest ∧ rest.head? ≠ some '/') ∨
    trim input ≠ [] ∧ (trim input).head? ≠ some '/' := by
  cases trim input with
  | nil => exact Or.inl rfl
  | cons c rest =>
    by_cases hc : c = '/'
    · subst hc
      by_cases hrest : rest.head? = some '/'
      · rcases List.head?_eq_some_iff.1 hrest with ⟨rest, rfl⟩
        exact Or.inr (Or.inl ⟨rest, rfl⟩)
      · exact Or.inr (Or.inr (Or.inl ⟨rest, rfl, hrest⟩))
    · refine Or.inr (Or.inr (Or.inr ⟨List.cons_ne_nil _ _, ?_⟩))
      intro hhead
      exact hc (Option.some.inj hhead)

theorem escaped_iff {input rest : Text} (h : trim input = '/' :: '/' :: rest) :
    Escaped input ↔ rest.head? = some '/' ∨ '\n' ∉ rest := by
  constructor
  · intro hescaped
    rcases hescaped with ⟨rest', htrim, hrest⟩
    rw [h] at htrim
    cases htrim
    exact hrest
  · exact fun hrest => ⟨rest, h, hrest⟩

theorem message_ne_nil {input m : Text} (h : meaning input = .message m) : m ≠ [] := by
  rcases trim_cases input with hnil | ⟨rest, htrim⟩ | ⟨rest, htrim, hrest⟩ | ⟨hne, hhead⟩
  · rw [meaning_nil hnil] at h
    cases h
  · rw [meaning_slashes htrim] at h
    cases h
    exact List.cons_ne_nil _ _
  · rw [meaning_slash htrim hrest] at h
    split_ifs at h
    cases h
    exact List.cons_ne_nil _ _
  · rw [meaning_plain hne hhead] at h
    cases h
    exact hne

/-- What a message stands for when it is an input itself. -/
theorem meaning_message_iff {input m : Text} (h : meaning input = .message m) :
    meaning m = .message m ↔ ¬Escaped input := by
  have hunescaped : (∀ rest, trim input ≠ '/' :: '/' :: rest) → m = trim input →
      (meaning m = .message m ↔ ¬Escaped input) := by
    intro hslashes hm
    subst hm
    rw [meaning_trim]
    exact ⟨fun _ hescaped => hslashes _ hescaped.choose_spec.1, fun _ => h⟩
  rcases trim_cases input with hnil | ⟨rest, htrim⟩ | ⟨rest, htrim, hrest⟩ | ⟨hne, hhead⟩
  · rw [meaning_nil hnil] at h
    cases h
  · rw [meaning_slashes htrim] at h
    cases h
    have hmessage := trim_tail htrim (by decide)
    rw [escaped_iff htrim, not_or, not_not]
    by_cases hrest : rest.head? = some '/'
    · rcases List.head?_eq_some_iff.1 hrest with ⟨rest', rfl⟩
      rw [meaning_slashes hmessage]
      constructor
      · intro heq
        injection heq with heq
        exact absurd (congrArg List.length heq) (Nat.succ_ne_self _).symm
      · exact fun hboth => absurd hrest hboth.1
    · rw [meaning_slash hmessage hrest]
      split_ifs with hline
      · exact ⟨fun _ => ⟨hrest, hline⟩, fun _ => rfl⟩
      · exact ⟨fun heq => (nomatch heq), fun hboth => absurd hboth.2 hline⟩
  · have hm := h
    rw [meaning_slash htrim hrest] at hm
    split_ifs at hm
    cases hm
    apply hunescaped _ htrim.symm
    intro rest' htrim'
    rw [htrim] at htrim'
    cases htrim'
    exact hrest rfl
  · have hm := h
    rw [meaning_plain hne hhead] at hm
    cases hm
    apply hunescaped _ rfl
    intro rest htrim
    rw [htrim] at hhead
    exact hhead rfl

/-! ## The history of the editor -/

section Editor

variable {st u : EditorState}

theorem text_setText {entry : Text} (h : setText st entry = some u) :
    text u = entry ∧ u.history = st.history ∧ u.historyPos = st.historyPos := by
  rw [setText_eq] at h
  cases h
  refine ⟨?_, rfl, rfl⟩
  show ['\n'].intercalate ((cut entry).1 ++ [(cut entry).2]) = entry
  rw [text_middle]
  refine (List.append_nil _).trans ?_
  exact unlines_cut entry

/-- The entry at a position of the history is in the input. -/
def Recalls (st u : EditorState) (pos : Nat) (entry : Text) : Prop :=
  st.history[pos]? = some entry ∧ u.history = st.history ∧ u.historyPos = some pos ∧
    text u = entry

theorem recallEntry_recalls {pos : Nat} {draft : Option Text}
    (h : recallEntry pos { st with draft } = some u) : ∃ entry, Recalls st u pos entry := by
  rcases Option.bind_eq_some_iff.1 h with ⟨entry, hentry, hset⟩
  rcases text_setText hset with ⟨htext, hhistory, hpos⟩
  exact ⟨entry, hentry, hhistory, hpos, htext⟩

theorem historyPrev_cases (h : historyPrev st = some u) :
    u = st ∨ ∃ pos entry, Recalls st u pos entry := by
  unfold historyPrev at h
  split_ifs at h with hempty
  · cases h
    exact Or.inl rfl
  · split at h
    · exact Or.inr ⟨_, recallEntry_recalls h⟩
    · split_ifs at h with hpos
      · exact Or.inr ⟨_, recallEntry_recalls h⟩
      · cases h
        exact Or.inl rfl

theorem historyNext_cases (h : historyNext st = some u) :
    u = st ∨ (∃ pos entry, Recalls st u pos entry) ∨
      u.historyPos = none ∧ u.history = st.history := by
  unfold historyNext at h
  split at h
  · cases h
    exact Or.inl rfl
  · split_ifs at h with hpos
    · exact Or.inr (Or.inl ⟨_, recallEntry_recalls h⟩)
    · rcases text_setText h with ⟨_, hhistory, hnone⟩
      exact Or.inr (Or.inr ⟨hnone, hhistory⟩)

/-- From the end of the history the last entry is recalled. -/
theorem historyPrev_last {m : Text} (hpos : st.historyPos = none)
    (hlast : st.history.getLast? = some m) (h : historyPrev st = some u) :
    Recalls st u (st.history.length - 1) m := by
  have hempty : ¬st.history.isEmpty = true := by
    intro hempty
    rw [List.isEmpty_iff.1 hempty] at hlast
    cases hlast
  unfold historyPrev at h
  rw [if_neg hempty] at h
  split at h
  · rcases recallEntry_recalls h with ⟨entry, hentry, hrest⟩
    rw [← List.getLast?_eq_getElem?, hlast] at hentry
    cases hentry
    rw [List.getLast?_eq_getElem?] at hlast
    exact ⟨hlast, hrest⟩
  · rename_i hsome
    rw [hpos] at hsome
    cases hsome

/-- A command works on the state with an exact column. -/
theorem apply_eq (h : Framed st) (command : EditCommand) : ∃ above before behind below st',
    apply st command = perform command st' ∧ Placed st' above before behind below ∧
      here st' = (before, behind) ∧ ∃ col, st' = { st with cursor := (st.cursor.1, col) } := by
  rcases exists_at h.row with ⟨above, before, behind, below, hat⟩
  rcases normalise_eq hat with ⟨st', hst', hplaced, heq⟩
  refine ⟨above, before, behind, below, st', ?_, hplaced, hplaced.toAt.here, ?_⟩
  · show (normalise st).bind (perform command) = _
    rw [hst']
    rfl
  · rw [heq, ← hat.row]
    exact ⟨_, rfl⟩

theorem text_congr {st st' : EditorState} (h : st.lines = st'.lines) : text st = text st' := by
  unfold text
  rw [h]

theorem apply_history (h : Framed st) {command : EditCommand} (hu : apply st command = some u) :
    u.history = st.history := by
  rcases apply_eq h command with
    ⟨above, before, behind, below, st', happly, hplaced, hhere, col, hst'⟩
  have hsame : st'.history = st.history := by rw [hst']
  rw [happly] at hu
  by_cases hprev : command = .historyPrev
  · subst hprev
    rcases historyPrev_cases hu with rfl | ⟨pos, entry, hrecalls⟩
    · exact hsame
    · exact hrecalls.2.1.trans hsame
  · by_cases hnext : command = .historyNext
    · subst hnext
      rcases historyNext_cases hu with rfl | ⟨pos, entry, hrecalls⟩ | ⟨_, hhistory⟩
      · exact hsame
      · exact hrecalls.2.1.trans hsame
      · exact hhistory.trans hsame
    · rcases perform_does command hplaced hhere hprev hnext with ⟨v, hv, hedited, _⟩
      rw [hu] at hv
      cases hv
      exact hedited.history.trans hsame

theorem apply_clear (h : Framed st) :
    apply st .clear = some ⟨[[]], (0, 0), st.history, none, none⟩ := by
  rcases apply_eq h .clear with ⟨above, before, behind, below, st', happly, _, _, col, hst'⟩
  rw [happly, hst']
  rfl

/-- The cursor goes to another line, and nothing else changes. -/
theorem apply_move (h : Framed st) {command : EditCommand}
    (hcommand : command = .up ∨ command = .down) (hu : apply st command = some u) :
    ∃ cursor, u = { st with cursor } := by
  rcases apply_eq h command with ⟨above, before, behind, below, st', happly, _, _, col, hst'⟩
  have hmove : ∀ row, moveToRow row st' = some u → ∃ cursor, u = { st with cursor } := by
    intro row hrow
    rcases Option.bind_eq_some_iff.1 hrow with ⟨line, _, hline⟩
    cases hline
    subst hst'
    exact ⟨_, rfl⟩
  rw [happly] at hu
  rcases hcommand with rfl | rfl
  · exact hmove _ hu
  · exact hmove _ hu

theorem getLast?_pushHistory {m : Text} (h : m ≠ []) :
    (pushHistory st m).history.getLast? = some m := by
  unfold pushHistory
  have hempty : ¬m.isEmpty = true := fun hempty => h (List.isEmpty_iff.1 hempty)
  simp only [if_neg hempty]
  split_ifs with hlast
  · rcases Option.any_eq_true _ _ |>.1 hlast with ⟨last, hsome, heq⟩
    show st.history.getLast? = some m
    rw [hsome, beq_iff_eq.1 heq]
  · have hkept : ∀ n, 0 < n →
        ((st.history ++ [m]).drop ((st.history ++ [m]).length - n)).getLast? = some m := by
      intro n hn
      rw [List.getLast?_drop, if_neg, List.getLast?_concat]
      rw [List.length_append, List.length_singleton]
      omega
    have hlong := hkept 500 (by omega)
    dsimp only
    exact hlong

end Editor

/-! ## What an update does -/

@[simp] theorem withInput_input (chat : AppState) (input : EditorState) :
    (withInput chat input).input = input := rfl

/-- There is a next state, its editor is in order, and its history is the same unless a message
is sent. -/
def Updates (s : ChatState) (r : Option (ChatState × List Effect)) : Prop :=
  ∃ next effects, r = some (next, effects) ∧ Framed next.input ∧
    (next.input.history = s.input.history ∨ ∃ m, Effect.startTurn m ∈ effects)

section Update

variable {s u : ChatState}

theorem updates_same (h : Framed s.input) (chat : AppState) (effects : List Effect) :
    Updates s (some (withInput chat s.input, effects)) :=
  ⟨_, _, rfl, h, Or.inl rfl⟩

theorem updates_self (h : Framed s.input) (effects : List Effect) :
    Updates s (some (s, effects)) := ⟨_, _, rfl, h, Or.inl rfl⟩

theorem exists_apply (h : Framed s.input) (command : EditCommand) :
    ∃ input, apply s.input command = some input ∧ Framed input ∧
      input.history = s.input.history := by
  rcases apply_good h command with ⟨input, hinput, hframed, _⟩
  exact ⟨input, hinput, hframed, apply_history h hinput⟩

theorem edit_updates (h : Framed s.input) (command : EditCommand) :
    Updates s (edit s command) := by
  rcases exists_apply h command with ⟨input, hinput, hframed, hhistory⟩
  unfold edit
  rw [hinput]
  exact ⟨_, _, rfl, hframed, Or.inl hhistory⟩

theorem editDisarmed_updates (h : Framed s.input) (command : EditCommand) :
    Updates s (editDisarmed s command) := by
  rcases exists_apply h command with ⟨input, hinput, hframed, hhistory⟩
  unfold editDisarmed
  rw [hinput]
  exact ⟨_, _, rfl, hframed, Or.inl hhistory⟩

/-- The state once a message is on its way. -/
theorem sendMessage_eq (h : Framed s.input) (m : Text) : sendMessage s m =
    some (withInput (Tui.sendMessage s.chat m).1
      (pushHistory ⟨[[]], (0, 0), s.input.history, none, none⟩ m), [.startTurn m]) := by
  unfold sendMessage
  rw [apply_clear h]
  rfl

theorem framed_pushHistory {st : EditorState} (h : Framed st) (m : Text) :
    Framed (pushHistory st m) := by
  rcases pushHistory_good h with ⟨u, hu, hframed, _⟩
  cases hu
  exact hframed

theorem framed_cleared (h : Framed s.input) :
    Framed ⟨[[]], (0, 0), s.input.history, none, none⟩ := by
  rcases exists_apply h .clear with ⟨input, hinput, hframed, _⟩
  rw [apply_clear h] at hinput
  cases hinput
  exact hframed

theorem slashCommand_effects (chat : AppState) (line : Text) :
    (Tui.slashCommand chat line).2 = commandEffects line := by
  unfold Tui.slashCommand commandEffects
  dsimp only
  split_ifs <;> rfl

theorem notMem_commandEffects (line m : Text) : Effect.startTurn m ∉ commandEffects line := by
  unfold commandEffects
  dsimp only
  split_ifs <;> simp

/-- A command leaves the history alone. -/
theorem slashCommand_eq (h : Framed s.input) (line : Text) : ∃ next,
    slashCommand s line = some (next, commandEffects line) ∧ Framed next.input ∧
      next.input.history = s.input.history := by
  unfold slashCommand
  rw [← slashCommand_effects s.chat line, apply_clear h]
  by_cases hkeeps : keepsLine line = true
  · simp only [if_pos hkeeps]
    exact ⟨_, rfl, h, rfl⟩
  · simp only [if_neg hkeeps]
    exact ⟨_, rfl, framed_cleared h, rfl⟩

/-- What is sent and what is carried out depends on the text of the input only. -/
theorem submit_eq (h : Framed s.input) (hidle : s.chat.status = .idle) : ∃ next,
    submit s = some (next, effectsOf (meaning (text s.input))) ∧ Framed next.input ∧
      (next.input.history = s.input.history ∨ ∃ m, meaning (text s.input) = .message m) := by
  have hsend : ∀ m, ∃ next, sendMessage s m = some (next, effectsOf (.message m)) ∧
      Framed next.input := by
    intro m
    exact ⟨_, sendMessage_eq h m, framed_pushHistory (framed_cleared h) m⟩
  unfold submit meaning
  rw [hidle]
  dsimp only
  split
  · exact ⟨s, rfl, h, Or.inl rfl⟩
  · rename_i rest _
    rcases hsend ('/' :: rest) with ⟨next, hnext, hframed⟩
    exact ⟨next, hnext, hframed, Or.inr ⟨_, rfl⟩⟩
  · rename_i rest _ _
    split_ifs
    · rcases hsend ('/' :: rest) with ⟨next, hnext, hframed⟩
      exact ⟨next, hnext, hframed, Or.inr ⟨_, rfl⟩⟩
    · rcases slashCommand_eq h ('/' :: rest) with ⟨next, hnext, hframed, hhistory⟩
      exact ⟨next, hnext, hframed, Or.inl hhistory⟩
  · rcases hsend (trim (text s.input)) with ⟨next, hnext, hframed⟩
    exact ⟨next, hnext, hframed, Or.inr ⟨_, rfl⟩⟩

theorem submit_updates (h : Framed s.input) : Updates s (submit s) := by
  cases hstatus : s.chat.status with
  | running since =>
    unfold submit
    rw [hstatus]
    exact updates_same h _ _
  | idle =>
    rcases submit_eq h hstatus with ⟨next, hnext, hframed, hhistory | ⟨m, hm⟩⟩
    · exact ⟨next, _, hnext, hframed, Or.inl hhistory⟩
    · refine ⟨next, _, hnext, hframed, Or.inr ⟨m, ?_⟩⟩
      rw [hm]
      exact List.mem_singleton.2 rfl

theorem interrupt_updates (h : Framed s.input) : Updates s (interrupt s) := by
  unfold interrupt
  split
  · exact updates_same h _ _
  · split_ifs
    · exact editDisarmed_updates h _
    · exact updates_self h _
    · exact updates_same h _ _

theorem controlUpdate_updates (h : Framed s.input) (c : Char) :
    Updates s (controlUpdate s c) := by
  unfold controlUpdate
  split_ifs
  · exact interrupt_updates h
  · exact updates_self h _
  · exact edit_updates h _
  · exact edit_updates h _
  · exact updates_same h _ _
  · exact updates_same h _ _
  · exact updates_self h _

theorem keyUpdate_updates (h : Framed s.input) (key : KeyEvent) :
    Updates s (keyUpdate s key) := by
  rcases key with ⟨code, ctrl, alt⟩
  cases code with
  | char c =>
    unfold keyUpdate
    dsimp only
    split_ifs
    · exact updates_same h _ _
    · exact controlUpdate_updates h c
    · exact editDisarmed_updates h _
  | enter =>
    unfold keyUpdate
    dsimp only
    split_ifs
    · exact edit_updates h _
    · exact submit_updates h
  | up =>
    unfold keyUpdate
    dsimp only
    split_ifs
    · exact edit_updates h _
    · exact edit_updates h _
  | down =>
    unfold keyUpdate
    dsimp only
    split_ifs
    · exact edit_updates h _
    · exact edit_updates h _
  | tab => exact updates_same h _ _
  | backTab => exact updates_same h _ _
  | endKey => exact edit_updates h _
  | home => exact edit_updates h _
  | left => exact edit_updates h _
  | right => exact edit_updates h _
  | backspace => exact editDisarmed_updates h _
  | delete => exact edit_updates h _
  | pageUp => exact updates_self h _
  | pageDown => exact updates_self h _
  | other => exact updates_self h _

theorem update_updates (h : Framed s.input) (a : Action) : Updates s (update s a) := by
  cases a with
  | key key => exact keyUpdate_updates h key
  | paste pasted => exact editDisarmed_updates h _
  | resize => exact updates_self h _
  | mouse => exact updates_self h _
  | tick => exact updates_same h _ _
  | agent event => exact updates_same h _ _
  | turnFinished result => exact updates_same h _ _
  | gitSummary summary => exact updates_same h _ _

end Update

/-! ## Runs -/

/-- No message is sent. -/
def Quiet (s : ChatState) (a : Action) : Prop :=
  ∀ r, update s a = some r → ∀ m, Effect.startTurn m ∉ r.2

def isHistoryKey : Action → Prop
  | .key key => key.code = .up ∨ key.code = .down
  | _ => False

/-- The last entry is in the input, after any number of steps through the history. -/
structure Recalled (s u : ChatState) : Prop where
  keys : ∃ actions, Run step (fun _ a => isHistoryKey a) s actions u
  last : u.input.historyPos = some (u.input.history.length - 1)
  shown : text u.input ≠ []

section Runs

variable {s t u : ChatState}

theorem step_framed (h : Framed s.input) {a : Action} (hstep : step s a = some u) :
    Framed u.input := by
  rcases update_updates h a with ⟨next, effects, hnext, hframed, _⟩
  unfold step at hstep
  rw [hnext] at hstep
  cases hstep
  exact hframed

theorem run_framed {ok : ChatState → Action → Prop} (h : Framed s.input) {actions : List Action}
    (hrun : Run step ok s actions u) : Framed u.input :=
  Run.invariant (I := fun u => Framed u.input) h
    (fun _ _ _ hframed _ hstep => step_framed hframed hstep) hrun

/-- As long as no message is sent the history is the same. -/
theorem quiet_history (h : Framed s.input) {actions : List Action}
    (hrun : Run step Quiet s actions u) :
    Framed u.input ∧ u.input.history = s.input.history := by
  refine Run.invariant (I := fun u => Framed u.input ∧ u.input.history = s.input.history)
    ⟨h, rfl⟩ ?_ hrun
  intro t a u hinv hquiet hstep
  rcases update_updates hinv.1 a with ⟨next, effects, hnext, hframed, hhistory⟩
  unfold step at hstep
  rw [hnext] at hstep
  cases hstep
  rcases hhistory with hhistory | ⟨m, hm⟩
  · exact ⟨hframed, hhistory.trans hinv.2⟩
  · exact absurd hm (hquiet _ hnext m)

/-- What is in the input while the keys go through the history. -/
structure Browsing (s u : ChatState) : Prop where
  framed : Framed u.input
  idle : u.chat.status = s.chat.status
  history : u.input.history = s.input.history
  content : text u.input = [] ∨ u.input.historyPos = none ∨
    ∃ pos entry, s.input.history[pos]? = some entry ∧ u.input.historyPos = some pos ∧
      text u.input = entry

theorem edit_step {command : EditCommand} {r : ChatState × List Effect}
    (h : edit s command = some r) : ∃ input, apply s.input command = some input ∧
      r = (withInput s.chat input, []) := by
  rcases Option.bind_eq_some_iff.1 h with ⟨input, hinput, hr⟩
  exact ⟨input, hinput, (Option.some.inj hr).symm⟩

/-- A key that goes through the history is one of four commands. -/
theorem historyKey_step {a : Action} (ha : isHistoryKey a) (hstep : step s a = some u) :
    ∃ command input, (command = .historyPrev ∨ command = .historyNext ∨ command = .up ∨
      command = .down) ∧ apply s.input command = some input ∧ u = withInput s.chat input := by
  have hedit : ∀ command, (edit s command).map Prod.fst = some u →
      ∃ input, apply s.input command = some input ∧ u = withInput s.chat input := by
    intro command hcommand
    rcases Option.map_eq_some_iff.1 hcommand with ⟨r, hr, rfl⟩
    rcases edit_step hr with ⟨input, hinput, rfl⟩
    exact ⟨input, hinput, rfl⟩
  cases a with
  | key key =>
    rcases key with ⟨code, ctrl, alt⟩
    rcases ha with rfl | rfl
    · unfold step update keyUpdate at hstep
      dsimp only at hstep
      split_ifs at hstep
      · rcases hedit _ hstep with ⟨input, hboth⟩
        exact ⟨_, input, Or.inl rfl, hboth⟩
      · rcases hedit _ hstep with ⟨input, hboth⟩
        exact ⟨_, input, Or.inr (Or.inr (Or.inl rfl)), hboth⟩
    · unfold step update keyUpdate at hstep
      dsimp only at hstep
      split_ifs at hstep
      · rcases hedit _ hstep with ⟨input, hboth⟩
        exact ⟨_, input, Or.inr (Or.inl rfl), hboth⟩
      · rcases hedit _ hstep with ⟨input, hboth⟩
        exact ⟨_, input, Or.inr (Or.inr (Or.inr rfl)), hboth⟩
  | _ => exact ha.elim

theorem Browsing.step (h : Browsing s t) {a : Action} (ha : isHistoryKey a)
    (hstep : TuiInput.step t a = some u) : Browsing s u := by
  have hframed := step_framed h.framed hstep
  rcases historyKey_step ha hstep with ⟨command, input, hcommand, happly, rfl⟩
  have hhistory := (apply_history h.framed happly).trans h.history
  refine ⟨hframed, h.idle, hhistory, ?_⟩
  have hunchanged : ∀ cursor, input = { t.input with cursor } → text input = [] ∨
      input.historyPos = none ∨ ∃ pos entry, s.input.history[pos]? = some entry ∧
        input.historyPos = some pos ∧ text input = entry := by
    intro cursor hinput
    rw [hinput]
    exact h.content
  have hrecalls : ∀ st, st.history = t.input.history →
      (∃ pos entry, Recalls st input pos entry) → text input = [] ∨
      input.historyPos = none ∨ ∃ pos entry, s.input.history[pos]? = some entry ∧
        input.historyPos = some pos ∧ text input = entry := by
    intro st hst hrecalls
    rcases hrecalls with ⟨pos, entry, hentry, _, hpos, htext⟩
    rw [hst, h.history] at hentry
    exact Or.inr (Or.inr ⟨pos, entry, hentry, hpos, htext⟩)
  rcases apply_eq h.framed command with
    ⟨above, before, behind, below, st', happly', _, _, col, hst'⟩
  have hsame : st'.history = t.input.history := by rw [hst']
  rw [happly'] at happly
  rcases hcommand with rfl | rfl | hmove
  · rcases historyPrev_cases happly with rfl | hboth
    · exact hunchanged _ hst'
    · exact hrecalls st' hsame hboth
  · rcases historyNext_cases happly with rfl | hboth | ⟨hnone, _⟩
    · exact hunchanged _ hst'
    · exact hrecalls st' hsame hboth
    · exact Or.inr (Or.inl hnone)
  · rw [← happly'] at happly
    rcases apply_move h.framed hmove happly with ⟨cursor, hcursor⟩
    exact hunchanged cursor hcursor

/-- The last entry is what is recalled. -/
theorem recalled_text (h : Framed s.input) (hempty : text s.input = []) {m : Text}
    (hlast : s.input.history.getLast? = some m) (hrecalled : Recalled s u) :
    Framed u.input ∧ u.chat.status = s.chat.status ∧ text u.input = m := by
  rcases hrecalled.keys with ⟨actions, hrun⟩
  have hbrowsing : Browsing s u :=
    Run.invariant ⟨h, rfl, rfl, Or.inl hempty⟩ (fun _ _ _ hinv ha hstep => hinv.step ha hstep) hrun
  refine ⟨hbrowsing.framed, hbrowsing.idle, ?_⟩
  rcases hbrowsing.content with hnil | hnone | ⟨pos, entry, hentry, hpos, htext⟩
  · exact absurd hnil hrecalled.shown
  · rw [hrecalled.last] at hnone
    cases hnone
  · rw [hrecalled.last, hbrowsing.history] at hpos
    cases hpos
    rw [← List.getLast?_eq_getElem?, hlast] at hentry
    rw [htext, Option.some.inj hentry]

/-! ## Sending again -/

theorem effectsOf_eq_iff {meant : Meaning} {m : Text} :
    effectsOf meant = [.startTurn m] ↔ meant = .message m := by
  constructor
  · intro h
    cases meant with
    | nothing => cases h
    | command line =>
      have hmem : Effect.startTurn m ∈ commandEffects line := by
        rw [show commandEffects line = [.startTurn m] from h]
        exact List.mem_singleton.2 rfl
      exact absurd hmem (notMem_commandEffects line m)
    | message m' =>
      cases h
      rfl
  · intro h
    rw [h]
    rfl

theorem submit_sends_iff (h : Framed s.input) (hidle : s.chat.status = .idle) {m : Text} :
    (∃ next, submit s = some (next, [.startTurn m])) ↔ meaning (text s.input) = .message m := by
  rcases submit_eq h hidle with ⟨next, hnext, _⟩
  rw [← effectsOf_eq_iff, hnext]
  constructor
  · intro hsends
    rcases hsends with ⟨next', hsends⟩
    exact congrArg Prod.snd (Option.some.inj hsends)
  · intro heffects
    rw [heffects]
    exact ⟨next, rfl⟩

/-- The state once a message is on its way has an empty input, and the message is the last entry
of its history. -/
theorem sent_state (h : Framed s.input) (hidle : s.chat.status = .idle) {m : Text}
    (hsend : submit s = some (t, [.startTurn m])) :
    Framed t.input ∧ t.input.lines = [[]] ∧ t.input.cursor = (0, 0) ∧
      t.input.historyPos = none ∧ t.input.history.getLast? = some m := by
  have hmeaning := (submit_sends_iff h hidle).1 ⟨t, hsend⟩
  have hne := message_ne_nil hmeaning
  have hsent : submit s = sendMessage s m := by
    unfold meaning at hmeaning
    unfold submit
    rw [hidle]
    dsimp only
    split at hmeaning
    · cases hmeaning
    · cases hmeaning
      rfl
    · split_ifs at hmeaning with hline
      cases hmeaning
      exact if_pos hline
    · cases hmeaning
      rfl
  rw [hsent, sendMessage_eq h] at hsend
  cases hsend
  refine ⟨framed_pushHistory (framed_cleared h) m, ?_, ?_, ?_, getLast?_pushHistory hne⟩
  · unfold withInput pushHistory
    dsimp only
    split_ifs <;> rfl
  · unfold withInput pushHistory
    dsimp only
    split_ifs <;> rfl
  · unfold withInput pushHistory
    dsimp only
    split_ifs <;> rfl

def upKey : Action := .key ⟨.up, false, false⟩

/-- When the turn is over, one key brings the message back. -/
theorem exists_recall (h : Framed t.input) (hlines : t.input.lines = [[]])
    (hcursor : t.input.cursor = (0, 0)) (hpos : t.input.historyPos = none) {m : Text}
    (hne : m ≠ []) (hlast : t.input.history.getLast? = some m) :
    ∃ s u, Run step Quiet t [.turnFinished (.ok ())] s ∧ s.chat.status = .idle ∧
      text s.input = [] ∧ Recalled s u := by
  have hstep : step t (.turnFinished (.ok ())) =
      some (withInput { t.chat with status := .idle } t.input) := rfl
  have hquiet : Quiet t (.turnFinished (.ok ())) := by
    intro r hr m hm
    cases hr
    have hm : Effect.startTurn m ∈ [Effect.save, Effect.refreshGit] := hm
    simp at hm
  rcases exists_apply h .historyPrev with ⟨input, hinput, hframed, hhistory⟩
  rcases apply_eq h .historyPrev with
    ⟨above, before, behind, below, st', happly, _, _, col, hst'⟩
  have hrecalls : Recalls st' input (st'.history.length - 1) m := by
    apply historyPrev_last
    · rw [hst']
      exact hpos
    · rw [hst']
      exact hlast
    · exact happly.symm.trans hinput
  have hup : step (withInput { t.chat with status := .idle } t.input) upKey =
      some (withInput { t.chat with status := .idle } input) := by
    unfold step update keyUpdate upKey
    dsimp only
    have hrow : t.input.cursor.1 = 0 := by rw [hcursor]
    rw [withInput_input, if_pos hrow]
    unfold edit
    rw [withInput_input, hinput]
    rfl
  have hshown : text (withInput { t.chat with status := .idle } t.input).input = [] := by
    rw [withInput_input, text_congr (show t.input.lines = EditorState.new.lines from hlines)]
    rfl
  have hkey : isHistoryKey upKey := Or.inl rfl
  refine ⟨_, _, .single hquiet hstep, rfl, hshown, ⟨_, .single hkey hup⟩, ?_, ?_⟩
  · rw [withInput_input, hrecalls.2.1]
    exact hrecalls.2.2.1
  · rw [withInput_input, hrecalls.2.2.2]
    exact hne

theorem framed_start (chat : AppState) {actions : List Action}
    (hrun : Run step free (withInput chat EditorState.new) actions s) : Framed s.input :=
  run_framed framed_new hrun

/-- After a message was sent, going through the history shows it. -/
theorem recalled_message (h : Framed s.input) (hidle : s.chat.status = .idle) {m : Text}
    (hsend : submit s = some (t, [.startTurn m])) {later : List Action} {s' : ChatState}
    (hrun : Run step Quiet t later s') (hempty : text s'.input = []) (hrecalled : Recalled s' u) :
    Framed u.input ∧ u.chat.status = s'.chat.status ∧ text u.input = m := by
  rcases sent_state h hidle hsend with ⟨hframed, _, _, _, hlast⟩
  rcases quiet_history hframed hrun with ⟨hframed', hhistory⟩
  rw [← hhistory] at hlast
  exact recalled_text hframed' hempty hlast hrecalled

/-- What is recalled gives the same turn exactly when it means itself. -/
theorem resends_iff (h : Framed s.input) (hidle : s.chat.status = .idle) {m : Text}
    (hsend : submit s = some (t, [.startTurn m])) :
    (∀ later s' u, Run step Quiet t later s' → s'.chat.status = .idle → text s'.input = [] →
      Recalled s' u → ∃ next, submit u = some (next, [.startTurn m])) ↔
      ¬Escaped (text s.input) := by
  have hmeaning := (submit_sends_iff h hidle).1 ⟨t, hsend⟩
  rw [← meaning_message_iff hmeaning]
  constructor
  · intro hall
    rcases sent_state h hidle hsend with ⟨hframed, hlines, hcursor, hpos, hlast⟩
    rcases exists_recall hframed hlines hcursor hpos (message_ne_nil hmeaning) hlast with
      ⟨s', u, hrun, hidle', hempty, hrecalled⟩
    rcases recalled_message h hidle hsend hrun hempty hrecalled with ⟨hframed', hstatus, htext⟩
    rw [← htext]
    rw [← submit_sends_iff hframed' (hstatus.trans hidle'), htext]
    exact hall _ s' u hrun hidle' hempty hrecalled
  · intro hmeans later s' u hrun hidle' hempty hrecalled
    rcases recalled_message h hidle hsend hrun hempty hrecalled with ⟨hframed', hstatus, htext⟩
    rw [submit_sends_iff hframed' (hstatus.trans hidle'), htext]
    exact hmeans

/-- What Enter does in an idle state is what the text of the input means.  After it sent a
message, going through the history from an empty input shows this message as it was sent, and Enter
sends it again exactly when the input was not an escaped message that begins with `//` or that
is one line. -/
theorem resend_iff (chat : AppState) (actions : List Action) (s : ChatState)
    (hrun : Run step free (withInput chat EditorState.new) actions s)
    (hidle : s.chat.status = .idle) :
    (∃ next, submit s = some (next, effectsOf (meaning (text s.input)))) ∧
    ∀ t m, submit s = some (t, [.startTurn m]) →
      (∀ later s' u, Run step Quiet t later s' → text s'.input = [] → Recalled s' u →
        text u.input = m) ∧
      ((∀ later s' u, Run step Quiet t later s' → s'.chat.status = .idle →
          text s'.input = [] → Recalled s' u →
            ∃ next, submit u = some (next, [.startTurn m])) ↔ ¬Escaped (text s.input)) := by
  have hframed := framed_start chat hrun
  rcases submit_eq hframed hidle with ⟨next, hnext, _⟩
  refine ⟨⟨next, hnext⟩, ?_⟩
  intro t m hsend
  refine ⟨?_, resends_iff hframed hidle hsend⟩
  intro later s' u hlater hempty hrecalled
  exact (recalled_message hframed hidle hsend hlater hempty hrecalled).2.2

end Runs

/-! ### Two messages -/

def startChat : AppState := AppState.new [] 0 none

/-- The text is pasted, and nothing is on its way. -/
def pasted (s : ChatState) (line : Text) : Bool :=
  s.input.lines == [line] && s.chat.status == .idle

theorem exists_pasted (line : Text)
    (h : (exec step free (withInput startChat EditorState.new) [.paste line]).any
      (pasted · line) = true) :
    ∃ s, Run step free (withInput startChat EditorState.new) [.paste line] s ∧
      s.chat.status = .idle ∧ text s.input = line := by
  rcases Run.exists_of_exec (pasted · line) h with ⟨s, hrun, htest⟩
  rw [pasted, Bool.and_eq_true, beq_iff_eq, beq_iff_eq] at htest
  refine ⟨s, hrun, htest.2, ?_⟩
  unfold text
  rw [htest.1, List.intercalate_singleton]

/-- A message without escaping is sent again. -/
theorem resend_plain : ∃ s t, s.chat.status = .idle ∧ text s.input = ['o', 'k'] ∧
    submit s = some (t, [.startTurn ['o', 'k']]) ∧
    ∀ later s' u, Run step Quiet t later s' → s'.chat.status = .idle → text s'.input = [] →
      Recalled s' u → ∃ next, submit u = some (next, [.startTurn ['o', 'k']]) := by
  rcases exists_pasted ['o', 'k'] (by decide +kernel) with ⟨s, hrun, hidle, htext⟩
  rcases resend_iff startChat [.paste ['o', 'k']] s hrun hidle with ⟨⟨t, hsend⟩, hall⟩
  rw [htext] at hsend
  refine ⟨s, t, hidle, htext, hsend, ?_⟩
  apply ((hall t _ hsend).2).2
  rw [htext]
  intro hescaped
  rcases hescaped with ⟨rest, hrest, _⟩
  have hhead : (trim ['o', 'k']).head? = some '/' := congrArg List.head? hrest
  exact absurd hhead (by decide)

/-- The message `/ls`, which was written `//ls`, is a command when it is recalled. -/
theorem resend_escaped :
    ¬∀ (chat : AppState) (actions : List Action) (s : ChatState),
      Run step free (withInput chat EditorState.new) actions s → s.chat.status = .idle →
      ∀ t m, submit s = some (t, [.startTurn m]) →
        ∀ later s' u, Run step Quiet t later s' → s'.chat.status = .idle →
          text s'.input = [] → Recalled s' u →
            ∃ next, submit u = some (next, [.startTurn m]) := by
  intro hall
  rcases exists_pasted ['/', '/', 'l', 's'] (by decide +kernel) with ⟨s, hrun, hidle, htext⟩
  have hframed := framed_start startChat hrun
  rcases submit_eq hframed hidle with ⟨t, hsend, _⟩
  rw [htext] at hsend
  have hresends := (resends_iff hframed hidle hsend).1
    (hall startChat _ s hrun hidle t _ hsend)
  apply hresends
  rw [htext]
  exact ⟨['l', 's'], by decide, Or.inr (by decide)⟩

end Vanyline.Cli.TuiInput
