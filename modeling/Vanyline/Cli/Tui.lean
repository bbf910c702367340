import Mathlib.Logic.Function.Basic
import Vanyline.Cli.Transcript
import Vanyline.Lib.Run

/-!
# The interactive chat

The loop of the interactive chat, with the pure update of its state and the effects
that the loop carries out.  A turn is a task of its own.  It sends its events and, as its
last act, its outcome to the loop through two queues, and it is aborted by `Ctrl+C`.

A step of the model is one input of the loop (a key, the next event, the next outcome,
the clock) or one act of a task, in any order.

The editor, the scrolling and the drawing are left out: a key that edits leaves any text
in the input.  What the code does not have are the turns: every turn has a number, and
the events, the outcome and what the loop keeps of a turn are marked with it
(`Of`), as are the items of the transcript (`Mark`).
-/

namespace Vanyline.Cli

open Vanyline.Lib

/-! ## Conversations -/

structure ToolCallRecord where
  id : Text
  name : Text
  arguments : Args
  result : Option Text

structure ToolCall where
  name : Text
  arguments : Args
  result : Option Text
  deriving DecidableEq

structure Message where
  role : Text
  content : Text
  toolCalls : Option (List ToolCall)
  deriving DecidableEq

/-- The id is a UUID, so no two conversations have the same. -/
structure Conversation where
  id : Nat
  agent : Option Text
  title : Option Text
  messages : List Message
  todo : Option Text
  deriving DecidableEq

structure ChatTurnResult where
  responseText : Text
  toolCalls : List ToolCallRecord

/-- The answer as it is stored: the ids of the calls are dropped. -/
def resultToAssistantMessage (result : ChatTurnResult) : Message :=
  let toolCalls := result.toolCalls.map fun call => ⟨call.name, call.arguments, call.result⟩
  { role := "assistant".toList
    content := result.responseText
    toolCalls := if toolCalls.isEmpty then none else some toolCalls }

/-- Append a turn to its conversation. -/
def applyTurn (conv : Conversation) (userText : Text) (assistant : Message) (todo : Option Text) :
    Conversation :=
  { conv with
    messages := conv.messages ++ [⟨"user".toList, userText, none⟩, assistant]
    todo }

/-! ## The state of the chat -/

namespace Tui

inductive Status
  | idle
  | running (since : Nat)
  deriving DecidableEq

def Status.isRunning : Status → Bool
  | .idle => false
  | .running _ => true

structure Usage where
  input : Nat
  output : Nat

structure AppState where
  transcript : Transcript
  status : Status
  input : Text
  todo : List TodoItem
  todoVisible : Bool
  usage : Usage
  agent : Text
  conversationId : Nat
  title : Option Text
  gitSummary : Option Text
  quitArmed : Bool
  tick : Nat
  selected : Option Nat

def AppState.new (agent : Text) (conversationId : Nat) (title : Option Text) : AppState where
  transcript := []
  status := .idle
  input := []
  todo := []
  todoVisible := false
  usage := ⟨0, 0⟩
  agent := agent
  conversationId := conversationId
  title := title
  gitSummary := none
  quitArmed := false
  tick := 0
  selected := none

/-- A key; those that edit come with the text that they leave. -/
inductive Key
  | ctrlC
  | ctrlD (input : Text)
  | enter
  | ctrlR
  | ctrlT
  | tab
  | backTab
  | space (input : Text)
  | type (input : Text)
  | move (input : Text)

inductive Action
  | key (key : Key)
  | paste (input : Text)
  | tick
  | agent (event : ChatEvent)
  | turnFinished (result : Except Text Unit)
  | gitSummary (summary : Option Text)

inductive Effect
  | startTurn (text : Text)
  | cancelTurn
  | save
  | quit
  | refreshGit
  | newConversation
  | switchAgent (agent : Text)
  deriving DecidableEq

/-! ## The pure update -/

/-- The characters that `trim` takes away. -/
def isWhite (c : Char) : Bool :=
  let n := c.toNat
  (9 ≤ n && n ≤ 13) || n = 32 || n = 133 || n = 160 || n = 5760 || (8192 ≤ n && n ≤ 8202) ||
    n = 8232 || n = 8233 || n = 8239 || n = 8287 || n = 12288

def trim (text : Text) : Text := ((text.dropWhile isWhite).reverse.dropWhile isWhite).reverse

/-- Every line is empty or blank. -/
def isBlank (text : Text) : Bool := text.all isWhite

def pushNotice (s : AppState) (level : NoticeLevel) (text : Text) : AppState :=
  { s with transcript := s.transcript ++ [.notice level text] }

def saturatingAdd (a b : Nat) : Nat := min (a + b) (UInt64.size - 1)

/-- An item that can be folded. -/
def collapsible : TranscriptItem → Bool
  | .reasoning _ _ | .toolCall _ _ _ _ _ _ => true
  | _ => false

def collapsibleIndices (items : Transcript) : List Nat :=
  (List.range items.length).filter fun i => items[i]?.any collapsible

def moveSelection (s : AppState) (forward : Bool) : AppState :=
  let candidates := collapsibleIndices s.transcript
  if candidates.isEmpty then { s with selected := none }
  else
    let next :=
      match s.selected.bind (candidates.idxOf? ·), forward with
      | some p, true => min (p + 1) (candidates.length - 1)
      | some p, false => p - 1
      | none, true => 0
      | none, false => candidates.length - 1
    { s with selected := candidates[next]? }

def toggle : TranscriptItem → TranscriptItem
  | .reasoning text expanded => .reasoning text (!expanded)
  | .toolCall id name args result isError expanded =>
      .toolCall id name args result isError (!expanded)
  | item => item

def toggleSelected (s : AppState) : AppState :=
  match s.selected with
  | some i => { s with transcript := s.transcript.modify i toggle }
  | none => s

/-- Fold all reasoning when some is open, and unfold it otherwise. -/
def toggleAllReasoning (s : AppState) : AppState :=
  let anyOpen := s.transcript.any fun
    | .reasoning _ true => true
    | _ => false
  { s with transcript := s.transcript.map fun
      | .reasoning text _ => .reasoning text (!anyOpen)
      | item => item }

def sendMessage (s : AppState) (text : Text) : AppState × List Effect :=
  ({ s with
    transcript := s.transcript ++ [.user text]
    input := []
    status := .running s.tick
    quitArmed := false
    selected := none }, [.startTurn text])

def helpText : Text :=
  ("Entrée envoyer · Alt+Entrée/Ctrl+J nouvelle ligne · Ctrl+C annuler/vider · Ctrl+D quitter · " ++
    "PgUp/PgDn/molette défiler · Fin suit la fin · Tab sélection · Espace replier · " ++
    "Ctrl+R raisonnements · Ctrl+T tâches · /new /agent <nom> /todo /quit").toList

/-- The command and its argument. -/
def splitCommand (line : Text) : Text × Text :=
  (line.takeWhile (· ≠ ' '), trim ((line.dropWhile (· ≠ ' ')).drop 1))

def slashCommand (s : AppState) (line : Text) : AppState × List Effect :=
  let (cmd, arg) := splitCommand line
  let cleared := { s with input := [] }
  if cmd = "/help".toList then (pushNotice cleared .info helpText, [])
  else if cmd = "/new".toList then (cleared, [.newConversation])
  else if cmd = "/agent".toList then
    if arg.isEmpty then (pushNotice s .warn "usage : /agent <nom>".toList, [])
    else ({ cleared with agent := arg }, [.switchAgent arg])
  else if cmd = "/todo".toList then ({ cleared with todoVisible := !s.todoVisible }, [])
  else if cmd = "/quit".toList then (cleared, [.quit])
  else
    (pushNotice cleared .warn
      ("commande inconnue : ".toList ++ cmd ++ " (voir /help)".toList), [])

/-- Enter: send the input, carry out a command, or say that a turn is on its way. -/
def submit (s : AppState) : AppState × List Effect :=
  match s.status with
  | .running _ => (pushNotice s .warn "tour en cours — patientez".toList, [])
  | .idle =>
    match trim s.input with
    | [] => (s, [])
    | '/' :: '/' :: rest => sendMessage s ('/' :: rest)
    | '/' :: rest =>
      if '\n' ∈ rest then sendMessage s ('/' :: rest) else slashCommand s ('/' :: rest)
    | text => sendMessage s text

def keyUpdate (s : AppState) : Key → AppState × List Effect
  | .ctrlC =>
      match s.status with
      | .running _ =>
        ({ s with transcript := s.transcript ++ [.interrupted], status := .idle }, [.cancelTurn])
      | .idle =>
        if !isBlank s.input then ({ s with input := [], quitArmed := false }, [])
        else if s.quitArmed then (s, [.quit])
        else ({ s with quitArmed := true }, [])
  | .ctrlD input => if s.input.isEmpty then (s, [.quit]) else ({ s with input }, [])
  | .enter => submit s
  | .ctrlR => (toggleAllReasoning s, [])
  | .ctrlT => ({ s with todoVisible := !s.todoVisible }, [])
  | .tab => (moveSelection s true, [])
  | .backTab => (moveSelection s false, [])
  | .space input =>
      if s.selected.isSome && isBlank s.input then (toggleSelected s, [])
      else ({ s with input, quitArmed := false }, [])
  | .type input => ({ s with input, quitArmed := false }, [])
  | .move input => ({ s with input }, [])

/-- The tool whose calls carry the task list. -/
def todoTool : Text := "todowrite".toList

def agentUpdate (s : AppState) (event : ChatEvent) : AppState :=
  let s := { s with transcript := s.transcript.apply event }
  match event with
  | .toolCall _ name args => if name = todoTool then { s with todo := args.todos.getD s.todo } else s
  | .usage input output =>
      { s with usage := ⟨saturatingAdd s.usage.input input, saturatingAdd s.usage.output output⟩ }
  | _ => s

def update (s : AppState) : Action → AppState × List Effect
  | .key key => keyUpdate s key
  | .paste input => ({ s with input, quitArmed := false }, [])
  | .tick => ({ s with tick := (s.tick + 1) % UInt64.size }, [])
  | .agent event => (agentUpdate s event, [])
  | .turnFinished (.ok ()) => ({ s with status := .idle }, [.save, .refreshGit])
  | .turnFinished (.error e) => (pushNotice { s with status := .idle } .error e, [])
  | .gitSummary summary => ({ s with gitSummary := summary }, [])

/-! ## The loop -/

/-- A value with the turn that it comes from; the code has only the value. -/
structure Of (α : Type) where
  turn : Nat
  value : α

/-- What the task of a turn sends to the loop at its end. -/
structure TurnOutcome where
  result : Except Text ChatTurnResult
  todo : Option Text

/-- The task of a turn.  With a toolbox it has a task list of its own.  The model notes
the conversation it belongs to, the list of the conversation and the list that the turn
found at its start, and the lists that it has written. -/
structure Task where
  alive : Bool
  todo : Option Text
  conversation : Nat
  seed : Option Text
  found : Option Text
  writes : List Text

/-- What touched an item of the transcript: the turn it is the message of, and the turns
whose events created or changed it. -/
structure Mark where
  user : Option Nat
  events : List Nat

/-- The marks after a change of the transcript, which an event of the turn made, if
`event` is one. -/
def remark (turns : Nat) (event : Option Nat) : Transcript → Transcript → List Mark → List Mark
  | before :: old, item :: new, mark :: marks =>
      (if item = before then mark else { mark with events := event.toList ++ mark.events }) ::
        remark turns event old new marks
  | _, new, _ =>
      new.map fun item => ⟨if item.isUser then some turns else none, event.toList⟩

/-- A turn that was stored, with the turns that its parts come from. -/
structure Saved where
  conversation : Nat
  user : Of Text
  answer : Of Message
  todo : Of (Option Text)

/-- The state of the loop, the two queues and the tasks, and what the model notes. -/
structure State where
  state : AppState
  conv : Conversation
  toolbox : Bool
  sharedTodo : Option Text
  slot : Option Nat
  lastUser : Option (Of Text)
  lastTurn : Option (Of (Message × Option Text))
  quit : Bool
  tasks : Nat → Option Task
  agentRx : List (Of ChatEvent)
  turnRx : List (Of TurnOutcome)
  turns : Nat
  conversations : Nat
  marks : List Mark
  interrupted : Nat → Bool
  saved : List Saved

/-- What a session starts with. -/
structure Session where
  conversation : Conversation
  agent : Text
  workspaceSummary : List Text
  toolbox : Bool

/-- The notice about the sources of the workspace. -/
def workspaceNotice (summary : List Text) : Transcript :=
  if summary.isEmpty then [] else [.notice .info (['\n'].intercalate summary)]

def State.init (session : Session) : State where
  state := { AppState.new session.agent session.conversation.id session.conversation.title with
    transcript := workspaceNotice session.workspaceSummary }
  conv := session.conversation
  toolbox := session.toolbox
  sharedTodo := session.conversation.todo
  slot := none
  lastUser := none
  lastTurn := none
  quit := false
  tasks := fun _ => none
  agentRx := []
  turnRx := []
  turns := 0
  conversations := session.conversation.id + 1
  marks := (workspaceNotice session.workspaceSummary).map fun _ => ⟨none, []⟩
  interrupted := fun _ => false
  saved := []

namespace State

/-- The task of the turn runs. -/
def alive (s : State) (turn : Nat) : Bool := (s.tasks turn).any (·.alive)

/-- The task list that the tools of the turn work on. -/
def todoOf (s : State) (task : Task) : Option Text := if s.toolbox then task.todo else s.sharedTodo

/-- The task of the turn ends. -/
def endTask (s : State) (turn : Nat) : State :=
  let ended := (s.tasks turn).map fun task => { task with alive := false }
  { s with tasks := Function.update s.tasks turn ended }

/-! ### Effects -/

/-- A task for the message, unless one is in the slot. -/
def startTurn (s : State) (text : Text) : State :=
  let turn := s.turns
  let s := { s with lastUser := some ⟨turn, text⟩, turns := turn + 1 }
  match s.slot with
  | some _ => s
  | none =>
    let task : Task :=
      { alive := true
        todo := s.conv.todo
        conversation := s.conv.id
        seed := s.conv.todo
        found := if s.toolbox then s.conv.todo else s.sharedTodo
        writes := [] }
    { s with slot := some turn, tasks := Function.update s.tasks turn (some task) }

/-- Abort the task in the slot. -/
def cancel (s : State) : State :=
  match s.slot with
  | some turn => { s.endTask turn with slot := none }
  | none => s

/-- Store the last turn: both its question and its answer are taken. -/
def saveLastTurn (s : State) : State :=
  let taken := { s with lastUser := none, lastTurn := none }
  match s.lastUser, s.lastTurn with
  | some user, some answer =>
    { taken with
      conv := applyTurn s.conv user.value answer.value.1 answer.value.2
      saved := s.saved ++ [⟨s.conv.id, user, ⟨answer.turn, answer.value.1⟩,
        ⟨answer.turn, answer.value.2⟩⟩] }
  | _, _ => taken

def newConversation (s : State) : State :=
  { s with
    conv := ⟨s.conversations, some s.state.agent, none, [], none⟩
    conversations := s.conversations + 1
    state := { s.state with
      conversationId := s.conversations
      title := none
      transcript := []
      todo := []
      usage := ⟨0, 0⟩ }
    marks := []
    lastUser := none
    lastTurn := none }

/-- The turn that the user interrupts is the last one. -/
def runEffect (s : State) : Effect → State
  | .startTurn text => s.startTurn text
  | .cancelTurn =>
      { s.cancel with interrupted := Function.update s.interrupted (s.turns - 1) true }
  | .save => s.saveLastTurn
  | .quit => { s.cancel with quit := true }
  | .refreshGit => s
  | .newConversation => s.newConversation
  | .switchAgent _ => s

/-! ### Steps of the loop -/

/-- `Loop::step`: the pure update, and its effects one after the other. -/
def loopStep (s : State) (event : Option Nat) (action : Action) : State :=
  let (next, effects) := update s.state action
  effects.foldl runEffect { s with
    state := next
    marks := remark s.turns event s.state.transcript next.transcript s.marks }

/-- The loop takes an outcome, and clears the slot. -/
def takeOutcome (s : State) (outcome : Of TurnOutcome) : State :=
  let s := { s with slot := none }
  match outcome.value.result with
  | .ok result =>
    let turn := (resultToAssistantMessage result, outcome.value.todo)
    { s with lastTurn := some ⟨outcome.turn, turn⟩ }.loopStep none (.turnFinished (.ok ()))
  | .error e => s.loopStep none (.turnFinished (.error e))

/-- The text of the error when the task ended without an outcome. -/
def endedText (reason : Text) : Text :=
  ("VNL-INT-001: Internal error: tour interrompu : la tâche de tour s'est terminée sans résultat (" :
    String).toList ++ reason ++ ")".toList

/-- At the clock, a task in the slot that has ended is taken, with its outcome if that is
waiting. -/
def takeFinished (s : State) (reason : Text) : State :=
  match s.slot with
  | some turn =>
    if s.alive turn then s
    else
      match s.turnRx with
      | outcome :: rest => { s with turnRx := rest }.takeOutcome outcome
      | [] => { s with slot := none }.loopStep none (.turnFinished (.error (endedText reason)))
  | none => s

end State

/-! ## Steps -/

/-- An input of the loop, or an act of the task of a turn. -/
inductive Label
  | key (key : Key)
  | paste (input : Text)
  | event
  | outcome
  | clock (reason : Text)
  | gitSummary (summary : Option Text)
  | stop
  | emit (turn : Nat) (event : ChatEvent)
  | todowrite (turn : Nat) (todos : Text)
  | finish (turn : Nat) (result : Except Text ChatTurnResult)
  | refused (turn : Nat) (message : Text)
  | panic (turn : Nat)

/-- An act of a task, while it runs. -/
def State.act (s : State) (turn : Nat) (f : Task → State) : Option State :=
  match s.tasks turn with
  | some task => if task.alive then some (f task) else none
  | none => none

/-- An input of the loop, before it ends. -/
def State.take (s : State) (next : State) : Option State := if s.quit then none else some next

def step (s : State) : Label → Option State
  | .key key => s.take (s.loopStep none (.key key))
  | .paste input => s.take (s.loopStep none (.paste input))
  | .event =>
      match s.agentRx with
      | e :: rest =>
        s.take ({ s with agentRx := rest }.loopStep (some e.turn) (.agent e.value))
      | [] => none
  | .outcome =>
      match s.turnRx with
      | outcome :: rest => s.take ({ s with turnRx := rest }.takeOutcome outcome)
      | [] => none
  | .clock reason => s.take ((s.takeFinished reason).loopStep none .tick)
  | .gitSummary summary => s.take (s.loopStep none (.gitSummary summary))
  | .stop => s.take { s.cancel with quit := true }
  | .emit turn event => s.act turn fun _ => { s with agentRx := s.agentRx ++ [⟨turn, event⟩] }
  | .todowrite turn todos =>
      s.act turn fun task =>
        let task := { task with todo := some todos, writes := task.writes ++ [todos] }
        let tasks := Function.update s.tasks turn (some task)
        { s with tasks, sharedTodo := if s.toolbox then s.sharedTodo else some todos }
  | .finish turn result =>
      s.act turn fun task =>
        { s.endTask turn with turnRx := s.turnRx ++ [⟨turn, result, s.todoOf task⟩] }
  | .refused turn message =>
      if s.toolbox then
        s.act turn fun _ =>
          { s.endTask turn with turnRx := s.turnRx ++ [⟨turn, .error message, none⟩] }
      else none
  | .panic turn => s.act turn fun _ => s.endTask turn

end Tui

end Vanyline.Cli
