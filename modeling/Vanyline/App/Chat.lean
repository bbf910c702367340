import Mathlib.Data.Finset.Basic
import Vanyline.Cli.Tui
import Vanyline.Lib.Run

/-!
# The chat of the application

A socket belongs to one conversation and is served by one replica of the application.  Its
loop reads the messages of the client.  When the conversation has no mark in `busy`, which
is a set of the process, a message is accepted: the mark is set and a task handles the
message, while the loop reads on.  Events go through a channel for each socket to the task
that writes them.

The replicas share the tables.  A step of the model is one query, one event, one write to
a socket, or one message read.  What the database and the model of the agent say at a step
is in `Env`: whether a query fails, and then whether its row was written all the same, the
clock, the agent that is found, and the rows in an order in which they may be read.

The model notes on a row which turn wrote it, and on an event which turn sent it.
-/

namespace Vanyline.App.Chat

open Vanyline.Lib Vanyline.Cli

/-! ## Errors -/

inductive AppError
  | agentNotFound
  | conversationNotFound
  | llmError (message : Text)
  | internalError (message : Text)
  | cluster (display : Text)

def AppError.display : AppError → Text
  | .agentNotFound => "VNL-AGT-001: Agent not found".toList
  | .conversationNotFound => "VNL-CNV-001: Conversation not found".toList
  | .llmError message => "VNL-LLM-001: LLM provider error: ".toList ++ message
  | .internalError message => "VNL-INT-001: Internal error: ".toList ++ message
  | .cluster display => display

/-- An error of the database. -/
def dbError (message : Text) : AppError := .internalError ("VNL-DB-006: ".toList ++ message)

/-- An error of the library with the stream of the model. -/
def streamError (cause : Text) : AppError :=
  .internalError ("VNL-LLM-001: LLM provider error: ".toList ++ cause)

def turnTimeoutSecs : Nat := 900

def turnTimeout : AppError :=
  .llmError ("VNL-LLM-010: aucune réponse du modèle après ".toList ++
    Nat.toDigits 10 turnTimeoutSecs ++ " s".toList)

/-- An event with an error and its code. -/
def errorEvent (code : String) (message : Text) : ChatEvent := .error code.toList message

def noAgent : ChatEvent :=
  errorEvent "VNL-AGT-001" "No agent assigned to conversation".toList

def turnInProgress : ChatEvent :=
  errorEvent "VNL-WS-001" "A turn is already in progress for this conversation".toList

/-! ## The tables -/

/-- A message of a conversation; the payload may be one that is not read as a message.
The model notes the turn that wrote it. -/
structure Row where
  id : Nat
  ownerId : Nat
  conversationId : Nat
  role : Text
  payload : Option Message
  createdAt : Nat
  turn : Option Nat
  deriving DecidableEq

structure Conversation where
  ownerId : Nat
  agentId : Option Nat
  contextId : Nat
  todo : Option Text
  updatedAt : Nat

/-- A message as the model of the agent is given it. -/
inductive HistoryMessage
  | user (content : Text)
  | assistant (content : Text)
  deriving DecidableEq

/-- The messages of the user and of the assistant; other rows are left out. -/
def toHistory (rows : List Row) : List HistoryMessage :=
  rows.filterMap fun row => row.payload.bind fun message =>
    if message.role = "user".toList then some (.user message.content)
    else if message.role = "assistant".toList then some (.assistant message.content)
    else none

/-- The rows of a conversation. -/
def rowsOf (c : Nat) (messages : List Row) : List Row :=
  messages.filter fun row => row.conversationId = c

/-- An order in which a query by `created_at` may give the rows. -/
def IsReading (table rows : List Row) : Prop :=
  rows.Perm table ∧ rows.Pairwise fun a b => a.createdAt ≤ b.createdAt

instance (table rows : List Row) : Decidable (IsReading table rows) :=
  inferInstanceAs (Decidable (_ ∧ _))

/-- `ToolCallRecord` without its id. -/
def toolCallsForPersistence (records : List ToolCallRecord) : List ToolCall :=
  records.map fun record => ⟨record.name, record.arguments, record.result⟩

/-- The task list after a turn, if it has changed to another one. -/
def todoToPersist (current initial : Option Text) : Option Text :=
  match current with
  | some _ => if current ≠ initial then current else none
  | none => none

/-! ## The state -/

/-- A connection, with the conversation as it was at first. -/
structure Socket where
  replica : Nat
  conversation : Nat
  user : Nat
  agentId : Option Nat
  contextId : Nat
  reading : Bool
  forwarding : Bool
  queue : List ChatEvent
  wire : List ChatEvent

/-- Where the task of a message is. -/
inductive Stage
  | findAgent
  | loadHistory
  | insertUser
  | touchUser
  | readTodo
  | resolveTools
  | running
  | closing (result : Except AppError ChatTurnResult)
  | returned (result : Except AppError ChatTurnResult)
  | insertAnswer (result : ChatTurnResult)
  | touchAnswer
  | saveTodo
  | succeeded
  | failed (error : AppError)
  | reported
  | ended (answered : Bool)

structure Task where
  socket : Nat
  replica : Nat
  conversation : Nat
  user : Nat
  content : Text
  agentName : Text
  history : List HistoryMessage
  todoInitial : Option Text
  todoState : Option Text
  stage : Stage

/-- An event that was sent to a socket, by a turn or by the loop. -/
structure Sent where
  socket : Nat
  turn : Option Nat
  event : ChatEvent

structure State where
  busy : Nat → Finset Nat
  sockets : Nat → Option Socket
  connections : Nat
  tasks : Nat → Option Task
  turns : Nat
  conversations : Nat → Option Conversation
  messages : List Row
  nextId : Nat
  sent : List Sent

/-- The tables at the start, with rows that no turn has written. -/
structure Store where
  conversations : Nat → Option Conversation
  messages : List Row
  nextId : Nat
  older : ∀ row ∈ messages, row.turn = none

def State.init (store : Store) : State where
  busy := fun _ => ∅
  sockets := fun _ => none
  connections := 0
  tasks := fun _ => none
  turns := 0
  conversations := store.conversations
  messages := store.messages
  nextId := store.nextId
  sent := []

/-- What the database and the tools say at a step. -/
structure Env where
  dbError : Option Text := none
  written : Bool := false
  now : Nat := 0
  agent : Option Text := some []
  rows : List Row := []
  unavailable : List (Text × Text) := []
  toolsError : Option AppError := none

/-- How the turn of the agent ends: with an answer, with an error of the stream, or before
it has come to the stream. -/
inductive TurnEnd
  | completed (result : ChatTurnResult)
  | streamFailed (cause : Text)
  | failed (error : AppError)

/-- The turn is in progress. -/
def Stage.live : Stage → Bool
  | .ended _ => false
  | _ => true

/-- The tools of the turn may run, also those that outlive it. -/
def Stage.started : Stage → Bool
  | .findAgent | .loadHistory | .insertUser | .touchUser | .readTodo | .resolveTools => false
  | _ => true

/-- The events that a turn sends before its end. -/
def isStreamed : ChatEvent → Bool
  | .done | .error _ _ => false
  | _ => true

namespace State

/-- The event goes to the channel, unless its reader is gone. -/
def send (s : State) (i : Nat) (turn : Option Nat) (event : ChatEvent) : State :=
  { s with
    sent := s.sent ++ [⟨i, turn, event⟩]
    sockets := Function.update s.sockets i ((s.sockets i).map fun socket =>
      if socket.forwarding then { socket with queue := socket.queue ++ [event] } else socket) }

def setSocket (s : State) (i : Nat) (socket : Socket) : State :=
  { s with sockets := Function.update s.sockets i (some socket) }

def setTask (s : State) (t : Nat) (task : Task) : State :=
  { s with tasks := Function.update s.tasks t (some task) }

/-- The task goes on to a stage. -/
def goTo (s : State) (t : Nat) (task : Task) (stage : Stage) : State :=
  s.setTask t { task with stage }

/-- The guard is dropped. -/
def release (s : State) (t : Nat) (task : Task) (answered : Bool) : State :=
  { s with
    busy := Function.update s.busy task.replica ((s.busy task.replica).erase task.conversation)
    tasks := Function.update s.tasks t (some { task with stage := .ended answered }) }

/-! ## The loop of a socket -/

/-- The socket is served when the conversation is the user's own. -/
def connect (s : State) (replica c user : Nat) : State :=
  match s.conversations c with
  | some conv =>
    if conv.ownerId = user then
      { s.setSocket s.connections
          { replica, user
            conversation := c
            agentId := conv.agentId
            contextId := conv.contextId
            reading := true
            forwarding := true
            queue := []
            wire := [] } with
        connections := s.connections + 1 }
    else s
  | none => s

/-- The mark is set and the task spawned, or the message is refused. -/
def receive (s : State) (i : Nat) (socket : Socket) (content : Text) : State :=
  match socket.agentId with
  | none => s.send i none noAgent
  | some _ =>
    if socket.conversation ∈ s.busy socket.replica then s.send i none turnInProgress
    else
      let task : Task :=
        { socket := i
          replica := socket.replica
          conversation := socket.conversation
          user := socket.user
          content
          agentName := []
          history := []
          todoInitial := none
          todoState := none
          stage := .findAgent }
      { s with
        busy := Function.update s.busy socket.replica
          (insert socket.conversation (s.busy socket.replica))
        tasks := Function.update s.tasks s.turns (some task)
        turns := s.turns + 1 }

/-- The next event is written, or the channel ends. -/
def forward (s : State) (i : Nat) (socket : Socket) (written : Bool) : Option State :=
  match socket.queue with
  | [] => none
  | event :: rest =>
    if written then
      some (s.setSocket i { socket with queue := rest, wire := socket.wire ++ [event] })
    else some (s.setSocket i { socket with queue := [], forwarding := false })

/-! ## The task of a message -/

/-- The first half of `persist_message`. -/
def insertMessage (s : State) (t : Nat) (task : Task) (role content : Text)
    (toolCalls : Option (List ToolCall)) (env : Env) (next : Stage) : State :=
  let row : Row :=
    { id := s.nextId
      ownerId := task.user
      conversationId := task.conversation
      role
      payload := some ⟨role, content, toolCalls⟩
      createdAt := env.now
      turn := some t }
  let inserted : State := { s with messages := s.messages ++ [row], nextId := s.nextId + 1 }
  match env.dbError with
  | none => inserted.goTo t task next
  | some e => (if env.written then inserted else s).goTo t task (.failed (dbError e))

/-- The second half of `persist_message`: the conversation is touched. -/
def touch (s : State) (t : Nat) (task : Task) (env : Env) (next : Stage) : State :=
  match env.dbError, s.conversations task.conversation with
  | some e, _ => s.goTo t task (.failed (dbError e))
  | none, none => s.goTo t task (.failed .conversationNotFound)
  | none, some conv =>
    { s with
      conversations := Function.update s.conversations task.conversation
        (some { conv with updatedAt := env.now }) }.goTo t task next

def findAgent (s : State) (t : Nat) (task : Task) (env : Env) : State :=
  match env.dbError, env.agent with
  | some e, _ => s.goTo t task (.failed (dbError e))
  | none, none => s.goTo t task (.failed .agentNotFound)
  | none, some agentName => s.setTask t { task with agentName, stage := .loadHistory }

def loadHistory (s : State) (t : Nat) (task : Task) (env : Env) : Option State :=
  match env.dbError with
  | some e => some (s.goTo t task (.failed (dbError e)))
  | none =>
    if IsReading (rowsOf task.conversation s.messages) env.rows then
      some (s.setTask t { task with history := toHistory env.rows, stage := .insertUser })
    else none

def readTodo (s : State) (t : Nat) (task : Task) (env : Env) : State :=
  match env.dbError with
  | some e => s.goTo t task (.failed (dbError e))
  | none =>
    let todo := (s.conversations task.conversation).bind (·.todo)
    s.setTask t { task with todoInitial := todo, todoState := todo, stage := .resolveTools }

/-- The servers that are missing are named to the client. -/
def resolveTools (s : State) (t : Nat) (task : Task) (env : Env) : State :=
  match env.toolsError with
  | some e => s.goTo t task (.failed e)
  | none =>
    (env.unavailable.foldl (fun s x => s.send task.socket (some t) (.toolUnavailable x.1 x.2))
      s).goTo t task .running

def saveTodo (s : State) (t : Nat) (task : Task) (env : Env) : State :=
  match todoToPersist task.todoState task.todoInitial with
  | none => s.goTo t task .succeeded
  | some todo =>
    match env.dbError, s.conversations task.conversation with
    | some e, _ => s.goTo t task (.failed (dbError e))
    | none, none => s.goTo t task (.failed .conversationNotFound)
    | none, some conv =>
      { s with
        conversations := Function.update s.conversations task.conversation
          (some { conv with todo := some todo }) }.goTo t task .succeeded

/-- The next step of the task, but for the turn of the agent. -/
def advance (s : State) (t : Nat) (task : Task) (env : Env) : Option State :=
  match task.stage with
  | .findAgent => some (s.findAgent t task env)
  | .loadHistory => s.loadHistory t task env
  | .insertUser =>
    some (s.insertMessage t task "user".toList task.content none env .touchUser)
  | .touchUser => some (s.touch t task env .readTodo)
  | .readTodo => some (s.readTodo t task env)
  | .resolveTools => some (s.resolveTools t task env)
  | .running => none
  | .closing result => some (s.goTo t task (.returned result))
  | .returned (.ok result) => some (s.goTo t task (.insertAnswer result))
  | .returned (.error e) => some (s.goTo t task (.failed e))
  | .insertAnswer result =>
    let toolCalls := toolCallsForPersistence result.toolCalls
    some (s.insertMessage t task "assistant".toList result.responseText
      (if toolCalls.isEmpty then none else some toolCalls) env .touchAnswer)
  | .touchAnswer => some (s.touch t task env .saveTodo)
  | .saveTodo => some (s.saveTodo t task env)
  | .succeeded => some (s.release t task true)
  | .failed e =>
    some ((s.send task.socket (some t) (errorEvent "VNL-LLM-001" e.display)).goTo t task .reported)
  | .reported => some (s.release t task false)
  | .ended _ => none

/-- The end of the turn; a stream that fails sends its own error. -/
def settle (s : State) (t : Nat) (task : Task) : TurnEnd → State
  | .completed result => (s.send task.socket (some t) .done).goTo t task (.closing (.ok result))
  | .streamFailed cause =>
    (s.send task.socket (some t) (errorEvent "VNL-LLM-001" cause)).goTo t task
      (.closing (.error (streamError cause)))
  | .failed e => s.goTo t task (.closing (.error e))

end State

/-! ## Steps -/

/-- A step of a socket or of the task of a message.  A frame that is no message is read
as `none`. -/
inductive Label
  | connect (replica c user : Nat)
  | receive (i : Nat) (frame : Option Text)
  | close (i : Nat)
  | forward (i : Nat) (written : Bool)
  | advance (t : Nat) (env : Env)
  | emit (t : Nat) (event : ChatEvent)
  | writeTodo (t : Nat) (todo : Text)
  | settle (t : Nat) (ending : TurnEnd)
  | timeout (t : Nat)
  | panic (t : Nat)

def step (s : State) : Label → Option State
  | .connect replica c user => some (s.connect replica c user)
  | .receive i frame => (s.sockets i).bind fun socket =>
    if socket.reading then
      match frame with
      | some content => some (s.receive i socket content)
      | none => some s
    else none
  | .close i => (s.sockets i).bind fun socket =>
    some (s.setSocket i { socket with reading := false })
  | .forward i written => (s.sockets i).bind fun socket => s.forward i socket written
  | .advance t env => (s.tasks t).bind fun task => s.advance t task env
  | .emit t event => (s.tasks t).bind fun task =>
    if task.stage.started && isStreamed event then some (s.send task.socket (some t) event)
    else none
  | .writeTodo t todo => (s.tasks t).bind fun task =>
    match task.stage with
    | .running => some (s.setTask t { task with todoState := some todo })
    | _ => none
  | .settle t ending => (s.tasks t).bind fun task =>
    match task.stage with
    | .running => some (s.settle t task ending)
    | _ => none
  | .timeout t => (s.tasks t).bind fun task =>
    match task.stage with
    | .running | .closing _ => some (s.goTo t task (.returned (.error turnTimeout)))
    | _ => none
  | .panic t => (s.tasks t).bind fun task =>
    match task.stage with
    | .running => some (s.release t task false)
    | _ => none

end Vanyline.App.Chat
