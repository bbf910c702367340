import Mathlib.Data.Finset.Basic
import Vanyline.Cli.Tui
import Vanyline.Lib.Run

/-!
# The RPC server

`vanyline serve` reads one request a line and handles the lines one after the other.  A
`chat/send` is answered by a task of its own: it saves the message, runs the turn, saves
the answer, sends the response and releases its mark in `busy`.  Responses and events go
through one queue to one writer.

A step is one lock section, one read or write of a file, one message sent, or the rest of
a handler.  What the system says at a step is in `Env`: whether a write succeeds, which
agent is the default, what the methods answer that have nothing to do with conversations.

The model notes which line of the input a response or event is for, how often the counter
of a conversation has been reset (its epoch), what the conversations hold that were there
at first, and whether a `chat/send` was refused while a turn was on its way.
-/

namespace Vanyline.Cli.Rpc

open Vanyline.Lib

abbrev Uuid := Nat

/-- The id of a request, `null` if there is none. -/
abbrev Id := Option Text

/-! ## Requests -/

/-- A text that should be a UUID, and what it is read as. -/
structure Reference where
  text : Text
  uuid : Option Uuid

structure InitializeParams where
  protocolVersion : Nat
  workspace : Option Text

structure ConversationCreateParams where
  agent : Option Text
  title : Option Text

structure ChatSendParams where
  conversationId : Reference
  message : Text
  agent : Option Text

/-- A method with its parameters, if they are well-formed.  The methods about the
configuration and the cluster are `other`. -/
inductive Method
  | initializeServer (params : Option InitializeParams)
  | shutdown
  | conversationsGet (params : Option Reference)
  | conversationsCreate (params : Option ConversationCreateParams)
  | conversationsDelete (params : Option Reference)
  | chatCancel (params : Option Reference)
  | chatSend (params : Option ChatSendParams)
  | other
  | unknown (name : Text)

inductive Line
  | blank
  | notARequest
  | request (id : Id) (method : Method)

/-! ## Responses -/

structure JsonRpcErrorObj where
  code : Int
  message : Text
  data : Text
  deriving DecidableEq

def parseError : Int := -32700
def methodNotFound : Int := -32601
def serverError : Int := -32000

/-- The error with a code `VNL-RPC-…`. -/
def rpcError (code : Int) (message : Text) (data : String) : JsonRpcErrorObj :=
  ⟨code, message, data.toList⟩

def invalidRequest : JsonRpcErrorObj :=
  rpcError parseError "Parse error: invalid JSON-RPC request".toList "VNL-RPC-000"

/-- The parameters do not have the form that is named. -/
def malformedRequest (form : String) : JsonRpcErrorObj :=
  rpcError parseError
    ("Malformed request: params could not be deserialized as " ++ form).toList "VNL-RPC-000"

def invalidUuid (field : String) (text : Text) : JsonRpcErrorObj :=
  rpcError parseError (("Invalid UUID in " ++ field ++ ": ").toList ++ text) "VNL-RPC-000"

def notInitialized : JsonRpcErrorObj :=
  rpcError serverError "Server not initialized — call initialize first".toList "VNL-RPC-001"

def conversationBusy : JsonRpcErrorObj :=
  rpcError serverError "Conversation busy: a turn is already in progress".toList "VNL-RPC-002"

def protocolVersion : Nat := 1

def unknownProtocolVersion (version : Nat) : JsonRpcErrorObj :=
  rpcError serverError ("Unknown protocol version: got ".toList ++ Nat.toDigits 10 version ++
    ", expected ".toList ++ Nat.toDigits 10 protocolVersion) "VNL-RPC-003"

def unknownMethod (name : Text) : JsonRpcErrorObj :=
  rpcError methodNotFound ("Method not found: ".toList ++ name) "VNL-RPC-004"

def conversationNotFound (text : Text) : JsonRpcErrorObj :=
  rpcError serverError ("Conversation not found: ".toList ++ text) "VNL-RPC-005"

def storageError (message : Text) : JsonRpcErrorObj := rpcError serverError message "VNL-RPC-007"

def noAgentResolved : JsonRpcErrorObj :=
  rpcError serverError
    ("No agent specified, no agent on the conversation, " ++
      "and no default agent configured").toList "VNL-RPC-008"

def turnExecutionError (message : Text) : JsonRpcErrorObj :=
  rpcError serverError message "VNL-RPC-009"

inductive Result
  | null
  | initialized (workspaceRoot defaultAgent : Option Text)
  | conversation (conv : Conversation)
  | summary (id : Uuid) (agent title : Option Text) (messageCount : Nat)
  | turn (text : Text) (toolCalls : List ToolCallRecord)
  | other (json : Text)

abbrev Body := Except JsonRpcErrorObj Result

/-- A line of the output: the response to a line of the input, or a notification
`chat/event`, of the turn that the line asked for.  For an event the model notes the
epochs in which the turn was accepted and the event was sent. -/
inductive Out
  | response (line : Nat) (id : Id) (body : Body)
  | event (line accepted epoch : Nat) (conversation : Uuid) (seq : Nat) (event : ChatEvent)

/-! ## The files -/

/-- A file holds a conversation, or something that is not read as one. -/
inductive File
  | json (conv : Conversation)
  | garbled
  deriving DecidableEq

abbrev Files := Uuid → Option File

/-- How a write ends: with the file written, as it was, or torn. -/
inductive Disk
  | saved
  | refused
  | torn
  deriving DecidableEq

/-- What the system says at a step. -/
structure Env where
  disk : Disk := .saved
  ioFails : Bool := false
  ioError : Text := []
  fresh : Uuid := 0
  workspaceRoot : Option Text := none
  defaultAgent : Option Text := none
  answer : Body := .ok .null

/-- The file is written under the id that the conversation has. -/
def saveConversation (files : Files) (conv : Conversation) : Disk → Files
  | .saved => Function.update files conv.id (some (.json conv))
  | .refused => files
  | .torn => Function.update files conv.id (some .garbled)

/-- The conversation, or the error for a reference to it. -/
def getConversation (files : Files) (c : Uuid) (text : Text) (env : Env) :
    Except JsonRpcErrorObj Conversation :=
  if env.ioFails then .error (storageError env.ioError)
  else
    match files c with
    | some (.json conv) => .ok conv
    | some .garbled => .error (storageError env.ioError)
    | none => .error (conversationNotFound text)

/-! ## The state -/

/-- Where the handler of a line is. -/
inductive Stage
  | handle (method : Method)
  | clearBusy (result : Result)
  | clearSeq (result : Result)
  | purgeSeq (conversation : Uuid)
  | purgeBusy (conversation : Uuid)
  | lock (params : ChatSendParams) (c : Uuid) (conv : Conversation)
  | resolve (params : ChatSendParams) (c : Uuid) (conv : Conversation)
  | respond (body : Body)

inductive Loop
  | waiting
  | handling (line : Nat) (id : Id) (stage : Stage)
  | stopped

/-- Where the task of a turn is.  At its end it has no result when it has panicked. -/
inductive TaskStage
  | spawned
  | running
  | succeeded (result : ChatTurnResult)
  | answering (result : Except Text ChatTurnResult)
  | answered (result : Except Text ChatTurnResult)
  | ended (result : Option (Except Text ChatTurnResult))

structure Task where
  line : Nat
  id : Id
  conversation : Uuid
  conv : Conversation
  agent : Text
  history : List (Text × Text)
  message : Text
  epoch : Nat
  stage : TaskStage

/-- An event that has its number and is not in the queue yet. -/
structure Drawn where
  turn : Nat
  line : Nat
  accepted : Nat
  conversation : Uuid
  seq : Nat
  event : ChatEvent

structure State where
  initialized : Bool
  shutdownRequested : Bool
  busy : Finset Uuid
  seq : Uuid → Nat
  files : Files
  loop : Loop
  tasks : Nat → Option Task
  turns : Nat
  drawn : List Drawn
  queue : List Out
  wire : List Out
  exited : Bool
  ids : List Id
  epoch : Uuid → Nat
  base : Uuid → Option (List Message)
  deleted : Uuid → Bool
  refusals : List (Uuid × Bool)

/-- The files at the start, each under the id of its conversation. -/
structure Store where
  files : Files
  named : ∀ c conv, files c = some (.json conv) → conv.id = c

def State.init (store : Store) : State where
  initialized := false
  shutdownRequested := false
  busy := ∅
  seq := fun _ => 0
  files := store.files
  loop := .waiting
  tasks := fun _ => none
  turns := 0
  drawn := []
  queue := []
  wire := []
  exited := false
  ids := []
  epoch := fun _ => 0
  base := fun c =>
    match store.files c with
    | some (.json conv) => some conv.messages
    | _ => none
  deleted := fun _ => false
  refusals := []

/-! ## Messages -/

def userMessage (text : Text) : Message := ⟨"user".toList, text, none⟩

def chatTurnResultToMessage (result : ChatTurnResult) : Message :=
  resultToAssistantMessage result

/-- The messages of the user and of the assistant, for the model. -/
def conversationHistoryToMessages (messages : List Message) : List (Text × Text) :=
  messages.filterMap fun message =>
    if message.role = "user".toList || message.role = "assistant".toList then
      some (message.role, message.content)
    else none

def push (conv : Conversation) (message : Message) : Conversation :=
  { conv with messages := conv.messages ++ [message] }

/-- The turn has not been answered yet, and may still be. -/
def TaskStage.unanswered : TaskStage → Bool
  | .spawned | .running | .succeeded _ | .answering _ => true
  | .answered _ | .ended _ => false

/-- The task holds its mark. -/
def TaskStage.live : TaskStage → Bool
  | .ended _ => false
  | _ => true

namespace State

/-- A turn of the conversation has been accepted and is not answered. -/
def unanswered (s : State) (c : Uuid) : Bool :=
  (List.range s.turns).any fun t =>
    (s.tasks t).any fun task => task.conversation = c && task.stage.unanswered

/-- A UUID that no conversation has had. -/
def isFresh (s : State) (c : Uuid) : Bool :=
  (s.files c).isNone && (s.base c).isNone && !s.deleted c

/-! ## The handlers -/

/-- The loop after a line. -/
def next (s : State) : Loop := if s.shutdownRequested then .stopped else .waiting

/-- The next stage of the line. -/
def goTo (s : State) (line : Nat) (id : Id) (stage : Stage) : State :=
  { s with loop := .handling line id stage }

def handleInitialize (env : Env) : Option InitializeParams → Stage
  | none => .respond (.error (malformedRequest "InitializeParams"))
  | some params =>
    if params.protocolVersion ≠ protocolVersion then
      .respond (.error (unknownProtocolVersion params.protocolVersion))
    else .clearBusy (.initialized env.workspaceRoot env.defaultAgent)

def handleConversationsGet (s : State) (env : Env) : Option Reference → Stage
  | none => .respond (.error (malformedRequest "ConversationIdParams"))
  | some ⟨text, none⟩ => .respond (.error (invalidUuid "id" text))
  | some ⟨text, some c⟩ => .respond ((getConversation s.files c text env).map .conversation)

def handleConversationsCreate (s : State) (line : Nat) (id : Id) (env : Env) :
    Option ConversationCreateParams → Option State
  | none => some (s.goTo line id (.respond (.error (malformedRequest "ConversationCreateParams"))))
  | some params =>
    if s.isFresh env.fresh then
      let conv : Conversation := ⟨env.fresh, params.agent, params.title, [], none⟩
      let s := { s with files := saveConversation s.files conv env.disk }
      match env.disk with
      | .saved =>
        let s := { s with base := Function.update s.base env.fresh (some []) }
        some (s.goTo line id (.respond (.ok (.summary conv.id conv.agent conv.title 0))))
      | _ => some (s.goTo line id (.respond (.error (storageError env.ioError))))
    else none

/-- The file is removed, if there is one. -/
def handleConversationsDelete (s : State) (line : Nat) (id : Id) (env : Env) :
    Option Reference → State
  | none => s.goTo line id (.respond (.error (malformedRequest "ConversationIdParams")))
  | some ⟨text, none⟩ => s.goTo line id (.respond (.error (invalidUuid "id" text)))
  | some ⟨_, some c⟩ =>
    if env.ioFails && (s.files c).isSome then
      s.goTo line id (.respond (.error (storageError env.ioError)))
    else
      { s with
        files := Function.update s.files c none
        deleted := Function.update s.deleted c true }.goTo line id (.purgeSeq c)

def handleChatCancel : Option Reference → Stage
  | none => .respond (.error (malformedRequest "ChatCancelParams"))
  | some ⟨text, none⟩ => .respond (.error (invalidUuid "conversationId" text))
  | some ⟨_, some _⟩ => .respond (.ok .null)

/-- Up to the conversation that is loaded. -/
def handleChatSend (s : State) (env : Env) : Option ChatSendParams → Stage
  | none => .respond (.error (malformedRequest "ChatSendParams"))
  | some params =>
    match params.conversationId.uuid with
    | none => .respond (.error (invalidUuid "conversationId" params.conversationId.text))
    | some c =>
      match getConversation s.files c params.conversationId.text env with
      | .error e => .respond (.error e)
      | .ok conv => .lock params c conv

/-- The mark is taken, or the request is refused. -/
def lockBusy (s : State) (line : Nat) (id : Id) (params : ChatSendParams) (c : Uuid)
    (conv : Conversation) : State :=
  if c ∈ s.busy then
    { s with refusals := s.refusals ++ [(c, s.unanswered c)] }.goTo line id
      (.respond (.error conversationBusy))
  else { s with busy := insert c s.busy }.goTo line id (.resolve params c conv)

/-- The task is spawned, or the mark is given back when there is no agent. -/
def spawn (s : State) (line : Nat) (id : Id) (params : ChatSendParams) (c : Uuid)
    (conv : Conversation) (env : Env) : State :=
  match (params.agent.or conv.agent).or env.defaultAgent with
  | none =>
    { s with busy := s.busy.erase c }.goTo line id (.respond (.error noAgentResolved))
  | some agent =>
    let task : Task :=
      { line, id, conv, agent
        conversation := c
        history := conversationHistoryToMessages conv.messages
        message := params.message
        epoch := s.epoch c
        stage := .spawned }
    { s with
      tasks := Function.update s.tasks s.turns (some task)
      turns := s.turns + 1
      loop := s.next }

/-- The first part of a handler; only `initialize` is allowed at first. -/
def handle (s : State) (line : Nat) (id : Id) (env : Env) (method : Method) : Option State :=
  match method, s.initialized with
  | .initializeServer params, _ => some (s.goTo line id (handleInitialize env params))
  | _, false => some (s.goTo line id (.respond (.error notInitialized)))
  | .shutdown, true =>
    some ({ s with shutdownRequested := true }.goTo line id (.respond (.ok .null)))
  | .conversationsGet params, true =>
    some (s.goTo line id (s.handleConversationsGet env params))
  | .conversationsCreate params, true => s.handleConversationsCreate line id env params
  | .conversationsDelete params, true => some (s.handleConversationsDelete line id env params)
  | .chatCancel params, true => some (s.goTo line id (handleChatCancel params))
  | .chatSend params, true => some (s.goTo line id (s.handleChatSend env params))
  | .other, true => some (s.goTo line id (.respond env.answer))
  | .unknown name, true => some (s.goTo line id (.respond (.error (unknownMethod name))))

/-- The next step of the handler of a line. -/
def advance (s : State) (line : Nat) (id : Id) (env : Env) : Stage → Option State
  | .handle method => s.handle line id env method
  | .clearBusy result =>
    some ({ s with initialized := true, shutdownRequested := false, busy := ∅ }.goTo line id
      (.clearSeq result))
  | .clearSeq result =>
    some ({ s with seq := fun _ => 0, epoch := fun c => s.epoch c + 1 }.goTo line id
      (.respond (.ok result)))
  | .purgeSeq c =>
    some ({ s with
      seq := Function.update s.seq c 0
      epoch := Function.update s.epoch c (s.epoch c + 1) }.goTo line id (.purgeBusy c))
  | .purgeBusy c =>
    some ({ s with busy := s.busy.erase c }.goTo line id (.respond (.ok .null)))
  | .lock params c conv => some (s.lockBusy line id params c conv)
  | .resolve params c conv => some (s.spawn line id params c conv env)
  | .respond body => some { s with queue := s.queue ++ [Out.response line id body], loop := s.next }

/-! ## The tasks -/

/-- The task goes on to a stage. -/
def setTask (s : State) (t : Nat) (task : Task) : State :=
  { s with tasks := Function.update s.tasks t (some task) }

/-- The message of the user is saved, whether that succeeds or not. -/
def saveMessage (s : State) (t : Nat) (task : Task) (disk : Disk) : State :=
  let conv := push task.conv (userMessage task.message)
  { s with files := saveConversation s.files conv disk }.setTask t
    { task with conv, stage := .running }

/-- A sub-task of the turn draws a number for its event. -/
def draw (s : State) (t : Nat) (task : Task) (event : ChatEvent) : State :=
  let c := task.conversation
  { s with
    drawn := s.drawn ++ [⟨t, task.line, task.epoch, c, s.seq c, event⟩]
    seq := Function.update s.seq c ((s.seq c + 1) % UInt64.size) }

/-- The turn returns, when its sub-tasks have. -/
def finish (s : State) (t : Nat) (task : Task) (result : Except Text ChatTurnResult) : State :=
  match result with
  | .ok result => s.setTask t { task with stage := .succeeded result }
  | .error e => s.setTask t { task with stage := .answering (.error e) }

def saveAnswer (s : State) (t : Nat) (task : Task) (result : ChatTurnResult) (disk : Disk) :
    State :=
  let conv := push task.conv (chatTurnResultToMessage result)
  { s with files := saveConversation s.files conv disk }.setTask t
    { task with conv, stage := .answering (.ok result) }

def turnBody : Except Text ChatTurnResult → Body
  | .ok result => .ok (.turn result.responseText result.toolCalls)
  | .error e => .error (turnExecutionError e)

def sendResponse (s : State) (t : Nat) (task : Task) (result : Except Text ChatTurnResult) :
    State :=
  { s with queue := s.queue ++ [Out.response task.line task.id (turnBody result)] }.setTask t
    { task with stage := .answered result }

/-- The guard is dropped, at the end of the task or by a panic. -/
def release (s : State) (t : Nat) (task : Task) (result : Option (Except Text ChatTurnResult)) :
    State :=
  { s with busy := s.busy.erase task.conversation }.setTask t { task with stage := .ended result }

/-- All tasks have ended. -/
def allEnded (s : State) : Bool :=
  (List.range s.turns).all fun t => (s.tasks t).all fun task => !task.stage.live

end State

/-! ## Steps -/

/-- A step of the loop, of the task of a turn, or of the writer. -/
inductive Label
  | read (line : Line)
  | eof
  | advance (env : Env)
  | saveMessage (t : Nat) (disk : Disk)
  | draw (t : Nat) (event : ChatEvent)
  | send (i : Nat)
  | finish (t : Nat) (result : Except Text ChatTurnResult)
  | saveAnswer (t : Nat) (disk : Disk)
  | respond (t : Nat)
  | release (t : Nat)
  | panic (t : Nat)
  | write
  | exit

/-- The loop reads a line; a blank one is skipped. -/
def State.read (s : State) : Line → State
  | .blank => s
  | .notARequest =>
    { s with ids := s.ids ++ [none] }.goTo s.ids.length none (.respond (.error invalidRequest))
  | .request id method =>
    { s with ids := s.ids ++ [id] }.goTo s.ids.length id (.handle method)

/-- A step of a task that is at a stage. -/
def State.act (s : State) (t : Nat) (f : Task → Option State) : Option State :=
  (s.tasks t).bind f

def step (s : State) : Label → Option State
  | .read line =>
    match s.loop with
    | .waiting => some (s.read line)
    | _ => none
  | .eof =>
    match s.loop with
    | .waiting => some { s with loop := .stopped }
    | _ => none
  | .advance env =>
    match s.loop with
    | .handling line id stage => s.advance line id env stage
    | _ => none
  | .saveMessage t disk => s.act t fun task =>
    match task.stage with
    | .spawned => some (s.saveMessage t task disk)
    | _ => none
  | .draw t event => s.act t fun task =>
    match task.stage with
    | .running => some (s.draw t task event)
    | _ => none
  | .send i =>
    match s.drawn[i]? with
    | some e =>
      let line := Out.event e.line e.accepted (s.epoch e.conversation) e.conversation e.seq e.event
      some { s with drawn := s.drawn.eraseIdx i, queue := s.queue ++ [line] }
    | none => none
  | .finish t result => s.act t fun task =>
    match task.stage with
    | .running => if s.drawn.all (·.turn ≠ t) then some (s.finish t task result) else none
    | _ => none
  | .saveAnswer t disk => s.act t fun task =>
    match task.stage with
    | .succeeded result => some (s.saveAnswer t task result disk)
    | _ => none
  | .respond t => s.act t fun task =>
    match task.stage with
    | .answering result => some (s.sendResponse t task result)
    | _ => none
  | .release t => s.act t fun task =>
    match task.stage with
    | .answered result => some (s.release t task (some result))
    | _ => none
  | .panic t => s.act t fun task =>
    match task.stage with
    | .running => some (s.release t task none)
    | _ => none
  | .write =>
    match s.queue with
    | line :: rest => some { s with queue := rest, wire := s.wire ++ [line] }
    | [] => none
  | .exit =>
    match s.loop with
    | .stopped =>
      if s.allEnded && s.drawn.isEmpty && s.queue.isEmpty then some { s with exited := true }
      else none
    | _ => none

end Vanyline.Cli.Rpc
