import Mathlib.Logic.Function.Basic
import Vanyline.Lib.Gather
import Vanyline.Lib.Run
import Vanyline.Sandbox.Documents

/-!
# The language server multiplexer

A session shares one language server, the primary, between its clients.  Each
request gets a fresh session id, and `pending` remembers whose request it was and
the id to restore.  A composite session also has auxiliary servers, the children
1, 2, …, and some of them answer requests too.  A request with the route `all` is
copied to every one of these that is alive, and a barrier in `merges` gathers the
parts of the answer.  A `completionItem/resolve` goes to the child that the item
came from.

Each step is one atomic section of the code.  The call of `send` for one request is
a thread with a program counter (`Pc`), and so every copy of a request is sent in
four steps: note the child is alive, register the copy, try to send it, look again.
The readers take one frame at a time.  What a reader has taken out of
`pending_internal` and not dealt with yet is in `taken`, and a reply between the end
of its lock section and `send_to_client` is in `outgoing`; both may be dealt with in
any order, which allows more orders than the code has.

Values are opaque, and `Composite.mergeResultFor` stands for `merge_result_for`.
Which child a completion item came from is left to the environment, as is whether a
channel takes a message.  Notifications, and the session's own requests to a child,
never touch the tables of requests; the latter only use up an internal id.
-/

namespace Vanyline.Sandbox.Multiplexer

open Vanyline.Lib

variable {V : Type}

/-! ## Routing -/

/-- The known roles of an auxiliary server. -/
inductive Role
  | tsserverForward
  | diagnosticsMerge
  deriving DecidableEq

def Role.auxAnswersRequests : Role → Bool
  | .tsserverForward => true
  | .diagnosticsMerge => false

inductive MergeRoute
  | primary
  | all
  deriving DecidableEq

def mergeRouteForMethod : String → MergeRoute
  | "textDocument/hover" | "textDocument/definition" | "textDocument/typeDefinition"
  | "textDocument/implementation" | "textDocument/references" | "textDocument/codeAction"
  | "textDocument/prepareRename" | "textDocument/rename" | "textDocument/completion" => .all
  | "textDocument/semanticTokens/full" | "textDocument/semanticTokens/range"
  | "textDocument/semanticTokens/delta" | "workspace/semanticTokens/refresh" => .primary
  | _ => .primary

/-- The auxiliary servers of a session, and how it merges the parts of an answer. -/
structure Composite (V : Type) where
  roles : List Role
  mergeResultFor : String → List (Option V) → V

namespace Composite

variable (cfg : Composite V)

/-- The children that answer requests.  Child 0 is the primary. -/
def responders : List Nat :=
  ((cfg.roles.zipIdx 1).filter fun p => p.1.auxAnswersRequests).map Prod.snd

def hasRequestingAux : Bool := cfg.roles.any Role.auxAnswersRequests

/-- Is the request copied to the auxiliaries? -/
def barrier (method : Option String) : Bool :=
  !cfg.responders.isEmpty && method.any fun m => decide (mergeRouteForMethod m = .all)

/-- Does the request go to the child that its item came from? -/
def resolves (method : Option String) : Bool :=
  cfg.hasRequestingAux && decide (method = some "completionItem/resolve")

end Composite

/-! ## Frames and tables -/

/-- A frame with an integer id, without the id. -/
structure Frame (V : Type) where
  method : Option String
  result : Option V
  error : Option V
  deriving DecidableEq

def Frame.ofResult (v : V) : Frame V := ⟨none, some v, none⟩

def Frame.ofError (e : V) : Frame V := ⟨none, none, some e⟩

/-- A request of a server of its own. -/
def Frame.ofMethod (method : String) : Frame V := ⟨some method, none, none⟩

/-- What an auxiliary's answer contributes to a merge: nothing, if it is an error. -/
def Frame.part (f : Frame V) : Option V :=
  match f.error with
  | some _ => none
  | none => f.result

/-- A client's request with an id. -/
structure Request (V : Type) where
  client : ClientId
  origId : Int
  method : Option String
  params : V

/-- Where an answer goes.  `request` is for the observer. -/
structure Ticket where
  client : ClientId
  origId : Int
  request : Nat
  deriving DecidableEq

def Request.ticket (req : Request V) (r : Nat) : Ticket := ⟨req.client, req.origId, r⟩

/-- A frame for a client. -/
structure Reply (V : Type) where
  ticket : Ticket
  frame : Frame V
  deriving DecidableEq

/-- A barrier. -/
structure PendingMerge (V : Type) extends Gather Nat (Option V) where
  ticket : Ticket
  method : String

/-- The context of a copy that an auxiliary has got.  `request` is for the observer. -/
inductive InternalPending (V : Type)
  | clientMerge (sessionId : Nat) (request : Nat)
  | clientResolve (ticket : Ticket) (item : V)

/-- How far the reader of an auxiliary is. -/
inductive Reader
  | reading
  | atEof
  | purged
  deriving DecidableEq

/-- An auxiliary with its reader.  `received` are the copies that the server has got
and not answered, and `taken` what the reader has still to deal with, with the answer
if there was one. -/
structure AuxChild (V : Type) where
  alive : Bool
  nextInternalReq : Nat
  pendingInternal : Nat → Option (InternalPending V)
  received : Nat → Bool
  reader : Reader
  taken : Nat → Option (InternalPending V × Option (Frame V))

/-- What a copy is sent for.  A fan-out goes on with the other targets. -/
inductive Errand
  | resolve
  | fanOut (sessionId : Nat) (rest : List Nat)

/-- Where the thread that executes `send` is. -/
inductive Pc
  | routing
  | registering
  | counting (sessionId : Nat) (candidates targets : List Nat)
  | sending (sessionId : Nat) (targets : Option (List Nat))
  | checking (child : Nat) (errand : Errand)
  | copying (child : Nat) (errand : Errand)
  | trying (child id : Nat) (errand : Errand)
  | rechecking (child id : Nat) (errand : Errand)
  | takingBack (child id : Nat) (errand : Errand)
  | givingUp (child : Nat) (errand : Errand)
  | completing (sessionId : Nat)
  | returned
  | failed

/-- The copy has been sent, or the child was given up. -/
def Errand.next : Errand → Pc
  | .resolve => .returned
  | .fanOut sid [] => .completing sid
  | .fanOut sid (child :: rest) => .checking child (.fanOut sid rest)

/-- What the observer knows: the requests, the session ids they got, and the answers
of the servers to them (0 is the primary). -/
structure Ledger (V : Type) where
  nextRequest : Nat
  requests : Nat → Option (Request V)
  sessionIds : Nat → Option Nat
  responses : List (Nat × Nat × Frame V)

/-- A session.  `received` are the session ids that the primary has got and not
answered, with their requests.  `ledger` and `delivered` are for the observer. -/
structure LspSession (V : Type) where
  nextClient : ClientId
  subs : ClientId → Bool
  nextReq : Nat
  pending : Nat → Option Ticket
  merges : Nat → Option (PendingMerge V)
  alive : Bool
  received : Nat → Option Nat
  aux : Nat → AuxChild V
  senders : Nat → Pc
  outgoing : List (Reply V)
  delivered : List (Reply V)
  ledger : Ledger V

/-- `i64::cast_unsigned`. -/
def castUnsigned (id : Int) : Nat := (id % UInt64.size).toNat

/-! ## Sections of the code -/

namespace AuxChild

variable (a : AuxChild V)

/-- Insert a copy under the next internal id. -/
def register (e : InternalPending V) : AuxChild V :=
  { a with
    nextInternalReq := a.nextInternalReq + 1
    pendingInternal := Function.update a.pendingInternal a.nextInternalReq (some e) }

/-- The sender removes a copy that did not go out. -/
def takeBack (id : Nat) : AuxChild V :=
  { a with pendingInternal := Function.update a.pendingInternal id none }

/-- The reader removes a copy because of a frame. -/
def take (id : Nat) (e : InternalPending V) (frame : Frame V) : AuxChild V :=
  { a with
    pendingInternal := Function.update a.pendingInternal id none
    taken := Function.update a.taken id (some (e, some frame)) }

/-- The reader has dealt with a copy. -/
def drop (id : Nat) : AuxChild V := { a with taken := Function.update a.taken id none }

/-- The reader has seen the end, and empties `pending_internal`. -/
def purge : AuxChild V :=
  { a with
    reader := .purged
    pendingInternal := fun _ => none
    taken := fun id =>
      match a.pendingInternal id with
      | some e => some (e, none)
      | none => a.taken id }

end AuxChild

namespace LspSession

variable (cfg : Composite V) (s : LspSession V)

def setSender (r : Nat) (pc : Pc) : LspSession V :=
  { s with senders := Function.update s.senders r pc }

def setAux (child : Nat) (a : AuxChild V) : LspSession V :=
  { s with aux := Function.update s.aux child a }

def setMerge (sid : Nat) (m : Option (PendingMerge V)) : LspSession V :=
  { s with merges := Function.update s.merges sid m }

def removePending (sid : Nat) : LspSession V :=
  { s with pending := Function.update s.pending sid none }

/-- A reply leaves its lock section. -/
def post (reply : Reply V) : LspSession V := { s with outgoing := s.outgoing ++ [reply] }

/-- Clients that have gone get nothing. -/
def sendToClient (reply : Reply V) : LspSession V :=
  if s.subs reply.ticket.client then { s with delivered := s.delivered ++ [reply] } else s

/-- A server has answered a request. -/
def log (r child : Nat) (frame : Frame V) : LspSession V :=
  { s with ledger :=
    { s.ledger with responses := s.ledger.responses ++ [(r, child, frame)] } }

def completeMerge (m : PendingMerge V) : LspSession V :=
  s.post ⟨m.ticket, .ofResult (cfg.mergeResultFor m.method m.values)⟩

/-- Leave the barrier as it is now, or complete it. -/
def settleMerge (sid : Nat) (m : PendingMerge V) : LspSession V :=
  if m.full then (s.setMerge sid none).completeMerge cfg m else s.setMerge sid (some m)

def insertMergePart (child sid : Nat) (part : Option V) : LspSession V :=
  match s.merges sid with
  | none => s
  | some m => s.settleMerge cfg sid { m with toGather := m.add child part }

def tryCompleteMerge (sid : Nat) : LspSession V :=
  match s.merges sid with
  | none => s
  | some m => s.settleMerge cfg sid m

def abandonMergeExpectation (sid : Nat) : LspSession V :=
  match s.merges sid with
  | none => s
  | some m => s.setMerge sid (some { m with toGather := m.abandon })

/-- The reader of the primary gets a frame with this id: `record_primary_merge_part`
if there is a barrier, and else `pending`. -/
def readPrimary (sid : Nat) (frame : Frame V) : LspSession V :=
  match s.merges sid with
  | some m =>
    match frame.error with
    | some e => ((s.removePending sid).setMerge sid none).post ⟨m.ticket, .ofError e⟩
    | none => (s.removePending sid).insertMergePart cfg 0 sid frame.result
  | none =>
    match s.pending sid with
    | some ticket => (s.removePending sid).sendToClient ⟨ticket, frame⟩
    | none => s

/-- The reader of an auxiliary deals with what it has taken.  A part of a merge, or
the result of the owner of an item; without one the item goes back as it is. -/
def deal (child : Nat) (e : InternalPending V) (answer : Option (Frame V)) : LspSession V :=
  match e with
  | .clientMerge sid _ => s.insertMergePart cfg child sid (answer.bind Frame.part)
  | .clientResolve ticket item =>
    s.sendToClient ⟨ticket, .ofResult ((answer.bind Frame.result).getD item)⟩

end LspSession

/-- The entry under which a copy is registered. -/
def Errand.entry (errand : Errand) (req : Request V) (r : Nat) : InternalPending V :=
  match errand with
  | .resolve => .clientResolve (req.ticket r) req.params
  | .fanOut sid _ => .clientMerge sid r

/-! ## Steps -/

inductive Action (V : Type)
  | subscribe
  | unsubscribe (client : ClientId)
  | purgePending (client : ClientId)
  | purgeMerges (client : ClientId)
  | purgeInternal (client : ClientId) (child : Nat)
  | request (request : Request V)
  | route (r : Nat) (owner : Option Nat)
  | advance (r : Nat) (ok : Bool)
  | write (n : Nat)
  | primaryAnswer (sid : Nat) (result error : Option V)
  | primaryRequest (id : Int) (method : String)
  | primaryEof
  | killAux (child : Nat)
  | auxAnswer (child id : Nat) (result error : Option V)
  | auxRequest (child : Nat) (id : Int) (method : String)
  | deal (child id : Nat)
  | auxEof (child : Nat)
  | purgeAux (child : Nat)
  | ownRequest (child : Nat)

namespace LspSession

variable (cfg : Composite V) (s : LspSession V) (r : Nat) (req : Request V)

/-- `completionItem/resolve` goes to the owner of the item, and everything else takes
the way through the primary. -/
def route (owner : Option Nat) : LspSession V :=
  if cfg.resolves req.method then
    match owner with
    | some 0 => s.setSender r .registering
    | some (i + 1) =>
      if i < cfg.roles.length then s.setSender r (.checking (i + 1) .resolve)
      else (s.setSender r .returned).post ⟨req.ticket r, .ofResult req.params⟩
    | none => (s.setSender r .returned).post ⟨req.ticket r, .ofResult req.params⟩
  else s.setSender r .registering

/-- Draw a session id and remember the client under it. -/
def register : LspSession V :=
  let sid := s.nextReq
  let pc := if cfg.barrier req.method then .counting sid cfg.responders [] else .sending sid none
  { s.setSender r pc with
    nextReq := sid + 1
    pending := Function.update s.pending sid (some (req.ticket r))
    ledger := { s.ledger with
      sessionIds := Function.update s.ledger.sessionIds r (some sid) } }

/-- Insert the barrier. -/
def insertMerge (sid : Nat) (targets : List Nat) : LspSession V :=
  (s.setSender r (.sending sid (some targets))).setMerge sid
    (some ⟨.start (targets.length + 1), req.ticket r, req.method.getD ""⟩)

/-- The next step of the thread.  `ok` says whether a channel takes the message. -/
def advance (ok : Bool) : Option (LspSession V) :=
  match s.senders r with
  | .registering => some (s.register cfg r req)
  | .counting sid (i :: candidates) targets =>
    some (s.setSender r
      (.counting sid candidates (if (s.aux i).alive then targets ++ [i] else targets)))
  | .counting sid [] targets => some (s.insertMerge r req sid targets)
  | .sending sid targets =>
    match ok, targets with
    | true, some targets =>
      some { s.setSender r (Errand.fanOut sid targets).next with
        received := Function.update s.received sid (some r) }
    | true, none =>
      some { s.setSender r .returned with received := Function.update s.received sid (some r) }
    | false, some _ => some ((s.setSender r .failed).setMerge sid none)
    | false, none => some (s.setSender r .failed)
  | .checking child errand =>
    some (s.setSender r (if (s.aux child).alive then .copying child errand
      else .givingUp child errand))
  | .copying child errand =>
    some ((s.setSender r (.trying child (s.aux child).nextInternalReq errand)).setAux child
      ((s.aux child).register (errand.entry req r)))
  | .trying child id errand =>
    if ok then
      some ((s.setSender r (.rechecking child id errand)).setAux child
        { s.aux child with received := Function.update (s.aux child).received id true })
    else some (s.setSender r (.takingBack child id errand))
  | .rechecking child id errand =>
    some (s.setSender r (if (s.aux child).alive then errand.next
      else .takingBack child id errand))
  | .takingBack child id errand =>
    some ((s.setSender r (.givingUp child errand)).setAux child ((s.aux child).takeBack id))
  | .givingUp _ .resolve =>
    some ((s.setSender r .returned).post ⟨req.ticket r, .ofResult req.params⟩)
  | .givingUp _ (.fanOut sid rest) =>
    some ((s.setSender r (Errand.fanOut sid rest).next).abandonMergeExpectation sid)
  | .completing sid => some ((s.setSender r .returned).tryCompleteMerge cfg sid)
  | .routing | .returned | .failed => none

end LspSession

def step (cfg : Composite V) (s : LspSession V) : Action V → Option (LspSession V)
  | .subscribe =>
    some { s with nextClient := s.nextClient + 1, subs := Function.update s.subs s.nextClient true }
  | .unsubscribe c => some { s with subs := Function.update s.subs c false }
  | .purgePending c =>
    if s.subs c then none
    else some { s with pending := fun sid => (s.pending sid).filter fun t => t.client ≠ c }
  | .purgeMerges c =>
    if s.subs c then none
    else some { s with merges := fun sid => (s.merges sid).filter fun m => m.ticket.client ≠ c }
  | .purgeInternal c child =>
    if s.subs c then none
    else some (s.setAux child { s.aux child with
      pendingInternal := fun id => ((s.aux child).pendingInternal id).filter fun
        | .clientMerge _ _ => true
        | .clientResolve ticket _ => ticket.client ≠ c })
  | .request req =>
    if req.client < s.nextClient then
      some { s.setSender s.ledger.nextRequest .routing with
        ledger := { s.ledger with
          nextRequest := s.ledger.nextRequest + 1
          requests := Function.update s.ledger.requests s.ledger.nextRequest (some req) } }
    else none
  | .route r owner =>
    match s.ledger.requests r, s.senders r with
    | some req, .routing => some (s.route cfg r req owner)
    | _, _ => none
  | .advance r ok => (s.ledger.requests r).bind fun req => s.advance cfg r req ok
  | .write n =>
    (s.outgoing[n]?).map fun reply =>
      { s with outgoing := s.outgoing.eraseIdx n }.sendToClient reply
  | .primaryAnswer sid result error =>
    if s.alive then
      (s.received sid).map fun r =>
        { s.log r 0 ⟨none, result, error⟩ with
          received := Function.update s.received sid none }.readPrimary cfg sid ⟨none, result, error⟩
    else none
  | .primaryRequest id method =>
    if s.alive then some (s.readPrimary cfg (castUnsigned id) (.ofMethod method)) else none
  | .primaryEof =>
    if s.alive then some { s with alive := false, subs := fun _ => false } else none
  | .killAux child =>
    if s.alive then none else some (s.setAux child { s.aux child with alive := false })
  | .auxAnswer child id result error =>
    if (s.aux child).reader = .reading ∧ (s.aux child).received id then
      let a := { s.aux child with received := Function.update (s.aux child).received id false }
      match a.pendingInternal id with
      | some e =>
        let s' := s.setAux child (a.take id e ⟨none, result, error⟩)
        match e with
        | .clientMerge _ r => some (s'.log r child ⟨none, result, error⟩)
        | .clientResolve ticket _ => some (s'.log ticket.request child ⟨none, result, error⟩)
      | none => some (s.setAux child a)
    else none
  | .auxRequest child id method =>
    if (s.aux child).reader = .reading then
      match (s.aux child).pendingInternal (castUnsigned id) with
      | some e => some (s.setAux child ((s.aux child).take (castUnsigned id) e (.ofMethod method)))
      | none => some s
    else none
  | .deal child id =>
    ((s.aux child).taken id).map fun p =>
      (s.setAux child ((s.aux child).drop id)).deal cfg child p.1 p.2
  | .auxEof child =>
    if (s.aux child).reader = .reading then
      some (s.setAux child { s.aux child with alive := false, reader := .atEof })
    else none
  | .purgeAux child =>
    if (s.aux child).reader = .atEof then some (s.setAux child (s.aux child).purge) else none
  | .ownRequest child =>
    some (s.setAux child
      { s.aux child with nextInternalReq := (s.aux child).nextInternalReq + 1 })

/-- A new session.  All counters start at 1. -/
def LspSession.init : LspSession V where
  nextClient := 1
  subs _ := false
  nextReq := 1
  pending _ := none
  merges _ := none
  alive := true
  received _ := none
  aux _ := ⟨true, 1, fun _ => none, fun _ => false, .reading, fun _ => none⟩
  senders _ := .returned
  outgoing := []
  delivered := []
  ledger := ⟨0, fun _ => none, fun _ => none, []⟩

end Vanyline.Sandbox.Multiplexer
