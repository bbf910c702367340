import Mathlib.Logic.Function.Basic
import Vanyline.Lib.JsonValue
import Vanyline.Lib.Promises
import Vanyline.Lib.Run

/-!
# Requests over the socket of the file system

`SandboxFsClient` sends one request after the other.  A request waits in a queue of
promises until the one before it is settled.  A frame with an id is for the request in
flight if that has the same id; a frame with an event and no id goes to the subscribers; any
other frame is the answer of an older server to the request in flight.

A server puts the id that it finds in a request into the answer.  The model notes to which
request a frame is the answer (`answering`) when that is not settled yet.

`Settled` says that the promises are settled by their own answers and by nothing else, but
for a failed `send`, that no frame makes `onMessage` throw, and that no promise is left when
the socket is closed.  It fails for a push event with an id, for parameters with an id, for
events and errors with the names of inherited fields, and when the socket is closed.
`settled_of_run` holds without these (`Tame`).
-/

namespace Vanyline.Frontend.FsClient

open Vanyline.Lib

/-! ## Requests and frames -/

structure Request where
  id : Nat
  op : List Char
  params : List (List Char × Json)

def Request.field (r : Request) (key : String) (own : Json) : Json :=
  (r.params.lookup key.toList).getD own

/-- `{ op, id, ...params }`. -/
def Request.envelope (r : Request) : Json :=
  .obj (("op".toList, r.field "op" (.str r.op)) :: ("id".toList, r.field "id" (.num r.id)) ::
    r.params.filter fun field => field.1 ≠ "op".toList ∧ field.1 ≠ "id".toList)

/-- What a promise becomes: the result that an answer says, or the error of `send`. -/
inductive Outcome
  | answered (result : Except (List Char) Json)
  | failed

/-- The result that the frame says; the text of its error may not exist. -/
def resultOf (frame : Json) : Option (Except (List Char) Json) :=
  if (frame.get "ok").any Json.truthy then some (.ok frame)
  else (Json.textOf (frame.get "error")).map .error

/-- The type of a push event. -/
def eventOf (frame : Json) : Option (List Char) :=
  match frame.get "event" with
  | some (.str event) => some event
  | _ => none

/-- The fields that every object inherits, so that `handlers` has them too. -/
def inherited : List String :=
  ["constructor", "__defineGetter__", "__defineSetter__", "hasOwnProperty", "__lookupGetter__",
    "__lookupSetter__", "isPrototypeOf", "propertyIsEnumerable", "toString", "valueOf", "__proto__",
    "toLocaleString"]

def isInherited (event : List Char) : Bool := inherited.any fun name => name.toList == event

/-! ## The client -/

/-- The client, the handlers that are still to be called for an event, and the socket.  The
model notes the requests that were sent, the promises that are settled, the answers that
came for unsettled ones, and whether `onMessage` has thrown. -/
structure State where
  nextId : Nat
  waiting : List Request
  current : Option Nat
  pending : Option Nat
  handlers : List Char → List Nat
  calling : List Nat
  isClosed : Bool
  sent : List Request
  promises : Promises (Except (List Char) Json) Outcome
  threw : Bool

def State.init : State where
  nextId := 1
  waiting := []
  current := none
  pending := none
  handlers := fun _ => []
  calling := []
  isClosed := false
  sent := []
  promises := .none
  threw := false

namespace State

def settlePromise (s : State) (id : Nat) (outcome : Outcome) : State :=
  { s with promises := s.promises.settle id outcome }

/-- The request that was sent and waits for its answer. -/
def inFlight (s : State) : Option Nat :=
  s.current.filter fun id => !s.promises.isSettled id && s.sent.any fun r => r.id == id

/-- The request to which the frame is the answer: the one that was sent with its id, and
without an id the one in flight. -/
def answering (s : State) (frame : Json) : Option Nat :=
  if frame.isObject && (eventOf frame).isNone then
    match frame.get "id" with
    | some id =>
      (s.sent.find? fun r => (r.envelope.get "id").any fun sent => sent.same id).map (·.id)
    | none => s.inFlight
  else none

/-- The model notes an answer to a promise that is not settled. -/
def note (s : State) (frame : Json) : State :=
  match s.answering frame, resultOf frame with
  | some id, some result => { s with promises := s.promises.note id result }
  | _, _ => s

/-- `settle`. -/
def settle (s : State) (frame : Json) : State :=
  match s.pending with
  | none => s
  | some id =>
    match resultOf frame with
    | some result => { s with pending := none }.settlePromise id (.answered result)
    | none => { s with pending := none, threw := true }

/-- `onMessage`, with what `JSON.parse` gives. -/
def onMessage (s : State) : Option Json → State
  | none => s
  | some frame =>
    if frame.isObject then
      match frame.get "id" with
      | some id => if s.pending.any fun n => (Json.num n).same id then s.settle frame else s
      | none =>
        match eventOf frame with
        | some event =>
          if isInherited event then { s with threw := true }
          else { s with calling := s.handlers event }
        | none => if s.pending.isSome then s.settle frame else s
    else s

/-- The queue goes on when the last request that it has started is settled. -/
def isIdle (s : State) : Bool := s.current.all s.promises.isSettled

/-- `run`; a closed socket takes the request and does not send it. -/
def run (s : State) (r : Request) (rest : List Request) (fails : Bool) : State :=
  let s := { s with waiting := rest, current := some r.id, pending := some r.id }
  if fails then s.settlePromise r.id .failed
  else if s.isClosed then s
  else { s with sent := s.sent ++ [r] }

end State

/-! ## Steps -/

/-- A request is made, the queue runs the next one, whose `send` may fail, a frame comes, its
next subscriber is called and may throw, or the socket is closed. -/
inductive Label
  | request (op : List Char) (params : List (List Char × Json))
  | run (fails : Bool)
  | receive (parsed : Option Json)
  | call (throws : Bool)
  | onEvent (event : List Char) (handler : Nat)
  | unsubscribe (event : List Char) (handler : Nat)
  | close

def step (s : State) : Label → Option State
  | .request op params =>
    some { s with nextId := s.nextId + 1, waiting := s.waiting ++ [⟨s.nextId, op, params⟩] }
  | .run fails =>
    match s.waiting with
    | r :: rest => if s.calling.isEmpty && s.isIdle then some (s.run r rest fails) else none
    | [] => none
  | .receive parsed =>
    if s.calling.isEmpty && !s.isClosed then
      some ((parsed.elim s s.note).onMessage parsed)
    else none
  | .call _ =>
    match s.calling with
    | _ :: rest => some { s with calling := rest }
    | [] => none
  | .onEvent event handler =>
    if isInherited event then some s
    else some { s with
      handlers := Function.update s.handlers event (s.handlers event ++ [handler]) }
  | .unsubscribe event handler =>
    some { s with handlers := Function.update s.handlers event ((s.handlers event).erase handler) }
  | .close => if s.calling.isEmpty && !s.isClosed then some { s with isClosed := true } else none

/-! ## The property -/

structure Settled (s : State) : Prop where
  promises : s.promises.Kept .answered
  nothingThrown : s.threw = false
  closed : s.isClosed = true → ∀ id, 1 ≤ id → id < s.nextId → s.promises.isSettled id = true

/-! ## The condition -/

/-- The frame is taken for the answer to the pending request. -/
def State.takes (s : State) (frame : Json) : Bool :=
  match frame.get "id" with
  | some id => s.pending.any fun n => (Json.num n).same id
  | none => (eventOf frame).isNone && s.pending.isSome

/-- What is taken for the answer is no push event and has an error with a text, and an event
without an id is not named like an inherited field. -/
def State.good (s : State) (frame : Json) : Bool :=
  if s.takes frame then (eventOf frame).isNone && (resultOf frame).isSome
  else (frame.get "id").isSome || !(eventOf frame).any isInherited

/-- The parameters of a request have no other id, what comes is `good`, and the socket is
closed when no request waits or is in flight, and none comes later. -/
def Tame (s : State) : Label → Prop
  | .request _ params =>
    s.isClosed = false ∧ ((params.lookup "id".toList).getD (.num s.nextId)).same (.num s.nextId)
  | .receive (some frame) => frame.isObject = true → s.good frame = true
  | .close => s.waiting = [] ∧ s.isIdle = true
  | _ => True

/-! ## The invariant -/

variable {s t : State} {l : Label} {id : Nat} {frame : Json}

/-- Where the requests are: each waits, is the current one, or is settled. -/
structure Queued (s : State) : Prop where
  known : ∀ id, 1 ≤ id → id < s.nextId →
    s.promises.isSettled id = true ∨ (∃ r ∈ s.waiting, r.id = id) ∨ s.current = some id
  settledOld : ∀ id, s.promises.isSettled id = true → id < s.nextId
  currentOld : ∀ id, s.current = some id → id < s.nextId
  sentOld : ∀ r ∈ s.sent, r.id < s.nextId
  waitingOld : ∀ r ∈ s.waiting, r.id < s.nextId
  waitingNew : ∀ r ∈ s.waiting, s.promises.isSettled r.id = false ∧ s.current ≠ some r.id ∧
    ∀ q ∈ s.sent, q.id ≠ r.id
  distinct : (s.waiting.map Request.id).Nodup
  ownId : ∀ r ∈ s.waiting ++ s.sent, r.envelope.get "id" = some (.num r.id)
  closed : s.isClosed = true → s.waiting = []

/-- The current request, as long as it is not settled, is pending and was sent. -/
structure Current (s : State) : Prop where
  pending : ∀ id, s.pending = some id → s.current = some id
  sent : ∀ r ∈ s.sent, s.promises.isSettled r.id = true ∨ s.current = some r.id
  open_ : ∀ id, s.current = some id → s.promises.isSettled id = false →
    s.pending = some id ∧ ∃ r ∈ s.sent, r.id = id

structure Inv (s : State) : Prop where
  queued : Queued s
  current : Current s
  settled : Settled s

theorem get_envelope_id (r : Request) : r.envelope.get "id" = some (r.field "id" (.num r.id)) := by
  have hne : ("id".toList == "op".toList) = false := by decide
  simp only [Request.envelope, Json.get]
  rw [List.lookup_cons, hne, List.lookup_cons, beq_self_eq_true]

theorem inv_init : Inv .init where
  queued := by
    constructor <;> simp [State.init, Promises.isSettled, Promises.none]
    omega
  current := by constructor <;> simp [State.init]
  settled := ⟨Promises.kept_none, rfl, by simp [State.init]⟩

/-! ## Answers -/

theorem inFlight_eq_some : s.inFlight = some id ↔
    s.current = some id ∧ s.promises.isSettled id = false ∧ ∃ r ∈ s.sent, r.id = id := by
  simp [State.inFlight, Option.filter_eq_some_iff]

/-- A request that was sent and is not settled is the pending one. -/
theorem Inv.pending_of_sent (hs : Inv s) {r : Request} (hr : r ∈ s.sent)
    (hopen : s.promises.isSettled r.id = false) : s.pending = some r.id := by
  have hcurrent : s.current = some r.id := by
    rcases hs.current.sent r hr with h | h
    · rw [hopen] at h
      cases h
    · exact h
  exact (hs.current.open_ r.id hcurrent hopen).1

/-- The frame that answers an open request is taken for the answer to it. -/
theorem Inv.takes_of_answering (hs : Inv s) (h : s.answering frame = some id)
    (hopen : s.promises.isSettled id = false) : s.takes frame = true ∧ s.pending = some id := by
  unfold State.answering at h
  split_ifs at h with hframe
  rw [Bool.and_eq_true] at hframe
  unfold State.takes
  split at h
  · next sentId hid =>
    obtain ⟨r, hfind, hr⟩ := Option.map_eq_some_iff.1 h
    have hmem := List.mem_of_find?_eq_some hfind
    have hsame := List.find?_some hfind
    rw [hs.queued.ownId r (List.mem_append_right _ hmem), Option.any_some] at hsame
    rw [← hr] at hopen ⊢
    have hpending := hs.pending_of_sent hmem hopen
    refine ⟨?_, hpending⟩
    rw [hpending]
    exact hsame
  · obtain ⟨hcurrent, -, r, hr, hid⟩ := inFlight_eq_some.1 h
    rw [← hid] at hopen ⊢
    have hpending := hs.pending_of_sent hr hopen
    refine ⟨?_, hpending⟩
    rw [hpending, hframe.2]
    rfl

/-- A frame that is taken and is no push event answers the pending request, if that is open. -/
theorem Inv.answering_of_takes (hs : Inv s) (hobject : frame.isObject = true)
    (htakes : s.takes frame = true) (hevent : (eventOf frame).isNone = true)
    (hpending : s.pending = some id) (hopen : s.promises.isSettled id = false) :
    s.answering frame = some id := by
  have hcurrent := hs.current.pending id hpending
  obtain ⟨-, r, hr, hid⟩ := hs.current.open_ id hcurrent hopen
  unfold State.answering
  rw [hobject, hevent, Bool.and_self, if_pos rfl]
  unfold State.takes at htakes
  cases hget : frame.get "id" with
  | none => exact inFlight_eq_some.2 ⟨hcurrent, hopen, r, hr, hid⟩
  | some sentId =>
      rw [hget, hpending] at htakes
      have hsent : sentId = .num id := Json.same_num_left htakes
      show (s.sent.find? fun r => (r.envelope.get "id").any fun sent => sent.same sentId).map _ = _
      have hown : ∀ q ∈ s.sent, ((q.envelope.get "id").any fun sent => sent.same sentId) = true ↔
          q.id = id := by
        intro q hq
        rw [hs.queued.ownId q (List.mem_append_right _ hq), Option.any_some, hsent]
        exact Json.same_num
      have hsome : (s.sent.find? fun r =>
          (r.envelope.get "id").any fun sent => sent.same sentId).isSome := by
        rw [List.find?_isSome]
        exact ⟨r, hr, (hown r hr).2 hid⟩
      obtain ⟨q, hq⟩ := Option.isSome_iff_exists.1 hsome
      have hsame := List.find?_some hq
      rw [hq, Option.map_some, (hown q (List.mem_of_find?_eq_some hq)).1 hsame]

/-! ## Frames -/

theorem takes_note : (s.note frame).takes frame = s.takes frame := by
  unfold State.note
  split <;> rfl

theorem onMessage_takes (hobject : frame.isObject = true) (htakes : s.takes frame = true)
    (hevent : (eventOf frame).isNone = true) : s.onMessage (some frame) = s.settle frame := by
  rw [Option.isNone_iff_eq_none] at hevent
  unfold State.takes at htakes
  simp only [State.onMessage, hobject, if_pos, hevent]
  split
  · next id hid =>
    rw [hid] at htakes
    exact if_pos htakes
  · next hid =>
    rw [hid, hevent] at htakes
    exact if_pos htakes

theorem onMessage_other (hobject : frame.isObject = true) (htakes : s.takes frame = false)
    (hgood : (frame.get "id").isSome = true ∨ (eventOf frame).any isInherited = false) :
    ∃ calling, s.onMessage (some frame) = { s with calling } := by
  unfold State.takes at htakes
  simp only [State.onMessage, hobject, if_pos]
  split
  · next id hid =>
    rw [hid] at htakes
    exact ⟨s.calling, if_neg (by rw [Bool.not_eq_true]; exact htakes)⟩
  · next hid =>
    rw [hid] at htakes hgood
    split
    · next event hevent =>
      have hown : isInherited event = false := by simpa [hevent] using hgood
      exact ⟨s.handlers event, if_neg (by simp [hown])⟩
    · next hevent =>
      rw [hevent] at htakes
      have hnone : s.pending.isSome = false := htakes
      exact ⟨s.calling, if_neg (by simp [hnone])⟩

/-- An answer that is not taken is none to an open request. -/
theorem Inv.note_other (hs : Inv s) (htakes : s.takes frame = false) : s.note frame = s := by
  unfold State.note
  split
  · next id result hid hresult =>
    rw [Promises.note_of_isSettled]
    by_contra hopen
    rw [Bool.not_eq_true] at hopen
    rw [(hs.takes_of_answering hid hopen).1] at htakes
    cases htakes
  · rfl

/-! ## Promises -/

/-- The promise of the current request is settled. -/
theorem Inv.settleCurrent (hs : Inv s) (hcurrent : s.current = some id) (pending : Option Nat)
    (promises : Promises (Except (List Char) Json) Outcome)
    (hpending : ∀ n, pending = some n → n = id)
    (hsettled : ∀ n, promises.isSettled n = true ↔ s.promises.isSettled n = true ∨ n = id)
    (hkept : promises.Kept .answered) : Inv { s with pending, promises } where
  queued :=
    { hs.queued with
      known := by
        intro n hpos hold
        exact (hs.queued.known n hpos hold).imp_left fun h => (hsettled n).2 (.inl h)
      settledOld := by
        intro n hn
        rcases (hsettled n).1 hn with hn | rfl
        · exact hs.queued.settledOld n hn
        · exact hs.queued.currentOld n hcurrent
      waitingNew := by
        intro r hr
        obtain ⟨hnew, hother, hsent⟩ := hs.queued.waitingNew r hr
        refine ⟨?_, hother, hsent⟩
        rw [Bool.eq_false_iff, ne_eq]
        intro h
        rcases (hsettled r.id).1 h with h | h
        · rw [hnew] at h
          cases h
        · exact hother (by rw [hcurrent, h]) }
  current :=
    { pending := by
        intro n hn
        rw [hpending n hn]
        exact hcurrent
      sent := by
        intro r hr
        exact (hs.current.sent r hr).imp_left fun h => (hsettled r.id).2 (.inl h)
      open_ := by
        intro n hn hopen
        have heq : n = id := Option.some.inj (hn.symm.trans hcurrent)
        have hdone : promises.isSettled n = true := (hsettled n).2 (.inr heq)
        have hopen' : promises.isSettled n = false := hopen
        rw [hdone] at hopen'
        cases hopen' }
  settled :=
    { promises := hkept
      nothingThrown := hs.settled.nothingThrown
      closed := by
        intro hclosed n hpos hold
        exact (hsettled n).2 (.inl (hs.settled.closed hclosed n hpos hold)) }

/-- The request that was settled without an answer is not pending any more. -/
theorem Inv.clearPending (hs : Inv s) (hpending : s.pending = some id)
    (hsettled : s.promises.isSettled id = true) : Inv { s with pending := none } where
  queued := { hs.queued with }
  current :=
    { pending := nofun
      sent := hs.current.sent
      open_ := by
        intro n hn hopen
        have heq : id = n := Option.some.inj ((hs.current.pending id hpending).symm.trans hn)
        have hopen' : s.promises.isSettled n = false := hopen
        rw [← heq, hsettled] at hopen'
        cases hopen' }
  settled := { hs.settled with }

theorem Inv.setCalling (hs : Inv s) (calling : List Nat) : Inv { s with calling } where
  queued := { hs.queued with }
  current := { hs.current with }
  settled := { hs.settled with }

theorem Inv.setHandlers (hs : Inv s) (handlers : List Char → List Nat) :
    Inv { s with handlers } where
  queued := { hs.queued with }
  current := { hs.current with }
  settled := { hs.settled with }

/-! ## Steps -/

theorem takes_pending (h : s.takes frame = true) : ∃ id, s.pending = some id := by
  unfold State.takes at h
  split at h
  · obtain ⟨id, hid, -⟩ := Option.any_eq_true _ _ |>.1 h
    exact ⟨id, hid⟩
  · rw [Bool.and_eq_true] at h
    exact Option.isSome_iff_exists.1 h.2

/-- An answer to a promise that is settled is not noted. -/
theorem Inv.note_settled (hs : Inv s) (hpending : s.pending = some id)
    (hsettled : s.promises.isSettled id = true) : s.note frame = s := by
  unfold State.note
  split
  · next other result hother _ =>
    rw [Promises.note_of_isSettled]
    by_contra hopen
    rw [Bool.not_eq_true] at hopen
    have heq := (hs.takes_of_answering hother hopen).2
    rw [hpending, Option.some.injEq] at heq
    rw [← heq, hsettled] at hopen
    cases hopen
  · rfl

theorem inv_receive (hs : Inv s) (hobject : frame.isObject = true) (hgood : s.good frame = true) :
    Inv ((s.note frame).onMessage (some frame)) := by
  unfold State.good at hgood
  cases htakes : s.takes frame with
  | false =>
      rw [htakes] at hgood
      have hgood' : (frame.get "id").isSome = true ∨ (eventOf frame).any isInherited = false := by
        simpa using hgood
      rw [hs.note_other htakes]
      obtain ⟨calling, hmessage⟩ := onMessage_other hobject htakes hgood'
      rw [hmessage]
      exact hs.setCalling calling
  | true =>
      rw [htakes, if_pos rfl, Bool.and_eq_true] at hgood
      obtain ⟨hevent, hresult⟩ := hgood
      obtain ⟨result, hresult⟩ := Option.isSome_iff_exists.1 hresult
      obtain ⟨id, hpending⟩ := takes_pending htakes
      rw [onMessage_takes hobject (by rw [takes_note, htakes]) hevent]
      cases hsettled : s.promises.isSettled id with
      | true =>
          rw [hs.note_settled hpending hsettled]
          have hclear : s.settle frame = { s with pending := none } := by
            simp only [State.settle, hpending, hresult, State.settlePromise,
              Promises.settle_of_isSettled hsettled]
          rw [hclear]
          exact hs.clearPending hpending hsettled
      | false =>
          have hsettle : (s.note frame).settle frame =
              { s with
                pending := none
                promises := (s.promises.note id result).settle id (.answered result) } := by
            unfold State.note
            rw [hs.answering_of_takes hobject htakes hevent hpending hsettled, hresult]
            simp only [State.settle, hpending, hresult, State.settlePromise]
          rw [hsettle]
          refine hs.settleCurrent (hs.current.pending id hpending) none _ nofun ?_
            (hs.settled.promises.answer (fun _ _ => Outcome.answered.inj) id result)
          intro n
          rw [Promises.isSettled_settle, Promises.isSettled_note]

/-- A frame that is no object does nothing. -/
theorem note_onMessage_of_not (h : frame.isObject = false) :
    (s.note frame).onMessage (some frame) = s := by
  have hnote : s.note frame = s := by
    simp only [State.note, State.answering, h, Bool.false_and, Bool.false_eq_true, if_false]
  rw [hnote]
  simp only [State.onMessage, h, Bool.false_eq_true, if_false]

/-- With an open socket, what holds of a closed one need not hold. -/
theorem not_isClosed (hopen : s.isClosed = false) : ¬ s.isClosed = true := by
  rw [hopen]
  exact Bool.false_ne_true

/-- When the queue goes on, the promise of the current request is settled. -/
theorem isSettled_of_isIdle (hidle : s.isIdle = true) (hcurrent : s.current = some id) :
    s.promises.isSettled id = true := by
  rw [State.isIdle, hcurrent, Option.all_some] at hidle
  exact hidle

/-- A request gets the next id. -/
theorem Inv.enqueue (hs : Inv s) (hopen : s.isClosed = false) (op : List Char)
    {params : List (List Char × Json)}
    (hid : ((params.lookup "id".toList).getD (.num s.nextId)).same (.num s.nextId)) :
    Inv { s with
      nextId := s.nextId + 1
      waiting := s.waiting ++ [⟨s.nextId, op, params⟩] } where
  queued :=
    { known := by
        intro n hpos hold
        by_cases hn : n = s.nextId
        · exact .inr (.inl ⟨_, List.mem_append_right _ (List.mem_singleton_self _), hn.symm⟩)
        · have hold' : n < s.nextId + 1 := hold
          rcases hs.queued.known n hpos (by omega) with h | ⟨r, hr, hrid⟩ | h
          · exact .inl h
          · exact .inr (.inl ⟨r, List.mem_append_left _ hr, hrid⟩)
          · exact .inr (.inr h)
      settledOld := fun n hn => Nat.lt_succ_of_lt (hs.queued.settledOld n hn)
      currentOld := fun n hn => Nat.lt_succ_of_lt (hs.queued.currentOld n hn)
      sentOld := fun r hr => Nat.lt_succ_of_lt (hs.queued.sentOld r hr)
      waitingOld := by
        intro r hr
        rcases List.mem_append.1 hr with hr | hr
        · exact Nat.lt_succ_of_lt (hs.queued.waitingOld r hr)
        · rw [List.mem_singleton.1 hr]
          exact Nat.lt_succ_self _
      waitingNew := by
        intro r hr
        rcases List.mem_append.1 hr with hr | hr
        · exact hs.queued.waitingNew r hr
        · rw [List.mem_singleton.1 hr]
          refine ⟨?_, ?_, ?_⟩
          · rw [Bool.eq_false_iff]
            intro h
            exact absurd (hs.queued.settledOld _ h) (Nat.lt_irrefl _)
          · intro h
            exact absurd (hs.queued.currentOld _ h) (Nat.lt_irrefl _)
          · intro q hq h
            have hlt := hs.queued.sentOld q hq
            have heq : q.id = s.nextId := h
            omega
      distinct := by
        show ((s.waiting ++ [(⟨s.nextId, op, params⟩ : Request)]).map Request.id).Nodup
        rw [List.map_append]
        refine List.Nodup.append hs.queued.distinct (List.nodup_singleton _) ?_
        intro n hn hn'
        obtain ⟨r, hr, hrid⟩ := List.mem_map.1 hn
        have hlt := hs.queued.waitingOld r hr
        have heq : n = s.nextId := List.mem_singleton.1 hn'
        omega
      ownId := by
        intro r hr
        rcases List.mem_append.1 hr with hr | hr
        · rcases List.mem_append.1 hr with hr | hr
          · exact hs.queued.ownId r (List.mem_append_left _ hr)
          · rw [List.mem_singleton.1 hr]
            rw [get_envelope_id]
            exact congrArg some (Json.same_num_right hid)
        · exact hs.queued.ownId r (List.mem_append_right _ hr)
      closed := fun hclosed => absurd hclosed (not_isClosed hopen) }
  current := { hs.current with }
  settled :=
    { hs.settled with
      closed := fun hclosed => absurd hclosed (not_isClosed hopen) }

/-- The next request is the current one; its `send` is still to come. -/
theorem Inv.take (hs : Inv s) {r : Request} {rest : List Request} (hwaiting : s.waiting = r :: rest)
    (hidle : s.isIdle = true) (hopen : s.isClosed = false) :
    Inv { s with
      waiting := rest
      current := some r.id
      pending := some r.id
      sent := s.sent ++ [r] } := by
  have hnew := hs.queued.waitingNew r (hwaiting ▸ List.mem_cons_self)
  have hdistinct := hs.queued.distinct
  rw [hwaiting, List.map_cons, List.nodup_cons] at hdistinct
  have hin : ∀ q ∈ rest, q ∈ s.waiting := fun q hq => hwaiting ▸ List.mem_cons_of_mem r hq
  refine ⟨?_, ?_, ?_⟩
  · refine
      { known := ?_
        settledOld := hs.queued.settledOld
        currentOld := ?_
        sentOld := ?_
        waitingOld := fun q hq => hs.queued.waitingOld q (hin q hq)
        waitingNew := ?_
        distinct := hdistinct.2
        ownId := ?_
        closed := ?_ }
    · intro n hpos hold
      rcases hs.queued.known n hpos hold with h | ⟨q, hq, hid⟩ | h
      · exact .inl h
      · rw [hwaiting, List.mem_cons] at hq
        rcases hq with rfl | hq
        · exact .inr (.inr (congrArg some hid))
        · exact .inr (.inl ⟨q, hq, hid⟩)
      · exact .inl (isSettled_of_isIdle (s := s) hidle h)
    · intro n hn
      cases hn
      exact hs.queued.waitingOld r (hwaiting ▸ List.mem_cons_self)
    · intro q hq
      rcases List.mem_append.1 hq with hq | hq
      · exact hs.queued.sentOld q hq
      · rw [List.mem_singleton.1 hq]
        exact hs.queued.waitingOld r (hwaiting ▸ List.mem_cons_self)
    · intro q hq
      obtain ⟨hsettled, -, hsent⟩ := hs.queued.waitingNew q (hin q hq)
      have hne : r.id ≠ q.id := by
        intro h
        exact hdistinct.1 (h ▸ List.mem_map_of_mem hq)
      refine ⟨hsettled, ?_, ?_⟩
      · intro h
        exact hne (Option.some.inj h)
      · intro p hp
        rcases List.mem_append.1 hp with hp | hp
        · exact hsent p hp
        · rw [List.mem_singleton.1 hp]
          exact hne
    · intro q hq
      have hq' : q ∈ rest ++ (s.sent ++ [r]) := hq
      rw [List.mem_append, List.mem_append, List.mem_singleton] at hq'
      rcases hq' with hq' | hq' | rfl
      · exact hs.queued.ownId q (List.mem_append_left _ (hin q hq'))
      · exact hs.queued.ownId q (List.mem_append_right _ hq')
      · exact hs.queued.ownId q (List.mem_append_left _ (hwaiting ▸ List.mem_cons_self))
    · exact fun hclosed => absurd hclosed (not_isClosed hopen)
  · refine ⟨fun n hn => hn, ?_, ?_⟩
    · intro q hq
      rcases List.mem_append.1 hq with hq | hq
      · left
        rcases hs.current.sent q hq with h | h
        · exact h
        · exact isSettled_of_isIdle (s := s) hidle h
      · rw [List.mem_singleton.1 hq]
        exact .inr rfl
    · intro n hn _
      cases hn
      exact ⟨rfl, r, List.mem_append_right _ (List.mem_singleton_self _), rfl⟩
  · exact { hs.settled with
      closed := fun hclosed => absurd hclosed (not_isClosed hopen) }

/-- What was not sent after all is forgotten, as its promise is settled. -/
theorem Inv.forget (hs : Inv s) (hcurrent : s.current = some id)
    (hsettled : s.promises.isSettled id = true) (sent : List Request)
    (hsub : ∀ r ∈ sent, r ∈ s.sent) : Inv { s with sent } where
  queued :=
    { hs.queued with
      sentOld := fun r hr => hs.queued.sentOld r (hsub r hr)
      waitingNew := by
        intro r hr
        obtain ⟨hnew, hother, hnever⟩ := hs.queued.waitingNew r hr
        exact ⟨hnew, hother, fun q hq => hnever q (hsub q hq)⟩
      ownId := by
        intro r hr
        rcases List.mem_append.1 hr with hr | hr
        · exact hs.queued.ownId r (List.mem_append_left _ hr)
        · exact hs.queued.ownId r (List.mem_append_right _ (hsub r hr)) }
  current :=
    { pending := hs.current.pending
      sent := fun r hr => hs.current.sent r (hsub r hr)
      open_ := by
        intro n hn hopen
        have heq : id = n := Option.some.inj (hcurrent.symm.trans hn)
        have hopen' : s.promises.isSettled n = false := hopen
        rw [← heq, hsettled] at hopen'
        cases hopen' }
  settled := { hs.settled with }

theorem inv_run (hs : Inv s) {r : Request} {rest : List Request} (hwaiting : s.waiting = r :: rest)
    (hidle : s.isIdle = true) (hopen : s.isClosed = false) (fails : Bool) :
    Inv (s.run r rest fails) := by
  have htaken := hs.take hwaiting hidle hopen
  cases fails with
  | false =>
      have hrun : s.run r rest false = { s with
          waiting := rest
          current := some r.id
          pending := some r.id
          sent := s.sent ++ [r] } := by
        simp only [State.run, Bool.false_eq_true, if_false]
        exact if_neg (by simp [hopen])
      rw [hrun]
      exact htaken
  | true =>
      have hrun : s.run r rest true = { s with
          waiting := rest
          current := some r.id
          pending := some r.id
          promises := s.promises.settle r.id .failed } := rfl
      rw [hrun]
      have hsettled := htaken.settleCurrent rfl (some r.id) (s.promises.settle r.id .failed)
        (fun n hn => (Option.some.inj hn).symm) (fun n => Promises.isSettled_settle)
        (hs.settled.promises.settle nofun)
      exact hsettled.forget rfl (Promises.isSettled_settle.2 (.inr rfl)) s.sent
        fun q hq => List.mem_append_left _ hq

theorem inv_step (hs : Inv s) (hok : Tame s l) (h : step s l = some t) : Inv t := by
  cases l with
  | request op params =>
      cases h
      exact hs.enqueue hok.1 op hok.2
  | run fails =>
      simp only [step] at h
      split at h
      · next r rest hwaiting =>
        split_ifs at h with hidle
        cases h
        rw [Bool.and_eq_true] at hidle
        have hopen : s.isClosed = false := by
          rw [Bool.eq_false_iff]
          intro hclosed
          rw [hs.queued.closed hclosed] at hwaiting
          cases hwaiting
        exact inv_run hs hwaiting hidle.2 hopen fails
      · cases h
  | receive parsed =>
      simp only [step] at h
      split_ifs at h
      cases h
      cases parsed with
      | none => exact hs
      | some frame =>
          cases hobject : frame.isObject with
          | false =>
              show Inv ((s.note frame).onMessage (some frame))
              rw [note_onMessage_of_not hobject]
              exact hs
          | true => exact inv_receive hs hobject (hok hobject)
  | call throws =>
      simp only [step] at h
      split at h
      · cases h
        exact hs.setCalling _
      · cases h
  | onEvent event handler =>
      simp only [step] at h
      split_ifs at h
      · cases h
        exact hs
      · cases h
        exact hs.setHandlers _
  | unsubscribe event handler =>
      cases h
      exact hs.setHandlers _
  | close =>
      simp only [step] at h
      split_ifs at h
      cases h
      obtain ⟨hwaiting, hidle⟩ := hok
      refine ⟨{ hs.queued with closed := fun _ => hwaiting }, { hs.current with },
        { hs.settled with closed := ?_ }⟩
      intro _ n hpos hold
      rcases hs.queued.known n hpos hold with h | ⟨r, hr, -⟩ | h
      · exact h
      · rw [hwaiting] at hr
        cases hr
      · exact isSettled_of_isIdle hidle h

/-- The promises are settled by their own answers, when no request has an id among its
parameters, no push event is taken for an answer, what comes has no inherited names, and the
socket is closed when nothing is left to do. -/
theorem settled_of_run {ls : List Label} (h : Run step Tame .init ls s) : Settled s := by
  have hs : Inv s := h.invariant inv_init fun _ _ _ hs hok hstep => inv_step hs hok hstep
  exact hs.settled

/-! ## Requests that go astray -/

def asks (params : List (String × Json)) : List Label :=
  [.request "read".toList (params.map fun field => (field.1.toList, field.2)), .run false]

def hears (fields : List (String × Json)) : Label := .receive (some (.object fields))

/-- A push event has the id of the request in flight. -/
def pushed : List Label :=
  asks [] ++ [hears [("event", .str "flush-request".toList), ("id", .num 1)]]

/-- The parameters of a request have an id. -/
def overwritten : List Label :=
  asks [("id", .num 7)] ++ [hears [("ok", .bool true), ("id", .num 7)]]

/-- An event has the name of an inherited field. -/
def misnamed : List Label := [hears [("event", .str "toString".toList)]]

/-- The error of an answer has no text. -/
def wordless : List Label :=
  asks [] ++ [hears [("id", .num 1), ("error", .object [("toString", .num 1)])]]

/-- The socket is closed with a request in flight. -/
def cut : List Label := asks [] ++ [.close]

/-- A promise is settled by a frame, and no answer came. -/
def strange (s : State) : Bool :=
  s.promises.answers.isEmpty && s.promises.settled.any fun e => match e.2 with
    | .answered _ => true
    | .failed => false

def hasLost (s : State) : Bool := s.promises.lost

def hasThrown (s : State) : Bool := s.threw

def hasLeft (s : State) : Bool := s.isClosed && s.nextId == 2 && !s.promises.isSettled 1

theorem not_settled_of_strange {s : State} (h : strange s = true) : ¬ Settled s := by
  intro hs
  simp only [strange, Bool.and_eq_true, List.isEmpty_iff, List.any_eq_true] at h
  obtain ⟨hnone, ⟨id, outcome⟩, hmem, houtcome⟩ := h
  cases outcome with
  | answered result =>
      have hanswer := hs.promises.own id result hmem
      rw [hnone] at hanswer
      cases hanswer
  | failed => cases houtcome

theorem not_settled_of_lost {s : State} (h : hasLost s = true) : ¬ Settled s :=
  fun hs => Promises.not_kept_of_lost h hs.promises

theorem not_settled_of_thrown {s : State} (h : hasThrown s = true) : ¬ Settled s := by
  intro hs
  have hnothing := hs.nothingThrown
  rw [show s.threw = true from h] at hnothing
  cases hnothing

theorem not_settled_of_left {s : State} (h : hasLeft s = true) : ¬ Settled s := by
  intro hs
  simp only [hasLeft, Bool.and_eq_true, beq_iff_eq, Bool.not_eq_true'] at h
  obtain ⟨⟨hclosed, hnext⟩, hleft⟩ := h
  rw [hs.closed hclosed 1 (Nat.le_refl 1) (by omega)] at hleft
  cases hleft

theorem exists_notSettled {ls : List Label} (test : State → Bool)
    (h : (exec step free .init ls).any test = true) (hnot : ∀ s, test s = true → ¬ Settled s) :
    ∃ s, Run step free .init ls s ∧ test s = true ∧ ¬ Settled s := by
  obtain ⟨s, hrun, hs⟩ := Run.exists_of_exec test h
  exact ⟨s, hrun, hs, hnot s hs⟩

instance (s : State) (l : Label) : Decidable (Tame s l) :=
  match l with
  | .request _ _ => inferInstanceAs (Decidable (_ ∧ _))
  | .receive (some _) => inferInstanceAs (Decidable (_ → _))
  | .close => decidable_of_iff (s.waiting.isEmpty = true ∧ s.isIdle = true)
      (by simp only [Tame, List.isEmpty_iff])
  | .receive none | .run _ | .call _ | .onEvent _ _ | .unsubscribe _ _ => isTrue trivial

/-- Two requests, the second of which cannot be sent, an answer, an event and a close. -/
def tame : List Label :=
  asks [("path", .str "a".toList)] ++
    [.onEvent "file-changed".toList 0, .request "list".toList [],
      hears [("event", .str "file-changed".toList)], .call true, hears [("id", .num 9)],
      .receive none, hears [("ok", .bool true), ("id", .num 1)], .run true, .close]

def bothSettled (s : State) : Bool := s.promises.isSettled 1 && s.promises.isSettled 2

end Vanyline.Frontend.FsClient
