import Mathlib.Data.List.Basic
import Mathlib.Logic.Function.Basic
import Vanyline.Lib.Run
import Vanyline.Sandbox.Documents

/-!
# The shared handshake of a session

A language server takes one `initialize` request, answers it, and then expects the
notification `initialized` before anything else.  All clients of a session share
that handshake: the first client to ask wins the right to send `initialize`.

A tool call that loses goes on at once.  A browser that loses is answered from the
outcome that a winning browser has left in the session, and waits for it at most
thirty seconds.  Browsers obey the protocol: they wait for the answer to their
`initialize`, send `initialized` if it is a result, and then anything else.

`HandshakeKept` says that the server sees the handshake first, and that every browser
gets the answer of the server.  It fails when a tool call loses before the answer,
and when a browser loses against a tool call (`handshake_fails`).
`handshakeKept_of_run` proves it for the runs in which neither happens, the timer does
not fire early, and no browser waits for one that goes away (`Orderly`).
-/

namespace Vanyline.Sandbox.Handshake

open Vanyline.Lib

variable {V : Type}

/-- The answer of the server to `initialize`. -/
inductive Outcome (V : Type)
  | result (value : V)
  | error (value : V)
  deriving DecidableEq

/-- What a browser is told: the outcome, or error -32603 after thirty seconds. -/
inductive Reply (V : Type)
  | outcome (outcome : Outcome V)
  | timedOut
  deriving DecidableEq

/-! ## The server's side -/

/-- What the server receives and answers. -/
inductive Event (V : Type)
  | initializeRequest (client : ClientId)
  | answered (outcome : Outcome V)
  | initialized (client : ClientId)
  | message (client : ClientId)
  deriving DecidableEq

inductive Stage
  | started
  | asked
  | answered
  | ready
  deriving DecidableEq

/-- One `initialize`, its answer, an `initialized`, and then everything. -/
def accept : Stage → Event V → Option Stage
  | .started, .initializeRequest _ => some .asked
  | .asked, .answered _ => some .answered
  | .answered, .initialized _ => some .ready
  | .ready, .initialized _ | .ready, .message _ => some .ready
  | _, _ => none

/-- The stage of the server after the events, oldest first, if they are in order. -/
def stage (log : List (Event V)) : Option Stage := monitor accept .started log

/-! ## Clients and steps -/

/-- Where a client stands.  `acknowledging` is for tool calls, `losing` and
`replied` for browsers. -/
inductive Phase (V : Type)
  | fresh
  | won
  | waiting
  | received (outcome : Outcome V)
  | acknowledging
  | losing
  | replied (reply : Reply V)
  | ready
  | failed
  deriving DecidableEq

def Phase.isLosing : Phase V → Bool
  | .losing => true
  | _ => false

structure Client (V : Type) where
  browser : Bool
  phase : Phase V
  deriving DecidableEq

/-- Will the client, a browser, bring the answer to the session? -/
def Client.bringsOutcome (client : Client V) : Bool :=
  client.browser &&
    match client.phase with
    | .won | .waiting | .received _ => true
    | _ => false

/-- The answer to `initialize` reaches a client that waits for it. -/
def Client.deliver (outcome : Outcome V) (client : Client V) : Client V :=
  match client.phase with
  | .waiting => { client with phase := .received outcome }
  | _ => client

/-- A session and its server.  `winner`, `answer`, `log` and `replies` are for the
observer. -/
structure State (V : Type) where
  nextClient : ClientId
  clients : ClientId → Option (Client V)
  initialized : Bool
  initializeOutcome : Option (Outcome V)
  winner : Option ClientId
  answer : Option (Outcome V)
  log : List (Event V)
  replies : List (Reply V)

inductive Action (V : Type)
  | subscribe (browser : Bool)
  | tryInitialize (client : ClientId)
  | sendInitialize (client : ClientId)
  | answer (outcome : Outcome V)
  | receive (client : ClientId)
  | sendInitialized (client : ClientId)
  | readOutcome (client : ClientId)
  | timeout (client : ClientId)
  | sendMessage (client : ClientId)
  | unsubscribe (client : ClientId)

def Event.isInitialize : Event V → Bool
  | .initializeRequest _ => true
  | _ => false

def Event.isInitialized : Event V → Bool
  | .initialized _ => true
  | _ => false

namespace State

variable (s : State V) (c : ClientId)

def setClient (client : Client V) : State V :=
  { s with clients := Function.update s.clients c (some client) }

def push (e : Event V) : State V := { s with log := s.log ++ [e] }

/-- A browser is told something. -/
def reply (browser : Bool) (reply : Reply V) : State V :=
  { s.setClient c ⟨browser, .replied reply⟩ with replies := reply :: s.replies }

end State

/-- `wait_for_initialize_outcome` returns after thirty seconds. -/
def replyOf : Option (Outcome V) → Reply V
  | some outcome => .outcome outcome
  | none => .timedOut

def step (s : State V) : Action V → Option (State V)
  | .subscribe browser =>
    some { s.setClient s.nextClient ⟨browser, .fresh⟩ with nextClient := s.nextClient + 1 }
  | .tryInitialize c =>
    match s.clients c with
    | some ⟨browser, .fresh⟩ =>
      if s.initialized then some (s.setClient c ⟨browser, if browser then .losing else .ready⟩)
      else some { s.setClient c ⟨browser, .won⟩ with initialized := true, winner := some c }
    | _ => none
  | .sendInitialize c =>
    match s.clients c with
    | some ⟨browser, .won⟩ => some ((s.setClient c ⟨browser, .waiting⟩).push (.initializeRequest c))
    | _ => none
  | .answer o =>
    if s.answer.isNone ∧ s.log.any Event.isInitialize then
      some ({ s with clients := fun c => (s.clients c).map (.deliver o), answer := some o }.push
        (.answered o))
    else none
  | .receive c =>
    match s.clients c with
    | some ⟨true, .received o⟩ =>
      some ({ s with initializeOutcome := some o }.reply c true (.outcome o))
    | some ⟨false, .received (.result _)⟩ => some (s.setClient c ⟨false, .acknowledging⟩)
    | some ⟨false, .received (.error _)⟩ => some (s.setClient c ⟨false, .failed⟩)
    | _ => none
  | .sendInitialized c =>
    match s.clients c with
    | some ⟨browser, .acknowledging⟩ | some ⟨browser, .replied (.outcome (.result _))⟩ =>
      some ((s.setClient c ⟨browser, .ready⟩).push (.initialized c))
    | _ => none
  | .readOutcome c =>
    match s.clients c, s.initializeOutcome with
    | some ⟨browser, .losing⟩, some o => some (s.reply c browser (.outcome o))
    | _, _ => none
  | .timeout c =>
    match s.clients c with
    | some ⟨browser, .losing⟩ => some (s.reply c browser (replyOf s.initializeOutcome))
    | _ => none
  | .sendMessage c =>
    match s.clients c with
    | some ⟨_, .ready⟩ => some (s.push (.message c))
    | _ => none
  | .unsubscribe c =>
    match s.clients c with
    | none | some ⟨_, .losing⟩ => none
    | some _ => some { s with clients := Function.update s.clients c none }

/-- A session with a new process. -/
def State.init : State V := ⟨0, fun _ => none, false, none, none, none, [], []⟩

/-! ## The handshake -/

/-- The answer of the server is in the session, or a browser will bring it. -/
def Awaited (s : State V) : Prop :=
  s.initializeOutcome.isSome ∨ ∃ w < s.nextClient, (s.clients w).any Client.bringsOutcome

instance (s : State V) : Decidable (Awaited s) := inferInstanceAs (Decidable (_ ∨ _))

/-- The server sees the handshake first, every browser gets the answer of the server,
and no browser waits in vain. -/
structure HandshakeKept (s : State V) : Prop where
  in_order : stage s.log ≠ none
  replies : ∀ r ∈ s.replies, ∃ o, r = .outcome o ∧ s.answer = some o
  awaited : ∀ c browser, s.clients c = some ⟨browser, .losing⟩ → Awaited s

/-- A client may lose the race: a tool call when the handshake is over, and a browser
when it can hope for the answer. -/
def MayLose (s : State V) : Bool → Prop
  | true => Awaited s
  | false => s.log.any Event.isInitialized

instance (s : State V) : (browser : Bool) → Decidable (MayLose s browser)
  | true => inferInstanceAs (Decidable (Awaited s))
  | false => inferInstanceAs (Decidable (_ = true))

/-- The race is lost as `MayLose` says, the timer fires when the answer is there, and
nobody that a browser waits for goes away. -/
def Orderly (s : State V) : Action V → Prop
  | .tryInitialize c => s.initialized = true → ∀ client ∈ s.clients c, MayLose s client.browser
  | .timeout _ => s.initializeOutcome.isSome
  | .unsubscribe c => (s.clients c).any Client.bringsOutcome →
      ∀ c' < s.nextClient, ∀ client ∈ s.clients c', client.phase.isLosing = false
  | _ => True

instance (s : State V) : (a : Action V) → Decidable (Orderly s a)
  | .tryInitialize _ => inferInstanceAs (Decidable (_ → ∀ client ∈ s.clients _, _))
  | .timeout _ => inferInstanceAs (Decidable (_ = true))
  | .unsubscribe _ => inferInstanceAs (Decidable (_ → ∀ c' < s.nextClient, _))
  | .subscribe _ | .sendInitialize _ | .answer _ | .receive _ | .sendInitialized _
  | .readOutcome _ | .sendMessage _ => isTrue trivial

/-! ## The invariant -/

/-- What a client relies on in its phase. -/
def Phase.Supported (s : State V) (st : Stage) (c : ClientId) : Phase V → Prop
  | .fresh | .failed => True
  | .won => s.winner = some c ∧ st = .started
  | .waiting => s.winner = some c ∧ st = .asked
  | .received o => s.winner = some c ∧ s.answer = some o
  | .acknowledging => s.answer ≠ none
  | .losing => Awaited s
  | .replied r => ∃ o, r = .outcome o ∧ s.answer = some o
  | .ready => st = .ready

/-- The server is at the stage `st`. -/
structure Inv (s : State V) (st : Stage) : Prop where
  stage : stage s.log = some st
  started : st = .started → s.log = []
  answered : s.answer = none ↔ st = .started ∨ st = .asked
  acknowledged : s.log.any Event.isInitialized → st = .ready
  absent : ∀ c, s.nextClient ≤ c → s.clients c = none
  unmarked : s.initialized = false → st = .started ∧ s.winner = none
  outcome : ∀ o, s.initializeOutcome = some o → s.answer = some o
  replies : ∀ r ∈ s.replies, ∃ o, r = .outcome o ∧ s.answer = some o
  supported : ∀ c client, s.clients c = some client → client.phase.Supported s st c

theorem inv_init : Inv (.init : State V) .started where
  stage := rfl
  started _ := rfl
  answered := by simp [State.init]
  acknowledged h := by simp [State.init] at h
  absent _ _ := rfl
  unmarked _ := ⟨rfl, rfl⟩
  outcome o h := by simp [State.init] at h
  replies r h := by simp [State.init] at h
  supported c client h := by simp [State.init] at h

variable {s t : State V} {st : Stage} {c : ClientId}

theorem handshakeKept_of_inv (hs : Inv s st) : HandshakeKept s where
  in_order := by simp [hs.stage]
  replies := hs.replies
  awaited c browser hc := hs.supported c _ hc

/-- A browser that brings the answer can be replaced by one that does too. -/
theorem Awaited.of_clients (h : Awaited s) (hnext : s.nextClient ≤ t.nextClient)
    (houtcome : s.initializeOutcome.isSome → t.initializeOutcome.isSome)
    (hclients : ∀ w client, s.clients w = some client → client.bringsOutcome = true →
      t.initializeOutcome.isSome ∨ (t.clients w).any Client.bringsOutcome) : Awaited t := by
  rcases h with h | ⟨w, hlt, hw⟩
  · exact .inl (houtcome h)
  · obtain ⟨client, hclient, hbrings⟩ := Option.any_eq_true _ _ |>.1 hw
    rcases hclients w client hclient hbrings with h | h
    · exact .inl h
    · exact .inr ⟨w, Nat.lt_of_lt_of_le hlt hnext, h⟩

theorem Phase.Supported.congr {phase : Phase V} (h : phase.Supported s st c)
    (hwinner : t.winner = s.winner) (hanswer : t.answer = s.answer)
    (hawaited : Awaited s → Awaited t) : phase.Supported t st c := by
  cases phase with
  | fresh | failed => trivial
  | won => exact ⟨hwinner.trans h.1, h.2⟩
  | waiting => exact ⟨hwinner.trans h.1, h.2⟩
  | received o => exact ⟨hwinner.trans h.1, hanswer.trans h.2⟩
  | acknowledging => exact fun hnone => h (hanswer ▸ hnone)
  | losing => exact hawaited h
  | replied r =>
      obtain ⟨o, hr, ho⟩ := h
      exact ⟨o, hr, hanswer.trans ho⟩
  | ready => exact h

/-- A client that is there goes to another phase. -/
theorem Inv.setClient (hs : Inv s st) {client client' : Client V} (hc : s.clients c = some client)
    (hbrings : client.bringsOutcome = true →
      client'.bringsOutcome = true ∨ s.initializeOutcome.isSome)
    (hsupported : client'.phase.Supported s st c) : Inv (s.setClient c client') st := by
  have hawaited : Awaited s → Awaited (s.setClient c client') := by
    intro h
    refine h.of_clients (Nat.le_refl _) id fun w old hold hold_brings => ?_
    by_cases heq : w = c
    · subst heq
      rw [hc, Option.some.injEq] at hold
      rw [← hold] at hold_brings
      rcases hbrings hold_brings with hnew | hsome
      · exact .inr (by simpa [State.setClient] using hnew)
      · exact .inl hsome
    · exact .inr (by simp [State.setClient, Function.update_of_ne heq, hold, hold_brings])
  exact { hs with
    absent := fun c' hle => by
      have hne : c' ≠ c := by
        rintro rfl
        simp [hs.absent _ hle] at hc
      show Function.update s.clients c (some client') c' = none
      rw [Function.update_of_ne hne]
      exact hs.absent c' hle
    supported := fun c' client'' hc' => by
      by_cases heq : c' = c
      · subst heq
        simp only [State.setClient, Function.update_self, Option.some.injEq] at hc'
        exact hc' ▸ hsupported.congr rfl rfl hawaited
      · simp only [State.setClient, Function.update_of_ne heq] at hc'
        exact (hs.supported c' client'' hc').congr rfl rfl hawaited }

theorem inv_subscribe (hs : Inv s st) {browser : Bool}
    (h : step s (.subscribe browser) = some t) : Inv t st := by
  obtain rfl := Option.some.inj h
  have hfresh := hs.absent s.nextClient (Nat.le_refl _)
  have hawaited : Awaited s → Awaited { s.setClient s.nextClient ⟨browser, .fresh⟩ with
      nextClient := s.nextClient + 1 } := by
    intro h
    refine h.of_clients (Nat.le_succ _) id fun w old hold hbrings => .inr ?_
    have hne : w ≠ s.nextClient := by
      rintro rfl
      simp [hfresh] at hold
    simp [State.setClient, Function.update_of_ne hne, hold, hbrings]
  exact { hs with
    absent := fun c hle => by
      have hne : c ≠ s.nextClient := Nat.ne_of_gt hle
      show Function.update s.clients s.nextClient _ c = none
      rw [Function.update_of_ne hne]
      exact hs.absent c (Nat.le_of_succ_le hle)
    supported := fun c client hc => by
      by_cases heq : c = s.nextClient
      · subst heq
        simp only [State.setClient, Function.update_self, Option.some.injEq] at hc
        exact hc ▸ trivial
      · simp only [State.setClient, Function.update_of_ne heq] at hc
        exact (hs.supported c client hc).congr rfl rfl hawaited }

/-- The first client that asks wins, and nobody else is on the way. -/
theorem inv_win (hs : Inv s st) {browser : Bool} (hc : s.clients c = some ⟨browser, .fresh⟩)
    (hinitialized : s.initialized = false) :
    Inv { s.setClient c ⟨browser, .won⟩ with initialized := true, winner := some c } st := by
  obtain ⟨hstarted, hwinner⟩ := hs.unmarked hinitialized
  have hmoved : Inv (s.setClient c ⟨browser, .failed⟩) st :=
    hs.setClient hc (by simp [Client.bringsOutcome]) trivial
  exact { hmoved with
    absent := fun c' hle => by
      have hne : c' ≠ c := by
        rintro rfl
        simp [hs.absent _ hle] at hc
      show Function.update s.clients c _ c' = none
      rw [Function.update_of_ne hne]
      exact hs.absent c' hle
    unmarked := fun h => absurd h (by simp)
    supported := fun c' client hc' => by
      by_cases heq : c' = c
      · subst heq
        simp only [State.setClient, Function.update_self, Option.some.injEq] at hc'
        exact hc' ▸ ⟨rfl, hstarted⟩
      · simp only [State.setClient, Function.update_of_ne heq] at hc'
        have hsupported := hs.supported c' client hc'
        cases hphase : client.phase with
        | fresh | failed => trivial
        | won => simp [hphase, Phase.Supported, hwinner] at hsupported
        | waiting => simp [hphase, Phase.Supported, hwinner] at hsupported
        | received o => simp [hphase, Phase.Supported, hwinner] at hsupported
        | acknowledging | replied r | ready =>
            rw [hphase] at hsupported
            exact hsupported
        | losing =>
            rw [hphase] at hsupported
            refine Awaited.of_clients hsupported (Nat.le_refl _) id fun w old hold hbrings => ?_
            have hne : w ≠ c := by
              rintro rfl
              rw [hc, Option.some.injEq] at hold
              simp [← hold, Client.bringsOutcome] at hbrings
            exact .inr (by simp [State.setClient, Function.update_of_ne hne, hold, hbrings]) }

theorem inv_tryInitialize (hs : Inv s st) (hok : Orderly s (.tryInitialize c))
    (h : step s (.tryInitialize c) = some t) : Inv t st := by
  simp only [step] at h
  split at h
  next browser hc =>
    cases hinitialized : s.initialized with
    | true =>
        have hlose := hok hinitialized _ hc
        rw [hinitialized, if_pos rfl, Option.some.injEq] at h
        subst h
        refine hs.setClient hc (by simp [Client.bringsOutcome]) ?_
        cases browser with
        | true => exact hlose
        | false => exact hs.acknowledged hlose
    | false =>
        simp only [hinitialized, Bool.false_eq_true, if_false, Option.some.injEq] at h
        exact h ▸ inv_win hs hc hinitialized
  next => simp at h

theorem Inv.absent_setClient (hs : Inv s st) {client client' : Client V}
    (hc : s.clients c = some client) (c' : ClientId) (hle : s.nextClient ≤ c') :
    (s.setClient c client').clients c' = none := by
  have hne : c' ≠ c := by
    rintro rfl
    simp [hs.absent _ hle] at hc
  show Function.update s.clients c (some client') c' = none
  rw [Function.update_of_ne hne]
  exact hs.absent c' hle

theorem Inv.marked (hs : Inv s st) (h : s.winner ≠ none ∨ st ≠ .started) : s.initialized = true := by
  by_contra hfalse
  obtain ⟨hstarted, hwinner⟩ := hs.unmarked (by simpa using hfalse)
  exact h.elim (fun h => h hwinner) fun h => h hstarted

/-- A client sends something that the server expects. -/
theorem Inv.push (hs : Inv s st) {client client' : Client V} (hc : s.clients c = some client)
    {e : Event V} {st' : Stage} (haccept : accept st e = some st')
    (hanswer : s.answer = none ↔ st' = .started ∨ st' = .asked)
    (hacknowledged : (s.log ++ [e]).any Event.isInitialized → st' = .ready)
    (hmarked : s.initialized = true)
    (hsupported : ∀ c' client'', (s.setClient c client').clients c' = some client'' →
      client''.phase.Supported (s.setClient c client') st' c') :
    Inv ((s.setClient c client').push e) st' where
  stage := by
    show Handshake.stage (s.log ++ [e]) = some st'
    rw [Handshake.stage, monitor_concat hs.stage, haccept]
  started h := by
    subst h
    cases st <;> cases e <;> simp [accept] at haccept
  answered := hanswer
  acknowledged := hacknowledged
  absent := hs.absent_setClient hc
  unmarked h := by
    have : s.initialized = false := h
    simp [hmarked] at this
  outcome := hs.outcome
  replies := hs.replies
  supported c' client'' hc' := (hsupported c' client'' hc').congr rfl rfl id

/-- The winner sends `initialize`, and nobody else is on the way. -/
theorem inv_sendInitialize (hs : Inv s st) (h : step s (.sendInitialize c) = some t) :
    ∃ st', Inv t st' := by
  simp only [step] at h
  split at h
  next browser hc =>
    obtain rfl := Option.some.inj h
    obtain ⟨hwinner, rfl⟩ := hs.supported c _ hc
    have hnone : s.answer = none := hs.answered.2 (.inl rfl)
    refine ⟨.asked, hs.push hc rfl (by simp [hnone]) ?_ (hs.marked (.inl (by simp [hwinner]))) ?_⟩
    · simp [hs.started rfl, Event.isInitialized]
    · intro c' client hc'
      by_cases heq : c' = c
      · subst heq
        simp only [State.setClient, Function.update_self, Option.some.injEq] at hc'
        exact hc' ▸ ⟨hwinner, rfl⟩
      · simp only [State.setClient, Function.update_of_ne heq] at hc'
        have hsupported := hs.supported c' client hc'
        cases hphase : client.phase with
        | fresh | failed => trivial
        | won =>
            rw [hphase] at hsupported
            exact absurd (Option.some.inj (hsupported.1.symm.trans hwinner)) heq
        | waiting => simp [hphase, Phase.Supported] at hsupported
        | received o => simp [hphase, Phase.Supported, hnone] at hsupported
        | acknowledging => simp [hphase, Phase.Supported, hnone] at hsupported
        | replied r => simp [hphase, Phase.Supported, hnone] at hsupported
        | ready => simp [hphase, Phase.Supported] at hsupported
        | losing =>
            rw [hphase] at hsupported
            refine Awaited.of_clients hsupported (Nat.le_refl _) id fun w old hold hbrings => .inr ?_
            by_cases hw : w = c
            · subst hw
              rw [hc, Option.some.injEq] at hold
              simpa [State.setClient, ← hold, Client.bringsOutcome] using hbrings
            · simp [State.setClient, Function.update_of_ne hw, hold, hbrings]
  next => simp at h

theorem deliver_bringsOutcome (o : Outcome V) (client : Client V) :
    (client.deliver o).bringsOutcome = client.bringsOutcome := by
  obtain ⟨browser, phase⟩ := client
  cases phase <;> rfl

/-- The server answers the one client that waits. -/
theorem inv_answer (hs : Inv s st) {o : Outcome V} (h : step s (.answer o) = some t) :
    ∃ st', Inv t st' := by
  simp only [step, Option.ite_none_right_eq_some, Option.some.injEq] at h
  obtain ⟨⟨hnone, hasked⟩, rfl⟩ := h
  rw [Option.isNone_iff_eq_none] at hnone
  have hst : st = .asked := by
    rcases hs.answered.1 hnone with hst | hst
    · simp [hs.started hst] at hasked
    · exact hst
  subst hst
  refine ⟨.answered, ?_⟩
  exact {
    stage := by
      show Handshake.stage (s.log ++ [.answered o]) = some .answered
      rw [Handshake.stage, monitor_concat hs.stage]
      rfl
    started := fun h => absurd h (by simp)
    answered := by simp [State.push]
    acknowledged := fun h => by
      have hold : s.log.any Event.isInitialized := by
        simpa [State.push, Event.isInitialized] using h
      simpa using hs.acknowledged hold
    absent := fun c hle => by simp [State.push, hs.absent c hle]
    unmarked := fun h => by
      have hmarked := hs.marked (.inr (by simp))
      have : s.initialized = false := h
      simp [hmarked] at this
    outcome := fun o' ho' => by
      have hold := hs.outcome o' ho'
      simp [hnone] at hold
    replies := fun r hr => by
      obtain ⟨o', -, hold⟩ := hs.replies r hr
      simp [hnone] at hold
    supported := fun c client hc => by
      obtain ⟨old, hold, rfl⟩ := Option.map_eq_some_iff.1 hc
      have hsupported := hs.supported c old hold
      obtain ⟨browser, phase⟩ := old
      cases phase with
      | fresh | failed => trivial
      | won => simp [Phase.Supported] at hsupported
      | waiting => exact ⟨hsupported.1, rfl⟩
      | received o' => simp [Phase.Supported, hnone] at hsupported
      | acknowledging => simp [Phase.Supported, hnone] at hsupported
      | replied r => simp [Phase.Supported, hnone] at hsupported
      | ready => simp [Phase.Supported] at hsupported
      | losing =>
          refine Awaited.of_clients hsupported (Nat.le_refl _) id fun w old hold hbrings => .inr ?_
          simpa [State.push, hold, deliver_bringsOutcome] using hbrings }

/-- A browser is told the answer of the server, which is in the session. -/
theorem Inv.reply (hs : Inv s st) {client : Client V} (hc : s.clients c = some client)
    {o : Outcome V} (ho : s.initializeOutcome = some o) (browser : Bool) :
    Inv (s.reply c browser (.outcome o)) st :=
  have hanswer := hs.outcome o ho
  have hmoved : Inv (s.setClient c ⟨browser, .replied (.outcome o)⟩) st :=
    hs.setClient hc (fun _ => .inr (by simp [ho])) ⟨o, rfl, hanswer⟩
  { hmoved with
    replies := fun r hr => by
      rcases List.mem_cons.1 hr with rfl | hr
      · exact ⟨o, rfl, hanswer⟩
      · exact hs.replies r hr
    supported := fun c' client' hc' => (hmoved.supported c' client' hc').congr rfl rfl id }

theorem inv_receive (hs : Inv s st) (h : step s (.receive c) = some t) : Inv t st := by
  simp only [step] at h
  split at h
  next o hc =>
    obtain rfl := Option.some.inj h
    have hanswer := (hs.supported c _ hc).2
    have hstored : Inv { s with initializeOutcome := some o } st :=
      { hs with
        outcome := fun o' ho' => Option.some.inj ho' ▸ hanswer
        supported := fun c' client hc' =>
          (hs.supported c' client hc').congr rfl rfl fun _ => .inl rfl }
    exact hstored.reply hc rfl true
  next v hc =>
    obtain rfl := Option.some.inj h
    have hanswer := (hs.supported c _ hc).2
    exact hs.setClient hc (by simp [Client.bringsOutcome]) (by simp [Phase.Supported, hanswer])
  next v hc =>
    obtain rfl := Option.some.inj h
    exact hs.setClient hc (by simp [Client.bringsOutcome]) trivial
  next => simp at h

/-- A notification `initialized` of a client that has the answer. -/
theorem inv_push_initialized (hs : Inv s st) {client : Client V} (hc : s.clients c = some client)
    (hanswer : s.answer ≠ none) (hbrings : client.bringsOutcome = false) (browser : Bool) :
    Inv ((s.setClient c ⟨browser, .ready⟩).push (.initialized c)) .ready := by
  have hst : st = .answered ∨ st = .ready := by
    have hlate := mt hs.answered.2 hanswer
    cases st <;> simp at hlate ⊢
  have hnot : ¬ (st = .started ∨ st = .asked) := by rcases hst with rfl | rfl <;> simp
  have haccept : accept st (.initialized c : Event V) = some .ready := by
    rcases hst with rfl | rfl <;> rfl
  refine hs.push hc haccept (by simp [hanswer]) (fun _ => rfl)
    (hs.marked (.inr fun h => hnot (.inl h))) fun c' client' hc' => ?_
  by_cases heq : c' = c
  · subst heq
    simp only [State.setClient, Function.update_self, Option.some.injEq] at hc'
    exact hc' ▸ rfl
  · simp only [State.setClient, Function.update_of_ne heq] at hc'
    have hsupported := hs.supported c' client' hc'
    cases hphase : client'.phase with
    | won =>
        rw [hphase] at hsupported
        exact absurd (.inl hsupported.2) hnot
    | waiting =>
        rw [hphase] at hsupported
        exact absurd (.inr hsupported.2) hnot
    | ready => rfl
    | fresh | failed | received o | acknowledging | replied r =>
        rw [hphase] at hsupported
        exact hsupported
    | losing =>
        rw [hphase] at hsupported
        refine Awaited.of_clients hsupported (Nat.le_refl _) id fun w old hold hw => .inr ?_
        have hne : w ≠ c := by
          rintro rfl
          rw [hc, Option.some.injEq] at hold
          simp [← hold, hbrings] at hw
        simp [State.setClient, Function.update_of_ne hne, hold, hw]

theorem inv_sendInitialized (hs : Inv s st) (h : step s (.sendInitialized c) = some t) :
    ∃ st', Inv t st' := by
  simp only [step] at h
  split at h
  next browser hc =>
    obtain rfl := Option.some.inj h
    exact ⟨_, inv_push_initialized hs hc (hs.supported c _ hc) (by simp [Client.bringsOutcome])
      browser⟩
  next browser v hc =>
    obtain rfl := Option.some.inj h
    obtain ⟨o, -, hanswer⟩ := hs.supported c _ hc
    exact ⟨_, inv_push_initialized hs hc (by simp [hanswer]) (by simp [Client.bringsOutcome])
      browser⟩
  next => simp at h

theorem inv_readOutcome (hs : Inv s st) (h : step s (.readOutcome c) = some t) : Inv t st := by
  simp only [step] at h
  split at h
  next browser o hc ho => exact Option.some.inj h ▸ hs.reply hc ho browser
  next => simp at h

theorem inv_timeout (hs : Inv s st) (hok : Orderly s (.timeout c))
    (h : step s (.timeout c) = some t) : Inv t st := by
  obtain ⟨o, ho⟩ := Option.isSome_iff_exists.1 hok
  simp only [step] at h
  split at h
  next browser hc =>
    obtain rfl := Option.some.inj h
    rw [ho]
    exact hs.reply hc ho browser
  next => simp at h

/-- A client that is ready finds the server ready. -/
theorem inv_sendMessage (hs : Inv s st) (h : step s (.sendMessage c) = some t) : Inv t st := by
  simp only [step] at h
  split at h
  next browser hc =>
    obtain rfl := Option.some.inj h
    obtain rfl := hs.supported c _ hc
    exact { hs with
      stage := by
        show Handshake.stage (s.log ++ [.message c]) = some .ready
        rw [Handshake.stage, monitor_concat hs.stage]
        rfl
      started := fun h => absurd h (by simp)
      acknowledged := fun _ => rfl
      supported := fun c' client hc' => (hs.supported c' client hc').congr rfl rfl id }
  next => simp at h

theorem inv_unsubscribe (hs : Inv s st) (hok : Orderly s (.unsubscribe c))
    (h : step s (.unsubscribe c) = some t) : Inv t st := by
  have hgone : t = { s with clients := Function.update s.clients c none } := by
    simp only [step] at h
    split at h
    · simp at h
    · simp at h
    · exact (Option.some.inj h).symm
  subst hgone
  exact { hs with
    absent := fun c' hle => by
      by_cases heq : c' = c
      · simp [heq]
      · simpa [Function.update_of_ne heq] using hs.absent c' hle
    supported := fun c' client hc' => by
      have hne : c' ≠ c := by
        rintro rfl
        simp at hc'
      simp only [Function.update_of_ne hne] at hc'
      have hsupported := hs.supported c' client hc'
      cases hphase : client.phase with
      | losing =>
          rw [hphase] at hsupported
          have hlt : c' < s.nextClient := by
            by_contra hge
            simp [hs.absent c' (Nat.le_of_not_lt hge)] at hc'
          -- a browser waits, so the one that goes does not bring the answer
          refine Awaited.of_clients hsupported (Nat.le_refl _) id fun w old hold hbrings => .inr ?_
          have hw : w ≠ c := by
            rintro rfl
            have hnot := hok (by simp [hold, hbrings]) c' hlt client hc'
            simp [hphase, Phase.isLosing] at hnot
          simp [Function.update_of_ne hw, hold, hbrings]
      | fresh | won | waiting | received o | acknowledging | replied r | ready | failed =>
          rw [hphase] at hsupported
          exact hsupported }

/-- The server is at some stage of the handshake. -/
def Consistent (s : State V) : Prop := ∃ st, Inv s st

theorem consistent_step {a : Action V} (hs : Consistent s) (hok : Orderly s a)
    (h : step s a = some t) : Consistent t := by
  obtain ⟨st, hs⟩ := hs
  cases a with
  | subscribe browser => exact ⟨st, inv_subscribe hs h⟩
  | tryInitialize c => exact ⟨st, inv_tryInitialize hs hok h⟩
  | sendInitialize c => exact inv_sendInitialize hs h
  | answer o => exact inv_answer hs h
  | receive c => exact ⟨st, inv_receive hs h⟩
  | sendInitialized c => exact inv_sendInitialized hs h
  | readOutcome c => exact ⟨st, inv_readOutcome hs h⟩
  | timeout c => exact ⟨st, inv_timeout hs hok h⟩
  | sendMessage c => exact ⟨st, inv_sendMessage hs h⟩
  | unsubscribe c => exact ⟨st, inv_unsubscribe hs hok h⟩

/-- The handshake is kept in every orderly run. -/
theorem handshakeKept_of_run {as : List (Action V)} (h : Run step Orderly .init as t) :
    HandshakeKept t := by
  have hconsistent : Consistent t :=
    h.invariant ⟨.started, inv_init⟩ fun _ _ _ hs hok hnext => consistent_step hs hok hnext
  obtain ⟨st, hs⟩ := hconsistent
  exact handshakeKept_of_inv hs

/-! ## A tool call in the handshake -/

/-- A browser asks, and a tool call goes on before the server has answered. -/
def overtaking : List (Action Unit) :=
  [.subscribe true, .tryInitialize 0, .sendInitialize 0, .subscribe false, .tryInitialize 1,
    .sendMessage 1]

/-- A tool call wins, and a browser waits for thirty seconds. -/
def losingToTool : List (Action Unit) :=
  [.subscribe false, .tryInitialize 0, .sendInitialize 0, .answer (.result ()), .receive 0,
    .sendInitialized 0, .subscribe true, .tryInitialize 1, .timeout 1]

/-- The server gets a message before it has answered, and a browser gets an error for
a result. -/
theorem handshake_fails :
    (∃ s : State Unit, Run step free .init overtaking s ∧
      s.log = [.initializeRequest 0, .message 1] ∧ ¬ HandshakeKept s) ∧
    ∃ s : State Unit, Run step free .init losingToTool s ∧
      s.answer = some (.result ()) ∧ s.replies = [.timedOut] ∧ ¬ HandshakeKept s := by
  constructor
  · obtain ⟨s, hrun, htest⟩ : ∃ s : State Unit, Run step free .init overtaking s ∧
        decide (s.log = [.initializeRequest 0, .message 1]) = true := Run.exists_of_exec _ (by decide)
    have hlog := of_decide_eq_true htest
    refine ⟨s, hrun, hlog, fun hhandshake => hhandshake.in_order ?_⟩
    rw [hlog]
    rfl
  · obtain ⟨s, hrun, htest⟩ : ∃ s : State Unit, Run step free .init losingToTool s ∧
        decide (s.answer = some (.result ()) ∧ s.replies = [.timedOut]) = true :=
      Run.exists_of_exec _ (by decide)
    obtain ⟨hanswer, hreplies⟩ := of_decide_eq_true htest
    refine ⟨s, hrun, hanswer, hreplies, fun hhandshake => ?_⟩
    obtain ⟨o, hreply, -⟩ := hhandshake.replies .timedOut (by simp [hreplies])
    simp at hreply

/-- Two browsers and a tool call: one browser loses before the answer, the other one
goes away afterwards, and then the tool call uses the session. -/
def orderly : List (Action Unit) :=
  [.subscribe true, .subscribe true, .tryInitialize 0, .tryInitialize 1, .sendInitialize 0,
    .answer (.result ()), .receive 0, .unsubscribe 0, .timeout 1, .sendInitialized 1,
    .subscribe false, .tryInitialize 2, .sendMessage 2, .sendMessage 1]

theorem handshakeKept_orderly : ∃ s : State Unit, Run step Orderly .init orderly s ∧
    s.replies = [.outcome (.result ()), .outcome (.result ())] ∧ HandshakeKept s := by
  obtain ⟨s, hrun, htest⟩ : ∃ s : State Unit, Run step Orderly .init orderly s ∧
      decide (s.replies = [.outcome (.result ()), .outcome (.result ())]) = true :=
    Run.exists_of_exec _ (by decide)
  exact ⟨s, hrun, of_decide_eq_true htest, handshakeKept_of_run hrun⟩

end Vanyline.Sandbox.Handshake
