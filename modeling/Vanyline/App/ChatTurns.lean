import Mathlib.Data.List.Infix
import Vanyline.App.Chat

/-!
# One turn after the other

`OneByOne` says that at most one turn of a conversation is in progress, that a turn has one
outcome, an answer in the table or an error to the socket that asked, that the table holds
the messages of the users each with its answer right after it, and that a turn is given
what was in the table before its own message.

The mark of a conversation is known to one replica only, an error of the stream is sent
twice, a query may fail after the answer has been written, a turn whose agent is not found
loses its message, the clock may go back, and a turn that panics has no outcome
(`turns_fail`).  `oneByOne_of_run` holds when none of this happens (`Proper`).

Exclusion on one replica needs no condition (`Marks`).
-/

namespace Vanyline.App.Chat

open Vanyline.Lib Vanyline.Cli

/-! ## The property -/

/-- The rows with a role that a turn has written. -/
def State.wrote (s : State) (t : Nat) (role : Text) : List Row :=
  s.messages.filter fun row => row.turn = some t && row.role = role

def State.questions (s : State) (t : Nat) : List Row := s.wrote t "user".toList

def State.answers (s : State) (t : Nat) : List Row := s.wrote t "assistant".toList

def isError : ChatEvent → Bool
  | .error _ _ => true
  | _ => false

/-- The errors that a turn has sent. -/
def State.errors (s : State) (t : Nat) : List Sent :=
  s.sent.filter fun e => e.turn = some t && isError e.event

/-- What was sent to a socket. -/
def State.eventsOf (s : State) (i : Nat) : List ChatEvent :=
  (s.sent.filter fun e => e.socket = i).map (·.event)

/-- The message of the user has been written. -/
def Stage.saved : Stage → Bool
  | .findAgent | .loadHistory | .insertUser => false
  | _ => true

structure OneByOne (s : State) : Prop where
  oneTurn : ∀ t u a b, s.tasks t = some a → s.tasks u = some b → a.stage.live = true →
    b.stage.live = true → a.conversation = b.conversation → t = u
  oneOutcome : ∀ t a, s.tasks t = some a → (s.answers t).length + (s.errors t).length ≤ 1
  outcome : ∀ t a answered, s.tasks t = some a → a.stage = .ended answered →
    (s.answers t).length = (if answered then 1 else 0) ∧
      (s.errors t).length = if answered then 0 else 1
  toAsker : ∀ e ∈ s.sent, ∀ t, e.turn = some t → ∃ a, s.tasks t = some a ∧ e.socket = a.socket
  delivered : ∀ i k, s.sockets i = some k → k.wire ++ k.queue <+: s.eventsOf i ∧
    (k.forwarding = true → k.wire ++ k.queue = s.eventsOf i)
  held : ∀ t a, s.tasks t = some a → a.stage.saved = true → ∃ u, s.questions t = [u] ∧
    u.conversationId = a.conversation ∧ u.payload = some ⟨"user".toList, a.content, none⟩
  answered : ∀ t a, s.tasks t = some a → a.stage = .ended true → ∃ u r, s.questions t = [u] ∧
    s.answers t = [r] ∧ ∀ rows, IsReading (rowsOf a.conversation s.messages) rows → [u, r] <:+: rows
  history : ∀ t a, s.tasks t = some a → a.stage.saved = true → ∃ u before after rows,
    s.questions t = [u] ∧ rowsOf a.conversation s.messages = before ++ u :: after ∧
      IsReading before rows ∧ a.history = toHistory rows

/-! ## The condition -/

/-- No turn of the conversation is in progress on another replica. -/
def State.aloneOn (s : State) (replica c : Nat) : Bool :=
  (List.range s.turns).all fun t => (s.tasks t).all fun task =>
    !(task.stage.live && task.conversation = c) || task.replica = replica

/-- The clock shows more than the rows of the conversation. -/
def State.isLater (s : State) (c now : Nat) : Bool :=
  (rowsOf c s.messages).all fun row => row.createdAt < now

/-- The agent is found and the message of the user is written; when the answer is written
its query does not fail, nor do those after it; and the clock has gone on. -/
def ProperStage (s : State) (task : Task) (env : Env) : Prop :=
  match task.stage with
  | .findAgent => env.dbError.isNone && env.agent.isSome
  | .loadHistory => env.dbError.isNone
  | .insertUser => (env.dbError.isNone || env.written) && s.isLater task.conversation env.now
  | .insertAnswer _ =>
    if env.dbError.isNone then s.isLater task.conversation env.now else !env.written
  | .touchAnswer | .saveTodo => env.dbError.isNone
  | _ => True

/-- A message is accepted only while no other replica has a turn of its conversation, the
queries of a turn go well as `ProperStage` says, the stream of the model does not fail, and
no turn panics. -/
def Proper (s : State) : Label → Prop
  | .receive i (some _) =>
    (s.sockets i).all (fun socket => socket.agentId.isNone ||
      socket.conversation ∈ s.busy socket.replica || s.aloneOn socket.replica socket.conversation)
  | .advance t env =>
    match s.tasks t with
    | some task => ProperStage s task env
    | none => True
  | .settle _ (.streamFailed _) => False
  | .panic _ => False
  | _ => True

/-! ## The invariants -/

/-- A turn in progress has the mark of its conversation on its replica. -/
structure Marks (s : State) : Prop where
  turns : ∀ t a, s.tasks t = some a → t < s.turns
  marked : ∀ t a, s.tasks t = some a → a.stage.live = true → a.conversation ∈ s.busy a.replica
  unique : ∀ t u a b, s.tasks t = some a → s.tasks u = some b → a.stage.live = true →
    b.stage.live = true → a.conversation = b.conversation → a.replica = b.replica → t = u

/-- The turns in progress of a conversation are on one replica. -/
def Together (s : State) : Prop :=
  ∀ t u a b, s.tasks t = some a → s.tasks u = some b → a.stage.live = true →
    b.stage.live = true → a.conversation = b.conversation → a.replica = b.replica

/-- Where the events and rows come from. -/
structure Sources (s : State) : Prop where
  fresh : ∀ i k, s.sockets i = some k → i < s.connections
  asker : ∀ t a, s.tasks t = some a → a.socket < s.connections
  receiver : ∀ e ∈ s.sent, e.socket < s.connections
  sender : ∀ e ∈ s.sent, ∀ t, e.turn = some t → ∃ a, s.tasks t = some a ∧ e.socket = a.socket
  delivered : ∀ i k, s.sockets i = some k → k.wire ++ k.queue <+: s.eventsOf i ∧
    (k.forwarding = true → k.wire ++ k.queue = s.eventsOf i)
  known : ∀ i k, s.sockets i = some k → (s.conversations k.conversation).isSome = true
  knownTask : ∀ t a, s.tasks t = some a → (s.conversations a.conversation).isSome = true
  writer : ∀ row ∈ s.messages, ∀ t, row.turn = some t → ∃ a, s.tasks t = some a ∧
    row.conversationId = a.conversation ∧
      (row.role = "user".toList → row.payload = some ⟨"user".toList, a.content, none⟩)
  later : s.messages.Pairwise fun a b => a.conversationId = b.conversationId →
    a.turn ≠ none ∨ b.turn ≠ none → a.createdAt < b.createdAt

/-- The turn goes on to its answer, and its question is the last row. -/
def Stage.asking : Stage → Bool
  | .touchUser | .readTodo | .resolveTools | .running | .closing _ | .returned _
  | .insertAnswer _ => true
  | _ => false

/-- The answer has been written. -/
def Stage.answered : Stage → Bool
  | .touchAnswer | .saveTodo | .succeeded | .ended true => true
  | _ => false

/-- The error has been sent. -/
def Stage.told : Stage → Bool
  | .reported | .ended false => true
  | _ => false

/-- What a turn has written and sent, and what it was given. -/
structure Told (s : State) (t : Nat) (a : Task) : Prop where
  unsaved : a.stage.saved = false → s.questions t = []
  question : a.stage.saved = true → ∃ u before after rows, s.questions t = [u] ∧
    rowsOf a.conversation s.messages = before ++ u :: after ∧ IsReading before rows ∧
      a.history = toHistory rows
  read : a.stage = .insertUser → ∃ rows, IsReading (rowsOf a.conversation s.messages) rows ∧
    a.history = toHistory rows
  asking : a.stage.asking = true → ∃ u before, s.questions t = [u] ∧
    rowsOf a.conversation s.messages = before ++ [u]
  unanswered : a.stage.answered = false → s.answers t = []
  answered : a.stage.answered = true → ∃ u r before after, s.questions t = [u] ∧
    s.answers t = [r] ∧ rowsOf a.conversation s.messages = before ++ u :: r :: after
  errors : (s.errors t).length = if a.stage.told then 1 else 0

structure Inv (s : State) : Prop extends Marks s, Sources s where
  together : Together s
  told : ∀ t a, s.tasks t = some a → Told s t a

variable {s : State}

theorem inv_init (store : Store) : Inv (State.init store) where
  turns := by simp [State.init]
  marked := by simp [State.init]
  unique := by simp [State.init]
  fresh := by simp [State.init]
  asker := by simp [State.init]
  receiver := by simp [State.init]
  sender := by simp [State.init]
  delivered := by simp [State.init]
  known := by simp [State.init]
  knownTask := by simp [State.init]
  writer := by
    intro row hrow t ht
    rw [store.older row hrow] at ht
    cases ht
  later := by
    refine List.pairwise_of_forall_mem_list fun a ha b hb _ hnew => ?_
    rcases hnew with hnew | hnew
    · exact absurd (store.older a ha) hnew
    · exact absurd (store.older b hb) hnew
  together := by simp [Together, State.init]
  told := by simp [State.init]

theorem Inv.oneTurn (hs : Inv s) {t u : Nat} {a b : Task} (ha : s.tasks t = some a)
    (hb : s.tasks u = some b) (halive : a.stage.live = true) (hblive : b.stage.live = true)
    (hconv : a.conversation = b.conversation) : t = u :=
  hs.unique t u a b ha hb halive hblive hconv (hs.together t u a b ha hb halive hblive hconv)

/-! ## Rows -/

/-- The tables with one row more. -/
def State.insert (s : State) (row : Row) : State :=
  { s with messages := s.messages ++ [row], nextId := s.nextId + 1 }

theorem wrote_insert (row : Row) (t : Nat) (role : Text) : (s.insert row).wrote t role =
    s.wrote t role ++ if row.turn = some t ∧ row.role = role then [row] else [] := by
  simp only [State.wrote, State.insert, List.filter_append]
  by_cases h : row.turn = some t ∧ row.role = role
  · rw [if_pos h]
    simp [h.1, h.2]
  · rw [if_neg h]
    simpa using h

theorem rowsOf_append (c : Nat) (messages : List Row) (row : Row) : rowsOf c (messages ++ [row]) =
    rowsOf c messages ++ if row.conversationId = c then [row] else [] := by
  simp only [rowsOf, List.filter_append]
  split_ifs with h
  · simp [h]
  · simp [h]

/-- Another turn writes a row; one of the same conversation neither reads nor waits for
its answer then. -/
theorem Told.insert {u : Nat} {b : Task} (h : Told s u b) {row : Row} (hrow : row.turn ≠ some u)
    (hfree : row.conversationId = b.conversation →
      b.stage ≠ .insertUser ∧ b.stage.asking = false) : Told (s.insert row) u b := by
  have hwrote : ∀ role, (s.insert row).wrote u role = s.wrote u role := by
    intro role
    rw [wrote_insert, if_neg (fun h => hrow h.1), List.append_nil]
  have hquestions : (s.insert row).questions u = s.questions u := hwrote _
  have hanswers : (s.insert row).answers u = s.answers u := hwrote _
  have hrows : ∃ rest, rowsOf b.conversation (s.insert row).messages =
      rowsOf b.conversation s.messages ++ rest ∧ (rest ≠ [] → row.conversationId = b.conversation) := by
    refine ⟨_, rowsOf_append b.conversation s.messages row, ?_⟩
    intro hne
    by_contra hconv
    exact hne (if_neg hconv)
  obtain ⟨rest, hrest, hsame⟩ := hrows
  have hempty : b.stage = .insertUser ∨ b.stage.asking = true → rest = [] := by
    intro hbusy
    by_contra hne
    obtain ⟨hread, hasking⟩ := hfree (hsame hne)
    rcases hbusy with hbusy | hbusy
    · exact hread hbusy
    · rw [hasking] at hbusy
      cases hbusy
  exact
    { unsaved := by
        rw [hquestions]
        exact h.unsaved
      question := by
        intro hsaved
        obtain ⟨v, before, after, rows, hv, htable, hreading, hhistory⟩ := h.question hsaved
        refine ⟨v, before, after ++ rest, rows, hquestions.trans hv, ?_, hreading, hhistory⟩
        rw [hrest, htable, List.append_assoc, List.cons_append]
      read := by
        intro hread
        rw [hrest, hempty (.inl hread), List.append_nil]
        exact h.read hread
      asking := by
        intro hasking
        rw [hrest, hempty (.inr hasking), List.append_nil, hquestions]
        exact h.asking hasking
      unanswered := by
        rw [hanswers]
        exact h.unanswered
      answered := by
        intro hanswered
        obtain ⟨v, r, before, after, hv, hr, htable⟩ := h.answered hanswered
        refine ⟨v, r, before, after ++ rest, hquestions.trans hv, hanswers.trans hr, ?_⟩
        rw [hrest, htable, List.append_assoc, List.cons_append, List.cons_append]
      errors := h.errors }

/-- A row is written by a turn, later than the others of its conversation. -/
theorem Sources.insert (hs : Sources s) {t : Nat} {a : Task} (ht : s.tasks t = some a) {row : Row}
    (hturn : row.turn = some t) (hconv : row.conversationId = a.conversation)
    (hpayload : row.role = "user".toList → row.payload = some ⟨"user".toList, a.content, none⟩)
    (hlater : s.isLater a.conversation row.createdAt = true) : Sources (s.insert row) :=
  { hs with
    writer := by
      intro row' hrow' u hu
      rcases List.mem_append.1 hrow' with hold | hnew
      · exact hs.writer row' hold u hu
      · rw [List.mem_singleton.1 hnew] at hu ⊢
        rw [hturn, Option.some.injEq] at hu
        exact ⟨a, hu ▸ ht, hconv, hpayload⟩
    later := by
      show (s.messages ++ [row]).Pairwise _
      rw [List.pairwise_append]
      refine ⟨hs.later, List.pairwise_singleton .., ?_⟩
      intro x hx y hy hsame _
      rw [List.mem_singleton.1 hy] at hsame ⊢
      have hmem : x ∈ rowsOf a.conversation s.messages := by
        simp only [rowsOf, List.mem_filter, decide_eq_true_eq]
        exact ⟨hx, hsame.trans hconv⟩
      simpa using List.all_eq_true.1 hlater x hmem }

/-! ## Events -/

theorem eventsOf_send (i j : Nat) (turn : Option Nat) (event : ChatEvent) :
    (s.send i turn event).eventsOf j = s.eventsOf j ++ if i = j then [event] else [] := by
  simp only [State.eventsOf, State.send, List.filter_append, List.map_append]
  split_ifs with h
  · simp [h]
  · simp [h]

theorem errors_send (i t : Nat) (turn : Option Nat) (event : ChatEvent) :
    (s.send i turn event).errors t = s.errors t ++
      if turn = some t ∧ isError event = true then [⟨i, turn, event⟩] else [] := by
  simp only [State.errors, State.send, List.filter_append]
  by_cases h : turn = some t ∧ isError event = true
  · rw [if_pos h]
    simp [h.1, h.2]
  · rw [if_neg h]
    simpa using h

theorem Sources.send (hs : Sources s) {i : Nat} (hi : i < s.connections) {turn : Option Nat}
    (hturn : ∀ t, turn = some t → ∃ a, s.tasks t = some a ∧ i = a.socket) (event : ChatEvent) :
    Sources (s.send i turn event) := by
  have hsocket : ∀ j k, (s.send i turn event).sockets j = some k → ∃ k', s.sockets j = some k' ∧
      k.conversation = k'.conversation ∧ k.wire = k'.wire ∧ k.forwarding = k'.forwarding ∧
      k.queue = k'.queue ++ if i = j ∧ k'.forwarding = true then [event] else [] := by
    intro j k hk
    simp only [State.send, Function.update_apply] at hk
    split_ifs at hk with hj
    · subst hj
      obtain ⟨k', hk', hmap⟩ := Option.map_eq_some_iff.1 hk
      refine ⟨k', hk', ?_⟩
      split_ifs at hmap with hforwarding
      · rw [← hmap, if_pos ⟨rfl, hforwarding⟩]
        exact ⟨rfl, rfl, rfl, rfl⟩
      · rw [← hmap, if_neg (fun h => hforwarding h.2), List.append_nil]
        exact ⟨rfl, rfl, rfl, rfl⟩
    · refine ⟨k, hk, rfl, rfl, rfl, ?_⟩
      rw [if_neg (fun h => hj h.1.symm), List.append_nil]
  exact
    { hs with
      fresh := by
        intro j k hk
        obtain ⟨k', hk', -⟩ := hsocket j k hk
        exact hs.fresh j k' hk'
      receiver := by
        intro e he
        rcases List.mem_append.1 he with hold | hnew
        · exact hs.receiver e hold
        · rw [List.mem_singleton.1 hnew]
          exact hi
      sender := by
        intro e he t ht
        rcases List.mem_append.1 he with hold | hnew
        · exact hs.sender e hold t ht
        · rw [List.mem_singleton.1 hnew] at ht ⊢
          exact hturn t ht
      delivered := by
        intro j k hk
        obtain ⟨k', hk', -, hwire, hforwarding, hqueue⟩ := hsocket j k hk
        obtain ⟨hbegins, hall⟩ := hs.delivered j k' hk'
        rw [hwire, hforwarding, hqueue, eventsOf_send, ← List.append_assoc]
        by_cases hon : k'.forwarding = true
        · have hsame : ∀ x : List ChatEvent,
              (if i = j ∧ k'.forwarding = true then x else []) = if i = j then x else [] := by
            intro x
            simp [hon]
          rw [hall hon, hsame]
          exact ⟨List.prefix_rfl, fun _ => rfl⟩
        · rw [if_neg (fun h => hon h.2), List.append_nil]
          exact ⟨hbegins.trans (List.prefix_append ..), fun h => absurd h hon⟩
      known := by
        intro j k hk
        obtain ⟨k', hk', hconv, -⟩ := hsocket j k hk
        rw [hconv]
        exact hs.known j k' hk' }

theorem Told.send {t : Nat} {a : Task} (h : Told s t a) {i : Nat} {turn : Option Nat}
    {event : ChatEvent} (hquiet : turn ≠ some t ∨ isError event = false) :
    Told (s.send i turn event) t a := by
  have herrors : (s.send i turn event).errors t = s.errors t := by
    rw [errors_send, if_neg, List.append_nil]
    rintro ⟨hturn, herror⟩
    rcases hquiet with hquiet | hquiet
    · exact hquiet hturn
    · rw [hquiet] at herror
      cases herror
  exact
    { unsaved := h.unsaved
      question := h.question
      read := h.read
      asking := h.asking
      unanswered := h.unanswered
      answered := h.answered
      errors := by
        rw [herrors]
        exact h.errors }

theorem Marks.send (hs : Marks s) (i : Nat) (turn : Option Nat) (event : ChatEvent) :
    Marks (s.send i turn event) := { hs with }

/-- An event is sent that is not an error of a turn. -/
theorem Inv.send (hs : Inv s) {i : Nat} (hi : i < s.connections) {turn : Option Nat}
    (hturn : ∀ t, turn = some t → ∃ a, s.tasks t = some a ∧ i = a.socket) {event : ChatEvent}
    (hquiet : turn = none ∨ isError event = false) : Inv (s.send i turn event) := by
  have hmarks : Marks (s.send i turn event) := hs.toMarks.send i turn event
  have hsources : Sources (s.send i turn event) := hs.toSources.send hi hturn event
  exact
    { hmarks, hsources with
      together := hs.together
      told := by
        intro t a ht
        refine (hs.told t a ht).send ?_
        rcases hquiet with rfl | hquiet
        · exact .inl nofun
        · exact .inr hquiet }

/-! ## Tasks -/

/-- The history has been read, and the message of the user not been written. -/
def Stage.reading : Stage → Bool
  | .insertUser => true
  | _ => false

/-- A stage may follow another one when no row and no error is written in between. -/
def Stage.goesTo (a b : Stage) : Bool :=
  a.saved == b.saved && a.answered == b.answered && a.told == b.told && (!b.asking || a.asking) &&
    (!b.live || a.live) && !b.reading

/-- The fields of a task that stay. -/
structure Task.Same (a a' : Task) : Prop where
  socket : a'.socket = a.socket
  replica : a'.replica = a.replica
  conversation : a'.conversation = a.conversation
  content : a'.content = a.content

theorem Told.goTo {t : Nat} {a : Task} (h : Told s t a) {a' : Task}
    (hconv : a'.conversation = a.conversation)
    (hhistory : a.stage.saved = true → a'.history = a.history)
    (hgo : a.stage.goesTo a'.stage = true) : Told s t a' := by
  simp only [Stage.goesTo, Bool.and_eq_true, beq_iff_eq, Bool.or_eq_true, Bool.not_eq_true'] at hgo
  obtain ⟨⟨⟨⟨⟨hsaved, hanswered⟩, htold⟩, hasking⟩, -⟩, hreading⟩ := hgo
  exact
    { unsaved := by
        rw [← hsaved]
        exact h.unsaved
      question := by
        rw [← hsaved, hconv]
        intro hs
        rw [hhistory hs]
        exact h.question hs
      read := by
        intro hread
        rw [hread] at hreading
        cases hreading
      asking := by
        intro hask
        rw [hconv]
        refine h.asking ?_
        rcases hasking with hno | hyes
        · rw [hask] at hno
          cases hno
        · exact hyes
      unanswered := by
        rw [← hanswered]
        exact h.unanswered
      answered := by
        rw [← hanswered, hconv]
        exact h.answered
      errors := by
        rw [← htold]
        exact h.errors }

/-- Only the rows and the events matter. -/
theorem Told.congr {t : Nat} {a : Task} (h : Told s t a) {s' : State}
    (hmessages : s'.messages = s.messages) (hsent : s'.sent = s.sent) : Told s' t a := by
  have hquestions : s'.questions t = s.questions t := by
    simp only [State.questions, State.wrote, hmessages]
  have hanswers : s'.answers t = s.answers t := by
    simp only [State.answers, State.wrote, hmessages]
  have herrors : s'.errors t = s.errors t := by simp only [State.errors, hsent]
  constructor
  · rw [hquestions]
    exact h.unsaved
  · rw [hquestions, hmessages]
    exact h.question
  · rw [hmessages]
    exact h.read
  · rw [hquestions, hmessages]
    exact h.asking
  · rw [hanswers]
    exact h.unanswered
  · rw [hquestions, hanswers, hmessages]
    exact h.answered
  · rw [herrors]
    exact h.errors

theorem tasks_setTask {t u : Nat} {a' b : Task} (hb : (s.setTask t a').tasks u = some b) :
    (u = t ∧ b = a') ∨ (u ≠ t ∧ s.tasks u = some b) := by
  simp only [State.setTask, Function.update_apply] at hb
  split_ifs at hb with hu
  · exact .inl ⟨hu, (Option.some.inj hb).symm⟩
  · exact .inr ⟨hu, hb⟩

theorem Marks.setTask (hs : Marks s) {t : Nat} {a a' : Task} (ht : s.tasks t = some a)
    (hsame : a.Same a') (hlive : a'.stage.live = true → a.stage.live = true) :
    Marks (s.setTask t a') := by
  have hold : ∀ u b, (s.setTask t a').tasks u = some b → ∃ b', s.tasks u = some b' ∧
      b.replica = b'.replica ∧ b.conversation = b'.conversation ∧
        (b.stage.live = true → b'.stage.live = true) := by
    intro u b hb
    rcases tasks_setTask hb with ⟨rfl, rfl⟩ | ⟨-, hb⟩
    · exact ⟨a, ht, hsame.replica, hsame.conversation, hlive⟩
    · exact ⟨b, hb, rfl, rfl, id⟩
  exact
    { turns := by
        intro u b hb
        obtain ⟨b', hb', -⟩ := hold u b hb
        exact hs.turns u b' hb'
      marked := by
        intro u b hb hblive
        obtain ⟨b', hb', hreplica, hconv, hlive'⟩ := hold u b hb
        rw [hreplica, hconv]
        exact hs.marked u b' hb' (hlive' hblive)
      unique := by
        intro u v b c hb hc hblive hclive hconv hreplica
        obtain ⟨b', hb', hbreplica, hbconv, hblive'⟩ := hold u b hb
        obtain ⟨c', hc', hcreplica, hcconv, hclive'⟩ := hold v c hc
        rw [hbconv, hcconv] at hconv
        rw [hbreplica, hcreplica] at hreplica
        exact hs.unique u v b' c' hb' hc' (hblive' hblive) (hclive' hclive) hconv hreplica }

theorem Sources.setTask (hs : Sources s) {t : Nat} {a a' : Task} (ht : s.tasks t = some a)
    (hsame : a.Same a') : Sources (s.setTask t a') := by
  have hnew : ∀ u b, s.tasks u = some b → ∃ b', (s.setTask t a').tasks u = some b' ∧
      b'.socket = b.socket ∧ b'.conversation = b.conversation ∧ b'.content = b.content := by
    intro u b hb
    by_cases hu : u = t
    · subst hu
      rw [ht, Option.some.injEq] at hb
      subst hb
      exact ⟨a', by simp [State.setTask], hsame.socket, hsame.conversation, hsame.content⟩
    · exact ⟨b, by simp [State.setTask, hu, hb], rfl, rfl, rfl⟩
  exact
    { hs with
      asker := by
        intro u b hb
        rcases tasks_setTask hb with ⟨rfl, rfl⟩ | ⟨-, hb⟩
        · rw [hsame.socket]
          exact hs.asker u a ht
        · exact hs.asker u b hb
      sender := by
        intro e he u hu
        obtain ⟨b, hb, hsocket⟩ := hs.sender e he u hu
        obtain ⟨b', hb', hsocket', -⟩ := hnew u b hb
        exact ⟨b', hb', hsocket.trans hsocket'.symm⟩
      knownTask := by
        intro u b hb
        rcases tasks_setTask hb with ⟨rfl, rfl⟩ | ⟨-, hb⟩
        · rw [hsame.conversation]
          exact hs.knownTask u a ht
        · exact hs.knownTask u b hb
      writer := by
        intro row hrow u hu
        obtain ⟨b, hb, hconv, hpayload⟩ := hs.writer row hrow u hu
        obtain ⟨b', hb', -, hconv', hcontent⟩ := hnew u b hb
        rw [← hconv'] at hconv
        rw [← hcontent] at hpayload
        exact ⟨b', hb', hconv, hpayload⟩ }

theorem Together.setTask (hs : Together s) {t : Nat} {a a' : Task} (ht : s.tasks t = some a)
    (hsame : a.Same a') (hlive : a'.stage.live = true → a.stage.live = true) :
    Together (s.setTask t a') := by
  intro u v b c hb hc hblive hclive hconv
  have hold : ∀ u b, (s.setTask t a').tasks u = some b → b.stage.live = true → ∃ b',
      s.tasks u = some b' ∧ b'.stage.live = true ∧ b'.replica = b.replica ∧
        b'.conversation = b.conversation := by
    intro u b hb hblive
    rcases tasks_setTask hb with ⟨rfl, rfl⟩ | ⟨-, hb⟩
    · exact ⟨a, ht, hlive hblive, hsame.replica.symm, hsame.conversation.symm⟩
    · exact ⟨b, hb, hblive, rfl, rfl⟩
  obtain ⟨b', hb', hblive', hbreplica, hbconv⟩ := hold u b hb hblive
  obtain ⟨c', hc', hclive', hcreplica, hcconv⟩ := hold v c hc hclive
  rw [← hbreplica, ← hcreplica]
  exact hs u v b' c' hb' hc' hblive' hclive' (hbconv.trans (hconv.trans hcconv.symm))

/-- A turn goes on. -/
theorem Inv.setTask (hs : Inv s) {t : Nat} {a a' : Task} (ht : s.tasks t = some a)
    (hsame : a.Same a') (hlive : a'.stage.live = true → a.stage.live = true)
    (htold : Told s t a') : Inv (s.setTask t a') := by
  have hmarks : Marks (s.setTask t a') := hs.toMarks.setTask ht hsame hlive
  have hsources : Sources (s.setTask t a') := hs.toSources.setTask ht hsame
  exact
    { hmarks, hsources with
      together := hs.together.setTask ht hsame hlive
      told := by
        intro u b hb
        rcases tasks_setTask hb with ⟨rfl, rfl⟩ | ⟨-, hb⟩
        · exact htold.congr rfl rfl
        · exact (hs.told u b hb).congr rfl rfl }

theorem live_of_goesTo {a b : Stage} (hgo : a.goesTo b = true) (hlive : b.live = true) :
    a.live = true := by
  simp only [Stage.goesTo, Bool.and_eq_true, Bool.or_eq_true, Bool.not_eq_true'] at hgo
  rcases hgo.1.2 with hno | hyes
  · rw [hlive] at hno
    cases hno
  · exact hyes

theorem Inv.goTo (hs : Inv s) {t : Nat} {a : Task} (ht : s.tasks t = some a) {stage : Stage}
    (hgo : a.stage.goesTo stage = true) : Inv (s.goTo t a stage) :=
  hs.setTask ht ⟨rfl, rfl, rfl, rfl⟩ (live_of_goesTo hgo) ((hs.told t a ht).goTo rfl (fun _ => rfl) hgo)

/-- The history is read. -/
theorem Told.load {t : Nat} {a : Task} (h : Told s t a) (hstage : a.stage = .loadHistory)
    {rows : List Row} (hrows : IsReading (rowsOf a.conversation s.messages) rows) :
    Told s t { a with history := toHistory rows, stage := .insertUser } where
  unsaved := by
    intro _
    exact h.unsaved (by rw [hstage]; rfl)
  question := nofun
  read := fun _ => ⟨rows, hrows, rfl⟩
  asking := nofun
  unanswered := by
    intro _
    exact h.unanswered (by rw [hstage]; rfl)
  answered := nofun
  errors := by
    rw [h.errors, hstage]
    rfl

/-- The message of the user is written. -/
theorem Told.ask {t : Nat} {a : Task} (h : Told s t a) (hstage : a.stage = .insertUser) {row : Row}
    (hturn : row.turn = some t) (hconv : row.conversationId = a.conversation)
    (hrole : row.role = "user".toList) {stage : Stage} (hsaved : stage.saved = true)
    (hanswered : stage.answered = false) (htold : stage.told = false) :
    Told (s.insert row) t { a with stage } := by
  have hquestions : (s.insert row).questions t = [row] := by
    have hnone : s.wrote t "user".toList = [] := h.unsaved (by rw [hstage]; rfl)
    show (s.insert row).wrote t _ = _
    rw [wrote_insert, hnone, if_pos ⟨hturn, hrole⟩]
    rfl
  have htable : rowsOf a.conversation (s.insert row).messages =
      rowsOf a.conversation s.messages ++ [row] := by
    show rowsOf _ (s.messages ++ [row]) = _
    rw [rowsOf_append, if_pos hconv]
  obtain ⟨rows, hreading, hhistory⟩ := h.read hstage
  exact
    { unsaved := by
        intro hno
        rw [hsaved] at hno
        cases hno
      question := fun _ => ⟨row, _, [], rows, hquestions, htable, hreading, hhistory⟩
      read := by
        rintro rfl
        cases hsaved
      asking := fun _ => ⟨row, _, hquestions, htable⟩
      unanswered := by
        intro _
        show (s.insert row).wrote t _ = _
        rw [wrote_insert, if_neg, List.append_nil]
        · exact h.unanswered (by rw [hstage]; rfl)
        · rw [hrole]
          rintro ⟨-, hne⟩
          exact absurd hne (by decide)
      answered := by
        intro hyes
        rw [hanswered] at hyes
        cases hyes
      errors := by
        show (s.errors t).length = _
        rw [h.errors, hstage, htold]
        rfl }

/-- The answer is written, right after the question. -/
theorem Told.answer {t : Nat} {a : Task} (h : Told s t a) {result : ChatTurnResult}
    (hstage : a.stage = .insertAnswer result) {row : Row} (hturn : row.turn = some t)
    (hconv : row.conversationId = a.conversation) (hrole : row.role = "assistant".toList) :
    Told (s.insert row) t { a with stage := .touchAnswer } := by
  have hquestions : (s.insert row).questions t = s.questions t := by
    show (s.insert row).wrote t _ = s.wrote t _
    rw [wrote_insert, if_neg, List.append_nil]
    rw [hrole]
    rintro ⟨-, hne⟩
    exact absurd hne (by decide)
  have hanswers : (s.insert row).answers t = [row] := by
    have hnone : s.wrote t "assistant".toList = [] := h.unanswered (by rw [hstage]; rfl)
    show (s.insert row).wrote t _ = _
    rw [wrote_insert, hnone, if_pos ⟨hturn, hrole⟩]
    rfl
  have htable : rowsOf a.conversation (s.insert row).messages =
      rowsOf a.conversation s.messages ++ [row] := by
    show rowsOf _ (s.messages ++ [row]) = _
    rw [rowsOf_append, if_pos hconv]
  exact
    { unsaved := nofun
      question := by
        intro _
        obtain ⟨u, before, after, rows, hu, hrows, hreading, hhistory⟩ :=
          h.question (by rw [hstage]; rfl)
        refine ⟨u, before, after ++ [row], rows, hquestions.trans hu, ?_, hreading, hhistory⟩
        rw [htable, hrows, List.append_assoc, List.cons_append]
      read := nofun
      asking := nofun
      unanswered := nofun
      answered := by
        intro _
        obtain ⟨u, before, hu, hrows⟩ := h.asking (by rw [hstage]; rfl)
        refine ⟨u, row, before, [], hquestions.trans hu, hanswers, ?_⟩
        rw [htable, hrows, List.append_assoc]
        rfl
      errors := by
        show (s.errors t).length = _
        rw [h.errors, hstage]
        rfl }

/-- A turn in progress writes a row; no other turn of the conversation is in progress. -/
theorem Inv.insert (hs : Inv s) {t : Nat} {a : Task} (ht : s.tasks t = some a)
    (hlive : a.stage.live = true) {row : Row} (hturn : row.turn = some t)
    (hconv : row.conversationId = a.conversation)
    (hpayload : row.role = "user".toList → row.payload = some ⟨"user".toList, a.content, none⟩)
    (hlater : s.isLater a.conversation row.createdAt = true) {stage : Stage}
    (htold : Told (s.insert row) t { a with stage }) : Inv ((s.insert row).goTo t a stage) := by
  have hsame : a.Same { a with stage } := ⟨rfl, rfl, rfl, rfl⟩
  have hmarks : Marks (s.insert row) := { hs.toMarks with }
  have hmarks' : Marks ((s.insert row).goTo t a stage) := hmarks.setTask ht hsame (fun _ => hlive)
  have hsources : Sources ((s.insert row).goTo t a stage) :=
    (hs.toSources.insert ht hturn hconv hpayload hlater).setTask ht hsame
  have htogether : Together (s.insert row) := hs.together
  exact
    { hmarks', hsources with
      together := htogether.setTask ht hsame (fun _ => hlive)
      told := by
        intro u b hb
        rcases tasks_setTask hb with ⟨rfl, rfl⟩ | ⟨hu, hb⟩
        · exact htold.congr rfl rfl
        · have hother : Told (s.insert row) u b := by
            refine (hs.told u b hb).insert ?_ ?_
            · rw [hturn]
              intro h
              exact hu (Option.some.inj h).symm
            · intro hsameConv
              have hended : b.stage.live = false := by
                by_contra hblive
                rw [Bool.not_eq_false] at hblive
                exact hu (hs.oneTurn hb ht hblive hlive (hsameConv.symm.trans hconv))
              cases hb : b.stage with
              | ended _ => exact ⟨nofun, rfl⟩
              | _ =>
                  rw [hb] at hended
                  cases hended
          exact hother.congr rfl rfl }

/-- The error of a turn is sent to the socket that asked. -/
theorem Inv.report (hs : Inv s) {t : Nat} {a : Task} (ht : s.tasks t = some a) {e : AppError}
    (hstage : a.stage = .failed e) (code : String) (message : Text) :
    Inv ((s.send a.socket (some t) (errorEvent code message)).goTo t a .reported) := by
  have hsame : a.Same { a with stage := .reported } := ⟨rfl, rfl, rfl, rfl⟩
  have hlive : a.stage.live = true := by rw [hstage]; rfl
  let sent := s.send a.socket (some t) (errorEvent code message)
  have hmarks : Marks sent := hs.toMarks.send _ _ _
  have hmarks' : Marks (sent.goTo t a .reported) := hmarks.setTask ht hsame (fun _ => hlive)
  have hsources : Sources sent := by
    refine hs.toSources.send (hs.asker t a ht) ?_ _
    intro u hu
    cases hu
    exact ⟨a, ht, rfl⟩
  have hsources' : Sources (sent.goTo t a .reported) := hsources.setTask ht hsame
  have htogether : Together sent := hs.together
  exact
    { hmarks', hsources' with
      together := htogether.setTask ht hsame (fun _ => hlive)
      told := by
        intro u b hb
        rcases tasks_setTask hb with ⟨rfl, rfl⟩ | ⟨hu, hb⟩
        · have h := hs.told u a ht
          exact
            { unsaved := nofun
              question := fun _ => h.question (by rw [hstage]; rfl)
              read := nofun
              asking := nofun
              unanswered := fun _ => h.unanswered (by rw [hstage]; rfl)
              answered := nofun
              errors := by
                show (sent.errors u).length = _
                rw [errors_send, if_pos ⟨rfl, rfl⟩, List.length_append, h.errors, hstage]
                rfl }
        · have hother : Told sent u b := by
            refine (hs.told u b hb).send (.inl ?_)
            intro h
            exact hu (Option.some.inj h).symm
          exact hother.congr rfl rfl }

/-- The mark is released at the end. -/
theorem Inv.release (hs : Inv s) {t : Nat} {a : Task} (ht : s.tasks t = some a)
    {answered : Bool} (hgo : a.stage.goesTo (.ended answered) = true)
    (hlive : a.stage.live = true) : Inv (s.release t a answered) := by
  have hgone : Inv (s.goTo t a (.ended answered)) := hs.goTo ht hgo
  have hmarked : ∀ u b, (s.release t a answered).tasks u = some b → b.stage.live = true →
      b.conversation ∈ (s.release t a answered).busy b.replica := by
    intro u b hb hblive
    rcases tasks_setTask hb with ⟨rfl, rfl⟩ | ⟨hu, hb⟩
    · cases hblive
    · have hmem := hs.marked u b hb hblive
      simp only [State.release, Function.update_apply]
      split_ifs with hreplica
      · rw [Finset.mem_erase]
        rw [hreplica] at hmem
        refine ⟨?_, hmem⟩
        intro hconv
        exact hu (hs.unique u t b a hb ht hblive hlive hconv hreplica)
      · exact hmem
  have hmarks : Marks (s.release t a answered) := { hgone.toMarks with marked := hmarked }
  have hsources : Sources (s.release t a answered) := { hgone.toSources with }
  exact
    { hmarks, hsources with
      together := hgone.together
      told := fun u b hb => (hgone.told u b hb).congr rfl rfl }

/-! ## Sockets -/

theorem Inv.setConversation (hs : Inv s) (c : Nat) (conv : Conversation) :
    Inv { s with conversations := Function.update s.conversations c (some conv) } := by
  have hsome : ∀ c', (s.conversations c').isSome = true →
      (Function.update s.conversations c (some conv) c').isSome = true := by
    intro c' h
    rw [Function.update_apply]
    split_ifs
    · rfl
    · exact h
  exact
    { hs with
      known := fun i k hk => hsome _ (hs.known i k hk)
      knownTask := fun t a ht => hsome _ (hs.knownTask t a ht)
      told := fun t a ht => (hs.told t a ht).congr rfl rfl }

/-- A socket reads or writes. -/
theorem Inv.setSocket (hs : Inv s) {i : Nat} {k k' : Socket} (hk : s.sockets i = some k)
    (hconv : k'.conversation = k.conversation)
    (hdelivered : k'.wire ++ k'.queue <+: s.eventsOf i ∧
      (k'.forwarding = true → k'.wire ++ k'.queue = s.eventsOf i)) : Inv (s.setSocket i k') := by
  have hcases : ∀ j m, (s.setSocket i k').sockets j = some m → (j = i ∧ m = k') ∨
      s.sockets j = some m := by
    intro j m hm
    simp only [State.setSocket, Function.update_apply] at hm
    split_ifs at hm with hj
    · exact .inl ⟨hj, (Option.some.inj hm).symm⟩
    · exact .inr hm
  exact
    { hs with
      fresh := by
        intro j m hm
        rcases hcases j m hm with ⟨rfl, -⟩ | hm
        · exact hs.fresh j k hk
        · exact hs.fresh j m hm
      delivered := by
        intro j m hm
        rcases hcases j m hm with ⟨rfl, rfl⟩ | hm
        · exact hdelivered
        · exact hs.delivered j m hm
      known := by
        intro j m hm
        rcases hcases j m hm with ⟨rfl, rfl⟩ | hm
        · rw [hconv]
          exact hs.known j k hk
        · exact hs.known j m hm
      told := fun t a ht => (hs.told t a ht).congr rfl rfl }

theorem inv_connect (hs : Inv s) (replica c user : Nat) : Inv (s.connect replica c user) := by
  unfold State.connect
  split
  · next conv hc =>
    split_ifs
    · have hcases : ∀ (k : Socket) j m,
          Function.update s.sockets s.connections (some k) j = some m →
            (j = s.connections ∧ m = k) ∨ s.sockets j = some m := by
        intro k j m hm
        rw [Function.update_apply] at hm
        split_ifs at hm with hj
        · exact .inl ⟨hj, (Option.some.inj hm).symm⟩
        · exact .inr hm
      have hempty : s.eventsOf s.connections = [] := by
        simp only [State.eventsOf, List.map_eq_nil_iff, List.filter_eq_nil_iff, decide_eq_true_eq]
        intro e he hsocket
        have hlt := hs.receiver e he
        omega
      exact
        { hs with
          fresh := by
            intro j m hm
            rcases hcases _ j m hm with ⟨rfl, -⟩ | hm
            · exact Nat.lt_succ_self _
            · exact Nat.lt_succ_of_lt (hs.fresh j m hm)
          asker := fun t a ht => Nat.lt_succ_of_lt (hs.asker t a ht)
          receiver := fun e he => Nat.lt_succ_of_lt (hs.receiver e he)
          delivered := by
            intro j m hm
            rcases hcases _ j m hm with ⟨rfl, rfl⟩ | hm
            · exact ⟨List.nil_prefix, fun _ => hempty.symm⟩
            · exact hs.delivered j m hm
          known := by
            intro j m hm
            rcases hcases _ j m hm with ⟨rfl, rfl⟩ | hm
            · show (s.conversations c).isSome = true
              rw [hc]
              rfl
            · exact hs.known j m hm
          told := fun t a ht => (hs.told t a ht).congr rfl rfl }
    · exact hs
  · exact hs

/-- A message is accepted while no other replica has a turn of its conversation. -/
theorem inv_receive (hs : Inv s) {i : Nat} {k : Socket} (hk : s.sockets i = some k)
    (hok : k.agentId.isNone = true ∨ k.conversation ∈ s.busy k.replica ∨
      s.aloneOn k.replica k.conversation = true) (content : Text) :
    Inv (s.receive i k content) := by
  have hi : i < s.connections := hs.fresh i k hk
  unfold State.receive
  split
  · exact hs.send hi (by simp) (.inl rfl)
  · next hagent =>
    split_ifs with hbusy
    · exact hs.send hi (by simp) (.inl rfl)
    · have halone : s.aloneOn k.replica k.conversation = true := by
        rcases hok with hnone | hmarked | halone
        · rw [hagent] at hnone
          cases hnone
        · exact absurd hmarked hbusy
        · exact halone
      dsimp only
      generalize htask : Task.mk i k.replica k.conversation k.user content [] [] none none
        .findAgent = task
      have hsocket : task.socket = i := by rw [← htask]
      have hreplica : task.replica = k.replica := by rw [← htask]
      have hconv : task.conversation = k.conversation := by rw [← htask]
      have hstage : task.stage = .findAgent := by rw [← htask]
      have hnew : s.tasks s.turns = none := by
        by_contra h
        obtain ⟨b, hb⟩ := Option.ne_none_iff_exists'.1 h
        exact absurd (hs.turns _ b hb) (Nat.lt_irrefl _)
      have hcases : ∀ u b, Function.update s.tasks s.turns (some task) u = some b →
          (u = s.turns ∧ b = task) ∨ s.tasks u = some b := by
        intro u b hb
        rw [Function.update_apply] at hb
        split_ifs at hb with hu
        · exact .inl ⟨hu, (Option.some.inj hb).symm⟩
        · exact .inr hb
      have hold : ∀ u b, s.tasks u = some b →
          Function.update s.tasks s.turns (some task) u = some b := by
        intro u b hb
        have hu : u ≠ s.turns := by
          rintro rfl
          rw [hnew] at hb
          cases hb
        rw [Function.update_of_ne hu, hb]
      have hsameReplica : ∀ u b, s.tasks u = some b → b.stage.live = true →
          b.conversation = k.conversation → b.replica = k.replica := by
        intro u b hb hlive hsame
        have h := List.all_eq_true.1 halone u (List.mem_range.2 (hs.turns u b hb))
        simpa [hb, hlive, hsame] using h
      have hnone : ∀ u b, s.tasks u = some b → b.stage.live = true →
          b.conversation ≠ k.conversation := by
        intro u b hb hlive hsame
        have hmarked := hs.marked u b hb hlive
        rw [hsame, hsameReplica u b hb hlive hsame] at hmarked
        exact hbusy hmarked
      have htold : Told s s.turns task := by
        have hrows : ∀ role, s.wrote s.turns role = [] := by
          intro role
          simp only [State.wrote, List.filter_eq_nil_iff]
          intro row hrow hturn
          rw [Bool.and_eq_true, decide_eq_true_eq] at hturn
          obtain ⟨b, hb, -⟩ := hs.writer row hrow s.turns hturn.1
          rw [hnew] at hb
          cases hb
        have herrors : s.errors s.turns = [] := by
          simp only [State.errors, List.filter_eq_nil_iff]
          intro e he hturn
          rw [Bool.and_eq_true, decide_eq_true_eq] at hturn
          obtain ⟨b, hb, -⟩ := hs.sender e he s.turns hturn.1
          rw [hnew] at hb
          cases hb
        constructor
        · exact fun _ => hrows _
        · rw [hstage]
          exact nofun
        · rw [hstage]
          exact nofun
        · rw [hstage]
          exact nofun
        · exact fun _ => hrows _
        · rw [hstage]
          exact nofun
        · rw [herrors, hstage]
          rfl
      exact
        { hs with
          turns := by
            intro u b hb
            rcases hcases u b hb with ⟨rfl, -⟩ | hb
            · exact Nat.lt_succ_self _
            · exact Nat.lt_succ_of_lt (hs.turns u b hb)
          marked := by
            intro u b hb hlive
            rcases hcases u b hb with ⟨-, rfl⟩ | hb
            · rw [hconv, hreplica]
              show _ ∈ Function.update s.busy k.replica _ k.replica
              rw [Function.update_self]
              exact Finset.mem_insert_self ..
            · have hmem := hs.marked u b hb hlive
              show _ ∈ Function.update s.busy k.replica _ b.replica
              rw [Function.update_apply]
              split_ifs with h
              · rw [h] at hmem
                exact Finset.mem_insert_of_mem hmem
              · exact hmem
          unique := by
            intro u v b c hb hc hblive hclive hsame _
            rcases hcases u b hb with ⟨rfl, rfl⟩ | hb'
            · rcases hcases v c hc with ⟨rfl, -⟩ | hc'
              · rfl
              · exact absurd (hsame.symm.trans hconv) (hnone v c hc' hclive)
            · rcases hcases v c hc with ⟨rfl, rfl⟩ | hc'
              · exact absurd (hsame.trans hconv) (hnone u b hb' hblive)
              · exact hs.oneTurn hb' hc' hblive hclive hsame
          asker := by
            intro u b hb
            rcases hcases u b hb with ⟨-, rfl⟩ | hb
            · rw [hsocket]
              exact hi
            · exact hs.asker u b hb
          sender := by
            intro e he u hu
            obtain ⟨b, hb, h⟩ := hs.sender e he u hu
            exact ⟨b, hold u b hb, h⟩
          knownTask := by
            intro u b hb
            rcases hcases u b hb with ⟨-, rfl⟩ | hb
            · rw [hconv]
              exact hs.known i k hk
            · exact hs.knownTask u b hb
          writer := by
            intro row hrow u hu
            obtain ⟨b, hb, h⟩ := hs.writer row hrow u hu
            exact ⟨b, hold u b hb, h⟩
          together := by
            intro u v b c hb hc hblive hclive hsame
            rcases hcases u b hb with ⟨rfl, rfl⟩ | hb'
            · rcases hcases v c hc with ⟨-, rfl⟩ | hc'
              · rfl
              · exact absurd (hsame.symm.trans hconv) (hnone v c hc' hclive)
            · rcases hcases v c hc with ⟨-, rfl⟩ | hc'
              · exact absurd (hsame.trans hconv) (hnone u b hb' hblive)
              · exact hs.together u v b c hb' hc' hblive hclive hsame
          told := by
            intro u b hb
            rcases hcases u b hb with ⟨rfl, rfl⟩ | hb
            · exact htold.congr rfl rfl
            · exact (hs.told u b hb).congr rfl rfl }

/-! ## Steps of a task -/

theorem inv_insertUser (hs : Inv s) {t : Nat} {a : Task} (ht : s.tasks t = some a)
    (hstage : a.stage = .insertUser) {env : Env}
    (hok : env.dbError.isNone = true ∨ env.written = true)
    (hlater : s.isLater a.conversation env.now = true) :
    Inv (s.insertMessage t a "user".toList a.content none env .touchUser) := by
  have hlive : a.stage.live = true := by rw [hstage]; rfl
  have hasked : ∀ stage : Stage, stage.saved = true → stage.answered = false →
      stage.told = false → ∀ row : Row, row.turn = some t → row.conversationId = a.conversation →
      row.role = "user".toList → row.payload = some ⟨"user".toList, a.content, none⟩ →
      row.createdAt = env.now → Inv ((s.insert row).goTo t a stage) := by
    intro stage hsaved hanswered htold row hturn hconv hrole hpayload hnow
    exact hs.insert ht hlive hturn hconv (fun _ => hpayload) (hnow ▸ hlater)
      ((hs.told t a ht).ask hstage hturn hconv hrole hsaved hanswered htold)
  unfold State.insertMessage
  split
  · exact hasked .touchUser rfl rfl rfl _ rfl rfl rfl rfl rfl
  · next e he =>
    have hwritten : env.written = true := by simpa [he] using hok
    dsimp only
    rw [if_pos hwritten]
    exact hasked (.failed _) rfl rfl rfl _ rfl rfl rfl rfl rfl

theorem inv_insertAnswer (hs : Inv s) {t : Nat} {a : Task} (ht : s.tasks t = some a)
    {result : ChatTurnResult} (hstage : a.stage = .insertAnswer result) {env : Env}
    (hlater : env.dbError.isNone = true → s.isLater a.conversation env.now = true)
    (hok : env.dbError.isNone = false → env.written = false)
    (toolCalls : Option (List ToolCall)) :
    Inv (s.insertMessage t a "assistant".toList result.responseText toolCalls env
      .touchAnswer) := by
  have hlive : a.stage.live = true := by rw [hstage]; rfl
  unfold State.insertMessage
  split
  · next hnone =>
    have hnow := hlater (by rw [hnone]; rfl)
    refine hs.insert ht hlive rfl rfl ?_ hnow ((hs.told t a ht).answer hstage rfl rfl rfl)
    intro hrole
    have hne : "assistant".toList ≠ "user".toList := by decide
    exact absurd hrole hne
  · next e he =>
    have hwritten : env.written = false := hok (by rw [he]; rfl)
    dsimp only
    rw [if_neg (by simp [hwritten])]
    exact hs.goTo ht (by rw [hstage]; rfl)

/-- The conversation is touched; if that fails, the turn fails. -/
theorem inv_touch (hs : Inv s) {t : Nat} {a : Task} (ht : s.tasks t = some a) {env : Env}
    {next : Stage} (hnext : a.stage.goesTo next = true)
    (hfails : env.dbError.isNone = true ∨ ∀ e, a.stage.goesTo (.failed e) = true) :
    Inv (s.touch t a env next) := by
  unfold State.touch
  split
  · next e _ he =>
    rcases hfails with hok | hfails
    · rw [he] at hok
      cases hok
    · exact hs.goTo ht (hfails _)
  · next hnone =>
    have hknown := hs.knownTask t a ht
    rw [hnone] at hknown
    cases hknown
  · next conv _ _ =>
    exact (hs.setConversation a.conversation { conv with updatedAt := env.now }).goTo ht hnext

theorem inv_resolveTools (hs : Inv s) {t : Nat} {a : Task} (ht : s.tasks t = some a)
    (hstage : a.stage = .resolveTools) (env : Env) : Inv (s.resolveTools t a env) := by
  unfold State.resolveTools
  split
  · exact hs.goTo ht (by rw [hstage]; rfl)
  · have hsent : ∀ (missing : List (Text × Text)) (s : State), Inv s → s.tasks t = some a →
        Inv (missing.foldl (fun s x => s.send a.socket (some t) (.toolUnavailable x.1 x.2)) s) ∧
        (missing.foldl (fun s x => s.send a.socket (some t) (.toolUnavailable x.1 x.2)) s).tasks t =
          some a := by
      intro missing
      induction missing with
      | nil => exact fun s hs ht => ⟨hs, ht⟩
      | cons x missing ih =>
          intro s hs ht
          refine ih _ (hs.send (hs.asker t a ht) ?_ (.inr rfl)) ht
          intro u hu
          cases hu
          exact ⟨a, ht, rfl⟩
    obtain ⟨hall, htask⟩ := hsent env.unavailable s hs ht
    exact hall.goTo htask (by rw [hstage]; rfl)

theorem inv_saveTodo (hs : Inv s) {t : Nat} {a : Task} (ht : s.tasks t = some a)
    (hstage : a.stage = .saveTodo) {env : Env} (hok : env.dbError.isNone = true) :
    Inv (s.saveTodo t a env) := by
  unfold State.saveTodo
  split
  · exact hs.goTo ht (by rw [hstage]; rfl)
  · next todo _ =>
    split
    · next e _ he =>
      rw [he] at hok
      cases hok
    · next hnone =>
      have hknown := hs.knownTask t a ht
      rw [hnone] at hknown
      cases hknown
    · next conv _ _ =>
      exact (hs.setConversation a.conversation { conv with todo := some todo }).goTo ht
        (by rw [hstage]; rfl)

theorem inv_advance (hs : Inv s) {t : Nat} {a : Task} (ht : s.tasks t = some a) {env : Env}
    (hok : ProperStage s a env) {s' : State} (h : s.advance t a env = some s') : Inv s' := by
  unfold State.advance at h
  unfold ProperStage at hok
  split at h
  · next hstage =>
    cases h
    simp only [hstage, Bool.and_eq_true] at hok
    unfold State.findAgent
    split
    · next e _ he =>
      rw [he] at hok
      cases hok.1
    · next hnone =>
      rw [hnone] at hok
      cases hok.2
    · have hgo : a.stage.goesTo .loadHistory = true := by rw [hstage]; rfl
      exact hs.setTask ht ⟨rfl, rfl, rfl, rfl⟩ (live_of_goesTo hgo)
        ((hs.told t a ht).goTo rfl (fun _ => rfl) hgo)
  · next hstage =>
    simp only [hstage] at hok
    unfold State.loadHistory at h
    split at h
    · next e he =>
      rw [he] at hok
      cases hok
    · split_ifs at h with hrows
      cases h
      exact hs.setTask ht ⟨rfl, rfl, rfl, rfl⟩ (fun _ => by rw [hstage]; rfl)
        ((hs.told t a ht).load hstage hrows)
  · next hstage =>
    cases h
    simp only [hstage, Bool.and_eq_true, Bool.or_eq_true] at hok
    exact inv_insertUser hs ht hstage hok.1 hok.2
  · next hstage =>
    cases h
    exact inv_touch hs ht (by rw [hstage]; rfl) (.inr fun _ => by rw [hstage]; rfl)
  · next hstage =>
    cases h
    unfold State.readTodo
    split
    · exact hs.goTo ht (by rw [hstage]; rfl)
    · have hgo : a.stage.goesTo .resolveTools = true := by rw [hstage]; rfl
      exact hs.setTask ht ⟨rfl, rfl, rfl, rfl⟩ (live_of_goesTo hgo)
        ((hs.told t a ht).goTo rfl (fun _ => rfl) hgo)
  · next hstage =>
    cases h
    exact inv_resolveTools hs ht hstage env
  · cases h
  · next hstage =>
    cases h
    exact hs.goTo ht (by rw [hstage]; rfl)
  · next hstage =>
    cases h
    exact hs.goTo ht (by rw [hstage]; rfl)
  · next hstage =>
    cases h
    exact hs.goTo ht (by rw [hstage]; rfl)
  · next result hstage =>
    cases h
    simp only [hstage] at hok
    refine inv_insertAnswer hs ht hstage ?_ ?_ _
    · intro hnone
      simpa [hnone] using hok
    · intro hsome
      simpa [hsome] using hok
  · next hstage =>
    cases h
    simp only [hstage] at hok
    exact inv_touch hs ht (by rw [hstage]; rfl) (.inl hok)
  · next hstage =>
    cases h
    simp only [hstage] at hok
    exact inv_saveTodo hs ht hstage hok
  · next hstage =>
    cases h
    exact hs.release ht (by rw [hstage]; rfl) (by rw [hstage]; rfl)
  · next e hstage =>
    cases h
    exact hs.report ht hstage _ _
  · next hstage =>
    cases h
    exact hs.release ht (by rw [hstage]; rfl) (by rw [hstage]; rfl)
  · cases h

/-! ## Runs -/

theorem inv_step {l : Label} {s' : State} (hs : Inv s) (hok : Proper s l)
    (h : step s l = some s') : Inv s' := by
  cases l with
  | connect replica c user =>
      cases h
      exact inv_connect hs replica c user
  | receive i frame =>
      obtain ⟨k, hk, h⟩ := Option.bind_eq_some_iff.1 h
      split_ifs at h
      split at h
      · cases h
        simp only [Proper, hk, Option.all_some, Bool.or_eq_true, decide_eq_true_eq,
          or_assoc] at hok
        exact inv_receive hs hk hok _
      · cases h
        exact hs
  | close i =>
      obtain ⟨k, hk, h⟩ := Option.bind_eq_some_iff.1 h
      cases h
      exact hs.setSocket hk rfl (hs.delivered i k hk)
  | forward i written =>
      obtain ⟨k, hk, h⟩ := Option.bind_eq_some_iff.1 h
      obtain ⟨hbegins, hall⟩ := hs.delivered i k hk
      unfold State.forward at h
      split at h
      · cases h
      · next event rest hqueue =>
        split_ifs at h
        · cases h
          have hsame : (k.wire ++ [event]) ++ rest = k.wire ++ k.queue := by
            rw [hqueue, List.append_assoc]
            rfl
          exact hs.setSocket hk rfl ⟨hsame ▸ hbegins, fun hon => hsame.trans (hall hon)⟩
        · cases h
          have hwire : k.wire ++ [] <+: s.eventsOf i := by
            rw [List.append_nil]
            exact (List.prefix_append ..).trans hbegins
          exact hs.setSocket hk rfl ⟨hwire, nofun⟩
  | advance t env =>
      obtain ⟨a, ht, h⟩ := Option.bind_eq_some_iff.1 h
      simp only [Proper, ht] at hok
      exact inv_advance hs ht hok h
  | emit t event =>
      obtain ⟨a, ht, h⟩ := Option.bind_eq_some_iff.1 h
      split_ifs at h with hstreamed
      cases h
      rw [Bool.and_eq_true] at hstreamed
      refine hs.send (hs.asker t a ht) ?_ (.inr ?_)
      · intro u hu
        cases hu
        exact ⟨a, ht, rfl⟩
      · cases event with
        | error _ _ => cases hstreamed.2
        | _ => rfl
  | writeTodo t todo =>
      obtain ⟨a, ht, h⟩ := Option.bind_eq_some_iff.1 h
      split at h
      · next hstage =>
        cases h
        have hgo : a.stage.goesTo a.stage = true := by rw [hstage]; rfl
        exact hs.setTask ht ⟨rfl, rfl, rfl, rfl⟩ id
          ((hs.told t a ht).goTo rfl (fun _ => rfl) hgo)
      · cases h
  | settle t ending =>
      obtain ⟨a, ht, h⟩ := Option.bind_eq_some_iff.1 h
      split at h
      · next hstage =>
        cases h
        cases ending with
        | completed result =>
            have hdone : Inv (s.send a.socket (some t) .done) := by
              refine hs.send (hs.asker t a ht) ?_ (.inr rfl)
              intro u hu
              cases hu
              exact ⟨a, ht, rfl⟩
            exact hdone.goTo ht (by rw [hstage]; rfl)
        | streamFailed cause => exact absurd hok id
        | failed e => exact hs.goTo ht (by rw [hstage]; rfl)
      · cases h
  | timeout t =>
      obtain ⟨a, ht, h⟩ := Option.bind_eq_some_iff.1 h
      split at h
      · next hstage =>
        cases h
        exact hs.goTo ht (by rw [hstage]; rfl)
      · next hstage =>
        cases h
        exact hs.goTo ht (by rw [hstage]; rfl)
      · cases h
  | panic t => exact absurd hok id

/-! ## Readings -/

/-- Rows of an ordered list up to a time come before those after it. -/
theorem filter_lt_append {rows : List Row} (h : rows.Pairwise fun a b => a.createdAt ≤ b.createdAt)
    (k : Nat) : rows.filter (·.createdAt < k) ++ rows.filter (k ≤ ·.createdAt) = rows := by
  induction rows with
  | nil => rfl
  | cons row rows ih =>
      rw [List.pairwise_cons] at h
      by_cases hk : row.createdAt < k
      · rw [List.filter_cons_of_pos (by simpa using hk), List.filter_cons_of_neg (by simpa using hk),
          List.cons_append, ih h.2]
      · have hnone : rows.filter (·.createdAt < k) = [] := by
          rw [List.filter_eq_nil_iff]
          intro x hx
          have hle := h.1 x hx
          simp only [decide_eq_true_eq]
          omega
        have hall : rows.filter (k ≤ ·.createdAt) = rows := by
          rw [List.filter_eq_self]
          intro x hx
          have hle := h.1 x hx
          simp only [decide_eq_true_eq]
          omega
        have hge : k ≤ row.createdAt := by omega
        rw [List.filter_cons_of_neg (by simpa using hk), hnone,
          List.filter_cons_of_pos (by simpa using hge), hall, List.nil_append]

/-- In every reading, two rows stay next to each other that are later than the rows before
them and earlier than those after them. -/
theorem infix_of_isReading {before after rows : List Row} {u r : Row}
    (hreading : IsReading (before ++ u :: r :: after) rows)
    (hbefore : ∀ x ∈ before, x.createdAt < u.createdAt) (hur : u.createdAt < r.createdAt)
    (hafter : ∀ x ∈ after, r.createdAt < x.createdAt) : [u, r] <:+: rows := by
  obtain ⟨hperm, hsorted⟩ := hreading
  have hlate := hsorted.filter (fun row : Row => u.createdAt ≤ row.createdAt)
  have hfirst := filter_lt_append hsorted u.createdAt
  have hsecond := filter_lt_append hlate (r.createdAt + 1)
  -- what lies between the two times is the two rows
  have hpair : ((rows.filter fun row => u.createdAt ≤ row.createdAt).filter fun row =>
      row.createdAt < r.createdAt + 1).Perm [u, r] := by
    refine ((hperm.filter _).filter _).trans (List.Perm.of_eq ?_)
    have hnone : before.filter (fun row => u.createdAt ≤ row.createdAt) = [] := by
      rw [List.filter_eq_nil_iff]
      intro x hx
      have hlt := hbefore x hx
      simp only [decide_eq_true_eq]
      omega
    have hrest : (after.filter fun row => u.createdAt ≤ row.createdAt).filter
        (fun row => row.createdAt < r.createdAt + 1) = [] := by
      rw [List.filter_eq_nil_iff]
      intro x hx
      have hlt := hafter x (List.mem_of_mem_filter hx)
      simp only [decide_eq_true_eq]
      omega
    have hle : u.createdAt ≤ r.createdAt := hur.le
    have hlt : u.createdAt < r.createdAt + 1 := by omega
    rw [List.filter_append, hnone, List.nil_append, List.filter_cons_of_pos (by simp),
      List.filter_cons_of_pos (by simpa using hlt), List.filter_cons_of_pos (by simpa using hle),
      List.filter_cons_of_pos (by simp), hrest]
  have hmiddle : ((rows.filter fun row => u.createdAt ≤ row.createdAt).filter fun row =>
      row.createdAt < r.createdAt + 1) = [u, r] := by
    refine hpair.eq_of_pairwise ?_ (hlate.filter _) (by simp [hur.le])
    intro x y hx hy hxy hyx
    have hx' := hpair.subset hx
    simp only [List.mem_cons, List.not_mem_nil, or_false] at hx' hy
    rcases hx' with rfl | rfl
    · rcases hy with rfl | rfl
      · rfl
      · omega
    · rcases hy with rfl | rfl
      · omega
      · rfl
  rw [hmiddle] at hsecond
  have hsplit := hfirst
  rw [← hsecond, ← List.append_assoc] at hsplit
  exact ⟨_, _, hsplit⟩

/-- A row that a turn has written is later than those before it and earlier than those after
it. -/
theorem Sources.rows_later (hs : Sources s) {c : Nat} {before after : List Row} {u : Row}
    (htable : rowsOf c s.messages = before ++ u :: after) (hturn : u.turn ≠ none) :
    (∀ x ∈ before, x.createdAt < u.createdAt) ∧ ∀ x ∈ after, u.createdAt < x.createdAt := by
  have hordered : (rowsOf c s.messages).Pairwise fun a b => a.conversationId = b.conversationId →
      a.turn ≠ none ∨ b.turn ≠ none → a.createdAt < b.createdAt := hs.later.filter _
  have hconv : ∀ y ∈ rowsOf c s.messages, y.conversationId = c := by
    intro y hy
    simpa using List.of_mem_filter hy
  rw [htable] at hordered hconv
  obtain ⟨-, hlast, hacross⟩ := List.pairwise_append.1 hordered
  have hu := hconv u (List.mem_append_right _ List.mem_cons_self)
  constructor
  · intro x hx
    have hx' := hconv x (List.mem_append_left _ hx)
    exact hacross x hx u List.mem_cons_self (hx'.trans hu.symm) (.inr hturn)
  · intro x hx
    have hx' := hconv x (List.mem_append_right _ (List.mem_cons_of_mem _ hx))
    exact (List.pairwise_cons.1 hlast).1 x hx (hu.trans hx'.symm) (.inl hturn)

theorem turn_of_wrote {t : Nat} {role : Text} {u : Row} (h : s.wrote t role = [u]) :
    u ∈ s.messages ∧ u.turn = some t ∧ u.role = role := by
  have hu : u ∈ s.wrote t role := by
    rw [h]
    exact List.mem_singleton_self u
  simpa [State.wrote, and_assoc] using hu

/-- An answer comes right after its question in every reading. -/
theorem Inv.answered_infix (hs : Inv s) {t : Nat} {a : Task} (ht : s.tasks t = some a)
    (hstage : a.stage.answered = true) : ∃ u r, s.questions t = [u] ∧ s.answers t = [r] ∧
      ∀ rows, IsReading (rowsOf a.conversation s.messages) rows → [u, r] <:+: rows := by
  obtain ⟨u, r, before, after, hu, hr, htable⟩ := (hs.told t a ht).answered hstage
  refine ⟨u, r, hu, hr, ?_⟩
  intro rows hreading
  rw [htable] at hreading
  have huturn : u.turn ≠ none := by
    rw [(turn_of_wrote hu).2.1]
    exact Option.some_ne_none t
  have hrturn : r.turn ≠ none := by
    rw [(turn_of_wrote hr).2.1]
    exact Option.some_ne_none t
  obtain ⟨hbefore, hrest⟩ := hs.rows_later htable huturn
  have htable' : rowsOf a.conversation s.messages = (before ++ [u]) ++ r :: after := by
    rw [htable, List.append_assoc]
    rfl
  obtain ⟨-, hafter⟩ := hs.rows_later htable' hrturn
  exact infix_of_isReading hreading hbefore (hrest r List.mem_cons_self) hafter

/-! ## The result -/

theorem oneByOne_of_inv (hs : Inv s) : OneByOne s where
  oneTurn := fun _ _ _ _ ha hb halive hblive hconv => hs.oneTurn ha hb halive hblive hconv
  oneOutcome := by
    intro t a ht
    have h := hs.told t a ht
    by_cases hanswered : a.stage.answered = true
    · obtain ⟨u, r, -, -, -, hr, -⟩ := h.answered hanswered
      have htold : a.stage.told = false := by
        cases hstage : a.stage with
        | ended answered =>
            rw [hstage] at hanswered
            cases answered with
            | true => rfl
            | false => cases hanswered
        | reported =>
            rw [hstage] at hanswered
            cases hanswered
        | _ => rfl
      rw [h.errors, htold, hr]
      exact Nat.le_refl 1
    · rw [h.unanswered (by simpa using hanswered), h.errors]
      split_ifs
      · exact Nat.le_refl 1
      · exact Nat.zero_le 1
  outcome := by
    intro t a answered ht hstage
    have h := hs.told t a ht
    cases answered with
    | true =>
        obtain ⟨u, r, -, -, -, hr, -⟩ := h.answered (by rw [hstage]; rfl)
        rw [h.errors, hr, hstage]
        exact ⟨rfl, rfl⟩
    | false =>
        rw [h.unanswered (by rw [hstage]; rfl), h.errors, hstage]
        exact ⟨rfl, rfl⟩
  toAsker := hs.sender
  delivered := hs.delivered
  held := by
    intro t a ht hsaved
    obtain ⟨u, -, -, -, hu, -⟩ := (hs.told t a ht).question hsaved
    obtain ⟨hmem, hturn, hrole⟩ := turn_of_wrote hu
    obtain ⟨b, hb, hconv, hpayload⟩ := hs.writer u hmem t hturn
    rw [ht, Option.some.injEq] at hb
    subst hb
    exact ⟨u, hu, hconv, hpayload hrole⟩
  answered := fun t a ht hstage => hs.answered_infix ht (by rw [hstage]; rfl)
  history := fun t a ht hsaved => (hs.told t a ht).question hsaved

/-- One conversation without messages, with an agent. -/
def oneConversation : Store where
  conversations := fun c => if c = 0 then some ⟨0, some 0, 0, none, 0⟩ else none
  messages := []
  nextId := 0
  older := by simp

/-- A turn up to the model of the agent; its question is written at a time. -/
def asks (t now : Nat) (rows : List Row) : List Label :=
  [.advance t {}, .advance t { rows }, .advance t { now }, .advance t {}, .advance t {},
    .advance t {}]

/-- The turn ends, and its answer is written at a time. -/
def isAnswered (t now : Nat) : List Label :=
  [.settle t (.completed ⟨"A".toList, []⟩), .advance t {}, .advance t {}, .advance t { now },
    .advance t {}, .advance t {}, .advance t {}]

def accepted : List Label := [.connect 0 0 0, .receive 0 (some "q".toList)]

/-- Two sockets on two replicas. -/
def twoReplicas : List Label := accepted ++ [.connect 1 0 0, .receive 1 (some "r".toList)]

def twoTurns (s : State) : Bool :=
  [0, 1].all fun t => (s.tasks t).any fun task => task.stage.live && task.conversation == 0

/-- The stream of the model fails. -/
def brokenStream : List Label :=
  accepted ++ asks 0 1 [] ++ [.settle 0 (.streamFailed [])] ++ List.replicate 4 (.advance 0 {})

/-- A query fails after the answer has been written. -/
def lateFailure : List Label :=
  accepted ++ asks 0 1 [] ++ (isAnswered 0 2).take 4 ++
    [.advance 0 { dbError := some [] }, .advance 0 {}]

def twoOutcomes (s : State) : Bool :=
  (s.tasks 0).isSome && (s.answers 0).length + (s.errors 0).length == 2

/-- The agent is not found. -/
def noSuchAgent : List Label := accepted ++ [.advance 0 { agent := none }]

def lostQuestion (s : State) : Bool :=
  (s.tasks 0).any (·.stage.saved) && (s.questions 0).isEmpty

/-- The clock goes back between the question and its answer. -/
def clockBack : List Label := accepted ++ asks 0 5 [] ++ isAnswered 0 3

def answerFirst (s : State) : Bool :=
  (s.tasks 0).any (fun task => task.conversation == 0 && task.stage.answered && !task.stage.live) &&
    decide (IsReading (rowsOf 0 s.messages) (s.answers 0 ++ s.questions 0))

def dies : List Label := accepted ++ asks 0 1 [] ++ [.panic 0]

def noOutcome (s : State) : Bool :=
  (s.tasks 0).any (fun task => !task.stage.live) && (s.errors 0).isEmpty && (s.answers 0).isEmpty

theorem stage_of_not_live {stage : Stage} (h : stage.live = false) :
    ∃ answered, stage = .ended answered := by
  cases stage with
  | ended answered => exact ⟨answered, rfl⟩
  | _ => cases h

theorem not_oneByOne_of_twoTurns (h : twoTurns s = true) : ¬ OneByOne s := by
  intro hs
  simp only [twoTurns, List.all_cons, List.all_nil, Bool.and_true, Bool.and_eq_true] at h
  obtain ⟨a, ha, ha'⟩ := (Option.any_eq_true _ _).1 h.1
  obtain ⟨b, hb, hb'⟩ := (Option.any_eq_true _ _).1 h.2
  simp only [Bool.and_eq_true, beq_iff_eq] at ha' hb'
  have hsame := hs.oneTurn 0 1 a b ha hb ha'.1 hb'.1 (ha'.2.trans hb'.2.symm)
  omega

theorem not_oneByOne_of_twoOutcomes (h : twoOutcomes s = true) : ¬ OneByOne s := by
  intro hs
  simp only [twoOutcomes, Bool.and_eq_true, beq_iff_eq] at h
  obtain ⟨a, ha⟩ := Option.isSome_iff_exists.1 h.1
  have hone := hs.oneOutcome 0 a ha
  omega

theorem not_oneByOne_of_lostQuestion (h : lostQuestion s = true) : ¬ OneByOne s := by
  intro hs
  simp only [lostQuestion, Bool.and_eq_true, List.isEmpty_iff] at h
  obtain ⟨a, ha, hsaved⟩ := (Option.any_eq_true _ _).1 h.1
  obtain ⟨u, hu, -⟩ := hs.held 0 a ha hsaved
  rw [h.2] at hu
  cases hu

theorem not_oneByOne_of_answerFirst (h : answerFirst s = true) : ¬ OneByOne s := by
  intro hs
  simp only [answerFirst, Bool.and_eq_true, decide_eq_true_eq] at h
  obtain ⟨a, ha, ha'⟩ := (Option.any_eq_true _ _).1 h.1
  simp only [Bool.and_eq_true, beq_iff_eq, Bool.not_eq_true'] at ha'
  obtain ⟨⟨hconv, hanswered⟩, hended⟩ := ha'
  obtain ⟨answered, hstage⟩ := stage_of_not_live hended
  have htrue : answered = true := by
    cases answered with
    | true => rfl
    | false =>
        rw [hstage] at hanswered
        cases hanswered
  subst htrue
  obtain ⟨u, r, hu, hr, hall⟩ := hs.answered 0 a ha hstage
  have hinfix := hall (s.answers 0 ++ s.questions 0) (by rw [hconv]; exact h.2)
  rw [hu, hr] at hinfix
  have heq := hinfix.eq_of_length rfl
  rw [List.singleton_append, List.cons.injEq] at heq
  have hurole := (turn_of_wrote hu).2.2
  have hrrole := (turn_of_wrote hr).2.2
  rw [heq.1, hrrole] at hurole
  exact absurd hurole (by decide)

theorem not_oneByOne_of_noOutcome (h : noOutcome s = true) : ¬ OneByOne s := by
  intro hs
  simp only [noOutcome, Bool.and_eq_true, List.isEmpty_iff] at h
  obtain ⟨⟨hended, herrors⟩, hanswers⟩ := h
  obtain ⟨a, ha, ha'⟩ := (Option.any_eq_true _ _).1 hended
  obtain ⟨answered, hstage⟩ := stage_of_not_live (by simpa using ha')
  obtain ⟨hone, hother⟩ := hs.outcome 0 a answered ha hstage
  rw [hanswers] at hone
  rw [herrors] at hother
  cases answered with
  | true => cases hone
  | false => cases hother

theorem exists_notOneByOne {ls : List Label} (test : State → Bool)
    (h : (exec step free (State.init oneConversation) ls).any test = true)
    (hnot : ∀ s, test s = true → ¬ OneByOne s) :
    ∃ s, Run step free (State.init oneConversation) ls s ∧ test s = true ∧ ¬ OneByOne s := by
  obtain ⟨s, hrun, hs⟩ := Run.exists_of_exec test h
  exact ⟨s, hrun, hs, hnot s hs⟩

instance (s : State) (task : Task) (env : Env) : Decidable (ProperStage s task env) := by
  unfold ProperStage
  cases task.stage <;> infer_instance

instance (s : State) (l : Label) : Decidable (Proper s l) :=
  match l with
  | .receive _ (some _) => inferInstanceAs (Decidable (_ = _))
  | .advance t env =>
    match h : s.tasks t with
    | some task => decidable_of_iff (ProperStage s task env) (by simp only [Proper, h])
    | none => isTrue (by simp only [Proper, h])
  | .settle _ (.streamFailed _) | .panic _ => isFalse id
  | .settle _ (.completed _) | .settle _ (.failed _) | .receive _ none | .connect _ _ _ | .close _
  | .forward _ _ | .emit _ _ | .writeTodo _ _ | .timeout _ => isTrue trivial

/-- The first message is answered, the second, of another socket, is refused at first, and
then its turn times out. -/
def inTurn : List Label :=
  accepted ++ [.connect 0 0 0, .receive 1 (some "r".toList)] ++ asks 0 1 [] ++ isAnswered 0 2 ++
    [.receive 1 (some "r".toList)] ++
    asks 1 3 [⟨0, 0, 0, "user".toList, some ⟨"user".toList, "q".toList, none⟩, 1, some 0⟩,
      ⟨1, 0, 0, "assistant".toList, some ⟨"assistant".toList, "A".toList, none⟩, 2, some 0⟩] ++
    [.timeout 1, .close 0] ++ List.replicate 3 (.advance 1 {}) ++ [.forward 1 true]

def oneAfterAnother (s : State) : Bool :=
  s.messages.map (·.createdAt) == [1, 2, 3] && (s.errors 1).length == 1 &&
    (s.tasks 1).any fun task => task.history == [.user "q".toList, .assistant "A".toList]

end Vanyline.App.Chat
