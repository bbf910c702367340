import Mathlib.Logic.Function.Basic
import Vanyline.Lib.JsonValue
import Vanyline.Lib.Promises
import Vanyline.Lib.Run

/-!
# Requests over a line transport

`RpcConnection` writes a request, keeps its promise under its id until a line with that id
comes, its time is over or the connection is closed, and calls the handlers of
notifications.

A transport may deliver lines while `write` is under way, and a handler may make requests,
so the calls that are not over are a stack.  The model notes to which request a line is the
answer (`answering`) when that is not settled yet.

`Settled` says that the promises are settled by their own answers, by the timer, by `close`
or not at all, that no line makes the callback throw, and that no promise is left when the
connection is closed.  It fails for a line that is no object, an error whose message has no
text, a handler that throws, an answer that comes during `write`, and a `close` then.
`settled_of_run` holds without these (`Tame`).
-/

namespace Vanyline.Protocol.Connection

open Vanyline.Lib

/-! ## Lines -/

structure RpcError where
  code : Json
  message : List Char
  vnlCode : Option Json

/-- What a promise becomes.  A request whose `write` throws has no promise; it throws, too. -/
inductive Outcome
  | answered (result : Except RpcError (Option Json))
  | timedOut
  | closed
  | threw

/-- The body of a request. -/
def bodyOf (id : Nat) (method : List Char) (params : Option Json) : Json :=
  .obj ([("jsonrpc".toList, .str "2.0".toList), ("id".toList, .num id),
    ("method".toList, .str method)] ++ (params.map fun params => ("params".toList, params)).toList)

/-- The value, if it is not `null`. -/
def notNull : Option Json → Option Json
  | some .null => none
  | value => value

/-- `new RpcError` of the error of a line; its message may have no text. -/
def rpcError (error : Json) : Option RpcError :=
  let message := (notNull (error.get "message")).elim (some "Unknown error".toList) Json.toText
  message.map fun message =>
    { code := (notNull (error.get "code")).getD (.decimal "-32600".toList)
      message
      vnlCode := (notNull (error.get "data")).bind (Json.get "code") }

/-- The result that the line says. -/
def resultOf (line : Json) : Option (Except RpcError (Option Json)) :=
  match line.get "error" with
  | some error =>
    if error.truthy then (rpcError error).map .error else some (.ok (line.get "result"))
  | none => some (.ok (line.get "result"))

/-! ## The connection -/

/-- A call that is not over: a `write`, or the handlers of a method from the next one on. -/
inductive Call
  | writing (id : Nat)
  | notifying (method : List Char) (next : Nat)
  deriving DecidableEq

structure State where
  nextId : Nat
  pending : List Nat
  handlers : List Char → List Nat
  stack : List Call
  closed : Bool
  written : List (Nat × Json)
  promises : Promises (Except RpcError (Option Json)) Outcome
  threw : Bool

def State.init : State where
  nextId := 1
  pending := []
  handlers := fun _ => []
  stack := []
  closed := false
  written := []
  promises := .none
  threw := false

namespace State

def settlePromise (s : State) (id : Nat) (outcome : Outcome) : State :=
  { s with promises := s.promises.settle id outcome }

/-- The request that was written with the id of the line. -/
def answering (s : State) (line : Json) : Option Nat :=
  match line.get "id" with
  | some id =>
    (s.written.find? fun w => (w.2.get "id").any fun written => written.same id).map (·.1)
  | none => none

/-- The model notes an answer to a promise that is not settled. -/
def note (s : State) (line : Json) : State :=
  match s.answering line, resultOf line with
  | some id, some result => { s with promises := s.promises.note id result }
  | _, _ => s

/-- The pending request with the id of the line. -/
def find (s : State) (id : Json) : Option Nat := s.pending.find? fun n => (Json.num n).same id

/-- `handleLine`, with what `JSON.parse` gives. -/
def handleLine (s : State) : Option Json → State
  | none => s
  | some line =>
    if line.isObject then
      match line.get "id" with
      | some id =>
        match s.find id with
        | none => s
        | some n =>
          match resultOf line with
          | some result => { s with pending := s.pending.erase n }.settlePromise n (.answered result)
          | none => { s with pending := s.pending.erase n, threw := true }
      | none =>
        match line.get "method" with
        | some (.str method) =>
          if (s.handlers method).isEmpty then s
          else { s with stack := .notifying method 0 :: s.stack }
        | _ => s
    else { s with threw := true }

/-- The requests that are being written. -/
def writes (s : State) : List Nat :=
  s.stack.filterMap fun call => match call with
    | .writing id => some id
    | .notifying _ _ => none

/-- A line may come when nothing is under way, or while a request is written. -/
def receives (s : State) : Bool :=
  match s.stack with
  | [] | .writing _ :: _ => true
  | .notifying _ _ :: _ => false

/-- A pending request is rejected by `close`. -/
def drop (s : State) (id : Nat) : State :=
  { s with pending := s.pending.erase id }.settlePromise id .closed

def close (s : State) : State := { s.pending.foldl drop s with closed := true }

end State

/-! ## Steps -/

/-- A request is made and its `write` ends or throws, a line comes, the next handler ends or
throws, a timer runs out, or the connection is closed. -/
inductive Label
  | request (method : List Char) (params : Option Json)
  | wrote (fails : Bool)
  | line (parsed : Option Json)
  | call (throws : Bool)
  | onNotification (method : List Char) (handler : Nat)
  | timeout (id : Nat)
  | close

/-- On a closed connection a request is rejected at once. -/
def step (s : State) : Label → Option State
  | .request method params =>
    if s.closed then some s
    else some { s with
      nextId := s.nextId + 1
      stack := .writing s.nextId :: s.stack
      written := s.written ++ [(s.nextId, bodyOf s.nextId method params)] }
  | .wrote fails =>
    match s.stack with
    | .writing id :: rest =>
      if fails then some ({ s with stack := rest }.settlePromise id .threw)
      else some { s with stack := rest, pending := s.pending ++ [id] }
    | _ => none
  | .line parsed =>
    if s.receives then
      if s.closed then some s else some ((parsed.elim s s.note).handleLine parsed)
    else none
  | .call throws =>
    match s.stack with
    | .notifying method next :: rest =>
      match (s.handlers method)[next]? with
      | some _ =>
        if throws then some { s with stack := rest, threw := true }
        else some { s with stack := .notifying method (next + 1) :: rest }
      | none => some { s with stack := rest }
    | _ => none
  | .onNotification method handler =>
    some { s with
      handlers := Function.update s.handlers method (s.handlers method ++ [handler]) }
  | .timeout id =>
    if s.stack.isEmpty && s.pending.contains id then
      some ({ s with pending := s.pending.erase id }.settlePromise id .timedOut)
    else none
  | .close => some s.close

/-! ## The property -/

structure Settled (s : State) : Prop where
  promises : s.promises.Kept .answered
  nothingThrown : s.threw = false
  closed : s.closed = true → s.stack = [] → ∀ id, 1 ≤ id → id < s.nextId →
    s.promises.isSettled id = true

/-! ## The condition -/

/-- The line is an object; if it has the id of a pending request, the message of its error has
a text; and it has not the id of a request that is being written. -/
def State.good (s : State) (line : Json) : Bool :=
  line.isObject &&
    match line.get "id" with
    | some id =>
      ((s.find id).isNone || (resultOf line).isSome) && s.writes.all fun n => !(Json.num n).same id
    | none => true

/-- The lines are `good`, no handler throws, and the connection is not closed while a request
is written. -/
def Tame (s : State) : Label → Prop
  | .line (some line) => s.closed = true ∨ s.good line = true
  | .call throws => throws = false
  | .close => s.writes = []
  | _ => True

/-! ## The invariant -/

variable {s t : State} {l : Label} {id : Nat} {line : Json}

/-- The requests that are pending or being written. -/
def State.opens (s : State) : List Nat := s.pending ++ s.writes

structure Opens (s : State) : Prop where
  known : ∀ id, 1 ≤ id → id < s.nextId → s.promises.isSettled id = true ∨ id ∈ s.opens
  distinct : s.opens.Nodup
  unsettled : ∀ id ∈ s.opens, s.promises.isSettled id = false
  old : ∀ id ∈ s.opens, id < s.nextId
  written : ∀ id ∈ s.opens, ∃ w ∈ s.written, w.1 = id
  ownId : ∀ w ∈ s.written, w.2.get "id" = some (.num w.1)
  settledOld : ∀ id, s.promises.isSettled id = true → id < s.nextId
  writtenKnown : ∀ w ∈ s.written, s.promises.isSettled w.1 = true ∨ w.1 ∈ s.opens
  closed : s.closed = true → s.opens = []

structure Inv (s : State) : Prop where
  opens : Opens s
  promises : s.promises.Kept .answered
  nothingThrown : s.threw = false

theorem inv_init : Inv .init where
  opens := by
    constructor <;>
      simp [State.init, Promises.isSettled, Promises.none, State.opens, State.writes]
    omega
  promises := Promises.kept_none
  nothingThrown := rfl

/-! ## Promises -/

/-- An open request is settled and is not open any more. -/
theorem Inv.settle (hs : Inv s) (hid : id ∈ s.opens) (pending : List Nat) (stack : List Call)
    (promises : Promises (Except RpcError (Option Json)) Outcome)
    (hdistinct : ({ s with pending, stack } : State).opens.Nodup)
    (hopens : ∀ n, n ∈ ({ s with pending, stack } : State).opens ↔ n ∈ s.opens ∧ n ≠ id)
    (hsettled : ∀ n, promises.isSettled n = true ↔ s.promises.isSettled n = true ∨ n = id)
    (hkept : promises.Kept .answered) : Inv { s with pending, stack, promises } where
  opens :=
    { known := by
        intro n hpos hold
        by_cases hn : n = id
        · exact .inl ((hsettled n).2 (.inr hn))
        · rcases hs.opens.known n hpos hold with h | h
          · exact .inl ((hsettled n).2 (.inl h))
          · exact .inr ((hopens n).2 ⟨h, hn⟩)
      distinct := hdistinct
      unsettled := by
        intro n hn
        obtain ⟨hmem, hne⟩ := (hopens n).1 hn
        rw [Bool.eq_false_iff, ne_eq]
        intro h
        rcases (hsettled n).1 h with h | h
        · rw [hs.opens.unsettled n hmem] at h
          cases h
        · exact hne h
      old := fun n hn => hs.opens.old n ((hopens n).1 hn).1
      written := fun n hn => hs.opens.written n ((hopens n).1 hn).1
      ownId := hs.opens.ownId
      settledOld := by
        intro n hn
        rcases (hsettled n).1 hn with hn | rfl
        · exact hs.opens.settledOld n hn
        · exact hs.opens.old n hid
      writtenKnown := by
        intro w hw
        by_cases hn : w.1 = id
        · exact .inl ((hsettled w.1).2 (.inr hn))
        · rcases hs.opens.writtenKnown w hw with h | h
          · exact .inl ((hsettled w.1).2 (.inl h))
          · exact .inr ((hopens w.1).2 ⟨h, hn⟩)
      closed := by
        intro hclosed
        have hempty := hs.opens.closed hclosed
        rw [hempty] at hid
        cases hid }
  promises := hkept
  nothingThrown := hs.nothingThrown

theorem Inv.settlePending (hs : Inv s) (hid : id ∈ s.pending)
    (promises : Promises (Except RpcError (Option Json)) Outcome)
    (hsettled : ∀ n, promises.isSettled n = true ↔ s.promises.isSettled n = true ∨ n = id)
    (hkept : promises.Kept .answered) :
    Inv { s with pending := s.pending.erase id, promises } := by
  have hopen : id ∈ s.opens := List.mem_append_left _ hid
  have heq : ({ s with pending := s.pending.erase id } : State).opens = s.opens.erase id :=
    (List.erase_append_left _ hid).symm
  refine hs.settle hopen (s.pending.erase id) s.stack promises ?_ ?_ hsettled hkept
  · rw [heq]
    exact hs.opens.distinct.erase id
  · intro n
    rw [heq, hs.opens.distinct.mem_erase_iff]
    exact and_comm

theorem inv_drop (hs : Inv s) (hid : id ∈ s.pending) : Inv (s.drop id) :=
  hs.settlePending hid (s.promises.settle id .closed) (fun _ => Promises.isSettled_settle)
    (hs.promises.settle nofun)

/-- `close` rejects one pending request after the other, until none is left. -/
theorem inv_dropAll {ids : List Nat} (hs : Inv s) (hids : s.pending = ids) (hwrites : s.writes = []) :
    Inv (ids.foldl State.drop s) ∧ (ids.foldl State.drop s).opens = [] := by
  induction ids generalizing s with
  | nil =>
      refine ⟨hs, ?_⟩
      show s.pending ++ s.writes = []
      rw [hids, hwrites]
      rfl
  | cons id rest ih =>
      refine ih (inv_drop hs (hids ▸ List.mem_cons_self)) ?_ hwrites
      show s.pending.erase id = rest
      rw [hids, List.erase_cons_head]

theorem inv_close (hs : Inv s) (hwrites : s.writes = []) : Inv s.close := by
  obtain ⟨hinv, hempty⟩ := inv_dropAll hs rfl hwrites
  exact ⟨{ hinv.opens with closed := fun _ => hempty }, hinv.promises, hinv.nothingThrown⟩

/-! ## Lines -/

theorem find_eq_some {id : Json} {n : Nat} (h : s.find id = some n) : n ∈ s.pending ∧ id = .num n := by
  have hsame := List.find?_some h
  exact ⟨List.mem_of_find?_eq_some h, Json.same_num_left hsame⟩

/-- A line answers a request that was written with its id. -/
theorem Inv.answering_eq_some (hs : Inv s) :
    s.answering line = some id ↔
      line.get "id" = some (.num id) ∧ ∃ w ∈ s.written, w.1 = id := by
  unfold State.answering
  have hown : ∀ w ∈ s.written, ∀ lineId : Json,
      ((w.2.get "id").any fun written => written.same lineId) = true ↔ lineId = .num w.1 := by
    intro w hw lineId
    rw [hs.opens.ownId w hw, Option.any_some]
    refine ⟨Json.same_num_left, ?_⟩
    intro h
    rw [h, Json.same_num]
  cases hline : line.get "id" with
  | none => simp
  | some lineId =>
      dsimp only
      constructor
      · intro h
        obtain ⟨w, hfind, hw⟩ := Option.map_eq_some_iff.1 h
        have hmem := List.mem_of_find?_eq_some hfind
        have hfound := List.find?_some hfind
        have hsame := (hown w hmem lineId).1 hfound
        exact ⟨by rw [hsame, hw], w, hmem, hw⟩
      · rintro ⟨hid, w, hw, rfl⟩
        rw [Option.some.injEq] at hid
        have hsome : (s.written.find? fun w => (w.2.get "id").any fun written => written.same lineId).isSome := by
          rw [List.find?_isSome]
          exact ⟨w, hw, (hown w hw lineId).2 hid⟩
        obtain ⟨v, hv⟩ := Option.isSome_iff_exists.1 hsome
        have hfound := List.find?_some hv
        have hsame := (hown v (List.mem_of_find?_eq_some hv) lineId).1 hfound
        rw [hid, Json.num.injEq] at hsame
        rw [hv, Option.map_some, hsame]

/-- A line that answers no open request is not noted. -/
theorem Inv.note_other (hs : Inv s) (h : ∀ n, line.get "id" = some (.num n) → n ∉ s.opens) :
    s.note line = s := by
  unfold State.note
  split
  · next n result hn _ =>
    rw [Promises.note_of_isSettled]
    obtain ⟨hid, w, hw, rfl⟩ := hs.answering_eq_some.1 hn
    exact (hs.opens.writtenKnown w hw).resolve_right (h w.1 hid)
  · rfl

/-- The calls go on, and the same requests are open. -/
theorem Inv.setStack (hs : Inv s) (pending : List Nat) (stack : List Call)
    (hopens : ({ s with pending, stack } : State).opens = s.opens) :
    Inv { s with pending, stack } := by
  refine ⟨?_, hs.promises, hs.nothingThrown⟩
  exact
    { known := by
        rw [hopens]
        exact hs.opens.known
      distinct := by
        rw [hopens]
        exact hs.opens.distinct
      unsettled := by
        rw [hopens]
        exact hs.opens.unsettled
      old := by
        rw [hopens]
        exact hs.opens.old
      written := by
        rw [hopens]
        exact hs.opens.written
      ownId := hs.opens.ownId
      settledOld := hs.opens.settledOld
      writtenKnown := by
        rw [hopens]
        exact hs.opens.writtenKnown
      closed := by
        rw [hopens]
        exact hs.opens.closed }

/-- A line with no id is for the handlers of its method. -/
theorem inv_notify (hs : Inv s) (hobject : line.isObject = true) (hid : line.get "id" = none) :
    Inv ((s.note line).handleLine (some line)) := by
  rw [hs.note_other (by simp [hid])]
  simp only [State.handleLine, hobject, if_true, hid]
  split
  · split_ifs
    · exact hs
    · exact hs.setStack s.pending _ rfl
  · exact hs

theorem inv_answer (hs : Inv s) {lineId : Json} (hobject : line.isObject = true)
    (hid : line.get "id" = some lineId)
    (hresult : s.find lineId = none ∨ (resultOf line).isSome = true)
    (hwrites : ∀ n ∈ s.writes, (Json.num n).same lineId = false) :
    Inv ((s.note line).handleLine (some line)) := by
  cases hfind : s.find lineId with
  | none =>
      have hnote : s.note line = s := by
        refine hs.note_other ?_
        intro n hn hopen
        rw [hid, Option.some.injEq] at hn
        rcases List.mem_append.1 hopen with hmem | hmem
        · have hnone := List.find?_eq_none.1 hfind n hmem
          rw [hn, Json.same_num] at hnone
          exact hnone rfl
        · have hnone := hwrites n hmem
          rw [hn] at hnone
          simp [Json.same] at hnone
      rw [hnote]
      simp only [State.handleLine, hobject, if_true, hid, hfind]
      exact hs
  | some n =>
      obtain ⟨hmem, hnum⟩ := find_eq_some hfind
      obtain ⟨result, hresult⟩ := Option.isSome_iff_exists.1 (hresult.resolve_left (by simp [hfind]))
      have hopen : n ∈ s.opens := List.mem_append_left _ hmem
      have hhandle : (s.note line).handleLine (some line) = { s with
          pending := s.pending.erase n
          promises := (s.promises.note n result).settle n (.answered result) } := by
        have hanswer := hs.answering_eq_some.2 ⟨by rw [hid, hnum], hs.opens.written n hopen⟩
        have hfind' : ({ s with promises := s.promises.note n result } : State).find lineId =
            some n := hfind
        simp only [State.note, hanswer, hresult, State.handleLine, hobject, if_true, hid, hfind',
          State.settlePromise]
      rw [hhandle]
      refine hs.settlePending hmem _ ?_
        (hs.promises.answer (fun _ _ => Outcome.answered.inj) n result)
      intro m
      rw [Promises.isSettled_settle, Promises.isSettled_note]

theorem inv_line (hs : Inv s) (hgood : s.good line = true) :
    Inv ((s.note line).handleLine (some line)) := by
  unfold State.good at hgood
  rw [Bool.and_eq_true] at hgood
  obtain ⟨hobject, hgood⟩ := hgood
  cases hid : line.get "id" with
  | none => exact inv_notify hs hobject hid
  | some lineId =>
      rw [hid] at hgood
      simp only [Bool.and_eq_true, Bool.or_eq_true, Option.isNone_iff_eq_none, List.all_eq_true,
        Bool.not_eq_true'] at hgood
      exact inv_answer hs hobject hid hgood.1 hgood.2

/-! ## Steps -/

theorem get_bodyOf (id : Nat) (method : List Char) (params : Option Json) :
    (bodyOf id method params).get "id" = some (.num id) := by
  have hne : ("id".toList == "jsonrpc".toList) = false := by decide
  simp only [bodyOf, Json.get, List.cons_append]
  rw [List.lookup_cons, hne, List.lookup_cons, beq_self_eq_true]

/-- A request gets the next id and is written. -/
theorem inv_request (hs : Inv s) (hopen : s.closed = false) (method : List Char)
    (params : Option Json) :
    Inv { s with
      nextId := s.nextId + 1
      stack := .writing s.nextId :: s.stack
      written := s.written ++ [(s.nextId, bodyOf s.nextId method params)] } := by
  have hmem : ∀ n, n ∈ s.pending ++ s.nextId :: s.writes ↔ n = s.nextId ∨ n ∈ s.opens := by
    intro n
    rw [List.mem_append, List.mem_cons, State.opens, List.mem_append]
    exact or_left_comm
  have hnew : s.nextId ∉ s.opens := fun h => Nat.lt_irrefl _ (hs.opens.old _ h)
  refine ⟨?_, hs.promises, hs.nothingThrown⟩
  refine
    { known := ?_
      distinct := List.nodup_middle.2 (List.nodup_cons.2 ⟨hnew, hs.opens.distinct⟩)
      unsettled := ?_
      old := ?_
      written := ?_
      ownId := ?_
      settledOld := fun n hn => Nat.lt_succ_of_lt (hs.opens.settledOld n hn)
      writtenKnown := ?_
      closed := ?_ }
  · intro n hpos hold
    by_cases hn : n = s.nextId
    · exact .inr ((hmem n).2 (.inl hn))
    · have hold' : n < s.nextId + 1 := hold
      rcases hs.opens.known n hpos (by omega) with h | h
      · exact .inl h
      · exact .inr ((hmem n).2 (.inr h))
  · intro n hn
    rcases (hmem n).1 hn with rfl | hn
    · rw [Bool.eq_false_iff]
      intro h
      exact absurd (hs.opens.settledOld _ h) (Nat.lt_irrefl _)
    · exact hs.opens.unsettled n hn
  · intro n hn
    rcases (hmem n).1 hn with rfl | hn
    · exact Nat.lt_succ_self _
    · exact Nat.lt_succ_of_lt (hs.opens.old n hn)
  · intro n hn
    rcases (hmem n).1 hn with rfl | hn
    · exact ⟨_, List.mem_append_right _ (List.mem_singleton_self _), rfl⟩
    · obtain ⟨w, hw, hid⟩ := hs.opens.written n hn
      exact ⟨w, List.mem_append_left _ hw, hid⟩
  · intro w hw
    rcases List.mem_append.1 hw with hw | hw
    · exact hs.opens.ownId w hw
    · rw [List.mem_singleton.1 hw]
      exact get_bodyOf s.nextId method params
  · intro w hw
    rcases List.mem_append.1 hw with hw | hw
    · exact (hs.opens.writtenKnown w hw).imp_right fun h => (hmem w.1).2 (.inr h)
    · rw [List.mem_singleton.1 hw]
      exact .inr ((hmem s.nextId).2 (.inl rfl))
  · intro hclosed
    have hclosed' : s.closed = true := hclosed
    rw [hopen] at hclosed'
    cases hclosed'

/-- A request is written; it is pending, or it throws. -/
theorem inv_wrote (hs : Inv s) {rest : List Call} (hstack : s.stack = .writing id :: rest)
    (fails : Bool) (h : step s (.wrote fails) = some t) : Inv t := by
  have hopens : s.opens = s.pending ++ id :: ({ s with stack := rest } : State).writes := by
    rw [State.opens, State.writes, hstack]
    rfl
  have hid : id ∈ s.opens := by
    rw [hopens]
    exact List.mem_append_right _ List.mem_cons_self
  simp only [step, hstack] at h
  cases fails with
  | true =>
      rw [if_pos rfl] at h
      cases h
      have hdistinct := hs.opens.distinct
      rw [hopens, List.nodup_middle, List.nodup_cons] at hdistinct
      refine hs.settle hid s.pending rest (s.promises.settle id .threw) hdistinct.2 ?_
        (fun _ => Promises.isSettled_settle) (hs.promises.settle nofun)
      intro n
      show n ∈ s.pending ++ _ ↔ _
      rw [hopens, List.mem_append, List.mem_append, List.mem_cons]
      constructor
      · intro hn
        refine ⟨hn.imp_right .inr, ?_⟩
        rintro rfl
        exact hdistinct.1 (List.mem_append.2 hn)
      · rintro ⟨hn | rfl | hn, hne⟩
        · exact .inl hn
        · exact absurd rfl hne
        · exact .inr hn
  | false =>
      rw [if_neg (by simp)] at h
      cases h
      have hsame : ({ s with stack := rest, pending := s.pending ++ [id] } : State).opens =
          s.opens := by
        rw [hopens]
        exact List.append_assoc _ _ _
      exact hs.setStack _ rest hsame

theorem inv_timeout (hs : Inv s) (hid : id ∈ s.pending) :
    Inv ({ s with pending := s.pending.erase id }.settlePromise id .timedOut) :=
  hs.settlePending hid (s.promises.settle id .timedOut) (fun _ => Promises.isSettled_settle)
    (hs.promises.settle nofun)

theorem opens_notifying {method : List Char} {next : Nat} {rest : List Call}
    (hstack : s.stack = .notifying method next :: rest) :
    ({ s with stack := rest } : State).opens = s.opens := by
  rw [State.opens, State.opens, State.writes, State.writes, hstack]
  rfl

theorem inv_step (hs : Inv s) (hok : Tame s l) (h : step s l = some t) : Inv t := by
  cases l with
  | request method params =>
      simp only [step] at h
      split_ifs at h with hclosed
      · cases h
        exact hs
      · cases h
        exact inv_request hs (by simpa using hclosed) method params
  | wrote fails =>
      cases hstack : s.stack with
      | nil => simp [step, hstack] at h
      | cons call rest =>
          cases call with
          | writing id => exact inv_wrote hs hstack fails h
          | notifying method next => simp [step, hstack] at h
  | line parsed =>
      simp only [step] at h
      split_ifs at h with hreceives hclosed
      · cases h
        exact hs
      · cases h
        cases parsed with
        | none => exact hs
        | some line => exact inv_line hs (hok.resolve_left hclosed)
  | call throws =>
      have hthrows : throws = false := hok
      simp only [step, hthrows] at h
      split at h
      · next method next rest hstack =>
        have hopens := opens_notifying hstack
        split at h
        · cases h
          exact hs.setStack s.pending (.notifying method (next + 1) :: rest) hopens
        · cases h
          exact hs.setStack s.pending rest hopens
      · cases h
  | onNotification method handler =>
      cases h
      exact ⟨{ hs.opens with }, hs.promises, hs.nothingThrown⟩
  | timeout id =>
      simp only [step] at h
      split_ifs at h with hdue
      cases h
      rw [Bool.and_eq_true, List.contains_iff_mem] at hdue
      exact inv_timeout hs hdue.2
  | close =>
      cases h
      exact inv_close hs hok

/-- The promises are settled by their own answers, when every line is an object and says its
error in words, none answers a request that is being written, no handler throws, and the
connection is not closed during a `write`. -/
theorem settled_of_run {ls : List Label} (h : Run step Tame .init ls s) : Settled s := by
  have hs : Inv s := h.invariant inv_init fun _ _ _ hs hok hstep => inv_step hs hok hstep
  refine ⟨hs.promises, hs.nothingThrown, ?_⟩
  intro hclosed _ id hpos hold
  rcases hs.opens.known id hpos hold with h | h
  · exact h
  · rw [hs.opens.closed hclosed] at h
    cases h

/-! ## Requests that go astray -/

def hears (fields : List (String × Json)) : Label := .line (some (.object fields))

/-- A line is `null`. -/
def scalar : List Label := [.line (some .null)]

/-- The answer comes during `write`. -/
def early : List Label := [.request [] none, hears [("id", .num 1)], .wrote false]

/-- A handler throws. -/
def failing : List Label :=
  [.onNotification "m".toList 0, hears [("method", .str "m".toList)], .call true]

/-- The message of an error has no text. -/
def wordless : List Label :=
  [.request [] none, .wrote false,
    hears [("id", .num 1), ("error", .object [("message", .object [("toString", .num 1)])])]]

/-- The connection is closed during `write`. -/
def cut : List Label := [.request [] none, .close, .wrote false]

def hasLost (s : State) : Bool := s.promises.lost

def hasThrown (s : State) : Bool := s.threw

def hasLeft (s : State) : Bool :=
  s.closed && s.stack.isEmpty && s.nextId == 2 && !s.promises.isSettled 1

theorem not_settled_of_lost {s : State} (h : hasLost s = true) : ¬ Settled s :=
  fun hs => Promises.not_kept_of_lost h hs.promises

theorem not_settled_of_thrown {s : State} (h : hasThrown s = true) : ¬ Settled s := by
  intro hs
  have hnothing := hs.nothingThrown
  rw [show s.threw = true from h] at hnothing
  cases hnothing

theorem not_settled_of_left {s : State} (h : hasLeft s = true) : ¬ Settled s := by
  intro hs
  simp only [hasLeft, Bool.and_eq_true, List.isEmpty_iff, beq_iff_eq, Bool.not_eq_true'] at h
  obtain ⟨⟨⟨hclosed, hstack⟩, hnext⟩, hleft⟩ := h
  rw [hs.closed hclosed hstack 1 (Nat.le_refl 1) (by omega)] at hleft
  cases hleft

theorem exists_notSettled {ls : List Label} (test : State → Bool)
    (h : (exec step free .init ls).any test = true) (hnot : ∀ s, test s = true → ¬ Settled s) :
    ∃ s, Run step free .init ls s ∧ test s = true ∧ ¬ Settled s := by
  obtain ⟨s, hrun, hs⟩ := Run.exists_of_exec test h
  exact ⟨s, hrun, hs, hnot s hs⟩

instance (s : State) (l : Label) : Decidable (Tame s l) :=
  match l with
  | .line (some _) => inferInstanceAs (Decidable (_ ∨ _))
  | .call _ => inferInstanceAs (Decidable (_ = _))
  | .close => inferInstanceAs (Decidable (_ = _))
  | .line none | .request _ _ | .wrote _ | .onNotification _ _ | .timeout _ => isTrue trivial

/-- Two answers in the other order, a timer that runs out, a notification, and a close with a
request that is pending. -/
def tame : List Label :=
  [.request [] none, .wrote false, .request [] (some .null), .wrote false,
    .onNotification "m".toList 0, hears [("method", .str "m".toList)], .call false, .call false,
    hears [("id", .num 2)], hears [("id", .num 2)], .line none,
    hears [("id", .num 1), ("error", .object [("code", .num 3)])], .request [] none, .wrote false,
    .timeout 3, .request [] none, .wrote false, .close]

def allSettled (s : State) : Bool := [1, 2, 3, 4].all s.promises.isSettled

end Vanyline.Protocol.Connection
