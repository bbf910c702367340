import Mathlib.Data.List.Nodup
import Vanyline.Lib.TextLines

/-!
# The events of a streamed turn

The stream of a turn is translated item by item into events for the sink, and accumulated into the
result of the turn.

* `StreamAccumulator.apply` is the translation of one item, `streamAgentEvents` the loop over the
  stream.  The stream is a list of items and errors, and what the loop does not take of it is the
  last part of its outcome.
* The arguments of a call are any type, as they are only passed on.
* `Agrees` is what the records and the events have in common, as it can be read off the events
  alone: `beforeCall` and `afterCall` divide them at the call of an id, and `resultsOf` are its
  results.  `apply_tracks` is the step, `streamAgentEvents_agrees` the result for a whole stream.
-/

namespace Vanyline.Session.TurnStream

open Vanyline.Lib.TextLines (Text)

/-! ## Items and events -/

inductive ReasoningContent
  | text (text : Text)
  | summary (text : Text)
  | other

inductive ToolResultContent
  | text (text : Text)
  | image

/-- An item of the stream; `other` are those that the generic branch takes. -/
inductive Item (V : Type)
  | text (text : Text)
  | reasoningDelta (reasoning : Text)
  | reasoning (content : List ReasoningContent)
  | toolCall (name : Text) (arguments : V) (internalCallId : Text)
  | toolResult (content : List ToolResultContent) (internalCallId : Text)
  | completionCall (usage : Option (Nat × Nat))
  | finalResponse
  | other

/-- The events that this part of the program emits. -/
inductive ChatEvent (V : Type)
  | token (content : Text)
  | reasoningDelta (content : Text)
  | toolCall (id name : Text) (args : V)
  | toolResult (id name result : Text) (isError : Bool)
  | usage (inputTokens outputTokens : Nat)
  | done
  | error (code message : Text)

structure ToolCallRecord (V : Type) where
  id : Text
  name : Text
  arguments : V
  result : Option Text

structure ChatTurnResult (V : Type) where
  responseText : Text
  toolCalls : List (ToolCallRecord V)

structure StreamAccumulator (V : Type) where
  responseText : Text
  toolCalls : List (ToolCallRecord V)
  pendingNames : List (Text × Text)

def StreamAccumulator.new (V : Type) : StreamAccumulator V := ⟨[], [], []⟩

variable {V : Type}

/-! ## One item -/

def reasoningText (content : List ReasoningContent) : Text :=
  content.flatMap fun
    | .text text => text
    | .summary text => text
    | .other => []

/-- The texts of a result, without its images. -/
def resultText (content : List ToolResultContent) : Text :=
  content.flatMap fun
    | .text text => text
    | .image => []

/-- `HashMap::remove`, without the value. -/
def removeName (id : Text) (names : List (Text × Text)) : List (Text × Text) :=
  names.filter fun entry => !(entry.1 == id)

/-- `HashMap::insert`. -/
def insertName (id name : Text) (names : List (Text × Text)) : List (Text × Text) :=
  (id, name) :: removeName id names

/-- The first record with the id gets the result. -/
def setResult (id result : Text) : List (ToolCallRecord V) → List (ToolCallRecord V)
  | [] => []
  | record :: rest =>
    if record.id = id then { record with result := some result } :: rest
    else record :: setResult id result rest

/-- One item: the accumulator behind it, its events, and whether the stream is to be left. -/
def StreamAccumulator.apply (acc : StreamAccumulator V) :
    Item V → StreamAccumulator V × List (ChatEvent V) × Bool
  | .text text =>
    ({ acc with responseText := acc.responseText ++ text }, [.token text], false)
  | .reasoningDelta reasoning => (acc, [.reasoningDelta reasoning], false)
  | .reasoning content =>
    let text := reasoningText content
    if text.isEmpty then (acc, [], false) else (acc, [.reasoningDelta text], false)
  | .toolCall name arguments id =>
    ({ acc with
        pendingNames := insertName id name acc.pendingNames
        toolCalls := acc.toolCalls ++ [⟨id, name, arguments, none⟩] },
      [.toolCall id name arguments], false)
  | .toolResult content id =>
    let name := (acc.pendingNames.lookup id).getD []
    ({ acc with
        pendingNames := removeName id acc.pendingNames
        toolCalls := setResult id (resultText content) acc.toolCalls },
      [.toolResult id name (resultText content) false], false)
  | .completionCall (some (input, output)) => (acc, [.usage input output], false)
  | .completionCall none => (acc, [], false)
  | .finalResponse => (acc, [], true)
  | .other => (acc, [], false)

theorem StreamAccumulator.apply_reasoning (acc : StreamAccumulator V)
    (content : List ReasoningContent) : acc.apply (.reasoning content) =
      (acc, if (reasoningText content).isEmpty then [] else
        [.reasoningDelta (reasoningText content)], false) := by
  show (if (reasoningText content).isEmpty then _ else _) = _
  split_ifs <;> rfl

/-! ## The loop -/

/-- What a turn comes to: the events that were emitted, the value that is returned (an error with
its text), and what was not taken from the stream. -/
structure Outcome (V : Type) where
  events : List (ChatEvent V)
  result : Except Text (ChatTurnResult V)
  rest : List (Except Text (Item V))

def StreamAccumulator.finish (acc : StreamAccumulator V) (events : List (ChatEvent V))
    (rest : List (Except Text (Item V))) : Outcome V :=
  ⟨events ++ [.done], .ok ⟨acc.responseText, acc.toolCalls⟩, rest⟩

/-- The loop, with the accumulator and the events so far. -/
def streamLoop (acc : StreamAccumulator V) (events : List (ChatEvent V)) :
    List (Except Text (Item V)) → Outcome V
  | [] => acc.finish events []
  | .error e :: rest => ⟨events ++ [.error "VNL-LLM-001".toList e], .error e, rest⟩
  | .ok item :: rest =>
    if (acc.apply item).2.2 then (acc.apply item).1.finish (events ++ (acc.apply item).2.1) rest
    else streamLoop (acc.apply item).1 (events ++ (acc.apply item).2.1) rest

def streamAgentEvents (stream : List (Except Text (Item V))) : Outcome V :=
  streamLoop (.new V) [] stream

/-! ## What the events say -/

def ChatEvent.isTerminal : ChatEvent V → Bool
  | .done | .error _ _ => true
  | _ => false

def tokens (events : List (ChatEvent V)) : Text :=
  events.flatMap fun
    | .token content => content
    | _ => []

def calls (events : List (ChatEvent V)) : List (Text × Text × V) :=
  events.filterMap fun
    | .toolCall id name args => some (id, name, args)
    | _ => none

def ChatEvent.resultOf (id : Text) : ChatEvent V → Option (Text × Text)
  | .toolResult i name result _ => if i = id then some (name, result) else none
  | _ => none

/-- The names and results of the results of an id. -/
def resultsOf (id : Text) (events : List (ChatEvent V)) : List (Text × Text) :=
  events.filterMap (ChatEvent.resultOf id)

def ChatEvent.isCall (id : Text) : ChatEvent V → Bool
  | .toolCall i _ _ => i == id
  | _ => false

/-- The events up to the call of an id; all of them when it was not called. -/
def beforeCall (id : Text) (events : List (ChatEvent V)) : List (ChatEvent V) :=
  events.takeWhile fun e => !e.isCall id

/-- The events behind the call of an id. -/
def afterCall (id : Text) (events : List (ChatEvent V)) : List (ChatEvent V) :=
  (events.dropWhile fun e => !e.isCall id).tail

/-- The names of the results of a call: the first one has its name. -/
def resultNames (name : Text) : Nat → List Text
  | 0 => []
  | n + 1 => name :: List.replicate n []

/-- A record has the last result behind its call, and the first of these has the name of the
call. -/
structure Agrees (events : List (ChatEvent V)) (record : ToolCallRecord V) : Prop where
  result : record.result =
    (resultsOf record.id (afterCall record.id events)).getLast?.map Prod.snd
  names : (resultsOf record.id (afterCall record.id events)).map Prod.fst =
    resultNames record.name (resultsOf record.id (afterCall record.id events)).length

/-- Results that come before the call of their id have no name. -/
def EarlyUnnamed (events : List (ChatEvent V)) : Prop :=
  ∀ id, ∀ entry ∈ resultsOf id (beforeCall id events), entry.1 = []

/-- The loop stops behind these. -/
def ends : Except Text (Item V) → Bool
  | .error _ | .ok .finalResponse => true
  | .ok _ => false

/-- The ids of the calls in a stream. -/
def callIds (stream : List (Except Text (Item V))) : List Text :=
  stream.filterMap fun
    | .ok (.toolCall _ _ id) => some id
    | _ => none

/-- The events and the result of a stream agree. -/
structure Consistent (stream : List (Except Text (Item V))) (o : Outcome V) : Prop where
  ending : ∃ body last, o.events = body ++ [last] ∧ (∀ e ∈ body, e.isTerminal = false) ∧
    ((∃ r, o.result = .ok r) ∧ last = .done ∨
      ∃ e, o.result = .error e ∧ last = .error "VNL-LLM-001".toList e)
  text : ∀ r, o.result = .ok r → r.responseText = tokens o.events
  calls : ∀ r, o.result = .ok r →
    r.toolCalls.map (fun record => (record.id, record.name, record.arguments)) = calls o.events
  records : ∀ r, o.result = .ok r → ∀ record ∈ r.toolCalls, Agrees o.events record
  early : EarlyUnnamed o.events
  rest : o.rest = (stream.dropWhile fun x => !ends x).tail

/-! ## One more event -/

section Events

variable {id : Text} {events : List (ChatEvent V)} {e : ChatEvent V}

/-- The id was called. -/
def Called (id : Text) (events : List (ChatEvent V)) : Prop := ∃ e ∈ events, e.isCall id = true

theorem resultsOf_append (id : Text) (events more : List (ChatEvent V)) :
    resultsOf id (events ++ more) = resultsOf id events ++ resultsOf id more :=
  List.filterMap_append

theorem dropWhile_ne_nil (h : Called id events) :
    events.dropWhile (fun e => !e.isCall id) ≠ [] := by
  obtain ⟨e, he, hcall⟩ := h
  intro hnil
  have hall := List.dropWhile_eq_nil_iff.1 hnil e he
  rw [hcall] at hall
  cases hall

theorem not_isCall_of_not_called (h : ¬ Called id events) :
    ∀ e ∈ events, (!e.isCall id) = true := by
  intro e he
  rw [Bool.not_eq_true']
  exact Bool.eq_false_iff.2 fun hcall => h ⟨e, he, hcall⟩

theorem afterCall_of_called (h : Called id events) (more : List (ChatEvent V)) :
    afterCall id (events ++ more) = afterCall id events ++ more := by
  have hne := dropWhile_ne_nil h
  unfold afterCall
  rw [List.dropWhile_append, if_neg, List.tail_append_of_ne_nil hne]
  rw [List.isEmpty_iff]
  exact hne

theorem beforeCall_of_called (h : Called id events) (more : List (ChatEvent V)) :
    beforeCall id (events ++ more) = beforeCall id events := by
  unfold beforeCall
  rw [List.takeWhile_append, if_neg]
  intro hlength
  obtain ⟨e, he, hcall⟩ := h
  have htake := (List.takeWhile_prefix (fun e : ChatEvent V => !e.isCall id)).eq_of_length hlength
  have hall := List.takeWhile_eq_self_iff.1 htake e he
  rw [hcall] at hall
  cases hall

theorem beforeCall_of_not_called (h : ¬ Called id events) : beforeCall id events = events :=
  List.takeWhile_eq_self_iff.2 (not_isCall_of_not_called h)

theorem afterCall_of_not_called (h : ¬ Called id events) : afterCall id events = [] := by
  unfold afterCall
  rw [List.dropWhile_eq_nil_iff.2 (not_isCall_of_not_called h)]
  rfl

theorem called_concat : Called id (events ++ [e]) ↔ Called id events ∨ e.isCall id = true := by
  unfold Called
  constructor
  · rintro ⟨x, hx, hcall⟩
    rcases List.mem_append.1 hx with hx | hx
    · exact .inl ⟨x, hx, hcall⟩
    · rw [List.mem_singleton.1 hx] at hcall
      exact .inr hcall
  · rintro (⟨x, hx, hcall⟩ | hcall)
    · exact ⟨x, List.mem_append_left _ hx, hcall⟩
    · exact ⟨e, List.mem_append_right _ List.mem_cons_self, hcall⟩

theorem afterCall_of_new (h : ¬ Called id events) : afterCall id (events ++ [e]) = [] := by
  unfold afterCall
  rw [List.dropWhile_append, if_pos]
  · by_cases hcall : e.isCall id = true
    · rw [List.dropWhile_cons, if_neg]
      · rfl
      · rw [hcall]
        exact Bool.false_ne_true
    · rw [List.dropWhile_cons, if_pos]
      · rfl
      · rw [Bool.not_eq_true']
        exact Bool.eq_false_iff.2 hcall
  · rw [List.isEmpty_iff]
    exact List.dropWhile_eq_nil_iff.2 (not_isCall_of_not_called h)

theorem called_iff : Called id events ↔ id ∈ (calls events).map Prod.fst := by
  unfold Called calls
  simp only [List.mem_map, List.mem_filterMap]
  constructor
  · rintro ⟨e, he, hcall⟩
    cases e with
    | toolCall i name args =>
      exact ⟨(i, name, args), ⟨_, he, rfl⟩, beq_iff_eq.1 hcall⟩
    | _ => cases hcall
  · rintro ⟨⟨i, name, args⟩, ⟨e, he, hsome⟩, rfl⟩
    cases e with
    | toolCall j name' args' =>
      refine ⟨_, he, ?_⟩
      rw [(Prod.mk.inj (Option.some.inj hsome)).1]
      exact beq_self_eq_true _
    | _ => cases hsome

theorem results_after_quiet (h : resultsOf id [e] = []) :
    resultsOf id (afterCall id (events ++ [e])) = resultsOf id (afterCall id events) := by
  by_cases hcalled : Called id events
  · rw [afterCall_of_called hcalled, resultsOf_append, h, List.append_nil]
  · rw [afterCall_of_new hcalled, afterCall_of_not_called hcalled]

theorem results_before_quiet (h : resultsOf id [e] = []) :
    resultsOf id (beforeCall id (events ++ [e])) = resultsOf id (beforeCall id events) := by
  by_cases hcalled : Called id events
  · rw [beforeCall_of_called hcalled]
  · rw [beforeCall_of_not_called hcalled]
    by_cases hcall : e.isCall id = true
    · unfold beforeCall
      rw [List.takeWhile_append, if_pos]
      · rw [List.takeWhile_cons, if_neg, List.append_nil]
        rw [hcall]
        exact Bool.false_ne_true
      · rw [List.takeWhile_eq_self_iff.2 (not_isCall_of_not_called hcalled)]
    · have hnot : ¬ Called id (events ++ [e]) := by
        rw [called_concat]
        exact not_or.2 ⟨hcalled, hcall⟩
      rw [beforeCall_of_not_called hnot, resultsOf_append, h, List.append_nil]

theorem Agrees.of_eq {events' : List (ChatEvent V)} {record : ToolCallRecord V}
    (h : Agrees events record)
    (heq : resultsOf record.id (afterCall record.id events') =
      resultsOf record.id (afterCall record.id events)) : Agrees events' record where
  result := by rw [heq, h.result]
  names := by rw [heq, h.names]

end Events

/-! ## One more item -/

def ids (records : List (ToolCallRecord V)) : List Text := records.map ToolCallRecord.id

/-- The accumulator is what the events say. -/
structure Tracks (acc : StreamAccumulator V) (events : List (ChatEvent V)) : Prop where
  text : acc.responseText = tokens events
  calls : acc.toolCalls.map (fun record => (record.id, record.name, record.arguments)) =
    calls events
  distinct : (ids acc.toolCalls).Nodup
  agrees : ∀ record ∈ acc.toolCalls, Agrees events record
  pending : ∀ record ∈ acc.toolCalls, acc.pendingNames.lookup record.id =
    if resultsOf record.id (afterCall record.id events) = [] then some record.name else none
  unannounced : ∀ id, id ∉ ids acc.toolCalls → acc.pendingNames.lookup id = none
  early : EarlyUnnamed events
  running : ∀ e ∈ events, e.isTerminal = false

section Names

variable {id other name : Text} {names : List (Text × Text)}

theorem lookup_removeName_self : (removeName id names).lookup id = none := by
  rw [List.lookup_eq_none_iff]
  intro entry hentry
  have hkeep := (List.mem_filter.1 hentry).2
  rw [Bool.not_eq_true', beq_eq_false_iff_ne] at hkeep
  exact bne_iff_ne.2 (Ne.symm hkeep)

theorem lookup_removeName_of_ne (h : other ≠ id) :
    (removeName id names).lookup other = names.lookup other := by
  induction names with
  | nil => rfl
  | cons entry names ih =>
    unfold removeName at ih ⊢
    rw [List.filter_cons]
    split_ifs with hkeep
    · rw [List.lookup_cons, List.lookup_cons, ih]
    · rw [Bool.not_eq_true', beq_eq_false_iff_ne, not_not] at hkeep
      rw [ih, List.lookup_cons, beq_eq_false_iff_ne.2 (by rw [hkeep]; exact h)]

theorem lookup_insertName_self : (insertName id name names).lookup id = some name :=
  List.lookup_cons_self

theorem lookup_insertName_of_ne (h : other ≠ id) :
    (insertName id name names).lookup other = names.lookup other := by
  unfold insertName
  rw [List.lookup_cons, beq_eq_false_iff_ne.2 h]
  exact lookup_removeName_of_ne h

end Names

/-- With distinct ids, the first record with an id is the only one. -/
theorem setResult_eq {records : List (ToolCallRecord V)} (h : (ids records).Nodup)
    (id result : Text) : setResult id result records = records.map fun record =>
      if record.id = id then { record with result := some result } else record := by
  induction records with
  | nil => rfl
  | cons record records ih =>
    obtain ⟨hfresh, hrest⟩ := List.nodup_cons.1 h
    unfold setResult
    rw [List.map_cons]
    split_ifs with heq
    · congr 1
      conv_lhs => rw [← List.map_id records]
      apply List.map_congr_left
      intro other hother
      rw [if_neg]
      · rfl
      · intro hid
        apply hfresh
        rw [heq, ← hid]
        exact List.mem_map_of_mem hother
    · rw [ih hrest]

theorem Tracks.called {acc : StreamAccumulator V} {events : List (ChatEvent V)}
    (h : Tracks acc events) {id : Text} : Called id events ↔ id ∈ ids acc.toolCalls := by
  rw [called_iff, ← h.calls, List.map_map]
  exact Iff.rfl

section Steps

variable {acc : StreamAccumulator V} {events : List (ChatEvent V)}

theorem early_quiet {e : ChatEvent V} (h : EarlyUnnamed events)
    (hquiet : ∀ id, resultsOf id [e] = []) : EarlyUnnamed (events ++ [e]) := by
  intro id entry hentry
  rw [results_before_quiet (hquiet id)] at hentry
  exact h id entry hentry

theorem running_concat {e : ChatEvent V} (h : ∀ e ∈ events, e.isTerminal = false)
    (he : e.isTerminal = false) : ∀ x ∈ events ++ [e], x.isTerminal = false := by
  intro x hx
  rcases List.mem_append.1 hx with hx | hx
  · exact h x hx
  · rw [List.mem_singleton.1 hx]
    exact he

/-- An event that is neither a call nor a result, with its text. -/
theorem Tracks.quiet {e : ChatEvent V} {text : Text} (h : Tracks acc events)
    (htext : tokens [e] = text) (hcalls : TurnStream.calls [e] = [])
    (hresults : ∀ id, resultsOf id [e] = []) (he : e.isTerminal = false) :
    Tracks { acc with responseText := acc.responseText ++ text } (events ++ [e]) where
  text := by
    show acc.responseText ++ text = tokens (events ++ [e])
    unfold tokens at htext ⊢
    rw [List.flatMap_append, htext, h.text]
    rfl
  calls := by
    unfold TurnStream.calls at hcalls ⊢
    rw [List.filterMap_append, hcalls, List.append_nil]
    exact h.calls
  distinct := h.distinct
  agrees record hrecord := (h.agrees record hrecord).of_eq (results_after_quiet (hresults _))
  pending record hrecord := by
    rw [results_after_quiet (hresults _)]
    exact h.pending record hrecord
  unannounced := h.unannounced
  early := early_quiet h.early hresults
  running := running_concat h.running he

/-- A call with a new id. -/
theorem Tracks.toolCall {id name : Text} {arguments : V} (h : Tracks acc events)
    (hnew : id ∉ ids acc.toolCalls) :
    Tracks (acc.apply (.toolCall name arguments id)).1
      (events ++ [.toolCall id name arguments]) := by
  have hcalled : ¬ Called id events := fun hcalled => hnew (h.called.1 hcalled)
  have hresults : ∀ i, resultsOf i [ChatEvent.toolCall id name arguments] = [] := fun _ => rfl
  refine ⟨?_, ?_, ?_, ?_, ?_, ?_, early_quiet h.early hresults, running_concat h.running rfl⟩
  · show acc.responseText = tokens (events ++ _)
    unfold tokens
    rw [List.flatMap_append, h.text]
    exact (List.append_nil _).symm
  · show (acc.toolCalls ++ [_]).map _ = TurnStream.calls (events ++ [_])
    unfold TurnStream.calls
    rw [List.map_append, List.filterMap_append, h.calls]
    rfl
  · show (ids (acc.toolCalls ++ [_])).Nodup
    unfold ids
    rw [List.map_append]
    apply List.Nodup.append h.distinct (List.nodup_singleton _)
    intro i hi hi'
    rw [List.mem_singleton.1 hi'] at hi
    exact hnew hi
  · intro record hrecord
    rcases List.mem_append.1 hrecord with hrecord | hrecord
    · exact (h.agrees record hrecord).of_eq (results_after_quiet (hresults _))
    · rw [List.mem_singleton.1 hrecord]
      refine ⟨?_, ?_⟩
      · show none = _
        rw [afterCall_of_new hcalled]
        rfl
      · show (resultsOf id (afterCall id _)).map _ = _
        rw [afterCall_of_new hcalled]
        rfl
  · intro record hrecord
    show (insertName id name acc.pendingNames).lookup record.id = _
    rcases List.mem_append.1 hrecord with hrecord | hrecord
    · have hne : record.id ≠ id := by
        intro heq
        apply hnew
        rw [← heq]
        exact List.mem_map_of_mem hrecord
      rw [lookup_insertName_of_ne hne, results_after_quiet (hresults _)]
      exact h.pending record hrecord
    · rw [List.mem_singleton.1 hrecord]
      show (insertName id name acc.pendingNames).lookup id =
        if resultsOf id (afterCall id _) = [] then some name else none
      rw [lookup_insertName_self, afterCall_of_new hcalled]
      rfl
  · intro other hother
    show (insertName id name acc.pendingNames).lookup other = none
    have hother' : other ∉ ids acc.toolCalls ∧ other ≠ id := by
      have hids : ids (acc.toolCalls ++ [⟨id, name, arguments, none⟩]) =
          ids acc.toolCalls ++ [id] := List.map_append
      have hnot : other ∉ ids (acc.toolCalls ++ [⟨id, name, arguments, none⟩]) := hother
      rw [hids, List.mem_append, List.mem_singleton, not_or] at hnot
      exact hnot
    rw [lookup_insertName_of_ne hother'.2]
    exact h.unannounced other hother'.1

theorem resultsOf_toolResult_self (id name result : Text) :
    resultsOf id [(.toolResult id name result false : ChatEvent V)] = [(name, result)] := by
  have hresult : (ChatEvent.toolResult id name result false : ChatEvent V).resultOf id =
      some (name, result) := if_pos rfl
  unfold resultsOf
  rw [List.filterMap_cons_some hresult]
  rfl

theorem resultsOf_toolResult_of_ne {id other : Text} (h : other ≠ id) (name result : Text) :
    resultsOf other [(ChatEvent.toolResult id name result false : ChatEvent V)] = [] := by
  have hresult : (ChatEvent.toolResult id name result false : ChatEvent V).resultOf other = none :=
    if_neg (Ne.symm h)
  unfold resultsOf
  rw [List.filterMap_cons_none hresult]
  rfl

theorem resultNames_concat (name : Text) (n : Nat) :
    resultNames name (n + 1) = resultNames name n ++ [if n = 0 then name else []] := by
  cases n with
  | zero => rfl
  | succ n =>
    show name :: List.replicate (n + 1) [] = (name :: List.replicate n []) ++ [[]]
    rw [List.replicate_succ', List.cons_append]

/-- A result of any id. -/
theorem Tracks.toolResult {content : List ToolResultContent} {id : Text} (h : Tracks acc events) :
    Tracks (acc.apply (.toolResult content id)).1
      (events ++ (acc.apply (.toolResult content id)).2.1) := by
  show Tracks ⟨acc.responseText, setResult id (resultText content) acc.toolCalls,
      removeName id acc.pendingNames⟩
    (events ++ [.toolResult id ((acc.pendingNames.lookup id).getD []) (resultText content) false])
  rw [setResult_eq h.distinct]
  generalize hname : (acc.pendingNames.lookup id).getD [] = name
  generalize resultText content = result
  have hids : ids (acc.toolCalls.map fun record =>
      if record.id = id then { record with result := some result } else record) =
      ids acc.toolCalls := by
    unfold ids
    rw [List.map_map]
    apply List.map_congr_left
    intro record _
    show ToolCallRecord.id (if record.id = id then _ else _) = record.id
    split_ifs <;> rfl
  refine ⟨?_, ?_, ?_, ?_, ?_, ?_, ?_, running_concat h.running rfl⟩
  · show acc.responseText = tokens (events ++ _)
    unfold tokens
    rw [List.flatMap_append, h.text]
    exact (List.append_nil _).symm
  · unfold TurnStream.calls
    rw [List.filterMap_append, List.map_map]
    have hcalls := h.calls
    unfold TurnStream.calls at hcalls
    rw [← hcalls]
    refine Eq.trans ?_ (List.append_nil _).symm
    apply List.map_congr_left
    intro record _
    show (fun record : ToolCallRecord V => (record.id, record.name, record.arguments))
      (if record.id = id then _ else _) = _
    split_ifs <;> rfl
  · rw [hids]
    exact h.distinct
  · intro record hrecord
    obtain ⟨before, hbefore, rfl⟩ := List.mem_map.1 hrecord
    have hcalled : Called before.id events := h.called.2 (List.mem_map_of_mem hbefore)
    have hagrees := h.agrees before hbefore
    by_cases heq : before.id = id
    · rw [if_pos heq]
      have hresults : resultsOf before.id (afterCall before.id
          (events ++ [.toolResult id name result false])) =
          resultsOf before.id (afterCall before.id events) ++ [(name, result)] := by
        rw [afterCall_of_called hcalled, resultsOf_append, heq, resultsOf_toolResult_self]
      refine ⟨?_, ?_⟩
      · show some result = _
        rw [hresults, List.getLast?_concat]
        rfl
      · rw [hresults, List.map_append, hagrees.names, List.length_append]
        show _ = resultNames before.name (_ + 1)
        rw [resultNames_concat]
        have hpending := h.pending before hbefore
        rw [heq] at hpending
        congr 1
        show [name] = _
        rw [← hname, hpending, ← heq]
        by_cases hnil : resultsOf before.id (afterCall before.id events) = []
        · rw [hnil]
          rfl
        · rw [if_neg hnil, if_neg]
          · rfl
          · intro hlength
            exact hnil (List.length_eq_zero_iff.1 hlength)
    · rw [if_neg heq]
      exact hagrees.of_eq (results_after_quiet (resultsOf_toolResult_of_ne heq name result))
  · intro record hrecord
    obtain ⟨before, hbefore, rfl⟩ := List.mem_map.1 hrecord
    have hcalled : Called before.id events := h.called.2 (List.mem_map_of_mem hbefore)
    show (removeName id acc.pendingNames).lookup _ = _
    by_cases heq : before.id = id
    · rw [if_pos heq]
      show (removeName id acc.pendingNames).lookup before.id =
        if resultsOf before.id (afterCall before.id _) = [] then some before.name else none
      rw [afterCall_of_called hcalled, resultsOf_append, heq, resultsOf_toolResult_self,
        lookup_removeName_self, if_neg]
      exact List.append_ne_nil_of_right_ne_nil _ (List.cons_ne_nil _ _)
    · rw [if_neg heq, lookup_removeName_of_ne heq,
        results_after_quiet (resultsOf_toolResult_of_ne heq name result)]
      exact h.pending before hbefore
  · intro other hother
    rw [hids] at hother
    show (removeName id acc.pendingNames).lookup other = none
    by_cases heq : other = id
    · rw [heq, lookup_removeName_self]
    · rw [lookup_removeName_of_ne heq]
      exact h.unannounced other hother
  · intro other entry hentry
    by_cases heq : other = id
    · subst heq
      by_cases hcalled : Called other events
      · rw [beforeCall_of_called hcalled] at hentry
        exact h.early other entry hentry
      · have hnot : ¬ Called other (events ++ [.toolResult other name result false]) := by
          rw [called_concat]
          exact not_or.2 ⟨hcalled, Bool.false_ne_true⟩
        rw [beforeCall_of_not_called hnot, resultsOf_append, resultsOf_toolResult_self] at hentry
        rcases List.mem_append.1 hentry with hentry | hentry
        · rw [← beforeCall_of_not_called hcalled] at hentry
          exact h.early other entry hentry
        · rw [List.mem_singleton.1 hentry]
          show name = []
          rw [← hname, h.unannounced other fun hmem => hcalled (h.called.2 hmem)]
          rfl
    · rw [results_before_quiet (resultsOf_toolResult_of_ne heq name result)] at hentry
      exact h.early other entry hentry

/-- One item of the stream. -/
theorem apply_tracks (h : Tracks acc events) (item : Item V)
    (hnew : ∀ name arguments id, item = .toolCall name arguments id → id ∉ ids acc.toolCalls) :
    Tracks (acc.apply item).1 (events ++ (acc.apply item).2.1) := by
  have hsame : Tracks acc (events ++ []) := by
    rw [List.append_nil]
    exact h
  have hquiet : ∀ e : ChatEvent V, tokens [e] = [] → TurnStream.calls [e] = [] →
      (∀ id, resultsOf id [e] = []) → e.isTerminal = false → Tracks acc (events ++ [e]) := by
    intro e htext hcalls hresults he
    have hnext := h.quiet htext hcalls hresults he
    rw [List.append_nil] at hnext
    exact hnext
  cases item with
  | text text => exact h.quiet (List.append_nil text) rfl (fun _ => rfl) rfl
  | reasoningDelta reasoning => exact hquiet _ rfl rfl (fun _ => rfl) rfl
  | reasoning content =>
    rw [StreamAccumulator.apply_reasoning]
    by_cases hempty : (reasoningText content).isEmpty = true
    · rw [if_pos hempty]
      exact hsame
    · rw [if_neg hempty]
      exact hquiet _ rfl rfl (fun _ => rfl) rfl
  | toolCall name arguments id => exact h.toolCall (hnew name arguments id rfl)
  | toolResult content id => exact h.toolResult
  | completionCall usage =>
    cases usage with
    | none => exact hsame
    | some usage => exact hquiet _ rfl rfl (fun _ => rfl) rfl
  | finalResponse => exact hsame
  | other => exact hsame

end Steps

/-! ## The whole stream -/

section Loop

variable {acc : StreamAccumulator V} {events : List (ChatEvent V)}

theorem rest_of_ends {x : Except Text (Item V)} (h : ends x = true)
    (rest : List (Except Text (Item V))) :
    ((x :: rest).dropWhile fun x => !ends x).tail = rest := by
  rw [List.dropWhile_cons, if_neg]
  · rfl
  · rw [h]
    exact Bool.false_ne_true

theorem rest_of_goes_on {x : Except Text (Item V)} (h : ends x = false)
    (rest : List (Except Text (Item V))) :
    ((x :: rest).dropWhile fun x => !ends x).tail = (rest.dropWhile fun x => !ends x).tail := by
  rw [List.dropWhile_cons, if_pos]
  rw [h]
  rfl

/-- The stream is left at the final response only. -/
theorem apply_final (item : Item V) : (acc.apply item).2.2 = ends (.ok item) := by
  cases item with
  | reasoning content =>
    rw [StreamAccumulator.apply_reasoning]
    rfl
  | completionCall usage => cases usage <;> rfl
  | _ => rfl

theorem consistent_finish (h : Tracks acc events) {stream rest : List (Except Text (Item V))}
    (hrest : rest = (stream.dropWhile fun x => !ends x).tail) :
    Consistent stream (acc.finish events rest) where
  ending := ⟨events, .done, rfl, h.running, .inl ⟨⟨_, rfl⟩, rfl⟩⟩
  text := by
    intro r hr
    rw [← Except.ok.inj hr]
    show acc.responseText = tokens (events ++ [.done])
    unfold tokens
    rw [List.flatMap_append, h.text]
    exact (List.append_nil _).symm
  calls := by
    intro r hr
    rw [← Except.ok.inj hr]
    show acc.toolCalls.map _ = TurnStream.calls (events ++ [.done])
    rw [h.calls]
    unfold TurnStream.calls
    rw [List.filterMap_append]
    exact (List.append_nil _).symm
  records := by
    intro r hr record hrecord
    rw [← Except.ok.inj hr] at hrecord
    exact (h.agrees record hrecord).of_eq (results_after_quiet rfl)
  early := early_quiet h.early fun _ => rfl
  rest := hrest

/-- The loop, from any accumulator that is as the events say. -/
theorem streamLoop_consistent {stream : List (Except Text (Item V))} (h : Tracks acc events)
    (hids : (ids acc.toolCalls ++ callIds stream).Nodup) :
    Consistent stream (streamLoop acc events stream) := by
  induction stream generalizing acc events with
  | nil => exact consistent_finish h rfl
  | cons x rest ih =>
    cases x with
    | error e =>
      exact ⟨⟨events, _, rfl, h.running, .inr ⟨e, rfl, rfl⟩⟩, (fun _ hr => nomatch hr),
        (fun _ hr => nomatch hr), (fun _ hr => nomatch hr), early_quiet h.early fun _ => rfl,
        (rest_of_ends rfl rest).symm⟩
    | ok item =>
      have hnext : Tracks (acc.apply item).1 (events ++ (acc.apply item).2.1) := by
        apply apply_tracks h
        intro name arguments id heq hmem
        rw [heq] at hids
        exact List.disjoint_of_nodup_append hids hmem List.mem_cons_self
      unfold streamLoop
      by_cases hfinal : ends (.ok item) = true
      · rw [apply_final, if_pos hfinal]
        exact consistent_finish hnext (rest_of_ends hfinal rest).symm
      · rw [apply_final, if_neg hfinal]
        have hids' : (ids (acc.apply item).1.toolCalls ++ callIds rest).Nodup := by
          have hcalls : ids (acc.apply item).1.toolCalls ++ callIds rest =
              ids acc.toolCalls ++ callIds (.ok item :: rest) := by
            cases item with
            | toolCall name arguments id =>
              show (acc.toolCalls ++ [_]).map _ ++ _ = _ ++ id :: callIds rest
              rw [List.map_append, List.append_assoc]
              rfl
            | toolResult content id =>
              show (setResult id _ acc.toolCalls).map _ ++ _ = _
              rw [setResult_eq h.distinct, List.map_map]
              congr 1
              apply List.map_congr_left
              intro record _
              show ToolCallRecord.id (if record.id = id then _ else _) = record.id
              split_ifs <;> rfl
            | reasoning content =>
              rw [StreamAccumulator.apply_reasoning]
              rfl
            | completionCall usage => cases usage <;> rfl
            | _ => rfl
          rw [hcalls]
          exact hids
        have hconsistent := ih hnext hids'
        refine ⟨hconsistent.ending, hconsistent.text, hconsistent.calls, hconsistent.records,
          hconsistent.early, ?_⟩
        rw [rest_of_goes_on (Bool.eq_false_iff.2 hfinal)]
        exact hconsistent.rest

end Loop

theorem tracks_new : Tracks (.new V) ([] : List (ChatEvent V)) where
  text := rfl
  calls := rfl
  distinct := List.nodup_nil
  agrees _ h := nomatch h
  pending _ h := nomatch h
  unannounced _ _ := rfl
  early _ _ h := nomatch h
  running _ h := nomatch h

/-- The events of a stream with a new id for each call agree with its result. -/
theorem streamAgentEvents_agrees {stream : List (Except Text (Item V))}
    (h : (callIds stream).Nodup) : Consistent stream (streamAgentEvents stream) :=
  streamLoop_consistent tracks_new h

theorem streamAgentEvents_agrees_answered :
    Consistent [.ok (.text ['a']), .ok (.toolCall ['f'] () ['1']), .ok (.toolResult [.image] ['1']),
        .ok .finalResponse, .ok (.text ['b'])]
      (streamAgentEvents [.ok (.text ['a']), .ok (.toolCall ['f'] () ['1']),
        .ok (.toolResult [.image] ['1']), .ok .finalResponse, .ok (.text ['b'])]) :=
  streamAgentEvents_agrees (by decide)

/-- A second result of a call has no name, and a result before its call is not in the record. -/
theorem second_result_unnamed :
    (¬ ∀ stream : List (Except Text (Item Unit)), (callIds stream).Nodup →
      ∀ r, (streamAgentEvents stream).result = .ok r → ∀ record ∈ r.toolCalls,
        ∀ entry, (resultsOf record.id (streamAgentEvents stream).events).getLast? = some entry →
          entry.1 = record.name) ∧
    ¬ ∀ stream : List (Except Text (Item Unit)), (callIds stream).Nodup →
      ∀ r, (streamAgentEvents stream).result = .ok r → ∀ record ∈ r.toolCalls,
        (record.result.isSome ↔ resultsOf record.id (streamAgentEvents stream).events ≠ []) := by
  constructor
  · intro hall
    have hname := hall [.ok (.toolCall ['f'] () ['1']), .ok (.toolResult [.text ['x']] ['1']),
      .ok (.toolResult [.text ['y']] ['1'])] (by decide) _ rfl _ List.mem_cons_self
      ([], ['y']) rfl
    cases hname
  · intro hall
    have hiff := hall [.ok (.toolResult [.text ['x']] ['1']), .ok (.toolCall ['f'] () ['1'])]
      (by decide) _ rfl _ List.mem_cons_self
    exact absurd (hiff.2 (List.cons_ne_nil (([] : Text), ['x']) [])) Bool.false_ne_true

end Vanyline.Session.TurnStream
