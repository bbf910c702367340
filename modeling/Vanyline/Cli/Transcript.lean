import Mathlib.Data.List.Basic

/-!
# The transcript of the chat

The items of the transcript, and how an event of the agent changes them: a token goes
on with the last open block, a tool call and a sub-agent get an item of their own, and a
result goes to the item with its id, however deep in the sub-agents it is.

The arguments of a tool call are modelled with what the TUI reads of them: their text,
and the task list that they carry.

`apply_spec` says what an event does to the items of the transcript as a whole: it
takes none away, and those it adds are not messages of the user.
-/

namespace Vanyline.Cli

abbrev Text := List Char

inductive NoticeLevel
  | info
  | warn
  | error
  deriving DecidableEq

structure TodoItem where
  content : Text
  status : Text
  deriving DecidableEq

structure Args where
  text : Text
  todos : Option (List TodoItem)
  deriving DecidableEq

inductive TranscriptItem
  | user (text : Text)
  | assistant (text : Text) (done : Bool)
  | reasoning (text : Text) (expanded : Bool)
  | toolCall (id name : Text) (args : Text) (result : Option Text) (isError expanded : Bool)
  | subagent (id agent task : Text) (items : List TranscriptItem) (done : Bool)
  | notice (level : NoticeLevel) (text : Text)
  | interrupted

/-- An event of a turn. -/
inductive ChatEvent
  | token (content : Text)
  | reasoningDelta (content : Text)
  | toolCall (id name : Text) (args : Args)
  | toolResult (id name result : Text) (isError : Bool)
  | skillLoaded (name : Text)
  | subagentStart (id agent task : Text)
  | subagentEvent (id : Text) (event : ChatEvent)
  | subagentEnd (id result : Text)
  | usage (input output : Nat)
  | done
  | error (code message : Text)
  | toolUnavailable (server reason : Text)
  deriving DecidableEq

/-! ## Equality -/

namespace TranscriptItem

mutual

/-- Equality of items, which the sub-agents make recursive. -/
def same : TranscriptItem → TranscriptItem → Bool
  | .user a, .user b => a == b
  | .assistant a d, .assistant b e => a == b && d == e
  | .reasoning a d, .reasoning b e => a == b && d == e
  | .toolCall i n a r f x, .toolCall i' n' a' r' f' x' =>
      i == i' && n == n' && a == a' && r == r' && f == f' && x == x'
  | .subagent i a t items d, .subagent i' a' t' items' d' =>
      i == i' && a == a' && t == t' && sameAll items items' && d == d'
  | .notice l a, .notice m b => l == m && a == b
  | .interrupted, .interrupted => true
  | _, _ => false

def sameAll : List TranscriptItem → List TranscriptItem → Bool
  | [], [] => true
  | a :: as, b :: bs => same a b && sameAll as bs
  | _, _ => false

end

mutual

theorem same_iff : ∀ a b : TranscriptItem, same a b = true ↔ a = b
  | .user _, b => by cases b <;> simp [same]
  | .assistant _ _, b => by cases b <;> simp [same]
  | .reasoning _ _, b => by cases b <;> simp [same]
  | .toolCall _ _ _ _ _ _, b => by cases b <;> simp [same, and_assoc]
  | .subagent _ _ _ items _, b => by
      cases b with
      | subagent _ _ _ items' _ => simp [same, sameAll_iff items items', and_assoc]
      | _ => simp [same]
  | .notice _ _, b => by cases b <;> simp [same]
  | .interrupted, b => by cases b <;> simp [same]

theorem sameAll_iff : ∀ as bs : List TranscriptItem, sameAll as bs = true ↔ as = bs
  | [], bs => by cases bs <;> simp [sameAll]
  | a :: as, bs => by
      cases bs with
      | nil => simp [sameAll]
      | cons b bs => simp [sameAll, same_iff a b, sameAll_iff as bs]

end

instance : DecidableEq TranscriptItem := fun a b => decidable_of_iff _ (same_iff a b)

/-- A message of the user. -/
def isUser : TranscriptItem → Bool
  | .user _ => true
  | _ => false

end TranscriptItem

/-! ## Operations -/

abbrev Transcript := List TranscriptItem

namespace Transcript

/-- Go on with the last open block of the assistant, or open one. -/
def pushToken (items : Transcript) (content : Text) : Transcript :=
  match items.getLast? with
  | some (.assistant text false) => items.dropLast ++ [.assistant (text ++ content) false]
  | _ => items ++ [.assistant content false]

/-- Go on with the last block of reasoning, or open one. -/
def pushReasoning (items : Transcript) (content : Text) : Transcript :=
  match items.getLast? with
  | some (.reasoning text expanded) => items.dropLast ++ [.reasoning (text ++ content) expanded]
  | _ => items ++ [.reasoning content false]

/-- The result goes to the first call with the id, and into every sub-agent before it. -/
def attachResult (id result : Text) (isError : Bool) : Transcript → Transcript
  | [] => []
  | .toolCall tid name args slot flag expanded :: rest =>
      if tid = id then .toolCall tid name args (some result) isError expanded :: rest
      else .toolCall tid name args slot flag expanded :: attachResult id result isError rest
  | .subagent sid agent task items done :: rest =>
      .subagent sid agent task (attachResult id result isError items) done ::
        attachResult id result isError rest
  | .user text :: rest => .user text :: attachResult id result isError rest
  | .assistant text done :: rest => .assistant text done :: attachResult id result isError rest
  | .reasoning text expanded :: rest =>
      .reasoning text expanded :: attachResult id result isError rest
  | .notice level text :: rest => .notice level text :: attachResult id result isError rest
  | .interrupted :: rest => .interrupted :: attachResult id result isError rest

/-- Change the items of the first sub-agent with the id, if there is one. -/
def updateSubagent (id : Text) (f : Transcript → Transcript) : Transcript → Option Transcript
  | [] => none
  | .subagent sid agent task items done :: rest =>
      if sid = id then some (.subagent sid agent task (f items) done :: rest)
      else
        match updateSubagent id f items with
        | some items' => some (.subagent sid agent task items' done :: rest)
        | none => (updateSubagent id f rest).map (.subagent sid agent task items done :: ·)
  | .user text :: rest => (updateSubagent id f rest).map (.user text :: ·)
  | .assistant text done :: rest => (updateSubagent id f rest).map (.assistant text done :: ·)
  | .reasoning text expanded :: rest =>
      (updateSubagent id f rest).map (.reasoning text expanded :: ·)
  | .toolCall tid name args slot flag expanded :: rest =>
      (updateSubagent id f rest).map (.toolCall tid name args slot flag expanded :: ·)
  | .notice level text :: rest => (updateSubagent id f rest).map (.notice level text :: ·)
  | .interrupted :: rest => (updateSubagent id f rest).map (.interrupted :: ·)

/-- Close the last block of the assistant. -/
def closeOpenBlocks (items : Transcript) : Transcript :=
  match items.getLast? with
  | some (.assistant text _) => items.dropLast ++ [.assistant text true]
  | _ => items

/-- Every sub-agent with the id is done, and its result is its last block. -/
def markSubagentDone (id result : Text) : Transcript → Transcript
  | [] => []
  | .subagent sid agent task items done :: rest =>
      let items' := markSubagentDone id result items
      -- The source adds the block before it goes into the items; the block has none.
      (if sid = id then
        .subagent sid agent task
          (if result = [] then items' else pushToken (closeOpenBlocks items') result) true
      else .subagent sid agent task items' done) :: markSubagentDone id result rest
  | .user text :: rest => .user text :: markSubagentDone id result rest
  | .assistant text done :: rest => .assistant text done :: markSubagentDone id result rest
  | .reasoning text expanded :: rest => .reasoning text expanded :: markSubagentDone id result rest
  | .toolCall tid name args slot flag expanded :: rest =>
      .toolCall tid name args slot flag expanded :: markSubagentDone id result rest
  | .notice level text :: rest => .notice level text :: markSubagentDone id result rest
  | .interrupted :: rest => .interrupted :: markSubagentDone id result rest

/-- The text of an error, with its marker. -/
def errorText (code message : Text) : Text := '[' :: code ++ "] ".toList ++ message

def unavailableText (server reason : Text) : Text :=
  "serveur MCP indisponible : ".toList ++ server ++ " (".toList ++ reason ++ ")".toList

/-- An event of a sub-agent, in its own items. -/
def applyNested : ChatEvent → Transcript → Transcript
  | .token content, items => pushToken items content
  | .reasoningDelta content, items => pushReasoning items content
  | .toolCall id name args, items => items ++ [.toolCall id name args.text none false false]
  | .toolResult id _ result isError, items => attachResult id result isError items
  | .subagentStart id agent task, items => items ++ [.subagent id agent task [] false]
  | .subagentEvent id event, items => (updateSubagent id (applyNested event) items).getD items
  | .subagentEnd id _, items =>
      items.map fun
        | .subagent sid agent task inner done =>
            .subagent sid agent task inner (done || decide (sid = id))
        | item => item
  | .done, items => closeOpenBlocks items
  | .error code message, items => items ++ [.notice .error (errorText code message)]
  | .toolUnavailable server reason, items =>
      items ++ [.notice .warn (unavailableText server reason)]
  | .usage _ _, items => items
  | .skillLoaded _, items => items

/-- An event of the turn itself. -/
def apply : ChatEvent → Transcript → Transcript
  | .subagentEnd id result, items => markSubagentDone id result items
  | event, items => applyNested event items

/-! ## What an event changes -/

/-- The items stay, with new ones after them, and no new one is a message of the user. -/
def Grows (old new : Transcript) : Prop :=
  ∃ n, new.map TranscriptItem.isUser = old.map TranscriptItem.isUser ++ List.replicate n false

theorem Grows.of_eq {old new : Transcript}
    (h : new.map TranscriptItem.isUser = old.map TranscriptItem.isUser) : Grows old new :=
  ⟨0, by rw [h, List.replicate_zero, List.append_nil]⟩

theorem Grows.length_le {old new : Transcript} (h : Grows old new) : old.length ≤ new.length := by
  obtain ⟨n, hn⟩ := h
  have hlength := congrArg List.length hn
  simp only [List.length_append, List.length_map, List.length_replicate] at hlength
  omega

theorem Grows.not_user {old new : Transcript} (h : Grows old new) :
    ∀ item ∈ new.drop old.length, item.isUser = false := by
  obtain ⟨n, hn⟩ := h
  intro item hitem
  have hdrop := congrArg (List.drop old.length) hn
  rw [← List.map_drop, List.drop_left' (List.length_map _)] at hdrop
  have hmem : item.isUser ∈ (new.drop old.length).map TranscriptItem.isUser :=
    List.mem_map_of_mem hitem
  rw [hdrop] at hmem
  exact (List.mem_replicate.1 hmem).2

theorem grows_push {items : Transcript} {item : TranscriptItem} (h : item.isUser = false) :
    Grows items (items ++ [item]) :=
  ⟨1, by rw [List.map_append, List.map_singleton, h, List.replicate_one]⟩

/-- The last item is replaced. -/
theorem grows_last {items : Transcript} {last item : TranscriptItem}
    (hlast : items.getLast? = some last) (h : item.isUser = last.isUser) :
    Grows items (items.dropLast ++ [item]) := by
  obtain ⟨front, rfl⟩ := List.getLast?_eq_some_iff.1 hlast
  apply Grows.of_eq
  rw [List.dropLast_concat, List.map_append, List.map_append, List.map_singleton,
    List.map_singleton, h]

theorem grows_pushToken (items : Transcript) (content : Text) :
    Grows items (pushToken items content) := by
  unfold pushToken
  split
  · next text hlast => exact grows_last hlast rfl
  · exact grows_push rfl

theorem grows_pushReasoning (items : Transcript) (content : Text) :
    Grows items (pushReasoning items content) := by
  unfold pushReasoning
  split
  · next text expanded hlast => exact grows_last hlast rfl
  · exact grows_push rfl

theorem grows_closeOpenBlocks (items : Transcript) : Grows items (closeOpenBlocks items) := by
  unfold closeOpenBlocks
  split
  · next text done hlast => exact grows_last hlast rfl
  · exact Grows.of_eq rfl

theorem isUser_attachResult (id result : Text) (isError : Bool) (items : Transcript) :
    (attachResult id result isError items).map TranscriptItem.isUser =
      items.map TranscriptItem.isUser := by
  induction items with
  | nil => simp [attachResult]
  | cons item rest ih =>
      cases item with
      | toolCall tid name args slot flag expanded =>
          simp only [attachResult]
          split_ifs
          · rfl
          · simp only [List.map_cons, ih, TranscriptItem.isUser]
      | _ => simp only [attachResult, List.map_cons, ih, TranscriptItem.isUser]

theorem isUser_updateSubagent (id : Text) (f : Transcript → Transcript) (items : Transcript) :
    ∀ items', updateSubagent id f items = some items' →
      items'.map TranscriptItem.isUser = items.map TranscriptItem.isUser := by
  induction items with
  | nil =>
      intro items' h
      simp [updateSubagent] at h
  | cons item rest ih =>
      intro items' h
      cases item with
      | subagent sid agent task inner done =>
          simp only [updateSubagent] at h
          split_ifs at h
          · cases h
            rfl
          · split at h
            · cases h
              rfl
            · obtain ⟨rest', hrest, rfl⟩ := Option.map_eq_some_iff.1 h
              simp only [List.map_cons, ih rest' hrest, TranscriptItem.isUser]
      | _ =>
          simp only [updateSubagent] at h
          obtain ⟨rest', hrest, rfl⟩ := Option.map_eq_some_iff.1 h
          simp only [List.map_cons, ih rest' hrest, TranscriptItem.isUser]

theorem isUser_markSubagentDone (id result : Text) (items : Transcript) :
    (markSubagentDone id result items).map TranscriptItem.isUser =
      items.map TranscriptItem.isUser := by
  induction items with
  | nil => simp [markSubagentDone]
  | cons item rest ih =>
      cases item with
      | subagent sid agent task inner done =>
          simp only [markSubagentDone, List.map_cons, ih]
          split_ifs <;> rfl
      | _ => simp only [markSubagentDone, List.map_cons, ih, TranscriptItem.isUser]

theorem grows_applyNested (event : ChatEvent) (items : Transcript) :
    Grows items (applyNested event items) := by
  cases event with
  | token content => exact grows_pushToken items content
  | reasoningDelta content => exact grows_pushReasoning items content
  | toolCall id name args => exact grows_push rfl
  | toolResult id name result isError =>
      exact Grows.of_eq (isUser_attachResult id result isError items)
  | skillLoaded name => exact Grows.of_eq rfl
  | subagentStart id agent task => exact grows_push rfl
  | subagentEvent id event =>
      show Grows items ((updateSubagent id (applyNested event) items).getD items)
      cases h : updateSubagent id (applyNested event) items with
      | none => exact Grows.of_eq rfl
      | some items' => exact Grows.of_eq (isUser_updateSubagent id _ items items' h)
  | subagentEnd id result =>
      apply Grows.of_eq
      simp only [applyNested, List.map_map]
      apply List.map_congr_left
      intro item _
      cases item <;> rfl
  | usage input output => exact Grows.of_eq rfl
  | done => exact grows_closeOpenBlocks items
  | error code message => exact grows_push rfl
  | toolUnavailable server reason => exact grows_push rfl

/-- An event of a turn takes no item away, and adds no message of the user. -/
theorem apply_spec (event : ChatEvent) (items : Transcript) : Grows items (apply event items) := by
  cases event with
  | subagentEnd id result => exact Grows.of_eq (isUser_markSubagentDone id result items)
  | _ => exact grows_applyNested _ items

end Transcript

end Vanyline.Cli
