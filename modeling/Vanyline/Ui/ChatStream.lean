import Vanyline.Cli.Transcript
import Vanyline.Lib.Run

/-!
# The stream of chunks for the chat window

`chatEventsToUIStream` reads a stream of events and gives a stream of chunks: the text and
the reasoning come in blocks with an id, the tools between the blocks, and an end, an error
or an abort is the last chunk.

The reading loop handles one event after the other.  The listener of the abort signal and
the reader of the chunks, who may cancel, come in between.  `ctrl.enqueue` throws when the
stream of chunks is closed.  The function guards some of its calls by a flag of its own
(`enqueue`) and not others (`rawEnqueue`).

`Bracketed` says that an automaton accepts the chunks, that they say what the events said,
that there is one last chunk when there is a cause for it, and that nothing is thrown.  It
fails when a block is open at an abort, an error of the source or its end, and when more
events follow the last one (`blocks_left_open`).  `bracketed_of_run` holds without these
(`Neat`).
-/

namespace Vanyline.Ui.ChatStream

open Vanyline.Lib Vanyline.Cli

/-! ## Chunks -/

inductive Chunk
  | start
  | textStart (id : Nat)
  | textDelta (id : Nat) (delta : Text)
  | textEnd (id : Nat)
  | reasoningStart (id : Nat)
  | reasoningDelta (id : Nat) (delta : Text)
  | reasoningEnd (id : Nat)
  | toolInputAvailable (id name : Text) (input : Args)
  | toolOutputAvailable (id output : Text)
  | toolUnavailable (id : Nat) (server reason : Text)
  | error (text : Text)
  | finish
  | abort
  deriving DecidableEq

/-! ## The state -/

/-- What a read of the events gives. -/
inductive Read
  | event (event : ChatEvent)
  | done
  | failed (message : Text)

/-- The loop waits for a read, has its result, or has stopped. -/
inductive Loop
  | waiting
  | resolved (read : Read)
  | stopped

/-- The variables of the function, and the stream of chunks: what is in it and whether it
can take more.  The model notes which events were handled while it could, whether there
was a cause for a last chunk, and whether its reader has cancelled. -/
structure State where
  chunks : List Chunk
  isOpen : Bool
  textId : Option Nat
  reasoningId : Option Nat
  nextId : Nat
  doneEmitted : Bool
  controllerClosed : Bool
  loop : Loop
  cancelled : Bool
  listening : Bool
  escaped : Bool
  heard : List ChatEvent
  caused : Bool
  abandoned : Bool

namespace State

/-! ## Chunks that are enqueued -/

/-- `ctrl.enqueue`; the state is that in which it throws. -/
def rawEnqueue (s : State) (chunk : Chunk) : Except State State :=
  if s.isOpen then .ok { s with chunks := s.chunks ++ [chunk] } else .error s

/-- The guarded `enqueue`. -/
def enqueue (s : State) (chunk : Chunk) : Except State State :=
  if s.controllerClosed then .ok s else s.rawEnqueue chunk

def closeText (s : State) : Except State State :=
  match s.textId with
  | some id => (s.rawEnqueue (.textEnd id)).map fun s => { s with textId := none }
  | none => .ok s

def closeReasoning (s : State) : Except State State :=
  match s.reasoningId with
  | some id => (s.rawEnqueue (.reasoningEnd id)).map fun s => { s with reasoningId := none }
  | none => .ok s

def closeOpenBlocks (s : State) : Except State State := s.closeReasoning >>= closeText

def closeController (s : State) : State := { s with controllerClosed := true, isOpen := false }

/-- The delta of a block, which is opened if there is none. -/
def textDelta (s : State) (content : Text) : Except State State :=
  match s.textId with
  | some id => s.enqueue (.textDelta id content)
  | none =>
    let id := s.nextId
    ({ s with textId := some id, nextId := id + 1 }.enqueue (.textStart id)) >>= fun s =>
      s.enqueue (.textDelta id content)

def reasoningDelta (s : State) (content : Text) : Except State State :=
  match s.reasoningId with
  | some id => s.enqueue (.reasoningDelta id content)
  | none =>
    let id := s.nextId
    ({ s with reasoningId := some id, nextId := id + 1 }.enqueue (.reasoningStart id)) >>= fun s =>
      s.enqueue (.reasoningDelta id content)

/-- The last chunk of an event that ends the stream. -/
def close (s : State) (chunk : Chunk) : Except State State :=
  (s.enqueue chunk).map fun s =>
    { s.closeController with doneEmitted := true, caused := s.caused || !s.controllerClosed }

/-- The chunk of a tool or of the end, for which the blocks are closed first. -/
def handleEvent (s : State) : ChatEvent → Except State State
  | .reasoningDelta content => s.closeText >>= (reasoningDelta · content)
  | .token content => s.closeReasoning >>= (textDelta · content)
  | .toolCall id name args => s.closeOpenBlocks >>= (enqueue · (.toolInputAvailable id name args))
  | .toolResult id _ result _ => s.closeOpenBlocks >>= (enqueue · (.toolOutputAvailable id result))
  | .toolUnavailable server reason => s.closeOpenBlocks >>= fun s =>
    { s with nextId := s.nextId + 1 }.enqueue (.toolUnavailable s.nextId server reason)
  | .error _ message => s.closeOpenBlocks >>= (close · (.error message))
  | .done => s.closeOpenBlocks >>= (close · .finish)
  | .skillLoaded _ | .subagentStart _ _ _ | .subagentEvent _ _ | .subagentEnd _ _ | .usage _ _ =>
    .ok s

/-! ## The loop -/

/-- The handler of errors; what it throws itself is caught nowhere. -/
def fail (s : State) (message : Text) : State :=
  match s.rawEnqueue (.error message) with
  | .ok s => { s.closeController with loop := .stopped, caused := true }
  | .error s => { s with loop := .stopped, escaped := true }

/-- The message of an `enqueue` on a closed stream. -/
def invalidState : Text := "Invalid state: Controller is already closed".toList

/-- The next read; of a source that was cancelled it is the last one. -/
def readOn (s : State) : State :=
  { s with loop := if s.cancelled then .resolved .done else .waiting }

def handleRead (s : State) : Read → State
  | .done =>
    if s.doneEmitted then { s with loop := .stopped }
    else { s.closeController with loop := .stopped }
  | .event event =>
    let heard := if s.controllerClosed then s.heard else s.heard ++ [event]
    match s.handleEvent event with
    | .ok s => { s with heard }.readOn
    | .error s => { s with heard }.fail invalidState
  | .failed message => s.fail message

/-- `reader.cancel`; a read that waits is the last one. -/
def cancelSource (s : State) : State :=
  { s with
    cancelled := true
    loop :=
      match s.loop with
      | .waiting => .resolved .done
      | loop => loop }

/-- The listener of the abort signal. -/
def abort (s : State) : State :=
  match s.enqueue .abort with
  | .ok t => { t.closeController with
      listening := false
      caused := s.caused || !s.controllerClosed }.cancelSource
  | .error s => { s with listening := false, escaped := true }

end State

def State.start : State where
  chunks := [.start]
  isOpen := true
  textId := none
  reasoningId := none
  nextId := 0
  doneEmitted := false
  controllerClosed := false
  loop := .waiting
  cancelled := false
  listening := true
  escaped := false
  heard := []
  caused := false
  abandoned := false

/-- The state after `start`, with a signal that was aborted before or not. -/
def State.init (aborted : Bool) : State :=
  if aborted then { State.start.abort with loop := .stopped } else State.start

/-! ## Steps -/

/-- A read of the source has a result, the loop handles it, the signal is aborted, or the
reader of the chunks cancels. -/
inductive Label
  | resolve (read : Read)
  | handle
  | abort
  | cancel

def step (s : State) : Label → Option State
  | .resolve read =>
    match s.loop with
    | .waiting => some { s with loop := .resolved read }
    | _ => none
  | .handle =>
    match s.loop with
    | .resolved read => some (s.handleRead read)
    | _ => none
  | .abort => if s.listening then some s.abort else none
  | .cancel =>
    some { s.cancelSource with isOpen := false, abandoned := s.abandoned || s.isOpen }

/-! ## The property -/

/-- Where the chunks are: before the start, between blocks, in a block, or at the end. -/
inductive Shape
  | fresh
  | idle
  | text (id : Nat)
  | reasoning (id : Nat)
  | over
  deriving DecidableEq

/-- The automaton of the chunks. -/
def accept : Shape → Chunk → Option Shape
  | .fresh, .start => some .idle
  | .idle, .textStart id => some (.text id)
  | .text open_, .textDelta id _ => if id = open_ then some (.text open_) else none
  | .text open_, .textEnd id => if id = open_ then some .idle else none
  | .idle, .reasoningStart id => some (.reasoning id)
  | .reasoning open_, .reasoningDelta id _ => if id = open_ then some (.reasoning open_) else none
  | .reasoning open_, .reasoningEnd id => if id = open_ then some .idle else none
  | .idle, .toolInputAvailable _ _ _ | .idle, .toolOutputAvailable _ _
  | .idle, .toolUnavailable _ _ _ => some .idle
  | .idle, .error _ | .idle, .finish | .idle, .abort => some .over
  | _, _ => none

/-- No block is open. -/
def Shape.closed : Shape → Bool
  | .idle | .over => true
  | _ => false

def Chunk.text : Chunk → Text
  | .textDelta _ delta => delta
  | _ => []

def Chunk.reasoning : Chunk → Text
  | .reasoningDelta _ delta => delta
  | _ => []

def Chunk.isLast : Chunk → Bool
  | .error _ | .finish | .abort => true
  | _ => false

def tokenOf : ChatEvent → Text
  | .token content => content
  | _ => []

def reasoningOf : ChatEvent → Text
  | .reasoningDelta content => content
  | _ => []

structure Bracketed (s : State) : Prop where
  shape : ∃ shape, monitor accept .fresh s.chunks = some shape ∧
    (s.controllerClosed = true → s.abandoned = false → shape.closed = true)
  starts : s.chunks.head? = some .start
  text : s.chunks.flatMap Chunk.text = s.heard.flatMap tokenOf
  reasoning : s.chunks.flatMap Chunk.reasoning = s.heard.flatMap reasoningOf
  oneLast : s.chunks.countP (·.isLast) = if s.caused then 1 else 0
  nothingThrown : s.escaped = false

/-! ## The condition -/

def State.hasBlock (s : State) : Bool := s.textId.isSome || s.reasoningId.isSome

/-- The event closes a block that is open. -/
def State.closes (s : State) : ChatEvent → Bool
  | .token _ => s.reasoningId.isSome
  | .reasoningDelta _ => s.textId.isSome
  | .toolCall _ _ _ | .toolResult _ _ _ _ | .toolUnavailable _ _ | .error _ _ | .done => s.hasBlock
  | _ => false

/-- The event has a chunk. -/
def enqueues : ChatEvent → Bool
  | .token _ | .reasoningDelta _ | .toolCall _ _ _ | .toolResult _ _ _ _ | .toolUnavailable _ _
  | .error _ _ | .done => true
  | _ => false

/-- When the source ends or fails and when the signal is aborted, no block is open; after
the last chunk the source does not fail, and no event closes a block that one after the
last chunk has opened.  Nothing comes in any more when the reader has cancelled. -/
def Neat (s : State) : Label → Prop
  | .handle =>
    match s.loop with
    | .resolved (.event event) =>
      if s.controllerClosed then s.closes event = false else s.isOpen || !enqueues event
    | .resolved .done => s.controllerClosed || s.abandoned || !s.hasBlock
    | .resolved (.failed _) => s.isOpen && !s.hasBlock
    | _ => True
  | .abort => s.controllerClosed || (s.isOpen && !s.hasBlock)
  | _ => True

/-! ## The invariant -/

variable {s t : State}

/-- The shape when the block with the id is open. -/
def shapeOf : Option Nat → Option Nat → Shape
  | some id, _ => .text id
  | none, some id => .reasoning id
  | none, none => .idle

/-- The stream takes chunks. -/
structure Running (s : State) : Prop where
  isOpen : s.isOpen = true
  notClosed : s.controllerClosed = false
  notAbandoned : s.abandoned = false
  shape : monitor accept .fresh s.chunks = some (shapeOf s.textId s.reasoningId)
  oneBlock : s.textId = none ∨ s.reasoningId = none
  noLast : s.chunks.countP (·.isLast) = 0
  notCaused : s.caused = false

structure Inv (s : State) : Prop where
  running : s.isOpen = true → Running s
  shut : s.isOpen = false → s.controllerClosed = true ∨ s.abandoned = true
  shape : ∃ shape, monitor accept .fresh s.chunks = some shape ∧
    (s.controllerClosed = true → s.abandoned = false → shape.closed = true)
  starts : s.chunks.head? = some .start
  text : s.chunks.flatMap Chunk.text = s.heard.flatMap tokenOf
  reasoning : s.chunks.flatMap Chunk.reasoning = s.heard.flatMap reasoningOf
  oneLast : s.chunks.countP (·.isLast) = if s.caused then 1 else 0
  nothingThrown : s.escaped = false

theorem inv_start : Inv State.start where
  running := fun _ => ⟨rfl, rfl, rfl, rfl, .inl rfl, rfl, rfl⟩
  shut := nofun
  shape := ⟨.idle, rfl, fun _ _ => rfl⟩
  starts := rfl
  text := rfl
  reasoning := rfl
  oneLast := rfl
  nothingThrown := rfl

/-! ## Chunks that are put -/

/-- The stream has gone on, and has said so much more. -/
structure Goes (s t : State) (text reasoning : Text) : Prop where
  running : Running t
  text : t.chunks.flatMap Chunk.text = s.chunks.flatMap Chunk.text ++ text
  reasoning : t.chunks.flatMap Chunk.reasoning = s.chunks.flatMap Chunk.reasoning ++ reasoning
  starts : s.chunks.head? = some .start → t.chunks.head? = some .start
  escaped : t.escaped = s.escaped

theorem Goes.refl (hs : Running s) : Goes s s [] [] :=
  ⟨hs, (List.append_nil _).symm, (List.append_nil _).symm, id, rfl⟩

theorem Goes.trans {u : State} {a b c d : Text} (h : Goes s t a b) (h' : Goes t u c d) :
    Goes s u (a ++ c) (b ++ d) where
  running := h'.running
  text := by rw [h'.text, h.text, List.append_assoc]
  reasoning := by rw [h'.reasoning, h.reasoning, List.append_assoc]
  starts := fun hstart => h'.starts (h.starts hstart)
  escaped := h'.escaped.trans h.escaped

/-- A chunk that the automaton takes is put. -/
theorem Running.put (hs : Running s) (chunk : Chunk) (textId reasoningId : Option Nat)
    (nextId : Nat)
    (haccept : accept (shapeOf s.textId s.reasoningId) chunk = some (shapeOf textId reasoningId))
    (hone : textId = none ∨ reasoningId = none) (hlast : chunk.isLast = false) :
    Goes s { s with chunks := s.chunks ++ [chunk], textId, reasoningId, nextId }
      chunk.text chunk.reasoning where
  running :=
    { hs with
      shape := by
        rw [monitor_concat hs.shape]
        exact haccept
      oneBlock := hone
      noLast := by
        rw [List.countP_append, hs.noLast, List.countP_singleton, hlast]
        rfl }
  text := by simp
  reasoning := by simp
  starts := by
    intro hstart
    rw [List.head?_append, hstart]
    rfl
  escaped := rfl

theorem Running.rawEnqueue (hs : Running s) (chunk : Chunk) :
    s.rawEnqueue chunk = .ok { s with chunks := s.chunks ++ [chunk] } := if_pos hs.isOpen

theorem Running.enqueue (hs : Running s) (chunk : Chunk) :
    s.enqueue chunk = .ok { s with chunks := s.chunks ++ [chunk] } :=
  (if_neg (by simp [hs.notClosed])).trans (hs.rawEnqueue chunk)

theorem closeText_spec (hs : Running s) : ∃ t, s.closeText = .ok t ∧ Goes s t [] [] ∧
    t.textId = none ∧ t.reasoningId = s.reasoningId := by
  unfold State.closeText
  split
  · next id htext =>
    rw [hs.rawEnqueue]
    have hreasoning : s.reasoningId = none := by
      rcases hs.oneBlock with hnone | hnone
      · rw [htext] at hnone
        cases hnone
      · exact hnone
    refine ⟨_, rfl, hs.put (.textEnd id) none s.reasoningId s.nextId ?_ (.inl rfl) rfl, rfl, rfl⟩
    rw [htext, hreasoning]
    exact if_pos rfl
  · next htext => exact ⟨s, rfl, .refl hs, htext, rfl⟩

theorem closeReasoning_spec (hs : Running s) : ∃ t, s.closeReasoning = .ok t ∧ Goes s t [] [] ∧
    t.reasoningId = none ∧ t.textId = s.textId := by
  unfold State.closeReasoning
  split
  · next id hreasoning =>
    rw [hs.rawEnqueue]
    have htext : s.textId = none := by
      rcases hs.oneBlock with hnone | hnone
      · exact hnone
      · rw [hreasoning] at hnone
        cases hnone
    refine ⟨_, rfl, hs.put (.reasoningEnd id) s.textId none s.nextId ?_ (.inr rfl) rfl, rfl, rfl⟩
    rw [htext, hreasoning]
    exact if_pos rfl
  · next hreasoning => exact ⟨s, rfl, .refl hs, hreasoning, rfl⟩

theorem closeOpenBlocks_spec (hs : Running s) : ∃ t, s.closeOpenBlocks = .ok t ∧
    Goes s t [] [] ∧ t.textId = none ∧ t.reasoningId = none := by
  obtain ⟨t, ht, hgoes, hreasoning, -⟩ := closeReasoning_spec hs
  obtain ⟨u, hu, hgoes', htext, hsame⟩ := closeText_spec hgoes.running
  refine ⟨u, ?_, hgoes.trans hgoes', htext, hsame.trans hreasoning⟩
  unfold State.closeOpenBlocks
  rw [ht]
  exact hu

theorem textDelta_spec (hs : Running s) (hreasoning : s.reasoningId = none) (content : Text) :
    ∃ t, s.textDelta content = .ok t ∧ Goes s t content [] := by
  unfold State.textDelta
  split
  · next id htext =>
    refine ⟨_, hs.enqueue _, hs.put (.textDelta id content) s.textId s.reasoningId s.nextId ?_
      hs.oneBlock rfl⟩
    rw [htext]
    exact if_pos rfl
  · next htext =>
    have hopened : Goes s { s with
        chunks := s.chunks ++ [.textStart s.nextId]
        textId := some s.nextId
        nextId := s.nextId + 1 } [] [] := by
      refine hs.put (.textStart s.nextId) (some s.nextId) s.reasoningId (s.nextId + 1) ?_
        (.inr hreasoning) rfl
      rw [htext, hreasoning]
      rfl
    have hsaid := hopened.running.put (.textDelta s.nextId content) (some s.nextId) s.reasoningId
      (s.nextId + 1) (if_pos rfl) (.inr hreasoning) rfl
    refine ⟨_, ?_, hopened.trans hsaid⟩
    simp only [State.enqueue, State.rawEnqueue, hs.notClosed, hs.isOpen]
    rfl

theorem reasoningDelta_spec (hs : Running s) (htext : s.textId = none) (content : Text) :
    ∃ t, s.reasoningDelta content = .ok t ∧ Goes s t [] content := by
  unfold State.reasoningDelta
  split
  · next id hreasoning =>
    refine ⟨_, hs.enqueue _, hs.put (.reasoningDelta id content) s.textId s.reasoningId s.nextId ?_
      hs.oneBlock rfl⟩
    rw [htext, hreasoning]
    exact if_pos rfl
  · next hreasoning =>
    have hopened : Goes s { s with
        chunks := s.chunks ++ [.reasoningStart s.nextId]
        reasoningId := some s.nextId
        nextId := s.nextId + 1 } [] [] := by
      refine hs.put (.reasoningStart s.nextId) s.textId (some s.nextId) (s.nextId + 1) ?_
        (.inl htext) rfl
      rw [htext, hreasoning]
      rfl
    have hsaid := hopened.running.put (.reasoningDelta s.nextId content) s.textId (some s.nextId)
      (s.nextId + 1) (by rw [htext]; exact if_pos rfl) (.inl htext) rfl
    refine ⟨_, ?_, hopened.trans hsaid⟩
    simp only [State.enqueue, State.rawEnqueue, hs.notClosed, hs.isOpen]
    rfl

/-- A chunk between the blocks. -/
theorem between_spec (hs : Running s) (htext : s.textId = none) (hreasoning : s.reasoningId = none)
    {chunk : Chunk} (nextId : Nat) (haccept : accept .idle chunk = some .idle)
    (hlast : chunk.isLast = false) (hnoText : chunk.text = []) (hnoReasoning : chunk.reasoning = []) :
    ∃ t, { s with nextId }.enqueue chunk = .ok t ∧ Goes s t [] [] := by
  have hput := hs.put chunk s.textId s.reasoningId nextId
    (by rw [htext, hreasoning]; exact haccept) hs.oneBlock hlast
  rw [hnoText, hnoReasoning] at hput
  have hnext : Running { s with nextId } := { hs with }
  exact ⟨_, hnext.enqueue chunk, hput⟩

/-! ## Events -/

/-- The last chunk has been put, and the stream is closed. -/
structure Closed (s t : State) : Prop where
  isOpen : t.isOpen = false
  controllerClosed : t.controllerClosed = true
  shape : monitor accept .fresh t.chunks = some .over
  text : t.chunks.flatMap Chunk.text = s.chunks.flatMap Chunk.text
  reasoning : t.chunks.flatMap Chunk.reasoning = s.chunks.flatMap Chunk.reasoning
  starts : s.chunks.head? = some .start → t.chunks.head? = some .start
  oneLast : t.chunks.countP (·.isLast) = 1
  caused : t.caused = true
  escaped : t.escaped = s.escaped

/-- The last chunk is put after the blocks. -/
theorem Running.last (hs : Running s) (htext : s.textId = none) (hreasoning : s.reasoningId = none)
    {chunk : Chunk} (hlast : chunk.isLast = true) {t : State}
    (hchunks : t.chunks = s.chunks ++ [chunk]) (hopen : t.isOpen = false)
    (hclosed : t.controllerClosed = true) (hcaused : t.caused = true)
    (hescaped : t.escaped = s.escaped) : Closed s t where
  isOpen := hopen
  controllerClosed := hclosed
  shape := by
    rw [hchunks, monitor_concat hs.shape, htext, hreasoning]
    cases chunk with
    | error _ | finish | abort => rfl
    | _ => cases hlast
  text := by
    rw [hchunks, List.flatMap_append]
    cases chunk with
    | error _ | finish | abort => exact List.append_nil _
    | _ => cases hlast
  reasoning := by
    rw [hchunks, List.flatMap_append]
    cases chunk with
    | error _ | finish | abort => exact List.append_nil _
    | _ => cases hlast
  starts := by
    intro hstart
    rw [hchunks, List.head?_append, hstart]
    rfl
  oneLast := by
    rw [hchunks, List.countP_append, hs.noLast, List.countP_singleton, if_pos hlast]
  caused := hcaused
  escaped := hescaped

theorem close_spec (hs : Running s) (htext : s.textId = none) (hreasoning : s.reasoningId = none)
    {chunk : Chunk} (hlast : chunk.isLast = true) :
    ∃ t, s.close chunk = .ok t ∧ Closed s t ∧ t.abandoned = false := by
  unfold State.close
  rw [hs.enqueue]
  refine ⟨_, rfl, hs.last htext hreasoning hlast rfl rfl rfl ?_ rfl, hs.notAbandoned⟩
  simp [hs.notClosed]

/-- An event while the stream is open. -/
theorem handleEvent_running (hs : Running s) (event : ChatEvent) : ∃ t, s.handleEvent event = .ok t ∧
    (Goes s t (tokenOf event) (reasoningOf event) ∨
      (Closed s t ∧ t.abandoned = false ∧ tokenOf event = [] ∧ reasoningOf event = [])) := by
  obtain ⟨t, ht, hgoes, htext, hreasoning⟩ := closeOpenBlocks_spec hs
  -- what comes after the blocks are closed
  have hafter : ∀ f : State → Except State State, (s.closeOpenBlocks >>= f) = f t := by
    intro f
    rw [ht]
    rfl
  have hbetween : ∀ (chunk : Chunk) (nextId : Nat), accept .idle chunk = some .idle →
      chunk.isLast = false → chunk.text = [] → chunk.reasoning = [] →
      ∃ u, { t with nextId }.enqueue chunk = .ok u ∧ Goes s u [] [] := by
    intro chunk nextId haccept hlast hnoText hnoReasoning
    obtain ⟨u, hu, hgoes'⟩ :=
      between_spec hgoes.running htext hreasoning nextId haccept hlast hnoText hnoReasoning
    exact ⟨u, hu, hgoes.trans hgoes'⟩
  have hcloses : ∀ chunk : Chunk, chunk.isLast = true → ∃ u, t.close chunk = .ok u ∧ Closed s u ∧
      u.abandoned = false := by
    intro chunk hlast
    obtain ⟨u, hu, hclosed, hkept⟩ := close_spec hgoes.running htext hreasoning hlast
    refine ⟨u, hu, ?_, hkept⟩
    exact
      { hclosed with
        text := hclosed.text.trans (hgoes.text.trans (List.append_nil _))
        reasoning := hclosed.reasoning.trans (hgoes.reasoning.trans (List.append_nil _))
        starts := fun hstart => hclosed.starts (hgoes.starts hstart)
        escaped := hclosed.escaped.trans hgoes.escaped }
  cases event with
  | token content =>
      obtain ⟨u, hu, hgoes', hnone, -⟩ := closeReasoning_spec hs
      obtain ⟨v, hv, hsaid⟩ := textDelta_spec hgoes'.running hnone content
      refine ⟨v, ?_, .inl (hgoes'.trans hsaid)⟩
      show (s.closeReasoning >>= _) = _
      rw [hu]
      exact hv
  | reasoningDelta content =>
      obtain ⟨u, hu, hgoes', hnone, -⟩ := closeText_spec hs
      obtain ⟨v, hv, hsaid⟩ := reasoningDelta_spec hgoes'.running hnone content
      refine ⟨v, ?_, .inl (hgoes'.trans hsaid)⟩
      show (s.closeText >>= _) = _
      rw [hu]
      exact hv
  | toolCall id name args =>
      obtain ⟨u, hu, hgoes'⟩ := hbetween (.toolInputAvailable id name args) t.nextId rfl rfl rfl rfl
      exact ⟨u, (hafter _).trans hu, .inl hgoes'⟩
  | toolResult id name result isError =>
      obtain ⟨u, hu, hgoes'⟩ := hbetween (.toolOutputAvailable id result) t.nextId rfl rfl rfl rfl
      exact ⟨u, (hafter _).trans hu, .inl hgoes'⟩
  | toolUnavailable server reason =>
      obtain ⟨u, hu, hgoes'⟩ :=
        hbetween (.toolUnavailable t.nextId server reason) (t.nextId + 1) rfl rfl rfl rfl
      exact ⟨u, (hafter _).trans hu, .inl hgoes'⟩
  | error code message =>
      obtain ⟨u, hu, hclosed, hkept⟩ := hcloses (.error message) rfl
      exact ⟨u, (hafter _).trans hu, .inr ⟨hclosed, hkept, rfl, rfl⟩⟩
  | done =>
      obtain ⟨u, hu, hclosed, hkept⟩ := hcloses .finish rfl
      exact ⟨u, (hafter _).trans hu, .inr ⟨hclosed, hkept, rfl, rfl⟩⟩
  | skillLoaded _ | subagentStart _ _ _ | subagentEvent _ _ | subagentEnd _ _ | usage _ _ =>
      exact ⟨s, rfl, .inl (.refl hs)⟩

theorem enqueue_closed (hclosed : s.controllerClosed = true) (chunk : Chunk) :
    s.enqueue chunk = .ok s := if_pos hclosed

/-- An event after the last chunk, which closes no block. -/
theorem handleEvent_closed (hclosed : s.controllerClosed = true) (hopen : s.isOpen = false)
    {event : ChatEvent} (hcloses : s.closes event = false) : ∃ textId reasoningId nextId doneEmitted,
      s.handleEvent event = .ok { s with textId, reasoningId, nextId, doneEmitted } := by
  have hnoText : s.textId = none → s.closeText = .ok s := by
    intro h
    unfold State.closeText
    rw [h]
  have hnoReasoning : s.reasoningId = none → s.closeReasoning = .ok s := by
    intro h
    unfold State.closeReasoning
    rw [h]
  have hnoBlock : s.hasBlock = false → ∀ f : State → Except State State,
      (s.closeOpenBlocks >>= f) = f s := by
    intro h f
    simp only [State.hasBlock, Bool.or_eq_false_iff, Option.isSome_eq_false_iff,
      Option.isNone_iff_eq_none] at h
    unfold State.closeOpenBlocks
    rw [hnoReasoning h.2]
    show (s.closeText >>= f) = f s
    rw [hnoText h.1]
    rfl
  have hclose : ∀ chunk, s.close chunk = .ok { s with doneEmitted := true } := by
    intro chunk
    unfold State.close
    rw [enqueue_closed hclosed]
    simp [Except.map, State.closeController, hclosed, hopen]
  cases event with
  | token content =>
      have hnone : s.reasoningId = none := by simpa [State.closes] using hcloses
      show ∃ _ _ _ _, (s.closeReasoning >>= (State.textDelta · content)) = _
      rw [hnoReasoning hnone]
      show ∃ _ _ _ _, s.textDelta content = _
      unfold State.textDelta
      split
      · exact ⟨_, _, _, _, enqueue_closed hclosed _⟩
      · refine ⟨some s.nextId, s.reasoningId, s.nextId + 1, s.doneEmitted, ?_⟩
        simp only [State.enqueue, hclosed]
        rfl
  | reasoningDelta content =>
      have hnone : s.textId = none := by simpa [State.closes] using hcloses
      show ∃ _ _ _ _, (s.closeText >>= (State.reasoningDelta · content)) = _
      rw [hnoText hnone]
      show ∃ _ _ _ _, s.reasoningDelta content = _
      unfold State.reasoningDelta
      split
      · exact ⟨_, _, _, _, enqueue_closed hclosed _⟩
      · refine ⟨s.textId, some s.nextId, s.nextId + 1, s.doneEmitted, ?_⟩
        simp only [State.enqueue, hclosed]
        rfl
  | toolCall _ _ _ | toolResult _ _ _ _ =>
      exact ⟨_, _, _, _, (hnoBlock hcloses _).trans (enqueue_closed hclosed _)⟩
  | toolUnavailable server reason =>
      refine ⟨s.textId, s.reasoningId, s.nextId + 1, s.doneEmitted, (hnoBlock hcloses _).trans ?_⟩
      exact if_pos hclosed
  | error _ _ | done => exact ⟨_, _, _, true, (hnoBlock hcloses _).trans (hclose _)⟩
  | skillLoaded _ | subagentStart _ _ _ | subagentEvent _ _ | subagentEnd _ _ | usage _ _ =>
      exact ⟨_, _, _, _, rfl⟩

/-! ## Steps -/

/-- The loop and what the source has been told do not matter. -/
theorem Inv.setLoop (hs : Inv s) (loop : Loop) (cancelled listening : Bool) :
    Inv { s with loop, cancelled, listening } :=
  { hs with running := fun h => { hs.running h with } }

theorem Running.inv (hs : Running s) (hstarts : s.chunks.head? = some .start)
    (htext : s.chunks.flatMap Chunk.text = s.heard.flatMap tokenOf)
    (hreasoning : s.chunks.flatMap Chunk.reasoning = s.heard.flatMap reasoningOf)
    (hescaped : s.escaped = false) : Inv s where
  running := fun _ => hs
  shut := by
    intro h
    rw [hs.isOpen] at h
    cases h
  shape := by
    refine ⟨_, hs.shape, ?_⟩
    intro h
    rw [hs.notClosed] at h
    cases h
  starts := hstarts
  text := htext
  reasoning := hreasoning
  oneLast := by
    rw [hs.noLast, hs.notCaused]
    rfl
  nothingThrown := hescaped

theorem Closed.inv {t : State} (h : Closed s t) (hs : Inv s)
    (htext : t.heard.flatMap tokenOf = s.heard.flatMap tokenOf)
    (hreasoning : t.heard.flatMap reasoningOf = s.heard.flatMap reasoningOf) : Inv t where
  running := by
    intro hopen
    rw [h.isOpen] at hopen
    cases hopen
  shut := fun _ => .inl h.controllerClosed
  shape := ⟨.over, h.shape, fun _ _ => rfl⟩
  starts := h.starts hs.starts
  text := by rw [h.text, hs.text, htext]
  reasoning := by rw [h.reasoning, hs.reasoning, hreasoning]
  oneLast := by
    rw [h.oneLast, h.caused]
    rfl
  nothingThrown := h.escaped.trans hs.nothingThrown

/-- An event without a chunk. -/
theorem handleEvent_silent {event : ChatEvent} (h : enqueues event = false) :
    s.handleEvent event = .ok s ∧ tokenOf event = [] ∧ reasoningOf event = [] := by
  cases event with
  | skillLoaded _ | subagentStart _ _ _ | subagentEvent _ _ | subagentEnd _ _ | usage _ _ =>
      exact ⟨rfl, rfl, rfl⟩
  | _ => cases h

theorem inv_handleEvent (hs : Inv s) {event : ChatEvent}
    (hclosed : s.controllerClosed = true → s.closes event = false)
    (hopen : s.controllerClosed = false → s.isOpen = true ∨ enqueues event = false) :
    Inv (s.handleRead (.event event)) := by
  unfold State.handleRead
  dsimp only
  cases hcontroller : s.controllerClosed with
  | true =>
      have hnotOpen : s.isOpen = false := by
        by_contra h
        rw [Bool.not_eq_false] at h
        rw [(hs.running h).notClosed] at hcontroller
        cases hcontroller
      obtain ⟨textId, reasoningId, nextId, doneEmitted, hevent⟩ :=
        handleEvent_closed hcontroller hnotOpen (hclosed hcontroller)
      rw [hevent, if_pos rfl]
      exact
        { hs with
          running := by
            intro h
            have h' : s.isOpen = true := h
            rw [hnotOpen] at h'
            cases h' }
  | false =>
      rw [if_neg (by simp)]
      have htext : (s.heard ++ [event]).flatMap tokenOf = s.heard.flatMap tokenOf ++ tokenOf event := by
        simp
      have hreasoning : (s.heard ++ [event]).flatMap reasoningOf =
          s.heard.flatMap reasoningOf ++ reasoningOf event := by
        simp
      by_cases hisOpen : s.isOpen = true
      · obtain ⟨t, ht, hcases⟩ := handleEvent_running (hs.running hisOpen) event
        rw [ht]
        rcases hcases with hgoes | ⟨hend, hkept, hnoText, hnoReasoning⟩
        · have hrunning : Running ({ t with heard := s.heard ++ [event] }.readOn) :=
            { hgoes.running with }
          refine hrunning.inv (hgoes.starts hs.starts) ?_ ?_ (hgoes.escaped.trans hs.nothingThrown)
          · show t.chunks.flatMap Chunk.text = _
            rw [hgoes.text, hs.text]
            exact htext.symm
          · show t.chunks.flatMap Chunk.reasoning = _
            rw [hgoes.reasoning, hs.reasoning]
            exact hreasoning.symm
        · rw [hnoText, List.append_nil] at htext
          rw [hnoReasoning, List.append_nil] at hreasoning
          have hend' : Closed s ({ t with heard := s.heard ++ [event] }.readOn) := { hend with }
          exact hend'.inv hs htext hreasoning
      · obtain ⟨hevent, hnoText, hnoReasoning⟩ :=
          handleEvent_silent ((hopen hcontroller).resolve_left hisOpen)
        rw [hevent]
        rw [hnoText, List.append_nil] at htext
        rw [hnoReasoning, List.append_nil] at hreasoning
        exact
          { hs with
            running := fun h => absurd h hisOpen
            text := hs.text.trans htext.symm
            reasoning := hs.reasoning.trans hreasoning.symm }

/-- The source ends; no block is open then. -/
theorem inv_done (hs : Inv s) (hblock : s.controllerClosed = true ∨ s.abandoned = true ∨
    s.hasBlock = false) : Inv (s.handleRead .done) := by
  have hread : s.handleRead .done = if s.doneEmitted then { s with loop := .stopped }
      else { s.closeController with loop := .stopped } := rfl
  rw [hread]
  split_ifs
  · exact hs.setLoop .stopped s.cancelled s.listening
  · refine
      { hs with
        running := nofun
        shut := fun _ => .inl rfl
        shape := ?_ }
    obtain ⟨shape, hshape, hend⟩ := hs.shape
    refine ⟨shape, hshape, ?_⟩
    intro _ hkept
    have hkept' : s.abandoned = false := hkept
    cases hcontroller : s.controllerClosed with
    | true => exact hend hcontroller hkept'
    | false =>
        have hisOpen : s.isOpen = true := by
          by_contra h
          rw [Bool.not_eq_true] at h
          rcases hs.shut h with h | h
          · rw [hcontroller] at h
            cases h
          · rw [hkept'] at h
            cases h
        have hnone : s.hasBlock = false := by
          rcases hblock with h | h | h
          · rw [hcontroller] at h
            cases h
          · rw [hkept'] at h
            cases h
          · exact h
        simp only [State.hasBlock, Bool.or_eq_false_iff, Option.isSome_eq_false_iff,
          Option.isNone_iff_eq_none] at hnone
        have hidle := (hs.running hisOpen).shape
        rw [hnone.1, hnone.2] at hidle
        rw [hshape, Option.some.injEq] at hidle
        rw [hidle]
        rfl

theorem noBlock (h : s.hasBlock = false) : s.textId = none ∧ s.reasoningId = none := by
  simpa [State.hasBlock] using h

/-- The source fails; the stream is open then, and no block is. -/
theorem inv_fail (hs : Inv s) (hopen : s.isOpen = true) (hblock : s.hasBlock = false)
    (message : Text) : Inv (s.fail message) := by
  have hrunning := hs.running hopen
  obtain ⟨htext, hreasoning⟩ := noBlock hblock
  have hfail : s.fail message =
      { ({ s with chunks := s.chunks ++ [.error message] } : State).closeController with
        loop := .stopped
        caused := true } := by
    unfold State.fail
    rw [hrunning.rawEnqueue]
  have hclosed : Closed s (s.fail message) := by
    rw [hfail]
    refine hrunning.last htext hreasoning (show (Chunk.error message).isLast = true from rfl) ?_ ?_ ?_
      ?_ ?_
    · rfl
    · rfl
    · rfl
    · rfl
    · rfl
  exact hclosed.inv hs (by rw [hfail]; rfl) (by rw [hfail]; rfl)

/-- The signal is aborted when the stream is closed, or no block is open. -/
theorem inv_abort (hs : Inv s)
    (hok : s.controllerClosed = true ∨ (s.isOpen = true ∧ s.hasBlock = false)) : Inv s.abort := by
  unfold State.abort
  cases hcontroller : s.controllerClosed with
  | true =>
      have hnotOpen : s.isOpen = false := by
        by_contra h
        rw [Bool.not_eq_false] at h
        rw [(hs.running h).notClosed] at hcontroller
        cases hcontroller
      rw [enqueue_closed hcontroller]
      refine
        { hs with
          running := nofun
          shut := fun _ => .inl rfl
          shape := ?_
          oneLast := ?_ }
      · obtain ⟨shape, hshape, hend⟩ := hs.shape
        exact ⟨shape, hshape, fun _ => hend hcontroller⟩
      · show s.chunks.countP _ = if (s.caused || !true) = true then 1 else 0
        rw [hs.oneLast, Bool.not_true, Bool.or_false]
  | false =>
      obtain ⟨hopen, hblock⟩ := hok.resolve_left (by simp [hcontroller])
      obtain ⟨htext, hreasoning⟩ := noBlock hblock
      have hrunning := hs.running hopen
      rw [hrunning.enqueue]
      dsimp only
      have hlast : Chunk.abort.isLast = true := rfl
      have hclosed : Closed s ({ ({ s with chunks := s.chunks ++ [Chunk.abort] } : State).closeController
          with
            listening := false
            caused := s.caused || !false }.cancelSource) := by
        refine hrunning.last htext hreasoning hlast ?_ ?_ ?_ ?_ ?_
        · rfl
        · rfl
        · rfl
        · exact Bool.or_true _
        · rfl
      exact hclosed.inv hs rfl rfl

theorem inv_init (aborted : Bool) : Inv (State.init aborted) := by
  unfold State.init
  split_ifs
  · exact (inv_abort inv_start (.inr ⟨rfl, rfl⟩)).setLoop .stopped _ _
  · exact inv_start

theorem inv_step {l : Label} (hs : Inv s) (hok : Neat s l) (h : step s l = some t) : Inv t := by
  cases l with
  | resolve read =>
      simp only [step] at h
      split at h
      · cases h
        exact hs.setLoop (.resolved read) s.cancelled s.listening
      · cases h
  | handle =>
      simp only [step] at h
      split at h
      · next read hloop =>
        cases h
        cases read with
        | event event =>
            simp only [Neat, hloop] at hok
            refine inv_handleEvent hs ?_ ?_
            · intro hclosed
              simpa [hclosed] using hok
            · intro hclosed
              simpa [hclosed] using hok
        | done =>
            simp only [Neat, hloop, Bool.or_eq_true, Bool.not_eq_true', or_assoc] at hok
            exact inv_done hs hok
        | failed message =>
            simp only [Neat, hloop, Bool.and_eq_true, Bool.not_eq_true'] at hok
            exact inv_fail hs hok.1 hok.2 message
      · cases h
  | abort =>
      simp only [step] at h
      split_ifs at h
      cases h
      simp only [Neat, Bool.or_eq_true, Bool.and_eq_true, Bool.not_eq_true'] at hok
      exact inv_abort hs hok
  | cancel =>
      cases h
      refine
        { hs with
          running := nofun
          shut := ?_
          shape := ?_ }
      · intro _
        show s.controllerClosed = true ∨ (s.abandoned || s.isOpen) = true
        rw [Bool.or_eq_true]
        by_cases hopen : s.isOpen = true
        · exact .inr (.inr hopen)
        · exact (hs.shut (by simpa using hopen)).imp_right .inl
      · obtain ⟨shape, hshape, hend⟩ := hs.shape
        refine ⟨shape, hshape, ?_⟩
        intro hclosed hkept
        have hkept' : (s.abandoned || s.isOpen) = false := hkept
        rw [Bool.or_eq_false_iff] at hkept'
        exact hend hclosed hkept'.1

/-! ## The result -/

/-- In every run in which no block is open at an abort, a failure or the end of the source,
and what follows the last event closes no block, the chunks are well formed. -/
theorem bracketed_of_run {aborted : Bool} {ls : List Label}
    (h : Run step Neat (State.init aborted) ls s) : Bracketed s := by
  have hs : Inv s := h.invariant (inv_init aborted) fun _ _ _ hs hok hstep => inv_step hs hok hstep
  exact ⟨hs.shape, hs.starts, hs.text, hs.reasoning, hs.oneLast, hs.nothingThrown⟩

/-! ## Blocks that are left open -/

/-- The events come one after the other. -/
def hears (events : List ChatEvent) : List Label :=
  events.flatMap fun event => [.resolve (.event event), .handle]

def word : ChatEvent := .token "a".toList

/-- The signal is aborted in a text. -/
def abortedInText : List Label := hears [word] ++ [.abort]

/-- The source ends in a text. -/
def endedInText : List Label := hears [word] ++ [.resolve .done, .handle]

/-- The source fails in a text. -/
def failedInText : List Label := hears [word] ++ [.resolve (.failed []), .handle]

/-- Two more events follow the last one. -/
def goesOn : List Label := hears [.done, word, .reasoningDelta "b".toList]

def leftOpen (s : State) : Bool :=
  (monitor accept .fresh s.chunks).all fun shape =>
    s.controllerClosed && !s.abandoned && !shape.closed

def threw (s : State) : Bool := s.escaped

theorem not_bracketed_of_leftOpen (h : leftOpen s = true) : ¬ Bracketed s := by
  intro hs
  obtain ⟨shape, hshape, hend⟩ := hs.shape
  simp only [leftOpen, hshape, Option.all_some, Bool.and_eq_true, Bool.not_eq_true'] at h
  rw [hend h.1.1 h.1.2] at h
  cases h.2

theorem not_bracketed_of_threw (h : threw s = true) : ¬ Bracketed s := by
  intro hs
  have hnothing := hs.nothingThrown
  rw [show s.escaped = true from h] at hnothing
  cases hnothing

theorem exists_notBracketed {ls : List Label} (test : State → Bool)
    (h : (exec step free (State.init false) ls).any test = true)
    (hnot : ∀ s, test s = true → ¬ Bracketed s) :
    ∃ s, Run step free (State.init false) ls s ∧ test s = true ∧ ¬ Bracketed s := by
  obtain ⟨s, hrun, hs⟩ := Run.exists_of_exec test h
  exact ⟨s, hrun, hs, hnot s hs⟩

/-- The text is not ended at an abort, at the end of the source and when it fails, and an
event after the last one throws. -/
theorem blocks_left_open :
    (∃ s, Run step free (State.init false) abortedInText s ∧ leftOpen s = true ∧
      ¬ Bracketed s) ∧
    (∃ s, Run step free (State.init false) endedInText s ∧ leftOpen s = true ∧ ¬ Bracketed s) ∧
    (∃ s, Run step free (State.init false) failedInText s ∧ leftOpen s = true ∧
      ¬ Bracketed s) ∧
    ∃ s, Run step free (State.init false) goesOn s ∧ threw s = true ∧ ¬ Bracketed s :=
  ⟨exists_notBracketed leftOpen (by decide) fun _ => not_bracketed_of_leftOpen,
    exists_notBracketed leftOpen (by decide) fun _ => not_bracketed_of_leftOpen,
    exists_notBracketed leftOpen (by decide) fun _ => not_bracketed_of_leftOpen,
    exists_notBracketed threw (by decide) fun _ => not_bracketed_of_threw⟩

instance (s : State) (l : Label) : Decidable (Neat s l) :=
  match l with
  | .handle =>
    match h : s.loop with
    | .resolved (.event event) =>
      decidable_of_iff (if s.controllerClosed then s.closes event = false
        else s.isOpen || !enqueues event) (by simp only [Neat, h])
    | .resolved .done =>
      decidable_of_iff (s.controllerClosed || s.abandoned || !s.hasBlock) (by simp only [Neat, h])
    | .resolved (.failed _) => decidable_of_iff (s.isOpen && !s.hasBlock) (by simp only [Neat, h])
    | .waiting | .stopped => isTrue (by simp only [Neat, h])
  | .abort => inferInstanceAs (Decidable (_ = _))
  | .resolve _ | .cancel => isTrue trivial

/-- A turn with reasoning, text and a tool, and an abort after its end. -/
def neatTurn : List Label :=
  hears [.reasoningDelta "b".toList, word, .toolCall [] [] ⟨[], none⟩, .toolResult [] [] [] false,
    word, word, .done] ++ [.abort, .handle]

def saidAll (s : State) : Bool :=
  s.chunks.flatMap Chunk.text == "aaa".toList && s.chunks.getLast? == some .finish

theorem bracketed_neatTurn : ∃ s, Run step Neat (State.init false) neatTurn s ∧
    saidAll s = true ∧ Bracketed s := by
  obtain ⟨s, hrun, hs⟩ := Run.exists_of_exec saidAll
    (show (exec step Neat (State.init false) neatTurn).any _ = true by decide)
  exact ⟨s, hrun, hs, bracketed_of_run hrun⟩

end Vanyline.Ui.ChatStream
