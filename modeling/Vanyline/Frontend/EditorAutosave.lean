import Mathlib.Data.List.Basic
import Vanyline.Lib.Run

/-!
# Autosave of an editor tab

A keystroke arms a timer, unless it is armed.  When it runs out, or at a flush before that,
the document is written.  An event `file-changed` makes the tab read the file, unless the
timer is armed, and the answer to the read replaces the document.

The tab has one path and a client that is connected.  The client's requests are served one
after the other, and each may fail.  Others may write the file, and events may come at any
time.  The model notes whether there was a keystroke since a write was last handed to the
client (`typed`), the content that was written or reloaded last (`synced`), and whether
others have written since the last event (`unseen`).

`Safe` says that no reload replaces a keystroke that was not handed to a write, that there is
no write without a keystroke, and that the document is what was written or reloaded last
when nothing is left to do.  It fails when a key is struck between the event and the answer
to the read, as only the event looks at the timer (`reload_loses`).  `autosave_safe_of_run` holds
without that (`Settled`).
-/

namespace Vanyline.Frontend.EditorAutosave

open Vanyline.Lib

abbrev Doc := List Char

inductive Request
  | write (content : Doc)
  | read
  deriving DecidableEq

def Request.content : Request → Option Doc
  | .write content => some content
  | .read => none

/-- What the writes that wait will leave, if there are any. -/
def contents (queue : List Request) : List Doc := queue.filterMap Request.content

/-- The answer to a request; without a content it has failed. -/
inductive Reply
  | wrote (ok : Bool)
  | read (content : Option Doc)
  deriving DecidableEq

/-- The tab, the requests that are not served, the answer on its way and the file. -/
structure State where
  buffer : Doc
  pending : Bool
  queue : List Request
  served : Option Reply
  disk : Doc
  events : Nat
  typed : Bool
  synced : Doc
  unseen : Bool
  failed : Bool
  lost : Bool
  echoed : Bool

/-- The file is loaded. -/
def State.init (disk : Doc) : State where
  buffer := disk
  pending := false
  queue := []
  served := none
  disk
  events := 0
  typed := false
  synced := disk
  unseen := false
  failed := false
  lost := false
  echoed := false

namespace State

/-- The listener of updates, with the transactions that carry the mark of a reload. -/
def listen (s : State) (docChanged : Bool) (marked : List Bool) : State :=
  if !docChanged then s
  else if !marked.all (! ·) then s
  else if s.pending then s
  else { s with pending := true }

def keystroke (s : State) (content : Doc) : State :=
  { s with buffer := content, typed := true }.listen true [false]

def request (s : State) (r : Request) : State := { s with queue := s.queue ++ [r] }

def writeNow (s : State) : State :=
  { s with
    pending := false
    typed := false
    echoed := s.echoed || !s.typed }.request (.write s.buffer)

def flush (s : State) : State := if s.pending then s.writeNow else s

/-- `save`, which the key `Mod-s` calls. -/
def save (s : State) : State := if s.pending then s.writeNow else s.request (.write s.buffer)

/-- `applyDiskReload`. -/
def applyDiskReload (s : State) (content : Doc) : State :=
  { s with buffer := content, synced := content, lost := s.lost || s.typed }.listen true [true]

/-- The handler of `file-changed`. -/
def fileChanged (s : State) : State := if s.pending then s else s.request .read

/-- The server takes the next request. -/
def serve (s : State) (ok : Bool) (rest : List Request) : Request → State
  | .write content =>
    if ok then { s with queue := rest, disk := content, synced := content, served := some (.wrote true) }
    else { s with queue := rest, failed := true, served := some (.wrote false) }
  | .read =>
    if ok then { s with queue := rest, served := some (.read (some s.disk)) }
    else { s with queue := rest, failed := true, served := some (.read none) }

/-- The answer comes to the tab. -/
def deliver (s : State) : Reply → State
  | .wrote _ | .read none => { s with served := none }
  | .read (some content) => { s with served := none }.applyDiskReload content

end State

/-! ## Steps -/

inductive Label
  | keystroke (content : Doc)
  | expire
  | flush
  | save
  | otherWrite (content : Doc)
  | emit
  | event
  | serve (ok : Bool)
  | deliver

def step (s : State) : Label → Option State
  | .keystroke content => some (s.keystroke content)
  | .expire => if s.pending then some s.writeNow else none
  | .flush => some s.flush
  | .save => some s.save
  | .otherWrite content => some { s with disk := content, unseen := true }
  | .emit => some { s with events := s.events + 1 }
  | .event =>
    match s.events with
    | n + 1 => some { s with events := n, unseen := false }.fileChanged
    | 0 => none
  | .serve ok =>
    match s.queue, s.served with
    | r :: rest, none => some (s.serve ok rest r)
    | _, _ => none
  | .deliver => s.served.map s.deliver

/-! ## The property -/

/-- No timer is armed, no request or event is under way, and no request has failed. -/
structure Quiescent (s : State) : Prop where
  pending : s.pending = false
  queue : s.queue = []
  served : s.served = none
  events : s.events = 0
  failed : s.failed = false

structure Safe (s : State) : Prop where
  keystrokes : s.lost = false
  writes : s.echoed = false
  synced : Quiescent s → s.buffer = s.synced
  disk : Quiescent s → s.unseen = false → s.buffer = s.disk

/-! ## The condition -/

/-- When the answer to a read comes, the timer is not armed, and no write of anything else
waits. -/
def Settled (s : State) : Label → Prop
  | .deliver =>
    match s.served with
    | some (.read (some content)) =>
      s.pending = false ∧ (contents s.queue).getLastD content = content
    | _ => True
  | _ => True

/-! ## The invariant -/

variable {s t : State} {l : Label} {content : Doc}

structure Inv (s : State) : Prop where
  typed : s.typed = s.pending
  lost : s.lost = false
  echoed : s.echoed = false
  buffer : s.pending = false → s.failed = true ∨ s.buffer = (contents s.queue).getLastD s.synced
  disk : s.failed = true ∨ s.unseen = true ∨ s.pending = true ∨ s.queue ≠ [] ∨
    s.served = some (.read (some s.disk)) ∨
    (s.disk = s.synced ∧ ∀ content, s.served ≠ some (.read (some content)))

theorem inv_init (disk : Doc) : Inv (.init disk) where
  typed := rfl
  lost := rfl
  echoed := rfl
  buffer := fun _ => .inr rfl
  disk := .inr (.inr (.inr (.inr (.inr ⟨rfl, nofun⟩))))

theorem contents_concat (queue : List Request) (content synced : Doc) :
    (contents (queue ++ [.write content])).getLastD synced = content := by
  simp [contents, Request.content, List.filterMap_append]

theorem keystroke_eq (s : State) (content : Doc) :
    s.keystroke content = { s with buffer := content, typed := true, pending := true } := by
  cases hpending : s.pending with
  | true => simp [State.keystroke, State.listen, hpending]
  | false => simp [State.keystroke, State.listen, hpending]

/-- A reload does not arm the timer. -/
theorem applyDiskReload_eq (s : State) (content : Doc) :
    s.applyDiskReload content =
      { s with buffer := content, synced := content, lost := s.lost || s.typed } := by
  simp [State.applyDiskReload, State.listen]

theorem Inv.keystroke (hs : Inv s) (content : Doc) : Inv (s.keystroke content) := by
  rw [keystroke_eq]
  exact
    { hs with
      typed := rfl
      buffer := nofun
      disk := .inr (.inr (.inl rfl)) }

/-- The document is handed to a write. -/
theorem Inv.handOver (hs : Inv s) (pending typed echoed : Bool) (htyped : typed = pending)
    (hechoed : echoed = false) :
    Inv ({ s with pending, typed, echoed }.request (.write s.buffer)) where
  typed := htyped
  lost := hs.lost
  echoed := hechoed
  buffer := fun _ => .inr (contents_concat s.queue s.buffer s.synced).symm
  disk := .inr (.inr (.inr (.inl (by simp [State.request]))))

theorem Inv.writeNow (hs : Inv s) (hpending : s.pending = true) : Inv s.writeNow := by
  refine hs.handOver false false (s.echoed || !s.typed) rfl ?_
  rw [hs.echoed, hs.typed, hpending]
  rfl

theorem Inv.flush (hs : Inv s) : Inv s.flush := by
  unfold State.flush
  split_ifs with hpending
  · exact hs.writeNow hpending
  · exact hs

theorem Inv.save (hs : Inv s) : Inv s.save := by
  unfold State.save
  split_ifs with hpending
  · exact hs.writeNow hpending
  · exact hs.handOver s.pending s.typed s.echoed hs.typed hs.echoed

/-- An event is seen, and the file is read unless it will be written. -/
theorem Inv.fileChanged (hs : Inv s) (events : Nat) :
    Inv ({ s with events, unseen := false } : State).fileChanged := by
  unfold State.fileChanged
  split_ifs with hpending
  · exact { hs with disk := .inr (.inr (.inl hpending)) }
  · refine
      { hs with
        buffer := ?_
        disk := .inr (.inr (.inr (.inl (by simp [State.request])))) }
    intro hnone
    have hsame : contents (s.queue ++ [.read]) = contents s.queue := by
      simp [contents, Request.content, List.filterMap_append]
    show s.failed = true ∨ s.buffer = (contents (s.queue ++ [.read])).getLastD s.synced
    rw [hsame]
    exact hs.buffer hnone

theorem Inv.serve (hs : Inv s) (ok : Bool) {rest : List Request} {r : Request}
    (hqueue : s.queue = r :: rest) : Inv (s.serve ok rest r) := by
  have hbuffer := hs.buffer
  rw [hqueue] at hbuffer
  cases r with
  | write content =>
      cases ok with
      | true =>
          refine
            { hs with
              buffer := ?_
              disk := .inr (.inr (.inr (.inr (.inr ⟨rfl, by simp [State.serve]⟩)))) }
          intro hpending
          refine (hbuffer hpending).imp_right ?_
          intro h
          show s.buffer = (contents rest).getLastD content
          rw [h]
          exact List.getLastD_cons
      | false =>
          exact { hs with buffer := fun _ => .inl rfl, disk := .inl rfl }
  | read =>
      cases ok with
      | true =>
          exact { hs with
            buffer := hbuffer
            disk := .inr (.inr (.inr (.inr (.inl rfl)))) }
      | false =>
          exact { hs with buffer := fun _ => .inl rfl, disk := .inl rfl }

/-- The answer to a read comes when no keystroke and no other write is under way. -/
theorem Inv.reload (hs : Inv s) (hserved : s.served = some (.read (some content)))
    (hpending : s.pending = false) (hqueue : (contents s.queue).getLastD content = content) :
    Inv (s.deliver (.read (some content))) := by
  have hdeliver : s.deliver (.read (some content)) = { s with
      served := none
      buffer := content
      synced := content
      lost := s.lost || s.typed } := applyDiskReload_eq { s with served := none } content
  rw [hdeliver]
  refine
    { typed := hs.typed
      lost := ?_
      echoed := hs.echoed
      buffer := fun _ => .inr hqueue.symm
      disk := ?_ }
  · show (s.lost || s.typed) = false
    rw [hs.lost, hs.typed, hpending]
    rfl
  · rcases hs.disk with h | h | h | h | h | h
    · exact .inl h
    · exact .inr (.inl h)
    · exact .inr (.inr (.inl h))
    · exact .inr (.inr (.inr (.inl h)))
    · rw [hserved] at h
      cases h
      exact .inr (.inr (.inr (.inr (.inr ⟨rfl, by simp⟩))))
    · exact absurd hserved (h.2 content)

/-- An answer without a content changes nothing. -/
theorem Inv.dismiss (hs : Inv s) (hserved : ∀ content, s.served ≠ some (.read (some content))) :
    Inv { s with served := none } := by
  refine { hs with disk := ?_ }
  rcases hs.disk with h | h | h | h | h | h
  · exact .inl h
  · exact .inr (.inl h)
  · exact .inr (.inr (.inl h))
  · exact .inr (.inr (.inr (.inl h)))
  · exact absurd h (hserved s.disk)
  · exact .inr (.inr (.inr (.inr (.inr ⟨h.1, nofun⟩))))

theorem Inv.deliver (hs : Inv s) {reply : Reply} (hserved : s.served = some reply)
    (hok : Settled s .deliver) : Inv (s.deliver reply) := by
  cases reply with
  | wrote ok => exact hs.dismiss (by simp [hserved])
  | read answer =>
      cases answer with
      | none => exact hs.dismiss (by simp [hserved])
      | some content =>
          simp only [Settled, hserved] at hok
          exact hs.reload hserved hok.1 hok.2

theorem inv_step (hs : Inv s) (hok : Settled s l) (h : step s l = some t) : Inv t := by
  cases l with
  | keystroke content =>
      cases h
      exact hs.keystroke content
  | expire =>
      simp only [step] at h
      split_ifs at h with hpending
      cases h
      exact hs.writeNow hpending
  | flush =>
      cases h
      exact hs.flush
  | save =>
      cases h
      exact hs.save
  | otherWrite content =>
      cases h
      exact { hs with disk := .inr (.inl rfl) }
  | emit =>
      cases h
      exact { hs with }
  | event =>
      simp only [step] at h
      split at h
      · cases h
        exact hs.fileChanged _
      · cases h
  | serve ok =>
      simp only [step] at h
      split at h
      · next r rest hqueue _ =>
        cases h
        exact hs.serve ok hqueue
      · cases h
  | deliver =>
      obtain ⟨reply, hserved, hdeliver⟩ := Option.map_eq_some_iff.1 h
      rw [← hdeliver]
      exact hs.deliver hserved hok

/-- When no key was struck, and nothing else is to be written, as the answer to a read comes,
no keystroke is lost, and the document and the file agree when nothing is left to do. -/
theorem autosave_safe_of_run {disk : Doc} {ls : List Label}
    (h : Run step Settled (.init disk) ls s) :
    Safe s := by
  have hs : Inv s := h.invariant (inv_init disk) fun _ _ _ hs hok hstep => inv_step hs hok hstep
  have hsynced : Quiescent s → s.buffer = s.synced := by
    intro hq
    rcases hs.buffer hq.pending with hfailed | hbuffer
    · rw [hq.failed] at hfailed
      cases hfailed
    · rw [hq.queue] at hbuffer
      exact hbuffer
  refine ⟨hs.lost, hs.echoed, hsynced, ?_⟩
  intro hq hunseen
  rw [hsynced hq]
  rcases hs.disk with h | h | h | h | h | h
  · rw [hq.failed] at h
    cases h
  · rw [hunseen] at h
    cases h
  · rw [hq.pending] at h
    cases h
  · exact absurd hq.queue h
  · rw [hq.served] at h
    cases h
  · exact h.1.symm

/-! ## Keystrokes that are lost -/

/-- An event makes the tab read the file, which is `a`. -/
def reads : List Label := [.emit, .event]

/-- A key is struck before the answer to the read. -/
def struck : List Label := reads ++ [.keystroke "ab".toList, .serve true, .deliver]

/-- And the timer runs out before it. -/
def struckAndHanded : List Label := reads ++ [.keystroke "ab".toList, .expire, .serve true, .deliver,
  .serve true, .deliver]

def hasLost (s : State) : Bool := s.lost

/-- Nothing is left to do, and the document is not the file. -/
def hasDrifted (s : State) : Bool :=
  !s.pending && s.queue.isEmpty && s.served.isNone && s.events == 0 && !s.failed && !s.unseen &&
    s.buffer != s.disk

theorem not_safe_of_lost (h : hasLost s = true) : ¬ Safe s := by
  intro hs
  have hkept := hs.keystrokes
  rw [show s.lost = true from h] at hkept
  cases hkept

theorem not_safe_of_drifted (h : hasDrifted s = true) : ¬ Safe s := by
  intro hs
  simp only [hasDrifted, Bool.and_eq_true, Bool.not_eq_true', List.isEmpty_iff,
    Option.isNone_iff_eq_none, beq_iff_eq, bne_iff_ne] at h
  obtain ⟨⟨⟨⟨⟨⟨hpending, hqueue⟩, hserved⟩, hevents⟩, hfailed⟩, hunseen⟩, hne⟩ := h
  exact hne (hs.disk ⟨hpending, hqueue, hserved, hevents, hfailed⟩ hunseen)

theorem exists_notSafe {ls : List Label} (test : State → Bool)
    (h : (exec step free (.init "a".toList) ls).any test = true)
    (hnot : ∀ s, test s = true → ¬ Safe s) :
    ∃ s, Run step free (.init "a".toList) ls s ∧ test s = true ∧ ¬ Safe s := by
  obtain ⟨s, hrun, hs⟩ := Run.exists_of_exec test h
  exact ⟨s, hrun, hs, hnot s hs⟩

/-- A reload replaces a keystroke, and leaves a document that is not the file. -/
theorem reload_loses :
    (∃ s, Run step free (.init "a".toList) struck s ∧ hasLost s = true ∧ ¬ Safe s) ∧
    ∃ s, Run step free (.init "a".toList) struckAndHanded s ∧ hasDrifted s = true ∧ ¬ Safe s :=
  ⟨exists_notSafe hasLost (by decide) fun _ => not_safe_of_lost,
    exists_notSafe hasDrifted (by decide) fun _ => not_safe_of_drifted⟩

instance (s : State) (l : Label) : Decidable (Settled s l) :=
  match l with
  | .deliver =>
    match h : s.served with
    | some (.read (some content)) =>
      decidable_of_iff (s.pending = false ∧ (contents s.queue).getLastD content = content)
        (by simp only [Settled, h])
    | some (.wrote _) | some (.read none) | none => isTrue (by simp only [Settled, h])
  | .keystroke _ | .expire | .flush | .save | .otherWrite _ | .emit | .event | .serve _ =>
    isTrue trivial

/-- Another writes, the tab reads that, and then a key is struck and written. -/
def readThenTyped : List Label := [.otherWrite "b".toList] ++ reads ++ [.serve true, .deliver,
  .keystroke "bc".toList, .emit, .event, .flush, .serve true, .deliver, .save, .serve true, .deliver]

def isTyped (s : State) : Bool := s.buffer == "bc".toList && s.disk == "bc".toList && s.queue.isEmpty

theorem safe_readThenTyped : ∃ s, Run step Settled (.init "a".toList) readThenTyped s ∧
    isTyped s = true ∧ Safe s := by
  obtain ⟨s, hrun, hs⟩ := Run.exists_of_exec isTyped
    (show (exec step Settled (.init "a".toList) readThenTyped).any _ = true by decide)
  exact ⟨s, hrun, hs, autosave_safe_of_run hrun⟩

end Vanyline.Frontend.EditorAutosave
