import Mathlib.Data.List.Nodup
import Mathlib.Logic.Function.Basic
import Vanyline.Frontend.FsClient

/-!
# Flush before an edit

Before the server edits a file for the agent it asks the browser to write what was typed.
`request_flush` sends an event to all tabs and waits for the first acknowledgement, for a
time.  A tab that handles the event flushes the path and puts the acknowledgement into the
queue of its client, behind the write.

The model has any number of tabs, each with an editor for each path, and any number of
requests.  A document is given by the number of its keystrokes.  The server serves the
queue of each tab in order, a write may fail, events may be dropped, and a request may be
abandoned with the call that made it.

The client hands an event to its handlers only when that has no id
(`onMessage_flushFrame`), and this event has one.  So the model is about both kinds of
client: with `routed` the handler is called, and without it is not.

`Flushed` says that no request returns `true` while a tab has typed something before it got
the event that is not written, that each acknowledgement is for the request that it names,
and that exactly the requests that wait have a waiter.  It fails when another tab
acknowledges first, when the write fails, and when a request is abandoned
(`flushes_fail`).  `flushed_of_run` holds without these (`Sound`).
-/

namespace Vanyline.Frontend.FlushRequests

open Vanyline.Lib

abbrev Path := List Char

/-! ## Tabs -/

/-- What waits in the queue of a client. -/
inductive Op
  | write (path : Path) (typed : Nat)
  | ack (id : Nat)
  | other
  deriving DecidableEq

/-- The keystrokes of an editor, how many of them a write has put on the disk, and its timer. -/
structure Editor where
  typed : Nat
  written : Nat
  pending : Bool

/-- A tab, the events on their way to it, and for each request of which it got the event the
path and the keystrokes on it by then. -/
structure Tab where
  connected : Bool
  editors : Path → Editor
  queue : List Op
  frames : List (Nat × Path)
  received : Nat → Option (Path × Nat)

def Tab.new : Tab where
  connected := true
  editors := fun _ => ⟨0, 0, false⟩
  queue := []
  frames := []
  received := fun _ => none

namespace Tab

def setEditor (tab : Tab) (path : Path) (editor : Editor) : Tab :=
  { tab with editors := Function.update tab.editors path editor }

theorem editors_setEditor_self (tab : Tab) (path : Path) (editor : Editor) :
    (tab.setEditor path editor).editors path = editor := Function.update_self ..

theorem editors_setEditor_of_ne (tab : Tab) {p path : Path} (editor : Editor) (h : p ≠ path) :
    (tab.setEditor path editor).editors p = tab.editors p := Function.update_of_ne h ..

def enqueue (tab : Tab) (op : Op) : Tab := { tab with queue := tab.queue ++ [op] }

def keystroke (tab : Tab) (path : Path) : Tab :=
  let editor := tab.editors path
  tab.setEditor path { editor with typed := editor.typed + 1, pending := true }

def writeNow (tab : Tab) (path : Path) : Tab :=
  let editor := tab.editors path
  (tab.setEditor path { editor with pending := false }).enqueue (.write path editor.typed)

def flushEditor (tab : Tab) (path : Path) : Tab :=
  if (tab.editors path).pending then tab.writeNow path else tab

/-- `makeFlushRequestHandler`. -/
def flushRequest (tab : Tab) (id : Nat) (path : Path) : Tab :=
  (tab.flushEditor path).enqueue (.ack id)

/-- The event comes; it is handled, or not. -/
def receive (routed : Bool) (tab : Tab) (id : Nat) (path : Path) (rest : List (Nat × Path)) : Tab :=
  let tab := { tab with
    frames := rest
    received := Function.update tab.received id (some (path, (tab.editors path).typed)) }
  if routed then tab.flushRequest id path else tab

/-- A write is done. -/
def store (tab : Tab) (path : Path) (typed : Nat) : Tab :=
  let editor := tab.editors path
  tab.setEditor path { editor with written := max editor.written typed }

/-- The keystrokes that a request is about: those before its event, or all. -/
def due (tab : Tab) (id : Nat) (path : Path) : Nat :=
  match tab.received id with
  | some (_, typed) => typed
  | none => (tab.editors path).typed

end Tab

/-! ## The server -/

/-- Where a request is. -/
inductive Status
  | waiting
  | acked
  | returned (flushed : Bool)
  | abandoned
  deriving DecidableEq

/-- A call of `request_flush`, and the tab whose acknowledgement it got. -/
structure Call where
  path : Path
  status : Status
  ackedBy : Option Nat

structure State where
  nextId : Nat
  calls : Nat → Option Call
  waiters : List Nat
  tabs : List Tab
  late : Bool

def State.init : State where
  nextId := 1
  calls := fun _ => none
  waiters := []
  tabs := []
  late := false

/-- The event of a request. -/
def flushFrame (id : Nat) (path : Path) : Json :=
  .object [("event", .str "flush-request".toList), ("id", .num id), ("path", .str path)]

namespace State

def setTab (s : State) (i : Nat) (tab : Tab) : State := { s with tabs := s.tabs.set i tab }

def setCall (s : State) (id : Nat) (call : Call) : State :=
  { s with calls := Function.update s.calls id (some call) }

/-- `request_flush` up to the event. -/
def requestFlush (s : State) (path : Path) : State :=
  { s with
    nextId := s.nextId + 1
    calls := Function.update s.calls s.nextId (some ⟨path, .waiting, none⟩)
    waiters := s.waiters ++ [s.nextId]
    tabs := s.tabs.map fun tab =>
      if tab.connected then { tab with frames := tab.frames ++ [(s.nextId, path)] } else tab }

/-- `handle_ack`, for an acknowledgement of the tab. -/
def handleAck (s : State) (i id : Nat) : State :=
  if s.waiters.contains id then
    let s := { s with waiters := s.waiters.erase id }
    match s.calls id with
    | some call =>
      if call.status = .waiting then
        s.setCall id { call with status := .acked, ackedBy := some i }
      else s
    | none => s
  else s

/-- The server takes the next request of the tab. -/
def serve (s : State) (i : Nat) (tab : Tab) (ok : Bool) (rest : List Op) : Op → State
  | .write path typed =>
    let tab := { tab with queue := rest }
    s.setTab i (if ok then tab.store path typed else tab)
  | .ack id => (s.setTab i { tab with queue := rest }).handleAck i id
  | .other => s.setTab i { tab with queue := rest }

/-- The request returns `true`; the model notes whether a tab has something that is not
written. -/
def wake (s : State) (id : Nat) (call : Call) : State :=
  { s.setCall id { call with status := .returned true } with
    late := s.late || s.tabs.any fun tab =>
      tab.connected && (tab.editors call.path).written < tab.due id call.path }

end State

/-! ## Steps -/

inductive Label
  | connect
  | disconnect (i : Nat)
  | keystroke (i : Nat) (path : Path)
  | expire (i : Nat) (path : Path)
  | flush (i : Nat) (path : Path)
  | other (i : Nat)
  | receive (i : Nat)
  | lag (i : Nat)
  | serve (i : Nat) (ok : Bool)
  | request (path : Path)
  | wake (id : Nat)
  | timeout (id : Nat)
  | abandon (id : Nat)

/-- What a tab does by itself. -/
def stepTab (routed : Bool) (tab : Tab) : Label → Option Tab
  | .disconnect _ => some { tab with connected := false, queue := [], frames := [] }
  | .keystroke _ path => some (tab.keystroke path)
  | .expire _ path => if (tab.editors path).pending then some (tab.writeNow path) else none
  | .flush _ path => some (tab.flushEditor path)
  | .other _ => some (tab.enqueue .other)
  | .receive _ =>
    match tab.frames with
    | (id, path) :: rest => some (tab.receive routed id path rest)
    | [] => none
  | .lag _ =>
    match tab.frames with
    | _ :: rest => some { tab with frames := rest }
    | [] => none
  | _ => none

def step (routed : Bool) (s : State) (l : Label) : Option State :=
  match l with
  | .connect => some { s with tabs := s.tabs ++ [.new] }
  | .disconnect i | .keystroke i _ | .expire i _ | .flush i _ | .other i | .receive i | .lag i =>
    match s.tabs[i]? with
    | some tab => if tab.connected then (stepTab routed tab l).map (s.setTab i) else none
    | none => none
  | .serve i ok =>
    match s.tabs[i]? with
    | some tab =>
      match tab.queue with
      | op :: rest => if tab.connected then some (s.serve i tab ok rest op) else none
      | [] => none
    | none => none
  | .request path => some (s.requestFlush path)
  | .wake id =>
    match s.calls id with
    | some call => if call.status = .acked then some (s.wake id call) else none
    | none => none
  | .timeout id =>
    match s.calls id with
    | some call =>
      if call.status = .waiting then
        some { s.setCall id { call with status := .returned false } with
          waiters := s.waiters.erase id }
      else none
    | none => none
  | .abandon id =>
    match s.calls id with
    | some call =>
      if call.status = .waiting ∨ call.status = .acked then
        some (s.setCall id { call with status := .abandoned })
      else none
    | none => none

/-! ## The property -/

structure Flushed (s : State) : Prop where
  onDisk : s.late = false
  own : ∀ id call i, s.calls id = some call → call.ackedBy = some i →
    ∃ tab typed, s.tabs[i]? = some tab ∧ tab.received id = some (call.path, typed)
  waiters : ∀ id, id ∈ s.waiters ↔ ∃ call, s.calls id = some call ∧ call.status = .waiting
  distinct : s.waiters.Nodup

/-! ## The condition -/

def Op.writes (path : Path) : Op → Bool
  | .write p _ => p == path
  | _ => false

/-- The tab has nothing of the path to write from before the event, or from now if it did not
get that. -/
def Tab.clear (tab : Tab) (id : Nat) (path : Path) : Bool :=
  match tab.received id with
  | some _ =>
    !tab.queue.contains (.ack id) ||
      (tab.queue.takeWhile (· ≠ .ack id)).all fun op => !op.writes path
  | none => !(tab.editors path).pending && tab.queue.all fun op => !op.writes path

def Op.isAck : Op → Bool
  | .ack _ => true
  | _ => false

/-- The operation writes the path, with so many keystrokes at least. -/
def Op.covers (path : Path) (typed : Nat) : Op → Bool
  | .write p m => p == path && decide (typed ≤ m)
  | _ => false

/-- Nothing is lost if the head of the queue fails: it is no write, or a later one does its work,
before any acknowledgement. -/
def Tab.spare (tab : Tab) : Bool :=
  match tab.queue with
  | .write path typed :: rest =>
    decide (typed ≤ (tab.editors path).written) ||
      (rest.takeWhile fun op => !op.isAck).any (·.covers path typed) ||
      ((tab.editors path).pending && rest.all fun op => !op.isAck)
  | _ => true

/-- A request returns `true` when all tabs but the one that acknowledged are `clear`; a write
fails only when it is `spare`; and no request is abandoned while it waits. -/
def Sound (s : State) : Label → Prop
  | .serve i ok => ok = true ∨ (s.tabs[i]?.all Tab.spare) = true
  | .wake id =>
    match s.calls id with
    | some call =>
      s.tabs.zipIdx.all (fun (tab, i) =>
        call.ackedBy == some i || !tab.connected || tab.clear id call.path) = true
    | none => True
  | .abandon id => id ∉ s.waiters
  | _ => True

/-! ## The client and the event -/

theorem get_flushFrame (id : Nat) (path : Path) :
    (flushFrame id path).get "id" = some (.num id) := by
  have hne : ("id".toList == "event".toList) = false := by decide
  simp only [flushFrame, Json.object, Json.get, List.map_cons]
  rw [List.lookup_cons, hne, List.lookup_cons, beq_self_eq_true]

/-- The client takes the event for an answer, so no handler is called for it. -/
theorem onMessage_flushFrame (s : FsClient.State) (id : Nat) (path : Path) :
    (s.onMessage (some (flushFrame id path))).calling = s.calling := by
  have hobject : (flushFrame id path).isObject = true := rfl
  simp only [FsClient.State.onMessage, hobject, if_true, get_flushFrame]
  split_ifs
  · unfold FsClient.State.settle
    split
    · rfl
    · split <;> rfl
  · rfl

/-! ## The invariant -/

variable {routed : Bool} {s t : State} {l : Label} {tab tab' : Tab} {i id n : Nat} {path : Path}

/-- So many keystrokes are on the disk, or will be by a write in the list. -/
def Tab.Handed (tab : Tab) (ops : List Op) (path : Path) (typed : Nat) : Prop :=
  typed ≤ (tab.editors path).written ∨ ∃ m, typed ≤ m ∧ .write path m ∈ ops

/-- What is before the acknowledgement. -/
def Tab.before (tab : Tab) (id : Nat) : List Op := tab.queue.takeWhile (· ≠ .ack id)

structure TabInv (routed : Bool) (calls : Nat → Option Call) (tab : Tab) : Prop where
  handed : ∀ path, (tab.editors path).pending = false →
    tab.Handed tab.queue path (tab.editors path).typed
  received : ∀ id path typed, tab.received id = some (path, typed) → routed = true →
    typed ≤ (tab.editors path).written ∨
      (.ack id ∈ tab.queue ∧ tab.Handed (tab.before id) path typed)
  own : ∀ id path typed, tab.received id = some (path, typed) →
    ∃ call, calls id = some call ∧ call.path = path
  frames : ∀ f ∈ tab.frames, tab.received f.1 = none ∧
    ∃ call, calls f.1 = some call ∧ call.path = f.2
  distinct : (tab.frames.map Prod.fst).Nodup
  acks : ∀ id, .ack id ∈ tab.queue → (tab.received id).isSome = true ∧ routed = true

/-- The tab has got the event of the call and has written what that is about. -/
def Done (tabs : List Tab) (id : Nat) (call : Call) (i : Nat) : Prop :=
  ∃ tab typed, tabs[i]? = some tab ∧ tab.received id = some (call.path, typed) ∧
    typed ≤ (tab.editors call.path).written

structure Inv (routed : Bool) (s : State) : Prop where
  tabs : ∀ tab ∈ s.tabs, tab.connected = true → TabInv routed s.calls tab
  old : ∀ id call, s.calls id = some call → id < s.nextId
  waiters : ∀ id, id ∈ s.waiters ↔ ∃ call, s.calls id = some call ∧ call.status = .waiting
  distinct : s.waiters.Nodup
  done : ∀ id call i, s.calls id = some call → call.ackedBy = some i → Done s.tabs id call i
  acked : ∀ id call, s.calls id = some call → call.status = .acked →
    call.ackedBy.isSome = true ∧ routed = true
  onTime : s.late = false

theorem inv_init : Inv routed .init := by
  constructor <;> simp [State.init]

/-! ## Tabs that go on -/

theorem Tab.Handed.mono {ops ops' : List Op} (h : tab.Handed ops path n)
    (hwritten : (tab.editors path).written ≤ (tab'.editors path).written)
    (hops : ∀ m, .write path m ∈ ops → .write path m ∈ ops') : tab'.Handed ops' path n := by
  rcases h with h | ⟨m, hm, hmem⟩
  · exact .inl (Nat.le_trans h hwritten)
  · exact .inr ⟨m, hm, hops m hmem⟩

theorem mem_takeWhile_append {α : Type} {p : α → Bool} {l r : List α} {x : α}
    (h : x ∈ l.takeWhile p) : x ∈ (l ++ r).takeWhile p := by
  induction l with
  | nil => cases h
  | cons a l ih =>
      rw [List.cons_append, List.takeWhile_cons]
      rw [List.takeWhile_cons] at h
      split_ifs with ha
      · rw [if_pos ha, List.mem_cons] at h
        exact List.mem_cons.2 (h.imp_right ih)
      · rw [if_neg ha] at h
        cases h

theorem mem_takeWhile_of_imp {α : Type} {p q : α → Bool} {l : List α} {x : α}
    (himp : ∀ a, p a = true → q a = true) (h : x ∈ l.takeWhile p) : x ∈ l.takeWhile q := by
  induction l with
  | nil => cases h
  | cons a l ih =>
      rw [List.takeWhile_cons] at h ⊢
      split_ifs at h with ha
      · rw [if_pos (himp a ha)]
        exact List.mem_cons.2 ((List.mem_cons.1 h).imp_right ih)
      · cases h

/-- What the tab keeps when it goes on: what it got, and what is written. -/
structure Onward (tab tab' : Tab) : Prop where
  received : ∀ id path typed, tab.received id = some (path, typed) →
    tab'.received id = some (path, typed)
  written : ∀ path, (tab.editors path).written ≤ (tab'.editors path).written

theorem Onward.done {tabs : List Tab} {call : Call} {j : Nat} (htab : tabs[i]? = some tab)
    (honward : Onward tab tab') (h : Done tabs id call j) : Done (tabs.set i tab') id call j := by
  obtain ⟨other, typed, hother, hreceived, hwritten⟩ := h
  by_cases hij : i = j
  · subst hij
    rw [htab, Option.some.injEq] at hother
    subst hother
    refine ⟨tab', typed, ?_, honward.received id _ typed hreceived,
      Nat.le_trans hwritten (honward.written _)⟩
    rw [List.getElem?_set_self (List.getElem?_eq_some_iff.1 htab).1]
  · exact ⟨other, typed, by rw [List.getElem?_set_ne hij, hother], hreceived, hwritten⟩

/-- One tab goes on. -/
theorem Inv.setTab (hs : Inv routed s) (htab : s.tabs[i]? = some tab) (honward : Onward tab tab')
    (h : tab'.connected = true → TabInv routed s.calls tab') : Inv routed (s.setTab i tab') :=
  { hs with
    tabs := by
      intro other hmem hconnected
      rcases List.mem_or_eq_of_mem_set hmem with hmem | rfl
      · exact hs.tabs other hmem hconnected
      · exact h hconnected
    done := fun id call j hcall hacked => honward.done htab (hs.done id call j hcall hacked) }

/-! ## What a tab does -/

section TabInv

variable {calls calls' : Nat → Option Call} {op : Op} {ops rest : List Op}

theorem tabInv_new : TabInv routed calls .new := by
  constructor <;> simp [Tab.new, Tab.Handed]

/-- The calls keep their paths. -/
theorem TabInv.setCalls (h : TabInv routed calls tab)
    (hcalls : ∀ id call, calls id = some call →
      ∃ call', calls' id = some call' ∧ call'.path = call.path) : TabInv routed calls' tab := by
  have hkept : ∀ id path, (∃ call, calls id = some call ∧ call.path = path) →
      ∃ call, calls' id = some call ∧ call.path = path := by
    intro id path hcall
    obtain ⟨call, hcall, hpath⟩ := hcall
    obtain ⟨call', hcall', hpath'⟩ := hcalls id call hcall
    exact ⟨call', hcall', hpath'.trans hpath⟩
  exact { h with
    own := fun id path typed hreceived => hkept id path (h.own id path typed hreceived)
    frames := fun f hf => ⟨(h.frames f hf).1, hkept f.1 f.2 (h.frames f hf).2⟩ }

/-- An editor changes, and no less is written. -/
theorem TabInv.setEditor {editor : Editor} (h : TabInv routed calls tab)
    (hhanded : editor.pending = false → ∃ m, editor.typed ≤ m ∧ .write path m ∈ tab.queue)
    (hwritten : (tab.editors path).written ≤ editor.written) :
    TabInv routed calls (tab.setEditor path editor) := by
  have hmono : ∀ p, (tab.editors p).written ≤ ((tab.setEditor path editor).editors p).written := by
    intro p
    by_cases hp : p = path
    · rw [hp, Tab.editors_setEditor_self]
      exact hwritten
    · exact Nat.le_of_eq (by rw [Tab.editors_setEditor_of_ne tab editor hp])
  exact { h with
    handed := by
      intro p hpending
      by_cases hp : p = path
      · rw [hp, Tab.editors_setEditor_self] at hpending ⊢
        exact .inr (hhanded hpending)
      · rw [Tab.editors_setEditor_of_ne tab editor hp] at hpending ⊢
        exact (h.handed p hpending).mono (hmono p) fun _ hm => hm
    received := by
      intro id p typed hreceived hrouted
      rcases h.received id p typed hreceived hrouted with hle | ⟨hack, hbefore⟩
      · exact .inl (Nat.le_trans hle (hmono p))
      · exact .inr ⟨hack, hbefore.mono (hmono p) fun _ hm => hm⟩ }

theorem TabInv.keystroke (h : TabInv routed calls tab) (path : Path) :
    TabInv routed calls (tab.keystroke path) :=
  h.setEditor nofun (Nat.le_refl _)

/-- Something goes to the end of the queue. -/
theorem TabInv.append (h : TabInv routed calls tab)
    (hack : ∀ id, .ack id ∈ ops → (tab.received id).isSome = true ∧ routed = true) :
    TabInv routed calls { tab with queue := tab.queue ++ ops } :=
  { h with
    handed := fun path hpending => (h.handed path hpending).mono (Nat.le_refl _) fun _ hm =>
      List.mem_append_left _ hm
    received := by
      intro id path typed hreceived hrouted
      refine (h.received id path typed hreceived hrouted).imp_right ?_
      rintro ⟨hmem, hbefore⟩
      exact ⟨List.mem_append_left _ hmem,
        hbefore.mono (Nat.le_refl _) fun _ => mem_takeWhile_append⟩
    acks := fun id hmem => (List.mem_append.1 hmem).elim (h.acks id) (hack id) }

theorem TabInv.writeNow (h : TabInv routed calls tab) (path : Path) :
    TabInv routed calls (tab.writeNow path) := by
  have hqueued : TabInv routed calls (tab.enqueue (.write path (tab.editors path).typed)) :=
    h.append fun id hmem => by cases List.mem_singleton.1 hmem
  exact hqueued.setEditor
    (fun _ => ⟨_, Nat.le_refl _, List.mem_append_right _ (List.mem_singleton_self _)⟩)
    (Nat.le_refl _)

theorem TabInv.flushEditor (h : TabInv routed calls tab) (path : Path) :
    TabInv routed calls (tab.flushEditor path) := by
  unfold Tab.flushEditor
  split_ifs
  · exact h.writeNow path
  · exact h

/-- After a flush nothing of the path is left to write but what is in the queue. -/
theorem TabInv.handed_flushEditor (h : TabInv routed calls tab) (path : Path) :
    (tab.flushEditor path).Handed (tab.flushEditor path).queue path (tab.editors path).typed := by
  unfold Tab.flushEditor
  split_ifs with hpending
  · exact .inr ⟨_, Nat.le_refl _, List.mem_append_right _ (List.mem_singleton_self _)⟩
  · exact h.handed path (by rwa [Bool.not_eq_true] at hpending)

/-- The tab gets the event of the request, and puts the acknowledgement behind what it has to
write. -/
theorem TabInv.handle {frames : List (Nat × Path)} (h : TabInv routed calls tab) (acks : List Op)
    (hframes : tab.frames = (id, path) :: frames)
    (hhanded : routed = true → tab.Handed tab.queue path n)
    (hacks : ∀ op ∈ acks, op = .ack id ∧ routed = true) (hack : routed = true → .ack id ∈ acks) :
    TabInv routed calls { tab with
      frames := frames
      received := Function.update tab.received id (some (path, n))
      queue := tab.queue ++ acks } := by
  obtain ⟨hnew, hcall⟩ := h.frames (id, path) (by rw [hframes]; exact List.mem_cons_self)
  have hdistinct := h.distinct
  rw [hframes, List.map_cons, List.nodup_cons] at hdistinct
  have hnone : .ack id ∉ tab.queue := by
    intro hmem
    have hsome := (h.acks id hmem).1
    rw [show tab.received id = none from hnew] at hsome
    cases hsome
  have hbefore : (tab.queue ++ acks).takeWhile (· ≠ .ack id) =
      tab.queue ++ acks.takeWhile (· ≠ .ack id) := by
    apply List.takeWhile_append_of_pos
    intro op hop
    exact decide_eq_true fun heq => hnone (heq ▸ hop)
  exact {
    handed := fun p hpending => (h.handed p hpending).mono (Nat.le_refl _) fun _ hm =>
      List.mem_append_left _ hm
    received := by
      intro id' p typed hreceived hrouted
      by_cases hid : id' = id
      · subst hid
        simp only [Function.update_self, Option.some.injEq, Prod.mk.injEq] at hreceived
        obtain ⟨rfl, rfl⟩ := hreceived
        refine .inr ⟨List.mem_append_right _ (hack hrouted), ?_⟩
        refine (hhanded hrouted).mono (Nat.le_refl _) fun m hm => ?_
        show _ ∈ (tab.queue ++ acks).takeWhile _
        rw [hbefore]
        exact List.mem_append_left _ hm
      · simp only [Function.update_of_ne hid] at hreceived
        refine (h.received id' p typed hreceived hrouted).imp_right ?_
        rintro ⟨hmem, hops⟩
        exact ⟨List.mem_append_left _ hmem,
          hops.mono (Nat.le_refl _) fun _ => mem_takeWhile_append⟩
    own := by
      intro id' p typed hreceived
      by_cases hid : id' = id
      · subst hid
        simp only [Function.update_self, Option.some.injEq, Prod.mk.injEq] at hreceived
        rw [← hreceived.1]
        exact hcall
      · simp only [Function.update_of_ne hid] at hreceived
        exact h.own id' p typed hreceived
    frames := by
      intro f hf
      have hne : f.1 ≠ id := by
        intro heq
        apply hdistinct.1
        show id ∈ _
        rw [← heq]
        exact List.mem_map_of_mem hf
      simp only [Function.update_of_ne hne]
      exact h.frames f (by rw [hframes]; exact List.mem_cons_of_mem _ hf)
    distinct := hdistinct.2
    acks := by
      intro id' hmem
      by_cases hid : id' = id
      · subst hid
        simp only [Function.update_self, Option.isSome_some, true_and]
        rcases List.mem_append.1 hmem with hmem | hmem
        · exact absurd hmem hnone
        · exact (hacks _ hmem).2
      · simp only [Function.update_of_ne hid]
        rcases List.mem_append.1 hmem with hmem | hmem
        · exact h.acks id' hmem
        · cases (hacks _ hmem).1
          exact absurd rfl hid }

theorem TabInv.receive {frames : List (Nat × Path)} (h : TabInv routed calls tab)
    (hframes : tab.frames = (id, path) :: frames) :
    TabInv routed calls (tab.receive routed id path frames) := by
  cases routed with
  | false =>
      have hget := h.handle (n := (tab.editors path).typed) [] hframes nofun nofun nofun
      rw [List.append_nil] at hget
      exact hget
  | true =>
      have hflush : tab.receive true id path frames = { tab.flushEditor path with
          frames := frames
          received := Function.update (tab.flushEditor path).received id
            (some (path, (tab.editors path).typed))
          queue := (tab.flushEditor path).queue ++ [.ack id] } := by
        simp only [Tab.receive, Tab.flushRequest, Tab.flushEditor, if_true]
        split_ifs <;> rfl
      have hkept : (tab.flushEditor path).frames = tab.frames := by
        unfold Tab.flushEditor
        split_ifs <;> rfl
      rw [hflush]
      apply (h.flushEditor path).handle [.ack id] (hkept.trans hframes)
        fun _ => h.handed_flushEditor path
      · intro op hop
        exact ⟨List.mem_singleton.1 hop, rfl⟩
      · intro _
        exact List.mem_singleton_self _

/-! ## What the server does for a tab -/

/-- What was about to be written is, by the head of the queue or still to come. -/
theorem Tab.Handed.store {m : Nat} {p : Path} (h : tab.Handed (.write p m :: ops) path n) :
    (tab.store p m).Handed ops path n := by
  have hstore : ((tab.store p m).editors p).written = max (tab.editors p).written m := by
    rw [Tab.store, Tab.editors_setEditor_self]
  have hmono : (tab.editors path).written ≤ ((tab.store p m).editors path).written := by
    by_cases hp : path = p
    · subst hp
      rw [hstore]
      omega
    · exact Nat.le_of_eq (by rw [Tab.store, Tab.editors_setEditor_of_ne tab _ hp])
  rcases h with h | ⟨k, hk, hmem⟩
  · exact .inl (Nat.le_trans h hmono)
  · rcases List.mem_cons.1 hmem with heq | hmem
    · rw [Op.write.injEq] at heq
      obtain ⟨rfl, rfl⟩ := heq
      refine .inl ?_
      rw [hstore]
      omega
    · exact .inr ⟨k, hk, hmem⟩

/-- The head of the queue is not a write. -/
theorem Tab.Handed.pop (h : tab.Handed (op :: ops) path n) (hop : ∀ p m, op ≠ .write p m) :
    tab.Handed ops path n := by
  refine h.imp_right ?_
  rintro ⟨m, hm, hmem⟩
  rcases List.mem_cons.1 hmem with heq | hmem
  · exact absurd heq.symm (hop path m)
  · exact ⟨m, hm, hmem⟩

/-- A write is done that was at the head of the queue. -/
theorem TabInv.store {m : Nat} {p : Path} (h : TabInv routed calls tab)
    (hqueue : tab.queue = .write p m :: rest) :
    TabInv routed calls (({ tab with queue := rest } : Tab).store p m) := by
  have hedit : ∀ q, (({ tab with queue := rest } : Tab).store p m).editors q =
      (tab.store p m).editors q := fun _ => rfl
  have hpending : ∀ q, ((tab.store p m).editors q).pending = (tab.editors q).pending ∧
      ((tab.store p m).editors q).typed = (tab.editors q).typed := by
    intro q
    by_cases hq : q = p
    · rw [hq, Tab.store, Tab.editors_setEditor_self]
      exact ⟨rfl, rfl⟩
    · rw [Tab.store, Tab.editors_setEditor_of_ne tab _ hq]
      exact ⟨rfl, rfl⟩
  exact { h with
    handed := by
      intro q hq
      rw [hedit, (hpending q).1] at hq
      rw [hedit, (hpending q).2]
      have hhanded := h.handed q hq
      rw [hqueue] at hhanded
      exact hhanded.store
    received := by
      intro id q typed hreceived hrouted
      refine (h.received id q typed hreceived hrouted).elim (fun hle => ?_) ?_
      · have hhanded : tab.Handed (.write p m :: []) q typed := .inl hle
        exact .inl (hhanded.store.resolve_right nofun)
      · rintro ⟨hmem, hbefore⟩
        rw [hqueue] at hmem
        refine .inr ⟨(List.mem_cons.1 hmem).resolve_left nofun, ?_⟩
        rw [Tab.before, hqueue, List.takeWhile_cons, if_pos (by rfl)] at hbefore
        exact hbefore.store
    acks := fun id hmem => h.acks id (by rw [hqueue]; exact List.mem_cons_of_mem _ hmem) }

/-- The head of the queue goes that was not a write. -/
theorem TabInv.pop (h : TabInv routed calls tab) (hqueue : tab.queue = op :: rest)
    (hop : ∀ p m, op ≠ .write p m) : TabInv routed calls { tab with queue := rest } :=
  { h with
    handed := by
      intro q hq
      have hhanded := h.handed q hq
      rw [hqueue] at hhanded
      exact hhanded.pop hop
    received := by
      intro id q typed hreceived hrouted
      rcases h.received id q typed hreceived hrouted with hle | ⟨hmem, hbefore⟩
      · exact .inl hle
      · rw [Tab.before, hqueue, List.takeWhile_cons] at hbefore
        by_cases hid : op = .ack id
        · rw [if_neg (by simp [hid])] at hbefore
          exact .inl (hbefore.resolve_right nofun)
        · rw [if_pos (decide_eq_true hid)] at hbefore
          rw [hqueue] at hmem
          exact .inr ⟨(List.mem_cons.1 hmem).resolve_left (Ne.symm hid), hbefore.pop hop⟩
    acks := fun id hmem => h.acks id (by rw [hqueue]; exact List.mem_cons_of_mem _ hmem) }

/-- A write fails, and a later one does its work. -/
theorem TabInv.skip {m : Nat} {p : Path} (h : TabInv routed calls tab)
    (hqueue : tab.queue = .write p m :: rest) (hspare : tab.spare = true) :
    TabInv routed calls { tab with queue := rest } := by
  simp only [Tab.spare, hqueue, Bool.or_eq_true, decide_eq_true_eq, Bool.and_eq_true] at hspare
  -- the write does not matter for what comes before an acknowledgement
  have hskip : ∀ {ops q n}, tab.Handed (.write p m :: ops) q n →
      (∀ op ∈ rest.takeWhile fun op => !op.isAck, op ∈ ops) →
      ¬ ((tab.editors p).pending = true ∧ (rest.all fun op => !op.isAck) = true ∧ q = p) →
      tab.Handed ops q n := by
    intro ops q n hhanded hops hnot
    rcases hhanded with hle | ⟨k, hk, hmem⟩
    · exact .inl hle
    rcases List.mem_cons.1 hmem with heq | hmem
    · rw [Op.write.injEq] at heq
      obtain ⟨rfl, rfl⟩ := heq
      rcases hspare with (hle | hlater) | ⟨hpending, hall⟩
      · exact .inl (Nat.le_trans hk hle)
      · obtain ⟨op, hop, hcovers⟩ := List.any_eq_true.1 hlater
        cases op with
        | write p' m' =>
            simp only [Op.covers, Bool.and_eq_true, beq_iff_eq, decide_eq_true_eq] at hcovers
            obtain ⟨rfl, hle⟩ := hcovers
            exact .inr ⟨m', Nat.le_trans hk hle, hops _ hop⟩
        | _ => cases hcovers
      · exact absurd ⟨hpending, hall, rfl⟩ hnot
    · exact .inr ⟨k, hk, hmem⟩
  exact { h with
    handed := by
      intro q hq
      have hhanded := h.handed q hq
      rw [hqueue] at hhanded
      refine hskip hhanded (fun op hop => List.takeWhile_subset _ hop) ?_
      rintro ⟨hpending, _, rfl⟩
      rw [show (tab.editors q).pending = false from hq] at hpending
      cases hpending
    received := by
      intro id q typed hreceived hrouted
      rcases h.received id q typed hreceived hrouted with hle | ⟨hmem, hbefore⟩
      · exact .inl hle
      · rw [hqueue] at hmem
        have hmem := (List.mem_cons.1 hmem).resolve_left nofun
        rw [Tab.before, hqueue, List.takeWhile_cons, if_pos (by rfl)] at hbefore
        refine .inr ⟨hmem, hskip hbefore (fun op => mem_takeWhile_of_imp ?_) ?_⟩
        · intro op hop
          cases op with
          | ack => cases hop
          | _ => rfl
        · rintro ⟨_, hall, _⟩
          cases List.all_eq_true.1 hall _ hmem
    acks := fun id hmem => h.acks id (by rw [hqueue]; exact List.mem_cons_of_mem _ hmem) }

/-- When an acknowledgement is at the head, what the request is about is written. -/
theorem TabInv.written_of_ack (h : TabInv routed calls tab) (hqueue : tab.queue = .ack id :: rest) :
    ∃ path typed call, tab.received id = some (path, typed) ∧ calls id = some call ∧
      call.path = path ∧ typed ≤ (tab.editors path).written ∧ routed = true := by
  obtain ⟨hsome, hrouted⟩ := h.acks id (by rw [hqueue]; exact List.mem_cons_self)
  obtain ⟨⟨path, typed⟩, hreceived⟩ := Option.isSome_iff_exists.1 hsome
  obtain ⟨call, hcall, hpath⟩ := h.own id path typed hreceived
  refine ⟨path, typed, call, hreceived, hcall, hpath, ?_, hrouted⟩
  rcases h.received id path typed hreceived hrouted with hle | ⟨_, hbefore⟩
  · exact hle
  · rw [Tab.before, hqueue, List.takeWhile_cons, if_neg (by simp)] at hbefore
    exact hbefore.resolve_right nofun

/-- An event of a request is on its way to the tab. -/
theorem TabInv.announce {call : Call} (h : TabInv routed calls tab)
    (hnew : ∀ p, (id, p) ∉ tab.frames) (hnone : tab.received id = none)
    (hcall : calls id = some call) :
    TabInv routed calls { tab with frames := tab.frames ++ [(id, call.path)] } :=
  { h with
    frames := by
      intro f hf
      rcases List.mem_append.1 hf with hf | hf
      · exact h.frames f hf
      · rw [List.mem_singleton.1 hf]
        exact ⟨hnone, call, hcall, rfl⟩
    distinct := by
      rw [List.map_append]
      apply h.distinct.append (List.nodup_singleton _)
      intro id' hmem heq
      obtain ⟨⟨_, p⟩, hf, rfl⟩ := List.mem_map.1 hmem
      cases List.mem_singleton.1 heq
      exact hnew p hf }

/-- The tab has heard nothing of a call that is not there. -/
theorem TabInv.unknown (h : TabInv routed calls tab) (hnone : calls id = none) :
    (∀ p, (id, p) ∉ tab.frames) ∧ tab.received id = none := by
  constructor
  · intro p hf
    obtain ⟨_, call, hcall, _⟩ := h.frames _ hf
    cases hnone.symm.trans hcall
  · cases hreceived : tab.received id with
    | none => rfl
    | some r =>
        obtain ⟨call, hcall, _⟩ := h.own id r.1 r.2 hreceived
        cases hnone.symm.trans hcall

end TabInv

/-! ## Calls -/

section Calls

variable {call : Call} {rest : List Op} {op : Op}

/-- A call comes to its end, and has no waiter from then on. -/
theorem Inv.setCall (hs : Inv routed s) (call' : Call) (hcall : s.calls id = some call)
    (hpath : call'.path = call.path) (hstatus : call'.status ≠ .waiting)
    (hdone : ∀ i, call'.ackedBy = some i → Done s.tabs id call' i)
    (hacked : call'.status = .acked → call'.ackedBy.isSome = true ∧ routed = true) :
    Inv routed { s.setCall id call' with waiters := s.waiters.erase id } := by
  have hself : (s.setCall id call').calls id = some call' := Function.update_self ..
  have hother : ∀ {id'}, id' ≠ id → (s.setCall id call').calls id' = s.calls id' := fun h =>
    Function.update_of_ne h ..
  exact {
    onTime := hs.onTime
    distinct := hs.distinct.erase id
    tabs := by
      intro tab hmem hconnected
      apply (hs.tabs tab hmem hconnected).setCalls
      intro id' call₀ hcall₀
      by_cases hid : id' = id
      · subst hid
        rw [hcall, Option.some.injEq] at hcall₀
        exact ⟨call', hself, by rw [hpath, hcall₀]⟩
      · exact ⟨call₀, by rw [← hcall₀]; exact hother hid, rfl⟩
    old := by
      intro id' call₀ hcall₀
      by_cases hid : id' = id
      · subst hid
        exact hs.old id' call hcall
      · exact hs.old id' call₀ (by rw [← hother hid]; exact hcall₀)
    waiters := by
      intro id'
      show id' ∈ s.waiters.erase id ↔ ∃ call₀, (s.setCall id call').calls id' = some call₀ ∧ _
      rw [hs.distinct.mem_erase_iff]
      by_cases hid : id' = id
      · subst hid
        rw [hself]
        constructor
        · intro h
          exact absurd rfl h.1
        · rintro ⟨_, heq, hwaiting⟩
          cases heq
          exact absurd hwaiting hstatus
      · rw [hother hid, hs.waiters id']
        exact ⟨fun h => h.2, fun h => ⟨hid, h⟩⟩
    done := by
      intro id' call₀ i hcall₀ hacked₀
      by_cases hid : id' = id
      · subst hid
        cases hself.symm.trans hcall₀
        exact hdone i hacked₀
      · exact hs.done id' call₀ i (by rw [← hother hid]; exact hcall₀) hacked₀
    acked := by
      intro id' call₀ hcall₀ hacked₀
      by_cases hid : id' = id
      · subst hid
        cases hself.symm.trans hcall₀
        exact hacked hacked₀
      · exact hs.acked id' call₀ (by rw [← hother hid]; exact hcall₀) hacked₀ }

/-- The same when the call had no waiter any more. -/
theorem Inv.setCall_of_not_mem (hs : Inv routed s) (call' : Call) (hcall : s.calls id = some call)
    (hnot : id ∉ s.waiters) (hpath : call'.path = call.path) (hstatus : call'.status ≠ .waiting)
    (hdone : ∀ i, call'.ackedBy = some i → Done s.tabs id call' i)
    (hacked : call'.status = .acked → call'.ackedBy.isSome = true ∧ routed = true) :
    Inv routed (s.setCall id call') := by
  have hset := hs.setCall call' hcall hpath hstatus hdone hacked
  rw [List.erase_of_not_mem hnot] at hset
  exact hset

/-- An acknowledgement of a tab that has written what the request is about. -/
theorem Inv.handleAck (hs : Inv routed s)
    (hack : ∀ call, s.calls id = some call → Done s.tabs id call i) (hrouted : routed = true) :
    Inv routed (s.handleAck i id) := by
  unfold State.handleAck
  split_ifs with hmem
  · obtain ⟨call, hcall, hwaiting⟩ := (hs.waiters id).1 (List.contains_iff_mem.1 hmem)
    simp only [hcall, if_pos hwaiting]
    refine hs.setCall { call with status := .acked, ackedBy := some i } hcall rfl nofun
      ?_ fun _ => ⟨rfl, hrouted⟩
    intro j hj
    cases hj
    exact hack call hcall
  · exact hs

/-- The server takes the head of the queue. -/
theorem Inv.serve {ok : Bool} (hs : Inv routed s) (htab : s.tabs[i]? = some tab)
    (hconnected : tab.connected = true) (hqueue : tab.queue = op :: rest)
    (hok : ok = true ∨ tab.spare = true) : Inv routed (s.serve i tab ok rest op) := by
  have htabInv := hs.tabs tab (List.mem_of_getElem? htab) hconnected
  have hpop : Onward tab { tab with queue := rest } :=
    ⟨fun _ _ _ h => h, fun _ => Nat.le_refl _⟩
  cases op with
  | write p m =>
      cases ok with
      | false => exact hs.setTab htab hpop fun _ => htabInv.skip hqueue (hok.resolve_left nofun)
      | true =>
          refine hs.setTab htab ⟨fun _ _ _ h => h, fun q => ?_⟩ fun _ => htabInv.store hqueue
          by_cases hq : q = p
          · subst hq
            have hle : (tab.editors q).written ≤ max (tab.editors q).written m := Nat.le_max_left _ _
            simpa only [if_true, Tab.store, Tab.editors_setEditor_self] using hle
          · simp only [if_true, Tab.store]
            exact Nat.le_of_eq (by rw [Tab.editors_setEditor_of_ne _ _ hq])
  | ack id =>
      obtain ⟨p, typed, call, hreceived, hcall, hpath, hwritten, hrouted⟩ :=
        htabInv.written_of_ack hqueue
      have hset := hs.setTab htab hpop fun _ => htabInv.pop hqueue nofun
      refine hset.handleAck ?_ hrouted
      intro call' hcall'
      cases hcall.symm.trans hcall'
      subst hpath
      exact ⟨_, typed, List.getElem?_set_self (List.getElem?_eq_some_iff.1 htab).1, hreceived,
        hwritten⟩
  | other => exact hs.setTab htab hpop fun _ => htabInv.pop hqueue nofun

/-- A new request. -/
theorem Inv.requestFlush (hs : Inv routed s) (path : Path) : Inv routed (s.requestFlush path) := by
  have hnone : s.calls s.nextId = none := by
    cases hcall : s.calls s.nextId with
    | none => rfl
    | some call => exact absurd (hs.old _ call hcall) (Nat.lt_irrefl _)
  have hne : ∀ {id call}, s.calls id = some call → id ≠ s.nextId := by
    intro id call hcall heq
    exact absurd (hs.old id call hcall) (heq ▸ Nat.lt_irrefl _)
  have hkept : ∀ {id call}, s.calls id = some call → (s.requestFlush path).calls id = some call :=
    fun hcall => (Function.update_of_ne (hne hcall) ..).trans hcall
  have hnew : (s.requestFlush path).calls s.nextId = some ⟨path, .waiting, none⟩ :=
    Function.update_self ..
  have hcases : ∀ {id call}, (s.requestFlush path).calls id = some call →
      (id = s.nextId ∧ call = ⟨path, .waiting, none⟩) ∨ s.calls id = some call := by
    intro id call hcall
    by_cases hid : id = s.nextId
    · rw [hid, hnew, Option.some.injEq] at hcall
      exact .inl ⟨hid, hcall.symm⟩
    · exact .inr ((Function.update_of_ne hid ..).symm.trans hcall)
  exact {
    onTime := hs.onTime
    old := by
      intro id call hcall
      show id < s.nextId + 1
      rcases hcases hcall with ⟨rfl, _⟩ | hcall
      · omega
      · exact Nat.lt_succ_of_lt (hs.old id call hcall)
    distinct := by
      apply hs.distinct.append (List.nodup_singleton _)
      intro id hmem hnew
      obtain ⟨call, hcall, _⟩ := (hs.waiters id).1 hmem
      exact hne hcall (List.mem_singleton.1 hnew)
    waiters := by
      intro id
      show id ∈ s.waiters ++ [s.nextId] ↔ _
      rw [List.mem_append, hs.waiters id, List.mem_singleton]
      constructor
      · rintro (⟨call, hcall, hwaiting⟩ | rfl)
        · exact ⟨call, hkept hcall, hwaiting⟩
        · exact ⟨_, hnew, rfl⟩
      · rintro ⟨call, hcall, hwaiting⟩
        rcases hcases hcall with ⟨hid, _⟩ | hcall
        · exact .inr hid
        · exact .inl ⟨call, hcall, hwaiting⟩
    acked := by
      intro id call hcall hacked
      rcases hcases hcall with ⟨_, rfl⟩ | hcall
      · cases hacked
      · exact hs.acked id call hcall hacked
    done := by
      intro id call i hcall hacked
      rcases hcases hcall with ⟨_, rfl⟩ | hcall
      · cases hacked
      · obtain ⟨tab, typed, htab, hreceived, hwritten⟩ := hs.done id call i hcall hacked
        show Done (s.tabs.map _) id call i
        refine ⟨_, typed, by rw [List.getElem?_map, htab]; rfl, ?_⟩
        dsimp only
        split_ifs
        · exact ⟨hreceived, hwritten⟩
        · exact ⟨hreceived, hwritten⟩
    tabs := by
      intro tab' hmem' hconnected
      obtain ⟨tab, hmem, rfl⟩ := List.mem_map.1 hmem'
      split_ifs at hconnected ⊢ with hopen
      · have htab := (hs.tabs tab hmem hopen).setCalls fun id call hcall => ⟨call, hkept hcall, rfl⟩
        obtain ⟨hframes, hreceived⟩ := (hs.tabs tab hmem hopen).unknown hnone
        exact htab.announce hframes hreceived hnew
      · exact absurd hconnected hopen }

/-- What a tab that is `clear` has typed before the event is written. -/
theorem TabInv.due_le_of_clear (h : TabInv routed s.calls tab) (hcall : s.calls id = some call)
    (hrouted : routed = true) (hclear : tab.clear id call.path = true) :
    tab.due id call.path ≤ (tab.editors call.path).written := by
  have hnone : ∀ {ops n}, (ops.all fun op => !op.writes call.path) = true →
      tab.Handed ops call.path n → n ≤ (tab.editors call.path).written := by
    intro ops n hall hhanded
    rcases hhanded with hle | ⟨m, _, hmem⟩
    · exact hle
    · have hwrites := List.all_eq_true.1 hall _ hmem
      simp [Op.writes] at hwrites
  unfold Tab.due
  unfold Tab.clear at hclear
  split
  · next p typed hreceived =>
    obtain ⟨call', hcall', hpath⟩ := h.own id p typed hreceived
    cases hcall.symm.trans hcall'
    subst hpath
    rw [hreceived, Bool.or_eq_true] at hclear
    rcases h.received id _ typed hreceived hrouted with hle | ⟨hmem, hbefore⟩
    · exact hle
    · rcases hclear with hnot | hall
      · rw [List.contains_iff_mem.2 hmem] at hnot
        cases hnot
      · exact hnone hall hbefore
  · next hreceived =>
    rw [hreceived, Bool.and_eq_true, Bool.not_eq_true'] at hclear
    exact hnone hclear.2 (h.handed _ hclear.1)

/-- A request returns `true`. -/
theorem Inv.wake (hs : Inv routed s) (hcall : s.calls id = some call)
    (hacked : call.status = .acked) (hsound : Sound s (.wake id)) :
    Inv routed (s.wake id call) := by
  obtain ⟨hby, hrouted⟩ := hs.acked id call hcall hacked
  have hnot : id ∉ s.waiters := by
    intro hmem
    obtain ⟨call', hcall', hwaiting⟩ := (hs.waiters id).1 hmem
    cases hcall.symm.trans hcall'
    rw [hacked] at hwaiting
    cases hwaiting
  have honTime : (s.tabs.any fun tab =>
      tab.connected && (tab.editors call.path).written < tab.due id call.path) = false := by
    rw [List.any_eq_false]
    intro tab hmem hlate
    rw [Bool.and_eq_true, decide_eq_true_eq] at hlate
    obtain ⟨j, hj⟩ := List.getElem?_of_mem hmem
    apply Nat.not_le_of_lt hlate.2
    simp only [Sound, hcall] at hsound
    have hguard := List.all_eq_true.1 hsound (tab, j) (List.mem_zipIdx_iff_getElem?.2 hj)
    simp only [Bool.or_eq_true, Bool.not_eq_true', beq_iff_eq] at hguard
    rcases hguard with (hself | hclosed) | hclear
    · obtain ⟨tab', typed, htab', hreceived, hwritten⟩ := hs.done id call j hcall hself
      cases hj.symm.trans htab'
      rw [Tab.due, hreceived]
      exact hwritten
    · rw [hlate.1] at hclosed
      cases hclosed
    · exact (hs.tabs tab hmem hlate.1).due_le_of_clear hcall hrouted hclear
  have hset := hs.setCall_of_not_mem { call with status := .returned true } hcall hnot
    rfl nofun (fun i hi => hs.done id call i hcall hi) nofun
  exact { hset with
    onTime := by
      show (s.late || _) = false
      rw [hs.onTime, honTime]
      rfl }

end Calls

/-! ## Runs -/

theorem Onward.refl (tab : Tab) : Onward tab tab := ⟨fun _ _ _ h => h, fun _ => Nat.le_refl _⟩

theorem onward_setEditor {editor : Editor} (h : (tab.editors path).written ≤ editor.written) :
    Onward tab (tab.setEditor path editor) := by
  refine ⟨fun _ _ _ h => h, fun p => ?_⟩
  by_cases hp : p = path
  · rw [hp, Tab.editors_setEditor_self]
    exact h
  · exact Nat.le_of_eq (by rw [Tab.editors_setEditor_of_ne tab editor hp])

theorem onward_writeNow (tab : Tab) (path : Path) : Onward tab (tab.writeNow path) :=
  have hset : Onward tab (tab.setEditor path { tab.editors path with pending := false }) :=
    onward_setEditor (Nat.le_refl _)
  ⟨hset.received, hset.written⟩

theorem onward_flushEditor (tab : Tab) (path : Path) : Onward tab (tab.flushEditor path) := by
  unfold Tab.flushEditor
  split_ifs
  · exact onward_writeNow tab path
  · exact Onward.refl tab

theorem onward_receive {frames : List (Nat × Path)} (hnew : tab.received id = none) :
    Onward tab (tab.receive routed id path frames) := by
  have hkept : ∀ id' p typed, tab.received id' = some (p, typed) →
      Function.update tab.received id (some (path, (tab.editors path).typed)) id' =
        some (p, typed) := by
    intro id' p typed hreceived
    have hne : id' ≠ id := by
      rintro rfl
      cases hnew.symm.trans hreceived
    rw [Function.update_of_ne hne]
    exact hreceived
  unfold Tab.receive
  split_ifs
  · have hflush := onward_flushEditor { tab with
      frames := frames
      received := Function.update tab.received id (some (path, (tab.editors path).typed)) } path
    exact ⟨fun id' p typed hreceived => hflush.received id' p typed (hkept id' p typed hreceived),
      hflush.written⟩
  · exact ⟨hkept, fun _ => Nat.le_refl _⟩

/-- A tab does something by itself. -/
theorem TabInv.step {calls : Nat → Option Call} (h : TabInv routed calls tab)
    (hstep : stepTab routed tab l = some tab') :
    Onward tab tab' ∧ (tab'.connected = true → TabInv routed calls tab') := by
  cases l with
  | disconnect i =>
      cases hstep
      exact ⟨⟨fun _ _ _ h => h, fun _ => Nat.le_refl _⟩, nofun⟩
  | keystroke i path =>
      cases hstep
      exact ⟨onward_setEditor (Nat.le_refl _), fun _ => h.keystroke path⟩
  | expire i path =>
      simp only [stepTab] at hstep
      split_ifs at hstep
      cases hstep
      exact ⟨onward_writeNow tab path, fun _ => h.writeNow path⟩
  | flush i path =>
      cases hstep
      exact ⟨onward_flushEditor tab path, fun _ => h.flushEditor path⟩
  | other i =>
      cases hstep
      refine ⟨⟨fun _ _ _ h => h, fun _ => Nat.le_refl _⟩, fun _ => h.append ?_⟩
      intro id hmem
      cases List.mem_singleton.1 hmem
  | receive i =>
      simp only [stepTab] at hstep
      split at hstep
      · next id path frames hframes =>
        cases hstep
        have hnew := (h.frames (id, path) (by rw [hframes]; exact List.mem_cons_self)).1
        exact ⟨onward_receive hnew, fun _ => h.receive hframes⟩
      · cases hstep
  | lag i =>
      simp only [stepTab] at hstep
      split at hstep
      · next f frames hframes =>
        cases hstep
        refine ⟨⟨fun _ _ _ h => h, fun _ => Nat.le_refl _⟩, fun _ => ?_⟩
        have hdistinct := h.distinct
        rw [hframes, List.map_cons, List.nodup_cons] at hdistinct
        exact { h with
          frames := fun g hg => h.frames g (by rw [hframes]; exact List.mem_cons_of_mem f hg)
          distinct := hdistinct.2 }
      · cases hstep
  | _ => cases hstep

/-- A tab that is connected does something by itself. -/
theorem Inv.stepTab (hs : Inv routed s)
    (hstep : (match s.tabs[i]? with
      | some tab => if tab.connected then (stepTab routed tab l).map (s.setTab i) else none
      | none => none) = some t) : Inv routed t := by
  split at hstep
  · next tab htab =>
    split_ifs at hstep with hconnected
    obtain ⟨tab', htab', rfl⟩ := Option.map_eq_some_iff.1 hstep
    obtain ⟨honward, hnext⟩ := (hs.tabs tab (List.mem_of_getElem? htab) hconnected).step htab'
    exact hs.setTab htab honward hnext
  · cases hstep

theorem Inv.connect (hs : Inv routed s) : Inv routed { s with tabs := s.tabs ++ [.new] } :=
  { hs with
    tabs := by
      intro tab hmem hconnected
      rcases List.mem_append.1 hmem with hmem | hmem
      · exact hs.tabs tab hmem hconnected
      · rw [List.mem_singleton.1 hmem]
        exact tabInv_new
    done := by
      intro id call i hcall hacked
      obtain ⟨tab, typed, htab, hrest⟩ := hs.done id call i hcall hacked
      refine ⟨tab, typed, ?_, hrest⟩
      rw [List.getElem?_append_left (List.getElem?_eq_some_iff.1 htab).1]
      exact htab }

/-- A step that is `Sound` keeps the invariant. -/
theorem inv_step (hs : Inv routed s) (hsound : Sound s l) (hstep : step routed s l = some t) :
    Inv routed t := by
  cases l with
  | connect =>
      cases hstep
      exact hs.connect
  | serve i ok =>
      simp only [step] at hstep
      split at hstep
      · next tab htab =>
        split at hstep
        · next op rest hqueue =>
          split_ifs at hstep with hconnected
          cases hstep
          simp only [Sound, htab, Option.all_some] at hsound
          exact hs.serve htab hconnected hqueue hsound
        · cases hstep
      · cases hstep
  | request path =>
      cases hstep
      exact hs.requestFlush path
  | wake id =>
      simp only [step] at hstep
      split at hstep
      · next call hcall =>
        split_ifs at hstep with hacked
        cases hstep
        exact hs.wake hcall hacked hsound
      · cases hstep
  | timeout id =>
      simp only [step] at hstep
      split at hstep
      · next call hcall =>
        split_ifs at hstep with hwaiting
        cases hstep
        exact hs.setCall { call with status := .returned false } hcall rfl nofun
          (fun i hi => hs.done id call i hcall hi) nofun
      · cases hstep
  | abandon id =>
      simp only [step] at hstep
      split at hstep
      · next call hcall =>
        split_ifs at hstep
        cases hstep
        exact hs.setCall_of_not_mem { call with status := .abandoned } hcall hsound rfl
          nofun (fun i hi => hs.done id call i hcall hi) nofun
      · cases hstep
  | disconnect i => exact hs.stepTab hstep
  | keystroke i path => exact hs.stepTab hstep
  | expire i path => exact hs.stepTab hstep
  | flush i path => exact hs.stepTab hstep
  | other i => exact hs.stepTab hstep
  | receive i => exact hs.stepTab hstep
  | lag i => exact hs.stepTab hstep

/-- In every run whose steps are `Sound`, the property holds in each state, whether the event
gets to its handler or not. -/
theorem flushed_of_run {routed : Bool} {ls : List Label} {s : State}
    (hrun : Run (step routed) Sound .init ls s) : Flushed s := by
  have hs : Inv routed s := hrun.invariant inv_init fun _ _ _ => inv_step
  exact {
    onDisk := hs.onTime
    own := by
      intro id call i hcall hacked
      obtain ⟨tab, typed, htab, hreceived, _⟩ := hs.done id call i hcall hacked
      exact ⟨tab, typed, htab, hreceived⟩
    waiters := hs.waiters
    distinct := hs.distinct }

/-! ## The failing runs -/

def file : Path := "a".toList

/-- Tab 1 has something to write, and tab 0 acknowledges first. -/
def otherFirst : List Label := [.connect, .connect, .keystroke 1 file, .request file, .receive 0,
  .receive 1, .serve 0 true, .wake 1]

/-- The write fails and the acknowledgement behind it does not. -/
def failedWrite : List Label := [.connect, .keystroke 0 file, .request file, .receive 0,
  .serve 0 false, .serve 0 true, .wake 1]

def dropped : List Label := [.request file, .abandon 1]

def isLate (s : State) : Bool := s.late

/-- A request has a waiter and does not wait. -/
def hasLeak (s : State) : Bool :=
  s.waiters.any fun id => (s.calls id).all fun call => call.status != .waiting

theorem not_flushed_of_late (h : isLate s = true) : ¬ Flushed s := by
  intro hs
  have honDisk := hs.onDisk
  rw [show s.late = true from h] at honDisk
  cases honDisk

theorem not_flushed_of_leak (h : hasLeak s = true) : ¬ Flushed s := by
  intro hs
  obtain ⟨id, hmem, hall⟩ := List.any_eq_true.1 h
  obtain ⟨call, hcall, hwaiting⟩ := (hs.waiters id).1 hmem
  rw [hcall, Option.all_some, hwaiting] at hall
  cases hall

theorem exists_notFlushed {ls : List Label} (routed : Bool) (test : State → Bool)
    (h : (exec (step routed) free .init ls).any test = true)
    (hnot : ∀ s, test s = true → ¬ Flushed s) :
    ∃ s, Run (step routed) free .init ls s ∧ test s = true ∧ ¬ Flushed s := by
  obtain ⟨s, hrun, hs⟩ := Run.exists_of_exec test h
  exact ⟨s, hrun, hs, hnot s hs⟩

/-- A request returns `true` before what was typed is written, and a waiter is left behind. -/
theorem flushes_fail :
    (∃ s, Run (step true) free .init otherFirst s ∧ isLate s = true ∧ ¬ Flushed s) ∧
    (∃ s, Run (step true) free .init failedWrite s ∧ isLate s = true ∧ ¬ Flushed s) ∧
    ∃ s, Run (step false) free .init dropped s ∧ hasLeak s = true ∧ ¬ Flushed s :=
  ⟨exists_notFlushed true isLate (by decide) fun _ => not_flushed_of_late,
    exists_notFlushed true isLate (by decide) fun _ => not_flushed_of_late,
    exists_notFlushed false hasLeak (by decide) fun _ => not_flushed_of_leak⟩

instance (s : State) (l : Label) : Decidable (Sound s l) :=
  match l with
  | .serve i ok => inferInstanceAs (Decidable (ok = true ∨ (s.tabs[i]?.all Tab.spare) = true))
  | .wake id =>
    match h : s.calls id with
    | some call =>
      decidable_of_iff (s.tabs.zipIdx.all (fun (tab, i) =>
        call.ackedBy == some i || !tab.connected || tab.clear id call.path) = true)
        (by simp only [Sound, h])
    | none => isTrue (by simp only [Sound, h])
  | .abandon id => inferInstanceAs (Decidable (id ∉ s.waiters))
  | .connect | .disconnect _ | .keystroke .. | .expire .. | .flush .. | .other _ | .receive _
  | .lag _ | .request _ | .timeout _ => isTrue trivial

/-- The tab that has typed acknowledges first, and the other one is late. -/
def ownFirst : List Label := [.connect, .connect, .keystroke 0 file, .request file, .receive 0,
  .serve 0 true, .serve 0 true, .wake 1, .receive 1, .serve 1 true]

def isFlushed (s : State) : Bool :=
  (s.calls 1).any (fun call => call.status == .returned true) && s.waiters.isEmpty &&
    s.tabs.all fun tab => (tab.editors file).written == (tab.editors file).typed

theorem flushed_ownFirst : ∃ s, Run (step true) Sound .init ownFirst s ∧ isFlushed s = true ∧
    Flushed s := by
  obtain ⟨s, hrun, hs⟩ := Run.exists_of_exec isFlushed
    (show (exec (step true) Sound .init ownFirst).any _ = true by decide)
  exact ⟨s, hrun, hs, flushed_of_run hrun⟩

end Vanyline.Frontend.FlushRequests
