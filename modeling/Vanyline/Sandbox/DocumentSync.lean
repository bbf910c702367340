import Vanyline.Lib.Run
import Vanyline.Sandbox.Documents

/-!
# The documents of a live language server

The clients of a session are browsers and tool calls.  A browser obeys the
protocol for itself, and the bridge notes its `didOpen` and `didClose` and
forwards every frame.  A tool call opens a document when it is the first tool to
ask for it (`ensure_open`), and `edit_and_check` then sends a `didChange` with the
next version, unless a browser has the document open.

A step is one section between two awaits: marking and sending are different
steps, and so are drawing a version and sending it.  The server receives the
notifications in the order in which they are sent.

`WellFormed` says that the server is told to open closed documents only and to
change or close open ones only, with increasing versions.  It fails when a
browser opens a document that a tool has opened (`tool_then_browser`).
`wellFormed_of_run` proves it for the runs in which a document is used by one
party at a time (`OneParty`).
-/

namespace Vanyline.Sandbox.DocumentSync

open Vanyline.Lib

/-! ## The protocol -/

/-- A document notification. -/
inductive DocEvent
  | didOpen (version : Int)
  | didChange (version : Int)
  | didClose
  deriving DecidableEq

/-- A notification for a document that is closed (`none`) or open at a version. -/
def accept : Option Int → DocEvent → Option (Option Int)
  | none, .didOpen version => some (some version)
  | some last, .didChange version => if last < version then some (some version) else none
  | some _, .didClose => some none
  | _, _ => none

/-- The document after the notifications, oldest first, if they are in order. -/
def document (events : List DocEvent) : Option (Option Int) := monitor accept none events

def WellFormed (events : List DocEvent) : Prop := document events ≠ none

theorem document_concat {events : List DocEvent} {doc : Option Int}
    (h : document events = some doc) (e : DocEvent) :
    document (events ++ [e]) = accept doc e :=
  monitor_concat h e

/-! ## Clients and steps -/

/-- Where a tool call stands. -/
inductive Phase
  | ready
  | ensuring (uri : Uri) (edit : Bool)
  | opening (uri : Uri) (edit : Bool)
  | opened (uri : Uri)
  | changing (uri : Uri) (version : Int)
  deriving DecidableEq

/-- A client of the session.  A browser has the documents that the frames
forwarded for it have left open, and at most one frame at the bridge. -/
inductive Client
  | absent
  | browser (docs : Uri → Option Int) (frame : Option (Uri × DocEvent))
  | tool (phase : Phase)

def Client.docs : Client → Uri → Option Int
  | .browser docs _ => docs
  | _ => fun _ => none

def Client.frame : Client → Option (Uri × DocEvent)
  | .browser _ frame => frame
  | _ => none

def Client.phase : Client → Phase
  | .tool phase => phase
  | _ => .ready

/-- A session and its server.  `left` is for the observer: the documents that
browsers had open when they went away. -/
structure State where
  nextClient : ClientId
  clients : ClientId → Client
  documents : Documents
  received : Uri → List DocEvent
  left : Uri → Bool

inductive Action
  | subscribe (browser : Bool)
  | frame (client : ClientId) (uri : Uri) (event : DocEvent)
  | forward (client : ClientId)
  | disconnect (client : ClientId)
  | ensure (client : ClientId) (uri : Uri)
  | check (client : ClientId) (uri : Uri)
  | mark (client : ClientId)
  | sendOpen (client : ClientId)
  | draw (client : ClientId)
  | sendChange (client : ClientId)
  | drop (client : ClientId)

def State.setClient (s : State) (c : ClientId) (client : Client) : State :=
  { s with clients := Function.update s.clients c client }

def State.setDocuments (s : State) (documents : Documents) : State :=
  { s with documents := documents }

/-- The server receives a notification. -/
def State.send (s : State) (uri : Uri) (event : DocEvent) : State :=
  { s with received := Function.update s.received uri (s.received uri ++ [event]) }

/-- The bridge observes a frame. -/
def observe (d : Documents) (c : ClientId) (uri : Uri) : DocEvent → Documents
  | .didOpen _ => d.markEditorUriOpen uri c
  | .didClose => d.markEditorUriClose uri c
  | .didChange _ => d

/-- What follows `ensure_open`: a `didChange` for `edit_and_check` only. -/
def afterEnsureOpen (uri : Uri) (edit : Bool) : Phase := if edit then .opened uri else .ready

def step (s : State) : Action → Option State
  | .subscribe browser =>
    let client := if browser then .browser (fun _ => none) none else .tool .ready
    some { s.setClient s.nextClient client with nextClient := s.nextClient + 1 }
  | .frame c uri event =>
    match s.clients c with
    | .browser docs none =>
      if (accept (docs uri) event).isSome then
        some ((s.setClient c (.browser docs (some (uri, event)))).setDocuments
          (observe s.documents c uri event))
      else none
    | _ => none
  | .forward c =>
    match s.clients c with
    | .browser docs (some (uri, event)) =>
      (accept (docs uri) event).map fun doc =>
        (s.setClient c (.browser (Function.update docs uri doc) none)).send uri event
    | _ => none
  | .disconnect c =>
    match s.clients c with
    | .browser docs none =>
      some { (s.setClient c .absent).setDocuments (s.documents.unsubscribe c) with
        left := fun uri => s.left uri || (docs uri).isSome }
    | _ => none
  | .ensure c uri =>
    match s.clients c with
    | .tool .ready => some (s.setClient c (.tool (.ensuring uri false)))
    | _ => none
  | .check c uri =>
    match s.clients c with
    | .tool .ready =>
      some (if s.documents.hasEditorClient uri then s
        else s.setClient c (.tool (.ensuring uri true)))
    | _ => none
  | .mark c =>
    match s.clients c with
    | .tool (.ensuring uri edit) =>
      let (first, documents) := s.documents.tryMarkUriOpen uri
      let phase := if first then .opening uri edit else afterEnsureOpen uri edit
      some ((s.setClient c (.tool phase)).setDocuments documents)
    | _ => none
  | .sendOpen c =>
    match s.clients c with
    | .tool (.opening uri edit) =>
      some ((s.setClient c (.tool (afterEnsureOpen uri edit))).send uri (.didOpen 1))
    | _ => none
  | .draw c =>
    match s.clients c with
    | .tool (.opened uri) =>
      let (version, documents) := s.documents.nextDocVersion uri
      some ((s.setClient c (.tool (.changing uri version))).setDocuments documents)
    | _ => none
  | .sendChange c =>
    match s.clients c with
    | .tool (.changing uri version) =>
      some ((s.setClient c (.tool .ready)).send uri (.didChange version))
    | _ => none
  | .drop c =>
    match s.clients c with
    | .tool .ready => some ((s.setClient c .absent).setDocuments (s.documents.unsubscribe c))
    | _ => none

/-- A server that has just started. -/
def State.init : State := ⟨0, fun _ => .absent, .empty, fun _ => [], fun _ => false⟩

/-! ## One party at a time -/

/-- Does the client, as a browser, have the document open, or a frame about it at the
bridge? -/
def Uses (client : Client) (uri : Uri) : Prop :=
  client.docs uri ≠ none ∨ client.frame.any (·.1 = uri)

instance (client : Client) (uri : Uri) : Decidable (Uses client uri) :=
  inferInstanceAs (Decidable (_ ∨ _))

/-- No browser uses the document, and none has left it open. -/
def NoBrowser (s : State) (uri : Uri) : Prop :=
  s.left uri = false ∧ ∀ c < s.nextClient, ¬ Uses (s.clients c) uri

instance (s : State) (uri : Uri) : Decidable (NoBrowser s uri) :=
  inferInstanceAs (Decidable (_ ∧ _))

/-- The tool call is not about to send the `didOpen` of the document or a lower
version of it. -/
def Phase.InTurn (uri : Uri) (version : Int) : Phase → Prop
  | .opening other _ => other ≠ uri
  | .changing other lower => other = uri → version ≤ lower
  | .ready | .ensuring _ _ | .opened _ => True

instance (uri : Uri) (version : Int) : (phase : Phase) → Decidable (phase.InTurn uri version)
  | .opening _ _ => inferInstanceAs (Decidable (_ ≠ _))
  | .changing _ _ => inferInstanceAs (Decidable (_ → _))
  | .ready | .ensuring _ _ | .opened _ => isTrue trivial

/-- A tool call goes on only if the document is for tools and the call is in turn. -/
def Phase.OneParty (s : State) : Phase → Prop
  | .ensuring uri _ => s.documents.openUris uri = false → NoBrowser s uri
  | .opened uri => s.documents.lastVersion uri < i32Max
  | .changing uri version => ∀ c < s.nextClient, (s.clients c).phase.InTurn uri version
  | .ready | .opening _ _ => True

instance (s : State) : (phase : Phase) → Decidable (phase.OneParty s)
  | .ensuring _ _ => inferInstanceAs (Decidable (_ → _))
  | .opened _ => inferInstanceAs (Decidable (_ < _))
  | .changing _ _ => inferInstanceAs (Decidable (∀ c < _, _))
  | .ready | .opening _ _ => isTrue trivial

/-- A document is used by one party at a time.  A browser opens it only if no tool
has opened it and no other browser uses it or has left it open.  A tool is the first
to open it only if no browser uses it or has left it open.  Tools send their versions
in the order in which they drew them and after the `didOpen`, and the numbers do not
run out. -/
def OneParty (s : State) : Action → Prop
  | .frame _ uri (.didOpen _) => s.documents.openUris uri = false ∧ NoBrowser s uri
  | .mark c | .draw c | .sendChange c => (s.clients c).phase.OneParty s
  | _ => True

instance (s : State) : (a : Action) → Decidable (OneParty s a)
  | .frame _ _ (.didOpen _) => inferInstanceAs (Decidable (_ ∧ _))
  | .mark _ | .draw _ | .sendChange _ => inferInstanceAs (Decidable (Phase.OneParty s _))
  | .frame _ _ (.didChange _) | .frame _ _ .didClose | .subscribe _ | .forward _ | .disconnect _
  | .ensure _ _ | .check _ _ | .sendOpen _ | .drop _ => isTrue trivial

/-! ## One document -/

/-- What a tool call has to do with one document. -/
inductive Duty
  | none
  | opening
  | opened
  | changing (version : Int)

def Phase.about (uri : Uri) : Phase → Duty
  | .opening other _ => if other = uri then .opening else .none
  | .opened other => if other = uri then .opened else .none
  | .changing other version => if other = uri then .changing version else .none
  | .ready | .ensuring _ _ => .none

/-- All that concerns one document. -/
structure View where
  opened : Bool
  left : Bool
  last : Int
  doc : Option (Option Int)
  held : ClientId → Option Int
  atBridge : ClientId → Bool
  duty : ClientId → Duty

def view (s : State) (uri : Uri) : View where
  opened := s.documents.openUris uri
  left := s.left uri
  last := s.documents.lastVersion uri
  doc := document (s.received uri)
  held c := (s.clients c).docs uri
  atBridge c := (s.clients c).frame.any (·.1 = uri)
  duty c := (s.clients c).phase.about uri

namespace View

def Uses (v : View) (c : ClientId) : Prop := v.held c ≠ none ∨ v.atBridge c = true

/-- Either one browser uses the document, or a browser has left it open, or it is for
tools.  The versions that tools have drawn and not sent are distinct and above the
last one sent. -/
structure Coherent (v : View) : Prop where
  used : ∀ c, v.Uses c → v.opened = false ∧ v.left = false ∧ v.doc = some (v.held c) ∧
    ∀ c', v.Uses c' → c' = c
  unused : v.opened = false → v.left = false → (∀ c, ¬ v.Uses c) → v.doc = some none
  left_doc : v.left = true → v.opened = false ∧ ∃ version, v.doc = some (some version)
  opening : ∀ c, v.duty c = .opening →
    v.opened = true ∧ v.doc = some none ∧ ∀ c', v.duty c' = .opening → c' = c
  opened_of_duty : ∀ c, v.duty c = .opened → v.opened = true
  changing : ∀ c version, v.duty c = .changing version →
    v.opened = true ∧ 1 < version ∧ version ≤ v.last ∧
      (∀ sent, v.doc = some (some sent) → sent < version) ∧
      ∀ c', v.duty c' = .changing version → c' = c
  opened_doc : v.opened = true → (∃ c, v.duty c = .opening) ∨
    ∃ sent, v.doc = some (some sent) ∧ sent ≤ v.last
  one_le : 1 ≤ v.last

variable {v : View} {c : ClientId}

/-- In order: some browser, the tools, a browser that left, or nobody made the last
notification. -/
theorem Coherent.doc_ne_none (hv : v.Coherent) : v.doc ≠ none := by
  by_cases hopened : v.opened = true
  · rcases hv.opened_doc hopened with ⟨c, hc⟩ | ⟨sent, hsent, -⟩
    · simp [(hv.opening c hc).2.1]
    · simp [hsent]
  · rw [Bool.not_eq_true] at hopened
    by_cases hleft : v.left = true
    · obtain ⟨version, hversion⟩ := (hv.left_doc hleft).2
      simp [hversion]
    · by_cases hused : ∃ c, v.Uses c
      · obtain ⟨c, hc⟩ := hused
        simp [(hv.used c hc).2.2.1]
      · simp [hv.unused hopened (Bool.not_eq_true _ ▸ hleft) (not_exists.1 hused)]

/-- A document that only one browser uses, as that browser has left it. -/
theorem Coherent.of_alone (hv : v.Coherent) (hopened : v.opened = false) (hleft : v.left = false)
    {held : ClientId → Option Int} {atBridge : ClientId → Bool}
    (halone : ∀ c', View.Uses { v with held := held, atBridge := atBridge } c' → c' = c) :
    Coherent { v with doc := some (held c), held := held, atBridge := atBridge } where
  used c' hc' := by
    obtain rfl := halone c' hc'
    exact ⟨hopened, hleft, rfl, halone⟩
  unused _ _ hunused := by
    have hheld : held c = none := by
      by_contra hheld
      exact hunused c (.inl hheld)
    rw [hheld]
  left_doc h := absurd h (by simp [hleft])
  opening c' h := absurd (hv.opening c' h).1 (by simp [hopened])
  opened_of_duty c' h := absurd (hv.opened_of_duty c' h) (by simp [hopened])
  changing c' version h := absurd (hv.changing c' version h).1 (by simp [hopened])
  opened_doc h := absurd h (by simp [hopened])
  one_le := hv.one_le

theorem Coherent.doc_eq_held (hv : v.Coherent) (hopened : v.opened = false)
    (hleft : v.left = false) (halone : ∀ c', v.Uses c' → c' = c) : v.doc = some (v.held c) := by
  by_cases hc : v.Uses c
  · exact (hv.used c hc).2.2.1
  · have hheld : v.held c = none := by
      by_contra hheld
      exact hc (.inl hheld)
    rw [hheld]
    exact hv.unused hopened hleft fun c' hc' => hc (halone c' hc' ▸ hc')

/-- A frame of a browser reaches the bridge. -/
theorem Coherent.announce (hv : v.Coherent) (hopened : v.opened = false) (hleft : v.left = false)
    (halone : ∀ c', v.Uses c' → c' = c) :
    Coherent { v with atBridge := Function.update v.atBridge c true } := by
  have hdoc := hv.doc_eq_held hopened hleft halone
  have huses : ∀ c', View.Uses { v with atBridge := Function.update v.atBridge c true } c' →
      c' = c := by
    intro c' hc'
    by_contra hne
    exact hne (halone c' (by simpa [View.Uses, Function.update_of_ne hne] using hc'))
  have hcoherent := hv.of_alone hopened hleft huses
  rw [← hdoc] at hcoherent
  exact hcoherent

/-- The frame is forwarded. -/
theorem Coherent.forward (hv : v.Coherent) (hc : v.Uses c) (doc : Option Int) :
    Coherent { v with
      doc := some doc
      held := Function.update v.held c doc
      atBridge := Function.update v.atBridge c false } := by
  obtain ⟨hopened, hleft, -, halone⟩ := hv.used c hc
  have huses : ∀ c', View.Uses { v with
      held := Function.update v.held c doc
      atBridge := Function.update v.atBridge c false } c' → c' = c := by
    intro c' hc'
    by_contra hne
    exact hne (halone c' (by simpa [View.Uses, Function.update_of_ne hne] using hc'))
  simpa using hv.of_alone hopened hleft huses

/-- A browser goes away, without a word about what it has open. -/
theorem Coherent.leave (hv : v.Coherent) (hc : v.atBridge c = false) :
    Coherent { v with
      held := Function.update v.held c none
      left := v.left || (v.held c).isSome } := by
  cases hheld : v.held c with
  | none =>
      have hsame : Function.update v.held c none = v.held := by rw [← hheld, Function.update_eq_self]
      simpa [hsame] using hv
  | some version =>
      obtain ⟨hopened, -, hdoc, halone⟩ := hv.used c (.inl (by simp [hheld]))
      have hunused : ∀ c', ¬ View.Uses { v with held := Function.update v.held c none } c' := by
        intro c' hc'
        by_cases heq : c' = c
        · subst heq
          simp [View.Uses, hc] at hc'
        · exact heq (halone c' (by simpa [View.Uses, Function.update_of_ne heq] using hc'))
      exact { hv with
        used := fun c' hc' => absurd hc' (hunused c')
        unused := fun _ h => absurd h (by simp)
        left_doc := fun _ => ⟨hopened, version, by rw [hdoc, hheld]⟩ }

/-- Nothing is left to a tool while the document is for browsers. -/
theorem Coherent.duty_of_not_opened (hv : v.Coherent) (hopened : v.opened = false) (c' : ClientId) :
    v.duty c' = .none := by
  cases hduty : v.duty c' with
  | none => rfl
  | opening => exact absurd (hv.opening c' hduty).1 (by simp [hopened])
  | opened => exact absurd (hv.opened_of_duty c' hduty) (by simp [hopened])
  | changing version => exact absurd (hv.changing c' version hduty).1 (by simp [hopened])

theorem Coherent.unused_of_opened (hv : v.Coherent) (hopened : v.opened = true) :
    v.left = false ∧ ∀ c', ¬ v.Uses c' := by
  constructor
  · by_contra hleft
    simpa [hopened] using (hv.left_doc (by simpa using hleft)).1
  · intro c' hc'
    simpa [hopened] using (hv.used c' hc').1

/-- The `didOpen` is sent, or another call is about to send it. -/
theorem Coherent.opened_doc_update (hv : v.Coherent) (hopened : v.opened = true)
    (hc : v.duty c ≠ .opening) (duty : Duty) :
    (∃ c', Function.update v.duty c duty c' = .opening) ∨
      ∃ sent, v.doc = some (some sent) ∧ sent ≤ v.last := by
  refine (hv.opened_doc hopened).imp_left fun ⟨c', hc'⟩ => ⟨c', ?_⟩
  have hne : c' ≠ c := by
    intro heq
    exact hc (heq ▸ hc')
  rw [Function.update_of_ne hne, hc']

/-- A document that is for tools. -/
theorem Coherent.of_tools (hunused : v.left = false ∧ ∀ c', ¬ v.Uses c') (hopened : v.opened = true)
    (hopening : ∀ c, v.duty c = .opening → v.doc = some none ∧ ∀ c', v.duty c' = .opening → c' = c)
    (hchanging : ∀ c version, v.duty c = .changing version → 1 < version ∧ version ≤ v.last ∧
      (∀ sent, v.doc = some (some sent) → sent < version) ∧
        ∀ c', v.duty c' = .changing version → c' = c)
    (hdoc : (∃ c, v.duty c = .opening) ∨ ∃ sent, v.doc = some (some sent) ∧ sent ≤ v.last)
    (hlast : 1 ≤ v.last) : v.Coherent where
  used c' hc' := absurd hc' (hunused.2 c')
  unused h := absurd h (by simp [hopened])
  left_doc h := absurd h (by simp [hunused.1])
  opening c' hc' := ⟨hopened, hopening c' hc'⟩
  opened_of_duty _ _ := hopened
  changing c' version hc' := ⟨hopened, hchanging c' version hc'⟩
  opened_doc _ := hdoc
  one_le := hlast

/-- A tool is the first to ask for the document. -/
theorem Coherent.win (hv : v.Coherent) (hopened : v.opened = false) (hleft : v.left = false)
    (hunused : ∀ c', ¬ v.Uses c') :
    Coherent { v with opened := true, duty := Function.update v.duty c .opening } := by
  have hidle := hv.duty_of_not_opened hopened
  refine .of_tools ⟨hleft, hunused⟩ rfl ?_ ?_ (.inl ⟨c, by simp⟩) hv.one_le
  · intro c' _
    refine ⟨hv.unused hopened hleft hunused, ?_⟩
    grind [Function.update_apply]
  · grind [Function.update_apply]

/-- Another tool has asked for it before. -/
theorem Coherent.lose (hv : v.Coherent) (hopened : v.opened = true) (hc : v.duty c = .none)
    {duty : Duty} (hduty : duty = .none ∨ duty = .opened) :
    Coherent { v with duty := Function.update v.duty c duty } := by
  have hopening := hv.opening
  have hchanging := hv.changing
  refine .of_tools (hv.unused_of_opened hopened) hopened ?_ ?_
    (hv.opened_doc_update hopened (by simp [hc]) duty) hv.one_le
  · grind [Function.update_apply]
  · grind [Function.update_apply]

/-- The `didOpen` of a tool arrives. -/
theorem Coherent.sendOpen (hv : v.Coherent) (hc : v.duty c = .opening)
    {duty : Duty} (hduty : duty = .none ∨ duty = .opened) :
    Coherent { v with doc := some (some 1), duty := Function.update v.duty c duty } := by
  obtain ⟨hopened, -, halone⟩ := hv.opening c hc
  have hchanging := hv.changing
  refine .of_tools (hv.unused_of_opened hopened) hopened ?_ ?_ (.inr ⟨1, rfl, hv.one_le⟩) hv.one_le
  · grind [Function.update_apply]
  · grind [Function.update_apply]

/-- A tool draws a version that is above all others. -/
theorem Coherent.draw (hv : v.Coherent) (hc : v.duty c = .opened) :
    Coherent { v with
      last := v.last + 1
      duty := Function.update v.duty c (.changing (v.last + 1)) } := by
  have hopened := hv.opened_of_duty c hc
  have hopening := hv.opening
  have hchanging := hv.changing
  have hone := hv.one_le
  have hne : v.duty c ≠ .opening := by simp [hc]
  have hdoc := hv.opened_doc_update hopened hne (.changing (v.last + 1))
  refine .of_tools (hv.unused_of_opened hopened) hopened ?_ ?_ ?_ ?_
  · grind [Function.update_apply]
  · have hsent := hv.opened_doc hopened
    grind [Function.update_apply]
  · refine hdoc.imp_right fun ⟨sent, hsent, hle⟩ => ⟨sent, hsent, ?_⟩
    show sent ≤ v.last + 1
    omega
  · show 1 ≤ v.last + 1
    omega

/-- The lowest drawn version arrives, at an open document. -/
theorem Coherent.sendChange (hv : v.Coherent) {version : Int} (hc : v.duty c = .changing version)
    (hturn : ∀ c' lower, v.duty c' = .changing lower → version ≤ lower)
    (hnot : ∀ c', v.duty c' ≠ .opening) :
    Coherent { v with doc := some (some version), duty := Function.update v.duty c .none } := by
  obtain ⟨hopened, -, hle, -, halone⟩ := hv.changing c version hc
  have hchanging := hv.changing
  refine .of_tools (hv.unused_of_opened hopened) hopened ?_ ?_ (.inr ⟨version, rfl, hle⟩) hv.one_le
  · grind [Function.update_apply]
  · grind [Function.update_apply]

end View

/-! ## Steps as seen from one document -/

variable {s t : State} {c : ClientId} {uri : Uri}

theorem view_setClient (s : State) (c : ClientId) (client : Client) (uri : Uri) :
    view (s.setClient c client) uri = { view s uri with
      held := Function.update (view s uri).held c (client.docs uri)
      atBridge := Function.update (view s uri).atBridge c (client.frame.any (·.1 = uri))
      duty := Function.update (view s uri).duty c (client.phase.about uri) } := by
  simp only [view, State.setClient, View.mk.injEq, true_and]
  refine ⟨?_, ?_, ?_⟩
  all_goals
    funext c'
    by_cases heq : c' = c
    · subst heq
      simp
    · simp [heq]

/-- A client that has the same to do with the document as before. -/
theorem view_setClient_of_eq {client : Client} (hdocs : client.docs uri = (s.clients c).docs uri)
    (hframe : client.frame.any (·.1 = uri) = (s.clients c).frame.any (·.1 = uri))
    (hphase : client.phase.about uri = (s.clients c).phase.about uri) :
    view (s.setClient c client) uri = view s uri := by
  rw [view_setClient, hdocs, hframe, hphase]
  show View.mk _ _ _ _ (Function.update (view s uri).held c ((view s uri).held c))
    (Function.update (view s uri).atBridge c ((view s uri).atBridge c))
    (Function.update (view s uri).duty c ((view s uri).duty c)) = view s uri
  rw [Function.update_eq_self, Function.update_eq_self, Function.update_eq_self]

theorem view_send (s : State) (uri : Uri) (e : DocEvent) :
    view (s.send uri e) uri = { view s uri with doc := document (s.received uri ++ [e]) } := by
  simp [view, State.send]

theorem view_send_of_ne {uri' : Uri} (hne : uri' ≠ uri) (s : State) (e : DocEvent) :
    view (s.send uri e) uri' = view s uri' := by
  simp [view, State.send, Function.update_of_ne hne]

theorem view_setDocuments {d : Documents} (hopen : d.openUris uri = s.documents.openUris uri)
    (hlast : d.lastVersion uri = s.documents.lastVersion uri) :
    view (s.setDocuments d) uri = view s uri := by
  simp [view, State.setDocuments, hopen, hlast]

theorem observe_openUris (d : Documents) (c : ClientId) (uri uri' : Uri) (e : DocEvent) :
    (observe d c uri e).openUris uri' = d.openUris uri' := by
  cases e <;> rfl

theorem observe_lastVersion (d : Documents) (c : ClientId) (uri uri' : Uri) (e : DocEvent) :
    (observe d c uri e).lastVersion uri' = d.lastVersion uri' := by
  cases e <;> rfl

/-- All documents are coherent, and the ids of clients to come are free. -/
structure Inv (s : State) : Prop where
  coherent : ∀ uri, (view s uri).Coherent
  absent : ∀ c, s.nextClient ≤ c → s.clients c = .absent

theorem inv_init : Inv .init where
  absent _ _ := rfl
  coherent uri :=
    { used := fun c hc => absurd hc (by simp [View.Uses, view, State.init, Client.docs, Client.frame])
      unused := fun _ _ _ => rfl
      left_doc := fun h => absurd h (by simp [view, State.init])
      opening := fun c hc => absurd hc (by simp [view, State.init, Client.phase, Phase.about])
      opened_of_duty := fun c hc => absurd hc (by simp [view, State.init, Client.phase, Phase.about])
      changing := fun c _ hc => absurd hc (by simp [view, State.init, Client.phase, Phase.about])
      opened_doc := fun h => absurd h (by simp [view, State.init, Documents.empty])
      one_le := Int.le_refl 1 }

/-- No client at all uses a document that no subscribed client uses. -/
theorem Inv.not_uses (hs : Inv s) (h : NoBrowser s uri) (c : ClientId) : ¬ (view s uri).Uses c := by
  intro hc
  by_cases hlt : c < s.nextClient
  · exact h.2 c hlt hc
  · simp [view, View.Uses, hs.absent c (Nat.le_of_not_lt hlt), Client.docs, Client.frame] at hc

/-- A step of one client that is there, and stays below the same bound. -/
theorem Inv.of_client (hs : Inv s) (hc : s.clients c ≠ .absent)
    (hnext : t.nextClient = s.nextClient) (hclients : ∀ c' ≠ c, t.clients c' = s.clients c')
    (hcoherent : ∀ uri, (view t uri).Coherent) : Inv t where
  coherent := hcoherent
  absent c' hle := by
    rw [hnext] at hle
    have hne : c' ≠ c := by
      rintro rfl
      exact hc (hs.absent _ hle)
    rw [hclients c' hne]
    exact hs.absent c' hle

theorem setClient_of_ne (s : State) (client : Client) :
    ∀ c' ≠ c, (s.setClient c client).clients c' = s.clients c' :=
  fun _ hne => Function.update_of_ne hne _ _

theorem inv_subscribe (hs : Inv s) (browser : Bool) (h : step s (.subscribe browser) = some t) :
    Inv t := by
  obtain rfl := Option.some.inj h
  have hfresh := hs.absent s.nextClient (Nat.le_refl _)
  constructor
  · intro uri
    have hview : view (s.setClient s.nextClient
        (if browser then .browser (fun _ => none) none else .tool .ready)) uri = view s uri := by
      apply view_setClient_of_eq <;> rw [hfresh] <;> cases browser <;> rfl
    exact hview ▸ hs.coherent uri
  · intro c hle
    have hne : c ≠ s.nextClient := Nat.ne_of_gt hle
    show Function.update s.clients s.nextClient _ c = .absent
    rw [Function.update_of_ne hne]
    exact hs.absent c (Nat.le_of_succ_le hle)

/-- A frame about an open document comes from the browser that has it open. -/
theorem inv_frame (hs : Inv s) {e : DocEvent} (hok : OneParty s (.frame c uri e))
    (h : step s (.frame c uri e) = some t) : Inv t := by
  simp only [step] at h
  split at h
  next docs hc =>
    split_ifs at h with haccept
    obtain rfl := Option.some.inj h
    refine hs.of_client (by simp [hc]) rfl (setClient_of_ne s _) fun uri' => ?_
    have hobserve : view ((s.setClient c (.browser docs (some (uri, e)))).setDocuments
        (observe s.documents c uri e)) uri' =
        view (s.setClient c (.browser docs (some (uri, e)))) uri' :=
      view_setDocuments (observe_openUris s.documents c uri uri' e)
        (observe_lastVersion s.documents c uri uri' e)
    rw [hobserve]
    by_cases heq : uri' = uri
    · subst heq
      have hview : view (s.setClient c (.browser docs (some (uri', e)))) uri' =
          { view s uri' with atBridge := Function.update (view s uri').atBridge c true } := by
        rw [view_setClient]
        simp [view, hc, Client.docs, Client.frame, Client.phase, Phase.about]
      have hheld : (view s uri').held c = docs uri' := by simp [view, hc, Client.docs]
      rw [hview]
      cases hdoc : docs uri' with
      | some version =>
          obtain ⟨hopened, hleft, -, halone⟩ :=
            (hs.coherent uri').used c (.inl (by simp [hheld, hdoc]))
          exact (hs.coherent uri').announce hopened hleft halone
      | none =>
          cases e with
          | didOpen version =>
              exact (hs.coherent uri').announce hok.1 hok.2.1 fun c' hc' =>
                absurd hc' (hs.not_uses hok.2 c')
          | didChange version => simp [hdoc, accept] at haccept
          | didClose => simp [hdoc, accept] at haccept
    · have hview : view (s.setClient c (.browser docs (some (uri, e)))) uri' = view s uri' := by
        apply view_setClient_of_eq <;> simp [hc, Client.docs, Client.frame, Client.phase, Ne.symm heq]
      exact hview ▸ hs.coherent uri'
  next => simp at h

/-- The frame is about a document that the browser uses. -/
theorem inv_forward (hs : Inv s) (h : step s (.forward c) = some t) : Inv t := by
  simp only [step] at h
  split at h
  next docs uri e hc =>
    obtain ⟨doc, haccept, rfl⟩ := Option.map_eq_some_iff.1 h
    refine hs.of_client (by simp [hc]) rfl (setClient_of_ne s _) fun uri' => ?_
    by_cases heq : uri' = uri
    · subst heq
      have huses : (view s uri').Uses c := .inr (by simp [view, hc, Client.frame])
      have hheld : document (s.received uri') = some (docs uri') := by
        have hdoc := ((hs.coherent uri').used c huses).2.2.1
        simpa [view, hc, Client.docs] using hdoc
      have hview : view ((s.setClient c (.browser (Function.update docs uri' doc) none)).send uri' e)
          uri' = { view s uri' with
            doc := some doc
            held := Function.update (view s uri').held c doc
            atBridge := Function.update (view s uri').atBridge c false } := by
        rw [view_send, view_setClient]
        simp [view, hc, State.setClient, Client.docs, Client.frame, Client.phase, Phase.about,
          document_concat hheld, haccept]
      exact hview ▸ (hs.coherent uri').forward huses doc
    · have hview : view (s.setClient c (.browser (Function.update docs uri doc) none)) uri' =
          view s uri' := by
        apply view_setClient_of_eq <;>
          simp [hc, Client.docs, Client.frame, Client.phase, heq, Ne.symm heq]
      rw [view_send_of_ne heq, hview]
      exact hs.coherent uri'
  next => simp at h

theorem inv_disconnect (hs : Inv s) (h : step s (.disconnect c) = some t) : Inv t := by
  simp only [step] at h
  split at h
  next docs hc =>
    obtain rfl := Option.some.inj h
    refine hs.of_client (by simp [hc]) rfl (setClient_of_ne s _) fun uri => ?_
    have hbridge : (view s uri).atBridge c = false := by simp [view, hc, Client.frame]
    have hleave := (hs.coherent uri).leave hbridge
    have hsame : view (s.setClient c .absent) uri =
        { view s uri with held := Function.update (view s uri).held c none } := by
      rw [view_setClient]
      simp [view, hc, Client.docs, Client.frame, Client.phase, Phase.about]
    have hview : ∀ left : Uri → Bool, view { (s.setClient c .absent).setDocuments
        (s.documents.unsubscribe c) with left := left } uri =
        { view (s.setClient c .absent) uri with left := left uri } := fun _ => rfl
    rw [hview, hsame]
    have hheld : (view s uri).held c = docs uri := by simp [view, hc, Client.docs]
    rw [hheld] at hleave
    exact hleave
  next => simp at h

/-! ## Steps of the tools -/

theorem view_setPhase {phase : Phase} (hc : s.clients c = .tool phase) (new : Phase) (uri : Uri) :
    view (s.setClient c (.tool new)) uri =
      { view s uri with duty := Function.update (view s uri).duty c (new.about uri) } := by
  rw [view_setClient]
  simp [view, hc, Client.docs, Client.frame, Client.phase]

/-- The phases before and after are about another document. -/
theorem view_setPhase_of_ne {phase new : Phase} (hc : s.clients c = .tool phase)
    (hphase : phase.about uri = .none) (hnew : new.about uri = .none) :
    view (s.setClient c (.tool new)) uri = view s uri := by
  rw [view_setPhase hc, hnew]
  have hduty : (view s uri).duty c = .none := by simp [view, hc, Client.phase, hphase]
  rw [← hduty, Function.update_eq_self]

theorem about_afterEnsureOpen (uri : Uri) (edit : Bool) :
    (afterEnsureOpen uri edit).about uri = .none ∨ (afterEnsureOpen uri edit).about uri = .opened := by
  cases edit <;> simp [afterEnsureOpen, Phase.about]

theorem about_afterEnsureOpen_of_ne {uri' : Uri} (hne : uri' ≠ uri) (edit : Bool) :
    (afterEnsureOpen uri edit).about uri' = .none := by
  cases edit <;> simp [afterEnsureOpen, Phase.about, Ne.symm hne]

/-- A tool starts on a document, or waits for the next one. -/
theorem inv_idle (hs : Inv s) {phase new : Phase} (hc : s.clients c = .tool phase)
    (hphase : ∀ uri, phase.about uri = .none) (hnew : ∀ uri, new.about uri = .none) :
    Inv (s.setClient c (.tool new)) :=
  hs.of_client (by simp [hc]) rfl (setClient_of_ne s _) fun uri =>
    view_setPhase_of_ne hc (hphase uri) (hnew uri) ▸ hs.coherent uri

/-- A tool goes from a phase about one document to another, with new records. -/
theorem view_setPhase_setDocuments {phase : Phase} (hc : s.clients c = .tool phase) (new : Phase)
    (d : Documents) (uri : Uri) :
    view ((s.setClient c (.tool new)).setDocuments d) uri = { view s uri with
      opened := d.openUris uri
      last := d.lastVersion uri
      duty := Function.update (view s uri).duty c (new.about uri) } := by
  have hview : view ((s.setClient c (.tool new)).setDocuments d) uri =
      { view (s.setClient c (.tool new)) uri with
        opened := d.openUris uri, last := d.lastVersion uri } := rfl
  rw [hview, view_setPhase hc]

theorem inv_mark (hs : Inv s) (hok : OneParty s (.mark c)) (h : step s (.mark c) = some t) :
    Inv t := by
  simp only [step] at h
  split at h
  next uri edit hc =>
    simp only [OneParty, hc, Client.phase, Phase.OneParty] at hok
    obtain rfl := Option.some.inj h
    refine hs.of_client (by simp [hc]) rfl (setClient_of_ne s _) fun uri' => ?_
    have hv := hs.coherent uri'
    have hduty : (view s uri').duty c = .none := by simp [view, hc, Client.phase, Phase.about]
    rw [view_setPhase_setDocuments hc, Documents.tryMarkUriOpen_fst,
      Documents.tryMarkUriOpen_lastVersion]
    by_cases heq : uri' = uri
    · subst heq
      rw [Documents.tryMarkUriOpen_openUris]
      cases hopened : s.documents.openUris uri' with
      | true =>
          have hlose := hv.lose hopened hduty (about_afterEnsureOpen uri' edit)
          rw [show (view s uri').opened = true from hopened] at hlose
          exact hlose
      | false =>
          have hfree := hok hopened
          have hwin := hv.win (c := c) hopened hfree.1 (hs.not_uses hfree)
          have hnew : Phase.about uri' (if (!false) = true then .opening uri' edit
              else afterEnsureOpen uri' edit) = .opening := by simp [Phase.about]
          rw [hnew]
          exact hwin
    · rw [Documents.tryMarkUriOpen_openUris_of_ne _ _ heq]
      have hnew : Phase.about uri' (if (!s.documents.openUris uri) = true then .opening uri edit
          else afterEnsureOpen uri edit) = .none := by
        split
        · simp [Phase.about, Ne.symm heq]
        · exact about_afterEnsureOpen_of_ne heq edit
      rw [hnew, ← hduty, Function.update_eq_self]
      exact hv
  next => simp at h

theorem inv_sendOpen (hs : Inv s) (h : step s (.sendOpen c) = some t) : Inv t := by
  simp only [step] at h
  split at h
  next uri edit hc =>
    obtain rfl := Option.some.inj h
    refine hs.of_client (by simp [hc]) rfl (setClient_of_ne s _) fun uri' => ?_
    by_cases heq : uri' = uri
    · subst heq
      have hduty : (view s uri').duty c = .opening := by simp [view, hc, Client.phase, Phase.about]
      have hdoc : document ((s.setClient c (.tool (afterEnsureOpen uri' edit))).received uri') =
          some none := ((hs.coherent uri').opening c hduty).2.1
      rw [view_send, document_concat hdoc, view_setPhase hc]
      exact (hs.coherent uri').sendOpen hduty (about_afterEnsureOpen uri' edit)
    · rw [view_send_of_ne heq, view_setPhase_of_ne hc (by simp [Phase.about, Ne.symm heq])
        (about_afterEnsureOpen_of_ne heq edit)]
      exact hs.coherent uri'
  next => simp at h

theorem inv_draw (hs : Inv s) (hok : OneParty s (.draw c)) (h : step s (.draw c) = some t) :
    Inv t := by
  simp only [step] at h
  split at h
  next uri hc =>
    simp only [OneParty, hc, Client.phase, Phase.OneParty] at hok
    obtain rfl := Option.some.inj h
    refine hs.of_client (by simp [hc]) rfl (setClient_of_ne s _) fun uri' => ?_
    have hv := hs.coherent uri'
    rw [view_setPhase_setDocuments hc, Documents.nextDocVersion_openUris]
    by_cases heq : uri' = uri
    · subst heq
      have hduty : (view s uri').duty c = .opened := by simp [view, hc, Client.phase, Phase.about]
      have hdraw := hv.draw hduty
      have hnew : (Phase.changing uri' (s.documents.lastVersion uri' + 1)).about uri' =
          .changing (s.documents.lastVersion uri' + 1) := by simp [Phase.about]
      rw [Documents.nextDocVersion_lastVersion, Documents.nextDocVersion_fst _ _ hv.one_le hok, hnew]
      exact hdraw
    · have hduty : (view s uri').duty c = .none := by
        simp [view, hc, Client.phase, Phase.about, Ne.symm heq]
      rw [Documents.nextDocVersion_lastVersion_of_ne _ _ heq]
      have hnew : (Phase.changing uri (s.documents.nextDocVersion uri).1).about uri' = .none := by
        simp [Phase.about, Ne.symm heq]
      rw [hnew, ← hduty, Function.update_eq_self]
      exact hv
  next => simp at h

/-- No version that is lower, and no `didOpen`, is still to come. -/
theorem Inv.inTurn (hs : Inv s) {version : Int}
    (h : ∀ c' < s.nextClient, (s.clients c').phase.InTurn uri version) (c' : ClientId) :
    (view s uri).duty c' ≠ .opening ∧
      ∀ lower, (view s uri).duty c' = .changing lower → version ≤ lower := by
  by_cases hlt : c' < s.nextClient
  · have hturn := h c' hlt
    simp only [view]
    cases hphase : (s.clients c').phase with
    | ready => simp [Phase.about]
    | ensuring other edit => simp [Phase.about]
    | opening other edit =>
        simp only [hphase, Phase.InTurn] at hturn
        simp [Phase.about, hturn]
    | opened other =>
        by_cases heq : other = uri <;> simp [Phase.about, heq]
    | changing other lower =>
        simp only [hphase, Phase.InTurn] at hturn
        by_cases heq : other = uri <;> simp [Phase.about, heq]
        exact hturn heq
  · simp [view, hs.absent c' (Nat.le_of_not_lt hlt), Client.phase, Phase.about]

theorem inv_sendChange (hs : Inv s) (hok : OneParty s (.sendChange c))
    (h : step s (.sendChange c) = some t) : Inv t := by
  simp only [step] at h
  split at h
  next uri version hc =>
    simp only [OneParty, hc, Client.phase, Phase.OneParty] at hok
    obtain rfl := Option.some.inj h
    refine hs.of_client (by simp [hc]) rfl (setClient_of_ne s _) fun uri' => ?_
    have hv := hs.coherent uri'
    by_cases heq : uri' = uri
    · subst heq
      have hduty : (view s uri').duty c = .changing version := by
        simp [view, hc, Client.phase, Phase.about]
      have hturn := hs.inTurn hok
      obtain ⟨hopened, -, -, hbelow, -⟩ := hv.changing c version hduty
      obtain ⟨c', hc'⟩ | ⟨sent, hsent, -⟩ := hv.opened_doc hopened
      · exact absurd hc' (hturn c').1
      · have hdoc : document ((s.setClient c (.tool .ready)).received uri') = some (some sent) :=
          hsent
        rw [view_send, document_concat hdoc, accept, if_pos (hbelow sent hsent), view_setPhase hc]
        exact hv.sendChange hduty (fun c' => (hturn c').2) fun c' => (hturn c').1
    · rw [view_send_of_ne heq, view_setPhase_of_ne hc (by simp [Phase.about, Ne.symm heq]) rfl]
      exact hv
  next => simp at h

theorem inv_step {a : Action} (hs : Inv s) (hok : OneParty s a) (h : step s a = some t) :
    Inv t := by
  cases a with
  | subscribe browser => exact inv_subscribe hs browser h
  | frame c uri e => exact inv_frame hs hok h
  | forward c => exact inv_forward hs h
  | disconnect c => exact inv_disconnect hs h
  | ensure c uri =>
      simp only [step] at h
      split at h
      next hc => exact Option.some.inj h ▸ inv_idle hs hc (fun _ => rfl) fun _ => rfl
      next => simp at h
  | check c uri =>
      simp only [step] at h
      split at h
      next hc =>
        obtain rfl := Option.some.inj h
        split_ifs
        · exact hs
        · exact inv_idle hs hc (fun _ => rfl) fun _ => rfl
      next => simp at h
  | mark c => exact inv_mark hs hok h
  | sendOpen c => exact inv_sendOpen hs h
  | draw c => exact inv_draw hs hok h
  | sendChange c => exact inv_sendChange hs hok h
  | drop c =>
      simp only [step] at h
      split at h
      next hc =>
        obtain rfl := Option.some.inj h
        refine hs.of_client (by simp [hc]) rfl (setClient_of_ne s _) fun uri => ?_
        have hview : view ((s.setClient c .absent).setDocuments (s.documents.unsubscribe c)) uri =
            view s uri := by
          show view (s.setClient c .absent) uri = view s uri
          apply view_setClient_of_eq <;> rw [hc] <;> rfl
        exact hview ▸ hs.coherent uri
      next => simp at h

/-- In a run in which a document is used by one party at a time, the server receives
a well-formed sequence of notifications for every document. -/
theorem wellFormed_of_run {as : List Action} (h : Run step OneParty .init as t) (uri : Uri) :
    WellFormed (t.received uri) :=
  have hinv : Inv t := h.invariant inv_init fun _ _ _ hs hok hnext => inv_step hs hok hnext
  (hinv.coherent uri).doc_ne_none

/-! ## A tool, then a browser -/

def mainRs : Uri := "file:///ws/main.rs".toList

def otherRs : Uri := "file:///ws/other.rs".toList

/-- A tool asks for the diagnostics of a file, and then a browser opens the file. -/
def toolThenBrowser : List Action :=
  [.subscribe false, .ensure 0 mainRs, .mark 0, .sendOpen 0, .drop 0,
    .subscribe true, .frame 1 mainRs (.didOpen 0), .forward 1]

/-- The server is told twice to open the document. -/
theorem tool_then_browser : ∃ s, Run step free .init toolThenBrowser s ∧
    s.received mainRs = [.didOpen 1, .didOpen 0] ∧ ¬ WellFormed (s.received mainRs) := by
  obtain ⟨s, hrun, htest⟩ : ∃ s, Run step free .init toolThenBrowser s ∧
      decide (s.received mainRs = [.didOpen 1, .didOpen 0]) = true :=
    Run.exists_of_exec _ (by decide)
  have hreceived := of_decide_eq_true htest
  refine ⟨s, hrun, hreceived, fun hwell => ?_⟩
  rw [hreceived] at hwell
  exact hwell rfl

/-- Two tools edit a file while a browser has another one open, which a tool opens
when the browser has closed it. -/
def oneAtATime : List Action :=
  [.subscribe true, .frame 0 otherRs (.didOpen 0), .subscribe false, .check 1 mainRs, .forward 0,
    .mark 1, .subscribe false, .check 2 mainRs, .mark 2, .sendOpen 1, .draw 2, .draw 1,
    .sendChange 2, .frame 0 otherRs (.didChange 1), .sendChange 1, .forward 0,
    .frame 0 otherRs .didClose, .forward 0, .disconnect 0, .check 2 otherRs, .mark 2, .sendOpen 2,
    .draw 2, .sendChange 2]

theorem wellFormed_oneAtATime : ∃ s, Run step OneParty .init oneAtATime s ∧
    s.received mainRs = [.didOpen 1, .didChange 2, .didChange 3] ∧
    s.received otherRs = [.didOpen 0, .didChange 1, .didClose, .didOpen 1, .didChange 2] ∧
    WellFormed (s.received otherRs) := by
  obtain ⟨s, hrun, htest⟩ : ∃ s, Run step OneParty .init oneAtATime s ∧
      decide (s.received mainRs = [.didOpen 1, .didChange 2, .didChange 3] ∧
        s.received otherRs = [.didOpen 0, .didChange 1, .didClose, .didOpen 1, .didChange 2]) =
        true := Run.exists_of_exec _ (by decide)
  obtain ⟨hmain, hother⟩ := of_decide_eq_true htest
  exact ⟨s, hrun, hmain, hother, wellFormed_of_run hrun otherRs⟩

end Vanyline.Sandbox.DocumentSync
