import Vanyline.Lib.Run
import Vanyline.Sandbox.Diagnostics

/-!
# `edit_and_check`

A call of `edit_and_check` takes the diagnostics of a file from the cache (BEFORE),
invalidates them, writes the file, has the servers read it again and waits for
diagnostics in the cache (AFTER).  Calls interleave with each other, with browsers
that edit, save and reload files, with the publications of the servers, and with
the end of auxiliary servers.

A text is known by the calls whose edits it includes (`Revision`), and a
publication carries the revision that it analyses.  The servers may publish an
analysis of any text they were ever sent, or of the file as it is on the disk, at
any time.

`NeverStale` says that AFTER consists of publications that include the edit of the
call.  It fails when the analysis of an older text arrives after the invalidation
(`late_analysis_is_taken`).  `neverStale_of_run` proves it for the runs in which
this does not happen, and in which no auxiliary server ends between the two halves
of an invalidation (`Undisturbed`).
-/

namespace Vanyline.Sandbox.EditAndCheck

open Vanyline.Lib

abbrev CallId := Nat

/-- A text, as the list of the calls whose edits it includes. -/
abbrev Revision := List CallId

/-- What a server says about a text. -/
structure Publication (D : Type) where
  revision : Revision
  diagnostics : List D
  deriving DecidableEq

variable {D : Type}

/-! ## Calls -/

/-- How the file is analysed again: by the tool itself, or by the browser that has
it open, with the answer to the flush request. -/
inductive Case
  | tool
  | editor (flushed : Bool)
  deriving DecidableEq

/-- How the call ends.  `notStabilised` is VNL-SBX-LSP-011, and a report compares
BEFORE and AFTER. -/
inductive Answer (D : Type)
  | failed
  | notStabilised (case : Case)
  | report (case : Case) (before : Option (List (Publication D))) (after : List (Publication D))
  deriving DecidableEq

/-- Where a call stands. -/
inductive Phase (D : Type)
  | capturing
  | captured
  | halfInvalidated
  | invalidated
  | flushing
  | writing (case : Case)
  | rereading
  | ensuring (text : Revision)
  | opening (text : Revision)
  | changing (text : Revision)
  | waiting (case : Case)
  | answered (answer : Answer D)
  deriving DecidableEq

/-- May the call end with an error here? -/
def Phase.fallible : Phase D → Bool
  | .writing _ | .rereading | .ensuring _ | .opening _ | .changing _ => true
  | _ => false

/-- A call: its file, and BEFORE once it is captured. -/
structure Call (D : Type) where
  uri : Uri
  before : Option (List (Publication D))
  phase : Phase D

/-- A session, its servers, the files and the browsers.  `received` are the texts
that the servers were sent. -/
structure State (D : Type) where
  nextCall : CallId
  calls : CallId → Option (Call D)
  diagnostics : Diagnostics (Publication D)
  documents : Documents
  disk : Uri → Revision
  buffers : ClientId → Uri → Option Revision
  received : Uri → List Revision

/-- A step of a call, with what its environment decides. -/
inductive CallAction
  | poll
  | timeout
  | removeCache
  | removeParts
  | chooseCase
  | flushed (ok : Bool)
  | write (overwrite : Bool)
  | reread
  | mark
  | sendOpen
  | sendChange
  | fail

inductive Action (D : Type)
  | start (uri : Uri)
  | call (call : CallId) (action : CallAction)
  | editorOpen (client : ClientId) (uri : Uri)
  | editorChange (client : ClientId) (uri : Uri)
  | editorSave (client : ClientId) (uri : Uri)
  | editorReload (client : ClientId) (uri : Uri)
  | editorClose (client : ClientId) (uri : Uri)
  | disconnect (client : ClientId)
  | publish (uri : Uri) (child : Nat) (publication : Publication D)
  | auxEnds (child : Nat)

namespace State

variable (s : State D)

def setCall (c : CallId) (call : Call D) : State D :=
  { s with calls := Function.update s.calls c (some call) }

/-- The servers are sent a text. -/
def send (uri : Uri) (text : Revision) : State D :=
  { s with received := Function.update s.received uri (text :: s.received uri) }

def setDisk (uri : Uri) (text : Revision) : State D :=
  { s with disk := Function.update s.disk uri text }

def setBuffers (client : ClientId) (buffers : Uri → Option Revision) : State D :=
  { s with buffers := Function.update s.buffers client buffers }

def setDocuments (documents : Documents) : State D := { s with documents := documents }

def setDiagnostics (diagnostics : Diagnostics (Publication D)) : State D :=
  { s with diagnostics := diagnostics }

end State

/-! ## Steps -/

/-- The answer once `wait_for_diagnostics` has returned. -/
def answerOf (case : Case) (before : Option (List (Publication D))) :
    Option (List (Publication D)) → Answer D
  | some after => .report case before after
  | none => .notStabilised case

/-- One step of a call. -/
def callStep (s : State D) (c : CallId) (call : Call D) (a : CallAction) : Option (State D) :=
  let uri := call.uri
  let goto (phase : Phase D) := s.setCall c { call with phase := phase }
  match call.phase, a with
  | .capturing, .poll =>
    (s.diagnostics.cache uri).map fun ps => s.setCall c ⟨uri, some ps, .captured⟩
  | .capturing, .timeout => some (s.setCall c ⟨uri, s.diagnostics.cache uri, .captured⟩)
  | .captured, .removeCache =>
    some ((goto .halfInvalidated).setDiagnostics (s.diagnostics.removeCache uri))
  | .halfInvalidated, .removeParts =>
    some ((goto .invalidated).setDiagnostics (s.diagnostics.removeParts uri))
  | .invalidated, .chooseCase =>
    some (goto (if s.documents.hasEditorClient uri then .flushing else .writing .tool))
  | .flushing, .flushed ok => some (goto (.writing (.editor ok)))
  | .writing case, .write overwrite =>
    let next := if case = .tool then .rereading else .waiting case
    some ((goto next).setDisk uri (c :: (if overwrite then [] else s.disk uri)))
  | .rereading, .reread => some (goto (.ensuring (s.disk uri)))
  | .ensuring text, .mark =>
    let (first, documents) := s.documents.tryMarkUriOpen uri
    some ((goto (if first then .opening text else .changing text)).setDocuments documents)
  | .opening text, .sendOpen => some ((goto (.changing text)).send uri text)
  | .changing text, .sendChange =>
    some (((goto (.waiting .tool)).send uri text).setDocuments (s.documents.nextDocVersion uri).2)
  | .waiting case, .poll =>
    (s.diagnostics.cache uri).map fun ps => goto (.answered (answerOf case call.before (some ps)))
  | .waiting case, .timeout =>
    some (goto (.answered (answerOf case call.before (s.diagnostics.cache uri))))
  | phase, .fail => if phase.fallible then some (goto (.answered .failed)) else none
  | _, _ => none

def step (s : State D) : Action D → Option (State D)
  | .start uri =>
    some { s.setCall s.nextCall ⟨uri, none, .capturing⟩ with nextCall := s.nextCall + 1 }
  | .call c a => (s.calls c).bind fun call => callStep s c call a
  | .editorOpen client uri =>
    let buffers := Function.update (s.buffers client) uri (some (s.disk uri))
    some (((s.setBuffers client buffers).send uri (s.disk uri)).setDocuments
      (s.documents.markEditorUriOpen uri client))
  | .editorChange client uri => (s.buffers client uri).map (s.send uri)
  | .editorSave client uri => (s.buffers client uri).map (s.setDisk uri)
  | .editorReload client uri =>
    (s.buffers client uri).map fun _ =>
      s.setBuffers client (Function.update (s.buffers client) uri (some (s.disk uri)))
  | .editorClose client uri =>
    some ((s.setBuffers client (Function.update (s.buffers client) uri none)).setDocuments
      (s.documents.markEditorUriClose uri client))
  | .disconnect client =>
    some ((s.setBuffers client fun _ => none).setDocuments (s.documents.unsubscribe client))
  | .publish uri child p =>
    if child < s.diagnostics.children ∧ (p.revision ∈ s.received uri ∨ p.revision = s.disk uri) then
      some (s.setDiagnostics (s.diagnostics.publish uri child p))
    else none
  | .auxEnds child =>
    if 0 < child then some (s.setDiagnostics (s.diagnostics.dropAuxParts child)) else none

/-- A session with so many servers, of which none has been sent anything. -/
def State.init (children : Nat) : State D :=
  ⟨0, fun _ => none, .empty children, .empty, fun _ => [], fun _ _ => none, fun _ => []⟩

/-! ## Staleness -/

/-- What AFTER is made of: publications, and each of a text with the edit. -/
def Answer.FreshFor (c : CallId) : Answer D → Prop
  | .report _ _ after => after ≠ [] ∧ ∀ p ∈ after, c ∈ p.revision
  | .failed | .notStabilised _ => True

/-- Every answer is fresh. -/
def NeverStale (s : State D) : Prop :=
  ∀ c call answer, s.calls c = some call → call.phase = .answered answer → answer.FreshFor c

/-- Has the call removed the cached diagnostics, without having its answer? -/
def Phase.sensitive : Phase D → Bool
  | .capturing | .captured | .answered _ => false
  | _ => true

def Phase.isHalfInvalidated : Phase D → Bool
  | .halfInvalidated => true
  | _ => false

/-- No analysis of a text without the edit of a call arrives between its invalidation
and its answer, and no auxiliary server ends between the halves of an invalidation. -/
def Undisturbed (s : State D) : Action D → Prop
  | .publish uri _ p => ∀ c < s.nextCall, ∀ call ∈ s.calls c,
      call.uri = uri → call.phase.sensitive → c ∈ p.revision
  | .auxEnds _ => ∀ c < s.nextCall, ∀ call ∈ s.calls c, call.phase.isHalfInvalidated = false
  | _ => True

instance (s : State D) : (a : Action D) → Decidable (Undisturbed s a)
  | .publish _ _ _ => inferInstanceAs (Decidable (∀ c < _, ∀ call ∈ s.calls c, _))
  | .auxEnds _ => inferInstanceAs (Decidable (∀ c < _, ∀ call ∈ s.calls c, _))
  | .start _ | .call _ _ | .editorOpen _ _ | .editorChange _ _ | .editorSave _ _
  | .editorReload _ _ | .editorClose _ _ | .disconnect _ => isTrue trivial

/-! ## The texts that exist -/

/-- Is the edit of the call still to be written? -/
def Phase.beforeWrite : Phase D → Bool
  | .capturing | .captured | .halfInvalidated | .invalidated | .flushing | .writing _ => true
  | _ => false

/-- The text that the call has read again and will send. -/
def Phase.text? : Phase D → Option Revision
  | .ensuring text | .opening text | .changing text => some text
  | _ => none

/-- The text is in a file, in a browser, at a server or in a call. -/
def State.Has (s : State D) (text : Revision) : Prop :=
  (∃ uri, s.disk uri = text) ∨ (∃ client uri, s.buffers client uri = some text) ∨
    (∃ uri, text ∈ s.received uri) ∨
    ∃ c call, s.calls c = some call ∧ call.phase.text? = some text

/-- The call has not started, or not written. -/
def Unwritten (s : State D) (c : CallId) : Prop :=
  ∀ call, s.calls c = some call → call.phase.beforeWrite = true

variable {s t : State D} {text : Revision} {uri : Uri} {c : CallId}

theorem has_disk (s : State D) (uri : Uri) : s.Has (s.disk uri) := .inl ⟨uri, rfl⟩

theorem has_send {new : Revision} (h : (s.send uri new).Has text) : s.Has text ∨ text = new := by
  rcases h with h | h | ⟨uri', h⟩ | h
  · exact .inl (.inl h)
  · exact .inl (.inr (.inl h))
  · by_cases heq : uri' = uri
    · subst heq
      simp only [State.send, Function.update_self, List.mem_cons] at h
      exact h.symm.imp_left fun h => .inr (.inr (.inl ⟨uri', h⟩))
    · simp only [State.send, Function.update_of_ne heq] at h
      exact .inl (.inr (.inr (.inl ⟨uri', h⟩)))
  · exact .inl (.inr (.inr (.inr h)))

theorem has_setDisk {new : Revision} (h : (s.setDisk uri new).Has text) :
    s.Has text ∨ text = new := by
  rcases h with ⟨uri', h⟩ | h
  · by_cases heq : uri' = uri
    · subst heq
      simp only [State.setDisk, Function.update_self] at h
      exact .inr h.symm
    · simp only [State.setDisk, Function.update_of_ne heq] at h
      exact .inl (.inl ⟨uri', h⟩)
  · exact .inl (.inr h)

theorem has_setBuffers {client : ClientId} {buffers : Uri → Option Revision}
    (h : (s.setBuffers client buffers).Has text) : s.Has text ∨ ∃ uri, buffers uri = some text := by
  rcases h with h | ⟨client', uri, h⟩ | h
  · exact .inl (.inl h)
  · by_cases heq : client' = client
    · subst heq
      simp only [State.setBuffers, Function.update_self] at h
      exact .inr ⟨uri, h⟩
    · simp only [State.setBuffers, Function.update_of_ne heq] at h
      exact .inl (.inr (.inl ⟨client', uri, h⟩))
  · exact .inl (.inr (.inr h))

theorem has_setCall {call : Call D} (h : (s.setCall c call).Has text) :
    s.Has text ∨ call.phase.text? = some text := by
  rcases h with h | h | h | ⟨c', call', hcall, h⟩
  · exact .inl (.inl h)
  · exact .inl (.inr (.inl h))
  · exact .inl (.inr (.inr (.inl h)))
  · by_cases heq : c' = c
    · subst heq
      simp only [State.setCall, Function.update_self, Option.some.injEq] at hcall
      exact .inr (hcall ▸ h)
    · simp only [State.setCall, Function.update_of_ne heq] at hcall
      exact .inl (.inr (.inr (.inr ⟨c', call', hcall, h⟩)))

/-! ## The invariant -/

/-- What a call relies on in its phase: after the first half of its invalidation
nothing is cached, and after the second half all that is kept includes its edit. -/
def Phase.Supported (d : Diagnostics (Publication D)) (c : CallId) (uri : Uri) : Phase D → Prop
  | .capturing | .captured => True
  | .halfInvalidated => d.cache uri = none
  | .answered answer => answer.FreshFor c
  | _ => Diagnostics.All (fun p => c ∈ p.revision) d uri

structure Inv (s : State D) : Prop where
  absent : ∀ c, s.nextCall ≤ c → s.calls c = none
  unwritten : ∀ c, Unwritten s c → ∀ text, s.Has text → c ∉ text
  supported : ∀ c call, s.calls c = some call → call.phase.Supported s.diagnostics c call.uri
  noEmptyEntry : s.diagnostics.NoEmptyEntry

theorem inv_init (children : Nat) : Inv (.init children : State D) where
  absent _ _ := rfl
  unwritten c _ text h := by
    have hnil : text = [] := by
      rcases h with ⟨uri, h⟩ | ⟨client, uri, h⟩ | ⟨uri, h⟩ | ⟨c, call, h, -⟩
      · exact h.symm
      · simp [State.init] at h
      · simp [State.init] at h
      · simp [State.init] at h
    simp [hnil]
  supported c call h := by simp [State.init] at h
  noEmptyEntry uri ps h := by simp [State.init, Diagnostics.empty] at h

theorem neverStale_of_inv (hs : Inv s) : NeverStale s := by
  intro c call answer hcall hphase
  have hsupported := hs.supported c call hcall
  rw [hphase] at hsupported
  exact hsupported

/-- Texts go from one place to another. -/
theorem Inv.withTexts (hs : Inv s) (hnext : t.nextCall = s.nextCall) (hcalls : t.calls = s.calls)
    (hdiagnostics : t.diagnostics = s.diagnostics)
    (htexts : ∀ c, Unwritten s c → ∀ text, t.Has text → c ∉ text) : Inv t where
  absent c hle := hcalls ▸ hs.absent c (hnext ▸ hle)
  unwritten c hc := htexts c fun call hcall => hc call (hcalls ▸ hcall)
  supported c call hcall := hdiagnostics ▸ hs.supported c call (hcalls ▸ hcall)
  noEmptyEntry := hdiagnostics ▸ hs.noEmptyEntry

theorem Phase.eq_halfInvalidated {phase : Phase D} (h : phase.isHalfInvalidated = true) :
    phase = .halfInvalidated := by
  cases phase with
  | halfInvalidated => rfl
  | _ => cases h

/-- A call keeps what it relies on when the cache stays empty where it was cleared, and all that is
kept still includes its edit where that was flushed. -/
theorem Phase.Supported.mono {phase : Phase D} {d d' : Diagnostics (Publication D)}
    (h : phase.Supported d c uri)
    (hcache : phase.isHalfInvalidated = true → d.cache uri = none → d'.cache uri = none)
    (hall : phase.sensitive = true → Diagnostics.All (fun p => c ∈ p.revision) d uri →
      Diagnostics.All (fun p => c ∈ p.revision) d' uri) : phase.Supported d' c uri := by
  cases phase with
  | capturing | captured => trivial
  | answered answer => exact h
  | halfInvalidated => exact hcache rfl h
  | invalidated | flushing | writing case | rereading | ensuring text | opening text
  | changing text | waiting case => exact hall rfl h

/-- The diagnostics change, and every call keeps what it relies on. -/
theorem Inv.withDiagnostics (hs : Inv s) {d : Diagnostics (Publication D)} (hd : d.NoEmptyEntry)
    (h : ∀ c call, s.calls c = some call → call.phase.Supported d c call.uri) :
    Inv (s.setDiagnostics d) where
  absent := hs.absent
  unwritten := hs.unwritten
  supported := h
  noEmptyEntry := hd

/-- One call goes to a phase that it is prepared for. -/
theorem Inv.setCall (hs : Inv s) {call call' : Call D} (hcall : s.calls c = some call)
    (hwrite : call'.phase.beforeWrite = true → call.phase.beforeWrite = true)
    (htext : ∀ text, call'.phase.text? = some text → s.Has text)
    (hsupported : call'.phase.Supported s.diagnostics c call'.uri) : Inv (s.setCall c call') where
  absent c' hle := by
    have hne : c' ≠ c := by
      rintro rfl
      simp [hs.absent _ hle] at hcall
    show Function.update s.calls c (some call') c' = none
    rw [Function.update_of_ne hne]
    exact hs.absent c' hle
  unwritten c' hc' text h := by
    have hold : Unwritten s c' := by
      intro call'' hcall''
      by_cases heq : c' = c
      · subst heq
        have hnew := hc' call' (by simp [State.setCall])
        rw [hcall, Option.some.injEq] at hcall''
        exact hcall'' ▸ hwrite hnew
      · exact hc' call'' (by simpa [State.setCall, Function.update_of_ne heq] using hcall'')
    exact hs.unwritten c' hold text ((has_setCall h).elim id (htext text))
  supported c' call'' hcall'' := by
    by_cases heq : c' = c
    · subst heq
      simp only [State.setCall, Function.update_self, Option.some.injEq] at hcall''
      exact hcall'' ▸ hsupported
    · simp only [State.setCall, Function.update_of_ne heq] at hcall''
      exact hs.supported c' call'' hcall''
  noEmptyEntry := hs.noEmptyEntry

/-! ## Steps of the environment -/

theorem Inv.send (hs : Inv s) {new : Revision} (hnew : s.Has new) (uri : Uri) :
    Inv (s.send uri new) :=
  hs.withTexts rfl rfl rfl fun c hc text h =>
    (has_send h).elim (hs.unwritten c hc text) fun heq => heq ▸ hs.unwritten c hc new hnew

theorem Inv.setBuffers (hs : Inv s) (client : ClientId) {buffers : Uri → Option Revision}
    (hbuffers : ∀ uri text, buffers uri = some text → s.Has text) :
    Inv (s.setBuffers client buffers) :=
  hs.withTexts rfl rfl rfl fun c hc text h =>
    (has_setBuffers h).elim (hs.unwritten c hc text) fun ⟨uri, huri⟩ =>
      hs.unwritten c hc text (hbuffers uri text huri)

theorem Inv.setDocuments (hs : Inv s) (d : Documents) : Inv (s.setDocuments d) :=
  hs.withTexts rfl rfl rfl hs.unwritten

/-- A buffer is filled from the disk or given up. -/
theorem has_of_update_buffer {client : ClientId} {new : Option Revision}
    (hnew : ∀ text, new = some text → s.Has text) (uri' : Uri) (text : Revision)
    (h : Function.update (s.buffers client) uri new uri' = some text) : s.Has text := by
  by_cases heq : uri' = uri
  · rw [heq, Function.update_self] at h
    exact hnew text h
  · rw [Function.update_of_ne heq] at h
    exact .inr (.inl ⟨client, uri', h⟩)

theorem inv_start (hs : Inv s) (uri : Uri) (h : step s (.start uri) = some t) : Inv t := by
  obtain rfl := Option.some.inj h
  have hfresh := hs.absent s.nextCall (Nat.le_refl _)
  refine ⟨?_, ?_, ?_, hs.noEmptyEntry⟩
  · intro c hle
    have hne : c ≠ s.nextCall := Nat.ne_of_gt hle
    show Function.update s.calls s.nextCall _ c = none
    rw [Function.update_of_ne hne]
    exact hs.absent c (Nat.le_of_succ_le hle)
  · intro c hc text htext
    refine hs.unwritten c (fun call hcall => ?_) text
      ((has_setCall htext).elim id fun htext => by simp [Phase.text?] at htext)
    have hne : c ≠ s.nextCall := by
      rintro rfl
      simp [hfresh] at hcall
    exact hc call (by simpa [State.setCall, Function.update_of_ne hne] using hcall)
  · intro c call hcall
    by_cases heq : c = s.nextCall
    · subst heq
      simp only [State.setCall, Function.update_self, Option.some.injEq] at hcall
      exact hcall ▸ trivial
    · simp only [State.setCall, Function.update_of_ne heq] at hcall
      exact hs.supported c call hcall

theorem inv_publish (hs : Inv s) {child : Nat} {p : Publication D}
    (hok : Undisturbed s (.publish uri child p)) (h : step s (.publish uri child p) = some t) :
    Inv t := by
  simp only [step, Option.ite_none_right_eq_some, Option.some.injEq] at h
  obtain ⟨⟨hchild, hknown⟩, rfl⟩ := h
  have hhas : s.Has p.revision :=
    hknown.elim (fun hmem => .inr (.inr (.inl ⟨uri, hmem⟩))) fun heq => .inl ⟨uri, heq.symm⟩
  refine hs.withDiagnostics (hs.noEmptyEntry.publish hchild uri p) fun c call hcall => ?_
  have hlt : c < s.nextCall := by
    by_contra hge
    simp [hs.absent c (Nat.le_of_not_lt hge)] at hcall
  have hincludes := hok c hlt call hcall
  apply (hs.supported c call hcall).mono
  · intro hhalf hnone
    have hphase := Phase.eq_halfInvalidated hhalf
    rw [hphase] at hincludes
    have hne : call.uri ≠ uri := by
      intro heq
      have hunwritten : Unwritten s c := by
        intro call' hcall'
        rw [hcall, Option.some.injEq] at hcall'
        rw [← hcall', hphase]
        rfl
      exact hs.unwritten c hunwritten p.revision hhas (hincludes heq rfl)
    show (s.diagnostics.publish uri child p).cache call.uri = none
    simp only [Diagnostics.publish, Function.update_of_ne hne]
    exact hnone
  · intro hsensitive hall
    exact hall.publish fun heq => hincludes heq.symm hsensitive

theorem inv_auxEnds (hs : Inv s) {child : Nat} (hok : Undisturbed s (.auxEnds child))
    (h : step s (.auxEnds child) = some t) : Inv t := by
  simp only [step, Option.ite_none_right_eq_some, Option.some.injEq] at h
  obtain ⟨-, rfl⟩ := h
  refine hs.withDiagnostics (hs.noEmptyEntry.dropAuxParts child) fun c call hcall => ?_
  have hlt : c < s.nextCall := by
    by_contra hge
    simp [hs.absent c (Nat.le_of_not_lt hge)] at hcall
  apply (hs.supported c call hcall).mono
  · intro hhalf
    have hwhole := hok c hlt call hcall
    rw [hhalf] at hwhole
    cases hwhole
  · intro _ hall
    exact hall.dropAuxParts child

/-! ## Steps of a call -/

/-- Something is removed, and every call keeps what it relies on. -/
theorem Inv.remove (hs : Inv s) {d : Diagnostics (Publication D)} (hd : d.NoEmptyEntry)
    (hcache : ∀ uri, s.diagnostics.cache uri = none → d.cache uri = none)
    (hall : ∀ (good : Publication D → Prop) uri, Diagnostics.All good s.diagnostics uri →
      Diagnostics.All good d uri) : Inv (s.setDiagnostics d) :=
  hs.withDiagnostics hd fun c call hcall => (hs.supported c call hcall).mono
    (fun _ => hcache call.uri) fun _ => hall _ call.uri

theorem Inv.removeCache (hs : Inv s) (uri : Uri) :
    Inv (s.setDiagnostics (s.diagnostics.removeCache uri)) := by
  refine hs.remove (hs.noEmptyEntry.removeCache uri) (fun uri' hnone => ?_)
    fun good uri' hall => hall.removeCache uri
  by_cases heq : uri' = uri
  · simp [Diagnostics.removeCache, heq]
  · simpa [Diagnostics.removeCache, Function.update_of_ne heq] using hnone

theorem Inv.removeParts (hs : Inv s) (uri : Uri) :
    Inv (s.setDiagnostics (s.diagnostics.removeParts uri)) :=
  hs.remove hs.noEmptyEntry (fun _ hnone => hnone) fun _ _ hall => hall.removeParts uri

/-- The answer is made of what is cached at that moment. -/
theorem freshFor_answerOf (hs : Inv s)
    (hall : Diagnostics.All (fun p => c ∈ p.revision) s.diagnostics uri) (case : Case)
    (before : Option (List (Publication D))) :
    (answerOf case before (s.diagnostics.cache uri)).FreshFor c := by
  cases hcache : s.diagnostics.cache uri with
  | none => trivial
  | some ps => exact ⟨hs.noEmptyEntry uri ps hcache, hall.cache ps hcache⟩

/-- The edit of a call gets into the file, and the call goes on. -/
theorem inv_write (hs : Inv s) {call call' : Call D} (hcall : s.calls c = some call)
    (hwritten : call'.phase.beforeWrite = false) (htext : call'.phase.text? = none)
    (hsupported : call'.phase.Supported s.diagnostics c call'.uri) (uri : Uri)
    {rest : Revision} (hrest : rest = [] ∨ rest = s.disk uri) :
    Inv ((s.setCall c call').setDisk uri (c :: rest)) := by
  have hgone : Inv (s.setCall c call') :=
    hs.setCall hcall (by simp [hwritten]) (by simp [htext]) hsupported
  refine hgone.withTexts rfl rfl rfl fun c' hc' text h => ?_
  rcases has_setDisk h with h | rfl
  · exact hgone.unwritten c' hc' text h
  · have hne : c' ≠ c := by
      rintro rfl
      have hbefore := hc' call' (by simp [State.setCall])
      simp [hwritten] at hbefore
    rcases hrest with rfl | rfl
    · simp [hne]
    · simp [hne, hgone.unwritten c' hc' (s.disk uri) (has_disk _ uri)]

/-- A text that a call holds. -/
theorem has_text {call : Call D} (hcall : s.calls c = some call)
    (htext : call.phase.text? = some text) : s.Has text :=
  .inr (.inr (.inr ⟨c, call, hcall, htext⟩))

theorem inv_callStep (hs : Inv s) {call : Call D} {a : CallAction} (hcall : s.calls c = some call)
    (h : callStep s c call a = some t) : Inv t := by
  have hsupported := hs.supported c call hcall
  obtain ⟨uri, before, phase⟩ := call
  simp only [callStep] at h
  split at h
  · obtain ⟨ps, -, rfl⟩ := Option.map_eq_some_iff.1 h
    exact hs.setCall hcall (fun _ => rfl) (by simp [Phase.text?]) trivial
  · obtain rfl := Option.some.inj h
    exact hs.setCall hcall (fun _ => rfl) (by simp [Phase.text?]) trivial
  · obtain rfl := Option.some.inj h
    have hcache : (s.diagnostics.removeCache uri).cache uri = none := by
      simp [Diagnostics.removeCache]
    exact (hs.removeCache uri).setCall hcall (fun _ => rfl) (by simp [Phase.text?]) hcache
  · obtain rfl := Option.some.inj h
    exact (hs.removeParts uri).setCall hcall (fun _ => rfl) (by simp [Phase.text?])
      (Diagnostics.All.of_removeParts hsupported)
  · obtain rfl := Option.some.inj h
    split_ifs
    · exact hs.setCall hcall (fun _ => rfl) (by simp [Phase.text?]) hsupported
    · exact hs.setCall hcall (fun _ => rfl) (by simp [Phase.text?]) hsupported
  · obtain rfl := Option.some.inj h
    exact hs.setCall hcall (fun _ => rfl) (by simp [Phase.text?]) hsupported
  next case overwrite =>
    obtain rfl := Option.some.inj h
    have hrest : (if overwrite = true then [] else s.disk uri) = [] ∨
        (if overwrite = true then [] else s.disk uri) = s.disk uri := by
      cases overwrite <;> simp
    cases case with
    | tool =>
        refine inv_write hs hcall ?_ ?_ ?_ uri hrest
        · rfl
        · rfl
        · exact hsupported
    | editor flushed =>
        refine inv_write hs hcall ?_ ?_ ?_ uri hrest
        · rfl
        · rfl
        · exact hsupported
  · obtain rfl := Option.some.inj h
    refine hs.setCall hcall (by simp [Phase.beforeWrite]) (fun text htext => ?_) hsupported
    rw [Phase.text?, Option.some.injEq] at htext
    exact htext ▸ has_disk s uri
  next text =>
    obtain rfl := Option.some.inj h
    have hhas := has_text hcall rfl
    refine Inv.setDocuments ?_ _
    split_ifs
    · exact hs.setCall hcall (by simp [Phase.beforeWrite]) (by simpa [Phase.text?] using hhas)
        hsupported
    · exact hs.setCall hcall (by simp [Phase.beforeWrite]) (by simpa [Phase.text?] using hhas)
        hsupported
  next text =>
    obtain rfl := Option.some.inj h
    have hhas := has_text hcall rfl
    have hsent := hs.send hhas uri
    exact hsent.setCall hcall (by simp [Phase.beforeWrite])
      (fun text' h => has_text hcall h) hsupported
  next text =>
    obtain rfl := Option.some.inj h
    have hsent := hs.send (has_text hcall rfl) uri
    refine Inv.setDocuments ?_ _
    exact hsent.setCall hcall (by simp [Phase.beforeWrite]) (by simp [Phase.text?]) hsupported
  next case =>
    obtain ⟨ps, hps, rfl⟩ := Option.map_eq_some_iff.1 h
    exact hs.setCall hcall (by simp [Phase.beforeWrite]) (by simp [Phase.text?])
      (hps ▸ freshFor_answerOf hs hsupported case before)
  next case =>
    obtain rfl := Option.some.inj h
    exact hs.setCall hcall (by simp [Phase.beforeWrite]) (by simp [Phase.text?])
      (freshFor_answerOf hs hsupported case before)
  · simp only [Option.ite_none_right_eq_some, Option.some.injEq] at h
    exact h.2 ▸ hs.setCall hcall (by simp [Phase.beforeWrite]) (by simp [Phase.text?]) trivial
  · simp at h

theorem inv_step {a : Action D} (hs : Inv s) (hok : Undisturbed s a) (h : step s a = some t) :
    Inv t := by
  cases a with
  | start uri => exact inv_start hs uri h
  | call c a =>
      obtain ⟨call, hcall, hnext⟩ := Option.bind_eq_some_iff.1 h
      exact inv_callStep hs hcall hnext
  | editorOpen client uri =>
      obtain rfl := Option.some.inj h
      have hsent := hs.send (has_disk s uri) uri
      refine Inv.setDocuments (hsent.setBuffers client fun uri' text htext => ?_) _
      exact has_of_update_buffer (fun text htext => Option.some.inj htext ▸ has_disk _ uri) uri' text
        htext
  | editorChange client uri =>
      obtain ⟨text, htext, rfl⟩ := Option.map_eq_some_iff.1 h
      exact hs.send (.inr (.inl ⟨client, uri, htext⟩)) uri
  | editorSave client uri =>
      obtain ⟨text, htext, rfl⟩ := Option.map_eq_some_iff.1 h
      exact hs.withTexts rfl rfl rfl fun c hc text' htext' =>
        (has_setDisk htext').elim (hs.unwritten c hc text') fun heq =>
          heq ▸ hs.unwritten c hc text (.inr (.inl ⟨client, uri, htext⟩))
  | editorReload client uri =>
      obtain ⟨text, -, rfl⟩ := Option.map_eq_some_iff.1 h
      exact hs.setBuffers client (has_of_update_buffer fun text htext =>
        Option.some.inj htext ▸ has_disk s uri)
  | editorClose client uri =>
      obtain rfl := Option.some.inj h
      exact (hs.setBuffers client (has_of_update_buffer (by simp))).setDocuments _
  | disconnect client =>
      obtain rfl := Option.some.inj h
      exact (hs.setBuffers client (by simp)).setDocuments _
  | publish uri child p => exact inv_publish hs hok h
  | auxEnds child => exact inv_auxEnds hs hok h

/-- No call reports a stale analysis, in a run in which no analysis of an older text
arrives between the invalidation of a call and its answer. -/
theorem neverStale_of_run {children : Nat} {as : List (Action D)}
    (h : Run step Undisturbed (.init children) as t) : NeverStale t :=
  neverStale_of_inv
    (h.invariant (inv_init children) fun _ _ _ hs hok hnext => inv_step hs hok hnext)

/-! ## A late analysis -/

def mainRs : Uri := "file:///ws/main.rs".toList

/-- A call that gets no publication up to its `didChange`. -/
def editOnce (c : CallId) (first : Bool) : List (Action Unit) :=
  [.start mainRs, .call c .timeout, .call c .removeCache, .call c .removeParts,
    .call c .chooseCase, .call c (.write false), .call c .reread, .call c .mark] ++
    (if first then [.call c .sendOpen] else []) ++ [.call c .sendChange]

/-- The analysis of the first edit arrives after the second one. -/
def lateAnalysis : List (Action Unit) :=
  editOnce 0 true ++ [.call 0 .timeout] ++ editOnce 1 false ++
    [.publish mainRs 0 ⟨[0], []⟩, .call 1 .poll]

/-- The second call reports the analysis of the first text as its own. -/
theorem late_analysis_is_taken : ∃ s : State Unit, Run step free (.init 1) lateAnalysis s ∧
    (s.calls 1).map (·.phase) = some (.answered (.report .tool none [⟨[0], []⟩])) ∧
    ¬ NeverStale s := by
  obtain ⟨s, hrun, htest⟩ : ∃ s : State Unit, Run step free (.init 1) lateAnalysis s ∧
      decide ((s.calls 1).map (·.phase) = some (.answered (.report .tool none [⟨[0], []⟩]))) =
        true := Run.exists_of_exec _ (by decide)
  have hphase := of_decide_eq_true htest
  refine ⟨s, hrun, hphase, fun hnever => ?_⟩
  obtain ⟨call, hcall, hanswered⟩ := Option.map_eq_some_iff.1 hphase
  have hfresh := (hnever 1 call _ hcall hanswered).2 ⟨[0], []⟩ (by simp)
  simp at hfresh

/-- The analysis of each edit arrives before the next call invalidates it.  A browser
has the file open at the second call. -/
def timelyAnalysis : List (Action Unit) :=
  editOnce 0 true ++ [.publish mainRs 0 ⟨[0], [()]⟩, .call 0 .poll] ++
    [.editorOpen 0 mainRs, .start mainRs, .call 1 .poll, .call 1 .removeCache,
      .call 1 .removeParts, .call 1 .chooseCase, .call 1 (.flushed true), .call 1 (.write false),
      .editorReload 0 mainRs, .editorChange 0 mainRs, .publish mainRs 0 ⟨[1, 0], []⟩,
      .call 1 .poll]

/-- Both calls report the analysis of their own text. -/
theorem neverStale_timelyAnalysis : ∃ s : State Unit,
    Run step Undisturbed (.init 1) timelyAnalysis s ∧
    (s.calls 1).map (·.phase) =
      some (.answered (.report (.editor true) (some [⟨[0], [()]⟩]) [⟨[1, 0], []⟩])) ∧
    NeverStale s := by
  obtain ⟨s, hrun, htest⟩ : ∃ s : State Unit,
      Run step Undisturbed (.init 1) timelyAnalysis s ∧
      decide ((s.calls 1).map (·.phase) =
        some (.answered (.report (.editor true) (some [⟨[0], [()]⟩]) [⟨[1, 0], []⟩]))) = true :=
    Run.exists_of_exec _ (by decide)
  exact ⟨s, hrun, of_decide_eq_true htest, neverStale_of_run hrun⟩

end Vanyline.Sandbox.EditAndCheck
