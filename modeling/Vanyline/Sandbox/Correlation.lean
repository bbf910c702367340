import Vanyline.Sandbox.Multiplexer

/-!
# Answers go to their own requests

The multiplexer rewrites the id of every request, and finds the request of an answer
by the id that comes back.  A language server may also send requests of its own, with
ids of its own choice, and the readers look at nothing but the id.

`Correlated` says that a client gets the answer to that very request under the id of
the request, and that a request which the primary has still to answer stays in
`pending`.  A request of the server that happens to carry a session id breaks both
(`correlation_fails`).  `correlated_of_run` proves them for the runs in which no
request of a server carries an id that is waiting for an answer (`NoClash`).

The invariant `Linked` ties everything that is on the way to the request it belongs
to.  There is one lemma for each kind of change, and the sections of the code are
put together from these.
-/

namespace Vanyline.Sandbox.Multiplexer

open Vanyline.Lib

variable {V : Type}

/-! ## The property -/

/-- The child has answered the request with this frame. -/
def Ledger.Answered (L : Ledger V) (r child : Nat) (f : Frame V) : Prop :=
  (r, child, f) ∈ L.responses

/-- What may be sent to the client as the answer to its request: the answer of the
primary, and where the request was copied, the error of the primary or a merge of
parts that are all answers to this request.  An item to resolve comes from its child
or goes back as it is. -/
inductive Genuine (cfg : Composite V) (L : Ledger V) (r : Nat) (req : Request V) :
    Frame V → Prop
  | response {f : Frame V} (answered : L.Answered r 0 f) : Genuine cfg L r req f
  | error {f : Frame V} {e : V} (copied : cfg.barrier req.method) (answered : L.Answered r 0 f)
      (error : f.error = some e) : Genuine cfg L r req (.ofError e)
  | merged (parts : List (Option V)) (copied : cfg.barrier req.method)
      (answered : ∀ v, some v ∈ parts → ∃ i f, L.Answered r i f ∧ f.part = some v) :
      Genuine cfg L r req (.ofResult (cfg.mergeResultFor (req.method.getD "") parts))
  | resolved {i : Nat} {f : Frame V} {v : V} (item : cfg.resolves req.method)
      (answered : L.Answered r i f) (result : f.result = some v) :
      Genuine cfg L r req (.ofResult v)
  | unresolved (item : cfg.resolves req.method) : Genuine cfg L r req (.ofResult req.params)

/-- The ticket is the one of its request. -/
def Ledger.Issued (L : Ledger V) (t : Ticket) (req : Request V) : Prop :=
  L.requests t.request = some req ∧ t = req.ticket t.request

def GenuineReply (cfg : Composite V) (L : Ledger V) (d : Reply V) : Prop :=
  ∃ req, L.Issued d.ticket req ∧ Genuine cfg L d.ticket.request req d.frame

/-- Clients get answers to their own requests, none of them a request of the server,
and `pending` keeps what the primary has not answered. -/
structure Correlated (cfg : Composite V) (s : LspSession V) : Prop where
  delivered : ∀ d ∈ s.delivered, d.frame.method = none ∧ GenuineReply cfg s.ledger d
  kept : ∀ sid r req, s.received sid = some r → s.ledger.requests r = some req →
    s.subs req.client = true → s.pending sid = some (req.ticket r)

/-- The id of a server's own request does not belong to a request that waits. -/
def NoClash (s : LspSession V) : Action V → Prop
  | .primaryRequest id _ =>
    (s.merges (castUnsigned id)).isNone ∧ (s.pending (castUnsigned id)).isNone
  | .auxRequest child id _ => ((s.aux child).pendingInternal (castUnsigned id)).isNone
  | _ => True

instance (s : LspSession V) : (a : Action V) → Decidable (NoClash s a)
  | .primaryRequest _ _ => inferInstanceAs (Decidable (_ = true ∧ _ = true))
  | .auxRequest _ _ _ => inferInstanceAs (Decidable (_ = true))
  | .subscribe | .unsubscribe _ | .purgePending _ | .purgeMerges _ | .purgeInternal _ _
  | .request _ | .route _ _ | .advance _ _ | .write _ | .primaryAnswer _ _ _ | .primaryEof
  | .killAux _ | .auxAnswer _ _ _ _ | .deal _ _ | .auxEof _ | .purgeAux _ | .ownRequest _ =>
    isTrue trivial

/-! ## The invariant -/

/-- The session id whose request is not sent yet. -/
def Pc.unsent : Pc → Option Nat
  | .counting sid _ _ | .sending sid _ => some sid
  | _ => none

/-- What the thread relies on. -/
def Errand.Supported (cfg : Composite V) (L : Ledger V) (r : Nat) : Errand → Prop
  | .resolve => ∀ req, L.requests r = some req → cfg.resolves req.method
  | .fanOut sid _ => L.sessionIds r = some sid

def Pc.Supported (cfg : Composite V) (L : Ledger V) (r : Nat) : Pc → Prop
  | .routing | .registering => L.sessionIds r = none
  | .counting sid _ _ | .sending sid (some _) =>
    L.sessionIds r = some sid ∧ ∀ req, L.requests r = some req → cfg.barrier req.method
  | .sending sid none | .completing sid => L.sessionIds r = some sid
  | .checking _ errand | .copying _ errand | .trying _ _ errand | .rechecking _ _ errand
  | .takingBack _ _ errand | .givingUp _ errand => errand.Supported cfg L r
  | .returned | .failed => True

/-- The ticket under a session id. -/
def Ledger.Holds (L : Ledger V) (sid : Nat) (t : Ticket) : Prop :=
  L.sessionIds t.request = some sid ∧ ∃ req, L.Issued t req

structure MergeLinked (cfg : Composite V) (L : Ledger V) (sid : Nat) (m : PendingMerge V) :
    Prop where
  sessionId : L.sessionIds m.ticket.request = some sid
  request : ∃ req, L.Issued m.ticket req ∧ cfg.barrier req.method ∧
    m.method = req.method.getD ""
  parts : ∀ i v, m.parts.lookup i = some (some v) →
    ∃ f, L.Answered m.ticket.request i f ∧ f.part = some v

/-- The request that a copy belongs to. -/
def InternalPending.request : InternalPending V → Nat
  | .clientMerge _ r => r
  | .clientResolve ticket _ => ticket.request

def InternalPending.Linked (cfg : Composite V) (L : Ledger V) : InternalPending V → Prop
  | .clientMerge sid r => L.sessionIds r = some sid
  | .clientResolve ticket item => ∃ req, L.Issued ticket req ∧ item = req.params ∧
      cfg.resolves req.method

structure Linked (cfg : Composite V) (s : LspSession V) : Prop where
  clients : ∀ r req, s.ledger.requests r = some req → req.client < s.nextClient
  subs : ∀ c, s.subs c = true → c < s.nextClient
  requests : ∀ r, s.ledger.nextRequest ≤ r → s.ledger.requests r = none
  sessionIds : ∀ r sid, s.ledger.sessionIds r = some sid →
    sid < s.nextReq ∧ s.ledger.requests r ≠ none
  injective : ∀ r r' sid, s.ledger.sessionIds r = some sid → s.ledger.sessionIds r' = some sid →
    r = r'
  senders : ∀ r, (s.senders r).Supported cfg s.ledger r
  pending : ∀ sid t, s.pending sid = some t → s.ledger.Holds sid t
  merges : ∀ sid m, s.merges sid = some m → MergeLinked cfg s.ledger sid m
  received : ∀ sid r, s.received sid = some r →
    s.ledger.sessionIds r = some sid ∧ (s.senders r).unsent = none
  awaiting : ∀ sid r req, s.received sid = some r ∨ (s.senders r).unsent = some sid →
    s.ledger.requests r = some req → s.subs req.client = true →
    s.pending sid = some (req.ticket r)
  internal : ∀ child id e, (s.aux child).pendingInternal id = some e → e.Linked cfg s.ledger
  taken : ∀ child id e answer, (s.aux child).taken id = some (e, answer) →
    e.Linked cfg s.ledger ∧ ∀ f, answer = some f → s.ledger.Answered e.request child f
  outgoing : ∀ d ∈ s.outgoing, GenuineReply cfg s.ledger d
  delivered : ∀ d ∈ s.delivered, GenuineReply cfg s.ledger d
  responses : ∀ r child f, s.ledger.Answered r child f → f.method = none

variable {cfg : Composite V} {s t : LspSession V} {r sid child id : Nat} {req : Request V}

theorem linked_init : Linked cfg (.init : LspSession V) where
  clients r req h := by simp [LspSession.init] at h
  subs c h := by simp [LspSession.init] at h
  requests _ _ := rfl
  sessionIds r sid h := by simp [LspSession.init] at h
  injective r r' sid h := by simp [LspSession.init] at h
  senders _ := trivial
  pending sid t h := by simp [LspSession.init] at h
  merges sid m h := by simp [LspSession.init] at h
  received sid r h := by simp [LspSession.init] at h
  awaiting sid r req h := by simp [LspSession.init, Pc.unsent] at h
  internal child id e h := by simp [LspSession.init] at h
  taken child id e answer h := by simp [LspSession.init] at h
  outgoing d h := by simp [LspSession.init] at h
  delivered d h := by simp [LspSession.init] at h
  responses r child f h := by simp [LspSession.init, Ledger.Answered] at h

/-- Only answers are delivered. -/
theorem Genuine.method_eq_none {L : Ledger V} {f : Frame V}
    (hresponses : ∀ r child f, L.Answered r child f → f.method = none)
    (h : Genuine cfg L r req f) : f.method = none := by
  cases h with
  | response answered => exact hresponses _ _ _ answered
  | error | merged | resolved | unresolved => rfl

theorem correlated_of_linked (hs : Linked cfg s) : Correlated cfg s where
  delivered d hd := by
    obtain ⟨req, hissued, hframe⟩ := hs.delivered d hd
    exact ⟨hframe.method_eq_none hs.responses, req, hissued, hframe⟩
  kept sid r req hreceived := hs.awaiting sid r req (.inl hreceived)

/-! ## Kinds of change -/

/-- The thread of a request moves on. -/
theorem Linked.setSender (hs : Linked cfg s) {pc : Pc} (hpc : pc.Supported cfg s.ledger r)
    (hunsent : ∀ sid, pc.unsent = some sid → (s.senders r).unsent = some sid) :
    Linked cfg (s.setSender r pc) :=
  { hs with
    senders := fun r' => by
      by_cases heq : r' = r
      · subst heq
        simpa [LspSession.setSender] using hpc
      · simpa [LspSession.setSender, heq] using hs.senders r'
    received := fun sid r' hr' => by
      obtain ⟨hsid, hsent⟩ := hs.received sid r' hr'
      refine ⟨hsid, ?_⟩
      by_cases heq : r' = r
      · subst heq
        cases hpc' : pc.unsent with
        | none => simpa [LspSession.setSender] using hpc'
        | some sid' =>
            rw [hunsent sid' hpc'] at hsent
            simp at hsent
      · simpa [LspSession.setSender, heq] using hsent
    awaiting := fun sid r' req hwait => by
      refine hs.awaiting sid r' req (hwait.imp id fun h => ?_)
      by_cases heq : r' = r
      · subst heq
        simp only [LspSession.setSender, Function.update_self] at h
        exact hunsent sid h
      · simpa [LspSession.setSender, heq] using h }

theorem Linked.post (hs : Linked cfg s) {d : Reply V} (hd : GenuineReply cfg s.ledger d) :
    Linked cfg (s.post d) :=
  { hs with
    outgoing := fun d' hd' => by
      rcases List.mem_append.1 hd' with hd' | hd'
      · exact hs.outgoing d' hd'
      · rw [List.mem_singleton.1 hd']
        exact hd }

theorem Linked.sendToClient (hs : Linked cfg s) {d : Reply V}
    (hd : GenuineReply cfg s.ledger d) : Linked cfg (s.sendToClient d) := by
  unfold LspSession.sendToClient
  split
  · exact { hs with
      delivered := fun d' hd' => by
        rcases List.mem_append.1 hd' with hd' | hd'
        · exact hs.delivered d' hd'
        · rw [List.mem_singleton.1 hd']
          exact hd }
  · exact hs

theorem Linked.setMerge (hs : Linked cfg s) {m : Option (PendingMerge V)}
    (hm : ∀ m', m = some m' → MergeLinked cfg s.ledger sid m') :
    Linked cfg (s.setMerge sid m) :=
  { hs with
    merges := fun sid' m' hm' => by
      by_cases heq : sid' = sid
      · subst heq
        simp only [LspSession.setMerge, Function.update_self] at hm'
        exact hm m' hm'
      · exact hs.merges sid' m' (by simpa [LspSession.setMerge, heq] using hm') }

/-- An entry of `pending` that nobody waits for goes. -/
theorem Linked.removePending (hs : Linked cfg s)
    (hfree : ∀ r, s.received sid ≠ some r ∧ (s.senders r).unsent ≠ some sid) :
    Linked cfg (s.removePending sid) :=
  { hs with
    pending := fun sid' t ht => by
      by_cases heq : sid' = sid
      · simp [LspSession.removePending, heq] at ht
      · exact hs.pending sid' t (by simpa [LspSession.removePending, heq] using ht)
    awaiting := fun sid' r req hwait hreq hsub => by
      have hne : sid' ≠ sid := by
        rintro rfl
        rcases hwait with h | h
        · exact (hfree r).1 h
        · exact (hfree r).2 h
      have hold := hs.awaiting sid' r req hwait hreq hsub
      simpa [LspSession.removePending, hne] using hold }

theorem Linked.setAux (hs : Linked cfg s) {a : AuxChild V}
    (hinternal : ∀ id e, a.pendingInternal id = some e → e.Linked cfg s.ledger)
    (htaken : ∀ id e answer, a.taken id = some (e, answer) →
      e.Linked cfg s.ledger ∧ ∀ f, answer = some f → s.ledger.Answered e.request child f) :
    Linked cfg (s.setAux child a) :=
  { hs with
    internal := fun child' id e he => by
      by_cases heq : child' = child
      · subst heq
        exact hinternal id e (by simpa [LspSession.setAux] using he)
      · exact hs.internal child' id e (by simpa [LspSession.setAux, heq] using he)
    taken := fun child' id e answer he => by
      by_cases heq : child' = child
      · subst heq
        exact htaken id e answer (by simpa [LspSession.setAux] using he)
      · exact hs.taken child' id e answer (by simpa [LspSession.setAux, heq] using he) }

theorem answered_log {r' c : Nat} {f f' : Frame V} :
    (s.log r child f).ledger.Answered r' c f' ↔
      s.ledger.Answered r' c f' ∨ r' = r ∧ c = child ∧ f' = f := by
  simp [LspSession.log, Ledger.Answered]

theorem Genuine.log {f f' : Frame V} {r' : Nat} (h : Genuine cfg s.ledger r' req f') :
    Genuine cfg (s.log r child f).ledger r' req f' := by
  cases h with
  | response answered => exact .response (answered_log.2 (.inl answered))
  | error copied answered error => exact .error copied (answered_log.2 (.inl answered)) error
  | merged parts copied answered =>
      refine .merged parts copied fun v hv => ?_
      obtain ⟨i, f, hf, hpart⟩ := answered v hv
      exact ⟨i, f, answered_log.2 (.inl hf), hpart⟩
  | resolved item answered result => exact .resolved item (answered_log.2 (.inl answered)) result
  | unresolved item => exact .unresolved item

/-- A server answers. -/
theorem Linked.log (hs : Linked cfg s) {f : Frame V} (hf : f.method = none) :
    Linked cfg (s.log r child f) :=
  { hs with
    merges := fun sid m hm => by
      have hold := hs.merges sid m hm
      refine { hold with parts := fun i v hi => ?_ }
      obtain ⟨f', hf', hpart⟩ := hold.parts i v hi
      exact ⟨f', answered_log.2 (.inl hf'), hpart⟩
    taken := fun child' id e answer he => by
      obtain ⟨hlinked, hanswered⟩ := hs.taken child' id e answer he
      exact ⟨hlinked, fun f' hf' => answered_log.2 (.inl (hanswered f' hf'))⟩
    outgoing := fun d hd => by
      obtain ⟨req, hissued, hframe⟩ := hs.outgoing d hd
      exact ⟨req, hissued, hframe.log⟩
    delivered := fun d hd => by
      obtain ⟨req, hissued, hframe⟩ := hs.delivered d hd
      exact ⟨req, hissued, hframe.log⟩
    responses := fun r' c f' hf' => by
      rcases answered_log.1 hf' with h | ⟨-, -, rfl⟩
      · exact hs.responses r' c f' h
      · exact hf }

/-! ## Barriers and readers -/

/-- What a full barrier merges are parts that came. -/
theorem Gather.mem_parts_of_mem_values {g : Gather Nat (Option V)} {v : Option V}
    (h : v ∈ g.values) : ∃ i, g.parts.lookup i = some v := by
  obtain ⟨i, -, hi⟩ := List.mem_filterMap.1 h
  exact ⟨i, hi⟩

theorem Linked.settleMerge (hs : Linked cfg s) {m : PendingMerge V}
    (hm : MergeLinked cfg s.ledger sid m) : Linked cfg (s.settleMerge cfg sid m) := by
  unfold LspSession.settleMerge
  split
  · obtain ⟨req, hissued, hcopied, hmethod⟩ := hm.request
    refine (hs.setMerge (by simp)).post ⟨req, hissued, ?_⟩
    show Genuine cfg s.ledger _ req (.ofResult (cfg.mergeResultFor m.method m.values))
    rw [hmethod]
    refine .merged m.values hcopied fun v hv => ?_
    obtain ⟨i, hi⟩ := Gather.mem_parts_of_mem_values hv
    obtain ⟨f, hf, hpart⟩ := hm.parts i v hi
    exact ⟨i, f, hf, hpart⟩
  · exact hs.setMerge fun m' hm' => Option.some.inj hm' ▸ hm

/-- A part comes, from an answer to the request of the barrier. -/
theorem Linked.insertMergePart (hs : Linked cfg s) {part : Option V}
    (hpart : ∀ v m, part = some v → s.merges sid = some m →
      ∃ f, s.ledger.Answered m.ticket.request child f ∧ f.part = some v) :
    Linked cfg (s.insertMergePart cfg child sid part) := by
  unfold LspSession.insertMergePart
  split
  next => exact hs
  next m hm =>
    have hold := hs.merges sid m hm
    refine hs.settleMerge { hold with parts := fun i v hi => ?_ }
    by_cases heq : i = child
    · subst heq
      rw [Gather.lookup_add, Option.some.injEq] at hi
      exact hpart v m hi hm
    · rw [Gather.lookup_add_ne heq] at hi
      exact hold.parts i v hi

theorem Linked.tryCompleteMerge (hs : Linked cfg s) :
    Linked cfg (s.tryCompleteMerge cfg sid) := by
  unfold LspSession.tryCompleteMerge
  split
  next => exact hs
  next m hm => exact hs.settleMerge (hs.merges sid m hm)

theorem Linked.abandonMergeExpectation (hs : Linked cfg s) :
    Linked cfg (s.abandonMergeExpectation sid) := by
  unfold LspSession.abandonMergeExpectation
  split
  next => exact hs
  next m hm =>
    have hold := hs.merges sid m hm
    exact hs.setMerge fun m' hm' => Option.some.inj hm' ▸ { hold with parts := hold.parts }

/-- The primary has answered the request of a session id that nobody waits for any
more. -/
theorem Linked.readPrimary (hs : Linked cfg s) {f : Frame V}
    (hsid : s.ledger.sessionIds r = some sid) (hf : s.ledger.Answered r 0 f)
    (hfree : ∀ r, s.received sid ≠ some r ∧ (s.senders r).unsent ≠ some sid) :
    Linked cfg (s.readPrimary cfg sid f) := by
  have hremoved := hs.removePending hfree
  unfold LspSession.readPrimary
  split
  next m hm =>
    have hmerge := hs.merges sid m hm
    obtain rfl := hs.injective _ _ _ hmerge.sessionId hsid
    split
    next e he =>
      obtain ⟨req, hissued, hcopied, -⟩ := hmerge.request
      refine (hremoved.setMerge (by simp)).post ⟨req, hissued, ?_⟩
      exact .error hcopied hf he
    next he =>
      refine hremoved.insertMergePart fun v m' hv hm' => ?_
      obtain rfl : m' = m := by
        rw [show (s.removePending sid).merges sid = s.merges sid from rfl, hm] at hm'
        exact (Option.some.inj hm').symm
      exact ⟨f, hf, by simpa [Frame.part, he] using hv⟩
  next =>
    split
    next ticket hticket =>
      obtain ⟨hticketSid, req, hissued⟩ := hs.pending sid ticket hticket
      obtain rfl := hs.injective _ _ _ hticketSid hsid
      exact hremoved.sendToClient ⟨req, hissued, .response hf⟩
    next => exact hs

/-- The reader of an auxiliary deals with a copy. -/
theorem Linked.deal (hs : Linked cfg s) {e : InternalPending V} {answer : Option (Frame V)}
    (he : e.Linked cfg s.ledger)
    (hanswer : ∀ f, answer = some f → s.ledger.Answered e.request child f) :
    Linked cfg (s.deal cfg child e answer) := by
  cases e with
  | clientMerge sid r =>
      refine hs.insertMergePart fun v m hv hm => ?_
      obtain ⟨f, hf, hpart⟩ := Option.bind_eq_some_iff.1 hv
      obtain rfl := hs.injective _ _ _ (hs.merges sid m hm).sessionId he
      exact ⟨f, hanswer f hf, hpart⟩
  | clientResolve ticket item =>
      obtain ⟨req, hissued, rfl, hresolves⟩ := he
      refine hs.sendToClient ⟨req, hissued, ?_⟩
      show Genuine cfg s.ledger ticket.request req
        (.ofResult ((answer.bind Frame.result).getD req.params))
      cases hresult : answer.bind Frame.result with
      | none => exact .unresolved hresolves
      | some v =>
          obtain ⟨f, hf, hv⟩ := Option.bind_eq_some_iff.1 hresult
          exact .resolved hresolves (hanswer f hf) hv

/-! ## Requests and session ids -/

/-- What a thread relies on is what the ledger knows of its own request. -/
theorem Pc.Supported.congr {L L' : Ledger V} {pc : Pc} (h : pc.Supported cfg L r)
    (hrequests : L'.requests r = L.requests r) (hsid : L'.sessionIds r = L.sessionIds r) :
    pc.Supported cfg L' r := by
  cases pc <;>
    simp only [Pc.Supported, Errand.Supported, hrequests, hsid] at h ⊢
  case sending sid targets => cases targets <;> simpa [Pc.Supported, hrequests, hsid] using h
  case checking errand | copying errand | trying errand | rechecking errand | takingBack errand
      | givingUp errand =>
    cases errand <;> simpa [Errand.Supported, hrequests, hsid] using h
  all_goals exact h

/-- The ledger has grown. -/
structure Ledger.Grown (L L' : Ledger V) : Prop where
  requests : ∀ r req, L.requests r = some req → L'.requests r = some req
  sessionIds : ∀ r sid, L.sessionIds r = some sid → L'.sessionIds r = some sid
  responses : L'.responses = L.responses

namespace Ledger.Grown

variable {L L' : Ledger V} (hgrown : L.Grown L')
include hgrown

theorem issued {t : Ticket} (h : L.Issued t req) : L'.Issued t req :=
  ⟨hgrown.requests _ _ h.1, h.2⟩

theorem holds {t : Ticket} (h : L.Holds sid t) : L'.Holds sid t := by
  obtain ⟨hsid, req, hissued⟩ := h
  exact ⟨hgrown.sessionIds _ _ hsid, req, hgrown.issued hissued⟩

theorem answered {child : Nat} {f : Frame V} (h : L.Answered r child f) :
    L'.Answered r child f := by
  unfold Ledger.Answered
  rw [hgrown.responses]
  exact h

theorem genuine {f : Frame V} (h : Genuine cfg L r req f) : Genuine cfg L' r req f := by
  cases h with
  | response answered => exact .response (hgrown.answered answered)
  | error copied answered error => exact .error copied (hgrown.answered answered) error
  | merged parts copied answered =>
      refine .merged parts copied fun v hv => ?_
      obtain ⟨i, f, hf, hpart⟩ := answered v hv
      exact ⟨i, f, hgrown.answered hf, hpart⟩
  | resolved item answered result => exact .resolved item (hgrown.answered answered) result
  | unresolved item => exact .unresolved item

theorem genuineReply {d : Reply V} (h : GenuineReply cfg L d) : GenuineReply cfg L' d := by
  obtain ⟨req, hissued, hframe⟩ := h
  exact ⟨req, hgrown.issued hissued, hgrown.genuine hframe⟩

theorem mergeLinked {m : PendingMerge V} (h : MergeLinked cfg L sid m) :
    MergeLinked cfg L' sid m where
  sessionId := hgrown.sessionIds _ _ h.sessionId
  request := by
    obtain ⟨req, hissued, hrest⟩ := h.request
    exact ⟨req, hgrown.issued hissued, hrest⟩
  parts i v hi := by
    obtain ⟨f, hf, hpart⟩ := h.parts i v hi
    exact ⟨f, hgrown.answered hf, hpart⟩

theorem entryLinked {e : InternalPending V} (h : e.Linked cfg L) : e.Linked cfg L' := by
  cases e with
  | clientMerge sid r => exact hgrown.sessionIds _ _ h
  | clientResolve ticket item =>
      obtain ⟨req, hissued, hrest⟩ := h
      exact ⟨req, hgrown.issued hissued, hrest⟩

end Ledger.Grown

/-- A request that nobody knows has no session id. -/
theorem Linked.sessionIds_eq_none (hs : Linked cfg s) (h : s.ledger.requests r = none) :
    s.ledger.sessionIds r = none := by
  cases hsid : s.ledger.sessionIds r with
  | none => rfl
  | some sid => exact absurd h (hs.sessionIds r sid hsid).2

theorem linked_request (hs : Linked cfg s) (h : step cfg s (.request req) = some t) :
    Linked cfg t := by
  simp only [step, Option.ite_none_right_eq_some, Option.some.injEq] at h
  obtain ⟨hclient, rfl⟩ := h
  have hfresh : s.ledger.requests s.ledger.nextRequest = none :=
    hs.requests _ (Nat.le_refl _)
  have hgrown : s.ledger.Grown { s.ledger with
      nextRequest := s.ledger.nextRequest + 1
      requests := Function.update s.ledger.requests s.ledger.nextRequest (some req) } :=
    { requests := fun r req' hreq' => by
        have hne : r ≠ s.ledger.nextRequest := by
          rintro rfl
          simp [hfresh] at hreq'
        simpa [hne] using hreq'
      sessionIds := fun _ _ h => h
      responses := rfl }
  exact {
    clients := fun r req' hreq' => by
      by_cases heq : r = s.ledger.nextRequest
      · subst heq
        simp only [Function.update_self, Option.some.injEq] at hreq'
        exact hreq' ▸ hclient
      · exact hs.clients r req' (by simpa [heq] using hreq')
    subs := hs.subs
    requests := fun r hle => by
      have hne : r ≠ s.ledger.nextRequest := Nat.ne_of_gt hle
      simpa [hne] using hs.requests r (Nat.le_of_succ_le hle)
    sessionIds := fun r sid hsid => by
      obtain ⟨hlt, hreq⟩ := hs.sessionIds r sid hsid
      refine ⟨hlt, ?_⟩
      obtain ⟨req', hreq'⟩ := Option.ne_none_iff_exists'.1 hreq
      exact Option.ne_none_iff_exists'.2 ⟨req', hgrown.requests r req' hreq'⟩
    injective := hs.injective
    senders := fun r => by
      by_cases heq : r = s.ledger.nextRequest
      · subst heq
        simpa [LspSession.setSender, Pc.Supported] using hs.sessionIds_eq_none hfresh
      · have hold := hs.senders r
        simp only [LspSession.setSender, Function.update_of_ne heq]
        exact hold.congr (by simp [heq]) rfl
    pending := fun sid ticket hticket => hgrown.holds (hs.pending sid ticket hticket)
    merges := fun sid m hm => hgrown.mergeLinked (hs.merges sid m hm)
    received := fun sid r hr => by
      obtain ⟨hsid, hsent⟩ := hs.received sid r hr
      have hne : r ≠ s.ledger.nextRequest := by
        rintro rfl
        simp [hs.sessionIds_eq_none hfresh] at hsid
      exact ⟨hsid, by simpa [LspSession.setSender, hne] using hsent⟩
    awaiting := fun sid r req' hwait hreq' hsub => by
      by_cases heq : r = s.ledger.nextRequest
      · subst heq
        rcases hwait with h | h
        · have hsid := (hs.received sid _ h).1
          simp [hs.sessionIds_eq_none hfresh] at hsid
        · simp [LspSession.setSender, Pc.unsent] at h
      · refine hs.awaiting sid r req' ?_ (by simpa [heq] using hreq') hsub
        simpa [LspSession.setSender, heq] using hwait
    internal := fun child id e he => hgrown.entryLinked (hs.internal child id e he)
    taken := fun child id e answer he => by
      obtain ⟨hlinked, hanswered⟩ := hs.taken child id e answer he
      exact ⟨hgrown.entryLinked hlinked, hanswered⟩
    outgoing := fun d hd => hgrown.genuineReply (hs.outgoing d hd)
    delivered := fun d hd => hgrown.genuineReply (hs.delivered d hd)
    responses := hs.responses }

/-- A request draws its session id, once. -/
theorem Linked.register (hs : Linked cfg s) (hreq : s.ledger.requests r = some req)
    (hpc : s.senders r = .registering) : Linked cfg (s.register cfg r req) := by
  have hnone : s.ledger.sessionIds r = none := by
    have hold := hs.senders r
    rw [hpc] at hold
    exact hold
  have hgrown : s.ledger.Grown { s.ledger with
      sessionIds := Function.update s.ledger.sessionIds r (some s.nextReq) } :=
    { requests := fun _ _ h => h
      sessionIds := fun r' sid hsid => by
        have hne : r' ≠ r := by
          rintro rfl
          simp [hnone] at hsid
        simpa [hne] using hsid
      responses := rfl }
  -- the new session id was nobody's
  have hfresh : ∀ r', s.ledger.sessionIds r' ≠ some s.nextReq := fun r' hsid =>
    Nat.lt_irrefl _ (hs.sessionIds r' _ hsid).1
  have hunsent : (if cfg.barrier req.method then Pc.counting s.nextReq cfg.responders []
      else .sending s.nextReq none).unsent = some s.nextReq := by
    split <;> rfl
  exact {
    clients := hs.clients
    subs := hs.subs
    requests := hs.requests
    sessionIds := fun r' sid hsid => by
      by_cases heq : r' = r
      · subst heq
        simp only [LspSession.register, Function.update_self, Option.some.injEq] at hsid
        subst hsid
        exact ⟨Nat.lt_succ_self _, by simp [LspSession.register, LspSession.setSender, hreq]⟩
      · obtain ⟨hlt, hknown⟩ := hs.sessionIds r' sid (by
          simpa [LspSession.register, heq] using hsid)
        exact ⟨Nat.lt_succ_of_lt hlt, hknown⟩
    injective := fun r' r'' sid hr' hr'' => by
      simp only [LspSession.register] at hr' hr''
      by_cases heq : r' = r
      · by_cases heq' : r'' = r
        · rw [heq, heq']
        · subst heq
          simp only [Function.update_self, Option.some.injEq] at hr'
          rw [Function.update_of_ne heq', ← hr'] at hr''
          exact absurd hr'' (hfresh r'')
      · by_cases heq' : r'' = r
        · subst heq'
          simp only [Function.update_self, Option.some.injEq] at hr''
          rw [Function.update_of_ne heq, ← hr''] at hr'
          exact absurd hr' (hfresh r')
        · rw [Function.update_of_ne heq] at hr'
          rw [Function.update_of_ne heq'] at hr''
          exact hs.injective r' r'' sid hr' hr''
    senders := fun r' => by
      by_cases heq : r' = r
      · subst heq
        simp only [LspSession.register, LspSession.setSender, Function.update_self]
        split
        next hbarrier =>
          refine ⟨by simp, fun req' hreq' => ?_⟩
          rw [show s.ledger.requests r' = some req' from hreq', Option.some.injEq] at hreq
          exact hreq ▸ hbarrier
        next => simp [Pc.Supported]
      · simp only [LspSession.register, LspSession.setSender, Function.update_of_ne heq]
        exact (hs.senders r').congr rfl (by simp [heq])
    pending := fun sid ticket hticket => by
      by_cases heq : sid = s.nextReq
      · subst heq
        simp only [LspSession.register, Function.update_self, Option.some.injEq] at hticket
        subst hticket
        exact ⟨by simp [LspSession.register, Request.ticket], req, hreq, rfl⟩
      · exact hgrown.holds (hs.pending sid ticket (by
          simpa [LspSession.register, heq] using hticket))
    merges := fun sid m hm => hgrown.mergeLinked (hs.merges sid m hm)
    received := fun sid r' hr' => by
      obtain ⟨hsid, hsent⟩ := hs.received sid r' hr'
      have hne : r' ≠ r := by
        rintro rfl
        simp [hnone] at hsid
      exact ⟨hgrown.sessionIds _ _ hsid, by
        simpa [LspSession.register, LspSession.setSender, hne] using hsent⟩
    awaiting := fun sid r' req' hwait hreq' hsub => by
      by_cases heq : r' = r
      · subst heq
        rcases hwait with h | h
        · have hsid := (hs.received sid r' h).1
          simp [hnone] at hsid
        · simp only [LspSession.register, LspSession.setSender, Function.update_self,
            hunsent, Option.some.injEq] at h
          subst h
          rw [show s.ledger.requests r' = some req' from hreq', Option.some.injEq] at hreq
          simp [LspSession.register, hreq]
      · have hold := hs.awaiting sid r' req'
          (by simpa [LspSession.register, LspSession.setSender, heq] using hwait) hreq' hsub
        have hne : sid ≠ s.nextReq := by
          rintro rfl
          exact hfresh r' (hs.pending _ _ hold).1
        simpa [LspSession.register, hne] using hold
    internal := fun child id e he => hgrown.entryLinked (hs.internal child id e he)
    taken := fun child id e answer he => by
      obtain ⟨hlinked, hanswered⟩ := hs.taken child id e answer he
      exact ⟨hgrown.entryLinked hlinked, hanswered⟩
    outgoing := fun d hd => hgrown.genuineReply (hs.outgoing d hd)
    delivered := fun d hd => hgrown.genuineReply (hs.delivered d hd)
    responses := hs.responses }

/-! ## The thread of a request -/

/-- A resolve that nobody answers gives the item back as it is. -/
theorem genuineReply_unresolved {L : Ledger V} (hreq : L.requests r = some req)
    (hresolves : cfg.resolves req.method) :
    GenuineReply cfg L ⟨req.ticket r, .ofResult req.params⟩ :=
  ⟨req, ⟨hreq, rfl⟩, .unresolved hresolves⟩

theorem Linked.route (hs : Linked cfg s) (hreq : s.ledger.requests r = some req)
    (hpc : s.senders r = .routing) (owner : Option Nat) :
    Linked cfg (s.route cfg r req owner) := by
  have hnone : s.ledger.sessionIds r = none := by
    have hold := hs.senders r
    rw [hpc] at hold
    exact hold
  have hregistering : Linked cfg (s.setSender r .registering) :=
    hs.setSender hnone (by simp [Pc.unsent])
  have hreturned : Linked cfg (s.setSender r .returned) := hs.setSender trivial (by simp [Pc.unsent])
  unfold LspSession.route
  split
  next hresolves =>
    split
    next => exact hregistering
    next i =>
      split
      next =>
        refine hs.setSender (fun req' hreq' => ?_) (by simp [Pc.unsent])
        rw [hreq, Option.some.injEq] at hreq'
        exact hreq' ▸ hresolves
      next => exact hreturned.post (genuineReply_unresolved hreq hresolves)
    next => exact hreturned.post (genuineReply_unresolved hreq hresolves)
  next => exact hregistering

theorem Errand.Supported.next {L : Ledger V} {errand : Errand}
    (h : errand.Supported cfg L r) : errand.next.Supported cfg L r := by
  cases errand with
  | resolve => trivial
  | fanOut sid rest => cases rest <;> exact h

@[simp] theorem Errand.unsent_next (errand : Errand) : errand.next.unsent = none := by
  cases errand with
  | resolve => rfl
  | fanOut sid rest => cases rest <;> rfl

/-- The copy that a thread registers belongs to its request. -/
theorem Errand.Supported.entry {L : Ledger V} {errand : Errand}
    (h : errand.Supported cfg L r) (hreq : L.requests r = some req) :
    (errand.entry req r).Linked cfg L := by
  cases errand with
  | resolve => exact ⟨req, ⟨hreq, rfl⟩, rfl, h req hreq⟩
  | fanOut sid rest => exact h

/-- The request of a session id reaches the primary. -/
theorem Linked.send (hs : Linked cfg s) {targets : Option (List Nat)} {pc : Pc}
    (hpc : s.senders r = .sending sid targets) (hnext : pc.Supported cfg s.ledger r)
    (hunsent : pc.unsent = none) :
    Linked cfg { s.setSender r pc with received := Function.update s.received sid (some r) } := by
  have hsid : s.ledger.sessionIds r = some sid := by
    have hold := hs.senders r
    rw [hpc] at hold
    cases targets with
    | none => exact hold
    | some targets => exact hold.1
  have hmoved := hs.setSender hnext (by simp [hunsent])
  exact { hmoved with
    received := fun sid' r' hr' => by
      by_cases heq : sid' = sid
      · subst heq
        simp only [Function.update_self, Option.some.injEq] at hr'
        subst hr'
        exact ⟨hsid, by simpa [LspSession.setSender] using hunsent⟩
      · exact hmoved.received sid' r' (by simpa [LspSession.setSender, heq] using hr')
    awaiting := fun sid' r' req hwait hreq hsub => by
      rcases hwait with h | h
      · by_cases heq : sid' = sid
        · subst heq
          simp only [Function.update_self, Option.some.injEq] at h
          subst h
          exact hs.awaiting sid' r req (.inr (by simp [hpc, Pc.unsent])) hreq hsub
        · exact hs.awaiting sid' r' req (.inl (by simpa [heq] using h)) hreq hsub
      · exact hmoved.awaiting sid' r' req (.inr h) hreq hsub }

theorem linked_advance (hs : Linked cfg s) (hreq : s.ledger.requests r = some req) {ok : Bool}
    (h : s.advance cfg r req ok = some t) : Linked cfg t := by
  have hsupported := hs.senders r
  unfold LspSession.advance at h
  split at h
  next hpc => exact Option.some.inj h ▸ hs.register hreq hpc
  next sid i candidates targets hpc =>
    obtain rfl := Option.some.inj h
    rw [hpc] at hsupported
    exact hs.setSender hsupported (by simp [hpc, Pc.unsent])
  next sid targets hpc =>
    obtain rfl := Option.some.inj h
    rw [hpc] at hsupported
    have hsending : Linked cfg (s.setSender r (.sending sid (some targets))) :=
      hs.setSender hsupported (by simp [hpc, Pc.unsent])
    refine hsending.setMerge fun m hm => ?_
    obtain rfl := Option.some.inj hm
    exact {
      sessionId := hsupported.1
      request := ⟨req, ⟨hreq, rfl⟩, hsupported.2 req hreq, rfl⟩
      parts := fun i v hi => by
        simp only [Gather.start, AList.lookup_empty] at hi
        exact absurd hi (by simp) }
  next sid targets hpc =>
    rw [hpc] at hsupported
    split at h
    next targets' =>
      obtain rfl := Option.some.inj h
      have herrand : (Errand.fanOut sid targets').Supported cfg s.ledger r := hsupported.1
      exact hs.send hpc herrand.next (by simp)
    next => exact Option.some.inj h ▸ hs.send hpc trivial rfl
    next targets' =>
      obtain rfl := Option.some.inj h
      have hfailed : Linked cfg (s.setSender r .failed) :=
        hs.setSender trivial (by simp [Pc.unsent])
      exact hfailed.setMerge (by simp)
    next =>
      obtain rfl := Option.some.inj h
      exact hs.setSender trivial (by simp [Pc.unsent])
  next child errand hpc =>
    obtain rfl := Option.some.inj h
    rw [hpc] at hsupported
    refine hs.setSender ?_ ?_
    · split <;> exact hsupported
    · split <;> simp [Pc.unsent]
  next child errand hpc =>
    obtain rfl := Option.some.inj h
    rw [hpc] at hsupported
    have hmoved : Linked cfg (s.setSender r (.trying child (s.aux child).nextInternalReq errand)) :=
      hs.setSender hsupported (by simp [Pc.unsent])
    refine hmoved.setAux (fun id e he => ?_) (hs.taken child)
    by_cases heq : id = (s.aux child).nextInternalReq
    · subst heq
      simp only [AuxChild.register, Function.update_self, Option.some.injEq] at he
      exact he ▸ Errand.Supported.entry hsupported hreq
    · exact hs.internal child id e (by simpa [AuxChild.register, heq] using he)
  next child id errand hpc =>
    rw [hpc] at hsupported
    split at h
    next =>
      obtain rfl := Option.some.inj h
      have hmoved : Linked cfg (s.setSender r (.rechecking child id errand)) :=
        hs.setSender hsupported (by simp [Pc.unsent])
      exact hmoved.setAux (fun id => hs.internal child id) (fun id => hs.taken child id)
    next =>
      obtain rfl := Option.some.inj h
      exact hs.setSender hsupported (by simp [Pc.unsent])
  next child id errand hpc =>
    obtain rfl := Option.some.inj h
    rw [hpc] at hsupported
    refine hs.setSender ?_ ?_
    · split
      · exact Errand.Supported.next hsupported
      · exact hsupported
    · split
      · simp
      · simp [Pc.unsent]
  next child id errand hpc =>
    obtain rfl := Option.some.inj h
    rw [hpc] at hsupported
    have hmoved : Linked cfg (s.setSender r (.givingUp child errand)) :=
      hs.setSender hsupported (by simp [Pc.unsent])
    refine hmoved.setAux (fun id' e he => ?_) (hs.taken child)
    by_cases heq : id' = id
    · simp [AuxChild.takeBack, heq] at he
    · exact hs.internal child id' e (by simpa [AuxChild.takeBack, heq] using he)
  next child hpc =>
    obtain rfl := Option.some.inj h
    rw [hpc] at hsupported
    have hreturned : Linked cfg (s.setSender r .returned) :=
      hs.setSender trivial (by simp [Pc.unsent])
    exact hreturned.post (genuineReply_unresolved hreq (hsupported req hreq))
  next child sid rest hpc =>
    obtain rfl := Option.some.inj h
    rw [hpc] at hsupported
    have herrand : (Errand.fanOut sid rest).Supported cfg s.ledger r := hsupported
    exact (hs.setSender herrand.next (by simp)).abandonMergeExpectation
  next sid hpc =>
    obtain rfl := Option.some.inj h
    have hreturned : Linked cfg (s.setSender r .returned) :=
      hs.setSender trivial (by simp [Pc.unsent])
    exact hreturned.tryCompleteMerge
  all_goals simp at h

/-! ## Clients and readers -/

/-- Clients go. -/
theorem Linked.withdraw (hs : Linked cfg s) {subs : ClientId → Bool} (alive : Bool)
    (hsubs : ∀ c, subs c = true → s.subs c = true) :
    Linked cfg { s with subs := subs, alive := alive } :=
  { hs with
    subs := fun c hc => hs.subs c (hsubs c hc)
    awaiting := fun sid r req hwait hreq hsub =>
      hs.awaiting sid r req hwait hreq (hsubs _ hsub) }

theorem linked_subscribe (hs : Linked cfg s) (h : step cfg s .subscribe = some t) :
    Linked cfg t := by
  obtain rfl := Option.some.inj h
  exact { hs with
    clients := fun r req hreq => Nat.lt_succ_of_lt (hs.clients r req hreq)
    subs := fun c hc => by
      by_cases heq : c = s.nextClient
      · exact heq ▸ Nat.lt_succ_self _
      · exact Nat.lt_succ_of_lt (hs.subs c (by simpa [heq] using hc))
    awaiting := fun sid r req hwait hreq hsub => by
      -- the client of a request is older than the one that comes
      have hne : req.client ≠ s.nextClient := Nat.ne_of_lt (hs.clients r req hreq)
      exact hs.awaiting sid r req hwait hreq (by simpa [hne] using hsub) }

theorem linked_unsubscribe (hs : Linked cfg s) {c : ClientId}
    (h : step cfg s (.unsubscribe c) = some t) : Linked cfg t := by
  obtain rfl := Option.some.inj h
  refine hs.withdraw s.alive fun c' hc' => ?_
  by_cases heq : c' = c
  · simp [heq] at hc'
  · simpa [heq] using hc'

theorem linked_purgePending (hs : Linked cfg s) {c : ClientId}
    (h : step cfg s (.purgePending c) = some t) : Linked cfg t := by
  simp only [step] at h
  split at h
  next => simp at h
  next hgone =>
    obtain rfl := Option.some.inj h
    exact { hs with
      pending := fun sid ticket hticket =>
        hs.pending sid ticket (Option.filter_eq_some_iff.1 hticket).1
      awaiting := fun sid r req hwait hreq hsub => by
        have hold := hs.awaiting sid r req hwait hreq hsub
        have hne : req.client ≠ c := by
          rintro rfl
          exact hgone hsub
        exact Option.filter_eq_some_iff.2 ⟨hold, decide_eq_true hne⟩ }

theorem linked_purgeMerges (hs : Linked cfg s) {c : ClientId}
    (h : step cfg s (.purgeMerges c) = some t) : Linked cfg t := by
  simp only [step] at h
  split at h
  next => simp at h
  next =>
    obtain rfl := Option.some.inj h
    exact { hs with
      merges := fun sid m hm => hs.merges sid m (Option.filter_eq_some_iff.1 hm).1 }

theorem linked_purgeInternal (hs : Linked cfg s) {c : ClientId}
    (h : step cfg s (.purgeInternal c child) = some t) : Linked cfg t := by
  simp only [step] at h
  split at h
  next => simp at h
  next =>
    obtain rfl := Option.some.inj h
    exact hs.setAux
      (fun id e he => hs.internal child id e (Option.filter_eq_some_iff.1 he).1) (hs.taken child)

theorem linked_write (hs : Linked cfg s) {n : Nat} (h : step cfg s (.write n) = some t) :
    Linked cfg t := by
  obtain ⟨d, hd, rfl⟩ := Option.map_eq_some_iff.1 h
  have hrest : Linked cfg { s with outgoing := s.outgoing.eraseIdx n } :=
    { hs with outgoing := fun d' hd' => hs.outgoing d' (List.mem_of_mem_eraseIdx hd') }
  exact hrest.sendToClient (hs.outgoing d (List.mem_of_getElem? hd))

/-- The primary answers: the session id is free, and leads to the request. -/
theorem linked_primaryAnswer (hs : Linked cfg s) {result error : Option V}
    (h : step cfg s (.primaryAnswer sid result error) = some t) : Linked cfg t := by
  simp only [step, Option.ite_none_right_eq_some] at h
  obtain ⟨-, h⟩ := h
  obtain ⟨r, hr, rfl⟩ := Option.map_eq_some_iff.1 h
  obtain ⟨hsid, hsent⟩ := hs.received sid r hr
  have hlogged : Linked cfg (s.log r 0 ⟨none, result, error⟩) := hs.log rfl
  have hanswered : Linked cfg { s.log r 0 ⟨none, result, error⟩ with
      received := Function.update s.received sid none } :=
    { hlogged with
      received := fun sid' r' hr' => by
        by_cases heq : sid' = sid
        · simp [heq] at hr'
        · have hold : s.received sid' = some r' := by simpa [heq] using hr'
          exact hlogged.received sid' r' hold
      awaiting := fun sid' r' req hwait hreq hsub => by
        refine hlogged.awaiting sid' r' req (hwait.imp_left fun h => ?_) hreq hsub
        by_cases heq : sid' = sid
        · simp [heq] at h
        · have hold : s.received sid' = some r' := by simpa [heq] using h
          exact hold }
  refine hanswered.readPrimary hsid (answered_log.2 (.inr ⟨rfl, rfl, rfl⟩)) fun r' => ?_
  refine ⟨by simp, fun h => ?_⟩
  have hr' : s.ledger.sessionIds r' = some sid := by
    have hold := hs.senders r'
    have hunsent : (s.senders r').unsent = some sid := h
    cases hpc : s.senders r' with
    | counting sid' candidates targets =>
        simp only [hpc, Pc.unsent, Option.some.injEq] at hunsent
        rw [hpc] at hold
        exact hunsent ▸ hold.1
    | sending sid' targets =>
        simp only [hpc, Pc.unsent, Option.some.injEq] at hunsent
        rw [hpc] at hold
        subst hunsent
        cases targets with
        | none => exact hold
        | some targets => exact hold.1
    | _ => simp [hpc, Pc.unsent] at hunsent
  obtain rfl := hs.injective _ _ _ hr' hsid
  have hunsent : (s.senders r').unsent = some sid := h
  simp [hsent] at hunsent

theorem linked_primaryRequest (hs : Linked cfg s) {i : Int} {method : String}
    (hok : NoClash s (.primaryRequest i method))
    (h : step cfg s (.primaryRequest i method) = some t) : Linked cfg t := by
  obtain ⟨hmerge, hpending⟩ := hok
  rw [Option.isNone_iff_eq_none] at hmerge hpending
  simp only [step, Option.ite_none_right_eq_some, Option.some.injEq] at h
  obtain ⟨-, rfl⟩ := h
  simpa [LspSession.readPrimary, hmerge, hpending] using hs

theorem linked_auxAnswer (hs : Linked cfg s) {result error : Option V}
    (h : step cfg s (.auxAnswer child id result error) = some t) : Linked cfg t := by
  simp only [step, Option.ite_none_right_eq_some] at h
  obtain ⟨-, h⟩ := h
  split at h
  next e he =>
    have hlinked := hs.internal child id e he
    -- the answer is logged first, and then the copy is taken
    have htaken : Linked cfg ((s.log e.request child ⟨none, result, error⟩).setAux child
        (AuxChild.take { s.aux child with
          received := Function.update (s.aux child).received id false } id e
          ⟨none, result, error⟩)) := by
      have hlogged : Linked cfg (s.log e.request child ⟨none, result, error⟩) := hs.log rfl
      refine hlogged.setAux (fun id' e' he' => ?_) fun id' e' answer he' => ?_
      · by_cases heq : id' = id
        · simp [AuxChild.take, heq] at he'
        · have hold : (s.aux child).pendingInternal id' = some e' := by
            simpa [AuxChild.take, heq] using he'
          exact hlogged.internal child id' e' hold
      · by_cases heq : id' = id
        · subst heq
          simp only [AuxChild.take, Function.update_self, Option.some.injEq, Prod.mk.injEq] at he'
          obtain ⟨rfl, rfl⟩ := he'
          refine ⟨hlinked, fun f hf => ?_⟩
          exact answered_log.2 (.inr ⟨rfl, rfl, (Option.some.inj hf).symm⟩)
        · have hold : (s.aux child).taken id' = some (e', answer) := by
            simpa [AuxChild.take, heq] using he'
          exact hlogged.taken child id' e' answer hold
    cases e with
    | clientMerge sid r => exact Option.some.inj h ▸ htaken
    | clientResolve ticket item => exact Option.some.inj h ▸ htaken
  next =>
    obtain rfl := Option.some.inj h
    exact hs.setAux (hs.internal child) (hs.taken child)

theorem linked_auxRequest (hs : Linked cfg s) {i : Int} {method : String}
    (hok : NoClash s (.auxRequest child i method))
    (h : step cfg s (.auxRequest child i method) = some t) : Linked cfg t := by
  have hnone := Option.isNone_iff_eq_none.1 hok
  simp only [step, Option.ite_none_right_eq_some] at h
  obtain ⟨-, h⟩ := h
  rw [hnone] at h
  exact Option.some.inj h ▸ hs

theorem linked_deal (hs : Linked cfg s) (h : step cfg s (.deal child id) = some t) :
    Linked cfg t := by
  obtain ⟨⟨e, answer⟩, he, rfl⟩ := Option.map_eq_some_iff.1 h
  obtain ⟨hlinked, hanswered⟩ := hs.taken child id e answer he
  have hdropped : Linked cfg (s.setAux child ((s.aux child).drop id)) := by
    refine hs.setAux (hs.internal child) fun id' e' answer' he' => ?_
    by_cases heq : id' = id
    · simp [AuxChild.drop, heq] at he'
    · exact hs.taken child id' e' answer' (by simpa [AuxChild.drop, heq] using he')
  exact hdropped.deal hlinked hanswered

theorem linked_purgeAux (hs : Linked cfg s) (h : step cfg s (.purgeAux child) = some t) :
    Linked cfg t := by
  simp only [step, Option.ite_none_right_eq_some, Option.some.injEq] at h
  obtain ⟨-, rfl⟩ := h
  refine hs.setAux (fun id e he => by simp [AuxChild.purge] at he) fun id e answer he => ?_
  simp only [AuxChild.purge] at he
  split at he
  next e' he' =>
    simp only [Option.some.injEq, Prod.mk.injEq] at he
    obtain ⟨rfl, rfl⟩ := he
    exact ⟨hs.internal child id e' he', by simp⟩
  next => exact hs.taken child id e answer he

theorem linked_step {a : Action V} (hs : Linked cfg s) (hok : NoClash s a)
    (h : step cfg s a = some t) : Linked cfg t := by
  cases a with
  | subscribe => exact linked_subscribe hs h
  | unsubscribe c => exact linked_unsubscribe hs h
  | purgePending c => exact linked_purgePending hs h
  | purgeMerges c => exact linked_purgeMerges hs h
  | purgeInternal c child => exact linked_purgeInternal hs h
  | request req => exact linked_request hs h
  | route r owner =>
      simp only [step] at h
      split at h
      next req hreq hpc => exact Option.some.inj h ▸ hs.route hreq hpc owner
      next => simp at h
  | advance r ok =>
      obtain ⟨req, hreq, hadvance⟩ := Option.bind_eq_some_iff.1 h
      exact linked_advance hs hreq hadvance
  | write n => exact linked_write hs h
  | primaryAnswer sid result error => exact linked_primaryAnswer hs h
  | primaryRequest i method => exact linked_primaryRequest hs hok h
  | primaryEof =>
      simp only [step, Option.ite_none_right_eq_some, Option.some.injEq] at h
      obtain ⟨-, rfl⟩ := h
      exact hs.withdraw false (by simp)
  | killAux child =>
      simp only [step, Option.ite_none_left_eq_some, Option.some.injEq] at h
      obtain ⟨-, rfl⟩ := h
      exact hs.setAux (hs.internal child) (hs.taken child)
  | auxAnswer child id result error => exact linked_auxAnswer hs h
  | auxRequest child i method => exact linked_auxRequest hs hok h
  | deal child id => exact linked_deal hs h
  | auxEof child =>
      simp only [step, Option.ite_none_right_eq_some, Option.some.injEq] at h
      obtain ⟨-, rfl⟩ := h
      exact hs.setAux (hs.internal child) (hs.taken child)
  | purgeAux child => exact linked_purgeAux hs h
  | ownRequest child =>
      obtain rfl := Option.some.inj h
      exact hs.setAux (hs.internal child) (hs.taken child)

/-- Answers go to their own requests in every run without a clash of ids. -/
theorem correlated_of_run {as : List (Action V)} (h : Run (step cfg) NoClash .init as t) :
    Correlated cfg t := by
  have hlinked : Linked cfg t :=
    h.invariant linked_init fun _ _ _ hs hok hnext => linked_step hs hok hnext
  exact correlated_of_linked hlinked

/-! ## A request of the server with a session id -/

/-- One language server, and opaque values. -/
def mono : Composite Nat := ⟨[], fun _ _ => 0⟩

/-- A client asks under the id 7, and the server asks under the id 1. -/
def clashing : List (Action Nat) :=
  [.subscribe, .request ⟨1, 7, some "textDocument/hover", 0⟩, .route 0 none, .advance 0 true,
    .advance 0 true, .primaryRequest 1 "workspace/configuration"]

/-- The client gets the server's question as the answer to its own, which is not waited
for any more. -/
theorem correlation_fails : ∃ s : LspSession Nat, Run (step mono) free .init clashing s ∧
    s.delivered = [⟨⟨1, 7, 0⟩, .ofMethod "workspace/configuration"⟩] ∧
    s.received 1 = some 0 ∧ s.pending 1 = none ∧ ¬ Correlated mono s := by
  obtain ⟨s, hrun, htest⟩ : ∃ s : LspSession Nat, Run (step mono) free .init clashing s ∧
      decide (s.delivered = [⟨⟨1, 7, 0⟩, .ofMethod "workspace/configuration"⟩] ∧
        s.received 1 = some 0 ∧ s.pending 1 = none) = true := Run.exists_of_exec _ (by decide)
  obtain ⟨hdelivered, hreceived, hpending⟩ := of_decide_eq_true htest
  refine ⟨s, hrun, hdelivered, hreceived, hpending, fun hcorrelated => ?_⟩
  have hmethod := (hcorrelated.delivered _ (by rw [hdelivered]; exact List.mem_singleton_self _)).1
  simp [Frame.ofMethod] at hmethod

/-- A composite with one auxiliary that answers requests.  Its merge is the list of
results in a row of digits. -/
def pair : Composite Nat :=
  ⟨[.tsserverForward], fun _ parts => parts.foldl (fun n part => 10 * n + part.getD 0) 0⟩

/-- Two clients use the same id for different requests.  The servers answer, and ask
under ids that nobody waits for. -/
def distinct : List (Action Nat) :=
  [.subscribe, .subscribe, .request ⟨1, 7, some "textDocument/hover", 0⟩,
    .request ⟨2, 7, some "textDocument/formatting", 0⟩, .route 0 none, .route 1 none,
    .advance 1 true, .advance 0 true, .advance 1 true, .advance 0 true, .advance 0 true,
    .advance 0 true, .advance 0 true, .advance 0 true, .advance 0 true, .advance 0 true,
    .primaryRequest 3 "workspace/configuration", .auxRequest 1 2 "workspace/configuration",
    .primaryAnswer 2 (some 4) none, .auxAnswer 1 1 (some 5) none, .primaryAnswer 1 (some 6) none,
    .deal 1 1, .write 0]

theorem correlated_distinct : ∃ s : LspSession Nat, Run (step pair) NoClash .init distinct s ∧
    s.delivered = [⟨⟨2, 7, 1⟩, .ofResult 6⟩, ⟨⟨1, 7, 0⟩, .ofResult 45⟩] ∧
    Correlated pair s := by
  obtain ⟨s, hrun, htest⟩ : ∃ s : LspSession Nat, Run (step pair) NoClash .init distinct s ∧
      decide (s.delivered = [⟨⟨2, 7, 1⟩, .ofResult 6⟩, ⟨⟨1, 7, 0⟩, .ofResult 45⟩]) = true :=
    Run.exists_of_exec _ (by decide)
  exact ⟨s, hrun, of_decide_eq_true htest, correlated_of_run hrun⟩

end Vanyline.Sandbox.Multiplexer
