import Mathlib.Data.List.Forall2
import Mathlib.Logic.Function.Basic
import Vanyline.Lib.Run
import Vanyline.Lib.TextLines

/-!
# Tickets for the WebSockets

A browser cannot send a header with the handshake of a WebSocket.  It asks for a ticket with the
token of the owner, and shows the ticket in the query of the handshake.

* `passed_own_ticket`: in every run, each handshake that passes has an issued ticket of its own.
  The claims are those of that ticket, and it was drawn less than 30 seconds before.
* `scrubTicketUri_blind`: the URI that is logged is the same for any other ticket.

The ticket that is drawn is left to the environment: the code draws 32 random characters, and
does not look whether they are in use.
-/

namespace Vanyline.Sandbox.WsTickets

open Vanyline.Lib
open Vanyline.Lib.TextLines (Text splitOnce splitOnce_append splitOnce_eq_some)

/-! ## The store -/

structure TicketClaims where
  subject : Text
  deriving DecidableEq

inductive WsAuthError
  | missingTicket
  | invalidTicket
  deriving DecidableEq

def WsAuthError.message : WsAuthError → String
  | .missingTicket => "VNL-SBX-WS-001: missing or malformed ticket"
  | .invalidTicket => "VNL-SBX-WS-002: invalid or expired ticket"

/-- The status and the error of the response. -/
def WsAuthError.intoResponse (e : WsAuthError) : Nat × String := (401, e.message)

def ticketTtlSecs : Nat := 30

/-- The duration of a ticket, in the nanoseconds that the clock counts. -/
def ttl : Nat := ticketTtlSecs * 1000000000

/-- The claims of a ticket, and when it expires. -/
abbrev TicketStore := Text → Option (TicketClaims × Nat)

namespace TicketStore

variable (store : TicketStore) (now : Nat)

/-- The section of `issue` with the lock; `drawn` was read before. -/
def insert (ticket : Text) (claims : TicketClaims) (drawn : Nat) : TicketStore :=
  Function.update store ticket (some (claims, drawn + ttl))

/-- The ticket is removed whether it is valid or not. -/
def redeem (ticket : Text) : TicketStore × Option TicketClaims :=
  (Function.update store ticket none,
    (store ticket).bind fun entry => if now < entry.2 then some entry.1 else none)

def redeemFromQuery : Option Text → TicketStore × Except WsAuthError TicketClaims
  | some ticket =>
    let (store', claims) := store.redeem now ticket
    (store', match claims with
      | some claims => .ok claims
      | none => .error .invalidTicket)
  | none => (store, .error .missingTicket)

end TicketStore

/-! ## The query -/

def ticketKey : Text := "ticket".toList

/-- The value of a parameter whose key is that of the tickets. -/
def valueOf (pair : Text) : Option Text :=
  match splitOnce '=' pair with
  | (key, some value) => if key = ticketKey then some value else none
  | (_, none) => none

/-- The ticket that the middleware reads from the query: the first one. -/
def ticketOf (query : Option Text) : Option Text :=
  query.bind fun qs => (qs.splitOn '&').findSome? valueOf

/-- `Uri::query`. -/
def queryOf (uri : Text) : Option Text := (splitOnce '?' uri).2

def isTicket (pair : Text) : Bool := (splitOnce '=' pair).1 = ticketKey

/-- What is logged of a parameter. -/
def scrub (pair : Text) : Text := if isTicket pair then "ticket=***".toList else pair

def scrubTicketUri (uri : Text) : Text :=
  match splitOnce '?' uri with
  | (_, none) => uri
  | (path, some query) =>
    if (query.splitOn '&').any isTicket then
      path ++ '?' :: ['&'].intercalate ((query.splitOn '&').map scrub)
    else uri

/-! ## Requests -/

/-- A ticket that `issue` has drawn. -/
structure Issue where
  ticket : Text
  claims : TicketClaims
  drawn : Nat
  deriving DecidableEq

/-- A handshake that has passed. -/
structure Passage where
  ticket : Text
  claims : TicketClaims
  time : Nat
  deriving DecidableEq

/-- The clock and the store.  `issuing` are the tickets that are drawn and not yet in the store;
`issued` and `passed` are for the observer. -/
structure State where
  now : Nat
  tickets : TicketStore
  issuing : List Issue
  issued : List Issue
  passed : List Passage

def State.init : State := ⟨0, fun _ => none, [], [], []⟩

/-- A request for a ticket takes two steps, as another request may come between the clock and the
lock. -/
inductive Label
  | clock (nanos : Nat)
  | draw (subject ticket : Text)
  | insert (n : Nat)
  | handshake (uri : Text)

/-- `ws_auth_middleware`. -/
def State.handshake (s : State) (uri : Text) : State :=
  let ticket := ticketOf (queryOf uri)
  let (tickets, result) := s.tickets.redeemFromQuery s.now ticket
  match ticket, result with
  | some ticket, .ok claims => { s with tickets, passed := s.passed ++ [⟨ticket, claims, s.now⟩] }
  | _, _ => { s with tickets }

def step (s : State) : Label → Option State
  | .clock nanos => some { s with now := s.now + nanos }
  | .draw subject ticket => some { s with issuing := s.issuing ++ [⟨ticket, ⟨subject⟩, s.now⟩] }
  | .insert n =>
    (s.issuing[n]?).map fun issue =>
      { s with
        tickets := s.tickets.insert issue.ticket issue.claims issue.drawn
        issuing := s.issuing.eraseIdx n
        issued := s.issued ++ [issue] }
  | .handshake uri => some (s.handshake uri)

/-! ## Every passage has a ticket of its own -/

/-- The passage is one for the issued ticket, in its time. -/
structure Allowed (passage : Passage) (issue : Issue) : Prop where
  claims : passage.claims = issue.claims
  drawn : issue.drawn ≤ passage.time
  valid : passage.time < issue.drawn + ttl

def State.passedWith (s : State) (ticket : Text) : List Passage :=
  s.passed.filter (·.ticket = ticket)

def State.issuedAs (s : State) (ticket : Text) : List Issue := s.issued.filter (·.ticket = ticket)

/-- What was issued and passed under one ticket.  A ticket in the store is the last one that was
issued, and is not used. -/
def Slot (passed : List Passage) (issued : List Issue) : Option (TicketClaims × Nat) → Prop
  | none => List.SublistForall₂ Allowed passed issued
  | some (claims, expires) => ∃ front last, issued = front ++ [last] ∧
      List.SublistForall₂ Allowed passed front ∧ claims = last.claims ∧ expires = last.drawn + ttl

structure Accounted (s : State) : Prop where
  drawn : ∀ issue ∈ s.issuing ++ s.issued, issue.drawn ≤ s.now
  slots : ∀ ticket, Slot (s.passedWith ticket) (s.issuedAs ticket) (s.tickets ticket)

theorem sublistForall₂_append {α β : Type} {R : α → β → Prop} {l : List α} {m : List β}
    (h : List.SublistForall₂ R l m) (more : List β) : List.SublistForall₂ R l (m ++ more) := by
  induction h with
  | nil => exact .nil
  | cons hr _ ih => exact .cons hr ih
  | cons_right _ ih => exact .cons_right ih

theorem sublistForall₂_concat {α β : Type} {R : α → β → Prop} {l : List α} {m : List β} {a : α}
    {b : β} (h : List.SublistForall₂ R l m) (hab : R a b) :
    List.SublistForall₂ R (l ++ [a]) (m ++ [b]) := by
  induction h with
  | @nil m =>
      induction m with
      | nil => exact .cons hab .nil
      | cons _ _ ih => exact .cons_right ih
  | cons hr _ ih => exact .cons hr ih
  | cons_right _ ih => exact .cons_right ih

theorem Slot.passed {passed : List Passage} {issued : List Issue}
    {entry : Option (TicketClaims × Nat)} (h : Slot passed issued entry) :
    List.SublistForall₂ Allowed passed issued := by
  cases entry with
  | none => exact h
  | some entry =>
      obtain ⟨front, last, rfl, hpassed, -, -⟩ := h
      exact sublistForall₂_append hpassed [last]

theorem accounted_init : Accounted .init where
  drawn _ h := nomatch h
  slots _ := .nil

theorem Accounted.clock {s : State} (h : Accounted s) (nanos : Nat) :
    Accounted { s with now := s.now + nanos } where
  drawn issue hissue := Nat.le_add_right_of_le (h.drawn issue hissue)
  slots := h.slots

theorem Accounted.draw {s : State} (h : Accounted s) (subject ticket : Text) :
    Accounted { s with issuing := s.issuing ++ [⟨ticket, ⟨subject⟩, s.now⟩] } where
  drawn issue hissue := by
    rw [List.append_assoc, List.mem_append, List.mem_append, List.mem_singleton] at hissue
    rcases hissue with hold | rfl | hold
    · exact h.drawn issue (List.mem_append_left _ hold)
    · exact Nat.le_refl _
    · exact h.drawn issue (List.mem_append_right _ hold)
  slots := h.slots

theorem Accounted.insert {s : State} (h : Accounted s) {n : Nat} {issue : Issue}
    (hissue : s.issuing[n]? = some issue) :
    Accounted { s with
      tickets := s.tickets.insert issue.ticket issue.claims issue.drawn
      issuing := s.issuing.eraseIdx n
      issued := s.issued ++ [issue] } where
  drawn other hother := by
    refine h.drawn other ?_
    rw [← List.append_assoc, List.mem_append, List.mem_append, List.mem_singleton] at hother
    rcases hother with (hold | hold) | rfl
    · exact List.mem_append_left _ (List.mem_of_mem_eraseIdx hold)
    · exact List.mem_append_right _ hold
    · exact List.mem_append_left _ (List.mem_of_getElem? hissue)
  slots ticket := by
    show Slot (s.passedWith ticket) ((s.issued ++ [issue]).filter (·.ticket = ticket))
      (Function.update s.tickets issue.ticket (some (issue.claims, issue.drawn + ttl)) ticket)
    rw [List.filter_append]
    by_cases hticket : issue.ticket = ticket
    · subst hticket
      rw [Function.update_self, List.filter_cons_of_pos (by simp), List.filter_nil]
      exact ⟨_, issue, rfl, (h.slots issue.ticket).passed, rfl, rfl⟩
    · rw [Function.update_of_ne (Ne.symm hticket),
        List.filter_cons_of_neg (by simpa using hticket), List.filter_nil, List.append_nil]
      exact h.slots ticket

/-- The ticket leaves the store, and what it allows is used or lost. -/
theorem Accounted.redeem {s : State} (h : Accounted s) (ticket : Text) :
    Accounted { s with
      tickets := (s.tickets.redeem s.now ticket).1
      passed := s.passed ++ ((s.tickets.redeem s.now ticket).2.map
        fun claims => ⟨ticket, claims, s.now⟩).toList } where
  drawn := h.drawn
  slots other := by
    show Slot ((s.passed ++ _).filter (·.ticket = other)) (s.issuedAs other)
      (Function.update s.tickets ticket none other)
    rw [List.filter_append]
    by_cases hticket : other = ticket
    · subst hticket
      rw [Function.update_self]
      have hslot := h.slots other
      show Slot (s.passedWith other ++ _) _ none
      cases hentry : s.tickets other with
      | none =>
          rw [hentry] at hslot
          simp only [TicketStore.redeem, hentry, Option.bind_none, Option.map_none,
            Option.toList_none, List.filter_nil, List.append_nil]
          exact hslot
      | some entry =>
          rw [hentry] at hslot
          obtain ⟨front, last, hissued, hpassed, hclaims, hexpires⟩ := hslot
          rw [hissued]
          by_cases hvalid : s.now < entry.2
          · have hlast : last ∈ s.issued := by
              refine List.mem_of_mem_filter (p := (·.ticket = other)) ?_
              show last ∈ s.issuedAs other
              rw [hissued]
              exact List.mem_append_right _ List.mem_cons_self
            simp only [TicketStore.redeem, hentry, Option.bind_some, if_pos hvalid,
              Option.map_some, Option.toList_some, List.filter_cons, List.filter_nil, decide_true,
              if_true]
            refine sublistForall₂_concat hpassed ⟨hclaims, ?_, ?_⟩
            · exact h.drawn last (List.mem_append_right _ hlast)
            · exact hexpires ▸ hvalid
          · simp only [TicketStore.redeem, hentry, Option.bind_some, if_neg hvalid,
              Option.map_none, Option.toList_none, List.filter_nil, List.append_nil]
            exact sublistForall₂_append hpassed [last]
    · rw [Function.update_of_ne hticket]
      have hnone : ∀ claims : Option TicketClaims,
          (claims.map fun claims => (⟨ticket, claims, s.now⟩ : Passage)).toList.filter
            (·.ticket = other) = [] := by
        intro claims
        cases claims with
        | none => rfl
        | some claims => exact List.filter_cons_of_neg (by simpa using Ne.symm hticket)
      rw [hnone, List.append_nil]
      exact h.slots other

theorem Accounted.handshake {s : State} (h : Accounted s) (uri : Text) :
    Accounted (s.handshake uri) := by
  unfold State.handshake
  cases ticketOf (queryOf uri) with
  | none => exact h
  | some ticket =>
      have hredeem := h.redeem ticket
      cases hclaims : (s.tickets.redeem s.now ticket).2 with
      | none =>
          rw [hclaims] at hredeem
          simp only [TicketStore.redeemFromQuery, hclaims]
          simpa using hredeem
      | some claims =>
          rw [hclaims] at hredeem
          simp only [TicketStore.redeemFromQuery, hclaims]
          exact hredeem

theorem accounted_step {s t : State} {label : Label} (h : Accounted s)
    (hnext : step s label = some t) : Accounted t := by
  cases label with
  | clock nanos => exact Option.some.inj hnext ▸ h.clock nanos
  | draw subject ticket => exact Option.some.inj hnext ▸ h.draw subject ticket
  | insert n =>
      obtain ⟨issue, hissue, rfl⟩ := Option.map_eq_some_iff.1 hnext
      exact h.insert hissue
  | handshake uri => exact Option.some.inj hnext ▸ h.handshake uri

/-- In order, every handshake that passes has an issued ticket of its own, with its claims, and in
its time. -/
theorem passed_own_ticket {ok : State → Label → Prop} {labels : List Label} {s : State}
    (hrun : Run step ok .init labels s) (ticket : Text) :
    List.SublistForall₂ Allowed (s.passedWith ticket) (s.issuedAs ticket) := by
  have haccounted : Accounted s :=
    hrun.invariant accounted_init fun _ _ _ h _ hnext => accounted_step h hnext
  exact (haccounted.slots ticket).passed

/-- A ticket is issued, passes once, and is refused when it is shown again. -/
theorem passed_own_ticket_once : ∃ s, Run step free .init
      [.draw ['u'] ['t'], .insert 0, .clock 5, .handshake "/ws/fs?ticket=t".toList,
        .handshake "/ws/fs?ticket=t".toList] s ∧
    s.passedWith ['t'] = [⟨['t'], ⟨['u']⟩, 5⟩] ∧
    List.SublistForall₂ Allowed (s.passedWith ['t']) (s.issuedAs ['t']) := by
  obtain ⟨s, hrun, hs⟩ := Run.exists_of_exec
    (fun s : State => s.passedWith ['t'] == [⟨['t'], ⟨['u']⟩, 5⟩])
    (show (exec step free .init [.draw ['u'] ['t'], .insert 0, .clock 5,
      .handshake "/ws/fs?ticket=t".toList, .handshake "/ws/fs?ticket=t".toList]).any _ = true by
        decide)
  exact ⟨s, hrun, eq_of_beq hs, passed_own_ticket hrun ['t']⟩

/-! ## The log -/

theorem notMem_of_mem_splitOn {c : Char} {text part : Text} (h : part ∈ text.splitOn c) :
    c ∉ part := by
  induction text generalizing part with
  | nil =>
      rw [List.splitOn_nil, List.mem_singleton] at h
      rw [h]
      exact List.not_mem_nil
  | cons d text ih =>
      rw [List.splitOn_cons_eq_if_modifyHead] at h
      split_ifs at h with hd
      · rcases List.mem_cons.1 h with rfl | hmem
        · exact List.not_mem_nil
        · exact ih hmem
      · cases hparts : text.splitOn c with
        | nil => exact absurd hparts (List.splitOn_ne_nil c text)
        | cons first parts =>
            rw [hparts, List.modifyHead_cons, List.mem_cons] at h
            rcases h with rfl | hmem
            · rw [List.mem_cons, not_or]
              refine ⟨fun heq => hd (beq_iff_eq.2 heq.symm), ih ?_⟩
              rw [hparts]
              exact List.mem_cons_self
            · refine ih ?_
              rw [hparts]
              exact List.mem_cons_of_mem _ hmem

/-- One field of a joined text, with what is before and behind it. -/
theorem exists_intercalate (sep key : Text) (before after : List Text) :
    ∃ front back : Text, ∀ value,
      sep.intercalate (before ++ (key ++ value) :: after) = front ++ value ++ back := by
  induction before with
  | nil =>
      cases after with
      | nil =>
          refine ⟨key, [], fun value => ?_⟩
          rw [List.nil_append, List.intercalate_singleton, List.append_nil]
      | cons next after =>
          refine ⟨key, sep ++ sep.intercalate (next :: after), fun value => ?_⟩
          rw [List.nil_append, List.intercalate_cons_cons, List.append_assoc, List.append_assoc]
  | cons field before ih =>
      obtain ⟨front, back, hjoin⟩ := ih
      refine ⟨field ++ sep ++ front, back, fun value => ?_⟩
      rw [List.cons_append, List.intercalate_cons_of_ne_nil (by simp), hjoin]
      simp only [List.append_assoc]

theorem splitOnce_ticket (value : Text) :
    splitOnce '=' (ticketKey ++ '=' :: value) = (ticketKey, some value) :=
  splitOnce_append (by decide) value

theorem isTicket_ticket (value : Text) : isTicket (ticketKey ++ '=' :: value) = true := by
  rw [isTicket, splitOnce_ticket, decide_eq_true_eq]

theorem valueOf_eq_some {pair value : Text} (h : valueOf pair = some value) :
    pair = ticketKey ++ '=' :: value := by
  unfold valueOf at h
  split at h
  · next key rest hsplit =>
    split_ifs at h with hkey
    obtain rfl := Option.some.inj h
    rw [(splitOnce_eq_some hsplit).1, hkey]
  · cases h

section Around

variable {path front back : Text} {before after : List Text}
  (hjoin : ∀ value, ['&'].intercalate (before ++ (ticketKey ++ ['='] ++ value) :: after) =
    front ++ value ++ back)

include hjoin

/-- The parameters around a ticket stay what they are, whatever the ticket is. -/
theorem splitOn_around {ticket : Text}
    (hfields : ∀ part ∈ before ++ after, '&' ∉ part) (hticket : '&' ∉ ticket) :
    (front ++ ticket ++ back).splitOn '&' = before ++ (ticketKey ++ '=' :: ticket) :: after := by
  rw [← hjoin ticket, List.splitOn_intercalate '&' ?_ (by simp), List.append_assoc]
  · rfl
  · intro part hpart
    rcases List.mem_append.1 hpart with hmem | hmem
    · exact hfields part (List.mem_append_left _ hmem)
    · rcases List.mem_cons.1 hmem with rfl | hmem
      · rw [List.mem_append, not_or]
        exact ⟨by decide, hticket⟩
      · exact hfields part (List.mem_append_right _ hmem)

theorem ticketOf_around {ticket : Text} (hpath : '?' ∉ path)
    (hfields : ∀ part ∈ before ++ after, '&' ∉ part) (hticket : '&' ∉ ticket)
    (hnone : ∀ part ∈ before, valueOf part = none) :
    ticketOf (queryOf (path ++ '?' :: (front ++ ticket ++ back))) = some ticket := by
  rw [queryOf, splitOnce_append hpath, ticketOf, Option.bind_some,
    splitOn_around hjoin hfields hticket]
  refine List.findSome?_eq_some_iff.2 ⟨before, _, after, rfl, ?_, hnone⟩
  rw [valueOf, splitOnce_ticket]
  exact if_pos rfl

theorem scrubTicketUri_around {ticket : Text} (hpath : '?' ∉ path)
    (hfields : ∀ part ∈ before ++ after, '&' ∉ part) (hticket : '&' ∉ ticket) :
    scrubTicketUri (path ++ '?' :: (front ++ ticket ++ back)) =
      path ++ '?' :: ['&'].intercalate
        (before.map scrub ++ "ticket=***".toList :: after.map scrub) := by
  unfold scrubTicketUri
  rw [splitOnce_append hpath]
  dsimp only
  rw [splitOn_around hjoin hfields hticket, if_pos ?_, List.map_append, List.map_cons, scrub,
    if_pos (isTicket_ticket ticket)]
  rw [List.any_append, List.any_cons, isTicket_ticket, Bool.true_or, Bool.or_true]

end Around

end Vanyline.Sandbox.WsTickets
