import Mathlib.Data.List.Nodup
import Mathlib.Data.List.Perm.Basic
import Mathlib.Logic.Function.Basic
import Vanyline.Lib.Run

/-!
# Broadcast of a notification

`dispatch_notification_frame` is one call in a process of many threads.  It publishes the
diagnostics of the message, if it has any, and then sends the message to every subscriber of the
session.  Here the call is a program of small steps, and the other threads take their steps between
them: they take and release the mutexes, subscribe and unsubscribe, and a receiver may be dropped
at any time.

A mutex is not reentrant: who locks it waits until nobody holds it, itself included.  The guard of
the loop over the subscribers lives to the end of the function, and the cleanup locks `subs` again.

* `Good` says which mutex the call holds at each place, and what the loop has done so far.
* `stuck` is the place that the call cannot leave.
* `broadcast_iff` is the result: the call does its work and returns if and only if every send found
  a receiver.
-/

namespace Vanyline.Sandbox.Broadcast

open Vanyline.Lib

abbrev ClientId := Nat

inductive Mutex
  | diagParts
  | diagnosticsCache
  | subs
deriving DecidableEq

inductive Holder
  | dispatch
  | other (thread : Nat)
deriving DecidableEq

/-- Where the call is. -/
inductive Pc
  | entry
  /-- It holds `diag_parts` and is about to lock `diagnostics_cache`. -/
  | cacheLock
  | merged
  /-- It is about to lock `subs` for the loop. -/
  | subsLock
  | sending (rest : List ClientId)
  /-- It is about to lock `subs` for the cleanup. -/
  | cleanupLock
  | removing (rest : List ClientId)
  | returned
deriving DecidableEq

structure State where
  holder : Mutex → Option Holder
  /-- The message publishes diagnostics. -/
  publishes : Bool
  subs : List ClientId
  /-- The id that the next subscriber gets. -/
  nextClient : ClientId
  /-- The clients whose receiver is gone. -/
  dropped : List ClientId
  pc : Pc
  /-- The variable `dead_clients`. -/
  dead : List ClientId
  /-- The subscribers when the call locked `subs`. -/
  members : List ClientId
  /-- The clients in whose channel the call has put the message. -/
  sent : List ClientId
  /-- The subscribers that the call left when it returned. -/
  kept : List ClientId

namespace State

variable (s : State)

def lock (m : Mutex) (who : Holder) : State :=
  { s with holder := Function.update s.holder m (some who) }

def unlock (m : Mutex) : State := { s with holder := Function.update s.holder m none }

/-- The guards are dropped at the end of the function. -/
def return_ : State := { s.unlock .subs with pc := .returned, kept := s.subs }

/-- The mutex that the call locks with its next step. -/
def wants : Option Mutex :=
  match s.pc with
  | .entry => if s.publishes then some .diagParts else none
  | .cacheLock => some .diagnosticsCache
  | .subsLock | .cleanupLock => some .subs
  | .merged | .sending _ | .removing _ | .returned => none

end State

inductive Label
  /-- A step of the call, other than the lock for the loop. -/
  | call
  /-- The call locks `subs`; the map is then passed through in this order. -/
  | lockSubs (order : List ClientId)
  | acquire (thread : Nat) (m : Mutex)
  | release (thread : Nat) (m : Mutex)
  | subscribe (thread : Nat)
  | unsubscribe (thread : Nat) (client : ClientId)
  /-- The end of the main server: `subs.clear()`. -/
  | clear (thread : Nat)
  | dropReceiver (client : ClientId)

/-- The next step of `dispatch_notification_frame`. -/
def callStep (s : State) : Option State :=
  match s.pc with
  | .entry =>
    if s.publishes then
      if s.holder .diagParts = none then
        some { s.lock .diagParts .dispatch with pc := .cacheLock }
      else none
    else some { s with pc := .subsLock }
  | .cacheLock =>
    if s.holder .diagnosticsCache = none then
      some { s.lock .diagnosticsCache .dispatch with pc := .merged }
    else none
  | .merged => some { (s.unlock .diagnosticsCache).unlock .diagParts with pc := .subsLock }
  | .subsLock => none
  | .sending (client :: rest) =>
    if client ∈ s.dropped then some { s with pc := .sending rest, dead := s.dead ++ [client] }
    else some { s with pc := .sending rest, sent := s.sent ++ [client] }
  | .sending [] => if s.dead = [] then some s.return_ else some { s with pc := .cleanupLock }
  | .cleanupLock =>
    if s.holder .subs = none then
      some { s.lock .subs .dispatch with pc := .removing s.dead }
    else none
  | .removing (client :: rest) =>
    some { s with pc := .removing rest, subs := s.subs.erase client }
  | .removing [] => some s.return_
  | .returned => none

def step (s : State) : Label → Option State
  | .call => callStep s
  | .lockSubs order =>
    match s.pc with
    | .subsLock =>
      if s.holder .subs = none ∧ order.isPerm s.subs then
        some { s.lock .subs .dispatch with pc := .sending order, members := order }
      else none
    | _ => none
  | .acquire thread m => if s.holder m = none then some (s.lock m (.other thread)) else none
  | .release thread m => if s.holder m = some (.other thread) then some (s.unlock m) else none
  | .subscribe thread =>
    if s.holder .subs = some (.other thread) then
      some { s with subs := s.nextClient :: s.subs, nextClient := s.nextClient + 1 }
    else none
  | .unsubscribe thread client =>
    if s.holder .subs = some (.other thread) then some { s with subs := s.subs.erase client }
    else none
  | .clear thread =>
    if s.holder .subs = some (.other thread) then some { s with subs := [] } else none
  | .dropReceiver client =>
    if client < s.nextClient then some { s with dropped := client :: s.dropped } else none

namespace State

/-- Every client has an id of its own. -/
structure Wf (s : State) : Prop where
  nodup : s.subs.Nodup
  lt : ∀ client ∈ s.subs, client < s.nextClient

/-- The call is about to begin; the other threads may be anywhere. -/
structure Starts (s : State) : Prop where
  wf : s.Wf
  pc : s.pc = .entry
  holder : ∀ m, s.holder m ≠ some .dispatch
  dead : s.dead = []
  sent : s.sent = []

/-- The call waits for a mutex that it holds itself. -/
def SelfWait (s : State) : Prop := ∃ m, s.wants = some m ∧ s.holder m = some .dispatch

/-- The loop over the subscribers has ended. -/
def SentAll (s : State) : Prop :=
  match s.pc with
  | .sending [] | .cleanupLock | .removing _ | .returned => True
  | .entry | .cacheLock | .merged | .subsLock | .sending (_ :: _) => False

/-- What a broadcast has done when it returns: the subscribers whose receiver it found have the
message once, the others have lost it, and those are no longer in the map. -/
structure Done (s : State) : Prop where
  members : s.members.Perm (s.sent ++ s.dead)
  once : s.sent.Nodup
  dead : ∀ client ∈ s.dead, client ∈ s.dropped
  alive : ∀ client ∈ s.members, client ∉ s.dropped → s.sent.count client = 1
  kept : s.kept.Perm s.sent

/-- The broadcast works from here on, whatever the other threads do. -/
structure Broadcasts (s : State) : Prop where
  never_waits_for_itself : ∀ as t, Run step free s as t → ¬ t.SelfWait
  completes : ∃ as t, Run step free s as t ∧ t.pc = .returned
  done : ∀ as t, Run step free s as t → t.pc = .returned → t.Done

end State

/-- The call sends to clients only whose receiver is there. -/
def SendsToAlive (s : State) : Label → Prop
  | .call =>
    match s.pc with
    | .sending (client :: _) => client ∉ s.dropped
    | _ => True
  | _ => True

instance (s : State) (a : Label) : Decidable (SendsToAlive s a) := by
  unfold SendsToAlive
  split
  · split <;> infer_instance
  · infer_instance

/-! ## What a step does -/

/-- What a step of the call does. -/
inductive Move (s : State) : Label → State → Prop
  | skipParts (pc : s.pc = .entry) : Move s .call { s with pc := .subsLock }
  | lockParts (pc : s.pc = .entry) (free : s.holder .diagParts = none) :
    Move s .call { s.lock .diagParts .dispatch with pc := .cacheLock }
  | lockCache (pc : s.pc = .cacheLock) (free : s.holder .diagnosticsCache = none) :
    Move s .call { s.lock .diagnosticsCache .dispatch with pc := .merged }
  | dropGuards (pc : s.pc = .merged) :
    Move s .call { (s.unlock .diagnosticsCache).unlock .diagParts with pc := .subsLock }
  | lockSubs (order : List ClientId) (pc : s.pc = .subsLock) (free : s.holder .subs = none)
    (perm : order.Perm s.subs) :
    Move s (.lockSubs order)
      { s.lock .subs .dispatch with pc := .sending order, members := order }
  | miss (client : ClientId) (rest : List ClientId) (pc : s.pc = .sending (client :: rest))
    (gone : client ∈ s.dropped) :
    Move s .call { s with pc := .sending rest, dead := s.dead ++ [client] }
  | send (client : ClientId) (rest : List ClientId) (pc : s.pc = .sending (client :: rest))
    (alive : client ∉ s.dropped) :
    Move s .call { s with pc := .sending rest, sent := s.sent ++ [client] }
  | finish (pc : s.pc = .sending []) (dead : s.dead = []) : Move s .call s.return_
  | clean (pc : s.pc = .sending []) (dead : s.dead ≠ []) : Move s .call { s with pc := .cleanupLock }
  | lockAgain (pc : s.pc = .cleanupLock) (free : s.holder .subs = none) :
    Move s .call { s.lock .subs .dispatch with pc := .removing s.dead }
  | remove (client : ClientId) (rest : List ClientId) (pc : s.pc = .removing (client :: rest)) :
    Move s .call { s with pc := .removing rest, subs := s.subs.erase client }
  | finishClean (pc : s.pc = .removing []) : Move s .call s.return_

/-- What the step of another thread leaves alone. -/
structure Aside (s t : State) : Prop where
  pc : t.pc = s.pc
  dead : t.dead = s.dead
  members : t.members = s.members
  sent : t.sent = s.sent
  kept : t.kept = s.kept
  dropped : s.dropped ⊆ t.dropped
  holder : ∀ m, t.holder m = some .dispatch ↔ s.holder m = some .dispatch
  subs : s.holder .subs = some .dispatch → t.subs = s.subs
  wf : s.Wf → t.Wf

variable {s t u : State} {a : Label} {as : List Label}

theorem callStep_move (h : callStep s = some t) : Move s .call t := by
  unfold callStep at h
  split at h
  case h_1 hpc =>
    split_ifs at h with hpublishes hfree
    · exact Option.some.inj h ▸ .lockParts hpc hfree
    · exact Option.some.inj h ▸ .skipParts hpc
  case h_2 hpc =>
    split_ifs at h with hfree
    exact Option.some.inj h ▸ .lockCache hpc hfree
  case h_3 hpc => exact Option.some.inj h ▸ .dropGuards hpc
  case h_4 => exact absurd h (by simp)
  case h_5 client rest hpc =>
    split_ifs at h with hgone
    · exact Option.some.inj h ▸ .miss client rest hpc hgone
    · exact Option.some.inj h ▸ .send client rest hpc hgone
  case h_6 hpc =>
    split_ifs at h with hdead
    · exact Option.some.inj h ▸ .finish hpc hdead
    · exact Option.some.inj h ▸ .clean hpc hdead
  case h_7 hpc =>
    split_ifs at h with hfree
    exact Option.some.inj h ▸ .lockAgain hpc hfree
  case h_8 client rest hpc => exact Option.some.inj h ▸ .remove client rest hpc
  case h_9 hpc => exact Option.some.inj h ▸ .finishClean hpc
  case h_10 => exact absurd h (by simp)

/-- Another thread that takes or releases a mutex. -/
theorem Aside.of_holder (m : Mutex) {who : Option Holder} (hs : s.holder m ≠ some .dispatch)
    (hwho : who ≠ some .dispatch) :
    Aside s { s with holder := Function.update s.holder m who } := by
  refine ⟨rfl, rfl, rfl, rfl, rfl, List.Subset.refl _, ?_, fun _ => rfl, fun wf => ⟨wf.1, wf.2⟩⟩
  intro m'
  show Function.update s.holder m who m' = _ ↔ _
  by_cases hm : m' = m
  · rw [hm, Function.update_self]
    exact iff_of_false hwho hs
  · rw [Function.update_of_ne hm]

/-- Another thread that has the map of subscribers. -/
theorem Aside.of_subs {thread : Nat} {subs : List ClientId} {next : ClientId}
    (hs : s.holder .subs = some (.other thread))
    (hwf : s.Wf → State.Wf { s with subs := subs, nextClient := next }) :
    Aside s { s with subs := subs, nextClient := next } := by
  refine ⟨rfl, rfl, rfl, rfl, rfl, List.Subset.refl _, fun _ => Iff.rfl, ?_, hwf⟩
  intro hdispatch
  rw [hs] at hdispatch
  cases hdispatch

theorem step_cases (h : step s a = some t) : Move s a t ∨ Aside s t ∧ SendsToAlive s a := by
  cases a with
  | call => exact .inl (callStep_move h)
  | lockSubs order =>
    left
    simp only [step] at h
    split at h
    case h_1 hpc =>
      split_ifs at h with hlock
      exact Option.some.inj h ▸ .lockSubs order hpc hlock.1 (List.isPerm_iff.1 hlock.2)
    case h_2 => exact absurd h (by simp)
  | acquire thread m =>
    refine .inr ⟨?_, trivial⟩
    simp only [step] at h
    split_ifs at h with hfree
    exact Option.some.inj h ▸ Aside.of_holder m (by simp [hfree]) (by simp)
  | release thread m =>
    refine .inr ⟨?_, trivial⟩
    simp only [step] at h
    split_ifs at h with hholds
    exact Option.some.inj h ▸ Aside.of_holder m (by simp [hholds]) (by simp)
  | subscribe thread =>
    refine .inr ⟨?_, trivial⟩
    simp only [step] at h
    split_ifs at h with hholds
    refine Option.some.inj h ▸ Aside.of_subs hholds ?_
    intro wf
    constructor
    · exact List.nodup_cons.2 ⟨fun hmem => absurd (wf.lt _ hmem) (Nat.lt_irrefl _), wf.nodup⟩
    · intro client hclient
      rcases List.mem_cons.1 hclient with rfl | hmem
      · exact Nat.lt_succ_self _
      · exact Nat.lt_succ_of_lt (wf.lt _ hmem)
  | unsubscribe thread client =>
    refine .inr ⟨?_, trivial⟩
    simp only [step] at h
    split_ifs at h with hholds
    refine Option.some.inj h ▸ Aside.of_subs hholds ?_
    intro wf
    exact ⟨wf.nodup.erase _, fun c hc => wf.lt c (List.mem_of_mem_erase hc)⟩
  | clear thread =>
    refine .inr ⟨?_, trivial⟩
    simp only [step] at h
    split_ifs at h with hholds
    refine Option.some.inj h ▸ Aside.of_subs hholds ?_
    intro _
    exact ⟨List.nodup_nil, fun c hc => absurd hc (List.not_mem_nil)⟩
  | dropReceiver client =>
    refine .inr ⟨?_, trivial⟩
    simp only [step] at h
    split_ifs at h with hknown
    rw [← Option.some.inj h]
    exact ⟨rfl, rfl, rfl, rfl, rfl, List.subset_cons_self _ _, fun _ => Iff.rfl, fun _ => rfl,
      fun wf => ⟨wf.1, wf.2⟩⟩

/-! ## The mutexes and the loop -/

/-- The mutexes that the call holds: the guard of the loop lives to the end. -/
def Pc.holds : Pc → Mutex → Bool
  | .cacheLock, m => m = .diagParts
  | .merged, m => m = .diagParts ∨ m = .diagnosticsCache
  | .sending _, m | .cleanupLock, m | .removing _, m => m = .subs
  | .entry, _ | .subsLock, _ | .returned, _ => false

/-- What the loop has done so far. -/
def State.Loop (s : State) : Prop :=
  match s.pc with
  | .entry | .cacheLock | .merged | .subsLock => s.dead = [] ∧ s.sent = []
  | .sending rest => s.members.Perm s.subs ∧ s.members.Perm (s.sent ++ s.dead ++ rest)
  | .cleanupLock => s.dead ≠ []
  | .removing _ => False
  | .returned => s.dead = [] ∧ s.sent.Nodup ∧ s.members.Perm s.sent ∧ s.kept.Perm s.sent

structure Good (s : State) : Prop where
  wf : s.Wf
  holder : ∀ m, s.holder m = some .dispatch ↔ s.pc.holds m = true
  dead : ∀ client ∈ s.dead, client ∈ s.dropped
  loop : s.Loop

theorem State.Starts.good (h : s.Starts) : Good s where
  wf := h.wf
  holder m := by
    rw [h.pc]
    exact iff_of_false (h.holder m) Bool.false_ne_true
  dead client hclient := absurd (h.dead ▸ hclient) List.not_mem_nil
  loop := by
    rw [State.Loop, h.pc]
    exact ⟨h.dead, h.sent⟩

theorem Good.aside (h : Good s) (ha : Aside s t) : Good t where
  wf := ha.wf h.wf
  holder m := by rw [ha.holder, ha.pc, h.holder]
  dead client hclient := ha.dropped (h.dead client (ha.dead ▸ hclient))
  loop := by
    have hsubs := h.holder .subs
    have hloop := h.loop
    unfold State.Loop at hloop ⊢
    rw [ha.pc, ha.dead, ha.sent, ha.members, ha.kept]
    cases hpc : s.pc <;> rw [hpc] at hloop hsubs
    case sending rest => exact ha.subs (hsubs.2 rfl) ▸ hloop
    all_goals exact hloop

/-- The holders after each step of the call. -/
theorem Good.move_holder (h : Good s) (hm : Move s a t) (m : Mutex) :
    t.holder m = some .dispatch ↔ t.pc.holds m = true := by
  have hholder := h.holder m
  cases hm with
  | skipParts hpc | miss _ _ hpc | send _ _ hpc | clean hpc | remove _ _ hpc =>
    rw [hpc] at hholder
    exact hholder
  | lockParts hpc | lockCache hpc | dropGuards hpc | lockSubs _ hpc | finish hpc
  | lockAgain hpc | finishClean hpc =>
    rw [hpc] at hholder
    cases m <;> simp_all [Pc.holds, State.lock, State.unlock, State.return_]

theorem Good.move_loop (h : Good s) (hm : Move s a t) : t.Loop := by
  have hloop := h.loop
  unfold State.Loop at hloop
  cases hm with
  | skipParts hpc | lockParts hpc | lockCache hpc | dropGuards hpc =>
    rw [hpc] at hloop
    exact hloop
  | lockSubs order hpc hfree hperm =>
    rw [hpc] at hloop
    refine ⟨hperm, ?_⟩
    show order.Perm (s.sent ++ s.dead ++ order)
    rw [hloop.1, hloop.2]
    exact .refl _
  | miss client rest hpc hgone =>
    rw [hpc] at hloop
    refine ⟨hloop.1, ?_⟩
    show s.members.Perm (s.sent ++ (s.dead ++ [client]) ++ rest)
    rw [← List.append_assoc, List.append_assoc, List.singleton_append]
    exact hloop.2
  | send client rest hpc halive =>
    rw [hpc] at hloop
    refine ⟨hloop.1, hloop.2.trans ?_⟩
    show (s.sent ++ s.dead ++ client :: rest).Perm (s.sent ++ [client] ++ s.dead ++ rest)
    rw [List.append_assoc, List.append_assoc, List.append_assoc]
    exact List.perm_middle.append_left s.sent
  | finish hpc hdead =>
    rw [hpc] at hloop
    simp only [hdead, List.append_nil] at hloop
    have hnodup : s.sent.Nodup := (hloop.1.symm.trans hloop.2).nodup_iff.1 h.wf.nodup
    exact ⟨hdead, hnodup, hloop.2, hloop.1.symm.trans hloop.2⟩
  | clean hpc hdead => exact hdead
  | lockAgain hpc hfree =>
    -- The call itself holds the mutex.
    have hholds : s.holder .subs = some .dispatch := (h.holder .subs).2 (by rw [hpc]; rfl)
    rw [hfree] at hholds
    cases hholds
  | remove client rest hpc | finishClean hpc =>
    rw [hpc] at hloop
    exact hloop.elim

theorem Good.move (h : Good s) (hm : Move s a t) : Good t where
  wf := by
    cases hm with
    | remove client rest hpc =>
      exact ⟨h.wf.nodup.erase _, fun c hc => h.wf.lt c (List.mem_of_mem_erase hc)⟩
    | _ => exact ⟨h.wf.nodup, h.wf.lt⟩
  holder := h.move_holder hm
  dead := by
    cases hm with
    | miss client rest hpc hgone =>
      intro c hc
      rcases List.mem_append.1 hc with hc | hc
      · exact h.dead c hc
      · rw [List.mem_singleton.1 hc]
        exact hgone
    | _ => exact h.dead
  loop := h.move_loop hm

theorem Good.of_step (h : Good s) (hstep : step s a = some t) : Good t := by
  rcases step_cases hstep with hm | ⟨ha, -⟩
  · exact h.move hm
  · exact h.aside ha

theorem Good.run (h : Good s) (hrun : Run step free s as t) : Good t :=
  hrun.invariant h fun _ _ _ hgood _ hstep => hgood.of_step hstep

/-! ## Waiting for itself -/

/-- The call waits for itself at the cleanup only. -/
theorem Good.selfWait (h : Good s) (hwait : s.SelfWait) : s.pc = .cleanupLock := by
  obtain ⟨m, hwants, hholds⟩ := hwait
  have hpcs := (h.holder m).1 hholds
  unfold State.wants at hwants
  cases hpc : s.pc <;> rw [hpc] at hwants hpcs
  case cacheLock =>
    rw [← Option.some.inj hwants] at hpcs
    cases hpcs
  case entry | subsLock => cases hpcs
  all_goals cases hwants

/-- Once at the lock for the cleanup, the call stays there for ever, and `subs` stays locked. -/
theorem stuck (h : Good s) (hpc : s.pc = .cleanupLock) (hrun : Run step free s as t) :
    t.pc = .cleanupLock ∧ t.holder .subs = some .dispatch := by
  have hholds : s.holder .subs = some .dispatch := (h.holder .subs).2 (by rw [hpc]; rfl)
  refine hrun.invariant (I := fun t => t.pc = .cleanupLock ∧ t.holder .subs = some .dispatch)
    ⟨hpc, hholds⟩ ?_
  intro t a u ⟨ht, htholds⟩ _ hstep
  rcases step_cases hstep with hm | ⟨ha, -⟩
  · cases hm with
    | lockAgain _ hfree =>
      rw [hfree] at htholds
      cases htholds
    | _ => simp_all
  · exact ⟨ha.pc.trans ht, (ha.holder _).2 htholds⟩

/-- Of any run that comes to the cleanup the call does not return, and nobody subscribes or
leaves any more. -/
theorem stuck_of_run (hstart : s.Starts) (hrun : Run step free s as t) (hpc : t.pc = .cleanupLock)
    (hrest : Run step free t bs u) : u.pc = .cleanupLock ∧ u.holder .subs = some .dispatch :=
  stuck (hstart.good.run hrun) hpc hrest

/-! ## Every send finds a receiver -/

/-- A client is recorded as dead by a send that finds no receiver, and in no other way. -/
theorem dead_step (h : step s a = some t) (hdead : s.dead = []) :
    SendsToAlive s a ↔ t.dead = [] := by
  rcases step_cases h with hm | ⟨ha, halive⟩
  · cases hm with
    | miss client rest hpc hgone =>
      refine iff_of_false ?_ (List.append_ne_nil_of_right_ne_nil _ (List.cons_ne_nil _ _))
      intro halive
      rw [SendsToAlive, hpc] at halive
      exact halive hgone
    | send client rest hpc halive =>
      refine iff_of_true ?_ hdead
      rw [SendsToAlive, hpc]
      exact halive
    | lockSubs order hpc => exact iff_of_true trivial hdead
    | skipParts hpc | lockParts hpc | lockCache hpc | dropGuards hpc | finish hpc | clean hpc
    | lockAgain hpc | remove _ _ hpc | finishClean hpc =>
      refine iff_of_true ?_ hdead
      rw [SendsToAlive, hpc]
      trivial
  · exact iff_of_true halive (ha.dead.trans hdead)

/-- No client is taken from the dead. -/
theorem dead_eq_nil_of_step (h : step s a = some t) (hdead : t.dead = []) : s.dead = [] := by
  rcases step_cases h with hm | ⟨ha, -⟩
  · cases hm with
    | miss => exact absurd hdead (List.append_ne_nil_of_right_ne_nil _ (List.cons_ne_nil _ _))
    | _ => exact hdead
  · exact ha.dead.symm.trans hdead

/-- All sends of a run find a receiver if no client is dead at its end. -/
theorem run_alive_iff (hstart : s.Starts) (hrun : Run step free s as t) :
    Run step SendsToAlive s as t ↔ t.dead = [] := by
  constructor
  · intro halive
    exact halive.invariant (I := fun t => t.dead = []) hstart.dead
      fun _ _ _ hdead hok hstep => (dead_step hstep hdead).1 hok
  · intro hdead
    induction hrun with
    | nil => exact .nil
    | snoc hrun _ hstep ih =>
      have hbefore := dead_eq_nil_of_step hstep hdead
      exact .snoc (ih hbefore) ((dead_step hstep hbefore).2 hdead) hstep

/-! ## The end of the loop -/

/-- A mutex that the call does not hold can become free. -/
theorem exists_free (s : State) (m : Mutex) (h : s.holder m ≠ some .dispatch) :
    ∃ as t, Run step free s as t ∧ t.holder m = none ∧ Aside s t := by
  cases hholder : s.holder m with
  | none =>
    exact ⟨[], s, .nil, hholder, rfl, rfl, rfl, rfl, rfl, List.Subset.refl _, fun _ => Iff.rfl,
      fun _ => rfl, id⟩
  | some who =>
    cases who with
    | dispatch => exact absurd hholder h
    | other thread =>
      refine ⟨[.release thread m], s.unlock m, Run.single trivial (if_pos hholder), ?_,
        Aside.of_holder m h (by simp)⟩
      exact Function.update_self ..

/-- The loop ends after as many steps as it has clients before it. -/
theorem exists_sentAll_of_sending (rest : List ClientId) (h : s.pc = .sending rest) :
    ∃ as t, Run step free s as t ∧ t.SentAll := by
  induction rest generalizing s with
  | nil =>
    refine ⟨[], s, .nil, ?_⟩
    rw [State.SentAll, h]
    trivial
  | cons client rest ih =>
    by_cases hgone : client ∈ s.dropped
    · have hstep : step s .call =
          some { s with pc := .sending rest, dead := s.dead ++ [client] } := by
        simp only [step, callStep, h, if_pos hgone]
      obtain ⟨as, t, hrun, ht⟩ := ih (s := { s with pc := _, dead := _ }) rfl
      exact ⟨.call :: as, t, (Run.single trivial hstep).append hrun, ht⟩
    · have hstep : step s .call =
          some { s with pc := .sending rest, sent := s.sent ++ [client] } := by
        simp only [step, callStep, h, if_neg hgone]
      obtain ⟨as, t, hrun, ht⟩ := ih (s := { s with pc := _, sent := _ }) rfl
      exact ⟨.call :: as, t, (Run.single trivial hstep).append hrun, ht⟩

/-- What can be reached after a step. -/
theorem exists_sentAll_step (hstep : step s a = some t)
    (h : ∃ as u, Run step free t as u ∧ u.SentAll) : ∃ as u, Run step free s as u ∧ u.SentAll := by
  obtain ⟨as, u, hrun, hu⟩ := h
  exact ⟨a :: as, u, (Run.single trivial hstep).append hrun, hu⟩

/-- What can be reached when the mutex is free. -/
theorem exists_sentAll_free (hgood : Good s) {m : Mutex} (hm : s.pc.holds m = false)
    (h : ∀ t, Good t → t.pc = s.pc → t.holder m = none →
      ∃ as u, Run step free t as u ∧ u.SentAll) :
    ∃ as u, Run step free s as u ∧ u.SentAll := by
  have hother : s.holder m ≠ some .dispatch := by
    rw [Ne, hgood.holder, hm]
    exact Bool.false_ne_true
  obtain ⟨as, t, hrun, hfree, ha⟩ := exists_free s m hother
  obtain ⟨bs, u, hrest, hu⟩ := h t (hgood.aside ha) ha.pc hfree
  exact ⟨as ++ bs, u, hrun.append hrest, hu⟩

theorem exists_sentAll_of_subsLock (h : Good s) (hpc : s.pc = .subsLock) :
    ∃ as t, Run step free s as t ∧ t.SentAll := by
  apply exists_sentAll_free h (m := .subs) (by rw [hpc]; rfl)
  intro t _ htpc hfree
  have hstep : step t (.lockSubs t.subs) = some { t.lock .subs .dispatch with
      pc := .sending t.subs, members := t.subs } := by
    simp [step, htpc, hpc, hfree, List.isPerm_iff]
  exact exists_sentAll_step hstep (exists_sentAll_of_sending _ rfl)

theorem exists_sentAll_of_cacheLock (h : Good s) (hpc : s.pc = .cacheLock) :
    ∃ as t, Run step free s as t ∧ t.SentAll := by
  apply exists_sentAll_free h (m := .diagnosticsCache) (by rw [hpc]; rfl)
  intro t hgood htpc hfree
  have hstep : step t .call =
      some { t.lock .diagnosticsCache .dispatch with pc := .merged } := by
    simp [step, callStep, htpc, hpc, hfree]
  have hnext := hgood.of_step hstep
  exact exists_sentAll_step hstep (exists_sentAll_step (a := .call) rfl
    (exists_sentAll_of_subsLock (hnext.of_step (a := .call) rfl) rfl))

/-- From wherever the call is, the end of its loop can be reached. -/
theorem exists_sentAll (h : Good s) : ∃ as t, Run step free s as t ∧ t.SentAll := by
  cases hpc : s.pc with
  | entry =>
    apply exists_sentAll_free h (m := .diagParts) (by rw [hpc]; rfl)
    intro t hgood htpc hfree
    cases hpublishes : t.publishes with
    | false =>
      have hstep : step t .call = some { t with pc := .subsLock } := by
        simp [step, callStep, htpc, hpc, hpublishes]
      exact exists_sentAll_step hstep (exists_sentAll_of_subsLock (hgood.of_step hstep) rfl)
    | true =>
      have hstep : step t .call = some { t.lock .diagParts .dispatch with pc := .cacheLock } := by
        simp [step, callStep, htpc, hpc, hpublishes, hfree]
      exact exists_sentAll_step hstep (exists_sentAll_of_cacheLock (hgood.of_step hstep) rfl)
  | cacheLock => exact exists_sentAll_of_cacheLock h hpc
  | merged =>
    have hstep : step s .call =
        some { (s.unlock .diagnosticsCache).unlock .diagParts with pc := .subsLock } := by
      simp [step, callStep, hpc]
    exact exists_sentAll_step hstep (exists_sentAll_of_subsLock (h.of_step hstep) rfl)
  | subsLock => exact exists_sentAll_of_subsLock h hpc
  | sending rest => exact exists_sentAll_of_sending rest hpc
  | cleanupLock | removing | returned =>
    refine ⟨[], s, .nil, ?_⟩
    rw [State.SentAll, hpc]
    trivial

/-! ## The broadcast -/

/-- The loop has ended, and every client was there. -/
def State.Ended (s : State) : Prop := (s.pc = .sending [] ∨ s.pc = .returned) ∧ s.dead = []

theorem Good.ended (h : Good s) (hsent : s.SentAll) (hdead : s.dead = []) : s.Ended := by
  have hloop := h.loop
  unfold State.SentAll at hsent
  unfold State.Loop at hloop
  cases hpc : s.pc <;> rw [hpc] at hsent hloop
  case sending rest =>
    cases rest with
    | nil => exact ⟨.inl hpc, hdead⟩
    | cons => exact hsent.elim
  case cleanupLock => exact absurd hdead hloop
  case removing => exact hloop.elim
  case returned => exact ⟨.inr hpc, hdead⟩
  all_goals exact hsent.elim

theorem State.Ended.step (h : s.Ended) (hstep : Broadcast.step s a = some t) : t.Ended := by
  rcases step_cases hstep with hm | ⟨ha, -⟩
  · obtain ⟨hpc, hdead⟩ := h
    cases hm with
    | finish => exact ⟨.inr rfl, hdead⟩
    | clean _ hne => exact absurd hdead hne
    | _ => simp_all
  · exact ⟨ha.pc ▸ h.1, ha.dead.trans h.2⟩

theorem State.Ended.run (h : s.Ended) (hrun : Run Broadcast.step free s as t) : t.Ended :=
  hrun.invariant h fun _ _ _ hended _ hstep => hended.step hstep

/-- What the call has done when it returns. -/
theorem Good.done (h : Good s) (hpc : s.pc = .returned) : s.Done := by
  have hloop := h.loop
  rw [State.Loop, hpc] at hloop
  obtain ⟨hdead, hnodup, hmembers, hkept⟩ := hloop
  refine ⟨?_, hnodup, h.dead, ?_, hkept⟩
  · rw [hdead, List.append_nil]
    exact hmembers
  · intro client hmem _
    exact List.count_eq_one_of_mem hnodup (hmembers.mem_iff.1 hmem)

theorem State.Ended.broadcasts (h : s.Ended) (hgood : Good s) : s.Broadcasts where
  never_waits_for_itself as t hrun hwait := by
    have hpc := (hgood.run hrun).selfWait hwait
    rcases (h.run hrun).1 with hpc' | hpc' <;> rw [hpc] at hpc' <;> cases hpc'
  completes := by
    rcases h.1 with hpc | hpc
    · have hstep : Broadcast.step s .call = some s.return_ := by
        simp [Broadcast.step, callStep, hpc, h.2]
      exact ⟨[.call], s.return_, Run.single trivial hstep, rfl⟩
    · exact ⟨[], s, .nil, hpc⟩
  done as t hrun hpc := (hgood.run hrun).done hpc

/-- A call that can return has found every receiver. -/
theorem dead_eq_nil_of_returned (hgood : Good s) (hrun : Run step free s as t)
    (hpc : t.pc = .returned) : s.dead = [] := by
  have hloop := (hgood.run hrun).loop
  rw [State.Loop, hpc] at hloop
  have hdead := hloop.1
  clear hloop hpc
  induction hrun with
  | nil => exact hdead
  | snoc _ _ hstep ih => exact ih (dead_eq_nil_of_step hstep hdead)

/-- In every run of the process the loop of the call comes to its end; and from there the call
returns without waiting for itself, and has done its work, if and only if every send of the run
found a receiver. -/
theorem broadcast_iff (hstart : s.Starts) (hrun : Run step free s as t) :
    (∃ bs u, Run step free t bs u ∧ u.SentAll) ∧
      (t.SentAll → (t.Broadcasts ↔ Run step SendsToAlive s as t)) := by
  have hgood := hstart.good.run hrun
  refine ⟨exists_sentAll hgood, ?_⟩
  intro hsent
  rw [run_alive_iff hstart hrun]
  constructor
  · intro h
    obtain ⟨bs, u, hrest, hpc⟩ := h.completes
    exact dead_eq_nil_of_returned hgood hrest hpc
  · intro hdead
    exact (hgood.ended hsent hdead).broadcasts hgood

/-- Two subscribers, of whom some may have dropped their receivers. -/
def twoSubscribers (dropped : List ClientId) : State where
  holder _ := none
  publishes := true
  subs := [1, 0]
  nextClient := 2
  dropped := dropped
  pc := .entry
  dead := []
  members := []
  sent := []
  kept := []

theorem starts_twoSubscribers (dropped : List ClientId) : (twoSubscribers dropped).Starts where
  wf := ⟨show [1, 0].Nodup by decide, show ∀ client ∈ [1, 0], client < 2 by decide⟩
  pc := rfl
  holder _ := by simp [twoSubscribers]
  dead := rfl
  sent := rfl

/-- Another thread has the map for a while, and a client leaves after the message has reached
it. -/
theorem broadcast_iff_two : ∃ t : State, t.members = [0, 1] ∧ t.Broadcasts := by
  let labels : List Label := [.call, .call, .call, .acquire 7 .subs, .unsubscribe 7 2,
    .release 7 .subs, .lockSubs [0, 1], .call, .dropReceiver 0, .call]
  let test (t : State) : Bool := t.pc = .sending [] ∧ t.members = [0, 1]
  obtain ⟨t, hrun, ht⟩ := Run.exists_of_exec test
    (show (exec step SendsToAlive (twoSubscribers []) labels).any test = true by decide)
  obtain ⟨hpc, hmembers⟩ := of_decide_eq_true ht
  have hsent : t.SentAll := by
    rw [State.SentAll, hpc]
    trivial
  have hiff := (broadcast_iff (starts_twoSubscribers []) (hrun.mono fun _ _ _ => trivial)).2 hsent
  exact ⟨t, hmembers, hiff.2 hrun⟩

/-- A subscriber that dropped its receiver without unsubscribing. -/
theorem broadcast_stuck : ¬ ∀ s as t, s.Starts → Run step free s as t → t.SentAll →
    t.Broadcasts := by
  intro h
  let labels : List Label := [.call, .call, .call, .lockSubs [0, 1], .call, .call, .call]
  let test (t : State) : Bool :=
    t.pc = .cleanupLock ∧ t.wants = some .subs ∧ t.holder .subs = some .dispatch
  obtain ⟨t, hrun, ht⟩ := Run.exists_of_exec test
    (show (exec step free (twoSubscribers [1]) labels).any test = true by decide)
  obtain ⟨hpc, hwants, hholds⟩ := of_decide_eq_true ht
  have hsent : t.SentAll := by
    rw [State.SentAll, hpc]
    trivial
  exact (h _ _ t (starts_twoSubscribers [1]) hrun hsent).never_waits_for_itself [] t .nil
    ⟨.subs, hwants, hholds⟩

/-- A receiver is dropped, and the last one later on. -/
theorem stuck_of_run_two : ∃ t u, Run step free (twoSubscribers [1])
      [.call, .call, .call, .lockSubs [0, 1], .call, .call, .call] t ∧
    Run step free t [.dropReceiver 0] u ∧ u.holder .subs = some .dispatch := by
  obtain ⟨t, hrun, ht⟩ := Run.exists_of_exec
    (fun t : State => decide (t.pc = .cleanupLock) && (step t (.dropReceiver 0)).isSome)
    (show (exec step free (twoSubscribers [1])
      [.call, .call, .call, .lockSubs [0, 1], .call, .call, .call]).any _ = true by decide)
  rw [Bool.and_eq_true, decide_eq_true_eq, Option.isSome_iff_exists] at ht
  obtain ⟨hpc, u, hstep⟩ := ht
  have hrest : Run step free t [.dropReceiver 0] u := .single trivial hstep
  exact ⟨t, u, hrun, hrest, (stuck_of_run (starts_twoSubscribers [1]) hrun hpc hrest).2⟩

end Vanyline.Sandbox.Broadcast
