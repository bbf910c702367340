import Mathlib.Data.List.Basic

/-!
# The health of the code

The sandbox keeps a report about its worktree up to date.  A background task takes the events
of a channel, waits until nothing more is modified, compares a fingerprint with that of the
last report, and runs the checks.  `refresh` sets the base of the next reports and asks for
one whatever the fingerprint is; `snapshot` reads the state at any time.

* A section of the lock, and what is between two awaits, is one step.
* What `git` and the checks answer comes with the label.
* A pause of zero is one that is over at once (`calm`).

`step_cases` says what a step does to the reports.
-/

namespace Vanyline.Sandbox

/-- A git ref. -/
abbrev Ref := List Char

namespace CodeHealth

abbrev Language := List Char

abbrev Fingerprint := List Char

inductive Phase
  | computing
  | fresh
  | stale
  deriving DecidableEq

inductive Event
  | modified
  | refresh
  deriving DecidableEq

/-- A report, by what it is computed with.  Without `languages` these are detected.  `stamp` is
what an observer has counted when its `run_checks` starts. -/
structure Report where
  base : Option Ref
  languages : Option (List Language)
  stamp : Nat
  deriving DecidableEq

structure Fields where
  phase : Phase
  report : Option Report
  computedAt : Option Nat
  staleSince : Option Nat
  base : Option Ref
  languagesOverride : Option (List Language)
  lastFingerprint : Option Fingerprint
  computing : Bool
  dirty : Bool

namespace Fields

variable (f : Fields) (now : Nat) (fingerprint : Option Fingerprint)

def new (base : Option Ref) : Fields where
  phase := .computing
  report := none
  computedAt := none
  staleSince := none
  base := base
  languagesOverride := none
  lastFingerprint := none
  computing := false
  dirty := false

def markStale : Fields :=
  if f.phase = .stale then f else { f with phase := .stale, staleSince := some now }

def markFresh : Fields :=
  if f.computing then f else { f with phase := .fresh, staleSince := none }

def notifyModified : Fields :=
  (if f.computing then { f with dirty := true } else f).markStale now

/-- An absent base leaves the sticky one, and `null` takes it away. -/
def refresh (base : Option (Option Ref)) (languages : Option (List Language)) : Fields :=
  { f with
    base := base.getD f.base
    languagesOverride := languages.or f.languagesOverride }

/-- Is this the fingerprint of the last report? -/
def sees : Bool := fingerprint.isSome && fingerprint == f.lastFingerprint

/-- `compute` up to its first await. -/
def begin : Fields :=
  { f with
    computing := true
    dirty := false
    phase := if f.phase = .stale then .stale else .computing }

/-- `run_checks` gave a report. -/
def publish (report : Report) : Fields :=
  { f with
    report := some report
    computedAt := some now
    lastFingerprint := fingerprint
    computing := false
    phase := if f.dirty then .stale else .fresh
    staleSince := if f.dirty then f.staleSince else none }

/-- `run_checks` gave an error. -/
def fail : Fields :=
  let f := { f with computing := false }
  if f.sees fingerprint && f.report.isSome && !f.dirty then
    { f with phase := .fresh, staleSince := none }
  else f.markStale now

end Fields

/-- Where the background task is. -/
inductive Background
  | booting
  | idle
  | polled
  | cooling
  | fingerprinting (forced : Bool)
  | unchanged
  | ready (fingerprint : Option Fingerprint)
  | collecting (fingerprint : Option Fingerprint) (base : Option Ref)
      (languages : Option (List Language))
  | running (fingerprint : Option Fingerprint) (report : Report)

end CodeHealth

open CodeHealth in
/-- The state, the events that are to be sent after a section of the lock, and the channel. -/
structure CodeHealth where
  fields : Fields
  unsent : List Event
  queue : List Event
  background : Background

namespace CodeHealth

def new (base : Option Ref) : CodeHealth := ⟨.new base, [], [], .booting⟩

inductive Label
  | modify
  | refresh (base : Option (Option Ref)) (languages : Option (List Language))
  | send (event : Event)
  | boot (worktree : Bool)
  | recv
  | poll (fingerprint : Option Fingerprint)
  | worktree (present : Bool)
  | cool
  | calm
  | fingerprint (fingerprint : Option Fingerprint)
  | markFresh
  | begin
  | run
  | finish (ok : Bool)

variable (now stamp : Nat) (h : CodeHealth)

/-- The trigger of a cycle. -/
def trigger : Event → Background
  | .modified => .cooling
  | .refresh => .fingerprinting true

/-- A step of the background task. -/
def cycle : Label → Option CodeHealth
  | .boot worktree =>
    match h.background with
    | .booting => some { h with background := if worktree then .fingerprinting true else .idle }
    | _ => none
  | .recv =>
    match h.background, h.queue with
    | .idle, event :: queue => some { h with queue, background := trigger event }
    | _, _ => none
  | .poll fingerprint =>
    match h.background with
    | .idle => some { h with background := if h.fields.sees fingerprint then .idle else .polled }
    | _ => none
  | .worktree present =>
    match h.background with
    | .polled =>
      if present then some { h with fields := h.fields.markStale now, background := .cooling }
      else some { h with background := .idle }
    | _ => none
  | .cool =>
    match h.background, h.queue with
    | .cooling, event :: queue => some { h with queue, background := trigger event }
    | _, _ => none
  | .calm =>
    match h.background with
    | .cooling => some { h with background := .fingerprinting false }
    | _ => none
  | .fingerprint fingerprint =>
    match h.background with
    | .fingerprinting forced =>
      some { h with
        background :=
          if !forced && h.fields.sees fingerprint then .unchanged else .ready fingerprint }
    | _ => none
  | .markFresh =>
    match h.background with
    | .unchanged => some { h with fields := h.fields.markFresh, background := .idle }
    | _ => none
  | .begin =>
    match h.background with
    | .ready fingerprint =>
      some { h with
        fields := h.fields.begin
        background := .collecting fingerprint h.fields.base h.fields.languagesOverride }
    | _ => none
  | .run =>
    match h.background with
    | .collecting fingerprint base languages =>
      some { h with background := .running fingerprint ⟨base, languages, stamp⟩ }
    | _ => none
  | .finish ok =>
    match h.background with
    | .running fingerprint report =>
      some { h with
        fields :=
          if ok then h.fields.publish now fingerprint report else h.fields.fail now fingerprint
        background := .idle }
    | _ => none
  | _ => none

def step : Label → Option CodeHealth
  | .modify =>
    some { h with fields := h.fields.notifyModified now, unsent := .modified :: h.unsent }
  | .refresh base languages =>
    some { h with fields := h.fields.refresh base languages, unsent := .refresh :: h.unsent }
  | .send event =>
    if event ∈ h.unsent then
      some { h with unsent := h.unsent.erase event, queue := h.queue ++ [event] }
    else none
  | l => h.cycle now stamp l

/-! ## What a step does to the reports -/

/-- The report, its time and the base stay. -/
structure Fields.Same (f f' : Fields) : Prop where
  report : f'.report = f.report
  computedAt : f'.computedAt = f.computedAt
  base : f'.base = f.base

namespace Fields

variable (f : Fields) (now : Nat)

theorem Same.refl : Same f f := ⟨rfl, rfl, rfl⟩

theorem same_markStale : Same f (f.markStale now) := by
  unfold markStale
  split_ifs
  · exact Same.refl f
  · exact ⟨rfl, rfl, rfl⟩

theorem same_markFresh : Same f f.markFresh := by
  unfold markFresh
  split_ifs
  · exact Same.refl f
  · exact ⟨rfl, rfl, rfl⟩

theorem same_notifyModified : Same f (f.notifyModified now) := by
  unfold notifyModified
  split_ifs
  · have hstale := same_markStale { f with dirty := true } now
    exact ⟨hstale.report, hstale.computedAt, hstale.base⟩
  · exact same_markStale f now

theorem same_fail (fingerprint : Option Fingerprint) : Same f (f.fail now fingerprint) := by
  unfold fail
  dsimp only
  split_ifs
  · exact ⟨rfl, rfl, rfl⟩
  · have hstale := same_markStale { f with computing := false } now
    exact ⟨hstale.report, hstale.computedAt, hstale.base⟩

end Fields

/-- The task has read the base for a computation, or runs the checks. -/
def Background.computes : Background → Bool
  | .collecting .. | .running .. => true
  | _ => false

variable {now stamp : Nat} {h h' : CodeHealth} {l : Label}

/-- What a step of the background task does: nothing to the reports, the start of a computation, the
start of its checks, or its report. -/
inductive Cycle (now stamp : Nat) (h h' : CodeHealth) : Prop
  | same (fields : h.fields.Same h'.fields) (background : h'.background.computes = false)
  | begin (fingerprint : Option Fingerprint) (fields : h.fields.Same h'.fields)
      (background : h'.background =
        .collecting fingerprint h.fields.base h.fields.languagesOverride)
  | run (fingerprint : Option Fingerprint) (base : Option Ref) (languages : Option (List Language))
      (fields : h'.fields = h.fields)
      (before : h.background = .collecting fingerprint base languages)
      (background : h'.background = .running fingerprint ⟨base, languages, stamp⟩)
  | publish (fingerprint : Option Fingerprint) (report : Report)
      (before : h.background = .running fingerprint report)
      (fields : h'.fields = h.fields.publish now fingerprint report)
      (background : h'.background.computes = false)

theorem trigger_computes (event : Event) : (trigger event).computes = false := by
  cases event <;> rfl

theorem cycle_cases (hstep : h.cycle now stamp l = some h') : Cycle now stamp h h' := by
  cases l with
  | boot worktree =>
      simp only [cycle] at hstep
      split at hstep
      · cases hstep
        cases worktree <;> exact .same (.refl _) rfl
      · cases hstep
  | recv =>
      simp only [cycle] at hstep
      split at hstep
      · cases hstep
        exact .same (.refl _) (trigger_computes _)
      · cases hstep
  | poll fingerprint =>
      simp only [cycle] at hstep
      split at hstep
      · cases hstep
        refine .same (.refl _) ?_
        dsimp only
        split_ifs <;> rfl
      · cases hstep
  | worktree present =>
      simp only [cycle] at hstep
      split at hstep
      · split_ifs at hstep
        · cases hstep
          exact .same (h.fields.same_markStale now) rfl
        · cases hstep
          exact .same (.refl _) rfl
      · cases hstep
  | cool =>
      simp only [cycle] at hstep
      split at hstep
      · cases hstep
        exact .same (.refl _) (trigger_computes _)
      · cases hstep
  | calm =>
      simp only [cycle] at hstep
      split at hstep
      · cases hstep
        exact .same (.refl _) rfl
      · cases hstep
  | fingerprint fingerprint =>
      simp only [cycle] at hstep
      split at hstep
      · cases hstep
        refine .same (.refl _) ?_
        dsimp only
        split_ifs <;> rfl
      · cases hstep
  | markFresh =>
      simp only [cycle] at hstep
      split at hstep
      · cases hstep
        exact .same h.fields.same_markFresh rfl
      · cases hstep
  | begin =>
      simp only [cycle] at hstep
      split at hstep
      · next fingerprint _ =>
        cases hstep
        exact .begin fingerprint ⟨rfl, rfl, rfl⟩ rfl
      · cases hstep
  | run =>
      simp only [cycle] at hstep
      split at hstep
      · next fingerprint base languages hbefore =>
        cases hstep
        exact .run fingerprint base languages rfl hbefore rfl
      · cases hstep
  | finish ok =>
      simp only [cycle] at hstep
      split at hstep
      · next fingerprint report hbefore =>
        cases hstep
        cases ok with
        | false => exact .same (h.fields.same_fail now fingerprint) rfl
        | true => exact .publish fingerprint report hbefore rfl rfl
      · cases hstep
  | _ => cases hstep

/-- A step of another than the task: the reports stay, and the base is the one of a refresh. -/
structure Outside (l : Label) (h h' : CodeHealth) : Prop where
  report : h'.fields.report = h.fields.report
  computedAt : h'.fields.computedAt = h.fields.computedAt
  base : h'.fields.base = h.fields.base ∨ ∃ languages, l = .refresh (some h'.fields.base) languages
  background : h'.background = h.background

theorem step_cases (hstep : h.step now stamp l = some h') :
    Cycle now stamp h h' ∨ Outside l h h' := by
  cases l with
  | modify =>
      cases hstep
      have hsame := h.fields.same_notifyModified now
      exact .inr ⟨hsame.report, hsame.computedAt, .inl hsame.base, rfl⟩
  | refresh base languages =>
      cases hstep
      cases base with
      | none => exact .inr ⟨rfl, rfl, .inl rfl, rfl⟩
      | some base => exact .inr ⟨rfl, rfl, .inr ⟨languages, rfl⟩, rfl⟩
  | send event =>
      simp only [step] at hstep
      split_ifs at hstep
      cases hstep
      exact .inr ⟨rfl, rfl, .inl rfl, rfl⟩
  | boot present => exact .inl (cycle_cases (l := .boot present) hstep)
  | recv => exact .inl (cycle_cases (l := .recv) hstep)
  | poll fingerprint => exact .inl (cycle_cases (l := .poll fingerprint) hstep)
  | worktree present => exact .inl (cycle_cases (l := .worktree present) hstep)
  | cool => exact .inl (cycle_cases (l := .cool) hstep)
  | calm => exact .inl (cycle_cases (l := .calm) hstep)
  | fingerprint fingerprint => exact .inl (cycle_cases (l := .fingerprint fingerprint) hstep)
  | markFresh => exact .inl (cycle_cases (l := .markFresh) hstep)
  | begin => exact .inl (cycle_cases (l := .begin) hstep)
  | run => exact .inl (cycle_cases (l := .run) hstep)
  | finish ok => exact .inl (cycle_cases (l := .finish ok) hstep)

end CodeHealth

end Vanyline.Sandbox
