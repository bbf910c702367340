import Vanyline.Lib.Run
import Vanyline.Sandbox.CodeHealth

/-!
# Gates

A step `gate` notes the time, asks the sandbox for a new report, with its base if it has one,
and reads the state until that is fresh and was computed after the time it noted.

The model has any number of gates on one sandbox, other refreshes and modifications, and one
clock.  Accepted requests are counted, and a report notes how many there were when its
`run_checks` started.

* `Measured` says that a report that a gate evaluates was computed after the request of this
  gate was accepted, and with its base.
* It fails when the checks already run at that moment, and when another refresh sets another
  base (`gate_fails`).
* `measured_of_run` holds without these (`Sound`).
-/

namespace Vanyline.App.GateSteps

open Vanyline.Lib
open Vanyline.Sandbox (Ref CodeHealth)
open Vanyline.Sandbox.CodeHealth (Report Fields Background Cycle)

/-- Where a gate is: before the request, between the base and the event of that, waiting as the
`number`-th, or at its end. -/
inductive Status
  | posting
  | posted
  | waiting (number : Nat)
  | evaluated (number : Nat) (report : Report)
  | failed

structure Gate where
  base : Option Ref
  t0 : Nat
  status : Status

structure State where
  now : Nat
  accepts : Nat
  health : CodeHealth
  gates : List Gate

def State.init (base : Option Ref) : State := ⟨0, 0, .new base, []⟩

/-- The state that a gate waits for. -/
def accepted (f : Fields) (t0 : Nat) : Option Report :=
  if f.phase = .fresh ∧ (f.computedAt.any fun time => decide (t0 < time)) = true then f.report
  else none

inductive Label
  | tick (n : Nat)
  | start (base : Option Ref)
  | post (i : Nat)
  | accept (i : Nat)
  | read (i : Nat)
  | fail (i : Nat)
  | health (l : CodeHealth.Label)

def Status.fails : Status → Bool
  | .posting | .posted | .waiting _ => true
  | _ => false

def State.setGate (s : State) (i : Nat) (gate : Gate) : State :=
  { s with gates := s.gates.set i gate }

def stepGate (s : State) (i : Nat) (gate : Gate) : Label → Option State
  | .post _ =>
    match gate.status with
    | .posting =>
      (s.health.step s.now s.accepts (.refresh (gate.base.map some) none)).map fun health =>
        { s.setGate i { gate with status := .posted } with health }
    | _ => none
  | .accept _ =>
    match gate.status with
    | .posted =>
      (s.health.step s.now s.accepts (.send .refresh)).map fun health =>
        { s.setGate i { gate with status := .waiting (s.accepts + 1) } with
          health
          accepts := s.accepts + 1 }
    | _ => none
  | .read _ =>
    match gate.status with
    | .waiting number =>
      match accepted s.health.fields gate.t0 with
      | some report => some (s.setGate i { gate with status := .evaluated number report })
      | none => some s
    | _ => none
  | .fail _ =>
    if gate.status.fails then some (s.setGate i { gate with status := .failed }) else none
  | _ => none

def step (s : State) (l : Label) : Option State :=
  match l with
  | .tick n => some { s with now := s.now + n }
  | .start base => some { s with gates := s.gates ++ [⟨base, s.now, .posting⟩] }
  | .post i | .accept i | .read i | .fail i => s.gates[i]?.bind fun gate => stepGate s i gate l
  | .health l => (s.health.step s.now s.accepts l).map fun health => { s with health }

/-! ## The property -/

def Measured (s : State) : Prop :=
  ∀ gate ∈ s.gates, ∀ number report, gate.status = .evaluated number report →
    number ≤ report.stamp ∧ ∀ base, gate.base = some base → report.base = some base

/-! ## The condition -/

/-- The base is the one of the gate, if it gave one. -/
def Gate.agrees (gate : Gate) (base : Option Ref) : Bool := gate.base.all fun b => base == some b

/-- The base of the request is set. -/
def Gate.waits (gate : Gate) : Bool :=
  match gate.status with
  | .posted | .waiting _ => true
  | _ => false

def Gate.Ready (gate : Gate) (h : CodeHealth) : Prop :=
  (h.fields.computedAt.all fun time => decide (time ≤ gate.t0)) = true ∧
    match h.background with
    | .running .. => False
    | .collecting _ base _ => gate.agrees base = true
    | _ => True

/-- A refresh that sets a base sets the one of each gate that waits.  When the request of a gate is
accepted no checks run, the base for the next ones is not read before that of the gate is set, and
no report was made since the gate noted the time. -/
def Sound (s : State) : Label → Prop
  | .post i =>
    match s.gates[i]? with
    | some gate =>
      gate.base.isSome = true →
        ∀ other ∈ s.gates, other.waits = true → other.agrees gate.base = true
    | none => True
  | .health (.refresh (some base) _) =>
    ∀ other ∈ s.gates, other.waits = true → other.agrees base = true
  | .accept i =>
    match s.gates[i]? with
    | some gate => gate.Ready s.health
    | none => True
  | _ => True

/-! ## The invariant -/

variable {s t : State} {l : Label} {gate : Gate} {h h' : CodeHealth} {i n accepts : Nat}

/-- The report is one for the gate with this number. -/
def Gate.Takes (gate : Gate) (number : Nat) (report : Report) : Prop :=
  number ≤ report.stamp ∧ gate.agrees report.base = true

/-- What the gate can come to read: the report, if it is not too old, and the next one. -/
structure Served (h : CodeHealth) (gate : Gate) (number : Nat) : Prop where
  report : ∀ report time, h.fields.report = some report → h.fields.computedAt = some time →
    gate.t0 < time → gate.Takes number report
  collecting : ∀ fingerprint base languages,
    h.background = .collecting fingerprint base languages → gate.agrees base = true
  running : ∀ fingerprint report, h.background = .running fingerprint report →
    gate.Takes number report

structure GateInv (accepts : Nat) (h : CodeHealth) (gate : Gate) : Prop where
  base : gate.waits = true → gate.agrees h.fields.base = true
  number : ∀ number, gate.status = .waiting number → number ≤ accepts ∧ Served h gate number
  evaluated : ∀ number report, gate.status = .evaluated number report → gate.Takes number report

def Inv (s : State) : Prop := ∀ gate ∈ s.gates, GateInv s.accepts s.health gate

theorem agrees_iff {base : Option Ref} :
    gate.agrees base = true ↔ ∀ b, gate.base = some b → base = some b := by
  unfold Gate.agrees
  cases gate.base with
  | none => simp
  | some b => simp

/-! ## The sandbox goes on -/

/-- A step that leaves the reports as they are. -/
theorem Served.same (hs : Served h gate n) (hfields : h.fields.Same h'.fields)
    (hbackground : h'.background.computes = false) : Served h' gate n where
  report := by
    intro report time hreport htime
    rw [hfields.report] at hreport
    rw [hfields.computedAt] at htime
    exact hs.report report time hreport htime
  collecting := by
    intro fingerprint base languages hcollecting
    rw [hcollecting] at hbackground
    cases hbackground
  running := by
    intro fingerprint report hrunning
    rw [hrunning] at hbackground
    cases hbackground

/-- A step of the background task, while the sticky base is the one of the gate. -/
theorem Served.cycle {now : Nat} (hs : Served h gate n) (hn : n ≤ accepts)
    (hbase : gate.agrees h.fields.base = true) (hcycle : Cycle now accepts h h') :
    Served h' gate n := by
  cases hcycle with
  | same hfields hbackground => exact hs.same hfields hbackground
  | begin fingerprint hfields hbackground =>
      refine ⟨?_, ?_, ?_⟩
      · intro report time hreport htime
        rw [hfields.report] at hreport
        rw [hfields.computedAt] at htime
        exact hs.report report time hreport htime
      · intro fp base languages hcollecting
        cases hbackground.symm.trans hcollecting
        exact hbase
      · intro fp report hrunning
        cases hbackground.symm.trans hrunning
  | run fingerprint base languages hfields hbefore hbackground =>
      refine ⟨?_, ?_, ?_⟩
      · rw [hfields]
        exact hs.report
      · intro fp base' languages' hcollecting
        cases hbackground.symm.trans hcollecting
      · intro fp report hrunning
        cases hbackground.symm.trans hrunning
        exact ⟨hn, hs.collecting fingerprint base languages hbefore⟩
  | publish fingerprint report hbefore hfields hbackground =>
      refine ⟨?_, ?_, ?_⟩
      · intro report' time hreport htime _
        rw [hfields] at hreport
        cases hreport
        exact hs.running fingerprint report hbefore
      · intro fp base languages hcollecting
        rw [hcollecting] at hbackground
        cases hbackground
      · intro fp report' hrunning
        rw [hrunning] at hbackground
        cases hbackground

theorem base_of_cycle {now : Nat} (hcycle : Cycle now accepts h h') :
    h'.fields.base = h.fields.base := by
  cases hcycle with
  | same hfields _ => exact hfields.base
  | begin _ hfields _ => exact hfields.base
  | run _ _ _ hfields _ _ => rw [hfields]
  | publish _ _ _ hfields _ => rw [hfields]; rfl

/-- A step of the sandbox that leaves the base to the gates that wait. -/
theorem GateInv.health {now : Nat} {l : CodeHealth.Label} (hs : GateInv accepts h gate)
    (hstep : h.step now accepts l = some h')
    (hbase : ∀ base languages, l = .refresh (some base) languages → gate.waits = true →
      gate.agrees base = true) : GateInv accepts h' gate := by
  have hcases := CodeHealth.step_cases hstep
  refine ⟨?_, ?_, hs.evaluated⟩
  · intro hwaits
    rcases hcases with hcycle | houtside
    · rw [base_of_cycle hcycle]
      exact hs.base hwaits
    · rcases houtside.base with hsame | ⟨languages, hl⟩
      · rw [hsame]
        exact hs.base hwaits
      · exact hbase _ languages hl hwaits
  · intro number hstatus
    obtain ⟨hn, hserved⟩ := hs.number number hstatus
    refine ⟨hn, ?_⟩
    rcases hcases with hcycle | houtside
    · exact hserved.cycle hn (hs.base (by rw [Gate.waits, hstatus])) hcycle
    · refine ⟨?_, ?_, ?_⟩
      · rw [houtside.report, houtside.computedAt]
        exact hserved.report
      · rw [houtside.background]
        exact hserved.collecting
      · rw [houtside.background]
        exact hserved.running

/-! ## Gates go on -/

theorem GateInv.accepts_le {accepts' : Nat} (hs : GateInv accepts h gate)
    (hle : accepts ≤ accepts') : GateInv accepts' h gate :=
  ⟨hs.base, fun number hstatus => ⟨Nat.le_trans (hs.number number hstatus).1 hle,
    (hs.number number hstatus).2⟩, hs.evaluated⟩

/-- A gate that is not at a state that matters. -/
theorem gateInv_of_idle (hposted : gate.waits = false)
    (hevaluated : ∀ number report, gate.status ≠ .evaluated number report) :
    GateInv accepts h gate := by
  refine ⟨?_, ?_, ?_⟩
  · intro hwaits
    rw [hposted] at hwaits
    cases hwaits
  · intro number hstatus
    rw [Gate.waits, hstatus] at hposted
    cases hposted
  · intro number report hstatus
    exact absurd hstatus (hevaluated number report)

theorem Inv.setGate (hs : Inv s) (hgate : GateInv s.accepts s.health gate) :
    Inv (s.setGate i gate) := by
  intro other hmem
  rcases List.mem_or_eq_of_mem_set hmem with hmem | rfl
  · exact hs other hmem
  · exact hgate

theorem inv_init (base : Option Ref) : Inv (.init base) := nofun

theorem Inv.post (hs : Inv s) (hgate : s.gates[i]? = some gate) (hsound : Sound s (.post i))
    (hstep : stepGate s i gate (.post i) = some t) : Inv t := by
  simp only [stepGate] at hstep
  simp only [Sound, hgate] at hsound
  split at hstep
  · next hstatus =>
    obtain ⟨health, hhealth, rfl⟩ := Option.map_eq_some_iff.1 hstep
    intro other hmem
    rcases List.mem_or_eq_of_mem_set hmem with hmem | rfl
    · refine (hs other hmem).health hhealth ?_
      intro base languages hl hwaits
      injection hl with hbase
      obtain ⟨b, hb, rfl⟩ := Option.map_eq_some_iff.1 hbase
      rw [← hb]
      exact hsound (by rw [hb]; rfl) other hmem hwaits
    · cases hhealth
      refine ⟨?_, nofun, nofun⟩
      intro _
      rw [agrees_iff]
      intro b hb
      show (gate.base.map some).getD s.health.fields.base = some b
      rw [show gate.base = some b from hb]
      rfl
  · cases hstep

theorem Inv.accept (hs : Inv s) (hgate : s.gates[i]? = some gate) (hsound : Sound s (.accept i))
    (hstep : stepGate s i gate (.accept i) = some t) : Inv t := by
  simp only [stepGate] at hstep
  simp only [Sound, hgate] at hsound
  obtain ⟨htime, hready⟩ := hsound
  split at hstep
  · next hstatus =>
    obtain ⟨health, hhealth, rfl⟩ := Option.map_eq_some_iff.1 hstep
    have hinv := hs gate (List.mem_of_getElem? hgate)
    intro other hmem
    rcases List.mem_or_eq_of_mem_set hmem with hmem | rfl
    · refine GateInv.accepts_le ((hs other hmem).health hhealth ?_) (Nat.le_succ _)
      intros
      contradiction
    · simp only [CodeHealth.step] at hhealth
      split_ifs at hhealth
      cases hhealth
      have hbase := hinv.base (by rw [Gate.waits, hstatus])
      refine ⟨fun _ => hbase, ?_, by intros; contradiction⟩
      intro number hnumber
      cases hnumber
      refine ⟨Nat.le_refl _, ?_, ?_, ?_⟩
      · intro report time hreport hcomputed hlt
        rw [show s.health.fields.computedAt = some time from hcomputed, Option.all_some,
          decide_eq_true_eq] at htime
        exact absurd hlt (Nat.not_lt_of_le htime)
      · intro fingerprint base languages hcollecting
        rw [show s.health.background = _ from hcollecting] at hready
        exact hready
      · intro fingerprint report hrunning
        rw [show s.health.background = _ from hrunning] at hready
        exact hready.elim
  · cases hstep

theorem Inv.read (hs : Inv s) (hgate : s.gates[i]? = some gate)
    (hstep : stepGate s i gate (.read i) = some t) : Inv t := by
  simp only [stepGate] at hstep
  split at hstep
  · next number hstatus =>
    split at hstep
    · next report haccepted =>
      cases hstep
      obtain ⟨_, hserved⟩ := (hs gate (List.mem_of_getElem? hgate)).number number hstatus
      unfold accepted at haccepted
      split_ifs at haccepted with hfresh
      obtain ⟨time, htime, hlt⟩ := Option.any_eq_true _ _ |>.1 hfresh.2
      have htakes := hserved.report report time haccepted htime (of_decide_eq_true hlt)
      refine hs.setGate ⟨nofun, nofun, ?_⟩
      intro number' report' hevaluated
      cases hevaluated
      exact htakes
    · cases hstep
      exact hs
  · cases hstep

/-- A step that is `Sound` keeps the invariant. -/
theorem inv_step (hs : Inv s) (hsound : Sound s l) (hstep : step s l = some t) : Inv t := by
  cases l with
  | tick n =>
      cases hstep
      exact hs
  | start base =>
      cases hstep
      intro other hmem
      rcases List.mem_append.1 hmem with hmem | hmem
      · exact hs other hmem
      · rw [List.mem_singleton.1 hmem]
        exact gateInv_of_idle rfl nofun
  | post i =>
      obtain ⟨gate, hgate, hstep⟩ := Option.bind_eq_some_iff.1 hstep
      exact hs.post hgate hsound hstep
  | accept i =>
      obtain ⟨gate, hgate, hstep⟩ := Option.bind_eq_some_iff.1 hstep
      exact hs.accept hgate hsound hstep
  | read i =>
      obtain ⟨gate, hgate, hstep⟩ := Option.bind_eq_some_iff.1 hstep
      exact hs.read hgate hstep
  | fail i =>
      obtain ⟨gate, hgate, hstep⟩ := Option.bind_eq_some_iff.1 hstep
      simp only [stepGate] at hstep
      split_ifs at hstep
      cases hstep
      exact hs.setGate (gateInv_of_idle rfl nofun)
  | health l =>
      obtain ⟨health, hhealth, rfl⟩ := Option.map_eq_some_iff.1 hstep
      intro gate hmem
      refine (hs gate hmem).health hhealth ?_
      intro base languages hl
      subst hl
      exact hsound gate hmem

/-- In every run whose steps are `Sound`, the property holds in each state. -/
theorem measured_of_run {base : Option Ref} {ls : List Label} {s : State}
    (hrun : Run step Sound (.init base) ls s) : Measured s := by
  have hs : Inv s := hrun.invariant (inv_init base) fun _ _ _ => inv_step
  intro gate hmem number report hevaluated
  obtain ⟨hnumber, hagrees⟩ := (hs gate hmem).evaluated number report hevaluated
  exact ⟨hnumber, agrees_iff.1 hagrees⟩

/-! ## The failing runs -/

/-- The checks run when the request is accepted. -/
def alreadyRunning : List Label := [.health (.boot true), .health (.fingerprint (some "f".toList)),
  .health .begin, .health .run, .start none, .post 0, .accept 0, .tick 1, .health (.finish true),
  .read 0]

/-- Another gate sets another base. -/
def otherBase : List Label := [.health (.boot false), .start (some "a".toList),
  .start (some "b".toList), .post 0, .accept 0, .post 1, .accept 1, .health .recv,
  .health (.fingerprint (some "f".toList)), .health .begin, .health .run, .tick 1,
  .health (.finish true), .read 0]

/-- A gate has a report that is not its own. -/
def hasOther (s : State) : Bool := s.gates.any fun gate =>
  match gate.status with
  | .evaluated number report => decide (report.stamp < number) || !gate.agrees report.base
  | _ => false

theorem not_measured_of_other (h : hasOther s = true) : ¬ Measured s := by
  intro hs
  obtain ⟨gate, hmem, hother⟩ := List.any_eq_true.1 h
  split at hother
  · next number report hevaluated =>
    obtain ⟨hnumber, hbase⟩ := hs gate hmem number report hevaluated
    rw [Bool.or_eq_true, decide_eq_true_eq, agrees_iff.2 hbase] at hother
    rcases hother with hlt | hfalse
    · exact absurd hnumber (Nat.not_le_of_lt hlt)
    · cases hfalse
  · cases hother

theorem exists_notMeasured {ls : List Label}
    (h : (exec step free (.init none) ls).any hasOther = true) :
    ∃ s, Run step free (.init none) ls s ∧ hasOther s = true ∧ ¬ Measured s := by
  obtain ⟨s, hrun, hs⟩ := Run.exists_of_exec hasOther h
  exact ⟨s, hrun, hs, not_measured_of_other hs⟩

/-- A gate evaluates a report that was begun before its request, or with another base. -/
theorem gate_fails :
    (∃ s, Run step free (.init none) alreadyRunning s ∧ hasOther s = true ∧ ¬ Measured s) ∧
    ∃ s, Run step free (.init none) otherBase s ∧ hasOther s = true ∧ ¬ Measured s :=
  ⟨exists_notMeasured (by decide), exists_notMeasured (by decide)⟩

instance (gate : Gate) (h : CodeHealth) : Decidable (gate.Ready h) :=
  match hbackground : h.background with
  | .running .. => isFalse (by simp only [Gate.Ready, hbackground, and_false, not_false_eq_true])
  | .collecting _ base _ =>
    decidable_of_iff ((h.fields.computedAt.all fun time => decide (time ≤ gate.t0)) = true ∧
      gate.agrees base = true) (by simp only [Gate.Ready, hbackground])
  | .booting | .idle | .polled | .cooling | .fingerprinting _ | .unchanged | .ready _ =>
    decidable_of_iff ((h.fields.computedAt.all fun time => decide (time ≤ gate.t0)) = true ∧ True)
      (by simp only [Gate.Ready, hbackground])

instance (s : State) (l : Label) : Decidable (Sound s l) :=
  match l with
  | .post i =>
    match h : s.gates[i]? with
    | some gate =>
      decidable_of_iff (gate.base.isSome = true →
        ∀ other ∈ s.gates, other.waits = true → other.agrees gate.base = true)
        (by simp only [Sound, h])
    | none => isTrue (by simp only [Sound, h])
  | .health (.refresh (some base) _) =>
    inferInstanceAs (Decidable (∀ other ∈ s.gates, other.waits = true → other.agrees base = true))
  | .accept i =>
    match h : s.gates[i]? with
    | some gate => decidable_of_iff (gate.Ready s.health) (by simp only [Sound, h])
    | none => isTrue (by simp only [Sound, h])
  | .tick _ | .start _ | .read _ | .fail _ | .health (.refresh none _) | .health .modify
  | .health (.send _) | .health (.boot _) | .health .recv | .health (.poll _)
  | .health (.worktree _) | .health .cool | .health .calm | .health (.fingerprint _)
  | .health .markFresh | .health .begin | .health .run | .health (.finish _) => isTrue trivial

/-- The request starts a computation, and its report is read. -/
def ownReport : List Label := [.health (.boot false), .start (some "a".toList), .post 0, .accept 0,
  .health .recv, .health (.fingerprint (some "f".toList)), .health .begin, .health .run, .read 0,
  .tick 1, .health (.finish true), .read 0]

def hasOwn (s : State) : Bool := s.gates.any fun gate =>
  match gate.status with
  | .evaluated number report => decide (number ≤ report.stamp) && gate.agrees report.base
  | _ => false

theorem measured_ownReport : ∃ s, Run step Sound (.init none) ownReport s ∧ hasOwn s = true ∧
    Measured s := by
  obtain ⟨s, hrun, hs⟩ := Run.exists_of_exec hasOwn
    (show (exec step Sound (.init none) ownReport).any _ = true by decide)
  exact ⟨s, hrun, hs, measured_of_run hrun⟩

end Vanyline.App.GateSteps
