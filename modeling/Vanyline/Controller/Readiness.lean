import Mathlib.Logic.Function.Basic
import Vanyline.Lib.Run

/-!
# Readiness of Projects and Sandboxes

The reconciler of a Project starts an init Job and reports `cloned` once the Job
has succeeded; the reconciler of a Sandbox waits for `cloned`, starts a checkout
Job, then the Pod, and reports its phase.  Both look their Job up again on every
apply, and start it when it is not there.

The model has one Owner namespace with any number of Projects and Sandboxes.  An
apply takes its reads and writes in several steps, and the steps of different
objects interleave.  Around the reconcilers, time passes, Jobs succeed or fail,
Pods change their phase, the Owner becomes ready, and the garbage collector
removes a finished Job after its time to live.

The log records what the applies report and start, newest first.  `Stable` says
that readiness never goes back.  It fails: the Job that success is derived from
is asked to disappear after an hour, and then `cloned` is false again and both
Jobs are started anew.  `stable_of_run` proves stability for the runs in which
every apply that comes after a success still finds the Job (`JobStillThere`).
-/

namespace Vanyline.Controller.Readiness

open Vanyline.Lib

/-- The name of an object. -/
abbrev Name := List Char

/-! ## Objects -/

def initJobName (project : Name) : Name := "project-".toList ++ project ++ "-init".toList

def checkoutJobName (sandbox : Name) : Name := "sandbox-".toList ++ sandbox ++ "-checkout".toList

/-- How far a Job is, and when it finished. -/
inductive JobState
  | running
  | failed (finishedAt : Nat)
  | succeeded (finishedAt : Nat)
  deriving DecidableEq

structure Job where
  backoffLimit : Nat
  ttlSecondsAfterFinished : Nat
  state : JobState
  deriving DecidableEq

/-- `job.status.succeeded`, zero when it is not set. -/
def Job.succeeded (job : Job) : Nat :=
  match job.state with
  | .succeeded _ => 1
  | _ => 0

def Job.finishedAt (job : Job) : Option Nat :=
  match job.state with
  | .running => none
  | .failed t | .succeeded t => some t

/-- The init Job as it is created. -/
def buildInitJob : Job := ⟨3, 3600, .running⟩

/-- The checkout Job as it is created. -/
def buildCheckoutJob : Job := ⟨3, 3600, .running⟩

inductive PodPhase
  | pending
  | running
  | succeeded
  | failed
  | unknown
  deriving DecidableEq

/-- The phase in the status of a Sandbox. -/
inductive Phase
  | provisioning
  | running
  | suspended
  | failed
  deriving DecidableEq

structure OwnerStatus where
  pvcName : Option Name
  serviceAccount : Option Name

structure SandboxSpec where
  project : Name
  suspended : Bool

/-- What does not change: the issuer of tokens, the Owner and the Sandboxes. -/
structure Config where
  tokenIssuer : Option Name
  owner : Name
  sandbox : Name → SandboxSpec

inductive ControllerError
  | ownerNotReady (owner project : Name)
  | projectNotReady (project sandbox : Name)
  | sandboxIssuerUnavailable
  deriving DecidableEq

/-- The marker at the start of the error text. -/
def ControllerError.code : ControllerError → String
  | .ownerNotReady _ _ => "VNL-CTL-002"
  | .projectNotReady _ _ => "VNL-CTL-005"
  | .sandboxIssuerUnavailable => "VNL-CTL-011"

/-! ## Steps -/

/-- An apply of a Project on its way: after the lookup of the init Job. -/
inductive ProjectCall
  | idle
  | decided (cloned : Bool)
  deriving DecidableEq

/-- An apply of a Sandbox on its way: past the gate, after the lookup of the
checkout Job, after the lookup of the Pod. -/
inductive SandboxCall
  | idle
  | gated
  | checked (checkedOut : Bool)
  | phased (phase : Phase)
  deriving DecidableEq

/-- What an observer of the applies sees.  The report of a Sandbox comes with
whether its Pod is running at that moment. -/
inductive Event
  | projectReported (project : Name) (cloned : Bool)
  | projectRefused (project : Name) (error : ControllerError)
  | initStarted (project : Name)
  | sandboxReported (sandbox : Name) (phase : Phase) (podRunning : Bool)
  | sandboxRefused (sandbox : Name) (error : ControllerError)
  | checkoutStarted (sandbox : Name)
  | podLeft (sandbox : Name)
  deriving DecidableEq

structure State where
  now : Nat
  owner : OwnerStatus
  jobs : Name → Option Job
  pods : Name → Option PodPhase
  cloned : Name → Bool
  phase : Name → Option Phase
  projectCall : Name → ProjectCall
  sandboxCall : Name → SandboxCall
  log : List Event

inductive Action
  | projectJob (project : Name)
  | projectStatus (project : Name)
  | sandboxGate (sandbox : Name)
  | sandboxJob (sandbox : Name)
  | sandboxPod (sandbox : Name)
  | sandboxStatus (sandbox : Name)
  | ownerStatus (pvcName serviceAccount : Name)
  | tick (seconds : Nat)
  | jobEnds (name : Name) (success : Bool)
  | collect (name : Name)
  | podPhase (sandbox : Name) (phase : Option PodPhase)

/-- The log of a Pod that gets the phase `phase`. -/
def podLog (s : State) (n : Name) (phase : Option PodPhase) : List Event :=
  if s.pods n = some .running ∧ phase ≠ some .running then .podLeft n :: s.log else s.log

/-- The first half of an apply of a Project: the Owner, and the init Job. -/
def projectJob (cfg : Config) (s : State) (p : Name) : State :=
  match s.owner.pvcName with
  | none => { s with log := .projectRefused p (.ownerNotReady cfg.owner p) :: s.log }
  | some _ =>
    match s.jobs (initJobName p) with
    | some job =>
      { s with projectCall := Function.update s.projectCall p (.decided (0 < job.succeeded)) }
    | none =>
      { s with
        jobs := Function.update s.jobs (initJobName p) (some buildInitJob)
        projectCall := Function.update s.projectCall p (.decided false)
        log := .initStarted p :: s.log }

/-- The start of an apply of a Sandbox: the issuer, the Project and the Owner. -/
def sandboxGate (cfg : Config) (s : State) (n : Name) : State :=
  let project := (cfg.sandbox n).project
  if cfg.tokenIssuer.all (· = []) then
    { s with log := .sandboxRefused n .sandboxIssuerUnavailable :: s.log }
  else if !s.cloned project then
    { s with log := .sandboxRefused n (.projectNotReady project n) :: s.log }
  else
    match s.owner.pvcName, s.owner.serviceAccount with
    | some _, some _ => { s with sandboxCall := Function.update s.sandboxCall n .gated }
    | _, _ => { s with log := .sandboxRefused n (.ownerNotReady cfg.owner project) :: s.log }

/-- The checkout Job. -/
def sandboxJob (s : State) (n : Name) : State :=
  match s.jobs (checkoutJobName n) with
  | some job =>
    { s with sandboxCall := Function.update s.sandboxCall n (.checked (0 < job.succeeded)) }
  | none =>
    { s with
      jobs := Function.update s.jobs (checkoutJobName n) (some buildCheckoutJob)
      sandboxCall := Function.update s.sandboxCall n (.checked false)
      log := .checkoutStarted n :: s.log }

/-- The Pod: deleted when suspended, created when missing, else looked at. -/
def sandboxPod (cfg : Config) (s : State) (n : Name) (checkedOut : Bool) : State :=
  if (cfg.sandbox n).suspended then
    { s with
      pods := Function.update s.pods n none
      sandboxCall := Function.update s.sandboxCall n (.phased .suspended)
      log := podLog s n none }
  else if !checkedOut then
    { s with sandboxCall := Function.update s.sandboxCall n (.phased .provisioning) }
  else
    match s.pods n with
    | none =>
      { s with
        pods := Function.update s.pods n (some .pending)
        sandboxCall := Function.update s.sandboxCall n (.phased .provisioning) }
    | some .running => { s with sandboxCall := Function.update s.sandboxCall n (.phased .running) }
    | some .failed => { s with sandboxCall := Function.update s.sandboxCall n (.phased .failed) }
    | some _ => { s with sandboxCall := Function.update s.sandboxCall n (.phased .provisioning) }

/-- One step of a reconciler or of the cluster. -/
def step (cfg : Config) (s : State) : Action → Option State
  | .projectJob p => if s.projectCall p = .idle then some (projectJob cfg s p) else none
  | .projectStatus p =>
    match s.projectCall p with
    | .decided c =>
      some { s with
        cloned := Function.update s.cloned p c
        projectCall := Function.update s.projectCall p .idle
        log := .projectReported p c :: s.log }
    | .idle => none
  | .sandboxGate n => if s.sandboxCall n = .idle then some (sandboxGate cfg s n) else none
  | .sandboxJob n => if s.sandboxCall n = .gated then some (sandboxJob s n) else none
  | .sandboxPod n =>
    match s.sandboxCall n with
    | .checked checkedOut => some (sandboxPod cfg s n checkedOut)
    | _ => none
  | .sandboxStatus n =>
    match s.sandboxCall n with
    | .phased phase =>
      some { s with
        phase := Function.update s.phase n (some phase)
        sandboxCall := Function.update s.sandboxCall n .idle
        log := .sandboxReported n phase (s.pods n = some .running) :: s.log }
    | _ => none
  | .ownerStatus pvc sa => some { s with owner := ⟨some pvc, some sa⟩ }
  | .tick seconds => some { s with now := s.now + seconds }
  | .jobEnds name success =>
    match s.jobs name with
    | some ⟨backoff, ttl, .running⟩ =>
      some { s with
        jobs := Function.update s.jobs name
          (some ⟨backoff, ttl, if success then .succeeded s.now else .failed s.now⟩) }
    | _ => none
  | .collect name =>
    match s.jobs name with
    | some job =>
      if job.finishedAt.any (· + job.ttlSecondsAfterFinished ≤ s.now) then
        some { s with jobs := Function.update s.jobs name none }
      else none
    | none => none
  | .podPhase n phase =>
    if (s.pods n).isSome then
      some { s with pods := Function.update s.pods n phase, log := podLog s n phase }
    else none

/-- A namespace in which nothing has been reconciled yet. -/
def State.init : State :=
  ⟨0, ⟨none, none⟩, fun _ => none, fun _ => none, fun _ => false, fun _ => none,
    fun _ => .idle, fun _ => .idle, []⟩

/-! ## Stability -/

/-- The Project has been reported as cloned. -/
def EverCloned (log : List Event) (p : Name) : Prop := .projectReported p true ∈ log

/-- The Sandbox has been reported as running, and its Pod has been running ever
since. -/
def Live : List Event → Name → Prop
  | [], _ => False
  | .sandboxReported m .running true :: log, n => m = n ∨ Live log n
  | .podLeft m :: log, n => m ≠ n ∧ Live log n
  | _ :: log, n => Live log n

instance decidableLive : (log : List Event) → (n : Name) → Decidable (Live log n)
  | [], _ => isFalse id
  | e :: log, n =>
    have := decidableLive log n
    match e with
    | .sandboxReported m .running true => inferInstanceAs (Decidable (m = n ∨ Live log n))
    | .podLeft m => inferInstanceAs (Decidable (m ≠ n ∧ Live log n))
    | .sandboxReported _ .running false | .sandboxReported _ .provisioning _
    | .sandboxReported _ .suspended _ | .sandboxReported _ .failed _ | .projectReported _ _
    | .projectRefused _ _ | .initStarted _ | .sandboxRefused _ _ | .checkoutStarted _ => this

/-- What may happen next after `log`: a cloned Project is reported as cloned and
its init Job is not started again, and a live Sandbox is reported as running, is
not refused, and its checkout Job is not started again. -/
def Allowed (log : List Event) : Event → Prop
  | .projectReported p c => EverCloned log p → c = true
  | .projectRefused p _ => ¬ EverCloned log p
  | .initStarted p => ¬ EverCloned log p
  | .sandboxReported n phase _ => Live log n → phase = .running
  | .sandboxRefused n _ => ¬ Live log n
  | .checkoutStarted n => ¬ Live log n
  | .podLeft _ => True

/-- Readiness never goes back. -/
def Stable : List Event → Prop
  | [] => True
  | e :: log => Allowed log e ∧ Stable log

/-- An apply after a success still finds the Job that the success came from. -/
def JobStillThere (s : State) : Action → Prop
  | .projectJob p => EverCloned s.log p → s.jobs (initJobName p) ≠ none
  | .sandboxJob n => Live s.log n → s.jobs (checkoutJobName n) ≠ none
  | _ => True

instance (log : List Event) (p : Name) : Decidable (EverCloned log p) :=
  inferInstanceAs (Decidable (_ ∈ log))

instance (s : State) : (a : Action) → Decidable (JobStillThere s a)
  | .projectJob p =>
    inferInstanceAs (Decidable (EverCloned s.log p → s.jobs (initJobName p) ≠ none))
  | .sandboxJob n =>
    inferInstanceAs (Decidable (Live s.log n → s.jobs (checkoutJobName n) ≠ none))
  | .projectStatus _ | .sandboxGate _ | .sandboxPod _ | .sandboxStatus _ | .ownerStatus _ _
  | .tick _ | .jobEnds _ _ | .collect _ | .podPhase _ _ => isTrue trivial

/-! ## Names of Jobs -/

theorem initJobName_inj {p q : Name} : initJobName p = initJobName q ↔ p = q := by
  unfold initJobName
  generalize "project-".toList = front
  generalize "-init".toList = back
  simp

theorem checkoutJobName_inj {m n : Name} : checkoutJobName m = checkoutJobName n ↔ m = n := by
  unfold checkoutJobName
  generalize "sandbox-".toList = front
  generalize "-checkout".toList = back
  simp

theorem initJobName_ne_checkoutJobName (p n : Name) : initJobName p ≠ checkoutJobName n := by
  intro h
  have hp : (initJobName p).head? = some 'p' := rfl
  have hn : (checkoutJobName n).head? = some 's' := rfl
  rw [h, hn] at hp
  exact absurd hp (by decide)

/-! ## Jobs that are done, if they are there -/

/-- The Job of this name has succeeded, or is gone. -/
def DoneIfPresent (jobs : Name → Option Job) (name : Name) : Prop :=
  ∀ job, jobs name = some job → 0 < job.succeeded

/-- Nothing that happens to other Jobs matters. -/
theorem DoneIfPresent.update_of_ne {jobs : Name → Option Job} {name other : Name}
    (h : DoneIfPresent jobs name) (hne : other ≠ name) (job : Option Job) :
    DoneIfPresent (Function.update jobs other job) name := by
  intro j hj
  rw [Function.update_of_ne hne.symm] at hj
  exact h j hj

/-- The collector only removes. -/
theorem DoneIfPresent.collect {jobs : Name → Option Job} {name other : Name}
    (h : DoneIfPresent jobs name) : DoneIfPresent (Function.update jobs other none) name := by
  intro j hj
  by_cases heq : name = other
  · simp [heq] at hj
  · rw [Function.update_of_ne heq] at hj
    exact h j hj

/-- A Job that is still running is none that is done. -/
theorem DoneIfPresent.ne_of_running {jobs : Name → Option Job} {name other : Name} {job : Job}
    (h : DoneIfPresent jobs name) (hjob : jobs other = some job) (hrun : job.succeeded = 0) :
    other ≠ name := by
  rintro rfl
  have := h job hjob
  omega

/-! ## The invariant -/

/-- What a Project that was reported as cloned has. -/
structure Settled (s : State) (p : Name) : Prop where
  job : DoneIfPresent s.jobs (initJobName p)
  cloned : s.cloned p = true
  call : s.projectCall p ≠ .decided false

/-- What an apply of a Sandbox that passed the gate has seen. -/
structure Gated (cfg : Config) (log : List Event) (owner : OwnerStatus) (n : Name) : Prop where
  project : EverCloned log (cfg.sandbox n).project
  issuer : ¬ cfg.tokenIssuer.all (· = [])
  pvc : owner.pvcName.isSome
  account : owner.serviceAccount.isSome

/-- What a live Sandbox has. -/
structure Serving (cfg : Config) (s : State) (n : Name) : Prop where
  gate : Gated cfg s.log s.owner n
  active : (cfg.sandbox n).suspended = false
  pod : s.pods n = some .running
  job : DoneIfPresent s.jobs (checkoutJobName n)
  checked : s.sandboxCall n ≠ .checked false
  phased : ∀ phase, s.sandboxCall n = .phased phase → phase = .running

structure Inv (cfg : Config) (s : State) : Prop where
  stable : Stable s.log
  everCloned : ∀ p, s.cloned p = true → EverCloned s.log p
  settled : ∀ p, EverCloned s.log p → Settled s p ∧ s.owner.pvcName.isSome
  decided : ∀ p, s.projectCall p = .decided true →
    DoneIfPresent s.jobs (initJobName p) ∧ s.owner.pvcName.isSome
  gated : ∀ n, s.sandboxCall n ≠ .idle → Gated cfg s.log s.owner n
  checked : ∀ n, s.sandboxCall n = .checked true → DoneIfPresent s.jobs (checkoutJobName n)
  phased : ∀ n, s.sandboxCall n = .phased .running →
    DoneIfPresent s.jobs (checkoutJobName n) ∧ (cfg.sandbox n).suspended = false
  serving : ∀ n, Live s.log n → Serving cfg s n

theorem inv_init (cfg : Config) : Inv cfg .init where
  stable := trivial
  everCloned p h := by simp [State.init] at h
  settled p h := by simp [State.init, EverCloned] at h
  decided p h := by simp [State.init] at h
  gated n h := by simp [State.init] at h
  checked n h := by simp [State.init] at h
  phased n h := by simp [State.init] at h
  serving n h := by simp [State.init, Live] at h

variable {cfg : Config} {s t : State}

/-! ## What each change keeps -/

/-- More events, and a ready Owner, keep what was seen at the gate. -/
theorem Gated.mono {log log' : List Event} {owner owner' : OwnerStatus} {n : Name}
    (h : Gated cfg log owner n) (hlog : ∀ p, EverCloned log p → EverCloned log' p)
    (hpvc : owner.pvcName.isSome → owner'.pvcName.isSome)
    (haccount : owner.serviceAccount.isSome → owner'.serviceAccount.isSome) :
    Gated cfg log' owner' n :=
  ⟨hlog _ h.project, h.issuer, hpvc h.pvc, haccount h.account⟩

/-- An event that says nothing about readiness. -/
def Inert : Event → Prop
  | .projectRefused _ _ | .initStarted _ | .sandboxRefused _ _ | .checkoutStarted _ => True
  | _ => False

theorem everCloned_inert {e : Event} (he : Inert e) {log : List Event} {p : Name} :
    EverCloned (e :: log) p ↔ EverCloned log p := by
  cases e <;> simp_all [Inert, EverCloned]

theorem live_inert {e : Event} (he : Inert e) {log : List Event} {n : Name} :
    Live (e :: log) n ↔ Live log n := by
  cases e <;> simp_all [Inert, Live]

/-- Logging an inert event that is allowed. -/
theorem Inv.logged (hs : Inv cfg s) {e : Event} (he : Inert e) (hallowed : Allowed s.log e) :
    Inv cfg { s with log := e :: s.log } where
  stable := ⟨hallowed, hs.stable⟩
  everCloned p hp := (everCloned_inert he).2 (hs.everCloned p hp)
  settled p hp := by
    obtain ⟨hset, hpvc⟩ := hs.settled p ((everCloned_inert he).1 hp)
    exact ⟨⟨hset.job, hset.cloned, hset.call⟩, hpvc⟩
  decided := hs.decided
  gated n hn := (hs.gated n hn).mono (fun _ => (everCloned_inert he).2) id id
  checked := hs.checked
  phased := hs.phased
  serving n hn := by
    obtain ⟨hgate, hactive, hpod, hjob, hchecked, hphased⟩ := hs.serving n ((live_inert he).1 hn)
    exact ⟨hgate.mono (fun _ => (everCloned_inert he).2) id id, hactive, hpod, hjob, hchecked,
      hphased⟩

/-- Changing the Jobs, when those that readiness came from stay done. -/
theorem Inv.withJobs (hs : Inv cfg s) {jobs : Name → Option Job}
    (hinit : ∀ p, EverCloned s.log p ∨ s.projectCall p = .decided true →
      DoneIfPresent s.jobs (initJobName p) → DoneIfPresent jobs (initJobName p))
    (hcheckout : ∀ n, Live s.log n ∨ s.sandboxCall n = .checked true ∨
      s.sandboxCall n = .phased .running →
      DoneIfPresent s.jobs (checkoutJobName n) → DoneIfPresent jobs (checkoutJobName n)) :
    Inv cfg { s with jobs := jobs } where
  stable := hs.stable
  everCloned := hs.everCloned
  settled p hp := by
    obtain ⟨hset, hpvc⟩ := hs.settled p hp
    exact ⟨⟨hinit p (.inl hp) hset.job, hset.cloned, hset.call⟩, hpvc⟩
  decided p hp := (hs.decided p hp).imp_left (hinit p (.inr hp))
  gated := hs.gated
  checked n hn := hcheckout n (.inr (.inl hn)) (hs.checked n hn)
  phased n hn := (hs.phased n hn).imp_left (hcheckout n (.inr (.inr hn)))
  serving n hn := by
    obtain ⟨hgate, hactive, hpod, hjob, hchecked, hphased⟩ := hs.serving n hn
    exact ⟨hgate, hactive, hpod, hcheckout n (.inl hn) hjob, hchecked, hphased⟩

/-- The apply of a Project goes on. -/
theorem Inv.withProjectCall (hs : Inv cfg s) {p : Name} {call : ProjectCall}
    (hfalse : EverCloned s.log p → call ≠ .decided false)
    (htrue : call = .decided true →
      DoneIfPresent s.jobs (initJobName p) ∧ s.owner.pvcName.isSome) :
    Inv cfg { s with projectCall := Function.update s.projectCall p call } where
  stable := hs.stable
  everCloned := hs.everCloned
  settled q hq := by
    obtain ⟨hset, hpvc⟩ := hs.settled q hq
    refine ⟨⟨hset.job, hset.cloned, ?_⟩, hpvc⟩
    by_cases heq : q = p
    · subst heq
      simpa using hfalse hq
    · simpa [Function.update_of_ne heq] using hset.call
  decided q hq := by
    by_cases heq : q = p
    · subst heq
      exact htrue (by simpa using hq)
    · exact hs.decided q (by simpa [Function.update_of_ne heq] using hq)
  gated := hs.gated
  checked := hs.checked
  phased := hs.phased
  serving n hn := by
    obtain ⟨hgate, hactive, hpod, hjob, hchecked, hphased⟩ := hs.serving n hn
    exact ⟨hgate, hactive, hpod, hjob, hchecked, hphased⟩

/-- The apply of a Sandbox goes on. -/
theorem Inv.withSandboxCall (hs : Inv cfg s) {n : Name} {call : SandboxCall}
    (hgate : call ≠ .idle → Gated cfg s.log s.owner n)
    (hchecked : call = .checked true → DoneIfPresent s.jobs (checkoutJobName n))
    (hphased : call = .phased .running →
      DoneIfPresent s.jobs (checkoutJobName n) ∧ (cfg.sandbox n).suspended = false)
    (hlive : Live s.log n → call ≠ .checked false ∧
      ∀ phase, call = .phased phase → phase = .running) :
    Inv cfg { s with sandboxCall := Function.update s.sandboxCall n call } where
  stable := hs.stable
  everCloned := hs.everCloned
  settled p hp := by
    obtain ⟨hset, hpvc⟩ := hs.settled p hp
    exact ⟨⟨hset.job, hset.cloned, hset.call⟩, hpvc⟩
  decided := hs.decided
  gated m hm := by
    by_cases heq : m = n
    · subst heq
      exact hgate (by simpa using hm)
    · exact hs.gated m (by simpa [Function.update_of_ne heq] using hm)
  checked m hm := by
    by_cases heq : m = n
    · subst heq
      exact hchecked (by simpa using hm)
    · exact hs.checked m (by simpa [Function.update_of_ne heq] using hm)
  phased m hm := by
    by_cases heq : m = n
    · subst heq
      exact hphased (by simpa using hm)
    · exact hs.phased m (by simpa [Function.update_of_ne heq] using hm)
  serving m hm := by
    obtain ⟨hg, hactive, hpod, hjob, hc, hp⟩ := hs.serving m hm
    refine ⟨hg, hactive, hpod, hjob, ?_, ?_⟩
    · by_cases heq : m = n
      · subst heq
        simpa using (hlive hm).1
      · simpa [Function.update_of_ne heq] using hc
    · by_cases heq : m = n
      · subst heq
        simpa using (hlive hm).2
      · simpa [Function.update_of_ne heq] using hp

/-- What is live after a Pod changed was live before, and its Pod still runs. -/
theorem live_podLog {n m : Name} {phase : Option PodPhase} (h : Live (podLog s n phase) m) :
    Live s.log m ∧ (m = n → s.pods n = some .running → phase = some .running) := by
  rw [podLog] at h
  split_ifs at h with hleft
  · exact ⟨h.2, fun heq => absurd heq.symm h.1⟩
  · refine ⟨h, fun _ hrun => ?_⟩
    by_contra hne
    exact hleft ⟨hrun, hne⟩

theorem everCloned_podLog {n p : Name} {phase : Option PodPhase} :
    EverCloned (podLog s n phase) p ↔ EverCloned s.log p := by
  rw [podLog]
  split_ifs <;> simp [EverCloned]

/-- A Pod changes its phase, is deleted or is created. -/
theorem Inv.withPod (hs : Inv cfg s) (n : Name) (phase : Option PodPhase) :
    Inv cfg { s with pods := Function.update s.pods n phase, log := podLog s n phase } where
  stable := by
    simp only [podLog]
    split_ifs
    · exact ⟨trivial, hs.stable⟩
    · exact hs.stable
  everCloned p hp := everCloned_podLog.2 (hs.everCloned p hp)
  settled p hp := by
    obtain ⟨hset, hpvc⟩ := hs.settled p (everCloned_podLog.1 hp)
    exact ⟨⟨hset.job, hset.cloned, hset.call⟩, hpvc⟩
  decided := hs.decided
  gated m hm := (hs.gated m hm).mono (fun _ => everCloned_podLog.2) id id
  checked := hs.checked
  phased := hs.phased
  serving m hm := by
    obtain ⟨hlive, hstays⟩ := live_podLog hm
    obtain ⟨hg, hactive, hpod, hjob, hchecked, hphased⟩ := hs.serving m hlive
    refine ⟨hg.mono (fun _ => everCloned_podLog.2) id id, hactive, ?_, hjob, hchecked, hphased⟩
    by_cases heq : m = n
    · subst heq
      simpa using hstays rfl hpod
    · simpa [Function.update_of_ne heq] using hpod

/-! ## The steps of the reconcilers -/

theorem inv_projectJob {p : Name} (hs : Inv cfg s) (hok : JobStillThere s (.projectJob p))
    (hidle : s.projectCall p = .idle) : Inv cfg (projectJob cfg s p) := by
  rw [projectJob]
  split
  · rename_i hpvc
    refine hs.logged trivial fun hever => ?_
    have := (hs.settled p hever).2
    simp [hpvc] at this
  · rename_i pvc hpvc
    split
    · rename_i job hjob
      refine hs.withProjectCall (fun hever => ?_) fun hdone => ⟨fun j hj => ?_, by simp [hpvc]⟩
      · simp [(hs.settled p hever).1.job job hjob]
      · simp only [ProjectCall.decided.injEq, decide_eq_true_eq] at hdone
        rw [hjob, Option.some.injEq] at hj
        exact hj ▸ hdone
    · rename_i hnone
      have hnever : ¬ EverCloned s.log p := fun hever => hok hever hnone
      have hjobs : Inv cfg { s with
          jobs := Function.update s.jobs (initJobName p) (some buildInitJob) } := by
        refine hs.withJobs (fun q hq hdone => ?_) fun n _ hdone => ?_
        · refine hdone.update_of_ne (fun heq => ?_) _
          obtain rfl := initJobName_inj.1 heq
          rcases hq with hq | hq
          · exact hnever hq
          · simp [hidle] at hq
        · exact hdone.update_of_ne (initJobName_ne_checkoutJobName p n) _
      exact (hjobs.withProjectCall (fun hever => absurd hever hnever) (by simp)).logged trivial
        hnever

theorem inv_projectStatus {p : Name} {c : Bool} (hs : Inv cfg s)
    (hcall : s.projectCall p = .decided c) :
    Inv cfg { s with
      cloned := Function.update s.cloned p c
      projectCall := Function.update s.projectCall p .idle
      log := .projectReported p c :: s.log } := by
  have hever : ∀ q, EverCloned (.projectReported p c :: s.log) q ↔
      (p = q ∧ c = true) ∨ EverCloned s.log q := by
    intro q
    simp [EverCloned, eq_comm]
  have hstays : EverCloned s.log p → c = true := fun h => by
    have := (hs.settled p h).1.call
    rw [hcall] at this
    simpa using this
  have hcalls : Inv cfg { s with projectCall := Function.update s.projectCall p .idle } :=
    hs.withProjectCall (fun _ => by simp) (by simp)
  refine ⟨⟨hstays, hs.stable⟩, fun q hq => ?_, fun q hq => ?_, hcalls.decided, fun n hn => ?_,
    hs.checked, hs.phased, fun n hn => ?_⟩
  · by_cases heq : q = p
    · subst heq
      exact (hever q).2 (.inl ⟨rfl, by simpa using hq⟩)
    · exact (hever q).2 (.inr (hs.everCloned q (by simpa [Function.update_of_ne heq] using hq)))
  · by_cases heq : q = p
    · subst heq
      have hc : c = true := ((hever q).1 hq).elim (·.2) hstays
      subst hc
      obtain ⟨hdone, hpvc⟩ := hs.decided q hcall
      exact ⟨⟨hdone, by simp, by simp⟩, hpvc⟩
    · have hq' : EverCloned s.log q := ((hever q).1 hq).resolve_left fun h => heq h.1.symm
      obtain ⟨⟨hdone, hcloned, hcall'⟩, hpvc⟩ := hs.settled q hq'
      exact ⟨⟨hdone, by simpa [Function.update_of_ne heq] using hcloned,
        by simpa [Function.update_of_ne heq] using hcall'⟩, hpvc⟩
  · exact (hs.gated n hn).mono (fun q hq => (hever q).2 (.inr hq)) id id
  · obtain ⟨hgate, hactive, hpod, hjob, hchecked, hphased⟩ := hs.serving n hn
    exact ⟨hgate.mono (fun q hq => (hever q).2 (.inr hq)) id id, hactive, hpod, hjob, hchecked,
      hphased⟩

theorem inv_sandboxGate (hs : Inv cfg s) (n : Name) : Inv cfg (sandboxGate cfg s n) := by
  simp only [sandboxGate]
  split_ifs with hissuer hcloned
  · exact hs.logged trivial fun hlive => (hs.serving n hlive).gate.issuer hissuer
  · refine hs.logged trivial fun hlive => ?_
    have hset := (hs.settled _ (hs.serving n hlive).gate.project).1
    simp [hset.cloned] at hcloned
  · split
    · rename_i pvc account hpvc haccount
      refine hs.withSandboxCall (fun _ => ⟨?_, hissuer, by simp [hpvc], by simp [haccount]⟩)
        (by simp) (by simp) fun _ => by simp
      exact hs.everCloned _ (by simpa using hcloned)
    · rename_i hnone
      refine hs.logged trivial fun hlive => ?_
      obtain ⟨pvc, hpvc⟩ := Option.isSome_iff_exists.1 (hs.serving n hlive).gate.pvc
      obtain ⟨account, haccount⟩ := Option.isSome_iff_exists.1 (hs.serving n hlive).gate.account
      exact hnone pvc account hpvc haccount

theorem inv_sandboxJob {n : Name} (hs : Inv cfg s) (hok : JobStillThere s (.sandboxJob n))
    (hgated : s.sandboxCall n = .gated) : Inv cfg (sandboxJob s n) := by
  have hgate : Gated cfg s.log s.owner n := hs.gated n (by simp [hgated])
  rw [sandboxJob]
  split
  · rename_i job hjob
    refine hs.withSandboxCall (fun _ => hgate) (fun hdone j hj => ?_) (by simp) fun hlive => ?_
    · simp only [SandboxCall.checked.injEq, decide_eq_true_eq] at hdone
      rw [hjob, Option.some.injEq] at hj
      exact hj ▸ hdone
    · simp [(hs.serving n hlive).job job hjob]
  · rename_i hnone
    have hnever : ¬ Live s.log n := fun hlive => hok hlive hnone
    have hjobs : Inv cfg { s with
        jobs := Function.update s.jobs (checkoutJobName n) (some buildCheckoutJob) } := by
      refine hs.withJobs (fun p _ hdone => ?_) fun m hm hdone => ?_
      · exact hdone.update_of_ne (initJobName_ne_checkoutJobName p n).symm _
      · refine hdone.update_of_ne (fun heq => ?_) _
        obtain rfl := checkoutJobName_inj.1 heq
        rcases hm with hm | hm | hm
        · exact hnever hm
        · simp [hgated] at hm
        · simp [hgated] at hm
    exact (hjobs.withSandboxCall (fun _ => hgate) (by simp) (by simp)
      fun hlive => absurd hlive hnever).logged trivial hnever

theorem inv_sandboxPod {n : Name} {checkedOut : Bool} (hs : Inv cfg s)
    (hcall : s.sandboxCall n = .checked checkedOut) : Inv cfg (sandboxPod cfg s n checkedOut) := by
  have hgate : Gated cfg s.log s.owner n := hs.gated n (by simp [hcall])
  rw [sandboxPod]
  split_ifs with hsuspended hout
  · have hdead : ¬ Live s.log n := fun hlive => by
      simp [(hs.serving n hlive).active] at hsuspended
    have hpod := hs.withPod n none
    refine hpod.withSandboxCall (fun _ => hgate.mono (fun _ => everCloned_podLog.2) id id) (by simp)
      (by simp) fun hlive => absurd (live_podLog hlive).1 hdead
  · have hdead : ¬ Live s.log n := fun hlive => by
      have := (hs.serving n hlive).checked
      simp_all
    exact hs.withSandboxCall (fun _ => hgate) (by simp) (by simp) fun hlive => absurd hlive hdead
  · have hdone : DoneIfPresent s.jobs (checkoutJobName n) := hs.checked n (by simp_all)
    have hdead : ∀ phase, s.pods n = phase → phase ≠ some .running → ¬ Live s.log n :=
      fun phase hphase hne hlive => hne (hphase ▸ (hs.serving n hlive).pod)
    split
    · rename_i hpod
      have hlog : podLog s n (some .pending) = s.log := by simp [podLog, hpod]
      have hcreated := hs.withPod n (some .pending)
      rw [hlog] at hcreated
      exact hcreated.withSandboxCall (fun _ => hgate) (by simp) (by simp)
        fun hlive => absurd hlive (hdead _ hpod (by simp))
    · exact hs.withSandboxCall (fun _ => hgate) (by simp)
        (fun _ => ⟨hdone, by simpa using hsuspended⟩) fun _ => by simp
    · rename_i hpod
      exact hs.withSandboxCall (fun _ => hgate) (by simp) (by simp)
        fun hlive => absurd hlive (hdead _ hpod (by simp))
    · rename_i phase hne _ hpod
      exact hs.withSandboxCall (fun _ => hgate) (by simp) (by simp)
        fun hlive => absurd hlive (hdead _ hpod (by simpa using hne))

theorem inv_sandboxStatus {n : Name} {phase : Phase} (hs : Inv cfg s)
    (hcall : s.sandboxCall n = .phased phase) :
    Inv cfg { s with
      phase := Function.update s.phase n (some phase)
      sandboxCall := Function.update s.sandboxCall n .idle
      log := .sandboxReported n phase (s.pods n = some .running) :: s.log } := by
  have hgate : Gated cfg s.log s.owner n := hs.gated n (by simp [hcall])
  have hever : ∀ p, EverCloned (.sandboxReported n phase (s.pods n = some .running) :: s.log) p ↔
      EverCloned s.log p := fun p => by simp [EverCloned]
  have hlive : ∀ m, Live (.sandboxReported n phase (s.pods n = some .running) :: s.log) m →
      Live s.log m ∨ (m = n ∧ phase = .running ∧ s.pods n = some .running) := by
    intro m hm
    by_cases hpod : s.pods n = some .running
    · cases phase with
      | running =>
          simp only [hpod, decide_true, Live] at hm
          exact hm.symm.imp_right fun heq => ⟨heq.symm, rfl, hpod⟩
      | _ => exact .inl hm
    · cases phase <;> exact .inl (by simpa [hpod, Live] using hm)
  have hcalls : Inv cfg { s with sandboxCall := Function.update s.sandboxCall n .idle } :=
    hs.withSandboxCall (by simp) (by simp) (by simp) fun _ => by simp
  refine ⟨⟨fun hl => (hs.serving n hl).phased phase hcall, hs.stable⟩,
    fun p hp => (hever p).2 (hs.everCloned p hp), fun p hp => ?_, hs.decided,
    fun m hm => (hcalls.gated m hm).mono (fun p => (hever p).2) id id, hcalls.checked,
    hcalls.phased, fun m hm => ?_⟩
  · obtain ⟨⟨hdone, hcloned, hpcall⟩, hpvc⟩ := hs.settled p ((hever p).1 hp)
    exact ⟨⟨hdone, hcloned, hpcall⟩, hpvc⟩
  · rcases hlive m hm with hm | ⟨rfl, rfl, hpod⟩
    · obtain ⟨hg, hactive, hpod, hjob, hchecked, hphased⟩ := hcalls.serving m hm
      exact ⟨hg.mono (fun p => (hever p).2) id id, hactive, hpod, hjob, hchecked, hphased⟩
    · obtain ⟨hdone, hactive⟩ := hs.phased m hcall
      exact ⟨hgate.mono (fun p => (hever p).2) id id, hactive, hpod, hdone, by simp, by simp⟩

/-! ## The steps of the cluster -/

theorem inv_jobs_of_done (hs : Inv cfg s) {jobs : Name → Option Job}
    (h : ∀ name, DoneIfPresent s.jobs name → DoneIfPresent jobs name) :
    Inv cfg { s with jobs := jobs } :=
  hs.withJobs (fun _ _ => h _) fun _ _ => h _

/-- The Owner becomes ready, and stays so. -/
theorem inv_ownerStatus (hs : Inv cfg s) (pvc account : Name) :
    Inv cfg { s with owner := ⟨some pvc, some account⟩ } where
  stable := hs.stable
  everCloned := hs.everCloned
  settled p hp := by
    obtain ⟨⟨hdone, hcloned, hcall⟩, -⟩ := hs.settled p hp
    exact ⟨⟨hdone, hcloned, hcall⟩, rfl⟩
  decided p hp := ⟨(hs.decided p hp).1, rfl⟩
  gated n hn := (hs.gated n hn).mono (fun _ => id) (fun _ => rfl) fun _ => rfl
  checked := hs.checked
  phased := hs.phased
  serving n hn := by
    obtain ⟨hgate, hactive, hpod, hjob, hchecked, hphased⟩ := hs.serving n hn
    exact ⟨hgate.mono (fun _ => id) (fun _ => rfl) fun _ => rfl, hactive, hpod, hjob, hchecked,
      hphased⟩

theorem inv_tick (hs : Inv cfg s) (seconds : Nat) : Inv cfg { s with now := s.now + seconds } where
  stable := hs.stable
  everCloned := hs.everCloned
  settled p hp := by
    obtain ⟨⟨hdone, hcloned, hcall⟩, hpvc⟩ := hs.settled p hp
    exact ⟨⟨hdone, hcloned, hcall⟩, hpvc⟩
  decided := hs.decided
  gated := hs.gated
  checked := hs.checked
  phased := hs.phased
  serving n hn := by
    obtain ⟨hgate, hactive, hpod, hjob, hchecked, hphased⟩ := hs.serving n hn
    exact ⟨hgate, hactive, hpod, hjob, hchecked, hphased⟩

theorem inv_step {a : Action} (hs : Inv cfg s) (hok : JobStillThere s a)
    (h : step cfg s a = some t) : Inv cfg t := by
  cases a with
  | projectJob p =>
      simp only [step, Option.ite_none_right_eq_some, Option.some.injEq] at h
      exact h.2 ▸ inv_projectJob hs hok h.1
  | projectStatus p =>
      simp only [step] at h
      split at h
      · rename_i c hcall
        exact Option.some.inj h ▸ inv_projectStatus hs hcall
      · simp at h
  | sandboxGate n =>
      simp only [step, Option.ite_none_right_eq_some, Option.some.injEq] at h
      exact h.2 ▸ inv_sandboxGate hs n
  | sandboxJob n =>
      simp only [step, Option.ite_none_right_eq_some, Option.some.injEq] at h
      exact h.2 ▸ inv_sandboxJob hs hok h.1
  | sandboxPod n =>
      simp only [step] at h
      split at h
      · rename_i checkedOut hcall
        exact Option.some.inj h ▸ inv_sandboxPod hs hcall
      · simp at h
  | sandboxStatus n =>
      simp only [step] at h
      split at h
      · rename_i phase hcall
        exact Option.some.inj h ▸ inv_sandboxStatus hs hcall
      · simp at h
  | ownerStatus pvc account => exact Option.some.inj h ▸ inv_ownerStatus hs pvc account
  | tick seconds => exact Option.some.inj h ▸ inv_tick hs seconds
  | jobEnds name success =>
      simp only [step] at h
      split at h
      · rename_i backoff ttl hjob
        refine Option.some.inj h ▸ inv_jobs_of_done hs fun other hdone => ?_
        exact hdone.update_of_ne (hdone.ne_of_running hjob rfl) _
      · simp at h
  | collect name =>
      simp only [step] at h
      split at h
      · split_ifs at h
        exact Option.some.inj h ▸ inv_jobs_of_done hs fun _ hdone => hdone.collect
      · simp at h
  | podPhase n phase =>
      simp only [step, Option.ite_none_right_eq_some, Option.some.injEq] at h
      exact h.2 ▸ hs.withPod n phase

/-- Readiness is stable in every run whose applies, once they have succeeded,
still find the Job. -/
theorem stable_of_run {as : List Action} (h : Run (step cfg) JobStillThere .init as t) :
    Stable t.log :=
  (h.invariant (inv_init cfg) fun _ _ _ hs hok hnext => inv_step hs hok hnext).stable

/-! ## An hour later -/

/-- A cluster with the Sandbox `s` of the Project `p`. -/
def demoConfig : Config := ⟨some "issuer".toList, "alice".toList, fun _ => ⟨"p".toList, false⟩⟩

/-- The Project is cloned and the Sandbox runs. -/
def untilRunning : List Action :=
  [.ownerStatus "home".toList "sa".toList,
    .projectJob "p".toList, .projectStatus "p".toList, .jobEnds (initJobName "p".toList) true,
    .projectJob "p".toList, .projectStatus "p".toList,
    .sandboxGate "s".toList, .sandboxJob "s".toList, .sandboxPod "s".toList,
    .sandboxStatus "s".toList, .jobEnds (checkoutJobName "s".toList) true,
    .sandboxGate "s".toList, .sandboxJob "s".toList, .sandboxPod "s".toList,
    .sandboxStatus "s".toList, .podPhase "s".toList (some .running),
    .sandboxGate "s".toList, .sandboxJob "s".toList, .sandboxPod "s".toList,
    .sandboxStatus "s".toList]

/-- An hour passes, both Jobs are collected, and both objects are applied. -/
def anHourLater : List Action :=
  [.tick 3600, .collect (initJobName "p".toList), .collect (checkoutJobName "s".toList),
    .sandboxGate "s".toList, .sandboxJob "s".toList, .sandboxPod "s".toList,
    .sandboxStatus "s".toList, .projectJob "p".toList, .projectStatus "p".toList,
    .sandboxGate "s".toList]

/-- What these applies report, newest first: after the Sandbox runs, a second
checkout Job is started, a second init Job, the Project is reported as not cloned,
and the Sandbox is refused. -/
def logAfterTtl : List Event :=
  [.sandboxRefused "s".toList (.projectNotReady "p".toList "s".toList),
    .projectReported "p".toList false, .initStarted "p".toList,
    .sandboxReported "s".toList .provisioning true, .checkoutStarted "s".toList,
    .sandboxReported "s".toList .running true, .sandboxReported "s".toList .provisioning false,
    .sandboxReported "s".toList .provisioning false, .checkoutStarted "s".toList,
    .projectReported "p".toList true, .projectReported "p".toList false, .initStarted "p".toList]

/-- Readiness goes back after the time to live of the Jobs, while the Pod runs. -/
theorem unstable_after_ttl : ∃ s, Run (step demoConfig) free .init (untilRunning ++ anHourLater) s ∧
    s.log = logAfterTtl ∧ ¬ Stable s.log := by
  obtain ⟨s, hrun, htest⟩ : ∃ s, Run (step demoConfig) free .init (untilRunning ++ anHourLater) s ∧
      decide (s.log = logAfterTtl) = true := Run.exists_of_exec _ (by decide)
  have hlog := of_decide_eq_true htest
  refine ⟨s, hrun, hlog, fun hstable => ?_⟩
  rw [hlog] at hstable
  exact absurd (hstable.2.1 (by simp [EverCloned])) (by decide)

/-- The run up to the collection of the Jobs is stable, with the Sandbox live at
its end. -/
theorem stable_untilRunning : ∃ s, Run (step demoConfig) JobStillThere .init untilRunning s ∧
    Live s.log "s".toList ∧ Stable s.log := by
  obtain ⟨s, hrun, hlive⟩ : ∃ s, Run (step demoConfig) JobStillThere .init untilRunning s ∧
      decide (Live s.log "s".toList) = true := Run.exists_of_exec _ (by decide)
  exact ⟨s, hrun, of_decide_eq_true hlive, stable_of_run hrun⟩

end Vanyline.Controller.Readiness
