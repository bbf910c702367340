import Vanyline.Sandbox.JobRuns

/-!
# Why a job has ended

A job ends because its process exits, because it is cancelled, or because its timeout expires, and
these can happen in any order.  `supervise` decides the state that is published in two places:
after an exit it asks for the flags of the record, and after the timeout it does not.

Here the runs of `JobRuns` are watched: `deadlines` notes for each task whether its timeout has
expired and whether a cancellation had been recorded by then, and `verdicts` what is published.

* A verdict names the cause that came first, as long as no job that has been cancelled in time
  is still found running at its timeout, and no cancellation comes between the exit of a process
  and the publication (`verdicts_fair`).
* A job that has been cancelled and does not end within its timeout is published as timed out
  (`verdicts_fair_fails`).
-/

namespace Vanyline.Sandbox.JobVerdicts

open Vanyline.Lib JobRegistry JobRuns

/-! ## What is published, and when -/

/-- The state that is published for a job, and what had happened by then. -/
structure Verdict where
  jobId : JobId
  state : JobState
  /-- A cancellation was recorded before the timeout expired. -/
  early : Bool
  expired : Bool
  cancelRequested : Bool
  timedOut : Bool
deriving DecidableEq

structure Verdict.Fair (v : Verdict) : Prop where
  early : v.early = true → v.state = .cancelled
  timedOut : v.state = .timedOut → v.expired = true ∧ v.early = false
  ended : v.state = .succeeded ∨ v.state = .failed →
    v.cancelRequested = false ∧ v.timedOut = false

structure State where
  system : JobRuns.State
  /-- For each task whose timeout has expired: had a cancellation been recorded? -/
  deadlines : Nat → Option Bool
  verdicts : List Verdict

def State.init : State := ⟨.init, fun _ => none, []⟩

inductive Label
  | system (label : JobRuns.Label)
  | expires (i : Nat)

/-- The timeout of the job runs from the start of its supervisor on. -/
def supervised : Phase → Bool
  | .inserted | .spawned _ | .done => false
  | _ => true

namespace State

variable (s : State)

/-- What the supervisor of task `i` publishes. -/
def judgement (i : Nat) (task : Task) (now : Nat) : List Verdict :=
  match task.phase with
  | .judged state exitCode =>
    let flags := s.system.jobs.causeFlags task.jobId
    [{  jobId := task.jobId
        state := (s.system.jobs.finish task.jobId state exitCode now).1.1.state
        early := (s.deadlines i).getD flags.1
        expired := (s.deadlines i).isSome
        cancelRequested := flags.1
        timedOut := flags.2 }]
  | _ => []

/-- What a step of the system publishes. -/
def published : JobRuns.Label → List Verdict
  | .task i (.finishes now) => (s.system.tasks[i]?).elim [] fun task => s.judgement i task now
  | _ => []

/-- The supervisor finds its timeout elapsed only when it has expired. -/
def possible : JobRuns.Label → Bool
  | .task i .elapses => (s.deadlines i).isSome
  | _ => true

def expire (i : Nat) : Option State :=
  s.system.tasks[i]?.bind fun task =>
    if supervised task.phase && (s.deadlines i).isNone then
      some { s with deadlines := fun j =>
        if j = i then some (s.system.jobs.causeFlags task.jobId).1 else s.deadlines j }
    else none

end State

def step (restate : Bool) (s : State) : Label → Option State
  | .expires i => s.expire i
  | .system label =>
    if s.possible label then
      (JobRuns.step restate s.system label).map fun system =>
        { s with system, verdicts := s.published label ++ s.verdicts }
    else none

/-! ## The steps that keep the causes apart -/

/-- The outcome of the process has been judged, and is not published yet. -/
def ended : Phase → Bool
  | .judged .succeeded _ | .judged .failed _ => true
  | _ => false

/-- Does a request ask for the cancellation of a job? -/
def cancels : JobRuns.Label → JobId → Bool
  | .cancel id, other => other == id
  | .cancelPrefix pre, other => pre.isPrefixOf other
  | _, _ => false

/-- No job is found at its timeout that had been cancelled before, none is given up that has been
cancelled, and none is cancelled between its judgement and its publication. -/
def timely (s : State) : Label → Bool
  | .system (.task i .elapses) => s.deadlines i != some true
  | .system (.task i .waitFails) =>
    !(s.system.tasks[i]?).any fun task => (s.system.jobs.causeFlags task.jobId).1
  | .system label => s.system.tasks.all fun task => !(cancels label task.jobId && ended task.phase)
  | .expires _ => true

def Timely (s : State) (label : Label) : Prop := timely s label = true

instance (s : State) (label : Label) : Decidable (Timely s label) :=
  inferInstanceAs (Decidable (timely s label = true))

/-! ## The flags of the records -/

section Flags

variable {jobs jobs' : Jobs} {id j : JobId}

def flagsOf (record : JobRecord) : Bool × Bool := (record.cancelRequested, record.timedOut)

theorem causeFlags_eq (jobs : Jobs) (id : JobId) :
    jobs.causeFlags id = ((jobs.registry.lookup id).map flagsOf).getD (false, false) := by
  unfold Jobs.causeFlags
  split
  · rename_i record hrecord
    rw [hrecord]
    rfl
  · rename_i hnone
    rw [hnone]
    rfl

theorem causeFlags_of_lookup {record : JobRecord} (h : jobs.registry.lookup id = some record) :
    jobs.causeFlags id = flagsOf record := by
  rw [causeFlags_eq, h]
  rfl

theorem causeFlags_congr (h : jobs'.registry.lookup j = jobs.registry.lookup j) :
    jobs'.causeFlags j = jobs.causeFlags j := by
  rw [causeFlags_eq, causeFlags_eq, h]

theorem causeFlags_modify (change : JobRecord → JobRecord) (hne : j ≠ id) :
    (jobs.modify id change).causeFlags j = jobs.causeFlags j := by
  apply causeFlags_congr
  show (jobs.registry.modify id change).lookup j = _
  rw [Registry.lookup_modify, if_neg hne]

theorem causeFlags_modify_self (change : JobRecord → JobRecord) {record : JobRecord}
    (h : jobs.registry.lookup id = some record) :
    (jobs.modify id change).causeFlags id = flagsOf (change record) := by
  apply causeFlags_of_lookup
  show (jobs.registry.modify id change).lookup id = _
  rw [Registry.lookup_modify, if_pos rfl, h]
  rfl

/-- A cancellation sets the first flag of a running record, and nothing else. -/
theorem flagsOf_cancelRecord {record : JobRecord} (h : record.state = .running) :
    flagsOf (Jobs.cancelRecord record) = (true, record.timedOut) := by
  unfold Jobs.cancelRecord
  rw [h]
  rfl

theorem causeFlags_requestCancel {record : JobRecord} (h : jobs.registry.lookup j = some record)
    (hrunning : record.state = .running) :
    (jobs.requestCancel id).2.causeFlags j =
      if j = id then (true, (jobs.causeFlags j).2) else jobs.causeFlags j := by
  by_cases hj : j = id
  · subst hj
    rw [if_pos rfl, Jobs.requestCancel, h]
    dsimp only
    rw [causeFlags_modify_self _ h, flagsOf_cancelRecord hrunning, causeFlags_of_lookup h]
    rfl
  · rw [if_neg hj]
    unfold Jobs.requestCancel
    split
    · rfl
    · exact causeFlags_modify _ hj

theorem causeFlags_cancelAll (ids : List JobId) {record : JobRecord}
    (h : jobs.registry.lookup j = some record) (hrunning : record.state = .running) :
    (ids.foldl (fun jobs id => jobs.modify id Jobs.cancelRecord) jobs).causeFlags j =
      if j ∈ ids then (true, (jobs.causeFlags j).2) else jobs.causeFlags j := by
  induction ids generalizing jobs record with
  | nil => exact (if_neg List.not_mem_nil).symm
  | cons id ids ih =>
    rw [List.foldl_cons]
    by_cases hj : j = id
    · subst hj
      have hlookup : (jobs.modify j Jobs.cancelRecord).registry.lookup j =
          some (Jobs.cancelRecord record) := by
        show (jobs.registry.modify j Jobs.cancelRecord).lookup j = _
        rw [Registry.lookup_modify, if_pos rfl, h]
        rfl
      have hflags : (jobs.modify j Jobs.cancelRecord).causeFlags j =
          (true, (jobs.causeFlags j).2) := by
        rw [causeFlags_of_lookup hlookup, flagsOf_cancelRecord hrunning, causeFlags_of_lookup h]
        rfl
      rw [ih hlookup ((cancelRecord_same record).state.trans hrunning), hflags,
        if_pos List.mem_cons_self, ite_self]
    · have hlookup : (jobs.modify id Jobs.cancelRecord).registry.lookup j = some record := by
        show (jobs.registry.modify id Jobs.cancelRecord).lookup j = _
        rw [Registry.lookup_modify, if_neg hj, h]
      rw [ih hlookup hrunning, causeFlags_modify _ hj]
      have hmem : j ∈ id :: ids ↔ j ∈ ids := by
        rw [List.mem_cons, or_iff_right hj]
      by_cases hin : j ∈ ids
      · rw [if_pos hin, if_pos (hmem.2 hin)]
      · rw [if_neg hin, if_neg (fun h => hin (hmem.1 h))]

theorem causeFlags_cancelPrefix (pre : Text) {record : JobRecord}
    (h : jobs.registry.lookup j = some record) (hrunning : record.state = .running) :
    (jobs.cancelPrefix pre).causeFlags j =
      if pre.isPrefixOf j then (true, (jobs.causeFlags j).2) else jobs.causeFlags j := by
  unfold Jobs.cancelPrefix
  rw [causeFlags_cancelAll _ h hrunning]
  have hmem : j ∈ jobs.targets pre ↔ pre.isPrefixOf j = true := by
    have hkey : j ∈ jobs.registry.keys := by
      rw [← AList.mem_keys, ← AList.lookup_isSome, h]
      rfl
    simp only [Jobs.targets, List.mem_filter, hkey, true_and, h, Option.any_some, hrunning,
      JobState.isTerminal, Bool.not_false, Bool.and_true]
  by_cases hpre : pre.isPrefixOf j = true
  · rw [if_pos (hmem.2 hpre), if_pos hpre]
  · rw [if_neg (fun h => hpre (hmem.1 h)), if_neg hpre]

/-- The end of a job leaves the records of the running ones. -/
theorem causeFlags_finish {record : JobRecord} (h : jobs.registry.lookup j = some record)
    (hrunning : record.state = .running) (hne : j ≠ id) (state : JobState)
    (exitCode : Option Int) (now : Nat) :
    (jobs.finish id state exitCode now).2.causeFlags j = jobs.causeFlags j := by
  apply causeFlags_congr
  unfold Jobs.finish
  split
  · rfl
  · rw [h]
    apply Registry.lookup_evictLoop _ _ _ hrunning
    rw [AList.lookup_insert_ne hne, h]

end Flags

/-! ## A task and the flags of its record -/

/-- The supervisor has found its timeout elapsed. -/
def pastDeadline : Phase → Bool
  | .elapsed | .killed | .judged .timedOut _ => true
  | _ => false

/-- What a supervisor has seen agrees with the flags. -/
structure Tracked (flags : Bool × Bool) (deadline : Option Bool) (phase : Phase) : Prop where
  early : deadline = some true → flags.1 = true
  marked : flags.2 = true → pastDeadline phase = true
  elapsed : pastDeadline phase = true → deadline = some false
  ended : ended phase = true → flags.1 = false ∧ flags.2 = false

namespace Tracked

variable {flags : Bool × Bool} {deadline : Option Bool} {phase phase' : Phase}

/-- The flag of the timeout is set only by the supervisor that has found it elapsed. -/
theorem unmarked (h : Tracked flags deadline phase) (hpast : pastDeadline phase = false) :
    flags.2 = false := by
  rcases hflag : flags.2 with _ | _
  · rfl
  · rw [h.marked hflag] at hpast
    cases hpast

/-- The task goes on before its timeout. -/
theorem goesOn (h : Tracked flags deadline phase) (hpast : pastDeadline phase = false)
    (hpast' : pastDeadline phase' = false)
    (hended : JobVerdicts.ended phase' = true → flags.1 = false) :
    Tracked flags deadline phase' := by
  have hunmarked := h.unmarked hpast
  refine ⟨h.early, ?_, ?_, fun hend => ⟨hended hend, hunmarked⟩⟩
  · intro hflag
    rw [hunmarked] at hflag
    cases hflag
  · intro hpast
    rw [hpast'] at hpast
    cases hpast

/-- The task goes on after it. -/
theorem goesPast (h : Tracked flags deadline phase) (hdeadline : deadline = some false)
    (hpast' : pastDeadline phase' = true) (hended : JobVerdicts.ended phase' = false) :
    Tracked flags deadline phase' := by
  refine ⟨h.early, fun _ => hpast', fun _ => hdeadline, ?_⟩
  intro hend
  rw [hended] at hend
  cases hend

/-- The timeout expires, and it is noted whether a cancellation is recorded. -/
theorem expires (h : Tracked flags none phase) : Tracked flags (some flags.1) phase := by
  have hpast : pastDeadline phase = false := by
    rcases hpast : pastDeadline phase with _ | _
    · rfl
    · cases h.elapsed hpast
  refine ⟨Option.some.inj, h.marked, ?_, h.ended⟩
  intro hpast'
  rw [hpast] at hpast'
  cases hpast'

/-- A cancellation is recorded. -/
theorem cancelled (h : Tracked flags deadline phase) (hended : JobVerdicts.ended phase = false) :
    Tracked (true, flags.2) deadline phase := by
  refine ⟨fun _ => rfl, h.marked, h.elapsed, ?_⟩
  intro hend
  rw [hended] at hend
  cases hend

end Tracked

section Task

variable {task : Task} {jobs jobs' : Jobs} {event : Event} {phase : Phase}

/-- An event of a task leaves the flags of the other jobs. -/
theorem phaseAfter_other {j : JobId} {record : JobRecord}
    (hphase : task.phaseAfter jobs event = some (phase, jobs'))
    (h : jobs.registry.lookup j = some record) (hrunning : record.state = .running)
    (hne : j ≠ task.jobId) : jobs'.causeFlags j = jobs.causeFlags j := by
  unfold Task.phaseAfter at hphase
  split at hphase <;> cases hphase
  case h_2 =>
    exact causeFlags_congr (AList.lookup_erase_ne hne)
  case h_3 => exact causeFlags_modify _ hne
  case h_8 => exact causeFlags_modify _ hne
  case h_10 => exact causeFlags_finish h hrunning hne _ _ _
  all_goals rfl

/-- After an exit a cancellation decides, and without it the exit code. -/
theorem exitState_cases {flags : Bool × Bool} (h : flags.2 = false) (code : Option Int) :
    exitState flags code = .cancelled ∨
      (exitState flags code = .succeeded ∨ exitState flags code = .failed) ∧ flags.1 = false := by
  unfold exitState
  rw [h]
  by_cases hcancel : flags.1 = true
  · exact Or.inl (if_pos hcancel)
  · rw [if_neg hcancel, if_neg Bool.false_ne_true]
    refine Or.inr ⟨?_, Bool.eq_false_iff.2 hcancel⟩
    split
    · exact Or.inl rfl
    · exact Or.inr rfl

/-- An event of a task that goes on. -/
theorem Tracked.phaseAfter {deadline : Option Bool} {record : JobRecord}
    (h : Tracked (jobs.causeFlags task.jobId) deadline task.phase)
    (hphase : task.phaseAfter jobs event = some (phase, jobs'))
    (hrecord : jobs.registry.lookup task.jobId = some record) (hopen : phase ≠ .done)
    (helapses : event = .elapses → deadline = some false)
    (hfails : event = .waitFails → (jobs.causeFlags task.jobId).1 = false) :
    Tracked (jobs'.causeFlags task.jobId) deadline phase := by
  unfold Task.phaseAfter at hphase
  split at hphase <;> cases hphase <;> rename_i hbefore <;> rw [hbefore] at h
  case h_2 => exact absurd rfl hopen
  case h_3 pgid =>
    have hflags : (jobs.markSpawned task.jobId pgid).2.causeFlags task.jobId =
        jobs.causeFlags task.jobId :=
      (causeFlags_modify_self _ hrecord).trans (causeFlags_of_lookup hrecord).symm
    rw [hflags]
    exact h.goesOn rfl rfl nofun
  case h_5 => exact h.goesOn rfl rfl (fun _ => hfails rfl)
  case h_6 => exact h.goesPast (helapses rfl) rfl rfl
  case h_7 code =>
    -- The flags are read here: without a cancellation the exit code decides.
    rcases exitState_cases (h.unmarked rfl) code with hstate | ⟨hstate | hstate, hcancel⟩
    · rw [hstate]
      exact h.goesOn rfl rfl nofun
    · rw [hstate]
      exact h.goesOn rfl rfl (fun _ => hcancel)
    · rw [hstate]
      exact h.goesOn rfl rfl (fun _ => hcancel)
  case h_8 =>
    have hflags : (jobs.markTimedOut task.jobId).2.causeFlags task.jobId =
        ((jobs.causeFlags task.jobId).1, true) :=
      (causeFlags_modify_self _ hrecord).trans (by rw [causeFlags_of_lookup hrecord]; rfl)
    have hdeadline := h.elapsed rfl
    rw [hflags]
    refine ⟨h.early, fun _ => rfl, fun _ => hdeadline, nofun⟩
  case h_9 => exact h.goesPast (h.elapsed rfl) rfl rfl
  case h_10 => exact absurd rfl hopen
  all_goals exact h.goesOn rfl rfl nofun

/-- What the supervisor publishes is fair. -/
theorem Tracked.fair {deadline : Option Bool} {flags : Bool × Bool} {state : JobState}
    {exitCode : Option Int} (h : Tracked flags deadline (.judged state exitCode))
    (hterminal : state.isTerminal = true) (id : JobId) :
    Verdict.Fair ⟨id, state, deadline.getD flags.1, deadline.isSome, flags.1, flags.2⟩ := by
  cases state with
  | running => cases hterminal
  | cancelled => exact ⟨fun _ => rfl, nofun, by simp⟩
  | timedOut =>
    have hdeadline := h.elapsed rfl
    subst hdeadline
    exact ⟨nofun, fun _ => ⟨rfl, rfl⟩, by simp⟩
  | succeeded | failed =>
    obtain ⟨hcancel, hunmarked⟩ := h.ended rfl
    refine ⟨?_, nofun, fun _ => ⟨hcancel, hunmarked⟩⟩
    intro hearly
    dsimp only at hearly
    rcases deadline with _ | early
    · rw [Option.getD_none, hcancel] at hearly
      cases hearly
    · rw [Option.getD_some] at hearly
      have hset := h.early (congrArg some hearly)
      rw [hcancel] at hset
      cases hset

end Task

/-! ## All tasks -/

structure Good (s : State) : Prop where
  system : JobRuns.Inv s.system
  tracked : ∀ (i : Nat) task, s.system.tasks[i]? = some task → task.phase ≠ .done →
    Tracked (s.system.jobs.causeFlags task.jobId) (s.deadlines i) task.phase
  beyond : ∀ i, s.system.tasks.length ≤ i → s.deadlines i = none
  fair : ∀ v ∈ s.verdicts, v.Fair

theorem good_init : Good .init := by
  refine ⟨inv_init, ?_, fun _ _ => rfl, ?_⟩
  · intro i task htask
    cases htask
  · intro v hv
    cases hv

section Step

variable {restate : Bool} {s s' : State} {i : Nat}

/-- The timeout of a task expires. -/
theorem Good.expires (h : Good s) (hnext : s.expire i = some s') : Good s' := by
  obtain ⟨task, htask, hset⟩ := Option.bind_eq_some_iff.1 hnext
  split at hset
  · rename_i hopen
    cases hset
    obtain ⟨hphase, hnone⟩ := Bool.and_eq_true_iff.1 hopen
    have hdeadline : s.deadlines i = none := Option.isNone_iff_eq_none.1 hnone
    refine ⟨h.system, ?_, ?_, h.fair⟩
    · intro j other hother hnotdone
      dsimp only
      have htracked := h.tracked j other hother hnotdone
      by_cases hj : j = i
      · subst hj
        rw [htask] at hother
        cases hother
        rw [hdeadline] at htracked
        rw [if_pos rfl]
        exact htracked.expires
      · rw [if_neg hj]
        exact htracked
    · intro j hj
      have hi := (List.getElem?_eq_some_iff.1 htask).1
      dsimp only at hj ⊢
      rw [if_neg (by omega)]
      exact h.beyond j hj
  · cases hset

/-- The state that `finish` is told is the one that it returns. -/
theorem finish_state (jobs : Jobs) (id : JobId) (state : JobState) (exitCode : Option Int)
    (now : Nat) : (jobs.finish id state exitCode now).1.1.state = state := by
  unfold Jobs.finish
  split
  · rfl
  · rfl

/-- Whatever the supervisors publish is fair. -/
theorem Good.published (h : Good s) (label : JobRuns.Label) :
    ∀ v ∈ s.published label, v.Fair := by
  intro v hv
  unfold State.published at hv
  split at hv
  · rename_i i now
    rcases htask : s.system.tasks[i]? with _ | task
    · rw [htask] at hv
      cases hv
    · rw [htask, Option.elim_some] at hv
      unfold State.judgement at hv
      split at hv
      · rename_i state exitCode hphase
        rw [List.mem_singleton.1 hv, finish_state]
        have htracked := h.tracked i task htask (by rw [hphase]; nofun)
        rw [hphase] at htracked
        exact htracked.fair (h.system.judged i task state exitCode htask hphase) _
      · cases hv
  · cases hv

/-- A POST leaves the flags of the jobs that are there, and those of a new one are not set. -/
theorem Good.post {body : CreateJobBody} {cwd : Option Text} {now : Nat} (h : Good s)
    (hinv : JobRuns.Inv (s.system.handleCreate restate body cwd now)) :
    Good { s with system := s.system.handleCreate restate body cwd now } := by
  rcases handleCreate_cases restate s.system body cwd now with
    ⟨response, hsame⟩ | ⟨-, hnew, -, hcreate, hreg⟩
  · refine ⟨hinv, ?_, ?_, h.fair⟩
    · dsimp only
      rw [hsame]
      exact h.tracked
    · dsimp only
      rw [hsame]
      exact h.beyond
  · refine ⟨hinv, ?_, ?_, h.fair⟩
    · intro j task htask hnotdone
      dsimp only at htask ⊢
      rw [hcreate] at htask ⊢
      dsimp only at htask ⊢
      rcases Nat.lt_or_ge j s.system.tasks.length with hlt | hge
      · rw [List.getElem?_append_left hlt] at htask
        obtain ⟨record, hrecord, -⟩ := h.system.active j task htask hnotdone
        have hne : task.jobId ≠ body.jobId := by
          intro heq
          rw [heq, hnew] at hrecord
          cases hrecord
        have hflags : (s.system.jobs.create body.jobId body.callback now).2.causeFlags task.jobId =
            s.system.jobs.causeFlags task.jobId := by
          apply causeFlags_congr
          rw [hreg, AList.lookup_insert_ne hne]
        rw [hflags]
        exact h.tracked j task htask hnotdone
      · rw [List.getElem?_append_right hge, List.getElem?_singleton] at htask
        split at htask
        · cases htask
          have hlookup : (s.system.jobs.create body.jobId body.callback now).2.registry.lookup
              body.jobId = some (.new body.callback now s.system.jobs.nextSeq) := by
            rw [hreg, AList.lookup_insert]
          rw [h.beyond j hge, causeFlags_of_lookup hlookup]
          exact ⟨nofun, nofun, nofun, nofun⟩
        · cases htask
    · intro j hj
      apply h.beyond
      dsimp only at hj
      rw [hcreate, List.length_append] at hj
      omega

/-- An event of a task. -/
theorem Good.task {event : Event} {system : JobRuns.State} (h : Good s)
    (hinv : JobRuns.Inv system)
    (hnext : JobRuns.step restate s.system (.task i event) = some system)
    (hpossible : s.possible (.task i event) = true)
    (htimely : Timely s (.system (.task i event))) : Good { s with system } := by
  obtain ⟨task, htask, hevent⟩ := Option.bind_eq_some_iff.1 hnext
  rcases event_cases hevent with hanswered | ⟨phase, jobs, hphase, rfl⟩
  · refine ⟨hinv, ?_, ?_, h.fair⟩
    · intro j other hother hnotdone
      dsimp only at hother ⊢
      rw [hanswered.jobs]
      rw [hanswered.tasks] at hother
      rcases task_set htask hother with ⟨rfl, rfl⟩ | ⟨-, hother⟩
      · exact h.tracked j task htask hnotdone
      · exact h.tracked j other hother hnotdone
    · intro j hj
      apply h.beyond
      dsimp only at hj
      rwa [hanswered.tasks, List.length_set] at hj
  · refine ⟨hinv, ?_, ?_, h.fair⟩
    · intro j other hother hnotdone
      dsimp only at hother ⊢
      have hopen : task.phase ≠ .done := by
        rcases phaseAfter_cases hphase with hgoes | ⟨hbefore, -⟩ | ⟨_, _, _, hbefore, -⟩
        · exact hgoes.open_
        · rw [hbefore]
          nofun
        · rw [hbefore]
          nofun
      rcases task_set htask hother with ⟨rfl, rfl⟩ | ⟨hj, hother⟩
      · obtain ⟨record, hrecord, -⟩ := h.system.active j task htask hopen
        apply (h.tracked j task htask hopen).phaseAfter hphase hrecord hnotdone
        · intro helapses
          subst helapses
          have hsome : (s.deadlines j).isSome = true := hpossible
          have hnot : (s.deadlines j != some true) = true := htimely
          rcases hdeadline : s.deadlines j with _ | _ | _
          · rw [hdeadline] at hsome
            cases hsome
          · rfl
          · rw [hdeadline] at hnot
            cases hnot
        · intro hfails
          subst hfails
          have hnot : (!(s.system.tasks[j]?).any fun task =>
            (s.system.jobs.causeFlags task.jobId).1) = true := htimely
          rw [htask, Option.any_some, Bool.not_eq_true'] at hnot
          exact hnot
      · obtain ⟨record, hrecord, hrunning⟩ := h.system.active j other hother hnotdone
        have hne : other.jobId ≠ task.jobId := fun heq =>
          hj (h.system.distinct j i other task hother htask hnotdone hopen heq)
        rw [phaseAfter_other hphase hrecord hrunning hne]
        exact h.tracked j other hother hnotdone
    · intro j hj
      apply h.beyond
      dsimp only at hj
      rwa [List.length_set] at hj

/-- A cancellation sets flags of jobs that are not judged. -/
theorem Good.cancel {jobs : Jobs} {system : JobRuns.State} {hit : JobId → Bool} (h : Good s)
    (hinv : JobRuns.Inv system) (hsystem : system = { s.system with jobs })
    (hflags : ∀ id record, s.system.jobs.registry.lookup id = some record →
      record.state = .running → jobs.causeFlags id =
        if hit id then (true, (s.system.jobs.causeFlags id).2) else s.system.jobs.causeFlags id)
    (hended : ∀ task ∈ s.system.tasks, hit task.jobId = true → ended task.phase = false) :
    Good { s with system } := by
  subst hsystem
  refine ⟨hinv, ?_, h.beyond, h.fair⟩
  intro j task htask hnotdone
  dsimp only at htask ⊢
  have htracked := h.tracked j task htask hnotdone
  obtain ⟨record, hrecord, hrunning⟩ := h.system.active j task htask hnotdone
  rw [hflags _ record hrecord hrunning]
  by_cases hhit : hit task.jobId = true
  · rw [if_pos hhit]
    exact htracked.cancelled (hended task (List.mem_of_getElem? htask) hhit)
  · rw [if_neg hhit]
    exact htracked

theorem hit_of_timely {label : JobRuns.Label}
    (h : (s.system.tasks.all fun task => !(cancels label task.jobId && ended task.phase)) = true) :
    ∀ task ∈ s.system.tasks, cancels label task.jobId = true → ended task.phase = false := by
  intro task hmem hhit
  have hnot := List.all_eq_true.1 h task hmem
  rw [hhit, Bool.true_and, Bool.not_eq_true'] at hnot
  exact hnot

theorem good_step {label : Label} (h : Good s) (htimely : Timely s label)
    (hnext : step restate s label = some s') : Good s' := by
  rcases label with label | i
  · unfold step at hnext
    dsimp only at hnext
    split at hnext
    · rename_i hpossible
      obtain ⟨system, hsystem, rfl⟩ := Option.map_eq_some_iff.1 hnext
      have hinv := (inv_step h.system hsystem).1
      have hpublished := h.published label
      -- What is published is added at the end.
      suffices hgood : Good { s with system } by
        refine ⟨hgood.system, hgood.tracked, hgood.beyond, ?_⟩
        intro v hv
        rcases List.mem_append.1 hv with hv | hv
        · exact hpublished v hv
        · exact h.fair v hv
      cases label with
      | post body cwd now =>
        cases hsystem
        exact h.post hinv
      | task i event => exact h.task hinv hsystem hpossible htimely
      | cancel id =>
        cases hsystem
        refine h.cancel hinv rfl ?_ (hit_of_timely htimely)
        intro other record hrecord hrunning
        rw [causeFlags_requestCancel hrecord hrunning]
        simp only [cancels, beq_iff_eq]
      | cancelPrefix pre =>
        cases hsystem
        refine h.cancel hinv rfl ?_ (hit_of_timely htimely)
        intro other record hrecord hrunning
        exact causeFlags_cancelPrefix pre hrecord hrunning
    · cases hnext
  · exact h.expires hnext

end Step

/-! ## Whole runs -/

/-- Whatever order cancellations, exits and timeouts come in: as long as the steps are timely, every
published state names the cause that came first. -/
theorem verdicts_fair {restate : Bool} {labels : List Label} {s : State}
    (h : Run (step restate) Timely .init labels s) : ∀ v ∈ s.verdicts, v.Fair :=
  (h.invariant good_init fun _ _ _ hgood htimely hnext => good_step hgood htimely hnext).fair

def started (id : JobId) (i : Nat) : List Label :=
  [.system (posted id), .system (.task i (.spawns (some 7))), .system (.task i .marksSpawned)]

/-- A process is cancelled and ends, and the timeout of another one expires. -/
def bothEnd : List Label :=
  started ['a'] 0 ++ started ['b'] 1 ++
    [.system (.cancel ['a']), .expires 1, .system (.task 1 .elapses),
      .system (.task 0 (.exits none)), .system (.task 1 .marksTimedOut),
      .system (.task 0 .judges), .system (.task 1 (.reaps none)),
      .system (.task 0 (.finishes 1)), .system (.task 1 (.finishes 2))]

theorem verdicts_fair_both : ∃ s, Run (step false) Timely .init bothEnd s ∧
      (s.verdicts.map Verdict.state == [.timedOut, .cancelled]) = true ∧
      ∀ v ∈ s.verdicts, v.Fair := by
  obtain ⟨s, hrun, htest⟩ := Run.exists_of_exec
    (fun s => s.verdicts.map Verdict.state == [.timedOut, .cancelled])
    (show (exec (step false) Timely .init bothEnd).any _ = true by decide +kernel)
  exact ⟨s, hrun, htest, verdicts_fair hrun⟩

/-- A job is cancelled, its process does not end within the timeout, and it is published as timed
out. -/
theorem verdicts_fair_fails : ¬ ∀ (restate : Bool) (labels : List Label) (s : State),
    Run (step restate) free .init labels s → ∀ v ∈ s.verdicts, v.Fair := by
  intro hall
  obtain ⟨s, hrun, htest⟩ := Run.exists_of_exec
    (fun s => s.verdicts.any fun v => v.early && v.state == .timedOut)
    (show (exec (step false) free .init (started ['a'] 0 ++
      [.system (.cancel ['a']), .expires 0, .system (.task 0 .elapses),
        .system (.task 0 .marksTimedOut), .system (.task 0 (.reaps none)),
        .system (.task 0 (.finishes 1))])).any _ = true by decide +kernel)
  obtain ⟨v, hv, hverdict⟩ := List.any_eq_true.1 htest
  rw [Bool.and_eq_true, beq_iff_eq] at hverdict
  have hcancelled := (hall false _ s hrun v hv).early hverdict.1
  rw [hverdict.2] at hcancelled
  cases hcancelled

end Vanyline.Sandbox.JobVerdicts
