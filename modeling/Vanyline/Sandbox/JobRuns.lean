import Vanyline.Sandbox.JobRegistry

/-!
# Jobs and their processes

Any number of requests and supervisors act on the registry, and each section of the lock is one
step.  The task of a job is first that of the request, which spawns the process, and then that
of the supervisor, which waits for it.

* At most four records are running.
* A record that has ended keeps its state (`Settled`).
* No two processes are started for the same job, as long as no job is posted again after it
  has been evicted (`Remembered`).  Without that it is started again (`startedOnce_fails`).
-/

namespace Vanyline.Sandbox.JobRuns

open Vanyline.Lib JobRegistry

/-! ## Requests -/

structure CreateJobBody where
  jobId : Text
  script : Text
  /-- The identifier of the awakeable. -/
  callback : Option Text

inductive Response
  | job (code : Nat) (status : JobStatus)
  | error (code : Nat) (text : Text)

def jobIdMaxLen : Nat := 128

def validJobId (id : Text) : Bool :=
  id != [] && id != ['.'] && id != ['.', '.'] && decide (id.length ≤ jobIdMaxLen) &&
    id.all fun c => c.isAlphanum || c == '.' || c == '_' || c == '-' || c == ':'

/-- What a POST is refused with.  `restate` says whether the ingress of Restate is configured, and
`cwd` is what is wrong with the directory. -/
def validateCreation (restate : Bool) (body : CreateJobBody) (cwd : Option Text) : Option Text :=
  if !validJobId body.jobId then
    some ("VNL-SBX-JOBS-001: invalid job_id ".toList ++
      "(empty, too long, or outside [A-Za-z0-9._:-])".toList)
  else if body.script.isEmpty then
    some "VNL-SBX-JOBS-002: script must not be empty".toList
  else if body.callback.isSome && !restate then
    some ("VNL-SBX-JOBS-003: callback requested ".toList ++
      "but no restate ingress url is configured".toList)
  else cwd.map fun text => "VNL-SBX-JOBS-004: cwd refused: ".toList ++ text

/-- `@JobStatus` of a job that is not there any more. -/
def placeholderStatus (id : JobId) (now : Nat) : JobStatus := ⟨id, .running, none, now, none⟩

/-! ## The task of a job -/

inductive Phase
  | inserted
  | spawned (pgid : Option Int)
  | waiting
  | exited (code : Option Int)
  | elapsed
  | killed
  | judged (state : JobState) (exitCode : Option Int)
  | done
deriving DecidableEq

structure Task where
  jobId : JobId
  phase : Phase
  answered : Bool
deriving DecidableEq

inductive Event
  | spawns (pgid : Option Int)
  | spawnFails
  | marksSpawned
  | answers (now : Nat)
  | exits (code : Option Int)
  | waitFails
  | elapses
  | judges
  | marksTimedOut
  | reaps (code : Option Int)
  | finishes (now : Nat)

/-- The state of a job whose process has exited before the timeout. -/
def exitState (flags : Bool × Bool) (code : Option Int) : JobState :=
  if flags.1 then .cancelled
  else if flags.2 then .timedOut
  else if code = some 0 then .succeeded else .failed

/-- `handle_create` after the insertion, and `supervise`. -/
def Task.phaseAfter (task : Task) (jobs : Jobs) (event : Event) : Option (Phase × Jobs) :=
  match task.phase, event with
  | .inserted, .spawns pgid => some (.spawned pgid, jobs)
  | .inserted, .spawnFails => some (.done, jobs.forget task.jobId)
  | .spawned pgid, .marksSpawned => some (.waiting, (jobs.markSpawned task.jobId pgid).2)
  | .waiting, .exits code => some (.exited code, jobs)
  | .waiting, .waitFails => some (.judged .failed none, jobs)
  | .waiting, .elapses => some (.elapsed, jobs)
  | .exited code, .judges =>
    some (.judged (exitState (jobs.causeFlags task.jobId) code) code, jobs)
  | .elapsed, .marksTimedOut => some (.killed, (jobs.markTimedOut task.jobId).2)
  | .killed, .reaps code => some (.judged .timedOut code, jobs)
  | .judged state code, .finishes now => some (.done, (jobs.finish task.jobId state code now).2)
  | _, _ => none

/-- The supervisor has been spawned, and the request has not been answered. -/
def Task.answers (task : Task) : Bool :=
  !task.answered && match task.phase with
    | .inserted | .spawned _ => false
    | _ => true

/-! ## The system -/

/-- `started` notes the processes that have been started, by the job, and `evicted` the jobs that
have been evicted. -/
structure State where
  jobs : Jobs
  tasks : List Task
  answers : List Response
  started : List JobId
  evicted : List JobId

def State.init : State := ⟨.new, [], [], [], []⟩

inductive Label
  | post (body : CreateJobBody) (cwd : Option Text) (now : Nat)
  | task (i : Nat) (event : Event)
  | cancel (id : JobId)
  | cancelPrefix (pre : Text)

namespace State

variable (s : State)

def setTask (i : Nat) (task : Task) : State := { s with tasks := s.tasks.set i task }

def answer (response : Response) : State := { s with answers := response :: s.answers }

/-- The checks of a POST and the section that decides it. -/
def handleCreate (restate : Bool) (body : CreateJobBody) (cwd : Option Text) (now : Nat) : State :=
  match validateCreation restate body cwd with
  | some text => s.answer (.error 400 text)
  | none =>
    match s.jobs.create body.jobId body.callback now with
    | (.known status, _) => s.answer (.job 200 status)
    | (.tooMany, _) => s.answer (.error 429 "VNL-SBX-JOBS-005: concurrent job limit reached".toList)
    | (.inserted _, jobs) => { s with
        jobs, tasks := s.tasks ++ [⟨body.jobId, .inserted, false⟩] }

/-- What is noted of an event. -/
def noted (task : Task) (event : Event) (jobs : Jobs) : State :=
  match event with
  | .spawns _ => { s with started := task.jobId :: s.started }
  | .spawnFails => s.answer (.error 500 "VNL-SBX-JOBS-006: job could not be started".toList)
  | .finishes _ => { s with
      evicted := s.jobs.registry.keys.filter (fun id => (jobs.registry.lookup id).isNone) ++
        s.evicted }
  | _ => s

def event (i : Nat) (task : Task) : Event → Option State
  | .answers now =>
    if task.answers then
      some ((s.setTask i { task with answered := true }).answer
        (.job 201 ((s.jobs.status task.jobId).getD (placeholderStatus task.jobId now))))
    else none
  | event =>
    (task.phaseAfter s.jobs event).map fun (phase, jobs) =>
      { s.noted task event jobs with
        jobs, tasks := s.tasks.set i { task with phase } }

end State

def step (restate : Bool) (s : State) : Label → Option State
  | .post body cwd now => some (s.handleCreate restate body cwd now)
  | .task i event => s.tasks[i]?.bind fun task => s.event i task event
  | .cancel id => some { s with jobs := (s.jobs.requestCancel id).2 }
  | .cancelPrefix pre => some { s with jobs := s.jobs.cancelPrefix pre }

/-! ## What is claimed -/

def AtMostRunning (s : State) : Prop := Registry.running s.jobs.registry ≤ maxRunningJobs

/-- A record that has ended is in the same state later on, if it is still there. -/
def Settled (s s' : State) : Prop :=
  ∀ id before after, s.jobs.registry.lookup id = some before → before.state ≠ .running →
    s'.jobs.registry.lookup id = some after → after.seq = before.seq →
      after.state = before.state ∧ after.exitCode = before.exitCode

def StartedOnce (s : State) : Prop := s.started.Nodup

/-- A POST that would insert a job is not for one that has been evicted. -/
def Remembered (restate : Bool) (s : State) : Label → Prop
  | .post body cwd _ =>
    validateCreation restate body cwd = none → s.jobs.registry.lookup body.jobId = none →
      Registry.running s.jobs.registry < maxRunningJobs → body.jobId ∉ s.evicted
  | _ => True

def repeats (restate : Bool) (s : State) (body : CreateJobBody) (cwd : Option Text) : Bool :=
  (validateCreation restate body cwd).isNone && (s.jobs.registry.lookup body.jobId).isNone &&
    decide (Registry.running s.jobs.registry < maxRunningJobs) &&
      s.evicted.any fun id => id == body.jobId

theorem remembered_iff {restate : Bool} {s : State} {body : CreateJobBody} {cwd : Option Text}
    {now : Nat} :
    Remembered restate s (.post body cwd now) ↔ repeats restate s body cwd = false := by
  unfold Remembered repeats
  simp only [Bool.and_eq_false_imp, Bool.and_eq_true, Option.isNone_iff_eq_none,
    decide_eq_true_eq, and_imp, List.any_eq_false, beq_iff_eq]
  constructor
  · rintro h hvalid hnew hcap id hid rfl
    exact h hvalid hnew hcap hid
  · intro h hvalid hnew hcap hmem
    exact h hvalid hnew hcap _ hmem rfl

instance (restate : Bool) (s : State) (label : Label) : Decidable (Remembered restate s label) :=
  match label with
  | .post .. => decidable_of_iff _ remembered_iff.symm
  | .task .. | .cancel _ | .cancelPrefix _ => isTrue trivial

/-! ## The records over a step -/

/-- No record that has ended changes, and what is inserted has a new number. -/
structure Keeps (jobs jobs' : Jobs) : Prop where
  nextSeq : jobs.nextSeq ≤ jobs'.nextSeq
  origin : ∀ id after, jobs'.registry.lookup id = some after →
    (jobs.nextSeq ≤ after.seq ∧ after.seq < jobs'.nextSeq) ∨
    ∃ before, jobs.registry.lookup id = some before ∧ after.seq = before.seq ∧
      (before.state ≠ .running → after.state = before.state ∧ after.exitCode = before.exitCode)

namespace Keeps

variable {jobs jobs' : Jobs} {id : JobId}

theorem refl (jobs : Jobs) : Keeps jobs jobs :=
  ⟨Nat.le_refl _, fun _ after h => .inr ⟨after, h, rfl, fun _ => ⟨rfl, rfl⟩⟩⟩

theorem trans {first second third : Jobs} (h : Keeps first second) (h' : Keeps second third) :
    Keeps first third := by
  refine ⟨Nat.le_trans h.nextSeq h'.nextSeq, fun id after hafter => ?_⟩
  have hle := h.nextSeq
  have hle' := h'.nextSeq
  rcases h'.origin id after hafter with ⟨hnew, hlt⟩ | ⟨middle, hmiddle, hseq', hsame'⟩
  · exact .inl ⟨by omega, hlt⟩
  · rcases h.origin id middle hmiddle with ⟨hnew, hlt⟩ | ⟨before, hbefore, hseq, hsame⟩
    · exact .inl ⟨by omega, by omega⟩
    · refine .inr ⟨before, hbefore, hseq'.trans hseq, fun hended => ?_⟩
      obtain ⟨hstate, hcode⟩ := hsame hended
      obtain ⟨hstate', hcode'⟩ := hsame' (by rwa [hstate])
      exact ⟨hstate'.trans hstate, hcode'.trans hcode⟩

theorem of_alike (h : jobs.registry.Alike jobs'.registry) (hseq : jobs'.nextSeq = jobs.nextSeq) :
    Keeps jobs jobs' := by
  refine ⟨Nat.le_of_eq hseq.symm, fun id after hafter => ?_⟩
  obtain ⟨before, hbefore, hsame⟩ := h.backward id after hafter
  exact .inr ⟨before, hbefore, hsame.seq, fun _ => ⟨hsame.state, hsame.exitCode⟩⟩

theorem create (jobs : Jobs) (id : JobId) (awakeableId : Option Text) (now : Nat) :
    Keeps jobs (jobs.create id awakeableId now).2 := by
  rcases jobs.create_cases id awakeableId now with ⟨hsame, -⟩ | ⟨hnew, -, hcreate⟩
  · rw [hsame]
    exact refl jobs
  · rw [hcreate]
    refine ⟨Nat.le_succ _, fun j after hafter => ?_⟩
    dsimp only at hafter ⊢
    by_cases hj : j = id
    · subst hj
      rw [AList.lookup_insert] at hafter
      cases hafter
      exact .inl ⟨Nat.le_refl _, Nat.lt_succ_self _⟩
    · rw [AList.lookup_insert_ne hj] at hafter
      exact .inr ⟨after, hafter, rfl, fun _ => ⟨rfl, rfl⟩⟩

theorem forget (jobs : Jobs) (id : JobId) : Keeps jobs (jobs.forget id) := by
  refine ⟨Nat.le_refl _, fun j after hafter => ?_⟩
  exact .inr ⟨after, (Registry.lookup_of_erase hafter).2, rfl, fun _ => ⟨rfl, rfl⟩⟩

/-- Only a running record is finished. -/
theorem finish {record : JobRecord} (hrecord : jobs.registry.lookup id = some record)
    (hrunning : record.state = .running) (state : JobState) (exitCode : Option Int) (now : Nat) :
    Keeps jobs (jobs.finish id state exitCode now).2 := by
  unfold Jobs.finish
  rw [hrecord]
  refine ⟨Nat.le_refl _, fun j after hafter => ?_⟩
  have hafter := Registry.lookup_of_evictLoop _ _ hafter
  by_cases hj : j = id
  · subst hj
    rw [AList.lookup_insert] at hafter
    cases hafter
    exact .inr ⟨record, hrecord, rfl, fun hended => absurd hrunning hended⟩
  · rw [AList.lookup_insert_ne hj] at hafter
    exact .inr ⟨after, hafter, rfl, fun _ => ⟨rfl, rfl⟩⟩

theorem fresh (h : Keeps jobs jobs')
    (hfresh : ∀ id record, jobs.registry.lookup id = some record → record.seq < jobs.nextSeq) :
    ∀ id record, jobs'.registry.lookup id = some record → record.seq < jobs'.nextSeq := by
  intro id after hafter
  have hle := h.nextSeq
  rcases h.origin id after hafter with ⟨-, hlt⟩ | ⟨before, hbefore, hseq, -⟩
  · exact hlt
  · have := hfresh id before hbefore
    omega

end Keeps

/-! ## What an event does -/

theorem exitState_terminal (flags : Bool × Bool) (code : Option Int) :
    (exitState flags code).isTerminal := by
  unfold exitState
  split_ifs <;> rfl

/-- The task goes on, with the same jobs in the same states. -/
structure GoesOn (task : Task) (jobs : Jobs) (event : Event) (phase : Phase) (jobs' : Jobs) :
    Prop where
  open_ : task.phase ≠ .done
  goes : phase ≠ .done
  alike : jobs.registry.Alike jobs'.registry
  nextSeq : jobs'.nextSeq = jobs.nextSeq
  terminal : ∀ state exitCode, phase = .judged state exitCode → state.isTerminal
  spawned : phase ≠ .inserted
  spawns : ∀ pgid, event = .spawns pgid → task.phase = .inserted
  fails : event ≠ .spawnFails
  finishes : ∀ now, event ≠ .finishes now

/-- An event of a task lets it go on, forgets a job that was not spawned, or finishes one. -/
theorem phaseAfter_cases {task : Task} {jobs jobs' : Jobs} {event : Event} {phase : Phase}
    (h : task.phaseAfter jobs event = some (phase, jobs')) :
    GoesOn task jobs event phase jobs' ∨
    task.phase = .inserted ∧ event = .spawnFails ∧ phase = .done ∧
      jobs' = jobs.forget task.jobId ∨
    ∃ state exitCode now, task.phase = .judged state exitCode ∧ event = .finishes now ∧
      phase = .done ∧ jobs' = (jobs.finish task.jobId state exitCode now).2 := by
  unfold Task.phaseAfter at h
  split at h <;> cases h <;> rename_i hphase
  case h_1 =>
    exact .inl ⟨by simp [hphase], by simp, .refl _, rfl, by simp, by simp, fun _ _ => hphase,
      by simp, by simp⟩
  case h_2 => exact .inr (.inl ⟨hphase, rfl, rfl, rfl⟩)
  case h_3 =>
    exact .inl ⟨by simp [hphase], by simp, jobs.markSpawned_alike _ _, rfl, by simp, by simp,
      by simp, by simp, by simp⟩
  case h_5 | h_9 =>
    refine .inl ⟨by simp [hphase], by simp, .refl _, rfl, ?_, by simp, by simp, by simp, by simp⟩
    intro state exitCode hjudged
    cases hjudged
    rfl
  case h_7 =>
    refine .inl ⟨by simp [hphase], by simp, .refl _, rfl, ?_, by simp, by simp, by simp, by simp⟩
    intro state exitCode hjudged
    cases hjudged
    exact exitState_terminal _ _
  case h_8 =>
    exact .inl ⟨by simp [hphase], by simp, jobs.markTimedOut_alike _, rfl, by simp, by simp,
      by simp, by simp, by simp⟩
  case h_10 => exact .inr (.inr ⟨_, _, _, hphase, rfl, rfl, rfl⟩)
  all_goals
    exact .inl ⟨by simp [hphase], by simp, .refl _, rfl, by simp, by simp, by simp, by simp,
      by simp⟩

/-! ## The tasks and their records -/

/-- A task that is not done has a running record of its own. -/
structure Inv (s : State) : Prop where
  cap : AtMostRunning s
  fresh : ∀ id record, s.jobs.registry.lookup id = some record → record.seq < s.jobs.nextSeq
  active : ∀ (i : Nat) task, s.tasks[i]? = some task → task.phase ≠ .done →
    ∃ record, s.jobs.registry.lookup task.jobId = some record ∧ record.state = .running
  distinct : ∀ (i j : Nat) task other, s.tasks[i]? = some task → s.tasks[j]? = some other →
    task.phase ≠ .done → other.phase ≠ .done → task.jobId = other.jobId → i = j
  judged : ∀ (i : Nat) task state exitCode, s.tasks[i]? = some task →
    task.phase = .judged state exitCode → state.isTerminal

theorem inv_init : Inv .init := by
  refine ⟨Nat.zero_le _, ?_, ?_, ?_, ?_⟩
  · intro id record h
    cases h
  · intro i task h
    cases h
  · intro i j task other h
    cases h
  · intro i task state exitCode h
    cases h

/-- The list of tasks after one of them has changed. -/
theorem task_set {tasks : List Task} {i j : Nat} {task other new : Task}
    (htask : tasks[i]? = some task) (h : (tasks.set i new)[j]? = some other) :
    j = i ∧ other = new ∨ j ≠ i ∧ tasks[j]? = some other := by
  have hi := (List.getElem?_eq_some_iff.1 htask).1
  by_cases hj : j = i
  · subst hj
    rw [List.getElem?_set_self hi] at h
    exact .inl ⟨rfl, (Option.some.inj h).symm⟩
  · rw [List.getElem?_set_ne (Ne.symm hj)] at h
    exact .inr ⟨hj, h⟩

namespace Inv

variable {s s' : State} (h : Inv s)

include h in
/-- The same jobs in the same states, and the same tasks. -/
theorem alike (hreg : s.jobs.registry.Alike s'.jobs.registry)
    (hseq : s'.jobs.nextSeq = s.jobs.nextSeq) (htasks : s'.tasks = s.tasks) : Inv s' := by
  refine ⟨?_, (Keeps.of_alike hreg hseq).fresh h.fresh, ?_, ?_, ?_⟩
  · show Registry.running s'.jobs.registry ≤ maxRunningJobs
    rw [hreg.running]
    exact h.cap
  · intro i task htask hopen
    rw [htasks] at htask
    obtain ⟨before, hbefore, hrunning⟩ := h.active i task htask hopen
    obtain ⟨after, hafter, hsame⟩ := hreg.forward _ before hbefore
    exact ⟨after, hafter, hsame.state.trans hrunning⟩
  · rw [htasks]
    exact h.distinct
  · rw [htasks]
    exact h.judged

include h in
/-- A task goes on. -/
theorem setTask (new : Task) {i : Nat} {task : Task} (htask : s.tasks[i]? = some task)
    (hid : new.jobId = task.jobId) (hopen : new.phase ≠ .done → task.phase ≠ .done)
    (hjudged : ∀ state exitCode, new.phase = .judged state exitCode → state.isTerminal)
    (hjobs : s'.jobs = s.jobs) (htasks : s'.tasks = s.tasks.set i new) : Inv s' := by
  refine ⟨?_, ?_, ?_, ?_, ?_⟩
  · show Registry.running s'.jobs.registry ≤ maxRunningJobs
    rw [hjobs]
    exact h.cap
  · rw [hjobs]
    exact h.fresh
  · intro j other hother hnotdone
    rw [htasks] at hother
    rw [hjobs]
    rcases task_set htask hother with ⟨rfl, rfl⟩ | ⟨-, hother⟩
    · rw [hid]
      exact h.active j task htask (hopen hnotdone)
    · exact h.active j other hother hnotdone
  · intro j k other other' hother hother' hnotdone hnotdone' heq
    rw [htasks] at hother hother'
    rcases task_set htask hother with ⟨rfl, rfl⟩ | ⟨-, hsame⟩ <;>
      rcases task_set htask hother' with ⟨rfl, rfl⟩ | ⟨-, hsame'⟩
    · rfl
    · exact h.distinct j k task other' htask hsame' (hopen hnotdone) hnotdone'
        (hid.symm.trans heq)
    · exact h.distinct j k other task hsame htask hnotdone (hopen hnotdone') (heq.trans hid)
    · exact h.distinct j k other other' hsame hsame' hnotdone hnotdone' heq
  · intro j other state exitCode hother hphase
    rw [htasks] at hother
    rcases task_set htask hother with ⟨rfl, rfl⟩ | ⟨-, hother⟩
    · exact hjudged state exitCode hphase
    · exact h.judged j other state exitCode hother hphase

include h in
/-- A task is done, and the records of the other ones are still running. -/
theorem done {i : Nat} {task new : Task} (htask : s.tasks[i]? = some task)
    (hopen : task.phase ≠ .done) (hdone : new.phase = .done)
    (hcap : Registry.running s'.jobs.registry ≤ Registry.running s.jobs.registry)
    (hkeeps : Keeps s.jobs s'.jobs)
    (hothers : ∀ id record, id ≠ task.jobId → s.jobs.registry.lookup id = some record →
      record.state = .running → s'.jobs.registry.lookup id = some record)
    (htasks : s'.tasks = s.tasks.set i new) : Inv s' := by
  have hother : ∀ (j : Nat) other, s'.tasks[j]? = some other → other.phase ≠ .done →
      j ≠ i ∧ s.tasks[j]? = some other := by
    intro j other hother hnotdone
    rw [htasks] at hother
    rcases task_set htask hother with ⟨rfl, rfl⟩ | hother
    · exact absurd hdone hnotdone
    · exact hother
  refine ⟨Nat.le_trans hcap h.cap, hkeeps.fresh h.fresh, ?_, ?_, ?_⟩
  · intro j other hlookup hnotdone
    obtain ⟨hj, hlookup⟩ := hother j other hlookup hnotdone
    obtain ⟨record, hrecord, hrunning⟩ := h.active j other hlookup hnotdone
    have hne : other.jobId ≠ task.jobId := fun heq =>
      hj (h.distinct j i other task hlookup htask hnotdone hopen heq)
    exact ⟨record, hothers _ record hne hrecord hrunning, hrunning⟩
  · intro j k other other' hlookup hlookup' hnotdone hnotdone'
    exact h.distinct j k other other' (hother j other hlookup hnotdone).2
      (hother k other' hlookup' hnotdone').2 hnotdone hnotdone'
  · intro j other state exitCode hlookup hphase
    obtain ⟨-, hlookup⟩ := hother j other hlookup (by rw [hphase]; simp)
    exact h.judged j other state exitCode hlookup hphase

include h in
/-- A job is inserted, with its task. -/
theorem insert {id : JobId} {awakeableId : Option Text} {now : Nat}
    (hnew : s.jobs.registry.lookup id = none)
    (hcap : Registry.running s.jobs.registry < maxRunningJobs)
    (hkeeps : Keeps s.jobs s'.jobs)
    (hreg : s'.jobs.registry = s.jobs.registry.insert id (.new awakeableId now s.jobs.nextSeq))
    (htasks : s'.tasks = s.tasks ++ [⟨id, .inserted, false⟩]) : Inv s' := by
  have hcases : ∀ (j : Nat) other, s'.tasks[j]? = some other →
      s.tasks[j]? = some other ∨ j = s.tasks.length ∧ other = ⟨id, .inserted, false⟩ := by
    intro j other hother
    rw [htasks] at hother
    rcases Nat.lt_or_ge j s.tasks.length with hlt | hge
    · rw [List.getElem?_append_left hlt] at hother
      exact .inl hother
    · rw [List.getElem?_append_right hge, List.getElem?_singleton] at hother
      split_ifs at hother with hj
      exact .inr ⟨by omega, (Option.some.inj hother).symm⟩
  have hold : ∀ (j : Nat) other, s.tasks[j]? = some other → other.phase ≠ .done →
      other.jobId ≠ id := by
    rintro j other hother hnotdone rfl
    obtain ⟨record, hrecord, -⟩ := h.active j other hother hnotdone
    rw [hnew] at hrecord
    cases hrecord
  refine ⟨?_, hkeeps.fresh h.fresh, ?_, ?_, ?_⟩
  · show Registry.running s'.jobs.registry ≤ maxRunningJobs
    rw [hreg, Registry.running_insert_of_new hnew rfl]
    exact hcap
  · intro j other hother hnotdone
    rw [hreg]
    rcases hcases j other hother with hother | ⟨-, rfl⟩
    · obtain ⟨record, hrecord, hrunning⟩ := h.active j other hother hnotdone
      rw [AList.lookup_insert_ne (hold j other hother hnotdone)]
      exact ⟨record, hrecord, hrunning⟩
    · rw [AList.lookup_insert]
      exact ⟨_, rfl, rfl⟩
  · intro j k other other' hother hother' hnotdone hnotdone' heq
    rcases hcases j other hother with hother | ⟨hj, rfl⟩ <;>
      rcases hcases k other' hother' with hother' | ⟨hk, rfl⟩
    · exact h.distinct j k other other' hother hother' hnotdone hnotdone' heq
    · exact absurd heq (hold j other hother hnotdone)
    · exact absurd heq.symm (hold k other' hother' hnotdone')
    · rw [hj, hk]
  · intro j other state exitCode hother hphase
    rcases hcases j other hother with hother | ⟨-, rfl⟩
    · exact h.judged j other state exitCode hother hphase
    · cases hphase

end Inv

/-! ## One step -/

section Step

variable {restate : Bool} {s s' : State} {i : Nat} {task : Task} {event : Event}
  {body : CreateJobBody} {cwd : Option Text} {now : Nat}

/-- A POST changes nothing but the answers, or inserts a job. -/
theorem handleCreate_cases (restate : Bool) (s : State) (body : CreateJobBody)
    (cwd : Option Text) (now : Nat) :
    (∃ response, s.handleCreate restate body cwd now = s.answer response) ∨
    validateCreation restate body cwd = none ∧ s.jobs.registry.lookup body.jobId = none ∧
      Registry.running s.jobs.registry < maxRunningJobs ∧
      s.handleCreate restate body cwd now = { s with
        jobs := (s.jobs.create body.jobId body.callback now).2
        tasks := s.tasks ++ [⟨body.jobId, .inserted, false⟩] } ∧
      (s.jobs.create body.jobId body.callback now).2.registry =
        s.jobs.registry.insert body.jobId (.new body.callback now s.jobs.nextSeq) := by
  unfold State.handleCreate
  split
  · exact .inl ⟨_, rfl⟩
  · rename_i hvalid
    rcases s.jobs.create_cases body.jobId body.callback now with
      ⟨-, hnot⟩ | ⟨hnew, hcap, hcreate⟩
    · left
      split
      · exact ⟨_, rfl⟩
      · exact ⟨_, rfl⟩
      · rename_i seq jobs hcreate
        exact absurd (congrArg Prod.fst hcreate) (hnot seq)
    · right
      rw [hcreate]
      exact ⟨hvalid, hnew, hcap, rfl, rfl⟩

/-- The answer of a request leaves all but the task's flag. -/
structure Answered (s : State) (i : Nat) (task : Task) (s' : State) : Prop where
  jobs : s'.jobs = s.jobs
  tasks : s'.tasks = s.tasks.set i { task with answered := true }
  started : s'.started = s.started
  evicted : s'.evicted = s.evicted

theorem event_cases (h : s.event i task event = some s') :
    Answered s i task s' ∨
    ∃ phase jobs, task.phaseAfter s.jobs event = some (phase, jobs) ∧
      s' = { s.noted task event jobs with
        jobs, tasks := s.tasks.set i { task with phase } } := by
  unfold State.event at h
  split at h
  · split_ifs at h
    cases h
    exact .inl ⟨rfl, rfl, rfl, rfl⟩
  · obtain ⟨⟨phase, jobs⟩, hphase, rfl⟩ := Option.map_eq_some_iff.1 h
    exact .inr ⟨phase, jobs, hphase, rfl⟩

theorem inv_event (h : Inv s) (htask : s.tasks[i]? = some task)
    (hnext : s.event i task event = some s') : Inv s' ∧ Keeps s.jobs s'.jobs := by
  rcases event_cases hnext with hanswered | ⟨phase, jobs, hphase, rfl⟩
  · refine ⟨?_, ?_⟩
    · apply h.setTask { task with answered := true } htask rfl id ?_ hanswered.jobs
        hanswered.tasks
      exact fun state exitCode => h.judged i task state exitCode htask
    · rw [hanswered.jobs]
      exact .refl _
  · rcases phaseAfter_cases hphase with hgoes | ⟨hopen, -, rfl, rfl⟩ |
      ⟨state, exitCode, now, hopen, -, rfl, rfl⟩
    · refine ⟨?_, Keeps.of_alike hgoes.alike hgoes.nextSeq⟩
      have hset : Inv (s.setTask i { task with phase }) :=
        h.setTask { task with phase } htask rfl (fun _ => hgoes.open_) hgoes.terminal rfl rfl
      exact hset.alike hgoes.alike hgoes.nextSeq rfl
    · have hkeeps := Keeps.forget s.jobs task.jobId
      refine ⟨?_, hkeeps⟩
      apply h.done htask (by simp [hopen]) rfl (Registry.running_erase_le _ _) hkeeps ?_ rfl
      intro id record hne hrecord _
      exact (AList.lookup_erase_ne hne).trans hrecord
    · obtain ⟨record, hrecord, hrunning⟩ := h.active i task htask (by simp [hopen])
      have hterminal := h.judged i task state exitCode htask hopen
      have hkeeps := Keeps.finish hrecord hrunning state exitCode now
      have hfinish : (s.jobs.finish task.jobId state exitCode now).2.registry =
          Registry.evictFinished (s.jobs.registry.insert task.jobId
            (record.settle state exitCode now)) := by
        unfold Jobs.finish
        rw [hrecord]
      refine ⟨?_, hkeeps⟩
      apply h.done htask (by simp [hopen]) rfl ?_ hkeeps ?_ rfl
      · show Registry.running (s.jobs.finish task.jobId state exitCode now).2.registry ≤ _
        rw [hfinish]
        refine Nat.le_trans (Registry.running_evictLoop_le _ _)
          (Registry.running_insert_terminal _ _ ?_)
        intro hstate
        rw [show state = .running from hstate] at hterminal
        cases hterminal
      · intro id other hne hother hstate
        show (s.jobs.finish task.jobId state exitCode now).2.registry.lookup id = some other
        rw [hfinish]
        apply Registry.lookup_evictLoop _ _ _ hstate
        rw [AList.lookup_insert_ne hne]
        exact hother

theorem inv_step {label : Label} (h : Inv s) (hnext : step restate s label = some s') :
    Inv s' ∧ Keeps s.jobs s'.jobs := by
  cases label with
  | post body cwd now =>
      cases hnext
      rcases handleCreate_cases restate s body cwd now with
        ⟨response, hsame⟩ | ⟨-, hnew, hcap, hcreate, hreg⟩
      · rw [hsame]
        exact ⟨h.alike (.refl _) rfl rfl, .refl _⟩
      · rw [hcreate]
        have hkeeps := Keeps.create s.jobs body.jobId body.callback now
        exact ⟨h.insert hnew hcap hkeeps hreg rfl, hkeeps⟩
  | task i event =>
      obtain ⟨task, htask, hevent⟩ := Option.bind_eq_some_iff.1 hnext
      exact inv_event h htask hevent
  | cancel id =>
      cases hnext
      have halike := s.jobs.requestCancel_alike id
      have hseq := s.jobs.requestCancel_nextSeq id
      exact ⟨h.alike halike hseq rfl, .of_alike halike hseq⟩
  | cancelPrefix pre =>
      cases hnext
      have halike := s.jobs.cancelPrefix_alike pre
      have hseq := s.jobs.cancelPrefix_nextSeq pre
      exact ⟨h.alike halike hseq rfl, .of_alike halike hseq⟩

end Step

/-! ## The processes that are started -/

/-- A job that has not been spawned has never been started, and a job that has been started is
known or has been evicted. -/
structure Unrepeated (s : State) : Prop where
  once : StartedOnce s
  inserted : ∀ (i : Nat) task, s.tasks[i]? = some task → task.phase = .inserted →
    task.jobId ∉ s.started
  known : ∀ id ∈ s.started, (s.jobs.registry.lookup id).isSome ∨ id ∈ s.evicted

theorem unrepeated_init : Unrepeated .init := by
  refine ⟨.nil, ?_, ?_⟩
  · intro i task h
    cases h
  · intro id h
    cases h

namespace Unrepeated

variable {s s' : State} (h : Unrepeated s)

include h in
theorem alike (hreg : s.jobs.registry.Alike s'.jobs.registry) (htasks : s'.tasks = s.tasks)
    (hstarted : s'.started = s.started) (hevicted : s'.evicted = s.evicted) :
    Unrepeated s' := by
  refine ⟨?_, ?_, ?_⟩
  · show s'.started.Nodup
    rw [hstarted]
    exact h.once
  · rw [htasks, hstarted]
    exact h.inserted
  · intro id hid
    rw [hstarted] at hid
    rw [hevicted]
    rcases h.known id hid with hknown | hevicted
    · obtain ⟨before, hbefore⟩ := Option.isSome_iff_exists.1 hknown
      obtain ⟨after, hafter, -⟩ := hreg.forward id before hbefore
      exact .inl (by rw [hafter]; rfl)
    · exact .inr hevicted

include h in
/-- A task goes on without a new process. -/
theorem setTask (new : Task) {i : Nat} {task : Task} (htask : s.tasks[i]? = some task)
    (hid : new.jobId = task.jobId) (hinserted : new.phase = .inserted → task.phase = .inserted)
    (hknown : ∀ id ∈ s.started, (s'.jobs.registry.lookup id).isSome ∨ id ∈ s'.evicted)
    (htasks : s'.tasks = s.tasks.set i new) (hstarted : s'.started = s.started) :
    Unrepeated s' := by
  refine ⟨?_, ?_, ?_⟩
  · show s'.started.Nodup
    rw [hstarted]
    exact h.once
  · intro j other hother hphase
    rw [htasks] at hother
    rw [hstarted]
    rcases task_set htask hother with ⟨rfl, rfl⟩ | ⟨-, hother⟩
    · rw [hid]
      exact h.inserted j task htask (hinserted hphase)
    · exact h.inserted j other hother hphase
  · rw [hstarted]
    exact hknown

include h in
/-- The process of a job is started. -/
theorem spawn (hinv : Inv s) (new : Task) {i : Nat} {task : Task}
    (htask : s.tasks[i]? = some task) (hphase : task.phase = .inserted)
    (hspawned : new.phase ≠ .inserted) (hjobs : s'.jobs = s.jobs)
    (htasks : s'.tasks = s.tasks.set i new) (hstarted : s'.started = task.jobId :: s.started)
    (hevicted : s'.evicted = s.evicted) : Unrepeated s' := by
  have hopen : task.phase ≠ .done := by simp [hphase]
  refine ⟨?_, ?_, ?_⟩
  · show s'.started.Nodup
    rw [hstarted]
    exact List.nodup_cons.2 ⟨h.inserted i task htask hphase, h.once⟩
  · intro j other hother hinserted
    rw [htasks] at hother
    rw [hstarted]
    rcases task_set htask hother with ⟨rfl, rfl⟩ | ⟨hj, hother⟩
    · exact absurd hinserted hspawned
    · intro hmem
      rcases List.mem_cons.1 hmem with heq | hmem
      · exact hj (hinv.distinct j i other task hother htask (by simp [hinserted]) hopen heq)
      · exact h.inserted j other hother hinserted hmem
  · intro id hid
    rw [hstarted] at hid
    rw [hjobs, hevicted]
    rcases List.mem_cons.1 hid with rfl | hid
    · obtain ⟨record, hrecord, -⟩ := hinv.active i task htask hopen
      exact .inl (by rw [hrecord]; rfl)
    · exact h.known id hid

end Unrepeated

/-- An event of which nothing is noted. -/
def Event.plain : Event → Bool
  | .spawns _ | .spawnFails | .finishes _ => false
  | _ => true

theorem unrepeated_event {s s' : State} {i : Nat} {task : Task} {event : Event} (hinv : Inv s)
    (h : Unrepeated s) (htask : s.tasks[i]? = some task)
    (hnext : s.event i task event = some s') : Unrepeated s' := by
  rcases event_cases hnext with hanswered | ⟨phase, jobs, hphase, rfl⟩
  · apply h.setTask { task with answered := true } htask rfl id ?_ hanswered.tasks
      hanswered.started
    rw [hanswered.jobs, hanswered.evicted]
    exact h.known
  · rcases phaseAfter_cases hphase with hgoes | ⟨hopen, rfl, rfl, rfl⟩ |
      ⟨state, exitCode, now, hopen, rfl, rfl, rfl⟩
    · by_cases hplain : event.plain
      · have hnoted : s.noted task event jobs = s := by
          cases event <;> first | rfl | cases hplain
        rw [hnoted]
        have hset : Unrepeated (s.setTask i { task with phase }) :=
          h.setTask { task with phase } htask rfl (fun hinserted => absurd hinserted hgoes.spawned)
            h.known rfl rfl
        exact hset.alike hgoes.alike rfl rfl rfl
      · cases event with
        | spawns pgid =>
            have hinserted := hgoes.spawns pgid rfl
            have hset : Unrepeated { s with
                tasks := s.tasks.set i { task with phase }
                started := task.jobId :: s.started } :=
              h.spawn hinv { task with phase } htask hinserted hgoes.spawned rfl rfl rfl rfl
            exact hset.alike hgoes.alike rfl rfl rfl
        | spawnFails => exact absurd rfl hgoes.fails
        | finishes now => exact absurd rfl (hgoes.finishes now)
        | _ => exact absurd rfl hplain
    · refine h.setTask { task with phase := .done } htask rfl (fun hdone => by cases hdone)
        ?_ ?_ ?_
      case refine_2 | refine_3 => rfl
      intro id hid
      have hne : id ≠ task.jobId := by
        rintro rfl
        exact h.inserted i task htask hopen hid
      show (AList.lookup id (s.jobs.registry.erase task.jobId)).isSome ∨ id ∈ s.evicted
      rw [AList.lookup_erase_ne hne]
      exact h.known id hid
    · refine h.setTask { task with phase := .done } htask rfl (fun hdone => by cases hdone)
        ?_ ?_ ?_
      case refine_2 | refine_3 => rfl
      intro id hid
      by_cases hafter :
          ((s.jobs.finish task.jobId state exitCode now).2.registry.lookup id).isSome
      · exact .inl hafter
      · right
        apply List.mem_append.2
        rcases h.known id hid with hknown | hevicted
        · left
          apply List.mem_filter.2
          exact ⟨AList.lookup_isSome.1 hknown, by simpa using hafter⟩
        · exact .inr hevicted

theorem unrepeated_step {restate : Bool} {s s' : State} {label : Label} (hinv : Inv s)
    (h : Unrepeated s) (hremembered : Remembered restate s label)
    (hnext : step restate s label = some s') : Unrepeated s' := by
  cases label with
  | post body cwd now =>
      cases hnext
      rcases handleCreate_cases restate s body cwd now with
        ⟨response, hsame⟩ | ⟨hvalid, hnew, hcap, hcreate, hreg⟩
      · rw [hsame]
        exact h.alike (.refl _) rfl rfl rfl
      · have hnever : body.jobId ∉ s.started := by
          intro hmem
          rcases h.known _ hmem with hknown | hevicted
          · rw [hnew] at hknown
            cases hknown
          · exact hremembered hvalid hnew hcap hevicted
        rw [hcreate]
        refine ⟨h.once, ?_, ?_⟩
        · intro j other hother hphase
          rcases List.mem_append.1 (List.mem_of_getElem? hother) with hmem | hmem
          · obtain ⟨k, hk⟩ := List.mem_iff_getElem?.1 hmem
            exact h.inserted k other hk hphase
          · rw [List.mem_singleton.1 hmem]
            exact hnever
        · intro id hid
          show ((s.jobs.create body.jobId body.callback now).2.registry.lookup id).isSome ∨ _
          rw [hreg]
          by_cases heq : id = body.jobId
          · rw [heq, AList.lookup_insert]
            exact .inl rfl
          · rw [AList.lookup_insert_ne heq]
            exact h.known id hid
  | task i event =>
      obtain ⟨task, htask, hevent⟩ := Option.bind_eq_some_iff.1 hnext
      exact unrepeated_event hinv h htask hevent
  | cancel id =>
      cases hnext
      exact h.alike (s.jobs.requestCancel_alike id) rfl rfl rfl
  | cancelPrefix pre =>
      cases hnext
      exact h.alike (s.jobs.cancelPrefix_alike pre) rfl rfl rfl

/-! ## Every run -/

variable {restate : Bool} {labels : List Label} {s : State}

theorem inv_of_run (h : Run (step restate) free .init labels s) : Inv s :=
  h.invariant inv_init fun _ _ _ hinv _ hnext => (inv_step hinv hnext).1

theorem settled_of_run (h : Run (step restate) free .init labels s) {labels' : List Label}
    {s' : State} (h' : Run (step restate) free s labels' s') : Settled s s' := by
  have hinv := inv_of_run h
  have hkeeps : Keeps s.jobs s'.jobs := by
    apply h'.relation (R := fun s s' : State => Keeps s.jobs s'.jobs) hinv
      (fun _ _ _ hinv _ hnext => (inv_step hinv hnext).1) (fun _ => .refl _)
      (fun _ _ _ => .trans)
    exact fun _ _ _ hinv _ hnext => (inv_step hinv hnext).2
  intro id before after hbefore hended hafter hseq
  rcases hkeeps.origin id after hafter with ⟨hnew, -⟩ | ⟨origin, horigin, -, hsame⟩
  · have := hinv.fresh id before hbefore
    omega
  · rw [hbefore] at horigin
    cases horigin
    exact hsame hended

/-- At most four records are running, and a record that has ended stays as it is.  While no job
is posted after it has been evicted, no second process is started for a job. -/
theorem jobs_of_run (h : Run (step restate) free .init labels s) :
    AtMostRunning s ∧
      (∀ labels' s', Run (step restate) free s labels' s' → Settled s s') ∧
      (Run (step restate) (Remembered restate) .init labels s → StartedOnce s) := by
  refine ⟨(inv_of_run h).cap, fun _ _ h' => settled_of_run h h', fun hrun => ?_⟩
  have hboth : Inv s ∧ Unrepeated s := by
    apply hrun.invariant ⟨inv_init, unrepeated_init⟩
    intro t label u ⟨hinv, hunrepeated⟩ hremembered hnext
    exact ⟨(inv_step hinv hnext).1, unrepeated_step hinv hunrepeated hremembered hnext⟩
  exact hboth.2.once

/-! ## A job that is posted again -/

def posted (id : JobId) : Label := .post ⟨id, ['x'], none⟩ none 0

/-- A job is posted and its process runs to the end, with task `i`. -/
def wholeJob (id : JobId) (i : Nat) : List Label :=
  [posted id, .task i (.spawns (some 7)), .task i .marksSpawned, .task i (.answers 0),
    .task i (.exits (some 0)), .task i .judges, .task i (.finishes 0)]

/-- So many jobs, one after the other, with the identifiers `a`, `aa`, and so on. -/
def wholeJobs (n : Nat) : List Label :=
  (List.range n).flatMap fun k => wholeJob (List.replicate (k + 1) 'a') k

/-- The job is posted again while it is known, and the record is shown. -/
theorem jobs_of_run_replayed : ∃ s, Run (step false) free .init (wholeJobs 2 ++ [posted ['a']]) s ∧
    s.started.length = 2 ∧ s.tasks.length = 2 ∧ AtMostRunning s ∧
      (∀ labels' s', Run (step false) free s labels' s' → Settled s s') ∧ StartedOnce s := by
  obtain ⟨s, hrun, htest⟩ := Run.exists_of_exec
    (fun s => s.started.length == 2 && s.tasks.length == 2)
    (show (exec (step false) (Remembered false) .init
      (wholeJobs 2 ++ [posted ['a']])).any _ = true by decide +kernel)
  simp only [Bool.and_eq_true, beq_iff_eq] at htest
  obtain ⟨hcap, hsettled, honce⟩ := jobs_of_run (hrun.mono fun _ _ _ => trivial)
  exact ⟨s, hrun.mono fun _ _ _ => trivial, htest.1, htest.2, hcap, hsettled, honce hrun⟩

/-- The last process that was started is one of a job that has been started before. -/
def startedAgain (s : State) : Bool :=
  match s.started with
  | id :: before => before.any (· == id)
  | [] => false

theorem not_startedOnce_of_again {s : State} (h : startedAgain s = true) : ¬StartedOnce s := by
  intro honce
  unfold startedAgain at h
  unfold StartedOnce at honce
  split at h
  · rename_i id before hstarted
    rw [hstarted] at honce
    obtain ⟨other, hother, heq⟩ := List.any_eq_true.1 h
    rw [eq_of_beq heq] at hother
    exact (List.nodup_cons.1 honce).1 hother
  · cases h

/-- After twenty-one jobs the first one has been evicted, and a POST starts it again. -/
theorem startedOnce_fails : ∃ s,
    Run (step false) free .init (wholeJobs 21 ++ [posted ['a'], .task 21 (.spawns (some 8))]) s ∧
      startedAgain s = true ∧ ¬StartedOnce s := by
  obtain ⟨s, hrun, htest⟩ := Run.exists_of_exec startedAgain
    (show (exec (step false) free .init
      (wholeJobs 21 ++ [posted ['a'], .task 21 (.spawns (some 8))])).any _ = true by
        decide +kernel)
  exact ⟨s, hrun, htest, not_startedOnce_of_again htest⟩

end Vanyline.Sandbox.JobRuns
