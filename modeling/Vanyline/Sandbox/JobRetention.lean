import Vanyline.Sandbox.JobRegistry

/-!
# The jobs that are kept

The operations of the registry, in any order.  `ended` notes the jobs as they end, the last one
first, and has a job that is finished again only once.

* A running job stays in the registry until it is finished or forgotten (`KeepsRunning`).
* The finished jobs of the registry are the last twenty that have ended (`Retained`), as long
  as no job ends with twenty kept of which the first to end was not inserted first
  (`InOrder`).
-/

namespace Vanyline.Sandbox.JobRegistry

open Vanyline.Lib

structure State where
  jobs : Jobs
  ended : List Finished

def State.init : State := ⟨.new, []⟩

inductive Label
  | create (id : JobId) (awakeableId : Option Text) (now : Nat)
  | markSpawned (id : JobId) (pgid : Option Int)
  | requestCancel (id : JobId)
  | cancelPrefix (pre : Text)
  | markTimedOut (id : JobId)
  | forget (id : JobId)
  | finish (id : JobId) (state : JobState) (exitCode : Option Int) (now : Nat)

/-- The job ends, and is the last one that has. -/
def State.note (s : State) (id : JobId) (state : JobState) (exitCode : Option Int) :
    List Finished :=
  match s.jobs.registry.lookup id with
  | some record => ⟨id, record.seq, state, exitCode⟩ :: s.ended.filter (·.seq != record.seq)
  | none => s.ended

/-- Only a job that has not been spawned is forgotten; its record is running. -/
def step (s : State) : Label → Option State
  | .create id awakeableId now => some { s with jobs := (s.jobs.create id awakeableId now).2 }
  | .markSpawned id pgid => some { s with jobs := (s.jobs.markSpawned id pgid).2 }
  | .requestCancel id => some { s with jobs := (s.jobs.requestCancel id).2 }
  | .cancelPrefix pre => some { s with jobs := s.jobs.cancelPrefix pre }
  | .markTimedOut id => some { s with jobs := (s.jobs.markTimedOut id).2 }
  | .forget id =>
    if (s.jobs.registry.lookup id).any (·.state == .running) then
      some { s with jobs := s.jobs.forget id }
    else none
  | .finish id state exitCode now =>
    if state.isTerminal then
      some { jobs := (s.jobs.finish id state exitCode now).2, ended := s.note id state exitCode }
    else none

/-! ## What is kept -/

structure Retained (s : State) : Prop where
  /-- The terminal records are those of the last twenty jobs that have ended. -/
  kept : (Registry.finished s.jobs.registry).Perm (s.ended.take maxFinishedKept)
  /-- Their terminal state is shown, that of the job that has just ended too. -/
  shown : ∀ job ∈ s.ended.take maxFinishedKept, ∃ status, s.jobs.status job.jobId = some status ∧
    status.state = job.state ∧ status.exitCode = job.exitCode

/-- The job ends with this step. -/
def Label.ends (id : JobId) : Label → Prop
  | .forget j => j = id
  | .finish j .. => j = id
  | _ => False

/-- A running job that does not end with the step is still there, and running. -/
def KeepsRunning (s : State) (label : Label) (s' : State) : Prop :=
  ∀ id record, s.jobs.registry.lookup id = some record → record.state = .running →
    label.ends id ∨ ∃ after, s'.jobs.registry.lookup id = some after ∧
      after.state = .running ∧ after.seq = record.seq

/-- With twenty jobs kept, another one that ends is not older than the one of them that ended
first, nor is any of the others. -/
def InOrder (s : State) : Label → Prop
  | .finish id _ _ _ =>
    match s.jobs.registry.lookup id, s.ended[maxFinishedKept - 1]? with
    | some record, some first => record.state = .running →
        first.seq < record.seq ∧ ∀ job ∈ s.ended.take (maxFinishedKept - 1), first.seq < job.seq
    | _, _ => True
  | _ => True

instance (s : State) (label : Label) : Decidable (InOrder s label) :=
  match label with
  | .finish id _ _ _ => by
    unfold InOrder
    dsimp only
    split <;> infer_instance
  | .create .. | .markSpawned .. | .requestCancel _ | .cancelPrefix _ | .markTimedOut _
  | .forget _ => isTrue trivial

/-! ## The numbers of the jobs -/

/-- The numbers are those of different jobs, and no running job has ended before. -/
structure Inv (s : State) : Prop where
  fresh : ∀ id record, s.jobs.registry.lookup id = some record → record.seq < s.jobs.nextSeq
  distinct : ∀ id j record other, s.jobs.registry.lookup id = some record →
    s.jobs.registry.lookup j = some other → record.seq = other.seq → id = j
  endedFresh : ∀ job ∈ s.ended, job.seq < s.jobs.nextSeq
  endedNodup : (s.ended.map Finished.seq).Nodup
  unended : ∀ id record, s.jobs.registry.lookup id = some record → record.state = .running →
    ∀ job ∈ s.ended, job.seq ≠ record.seq

theorem inv_init : Inv .init := by
  refine ⟨?_, ?_, ?_, .nil, ?_⟩
  · intro id record h
    cases h
  · intro id j record other h
    cases h
  · intro job hjob
    cases hjob
  · intro id record h
    cases h

namespace Inv

variable {s : State} (h : Inv s)

include h in
/-- The same jobs in the same states. -/
theorem alike {jobs : Jobs} (hreg : s.jobs.registry.Alike jobs.registry)
    (hseq : jobs.nextSeq = s.jobs.nextSeq) : Inv { s with jobs } := by
  refine ⟨?_, ?_, ?_, h.endedNodup, ?_⟩
  · intro id after hafter
    obtain ⟨before, hbefore, hsame⟩ := hreg.backward id after hafter
    show after.seq < jobs.nextSeq
    rw [hsame.seq, hseq]
    exact h.fresh id before hbefore
  · intro id j record other hrecord hother heq
    obtain ⟨before, hbefore, hsame⟩ := hreg.backward id record hrecord
    obtain ⟨before', hbefore', hsame'⟩ := hreg.backward j other hother
    rw [hsame.seq, hsame'.seq] at heq
    exact h.distinct id j before before' hbefore hbefore' heq
  · intro job hjob
    show job.seq < jobs.nextSeq
    rw [hseq]
    exact h.endedFresh job hjob
  · intro id after hafter hrunning job hjob
    obtain ⟨before, hbefore, hsame⟩ := hreg.backward id after hafter
    rw [hsame.seq]
    rw [hsame.state] at hrunning
    exact h.unended id before hbefore hrunning job hjob

include h in
/-- Jobs are taken out. -/
theorem fewer {reg : Registry}
    (hreg : ∀ id record, reg.lookup id = some record →
      s.jobs.registry.lookup id = some record) :
    Inv { s with jobs := { s.jobs with registry := reg } } := by
  refine ⟨?_, ?_, h.endedFresh, h.endedNodup, ?_⟩
  · intro id record hrecord
    exact h.fresh id record (hreg id record hrecord)
  · intro id j record other hrecord hother
    exact h.distinct id j record other (hreg id record hrecord) (hreg j other hother)
  · intro id record hrecord
    exact h.unended id record (hreg id record hrecord)

include h in
theorem insert {id : JobId} {awakeableId : Option Text} {now : Nat}
    (hnew : s.jobs.registry.lookup id = none) :
    Inv { s with jobs :=
      { registry := s.jobs.registry.insert id (.new awakeableId now s.jobs.nextSeq)
        nextSeq := s.jobs.nextSeq + 1 } } := by
  refine ⟨?_, ?_, ?_, h.endedNodup, ?_⟩
  · intro j record hrecord
    show record.seq < s.jobs.nextSeq + 1
    by_cases hj : j = id
    · subst hj
      rw [AList.lookup_insert] at hrecord
      cases hrecord
      exact Nat.lt_succ_self _
    · rw [AList.lookup_insert_ne hj] at hrecord
      exact Nat.lt_succ_of_lt (h.fresh j record hrecord)
  · intro j k record other hrecord hother heq
    by_cases hj : j = id <;> by_cases hk : k = id
    · rw [hj, hk]
    · subst hj
      rw [AList.lookup_insert] at hrecord
      rw [AList.lookup_insert_ne hk] at hother
      cases hrecord
      have := h.fresh k other hother
      rw [← heq] at this
      exact absurd this (Nat.lt_irrefl _)
    · subst hk
      rw [AList.lookup_insert] at hother
      rw [AList.lookup_insert_ne hj] at hrecord
      cases hother
      have := h.fresh j record hrecord
      rw [heq] at this
      exact absurd this (Nat.lt_irrefl _)
    · rw [AList.lookup_insert_ne hj] at hrecord
      rw [AList.lookup_insert_ne hk] at hother
      exact h.distinct j k record other hrecord hother heq
  · intro job hjob
    exact Nat.lt_succ_of_lt (h.endedFresh job hjob)
  · intro j record hrecord hrunning job hjob
    by_cases hj : j = id
    · subst hj
      rw [AList.lookup_insert] at hrecord
      cases hrecord
      exact Nat.ne_of_lt (h.endedFresh job hjob)
    · rw [AList.lookup_insert_ne hj] at hrecord
      exact h.unended j record hrecord hrunning job hjob

include h in
/-- A job gets its terminal state. -/
theorem settle {id : JobId} {record : JobRecord} {state : JobState} {exitCode : Option Int}
    {now : Nat} (hrecord : s.jobs.registry.lookup id = some record) (hstate : state.isTerminal) :
    Inv { jobs := { s.jobs with
            registry :=
              s.jobs.registry.insert id (record.settle state exitCode now) }
          ended := s.note id state exitCode } := by
  have hlookup : ∀ j other,
      (s.jobs.registry.insert id (record.settle state exitCode now)).lookup j = some other →
      ∃ before, s.jobs.registry.lookup j = some before ∧ before.seq = other.seq ∧
        (other.state = .running → j ≠ id ∧ before = other) := by
    intro j other hother
    by_cases hj : j = id
    · subst hj
      rw [AList.lookup_insert] at hother
      cases hother
      refine ⟨record, hrecord, rfl, fun hrunning => ?_⟩
      rw [show state = .running from hrunning] at hstate
      cases hstate
    · rw [AList.lookup_insert_ne hj] at hother
      exact ⟨other, hother, rfl, fun _ => ⟨hj, rfl⟩⟩
  have hended : s.note id state exitCode =
      ⟨id, record.seq, state, exitCode⟩ :: s.ended.filter (·.seq != record.seq) := by
    unfold State.note
    rw [hrecord]
  refine ⟨?_, ?_, ?_, ?_, ?_⟩
  · intro j other hother
    obtain ⟨before, hbefore, hseq, -⟩ := hlookup j other hother
    rw [← hseq]
    exact h.fresh j before hbefore
  · intro j k other other' hother hother' heq
    obtain ⟨before, hbefore, hseq, -⟩ := hlookup j other hother
    obtain ⟨before', hbefore', hseq', -⟩ := hlookup k other' hother'
    rw [← hseq, ← hseq'] at heq
    exact h.distinct j k before before' hbefore hbefore' heq
  · intro job hjob
    dsimp only at hjob
    rw [hended] at hjob
    rcases List.mem_cons.1 hjob with rfl | hjob
    · exact h.fresh id record hrecord
    · exact h.endedFresh job (List.mem_filter.1 hjob).1
  · show ((s.note id state exitCode).map Finished.seq).Nodup
    rw [hended, List.map_cons, List.nodup_cons]
    constructor
    · intro hmem
      obtain ⟨job, hjob, hseq⟩ := List.mem_map.1 hmem
      have := (List.mem_filter.1 hjob).2
      rw [hseq] at this
      simp at this
    · exact h.endedNodup.sublist (List.filter_sublist.map _)
  · intro j other hother hrunning job hjob
    obtain ⟨before, hbefore, hseq, hsame⟩ := hlookup j other hother
    obtain ⟨hj, rfl⟩ := hsame hrunning
    dsimp only at hjob
    rw [hended] at hjob
    rcases List.mem_cons.1 hjob with rfl | hjob
    · exact fun heq => hj (h.distinct id j record before hrecord hbefore heq).symm
    · exact h.unended j before hbefore hrunning job (List.mem_filter.1 hjob).1

end Inv

theorem inv_step {s s' : State} {label : Label} (h : Inv s) (hnext : step s label = some s') :
    Inv s' := by
  cases label with
  | create id awakeableId now =>
      cases hnext
      rcases s.jobs.create_cases id awakeableId now with ⟨hsame, -⟩ | ⟨hnew, -, hcreate⟩
      · rw [hsame]
        exact h
      · rw [hcreate]
        exact h.insert hnew
  | markSpawned id pgid =>
      cases hnext
      exact h.alike (s.jobs.markSpawned_alike id pgid) rfl
  | requestCancel id =>
      cases hnext
      exact h.alike (s.jobs.requestCancel_alike id) (s.jobs.requestCancel_nextSeq id)
  | cancelPrefix pre =>
      cases hnext
      exact h.alike (s.jobs.cancelPrefix_alike pre) (s.jobs.cancelPrefix_nextSeq pre)
  | markTimedOut id =>
      cases hnext
      exact h.alike (s.jobs.markTimedOut_alike id) rfl
  | forget id =>
      dsimp only [step] at hnext
      split_ifs at hnext
      cases hnext
      exact h.fewer fun j record hrecord => (Registry.lookup_of_erase hrecord).2
  | finish id state exitCode now =>
      dsimp only [step] at hnext
      split_ifs at hnext with hstate
      cases hnext
      rcases hlookup : s.jobs.registry.lookup id with _ | record
      · have hfinish : (s.jobs.finish id state exitCode now).2 = s.jobs := by
          unfold Jobs.finish
          rw [hlookup]
        have hnote : s.note id state exitCode = s.ended := by
          unfold State.note
          rw [hlookup]
        rw [hfinish, hnote]
        exact h
      · have hfinish : (s.jobs.finish id state exitCode now).2 = { s.jobs with
            registry := Registry.evictFinished
              (s.jobs.registry.insert id (record.settle state exitCode now)) } := by
          unfold Jobs.finish
          rw [hlookup]
        rw [hfinish]
        exact (h.settle hlookup hstate).fewer fun j other hother =>
          Registry.lookup_of_evictLoop _ _ hother

/-! ## The end of a job -/

section Finish

variable {s : State} {id : JobId} {record after : JobRecord} {state : JobState}
  {exitCode : Option Int} {now : Nat}

theorem published_settle (hstate : state.isTerminal) :
    (record.settle state exitCode now).published id = some ⟨id, record.seq, state, exitCode⟩ :=
  if_pos hstate

theorem note_of_running (h : Inv s) (hrecord : s.jobs.registry.lookup id = some record)
    (hrunning : record.state = .running) :
    s.note id state exitCode = ⟨id, record.seq, state, exitCode⟩ :: s.ended := by
  have hfilter : s.ended.filter (·.seq != record.seq) = s.ended := by
    rw [List.filter_eq_self]
    intro job hjob
    simpa using h.unended id record hrecord hrunning job hjob
  unfold State.note
  rw [hrecord]
  exact congrArg _ hfilter

/-- A job among the first of a list that comes again, at the front. -/
theorem take_again {jobs : List Finished} {job : Finished} (again : Finished) {n : Nat}
    (hnodup : (jobs.map Finished.seq).Nodup) (hjob : job ∈ jobs.take (n + 1)) :
    (again :: jobs.filter (·.seq != job.seq)).take (n + 1) =
      again :: (jobs.take (n + 1)).filter (·.seq != job.seq) := by
  obtain ⟨before, after, hsplit⟩ := List.append_of_mem hjob
  generalize hdrop : jobs.drop (n + 1) = rest
  have hjobs : jobs = before ++ job :: (after ++ rest) := by
    rw [← List.take_append_drop (n + 1) jobs, hsplit, hdrop, List.append_assoc, List.cons_append]
  have hothers : ∀ other ∈ before ++ (after ++ rest), (other.seq != job.seq) = true := by
    rw [hjobs] at hnodup
    have hperm : (before ++ job :: (after ++ rest)).Perm (job :: (before ++ (after ++ rest))) :=
      List.perm_middle
    have hnot := (List.nodup_cons.1 ((hperm.map Finished.seq).nodup_iff.1 hnodup)).1
    intro other hother
    have hne : other.seq ≠ job.seq := fun heq => hnot (List.mem_map.2 ⟨other, hother, heq⟩)
    simpa using hne
  have hfilter : ∀ tail, (∀ other ∈ tail, (other.seq != job.seq) = true) →
      (before ++ job :: tail).filter (·.seq != job.seq) = before ++ tail := by
    intro tail htail
    rw [List.filter_append, List.filter_cons_of_neg (by simp), List.filter_eq_self.2 htail,
      List.filter_eq_self.2 fun other hother => hothers other (List.mem_append_left _ hother)]
  rw [hsplit, hfilter after fun other hother => hothers other (by simp [hother])]
  conv_lhs => rw [hjobs]
  rw [hfilter (after ++ rest) fun other hother => hothers other (List.mem_append_right _ hother),
    List.take_succ_cons, ← List.append_assoc]
  have hlength := congrArg List.length hsplit
  rw [List.length_take, List.length_append, List.length_cons] at hlength
  by_cases hshort : jobs.length ≤ n
  · have hrest : rest = [] := by
      rw [← hdrop]
      exact List.drop_eq_nil_of_le (by omega)
    rw [hrest, List.append_nil, List.take_of_length_le (by rw [List.length_append]; omega)]
  · rw [List.take_left' (by rw [List.length_append]; omega)]

/-- A job that has ended is finished again: it stays, and none is evicted. -/
theorem kept_again (h : Inv s) (hkept : Retained s)
    (hrecord : s.jobs.registry.lookup id = some record) (hended : record.state ≠ .running)
    (hafter : after.published id = some ⟨id, record.seq, state, exitCode⟩) :
    (Registry.finished (Registry.evictFinished (s.jobs.registry.insert id after))).Perm
        ((s.note id state exitCode).take maxFinishedKept) := by
  have hterminal :
      record.published id = some ⟨id, record.seq, record.state, record.exitCode⟩ := by
    unfold JobRecord.published
    rw [if_pos]
    cases hcase : record.state <;> first | rfl | exact absurd hcase hended
  have hbefore := Registry.finished_perm hrecord
  rw [hterminal] at hbefore
  have hinsert := Registry.finished_insert s.jobs.registry id after
  rw [hafter] at hinsert
  have hlength : (Registry.finished (s.jobs.registry.insert id after)).length ≤ maxFinishedKept := by
    have hle : (s.ended.take maxFinishedKept).length ≤ maxFinishedKept := List.length_take_le ..
    rw [← hkept.kept.length_eq, hbefore.length_eq] at hle
    rw [hinsert]
    exact hle
  have hmem : ⟨id, record.seq, record.state, record.exitCode⟩ ∈ s.ended.take maxFinishedKept :=
    hkept.kept.mem_iff.1 (hbefore.mem_iff.2 (List.mem_cons_self ..))
  have hnote : s.note id state exitCode =
      ⟨id, record.seq, state, exitCode⟩ :: s.ended.filter (·.seq != record.seq) := by
    unfold State.note
    rw [hrecord]
  have hothers : ∀ other ∈ Registry.finished (s.jobs.registry.erase id),
      (other.seq != record.seq) = true := by
    intro other hother
    obtain ⟨record', hlookup, hpublished⟩ := Registry.mem_finished.1 hother
    obtain ⟨hne, hlookup⟩ := Registry.lookup_of_erase hlookup
    have hseq : record'.seq = other.seq := by
      unfold JobRecord.published at hpublished
      split_ifs at hpublished
      rw [← Option.some.inj hpublished]
    have hdistinct : other.seq ≠ record.seq := fun heq =>
      hne (h.distinct _ _ _ _ hlookup hrecord (hseq.trans heq))
    simpa using hdistinct
  have hperm := (hbefore.symm.trans hkept.kept).filter (·.seq != record.seq)
  rw [Option.toList_some, List.singleton_append, List.filter_cons_of_neg (by simp),
    List.filter_eq_self.2 hothers] at hperm
  rw [Registry.evictFinished, Registry.evictLoop_of_le hlength, hinsert, hnote,
    show maxFinishedKept = 19 + 1 from rfl,
    show record.seq = (Finished.mk id record.seq record.state record.exitCode).seq from rfl,
    take_again _ h.endedNodup hmem]
  exact hperm.cons _

/-- A running job ends, and of the jobs that are kept with it the first to end is evicted if
there are more than twenty. -/
theorem kept_finish (h : Inv s) (hkept : Retained s)
    (hrecord : s.jobs.registry.lookup id = some record) (hrunning : record.state = .running)
    (hafter : after.published id = some ⟨id, record.seq, state, exitCode⟩)
    (horder : InOrder s (.finish id state exitCode now)) :
    (Registry.finished (Registry.evictFinished (s.jobs.registry.insert id after))).Perm
        ((s.note id state exitCode).take maxFinishedKept) := by
  have hinsert := Registry.finished_insert s.jobs.registry id after
  rw [hafter, Option.toList_some, List.singleton_append] at hinsert
  have hperm : (Registry.finished (s.jobs.registry.insert id after)).Perm
        (⟨id, record.seq, state, exitCode⟩ :: s.ended.take maxFinishedKept) := by
    rw [hinsert]
    exact ((Registry.finished_erase hrecord hrunning).symm.trans hkept.kept).cons _
  rw [note_of_running h hrecord hrunning]
  rcases hfirst : s.ended[maxFinishedKept - 1]? with _ | first
  · -- fewer than twenty jobs have ended
    have hshort : s.ended.length < maxFinishedKept :=
      Nat.lt_of_le_of_lt (List.getElem?_eq_none_iff.1 hfirst) (by decide)
    rw [List.take_of_length_le (Nat.le_of_lt hshort)] at hperm
    rw [List.take_of_length_le (by rw [List.length_cons]; omega), Registry.evictFinished,
      Registry.evictLoop_of_le (by rw [hperm.length_eq, List.length_cons]; omega)]
    exact hperm
  · obtain ⟨hlt, hget⟩ := List.getElem?_eq_some_iff.1 hfirst
    have hsplit : s.ended.take maxFinishedKept = s.ended.take (maxFinishedKept - 1) ++ [first] := by
      rw [← hget]
      exact List.take_succ_eq_append_getElem hlt
    obtain ⟨hnewer, hothers⟩ :
        first.seq < record.seq ∧ ∀ job ∈ s.ended.take (maxFinishedKept - 1),
          first.seq < job.seq := by
      dsimp only [InOrder] at horder
      rw [hrecord, hfirst] at horder
      exact horder hrunning
    rw [hsplit] at hperm
    have hlast := hperm.trans ((List.perm_append_singleton first _).cons _ |>.trans (.swap ..))
    apply Registry.finished_evictFinished hlast
    · have hle : maxFinishedKept - 1 ≤ s.ended.length := Nat.le_of_lt hlt
      show ((s.ended.take (maxFinishedKept - 1)).length + 1) = maxFinishedKept
      rw [List.length_take, Nat.min_eq_left hle]
      rfl
    · intro job hjob
      rcases List.mem_cons.1 hjob with rfl | hjob
      · exact hnewer
      · exact hothers job hjob

end Finish

/-! ## Every run -/

theorem Retained.of_kept {s : State}
    (h : (Registry.finished s.jobs.registry).Perm (s.ended.take maxFinishedKept)) :
    Retained s := by
  refine ⟨h, fun job hjob => ?_⟩
  obtain ⟨record, hrecord, hpublished⟩ := Registry.mem_finished.1 (h.mem_iff.2 hjob)
  unfold JobRecord.published at hpublished
  split_ifs at hpublished
  refine ⟨snapshotOf job.jobId record, ?_, ?_, ?_⟩
  · unfold Jobs.status
    rw [hrecord]
    rfl
  · rw [← Option.some.inj hpublished]
    rfl
  · rw [← Option.some.inj hpublished]
    rfl

theorem retained_init : Retained .init := .of_kept (.refl _)

/-- No job ends. -/
theorem Retained.alike {s : State} {jobs : Jobs} (h : Retained s)
    (hreg : s.jobs.registry.Alike jobs.registry) : Retained { s with jobs } :=
  .of_kept (hreg.finished.trans h.kept)

theorem retained_step {s s' : State} {label : Label} (hinv : Inv s) (h : Retained s)
    (horder : InOrder s label) (hnext : step s label = some s') : Retained s' := by
  cases label with
  | create id awakeableId now =>
      cases hnext
      rcases s.jobs.create_cases id awakeableId now with ⟨hsame, -⟩ | ⟨hnew, -, hcreate⟩
      · rw [hsame]
        exact h
      · apply Retained.of_kept
        rw [hcreate]
        show (Registry.finished (s.jobs.registry.insert id _)).Perm _
        rw [Registry.finished_insert_of_new hnew rfl]
        exact h.kept
  | markSpawned id pgid =>
      cases hnext
      exact h.alike (s.jobs.markSpawned_alike id pgid)
  | requestCancel id =>
      cases hnext
      exact h.alike (s.jobs.requestCancel_alike id)
  | cancelPrefix pre =>
      cases hnext
      exact h.alike (s.jobs.cancelPrefix_alike pre)
  | markTimedOut id =>
      cases hnext
      exact h.alike (s.jobs.markTimedOut_alike id)
  | forget id =>
      dsimp only [step] at hnext
      split_ifs at hnext with hrunning
      cases hnext
      obtain ⟨record, hrecord, hstate⟩ := Option.any_eq_true _ _ |>.1 hrunning
      apply Retained.of_kept
      exact (Registry.finished_erase hrecord (by simpa using hstate)).symm.trans h.kept
  | finish id state exitCode now =>
      dsimp only [step] at hnext
      split_ifs at hnext with hstate
      cases hnext
      apply Retained.of_kept
      unfold Jobs.finish
      rcases hlookup : s.jobs.registry.lookup id with _ | record
      · unfold State.note
        rw [hlookup]
        exact h.kept
      · by_cases hrunning : record.state = .running
        · exact kept_finish hinv h hlookup hrunning (published_settle hstate) horder
        · exact kept_again hinv h hlookup hrunning (published_settle hstate)

theorem keepsRunning_step {s s' : State} {label : Label} (hnext : step s label = some s') :
    KeepsRunning s label s' := by
  have halike : ∀ jobs : Jobs, s.jobs.registry.Alike jobs.registry →
      KeepsRunning s label { s with jobs } := by
    intro jobs hreg id record hrecord hrunning
    obtain ⟨after, hafter, hsame⟩ := hreg.forward id record hrecord
    exact .inr ⟨after, hafter, hsame.state.trans hrunning, hsame.seq⟩
  cases label with
  | create id awakeableId now =>
      cases hnext
      rcases s.jobs.create_cases id awakeableId now with ⟨hsame, -⟩ | ⟨hnew, -, hcreate⟩
      · rw [hsame]
        exact halike _ (.refl _)
      · rw [hcreate]
        intro j record hrecord hrunning
        refine .inr ⟨record, ?_, hrunning, rfl⟩
        have hne : j ≠ id := by
          rintro rfl
          rw [hnew] at hrecord
          cases hrecord
        exact (AList.lookup_insert_ne hne).trans hrecord
  | markSpawned id pgid =>
      cases hnext
      exact halike _ (s.jobs.markSpawned_alike id pgid)
  | requestCancel id =>
      cases hnext
      exact halike _ (s.jobs.requestCancel_alike id)
  | cancelPrefix pre =>
      cases hnext
      exact halike _ (s.jobs.cancelPrefix_alike pre)
  | markTimedOut id =>
      cases hnext
      exact halike _ (s.jobs.markTimedOut_alike id)
  | forget id =>
      dsimp only [step] at hnext
      split_ifs at hnext
      cases hnext
      intro j record hrecord hrunning
      by_cases hj : id = j
      · exact .inl hj
      · refine .inr ⟨record, ?_, hrunning, rfl⟩
        exact (AList.lookup_erase_ne (Ne.symm hj)).trans hrecord
  | finish id state exitCode now =>
      dsimp only [step] at hnext
      split_ifs at hnext with hstate
      cases hnext
      intro j record hrecord hrunning
      by_cases hj : id = j
      · exact .inl hj
      · refine .inr ⟨record, ?_, hrunning, rfl⟩
        unfold Jobs.finish
        split
        · exact hrecord
        · apply Registry.lookup_evictLoop _ _ _ hrunning
          rw [AList.lookup_insert_ne (Ne.symm hj)]
          exact hrecord

/-- With the jobs in order, the last twenty jobs that have ended are kept, and no other one that
has ended.  No step at all takes a running job out. -/
theorem retained_of_run {labels : List Label} {s : State} (h : Run step InOrder .init labels s) :
    Retained s ∧ ∀ t label t', step t label = some t' → KeepsRunning t label t' := by
  refine ⟨?_, fun t label t' hnext => keepsRunning_step hnext⟩
  have hboth : Inv s ∧ Retained s := by
    apply h.invariant ⟨inv_init, retained_init⟩
    intro t label u ⟨hinv, hkept⟩ horder hnext
    exact ⟨inv_step hinv hnext, retained_step hinv hkept horder hnext⟩
  exact hboth.2

/-! ## A job that runs longer than twenty others -/

/-- So many jobs are inserted and end, with the identifiers `a`, `aa`, and so on. -/
def shortJobs (n : Nat) : List Label :=
  (List.range n).flatMap fun k =>
    let id := List.replicate (k + 1) 'a'
    [.create id none 0, .finish id .succeeded (some 0) 0]

theorem retained_of_run_short : ∃ s, Run step InOrder .init (shortJobs 22) s ∧
    s.ended.length = 22 ∧ Retained s ∧
      ∀ t label t', step t label = some t' → KeepsRunning t label t' := by
  obtain ⟨s, hrun, htest⟩ := Run.exists_of_exec (fun s => s.ended.length == 22)
    (show (exec step InOrder .init (shortJobs 22)).any _ = true by decide +kernel)
  exact ⟨s, hrun, by simpa using htest, retained_of_run hrun⟩

/-- The job has just ended, and is not known any more. -/
def lost (id : JobId) (s : State) : Bool :=
  s.ended.head?.any (·.jobId == id) && (s.jobs.status id).isNone

theorem not_retained_of_lost {id : JobId} {s : State} (h : lost id s = true) : ¬Retained s := by
  intro hretained
  obtain ⟨hhead, hnone⟩ := Bool.and_eq_true _ _ |>.mp h
  obtain ⟨job, hjob, hid⟩ := Option.any_eq_true _ _ |>.1 hhead
  obtain ⟨rest, hended⟩ := List.head?_eq_some_iff.1 hjob
  obtain ⟨status, hstatus, -⟩ := hretained.shown job (by
    rw [hended]
    exact List.mem_cons_self ..)
  rw [eq_of_beq hid] at hstatus
  rw [hstatus] at hnone
  cases hnone

/-- The long job is evicted as it ends, with the twenty short ones kept. -/
theorem retained_fails : ∃ s,
    Run step free .init (.create ['l'] none 0 :: shortJobs 20 ++
      [.finish ['l'] .succeeded (some 0) 0]) s ∧ lost ['l'] s = true ∧ ¬Retained s := by
  obtain ⟨s, hrun, htest⟩ := Run.exists_of_exec (lost ['l'])
    (show (exec step free .init (.create ['l'] none 0 :: shortJobs 20 ++
      [.finish ['l'] .succeeded (some 0) 0])).any _ = true by decide +kernel)
  exact ⟨s, hrun, htest, not_retained_of_lost htest⟩

end Vanyline.Sandbox.JobRegistry
