import Mathlib.Data.Fintype.EquivFin
import Mathlib.Data.Fintype.Order
import Mathlib.Logic.Relation
import Mathlib.Order.WellFounded
import Vanyline.Health.Scheduler
import Vanyline.Lib.Tally

/-!
# Checks that run side by side

Whatever the order of the operations of the tasks, no more commands are executing than
`maxParallel`, no two of a group are, none is started before the check it comes after is over, and
the tasks can always be led to their ends.

`Verdict` says what the report has for a slot: the result it had from the start, the outcome of its
command, or an error where the check before it is errored.  It does not depend on the run
(`Verdict.unique`), and so the report does not.

* `Move` is what a step does, and the invariants (`Tokens`, `Flags`, `Judged`, `Statuses`) are each
  kept by every move.
* `exists_progress` finds a step that leads closer to the end, as long as there is one.
-/

namespace Vanyline.Health.Scheduler

open Vanyline.Lib TextLines

variable {κ ι : Type} {setup : Setup κ ι}

/-! ## What is expected -/

def depOf (slots : List (Slot κ)) (i : Nat) : Option Nat := (jobOf slots i).bind Job.dep

/-- No check comes after itself, directly or not. -/
def Acyclic (slots : List (Slot κ)) : Prop :=
  ∀ i, ¬Relation.TransGen (fun i d => depOf slots i = some d) i i

/-- The outcome that the report has for a slot. -/
inductive Verdict (setup : Setup κ ι) : Nat → Outcome κ ι → Prop
  | done {i : Nat} {result : CheckResult κ} (hslot : setup.slots[i]? = some (.done result)) :
      Verdict setup i (.solo result)
  | cascade {i d : Nat} {job : Job κ} {outcome : Outcome κ ι}
      (hjob : jobOf setup.slots i = some job) (hdep : job.dep = some d)
      (hbefore : Verdict setup d outcome) (herrored : outcome.result.status = .errored) :
      Verdict setup i (Scheduler.cascade job setup.tailBytes)
  | first {i : Nat} {job : Job κ} (hjob : jobOf setup.slots i = some job)
      (hdep : job.dep = none) : Verdict setup i (setup.execute i)
  | after {i d : Nat} {job : Job κ} {outcome : Outcome κ ι}
      (hjob : jobOf setup.slots i = some job) (hdep : job.dep = some d)
      (hbefore : Verdict setup d outcome) (hnot : outcome.result.status ≠ .errored) :
      Verdict setup i (setup.execute i)

/-- The property of a state. -/
structure Scheduled (setup : Setup κ ι) (s : State κ ι) : Prop where
  /-- At most `maxParallel` commands are executing. -/
  cap : ∀ tasks : Finset Nat,
    (∀ i ∈ tasks, (jobOf setup.slots i).isSome = true ∧ s.pcs i = .executing) →
      tasks.card ≤ setup.maxParallel
  /-- No two commands of a group are executing. -/
  exclusive : ∀ i j job job', jobOf setup.slots i = some job → jobOf setup.slots j = some job' →
    job.ready.group = job'.ready.group → s.pcs i = .executing → s.pcs j = .executing → i = j
  /-- What comes before a command is over when it is started. -/
  ordered : ∀ i ∈ s.started, ∀ d, depOf setup.slots i = some d → stPassed ≤ s.statuses d
  /-- All tasks can come to their ends. -/
  live : ∃ ls s', Run (step setup) free s ls s' ∧ Complete setup s'
  /-- The report has a verdict for each slot, in their order. -/
  report : Complete setup s → (report setup s).length = setup.slots.length ∧
    ∀ i outcome, (report setup s)[i]? = some outcome → Verdict setup i outcome
  /-- What is not started is what comes after an error. -/
  started : Complete setup s → ∀ i job, jobOf setup.slots i = some job → (i ∉ s.started ↔
    ∃ d outcome, job.dep = some d ∧ Verdict setup d outcome ∧ outcome.result.status = .errored)
  /-- There is no other report. -/
  same : Complete setup s → ∀ ls s', Run (step setup) free (init setup.slots) ls s' →
    Complete setup s' → Scheduler.report setup s' = Scheduler.report setup s

/-! ## Jobs and verdicts -/

theorem slot_of_jobOf {slots : List (Slot κ)} {i : Nat} {job : Job κ}
    (h : jobOf slots i = some job) : slots[i]? = some (.ready job.ready) := by
  unfold jobOf at h
  split at h
  · rename_i check hcheck
    cases h
    exact hcheck
  · cases h

theorem lt_of_jobOf {slots : List (Slot κ)} {i : Nat} {job : Job κ}
    (h : jobOf slots i = some job) : i < slots.length :=
  (List.getElem?_eq_some_iff.1 (slot_of_jobOf h)).1

theorem jobOf_of_done {slots : List (Slot κ)} {i : Nat} {result : CheckResult κ}
    (h : slots[i]? = some (.done result)) : jobOf slots i = none := by
  unfold jobOf
  rw [h]

theorem lookup_byId {slots : List (Slot κ)} {id : Text} {index : Nat}
    (h : (byId slots).lookup id = some index) : index < slots.length := by
  have hfold : ∀ (entries : List (Slot κ × Nat)) (map : SortedMap Text Nat),
      (∀ entry ∈ entries, entry.2 < slots.length) →
      (∀ id index, map.lookup id = some index → index < slots.length) →
      ∀ id index, (entries.foldl (fun map entry => map.update entry.1.id fun _ => entry.2)
        map).lookup id = some index → index < slots.length := by
    intro entries
    induction entries with
    | nil => exact fun map _ hmap => hmap
    | cons entry entries ih =>
        intro map hentries hmap
        apply ih _ fun other hother => hentries other (List.mem_cons_of_mem _ hother)
        intro id index hlookup
        rw [SortedMap.lookup_update] at hlookup
        split_ifs at hlookup
        · cases hlookup
          exact hentries entry (List.mem_cons_self ..)
        · exact hmap id index hlookup
  apply hfold slots.zipIdx .empty _ (fun _ _ hnone => (nomatch hnone)) id index h
  intro entry hentry
  have := (List.mem_zipIdx hentry).2.1
  omega

theorem dep_lt {slots : List (Slot κ)} {i d : Nat} {job : Job κ}
    (h : jobOf slots i = some job) (hdep : job.dep = some d) : d < slots.length := by
  unfold jobOf at h
  split at h
  · cases h
    obtain ⟨after, -, hafter⟩ := Option.bind_eq_some_iff.1 hdep
    unfold resolveDep at hafter
    split at hafter
    · rename_i index hindex
      split_ifs at hafter
      cases hafter
      exact lookup_byId hindex
    · obtain ⟨workspace, -, hworkspace⟩ := Option.bind_eq_some_iff.1 hafter
      obtain ⟨index, hindex, hsome⟩ := Option.bind_eq_some_iff.1 hworkspace
      split_ifs at hsome
      cases hsome
      exact lookup_byId hindex
  · cases h

/-- A slot has one verdict. -/
theorem Verdict.unique {i : Nat} {outcome outcome' : Outcome κ ι} (h : Verdict setup i outcome)
    (h' : Verdict setup i outcome') : outcome = outcome' := by
  induction h generalizing outcome' with
  | done hslot =>
      cases h' with
      | done hslot' =>
          rw [hslot] at hslot'
          cases hslot'
          rfl
      | cascade hjob | first hjob | after hjob =>
          rw [jobOf_of_done hslot] at hjob
          cases hjob
  | cascade hjob hdep _ herrored ih =>
      cases h' with
      | done hslot =>
          rw [jobOf_of_done hslot] at hjob
          cases hjob
      | cascade hjob' =>
          rw [hjob] at hjob'
          cases hjob'
          rfl
      | first hjob' hdep' =>
          rw [hjob] at hjob'
          cases hjob'
          rw [hdep] at hdep'
          cases hdep'
      | after hjob' hdep' hbefore hnot =>
          rw [hjob] at hjob'
          cases hjob'
          rw [hdep] at hdep'
          cases hdep'
          rw [← ih hbefore] at hnot
          exact absurd herrored hnot
  | first hjob hdep =>
      cases h' with
      | done hslot =>
          rw [jobOf_of_done hslot] at hjob
          cases hjob
      | cascade hjob' hdep' =>
          rw [hjob] at hjob'
          cases hjob'
          rw [hdep] at hdep'
          cases hdep'
      | first | after => rfl
  | after hjob hdep _ hnot ih =>
      cases h' with
      | done hslot =>
          rw [jobOf_of_done hslot] at hjob
          cases hjob
      | cascade hjob' hdep' hbefore herrored =>
          rw [hjob] at hjob'
          cases hjob'
          rw [hdep] at hdep'
          cases hdep'
          rw [← ih hbefore] at herrored
          exact absurd herrored hnot
      | first | after => rfl

/-! ## Moves -/

/-- The check before the job is over, and not errored. -/
def Cleared (statuses : Nat → Nat) (job : Job κ) : Prop :=
  ∀ d, job.dep = some d → stPassed ≤ statuses d ∧ statuses d ≠ stErrored

/-- The check before the job is errored. -/
def Blocked (statuses : Nat → Nat) (job : Job κ) : Prop :=
  ∃ d, job.dep = some d ∧ statuses d = stErrored

/-- What a step of a task does. -/
inductive Move (setup : Setup κ ι) (s : State κ ι) (i : Nat) (job : Job κ) : State κ ι → Prop
  | wait : Move setup s i job s
  | clear (hpc : s.pcs i = .waiting) (hcleared : Cleared s.statuses job) :
      Move setup s i job (s.goto i .locking)
  | block (hpc : s.pcs i = .waiting) (hblocked : Blocked s.statuses job) :
      Move setup s i job (s.goto i (.publish (cascade job setup.tailBytes)))
  | lock (hpc : s.pcs i = .locking) (hflag : s.flags job.ready.group = false) :
      Move setup s i job ((s.setFlag job.ready.group true).goto i .locked)
  | count (hpc : s.pcs i = .locked) (hlow : s.inflight < setup.maxParallel) :
      Move setup s i job (s.goto i (.counted s.inflight))
  | full (hpc : s.pcs i = .locked) : Move setup s i job (s.goto i .unlocking)
  | take (hpc : s.pcs i = .counted s.inflight) : Move setup s i job
      { s.goto i .executing with inflight := s.inflight + 1, started := i :: s.started }
  | miss {current : Nat} (hpc : s.pcs i = .counted current) :
      Move setup s i job (s.goto i .unlocking)
  | unlock (hpc : s.pcs i = .unlocking) :
      Move setup s i job ((s.setFlag job.ready.group false).goto i .locking)
  | execute (hpc : s.pcs i = .executing) :
      Move setup s i job (s.goto i (.release (setup.execute i)))
  | release {outcome : Outcome κ ι} (hpc : s.pcs i = .release outcome) :
      Move setup s i job ((s.setFlag job.ready.group false).goto i (.decrement outcome))
  | decrement {outcome : Outcome κ ι} (hpc : s.pcs i = .decrement outcome) :
      Move setup s i job { s.goto i (.publish outcome) with inflight := s.inflight - 1 }
  | publish {outcome : Outcome κ ι} (hpc : s.pcs i = .publish outcome) :
      Move setup s i job { s.goto i (.finished outcome) with
        statuses := Function.update s.statuses i (statusCode outcome.result.status) }

theorem move_of_step {s s' : State κ ι} {i : Nat} (h : step setup s i = some s') :
    ∃ job, jobOf setup.slots i = some job ∧ Move setup s i job s' := by
  unfold step at h
  split at h
  · cases h
  · rename_i job hjob
    refine ⟨job, hjob, ?_⟩
    split at h
    · rename_i hpc
      split at h
      · rename_i hdep
        cases h
        exact .clear hpc fun d hd => by rw [hdep] at hd; cases hd
      · rename_i dep hdep
        dsimp only at h
        split_ifs at h with hover herrored
        · cases h
          exact .block hpc ⟨dep, hdep, herrored⟩
        · cases h
          refine .clear hpc fun d hd => ?_
          rw [hdep] at hd
          cases hd
          exact ⟨hover, herrored⟩
        · cases h
          exact .wait
    · rename_i hpc
      split_ifs at h with hflag
      · cases h
        exact .wait
      · cases h
        exact .lock hpc (Bool.eq_false_iff.2 hflag)
    · rename_i hpc
      split_ifs at h with hlow
      · cases h
        exact .count hpc hlow
      · cases h
        exact .full hpc
    · rename_i current hpc
      split_ifs at h with hsame
      · cases h
        rw [← hsame] at hpc ⊢
        exact .take hpc
      · cases h
        exact .miss hpc
    · rename_i hpc
      cases h
      exact .unlock hpc
    · rename_i hpc
      cases h
      exact .execute hpc
    · rename_i outcome hpc
      cases h
      exact .release hpc
    · rename_i outcome hpc
      cases h
      exact .decrement hpc
    · rename_i outcome hpc
      cases h
      exact .publish hpc
    · cases h

/-! ## Tokens -/

def Pc.tokens : Pc κ ι → Nat
  | .executing | .release _ | .decrement _ => 1
  | _ => 0

/-- The tokens are those of the tasks that have one. -/
structure Tokens (setup : Setup κ ι) (s : State κ ι) : Prop where
  held : s.inflight = tally Pc.tokens setup.slots.length s.pcs
  cap : s.inflight ≤ setup.maxParallel
  counted : ∀ i current, s.pcs i = .counted current → current < setup.maxParallel

theorem tokens_goto {s s' : State κ ι} {i : Nat} {pc : Pc κ ι} (hi : i < setup.slots.length)
    (h : Tokens setup s) (hpcs : s'.pcs = Function.update s.pcs i pc)
    (hinflight : s'.inflight + (s.pcs i).tokens = s.inflight + pc.tokens)
    (hcap : s'.inflight ≤ setup.maxParallel)
    (hcounted : ∀ current, pc = .counted current → current < setup.maxParallel) :
    Tokens setup s' := by
  have htally := tally_update Pc.tokens hi s.pcs pc
  refine ⟨?_, hcap, ?_⟩
  · have hheld := h.held
    rw [hpcs]
    omega
  · intro j current hj
    rw [hpcs] at hj
    by_cases hji : j = i
    · subst hji
      rw [Function.update_self] at hj
      exact hcounted current hj
    · rw [Function.update_of_ne hji] at hj
      exact h.counted j current hj

theorem tokens_move {s s' : State κ ι} {i : Nat} {job : Job κ}
    (hjob : jobOf setup.slots i = some job) (h : Tokens setup s)
    (hmove : Move setup s i job s') : Tokens setup s' := by
  have hi := lt_of_jobOf hjob
  have hcap := h.cap
  cases hmove with
  | wait => exact h
  | clear hpc | block hpc | full hpc | miss hpc =>
      exact tokens_goto hi h rfl (by rw [hpc]; rfl) hcap fun _ hnone => (nomatch hnone)
  | lock hpc | unlock hpc =>
      exact tokens_goto hi h rfl (by rw [hpc]; rfl) hcap fun _ hnone => (nomatch hnone)
  | count hpc hlow =>
      refine tokens_goto hi h rfl (by rw [hpc]; rfl) hcap fun current hcurrent => ?_
      cases hcurrent
      exact hlow
  | take hpc =>
      have := h.counted i _ hpc
      exact tokens_goto hi h rfl (by rw [hpc]; rfl) this fun _ hnone => (nomatch hnone)
  | execute hpc | release hpc =>
      exact tokens_goto hi h rfl (by rw [hpc]; rfl) hcap fun _ hnone => (nomatch hnone)
  | decrement hpc =>
      have hpos : 1 ≤ s.inflight := by
        have := @card_le_tally _ Pc.tokens setup.slots.length s.pcs {i} fun j hj => by
          rw [Finset.mem_singleton.1 hj, hpc]
          exact ⟨hi, Nat.le_refl 1⟩
        rw [h.held]
        exact this
      refine tokens_goto hi h rfl ?_ ?_ fun _ hnone => (nomatch hnone)
      · rw [hpc]
        show s.inflight - 1 + 1 = s.inflight + 0
        omega
      · show s.inflight - 1 ≤ _
        omega
  | publish hpc =>
      exact tokens_goto hi h rfl (by rw [hpc]; rfl) hcap fun _ hnone => (nomatch hnone)

/-! ## Flags -/

def Pc.hasFlag : Pc κ ι → Bool
  | .locked | .counted _ | .unlocking | .executing | .release _ => true
  | _ => false

/-- The task has the flag of the group. -/
def Holds (setup : Setup κ ι) (s : State κ ι) (i : Nat) (group : Text) : Prop :=
  (s.pcs i).hasFlag = true ∧ ∃ job, jobOf setup.slots i = some job ∧ job.ready.group = group

/-- A flag is set when a task has it, and then one has. -/
structure Flags (setup : Setup κ ι) (s : State κ ι) : Prop where
  held : ∀ group, s.flags group = true ↔ ∃ i, Holds setup s i group
  unique : ∀ i j group, Holds setup s i group → Holds setup s j group → i = j

theorem holds_goto {s s' : State κ ι} {i : Nat} {pc : Pc κ ι} {job : Job κ}
    (hjob : jobOf setup.slots i = some job) (hpcs : s'.pcs = Function.update s.pcs i pc) (j : Nat)
    (group : Text) : Holds setup s' j group ↔
      if j = i then pc.hasFlag = true ∧ job.ready.group = group else Holds setup s j group := by
  unfold Holds
  rw [hpcs]
  by_cases hji : j = i
  · subst hji
    rw [if_pos rfl, Function.update_self, hjob]
    simp
  · rw [if_neg hji, Function.update_of_ne hji]

theorem flags_same {s s' : State κ ι} {i : Nat} {pc : Pc κ ι} {job : Job κ}
    (hjob : jobOf setup.slots i = some job) (h : Flags setup s)
    (hpcs : s'.pcs = Function.update s.pcs i pc) (hflags : s'.flags = s.flags)
    (hsame : pc.hasFlag = (s.pcs i).hasFlag) : Flags setup s' := by
  have hholds : ∀ j group, Holds setup s' j group ↔ Holds setup s j group := by
    intro j group
    rw [holds_goto hjob hpcs]
    split_ifs with hji
    · subst hji
      rw [hsame]
      unfold Holds
      rw [hjob]
      simp
    · rfl
  constructor
  · intro group
    rw [hflags, h.held]
    exact exists_congr fun j => (hholds j group).symm
  · intro j k group hj hk
    exact h.unique j k group ((hholds j group).1 hj) ((hholds k group).1 hk)

theorem flags_acquire {s s' : State κ ι} {i : Nat} {pc : Pc κ ι} {job : Job κ}
    (hjob : jobOf setup.slots i = some job) (h : Flags setup s)
    (hpcs : s'.pcs = Function.update s.pcs i pc)
    (hflags : s'.flags = Function.update s.flags job.ready.group true)
    (hfree : s.flags job.ready.group = false) (hpc : pc.hasFlag = true) : Flags setup s' := by
  have hnone : ∀ j, ¬Holds setup s j job.ready.group := by
    intro j hj
    rw [(h.held _).2 ⟨j, hj⟩] at hfree
    cases hfree
  have hholds := holds_goto (s := s) hjob hpcs
  constructor
  · intro group
    rw [hflags]
    by_cases hgroup : group = job.ready.group
    · subst hgroup
      rw [Function.update_self]
      refine iff_of_true rfl ⟨i, (hholds i _).2 ?_⟩
      rw [if_pos rfl]
      exact ⟨hpc, rfl⟩
    · rw [Function.update_of_ne hgroup, h.held]
      apply exists_congr
      intro j
      rw [hholds]
      split_ifs with hji
      · subst hji
        refine iff_of_false ?_ fun hboth => hgroup hboth.2.symm
        rintro ⟨-, job', hjob', hgroup'⟩
        rw [hjob] at hjob'
        cases hjob'
        exact hgroup hgroup'.symm
      · rfl
  · intro j k group hj hk
    rw [hholds] at hj hk
    split_ifs at hj hk with hji hki hki
    · rw [hji, hki]
    · rw [← hj.2] at hk
      exact absurd hk (hnone k)
    · rw [← hk.2] at hj
      exact absurd hj (hnone j)
    · exact h.unique j k group hj hk

theorem flags_release {s s' : State κ ι} {i : Nat} {pc : Pc κ ι} {job : Job κ}
    (hjob : jobOf setup.slots i = some job) (h : Flags setup s)
    (hpcs : s'.pcs = Function.update s.pcs i pc)
    (hflags : s'.flags = Function.update s.flags job.ready.group false)
    (hheld : (s.pcs i).hasFlag = true) (hpc : pc.hasFlag = false) : Flags setup s' := by
  have hi : Holds setup s i job.ready.group := ⟨hheld, job, hjob, rfl⟩
  have hholds : ∀ j group, Holds setup s' j group ↔ j ≠ i ∧ Holds setup s j group := by
    intro j group
    rw [holds_goto hjob hpcs]
    split_ifs with hji
    · rw [hpc]
      exact iff_of_false (fun hboth => (nomatch hboth.1)) fun hboth => hboth.1 hji
    · rw [and_iff_right hji]
  constructor
  · intro group
    rw [hflags]
    by_cases hgroup : group = job.ready.group
    · subst hgroup
      rw [Function.update_self]
      refine iff_of_false Bool.false_ne_true ?_
      rintro ⟨j, hj⟩
      obtain ⟨hji, hj⟩ := (hholds j _).1 hj
      exact hji (h.unique j i _ hj hi)
    · rw [Function.update_of_ne hgroup, h.held]
      apply exists_congr
      intro j
      rw [hholds]
      refine ⟨fun hj => ⟨?_, hj⟩, fun hboth => hboth.2⟩
      rintro rfl
      obtain ⟨-, job', hjob', hgroup'⟩ := hj
      rw [hjob] at hjob'
      cases hjob'
      exact hgroup hgroup'.symm
  · intro j k group hj hk
    exact h.unique j k group ((hholds j group).1 hj).2 ((hholds k group).1 hk).2

theorem flags_move {s s' : State κ ι} {i : Nat} {job : Job κ}
    (hjob : jobOf setup.slots i = some job) (h : Flags setup s)
    (hmove : Move setup s i job s') : Flags setup s' := by
  cases hmove with
  | wait => exact h
  | clear hpc | block hpc | count hpc | full hpc | miss hpc | execute hpc | take hpc
  | decrement hpc | publish hpc => exact flags_same hjob h rfl rfl (by rw [hpc]; rfl)
  | lock hpc hflag => exact flags_acquire hjob h rfl rfl hflag rfl
  | unlock hpc | release hpc => exact flags_release hjob h rfl rfl (by rw [hpc]; rfl) rfl

/-! ## Statuses -/

/-- The status that a task has stored. -/
def Pc.code : Pc κ ι → Nat
  | .finished outcome => statusCode outcome.result.status
  | _ => stPending

structure Statuses (setup : Setup κ ι) (s : State κ ι) : Prop where
  job : ∀ i job, jobOf setup.slots i = some job → s.statuses i = (s.pcs i).code
  done : ∀ i result, setup.slots[i]? = some (.done result) →
    s.statuses i = statusCode result.status
  settled : ∀ i job outcome, jobOf setup.slots i = some job → s.pcs i = .finished outcome →
    Verdict setup i outcome

/-- What the task has found about the check before it. -/
def Judged (setup : Setup κ ι) (s : State κ ι) (i : Nat) (job : Job κ) : Pc κ ι → Prop
  | .waiting => i ∉ s.started
  | .locking | .locked | .counted _ | .unlocking => Cleared s.statuses job ∧ i ∉ s.started
  | .executing => Cleared s.statuses job ∧ i ∈ s.started
  | .release outcome | .decrement outcome =>
    Cleared s.statuses job ∧ i ∈ s.started ∧ outcome = setup.execute i
  | .publish outcome | .finished outcome =>
    (Cleared s.statuses job ∧ i ∈ s.started ∧ outcome = setup.execute i) ∨
    (Blocked s.statuses job ∧ i ∉ s.started ∧ outcome = cascade job setup.tailBytes)

theorem statusCode_errored {status : CheckStatus} :
    statusCode status = stErrored ↔ status = .errored := by
  cases status <;> decide

theorem stPassed_le_statusCode (status : CheckStatus) : stPassed ≤ statusCode status := by
  cases status <;> decide

/-- A check that is over has its verdict. -/
theorem exists_verdict {s : State κ ι} (h : Statuses setup s) {d : Nat}
    (hd : d < setup.slots.length) (hover : stPassed ≤ s.statuses d) :
    ∃ outcome, Verdict setup d outcome ∧ s.statuses d = statusCode outcome.result.status := by
  cases hslot : setup.slots[d] with
  | done result =>
      have hget : setup.slots[d]? = some (.done result) := by
        rw [List.getElem?_eq_getElem hd, hslot]
      exact ⟨.solo result, .done hget, h.done d result hget⟩
  | ready check =>
      have hjob : ∃ job, jobOf setup.slots d = some job := by
        unfold jobOf
        rw [List.getElem?_eq_getElem hd, hslot]
        exact ⟨_, rfl⟩
      obtain ⟨job, hjob⟩ := hjob
      have hcode := h.job d job hjob
      cases hpc : s.pcs d with
      | finished outcome =>
          rw [hpc] at hcode
          exact ⟨outcome, h.settled d job outcome hjob hpc, hcode⟩
      | waiting | locking | locked | counted | unlocking | executing | release | decrement
      | publish =>
          rw [hpc] at hcode
          rw [hcode] at hover
          exact absurd hover (show ¬stPassed ≤ stPending by decide)

theorem verdict_of_cleared {s : State κ ι} (h : Statuses setup s) {i : Nat} {job : Job κ}
    (hjob : jobOf setup.slots i = some job) (hcleared : Cleared s.statuses job) :
    Verdict setup i (setup.execute i) := by
  cases hdep : job.dep with
  | none => exact .first hjob hdep
  | some d =>
      obtain ⟨hover, hnot⟩ := hcleared d hdep
      obtain ⟨outcome, hverdict, hcode⟩ := exists_verdict h (dep_lt hjob hdep) hover
      refine .after hjob hdep hverdict fun herrored => hnot ?_
      rw [hcode, statusCode_errored]
      exact herrored

theorem errored_of_blocked {s : State κ ι} (h : Statuses setup s) {i : Nat} {job : Job κ}
    (hjob : jobOf setup.slots i = some job) (hblocked : Blocked s.statuses job) :
    ∃ d outcome, job.dep = some d ∧ Verdict setup d outcome ∧
      outcome.result.status = .errored := by
  obtain ⟨d, hdep, herrored⟩ := hblocked
  obtain ⟨outcome, hverdict, hcode⟩ := exists_verdict h (dep_lt hjob hdep) (by
    rw [herrored]
    decide)
  rw [hcode, statusCode_errored] at herrored
  exact ⟨d, outcome, hdep, hverdict, herrored⟩

/-! ## The invariant -/

structure Inv (setup : Setup κ ι) (s : State κ ι) : Prop where
  tokens : Tokens setup s
  flags : Flags setup s
  statuses : Statuses setup s
  judged : ∀ i job, jobOf setup.slots i = some job → Judged setup s i job (s.pcs i)
  idle : ∀ i, jobOf setup.slots i = none → s.pcs i = .waiting

theorem inv_init : Inv setup (init setup.slots) := by
  refine ⟨⟨?_, Nat.zero_le _, fun _ _ h => (nomatch h)⟩, ⟨?_, ?_⟩, ⟨?_, ?_, ?_⟩, ?_,
    fun _ _ => rfl⟩
  · exact (tally_eq_zero fun _ _ => rfl).symm
  · exact fun group => ⟨fun h => (nomatch h), fun ⟨_, h, _⟩ => (nomatch h)⟩
  · exact fun _ _ _ h => (nomatch h.1)
  · intro i job hjob
    show initStatus setup.slots i = stPending
    rw [initStatus, slot_of_jobOf hjob]
  · intro i result hslot
    show initStatus setup.slots i = _
    rw [initStatus, hslot]
  · exact fun _ _ _ _ h => (nomatch h)
  · exact fun _ _ _ h => (nomatch h)

/-- What a task has found stays so, while the others go on. -/
theorem Judged.mono {s s' : State κ ι} {i : Nat} {job : Job κ} {pc : Pc κ ι}
    (h : Judged setup s i job pc) (hstarted : i ∈ s'.started ↔ i ∈ s.started)
    (hcleared : Cleared s.statuses job → Cleared s'.statuses job)
    (hblocked : Blocked s.statuses job → Blocked s'.statuses job) : Judged setup s' i job pc := by
  cases pc with
  | waiting => exact fun hmem => h (hstarted.1 hmem)
  | locking | locked | counted | unlocking =>
      exact ⟨hcleared h.1, fun hmem => h.2 (hstarted.1 hmem)⟩
  | executing => exact ⟨hcleared h.1, hstarted.2 h.2⟩
  | release outcome | decrement outcome => exact ⟨hcleared h.1, hstarted.2 h.2.1, h.2.2⟩
  | publish outcome | finished outcome =>
      rcases h with h | h
      · exact .inl ⟨hcleared h.1, hstarted.2 h.2.1, h.2.2⟩
      · exact .inr ⟨hblocked h.1, fun hmem => h.2.1 (hstarted.1 hmem), h.2.2⟩

/-- Slots without a job have no task. -/
theorem idle_goto {s s' : State κ ι} {i : Nat} {job : Job κ} {pc : Pc κ ι}
    (hjob : jobOf setup.slots i = some job) (h : Inv setup s)
    (hpcs : s'.pcs = Function.update s.pcs i pc) :
    ∀ j, jobOf setup.slots j = none → s'.pcs j = .waiting := by
  intro j hj
  rw [hpcs, Function.update_of_ne, h.idle j hj]
  rintro rfl
  rw [hj] at hjob
  cases hjob

/-- Only task `i` has moved, and the statuses are the same. -/
theorem inv_goto {s s' : State κ ι} {i : Nat} {job : Job κ} {pc : Pc κ ι}
    (hjob : jobOf setup.slots i = some job) (h : Inv setup s)
    (hmove : Move setup s i job s') (hpcs : s'.pcs = Function.update s.pcs i pc)
    (hstatuses : s'.statuses = s.statuses) (hcode : (s.pcs i).code = pc.code)
    (hnot : ∀ outcome, pc ≠ .finished outcome) (hstarted : ∀ j, j ≠ i →
      (j ∈ s'.started ↔ j ∈ s.started)) (hjudged : Judged setup s' i job pc) : Inv setup s' := by
  refine ⟨tokens_move hjob h.tokens hmove, flags_move hjob h.flags hmove, ⟨?_, ?_, ?_⟩, ?_,
    idle_goto hjob h hpcs⟩
  · intro j job' hjob'
    rw [hstatuses, hpcs, h.statuses.job j job' hjob']
    by_cases hji : j = i
    · subst hji
      rw [Function.update_self, hcode]
    · rw [Function.update_of_ne hji]
  · intro j result hslot
    rw [hstatuses]
    exact h.statuses.done j result hslot
  · intro j job' outcome hjob' hfinished
    rw [hpcs] at hfinished
    by_cases hji : j = i
    · subst hji
      rw [Function.update_self] at hfinished
      exact absurd hfinished (hnot outcome)
    · rw [Function.update_of_ne hji] at hfinished
      exact h.statuses.settled j job' outcome hjob' hfinished
  · intro j job' hjob'
    rw [hpcs]
    by_cases hji : j = i
    · subst hji
      rw [hjob] at hjob'
      cases hjob'
      rw [Function.update_self]
      exact hjudged
    · rw [Function.update_of_ne hji]
      apply (h.judged j job' hjob').mono (hstarted j hji)
      · rw [hstatuses]
        exact id
      · rw [hstatuses]
        exact id

theorem inv_publish {s : State κ ι} {i : Nat} {job : Job κ} {outcome : Outcome κ ι}
    (hjob : jobOf setup.slots i = some job) (h : Inv setup s)
    (hpc : s.pcs i = .publish outcome) : Inv setup { s.goto i (.finished outcome) with
      statuses := Function.update s.statuses i (statusCode outcome.result.status) } := by
  have hjudged := h.judged i job hjob
  rw [hpc] at hjudged
  have hpending := h.statuses.job i job hjob
  rw [hpc] at hpending
  have hverdict : Verdict setup i outcome := by
    rcases hjudged with ⟨hcleared, -, rfl⟩ | ⟨hblocked, -, rfl⟩
    · exact verdict_of_cleared h.statuses hjob hcleared
    · obtain ⟨d, before, hdep, hbefore, herrored⟩ := errored_of_blocked h.statuses hjob hblocked
      exact .cascade hjob hdep hbefore herrored
  -- what a task has found is about checks that are over, and this one is not
  have hover : ∀ d, stPassed ≤ s.statuses d → Function.update s.statuses i
      (statusCode outcome.result.status) d = s.statuses d := by
    intro d hd
    apply Function.update_of_ne
    rintro rfl
    rw [hpending] at hd
    exact absurd hd (show ¬stPassed ≤ stPending by decide)
  have hcleared : ∀ job : Job κ, Cleared s.statuses job → Cleared (Function.update s.statuses i
      (statusCode outcome.result.status)) job := by
    intro job hcleared d hdep
    rw [hover d (hcleared d hdep).1]
    exact hcleared d hdep
  have hblocked : ∀ job : Job κ, Blocked s.statuses job → Blocked (Function.update s.statuses i
      (statusCode outcome.result.status)) job := by
    rintro job ⟨d, hdep, herrored⟩
    refine ⟨d, hdep, ?_⟩
    rw [hover d (by rw [herrored]; decide), herrored]
  have hmove : Move setup s i job _ := .publish hpc
  refine ⟨tokens_move hjob h.tokens hmove, flags_move hjob h.flags hmove, ⟨?_, ?_, ?_⟩, ?_,
    idle_goto hjob h rfl⟩
  · intro j job' hjob'
    show Function.update s.statuses i _ j = (Function.update s.pcs i _ j).code
    by_cases hji : j = i
    · subst hji
      rw [Function.update_self, Function.update_self]
      rfl
    · rw [Function.update_of_ne hji, Function.update_of_ne hji, h.statuses.job j job' hjob']
  · intro j result hslot
    show Function.update s.statuses i _ j = _
    have hji : j ≠ i := by
      rintro rfl
      rw [jobOf_of_done hslot] at hjob
      cases hjob
    rw [Function.update_of_ne hji, h.statuses.done j result hslot]
  · intro j job' outcome' hjob' hfinished
    change Function.update s.pcs i _ j = _ at hfinished
    by_cases hji : j = i
    · subst hji
      rw [Function.update_self] at hfinished
      cases hfinished
      exact hverdict
    · rw [Function.update_of_ne hji] at hfinished
      exact h.statuses.settled j job' outcome' hjob' hfinished
  · intro j job' hjob'
    show Judged setup _ j job' (Function.update s.pcs i _ j)
    by_cases hji : j = i
    · subst hji
      rw [hjob] at hjob'
      cases hjob'
      rw [Function.update_self]
      have hfinished : Judged setup s j job (.finished outcome) := hjudged
      exact hfinished.mono Iff.rfl (hcleared job) (hblocked job)
    · rw [Function.update_of_ne hji]
      exact (h.judged j job' hjob').mono Iff.rfl (hcleared job') (hblocked job')

theorem inv_move {s s' : State κ ι} {i : Nat} {job : Job κ}
    (hjob : jobOf setup.slots i = some job) (h : Inv setup s)
    (hmove : Move setup s i job s') : Inv setup s' := by
  have hjudged := h.judged i job hjob
  have hsame := hmove
  cases hmove with
  | wait => exact h
  | clear hpc hcleared =>
      rw [hpc] at hjudged
      exact inv_goto hjob h hsame rfl rfl (by rw [hpc]; rfl) (fun _ hnone => (nomatch hnone))
        (fun _ _ => Iff.rfl) ⟨hcleared, hjudged⟩
  | block hpc hblocked =>
      rw [hpc] at hjudged
      exact inv_goto hjob h hsame rfl rfl (by rw [hpc]; rfl) (fun _ hnone => (nomatch hnone))
        (fun _ _ => Iff.rfl) (.inr ⟨hblocked, hjudged, rfl⟩)
  | lock hpc | count hpc | full hpc | miss hpc | unlock hpc =>
      rw [hpc] at hjudged
      exact inv_goto hjob h hsame rfl rfl (by rw [hpc]; rfl) (fun _ hnone => (nomatch hnone))
        (fun _ _ => Iff.rfl) hjudged
  | take hpc =>
      rw [hpc] at hjudged
      refine inv_goto hjob h hsame rfl rfl (by rw [hpc]; rfl) (fun _ hnone => (nomatch hnone))
        (fun j hji => ?_) ⟨hjudged.1, List.mem_cons_self ..⟩
      exact List.mem_cons.trans (or_iff_right hji)
  | execute hpc =>
      rw [hpc] at hjudged
      exact inv_goto hjob h hsame rfl rfl (by rw [hpc]; rfl) (fun _ hnone => (nomatch hnone))
        (fun _ _ => Iff.rfl) ⟨hjudged.1, hjudged.2, rfl⟩
  | release hpc =>
      rw [hpc] at hjudged
      exact inv_goto hjob h hsame rfl rfl (by rw [hpc]; rfl) (fun _ hnone => (nomatch hnone))
        (fun _ _ => Iff.rfl) hjudged
  | decrement hpc =>
      rw [hpc] at hjudged
      exact inv_goto hjob h hsame rfl rfl (by rw [hpc]; rfl) (fun _ hnone => (nomatch hnone))
        (fun _ _ => Iff.rfl) (.inl hjudged)
  | publish hpc => exact inv_publish hjob h hpc

theorem inv_step (s : State κ ι) (i : Nat) (s' : State κ ι) (h : Inv setup s)
    (_ : free s i) (hstep : step setup s i = some s') : Inv setup s' := by
  obtain ⟨job, hjob, hmove⟩ := move_of_step hstep
  exact inv_move hjob h hmove

theorem inv_of_run {ls : List Nat} {s : State κ ι}
    (h : Run (step setup) free (init setup.slots) ls s) : Inv setup s :=
  h.invariant inv_init inv_step

/-! ## Progress -/

/-- How far a task is from its end.  A number of tokens that is not zero has to be loaded again. -/
def Pc.distance : Pc κ ι → Nat
  | .waiting => 12
  | .counted current => if current = 0 then 6 else 10
  | .unlocking => 9
  | .locking => 8
  | .locked => 7
  | .executing => 5
  | .release _ => 4
  | .decrement _ => 3
  | .publish _ => 2
  | .finished _ => 0

def distance (setup : Setup κ ι) (s : State κ ι) : Nat :=
  tally Pc.distance setup.slots.length s.pcs

theorem distance_goto {s s' : State κ ι} {i : Nat} {pc : Pc κ ι} (hi : i < setup.slots.length)
    (hpcs : s'.pcs = Function.update s.pcs i pc) (hlt : pc.distance < (s.pcs i).distance) :
    distance setup s' < distance setup s := by
  have htally := tally_update Pc.distance hi s.pcs pc
  unfold distance
  rw [hpcs]
  omega

/-- A task that is executing, or that is on its way out, can go on. -/
def Pc.runs : Pc κ ι → Bool
  | .executing | .release _ | .decrement _ | .publish _ => true
  | _ => false

theorem progress_of_runs {s : State κ ι} {i : Nat} {job : Job κ}
    (hjob : jobOf setup.slots i = some job) (hruns : (s.pcs i).runs = true) :
    ∃ s', step setup s i = some s' ∧ distance setup s' < distance setup s := by
  have hi := lt_of_jobOf hjob
  unfold step
  rw [hjob]
  cases hpc : s.pcs i with
  | executing | release outcome | decrement outcome | publish outcome =>
      exact ⟨_, rfl, distance_goto hi rfl (by rw [hpc]; simp [Pc.distance])⟩
  | waiting | locking | locked | counted | unlocking | finished =>
      rw [hpc] at hruns
      cases hruns

theorem progress_of_flag {s : State κ ι} {i : Nat} {job : Job κ}
    (hjob : jobOf setup.slots i = some job) (hflag : (s.pcs i).hasFlag = true)
    (hruns : (s.pcs i).runs = false) (hinflight : s.inflight = 0) (hmax : 1 ≤ setup.maxParallel) :
    ∃ s', step setup s i = some s' ∧ distance setup s' < distance setup s := by
  have hi := lt_of_jobOf hjob
  unfold step
  rw [hjob]
  cases hpc : s.pcs i with
  | locked =>
      refine ⟨_, if_pos (by omega), distance_goto hi rfl ?_⟩
      rw [hpc, hinflight]
      simp [Pc.distance]
  | counted current =>
      by_cases hsame : s.inflight = current
      · refine ⟨_, if_pos hsame, distance_goto hi rfl ?_⟩
        rw [hpc, ← hsame, hinflight]
        simp [Pc.distance]
      · have hne : current ≠ 0 := by omega
        refine ⟨_, if_neg hsame, distance_goto hi rfl ?_⟩
        rw [hpc]
        simp [Pc.distance, hne]
  | unlocking =>
      refine ⟨_, rfl, distance_goto hi rfl ?_⟩
      rw [hpc]
      simp [Pc.distance]
  | executing | release | decrement | publish =>
      rw [hpc] at hruns
      cases hruns
  | waiting | locking | finished =>
      rw [hpc] at hflag
      cases hflag

theorem progress_of_locking {s : State κ ι} {i : Nat} {job : Job κ}
    (hjob : jobOf setup.slots i = some job) (hpc : s.pcs i = .locking)
    (hfree : s.flags job.ready.group = false) :
    ∃ s', step setup s i = some s' ∧ distance setup s' < distance setup s := by
  unfold step
  rw [hjob]
  dsimp only
  rw [hpc]
  dsimp only
  rw [hfree]
  refine ⟨_, rfl, distance_goto (lt_of_jobOf hjob) rfl ?_⟩
  rw [hpc]
  simp [Pc.distance]

theorem progress_of_waiting {s : State κ ι} {i : Nat} {job : Job κ}
    (hjob : jobOf setup.slots i = some job) (hpc : s.pcs i = .waiting)
    (hover : ∀ d, job.dep = some d → stPassed ≤ s.statuses d) :
    ∃ s', step setup s i = some s' ∧ distance setup s' < distance setup s := by
  have hi := lt_of_jobOf hjob
  unfold step
  rw [hjob]
  dsimp only
  rw [hpc]
  dsimp only
  cases hdep : job.dep with
  | none =>
      refine ⟨_, rfl, distance_goto hi rfl ?_⟩
      rw [hpc]
      simp [Pc.distance]
  | some d =>
      dsimp only
      rw [if_pos (hover d hdep)]
      split_ifs
      · refine ⟨_, rfl, distance_goto hi rfl ?_⟩
        rw [hpc]
        simp [Pc.distance]
      · refine ⟨_, rfl, distance_goto hi rfl ?_⟩
        rw [hpc]
        simp [Pc.distance]

/-- In a finite list without cycles, one gets from a check to the first one before it. -/
theorem wellFounded_depOf {slots : List (Slot κ)} (h : Acyclic slots) :
    WellFounded fun d i => depOf slots i = some d := by
  have hbound : ∀ {i d}, depOf slots i = some d → i < slots.length ∧ d < slots.length := by
    intro i d hd
    obtain ⟨job, hjob, hdep⟩ := Option.bind_eq_some_iff.1 hd
    exact ⟨lt_of_jobOf hjob, dep_lt hjob hdep⟩
  let before : Fin slots.length → Fin slots.length → Prop :=
    Relation.TransGen fun d i => depOf slots i.1 = some d.1
  have htrans : IsTrans _ before := ⟨fun _ _ _ => Relation.TransGen.trans⟩
  have hirrefl : Std.Irrefl before := by
    refine ⟨fun i hi => h i.1 ?_⟩
    have hlift : ∀ {d i : Fin slots.length}, before d i →
        Relation.TransGen (fun i d => depOf slots i = some d) i.1 d.1 := by
      intro d i hdi
      induction hdi with
      | single hstep => exact .single hstep
      | tail _ hstep ih => exact .head hstep ih
    exact hlift hi
  have hwf : WellFounded before := Finite.wellFounded_of_trans_of_irrefl before
  refine ⟨fun i => ?_⟩
  by_cases hi : i < slots.length
  · have hacc : ∀ j : Fin slots.length, Acc (fun d i => depOf slots i = some d) j.1 := by
      intro j
      induction j using hwf.induction with
      | _ j ih =>
          constructor
          intro d hd
          exact ih ⟨d, (hbound hd).2⟩ (.single hd)
    exact hacc ⟨i, hi⟩
  · exact ⟨_, fun d hd => absurd (hbound hd).1 hi⟩

theorem tokens_of_not_runs {pc : Pc κ ι} (h : pc.runs = false) : pc.tokens = 0 := by
  cases pc with
  | executing | release | decrement => cases h
  | _ => rfl

theorem waiting_or_finished {pc : Pc κ ι} (hruns : pc.runs = false) (hflag : pc.hasFlag = false)
    (hlocking : pc ≠ .locking) : pc = .waiting ∨ ∃ outcome, pc = .finished outcome := by
  cases pc with
  | waiting => exact .inl rfl
  | finished outcome => exact .inr ⟨outcome, rfl⟩
  | locking => exact absurd rfl hlocking
  | locked | counted | unlocking => cases hflag
  | executing | release | decrement | publish => cases hruns

/-- Where all tasks wait or are over, the first of those that wait can go on. -/
theorem progress_of_first {s : State κ ι} (hacyclic : Acyclic setup.slots) (h : Inv setup s)
    (hpcs : ∀ i job, jobOf setup.slots i = some job →
      s.pcs i = .waiting ∨ ∃ outcome, s.pcs i = .finished outcome)
    (hnot : ¬Complete setup s) :
    ∃ i s', step setup s i = some s' ∧ distance setup s' < distance setup s := by
  have hsome : {i | ∃ job, jobOf setup.slots i = some job ∧ s.pcs i = .waiting}.Nonempty := by
    by_contra hempty
    apply hnot
    intro i job hjob
    rcases hpcs i job hjob with hwaiting | hfinished
    · exact absurd ⟨i, job, hjob, hwaiting⟩ hempty
    · exact hfinished
  obtain ⟨i, ⟨job, hjob, hpc⟩, hmin⟩ := (wellFounded_depOf hacyclic).has_min _ hsome
  refine ⟨i, progress_of_waiting hjob hpc fun d hdep => ?_⟩
  have hdepOf : depOf setup.slots i = some d := by
    rw [depOf, hjob]
    exact hdep
  have hd := dep_lt hjob hdep
  cases hbefore : jobOf setup.slots d with
  | none =>
      cases hslot : setup.slots[d] with
      | ready check =>
          unfold jobOf at hbefore
          rw [List.getElem?_eq_getElem hd, hslot] at hbefore
          cases hbefore
      | done result =>
          rw [h.statuses.done d result (by rw [List.getElem?_eq_getElem hd, hslot])]
          exact stPassed_le_statusCode _
  | some before =>
      rw [h.statuses.job d before hbefore]
      rcases hpcs d before hbefore with hwaiting | ⟨outcome, hfinished⟩
      · exact absurd hdepOf (hmin d ⟨before, hbefore, hwaiting⟩)
      · rw [hfinished]
        exact stPassed_le_statusCode _

/-- As long as the tasks are not all over, one of them can get closer to its end. -/
theorem exists_progress {s : State κ ι} (hacyclic : Acyclic setup.slots)
    (hmax : 1 ≤ setup.maxParallel) (h : Inv setup s) (hnot : ¬Complete setup s) :
    ∃ i s', step setup s i = some s' ∧ distance setup s' < distance setup s := by
  by_cases hruns : ∃ i job, jobOf setup.slots i = some job ∧ (s.pcs i).runs = true
  · obtain ⟨i, job, hjob, hpc⟩ := hruns
    exact ⟨i, progress_of_runs hjob hpc⟩
  have hstill : ∀ i job, jobOf setup.slots i = some job → (s.pcs i).runs = false :=
    fun i job hjob => Bool.eq_false_iff.2 fun hpc => hruns ⟨i, job, hjob, hpc⟩
  -- no task has a token
  have hinflight : s.inflight = 0 := by
    rw [h.tokens.held]
    apply tally_eq_zero
    intro i _
    cases hjob : jobOf setup.slots i with
    | none => rw [h.idle i hjob]; rfl
    | some job => exact tokens_of_not_runs (hstill i job hjob)
  by_cases hflag : ∃ i job, jobOf setup.slots i = some job ∧ (s.pcs i).hasFlag = true
  · obtain ⟨i, job, hjob, hpc⟩ := hflag
    exact ⟨i, progress_of_flag hjob hpc (hstill i job hjob) hinflight hmax⟩
  -- no flag is set
  have hfree : ∀ group, s.flags group = false := by
    intro group
    refine Bool.eq_false_iff.2 fun hset => ?_
    obtain ⟨i, hpc, job, hjob, -⟩ := (h.flags.held group).1 hset
    exact hflag ⟨i, job, hjob, hpc⟩
  by_cases hlocking : ∃ i job, jobOf setup.slots i = some job ∧ s.pcs i = .locking
  · obtain ⟨i, job, hjob, hpc⟩ := hlocking
    exact ⟨i, progress_of_locking hjob hpc (hfree _)⟩
  apply progress_of_first hacyclic h _ hnot
  intro i job hjob
  exact waiting_or_finished (hstill i job hjob)
    (Bool.eq_false_iff.2 fun hpc => hflag ⟨i, job, hjob, hpc⟩)
    fun hpc => hlocking ⟨i, job, hjob, hpc⟩

theorem exists_complete {s : State κ ι} (hacyclic : Acyclic setup.slots)
    (hmax : 1 ≤ setup.maxParallel) (h : Inv setup s) :
    ∃ ls s', Run (step setup) free s ls s' ∧ Complete setup s' := by
  induction hdistance : distance setup s using Nat.strong_induction_on generalizing s with
  | _ n ih =>
      by_cases hcomplete : Complete setup s
      · exact ⟨[], s, .nil, hcomplete⟩
      · obtain ⟨i, s', hstep, hlt⟩ := exists_progress hacyclic hmax h hcomplete
        obtain ⟨ls, last, hrun, hlast⟩ :=
          ih _ (hdistance ▸ hlt) (inv_step s i s' h trivial hstep) rfl
        exact ⟨[i] ++ ls, last, (Run.single trivial hstep).append hrun, hlast⟩

/-! ## The report -/

theorem verdict_of_report {s : State κ ι} (h : Inv setup s) (hcomplete : Complete setup s)
    {i : Nat} {outcome : Outcome κ ι} (hget : (report setup s)[i]? = some outcome) :
    Verdict setup i outcome := by
  unfold report collectOutcomes at hget
  rw [List.getElem?_map, Option.map_eq_some_iff] at hget
  obtain ⟨entry, hentry, houtcome⟩ := hget
  rw [List.getElem?_zipIdx, Option.map_eq_some_iff] at hentry
  obtain ⟨slot, hslot, rfl⟩ := hentry
  rw [Nat.zero_add] at houtcome
  cases slot with
  | done result =>
      rw [← houtcome]
      exact .done hslot
  | ready check =>
      have hjob : ∃ job, jobOf setup.slots i = some job := by
        unfold jobOf
        rw [hslot]
        exact ⟨_, rfl⟩
      obtain ⟨job, hjob⟩ := hjob
      obtain ⟨outcome', hfinished⟩ := hcomplete i job hjob
      have hjoined : s.joined i = some (.ok outcome') := by
        unfold State.joined
        rw [hfinished]
      dsimp only at houtcome
      rw [hjoined] at houtcome
      rw [← houtcome]
      exact h.statuses.settled i job outcome' hjob hfinished

theorem length_report (setup : Setup κ ι) (s : State κ ι) :
    (report setup s).length = setup.slots.length := by
  simp [report, collectOutcomes]

theorem report_unique {s s' : State κ ι} (h : Inv setup s) (hcomplete : Complete setup s)
    (h' : Inv setup s') (hcomplete' : Complete setup s') : report setup s' = report setup s := by
  apply List.ext_getElem (by rw [length_report, length_report])
  intro i hi hi'
  exact (verdict_of_report h' hcomplete' (List.getElem?_eq_getElem hi)).unique
    (verdict_of_report h hcomplete (List.getElem?_eq_getElem hi'))

theorem not_started_iff {s : State κ ι} (h : Inv setup s) (hcomplete : Complete setup s)
    {i : Nat} {job : Job κ} (hjob : jobOf setup.slots i = some job) : i ∉ s.started ↔
    ∃ d outcome, job.dep = some d ∧ Verdict setup d outcome ∧
      outcome.result.status = .errored := by
  obtain ⟨last, hfinished⟩ := hcomplete i job hjob
  have hjudged := h.judged i job hjob
  rw [hfinished] at hjudged
  rcases hjudged with ⟨hcleared, hmem, -⟩ | ⟨hblocked, hnot, -⟩
  · refine iff_of_false (fun hnot => hnot hmem) ?_
    rintro ⟨d, outcome, hdep, hverdict, herrored⟩
    obtain ⟨hover, hnot⟩ := hcleared d hdep
    obtain ⟨outcome', hverdict', hcode⟩ := exists_verdict h.statuses (dep_lt hjob hdep) hover
    rw [← hverdict.unique hverdict', statusCode_errored.2 herrored] at hcode
    exact hnot hcode
  · exact iff_of_true hnot (errored_of_blocked h.statuses hjob hblocked)

theorem Judged.cleared {s : State κ ι} {i : Nat} {job : Job κ} {pc : Pc κ ι}
    (h : Judged setup s i job pc) (hstarted : i ∈ s.started) : Cleared s.statuses job := by
  cases pc with
  | waiting => exact absurd hstarted h
  | locking | locked | counted | unlocking => exact absurd hstarted h.2
  | executing | release outcome | decrement outcome => exact h.1
  | publish outcome | finished outcome =>
      rcases h with h | h
      · exact h.1
      · exact absurd hstarted h.2.1

/-- The checks of every run are scheduled well, whatever the order of the tasks. -/
theorem scheduled_of_run (hacyclic : Acyclic setup.slots) (hmax : 1 ≤ setup.maxParallel)
    {ls : List Nat} {s : State κ ι} (hrun : Run (step setup) free (init setup.slots) ls s) :
    Scheduled setup s := by
  have h := inv_of_run hrun
  refine ⟨?_, ?_, ?_, exists_complete hacyclic hmax h, ?_, ?_, ?_⟩
  · intro tasks htasks
    refine Nat.le_trans (card_le_tally fun i hi => ?_) (h.tokens.held ▸ h.tokens.cap)
    obtain ⟨job, hjob⟩ := Option.isSome_iff_exists.1 (htasks i hi).1
    refine ⟨lt_of_jobOf hjob, ?_⟩
    rw [(htasks i hi).2]
    exact Nat.le_refl 1
  · intro i j job job' hjob hjob' hgroup hi hj
    exact h.flags.unique i j job.ready.group ⟨by rw [hi]; rfl, job, hjob, rfl⟩
      ⟨by rw [hj]; rfl, job', hjob', hgroup.symm⟩
  · intro i hi d hdep
    obtain ⟨job, hjob, hdep⟩ := Option.bind_eq_some_iff.1 hdep
    exact ((h.judged i job hjob).cleared hi d hdep).1
  · exact fun hcomplete =>
      ⟨length_report setup s, fun i outcome => verdict_of_report h hcomplete⟩
  · exact fun hcomplete i job hjob => not_started_iff h hcomplete hjob
  · intro hcomplete ls' s' hrun' hcomplete'
    exact report_unique h hcomplete (inv_of_run hrun') hcomplete'

/-- Checks that come after earlier ones only. -/
theorem acyclic_of_earlier {slots : List (Slot κ)}
    (h : ((List.range slots.length).all fun i => (depOf slots i).all fun d => decide (d < i)) =
      true) : Acyclic slots := by
  have hearlier : ∀ {i d}, depOf slots i = some d → d < i := by
    intro i d hd
    obtain ⟨job, hjob, -⟩ := Option.bind_eq_some_iff.1 hd
    have hi := List.all_eq_true.1 h i (List.mem_range.2 (lt_of_jobOf hjob))
    rw [hd] at hi
    exact of_decide_eq_true hi
  have hlt : ∀ {i d}, Relation.TransGen (fun i d => depOf slots i = some d) i d → d < i := by
    intro i d hpath
    induction hpath with
    | single hd => exact hearlier hd
    | tail _ hd ih => exact Nat.lt_trans (hearlier hd) ih
  exact fun i hi => Nat.lt_irrefl i (hlt hi)

/-- A check that comes after another one of its group; it polls first. -/
def twoChecks : Setup Unit Unit where
  slots := [.ready ⟨['a'], (), ['g'], none⟩, .ready ⟨['b'], (), ['g'], some ['a']⟩]
  maxParallel := 1
  tailBytes := 9
  execute := fun i => .solo (plainResult [] () (if i = 0 then .failed else .passed) [] 9)

theorem scheduled_of_run_twoChecks : ∃ s : State Unit Unit,
    Run (step twoChecks) free (init twoChecks.slots)
      ([0, 1] ++ List.replicate 7 0 ++ List.replicate 8 1) s ∧
    ((report twoChecks s).map fun outcome => outcome.result.status) = [.failed, .passed] ∧
    Scheduled twoChecks s := by
  let test : State Unit Unit → Bool := fun s =>
    decide (((report twoChecks s).map fun outcome => outcome.result.status) = [.failed, .passed])
  obtain ⟨s, hrun, htest⟩ := Run.exists_of_exec test
    (show (exec (step twoChecks) free (init twoChecks.slots)
      ([0, 1] ++ List.replicate 7 0 ++ List.replicate 8 1)).any test = true by decide +kernel)
  exact ⟨s, hrun, of_decide_eq_true htest,
    scheduled_of_run (acyclic_of_earlier (by decide +kernel)) (Nat.le_refl 1) hrun⟩

end Vanyline.Health.Scheduler
