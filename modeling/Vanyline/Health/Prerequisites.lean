import Vanyline.Health.Expansion
import Vanyline.Health.SchedulerRuns

/-!
# The checks that come before others

A declaration names the one that must be over first (`after`).  The name is looked up among the
slots, once the declarations are expanded: `ComesAfter` says which slot a slot waits for, and
`depOf_eq_some` that it is the one that `resolveDep` finds.

* A run gets stuck exactly if a slot comes after itself, through others
  (`unstuck_iff_not_circular`).
* What a declaration names is over before its slots are started exactly if each slot that can be
  started waits for all the slots it concerns (`honoured_iff_awaited`).
-/

namespace Vanyline.Health.Scheduler

open Vanyline.Lib TextLines

variable {κ ι : Type}

/-! ## Names -/

def Named (slots : List (Slot κ)) (id : Text) (d : Nat) : Prop := slots[d]?.map Slot.id = some id

def LastNamed (slots : List (Slot κ)) (id : Text) (d : Nat) : Prop :=
  Named slots id d ∧ ∀ j, Named slots id j → j ≤ d

/-- Slot `i` waits for slot `d`: the last one with the name, or where no slot has it, with the name
and what is behind the first colon of the name of `i`. -/
def ComesAfter (slots : List (Slot κ)) (i d : Nat) : Prop :=
  d ≠ i ∧ ∃ check after, slots[i]? = some (.ready check) ∧ check.after = some after ∧
    (LastNamed slots after d ∨ (∀ j, ¬Named slots after j) ∧
      ∃ workspace, (splitOnce ':' check.id).2 = some workspace ∧
        LastNamed slots (after ++ ':' :: workspace) d)

theorem named_concat (slots : List (Slot κ)) (slot : Slot κ) (id : Text) (d : Nat) :
    Named (slots ++ [slot]) id d ↔ Named slots id d ∨ d = slots.length ∧ slot.id = id := by
  unfold Named
  rcases Nat.lt_trichotomy d slots.length with hlt | heq | hgt
  · rw [List.getElem?_append_left hlt]
    exact ⟨.inl, fun h => h.resolve_right fun hlast => by omega⟩
  · subst heq
    rw [List.getElem?_concat_length, List.getElem?_eq_none (Nat.le_refl _)]
    simp
  · rw [List.getElem?_eq_none (by rw [List.length_append, List.length_singleton]; omega),
      List.getElem?_eq_none (by omega)]
    refine ⟨.inl, fun h => h.resolve_right fun hlast => by omega⟩

theorem lt_of_named {slots : List (Slot κ)} {id : Text} {d : Nat} (h : Named slots id d) :
    d < slots.length := by
  by_contra hge
  rw [Named, List.getElem?_eq_none (by omega)] at h
  cases h

theorem lookup_byId_concat (slots : List (Slot κ)) (slot : Slot κ) (id : Text) :
    (byId (slots ++ [slot])).lookup id =
      if id = slot.id then some slots.length else (byId slots).lookup id := by
  unfold byId
  rw [List.zipIdx_append, List.foldl_append]
  show (SortedMap.update _ _ _).lookup id = _
  rw [SortedMap.lookup_update, Nat.zero_add]
  by_cases hid : id = slot.id
  · rw [if_pos hid]
    exact (if_pos hid).symm
  · rw [if_neg hid]
    exact (if_neg hid).symm

theorem lookup_byId_eq_some (slots : List (Slot κ)) (id : Text) (d : Nat) :
    (byId slots).lookup id = some d ↔ LastNamed slots id d := by
  induction slots using List.reverseRecOn with
  | nil =>
      refine ⟨fun h => (nomatch h), ?_⟩
      intro h
      exact absurd (lt_of_named h.1) (Nat.not_lt_zero d)
  | append_singleton slots slot ih =>
      rw [lookup_byId_concat]
      unfold LastNamed
      simp only [named_concat]
      split_ifs with hid
      · constructor
        · intro h
          cases h
          refine ⟨.inr ⟨rfl, hid.symm⟩, ?_⟩
          intro j hj
          rcases hj with hj | hj
          · exact Nat.le_of_lt (lt_of_named hj)
          · omega
        · intro h
          have hlast := h.2 slots.length (.inr ⟨rfl, hid.symm⟩)
          rcases h.1 with hd | hd
          · exact absurd (lt_of_named hd) (by omega)
          · rw [hd.1]
      · have hnot : ∀ j, ¬(j = slots.length ∧ slot.id = id) := fun j hj => hid hj.2.symm
        simp only [hnot, or_false]
        exact ih

theorem lookup_byId_eq_none (slots : List (Slot κ)) (id : Text) :
    (byId slots).lookup id = none ↔ ∀ j, ¬Named slots id j := by
  induction slots using List.reverseRecOn with
  | nil => exact iff_of_true rfl fun j hj => absurd (lt_of_named hj) (Nat.not_lt_zero j)
  | append_singleton slots slot ih =>
      rw [lookup_byId_concat]
      simp only [named_concat]
      split_ifs with hid
      · exact iff_of_false (fun h => (nomatch h)) fun h => h _ (.inr ⟨rfl, hid.symm⟩)
      · have hnot : ∀ j, ¬(j = slots.length ∧ slot.id = id) := fun j hj => hid hj.2.symm
        simp only [hnot, or_false]
        exact ih

theorem resolveDep_eq_some (slots : List (Slot κ)) (id after : Text) (i d : Nat) :
    resolveDep id after (byId slots) i = some d ↔ d ≠ i ∧ (LastNamed slots after d ∨
      (∀ j, ¬Named slots after j) ∧ ∃ workspace, (splitOnce ':' id).2 = some workspace ∧
        LastNamed slots (after ++ ':' :: workspace) d) := by
  unfold resolveDep
  cases hexact : (byId slots).lookup after with
  | some index =>
      have hindex := (lookup_byId_eq_some slots after index).1 hexact
      have hnone : ¬∀ j, ¬Named slots after j := fun h => h index hindex.1
      have hsome : LastNamed slots after d ↔ index = d := by
        rw [← lookup_byId_eq_some, hexact, Option.some_inj]
      simp only [hnone, false_and, or_false, hsome]
      constructor
      · intro h
        split_ifs at h with hne
        cases h
        exact ⟨hne, rfl⟩
      · intro h
        rw [h.2, if_pos h.1]
  | none =>
      have hnone := (lookup_byId_eq_none slots after).1 hexact
      have hlast : ¬LastNamed slots after d := fun h => hnone d h.1
      simp only [hlast, false_or, hnone, not_false_eq_true, implies_true, true_and]
      simp only [Option.bind_eq_some_iff, lookup_byId_eq_some]
      constructor
      · intro h
        rcases h with ⟨workspace, hworkspace, index, hindex, h⟩
        split_ifs at h with hne
        cases h
        exact ⟨hne, workspace, hworkspace, hindex⟩
      · intro h
        rcases h with ⟨hne, workspace, hworkspace, hindex⟩
        exact ⟨workspace, hworkspace, d, hindex, if_pos hne⟩

/-- The job of a slot waits for the slot it comes after. -/
theorem depOf_eq_some (slots : List (Slot κ)) (i d : Nat) :
    depOf slots i = some d ↔ ComesAfter slots i d := by
  unfold depOf ComesAfter jobOf
  rcases hslot : slots[i]? with _ | check | result
  · simp
  · simp only [Option.bind_some, Option.some_inj, Slot.ready.injEq, Option.bind_eq_some_iff,
      resolveDep_eq_some]
    constructor
    · intro h
      rcases h with ⟨after, hafter, hne, h⟩
      exact ⟨hne, check, after, rfl, hafter, h⟩
    · intro h
      rcases h with ⟨hne, _, after, rfl, hafter, h⟩
      exact ⟨after, hafter, hne, h⟩
  · simp

/-! ## Slots that come after themselves -/

variable {setup : Setup κ ι}

/-- Slot `d` is over before slot `i` is started, if that is ever. -/
def Behind (slots : List (Slot κ)) : Nat → Nat → Prop := Relation.TransGen (ComesAfter slots)

/-- A slot comes after itself, through others. -/
def Circular (slots : List (Slot κ)) : Prop := ∃ i, Behind slots i i

theorem acyclic_iff_not_circular (slots : List (Slot κ)) : Acyclic slots ↔ ¬Circular slots := by
  have hrel : (fun i d => depOf slots i = some d) = ComesAfter slots := by
    funext i d
    exact propext (depOf_eq_some slots i d)
  unfold Acyclic Circular Behind
  rw [hrel, not_exists]

/-- A run does not get stuck. -/
structure Unstuck (setup : Setup κ ι) : Prop where
  /-- As long as a slot is not over, there is a step that changes something. -/
  enabled : ∀ ls s, Run (step setup) free (init setup.slots) ls s → ¬Complete setup s →
    ∃ i s', step setup s i = some s' ∧ s' ≠ s
  /-- There is always a way to a report with a verdict for each slot. -/
  reports : ∀ ls s, Run (step setup) free (init setup.slots) ls s →
    ∃ ls' s', Run (step setup) free s ls' s' ∧ Complete setup s' ∧
      (report setup s').length = setup.slots.length ∧
      ∀ i outcome, (report setup s')[i]? = some outcome → Verdict setup i outcome

/-- The tasks that come after themselves wait. -/
def StillWaiting (setup : Setup κ ι) (s : State κ ι) : Prop :=
  ∀ i, Behind setup.slots i i → s.pcs i = .waiting ∧ s.statuses i = stPending

theorem comesAfter_of_behind {slots : List (Slot κ)} {i : Nat} (h : Behind slots i i) :
    ∃ d, ComesAfter slots i d ∧ Behind slots d d := by
  rcases (Relation.TransGen.head'_iff.1 h) with ⟨d, hd, hback⟩
  exact ⟨d, hd, Relation.TransGen.tail' hback hd⟩

theorem stillWaiting_init : StillWaiting setup (init setup.slots : State κ ι) := by
  intro i hi
  refine ⟨rfl, ?_⟩
  rcases comesAfter_of_behind hi with ⟨d, hd, -⟩
  rcases hd.2 with ⟨check, -, hslot, -⟩
  show initStatus setup.slots i = stPending
  rw [initStatus, hslot]

theorem dep_of_comesAfter {slots : List (Slot κ)} {i d : Nat} {job : Job κ}
    (hjob : jobOf slots i = some job) (h : ComesAfter slots i d) : job.dep = some d := by
  have hdep := (depOf_eq_some slots i d).2 h
  rw [depOf, hjob] at hdep
  exact hdep

/-- A task that comes after itself does not get on, as what it waits for does not. -/
theorem stillWaiting_move {s s' : State κ ι} {i : Nat} {job : Job κ}
    (hjob : jobOf setup.slots i = some job) (h : StillWaiting setup s)
    (hmove : Move setup s i job s') : StillWaiting setup s' := by
  have hself : Behind setup.slots i i → s' = s := by
    intro hi
    have hpc := (h i hi).1
    rcases comesAfter_of_behind hi with ⟨d, hd, hdd⟩
    have hdep := dep_of_comesAfter hjob hd
    have hpending := (h d hdd).2
    cases hmove with
    | wait => rfl
    | clear _ hcleared =>
        have hover := (hcleared d hdep).1
        rw [hpending] at hover
        exact absurd hover (show ¬stPassed ≤ stPending by decide)
    | block _ hblocked =>
        rcases hblocked with ⟨d', hdep', herrored⟩
        rw [hdep] at hdep'
        cases hdep'
        rw [hpending] at herrored
        exact absurd herrored (show stPending ≠ stErrored by decide)
    | lock hpc' | count hpc' | full hpc' | take hpc' | miss hpc' | unlock hpc' | execute hpc'
    | release hpc' | decrement hpc' | publish hpc' =>
        rw [hpc] at hpc'
        cases hpc'
  intro j hj
  by_cases hji : j = i
  · subst hji
    rw [hself hj]
    exact h j hj
  · have hold := h j hj
    cases hmove with
    | wait => exact hold
    | publish =>
        exact ⟨(Function.update_of_ne hji ..).trans hold.1,
          (Function.update_of_ne hji ..).trans hold.2⟩
    | clear | block | lock | count | full | take | miss | unlock | execute | release | decrement =>
        exact ⟨(Function.update_of_ne hji ..).trans hold.1, hold.2⟩

theorem stillWaiting_of_run {ls : List Nat} {s : State κ ι}
    (hrun : Run (step setup) free (init setup.slots) ls s) : StillWaiting setup s := by
  apply hrun.invariant stillWaiting_init
  intro s i s' h _ hstep
  rcases move_of_step hstep with ⟨job, hjob, hmove⟩
  exact stillWaiting_move hjob h hmove

/-- Where a slot comes after itself, no run is ever over. -/
theorem not_complete_of_circular (hcircular : Circular setup.slots) {ls : List Nat}
    {s : State κ ι} (hrun : Run (step setup) free (init setup.slots) ls s) :
    ¬Complete setup s := by
  intro hcomplete
  rcases hcircular with ⟨i, hi⟩
  rcases comesAfter_of_behind hi with ⟨d, hd, -⟩
  have hdep := (depOf_eq_some setup.slots i d).2 hd
  rcases Option.bind_eq_some_iff.1 hdep with ⟨job, hjob, -⟩
  rcases hcomplete i job hjob with ⟨outcome, hfinished⟩
  rw [(stillWaiting_of_run hrun i hi).1] at hfinished
  cases hfinished

theorem unstuck_of_not_circular (hmax : 1 ≤ setup.maxParallel)
    (h : ¬Circular setup.slots) : Unstuck setup := by
  have hacyclic := (acyclic_iff_not_circular setup.slots).2 h
  constructor
  · intro ls s hrun hnot
    rcases exists_progress hacyclic hmax (inv_of_run hrun) hnot with ⟨i, s', hstep, hlt⟩
    refine ⟨i, s', hstep, ?_⟩
    intro heq
    rw [heq] at hlt
    exact absurd hlt (Nat.lt_irrefl _)
  · intro ls s hrun
    rcases exists_complete hacyclic hmax (inv_of_run hrun) with ⟨ls', s', hrest, hcomplete⟩
    have hinv := inv_of_run (hrun.append hrest)
    exact ⟨ls', s', hrest, hcomplete, length_report setup s',
      fun i outcome => verdict_of_report hinv hcomplete⟩

theorem not_circular_of_unstuck (h : Unstuck setup) : ¬Circular setup.slots := by
  intro hcircular
  rcases h.reports [] _ .nil with ⟨ls, s, hrun, hcomplete, -⟩
  exact not_complete_of_circular hcircular hrun hcomplete

/-! ## Slots that can be started -/

/-- A slot whose result is not bound to be an error. -/
inductive Passable (slots : List (Slot κ)) : Nat → Prop
  | done {i : Nat} {result : CheckResult κ} (hslot : slots[i]? = some (.done result))
      (hnot : result.status ≠ .errored) : Passable slots i
  | first {i : Nat} {check : Ready κ} (hslot : slots[i]? = some (.ready check))
      (hfirst : ∀ d, ¬ComesAfter slots i d) : Passable slots i
  | after {i d : Nat} (hafter : ComesAfter slots i d) (hbefore : Passable slots d) :
      Passable slots i

/-- A slot with a command that can be started. -/
def Startable (slots : List (Slot κ)) (i : Nat) : Prop :=
  (∃ check, slots[i]? = some (.ready check)) ∧ Passable slots i

def Given (slots : List (Slot κ)) (i : Nat) : Prop := ∃ result, slots[i]? = some (.done result)

theorem jobOf_of_ready {slots : List (Slot κ)} {i : Nat} {check : Ready κ}
    (h : slots[i]? = some (.ready check)) : ∃ job, jobOf slots i = some job := by
  unfold jobOf
  rw [h]
  exact ⟨_, rfl⟩

theorem comesAfter_of_dep {slots : List (Slot κ)} {i d : Nat} {job : Job κ}
    (hjob : jobOf slots i = some job) (hdep : job.dep = some d) : ComesAfter slots i d := by
  rw [← depOf_eq_some, depOf, hjob]
  exact hdep

theorem passable_of_verdict {i : Nat} {outcome : Outcome κ ι} (h : Verdict setup i outcome)
    (hnot : outcome.result.status ≠ .errored) : Passable setup.slots i := by
  induction h with
  | done hslot => exact .done hslot hnot
  | cascade => exact absurd rfl hnot
  | first hjob hdep =>
      refine .first (slot_of_jobOf hjob) ?_
      intro d hd
      rw [dep_of_comesAfter hjob hd] at hdep
      cases hdep
  | after hjob hdep _ hnot' ih => exact .after (comesAfter_of_dep hjob hdep) (ih hnot')

theorem jobOf_of_started {ls : List Nat} {s : State κ ι}
    (hrun : Run (step setup) free (init setup.slots) ls s) :
    ∀ i ∈ s.started, ∃ job, jobOf setup.slots i = some job := by
  refine hrun.invariant (I := fun s => ∀ i ∈ s.started, ∃ job, jobOf setup.slots i = some job)
    (fun i hi => absurd hi List.not_mem_nil) ?_
  intro s i s' h _ hstep j hj
  rcases move_of_step hstep with ⟨job, hjob, hmove⟩
  cases hmove with
  | take =>
      rcases List.mem_cons.1 hj with rfl | hj
      · exact ⟨job, hjob⟩
      · exact h j hj
  | wait | clear | block | lock | count | full | miss | unlock | execute | release | decrement
  | publish => exact h j hj

theorem startable_of_started {ls : List Nat} {s : State κ ι}
    (hrun : Run (step setup) free (init setup.slots) ls s) {i : Nat} (hi : i ∈ s.started) :
    Startable setup.slots i := by
  have h := inv_of_run hrun
  rcases jobOf_of_started hrun i hi with ⟨job, hjob⟩
  refine ⟨⟨job.ready, slot_of_jobOf hjob⟩, ?_⟩
  have hcleared := (h.judged i job hjob).cleared hi
  cases hdep : job.dep with
  | none =>
      refine .first (slot_of_jobOf hjob) ?_
      intro d hd
      rw [dep_of_comesAfter hjob hd] at hdep
      cases hdep
  | some d =>
      rcases hcleared d hdep with ⟨hover, hnot⟩
      rcases exists_verdict h.statuses (dep_lt hjob hdep) hover with ⟨outcome, hverdict, hcode⟩
      refine .after (comesAfter_of_dep hjob hdep) (passable_of_verdict hverdict ?_)
      intro herrored
      rw [hcode, herrored] at hnot
      exact hnot rfl

/-- A command that is over without an error has been started. -/
theorem started_of_over {s : State κ ι} (h : Inv setup s) {i : Nat} {job : Job κ}
    (hjob : jobOf setup.slots i = some job) (hover : stPassed ≤ s.statuses i)
    (hnot : s.statuses i ≠ stErrored) : Cleared s.statuses job ∧ i ∈ s.started := by
  have hcode := h.statuses.job i job hjob
  have hjudged := h.judged i job hjob
  cases hpc : s.pcs i with
  | finished outcome =>
      rw [hpc] at hcode hjudged
      rcases hjudged with hrun | hblocked
      · exact ⟨hrun.1, hrun.2.1⟩
      · rw [hcode, hblocked.2.2] at hnot
        exact absurd rfl hnot
  | waiting | locking | locked | counted | unlocking | executing | release | decrement | publish =>
      rw [hpc] at hcode
      rw [hcode] at hover
      exact absurd hover (show ¬stPassed ≤ stPending by decide)

/-- What is behind a command that has been started is over. -/
theorem over_of_behind {s : State κ ι} (h : Inv setup s) {i j : Nat}
    (hbehind : Behind setup.slots i j) {job : Job κ} (hjob : jobOf setup.slots i = some job)
    (hcleared : Cleared s.statuses job) : stPassed ≤ s.statuses j := by
  induction hbehind using Relation.TransGen.head_induction_on generalizing job with
  | single hafter => exact (hcleared _ (dep_of_comesAfter hjob hafter)).1
  | head hafter hrest ih =>
      rcases hcleared _ (dep_of_comesAfter hjob hafter) with ⟨hover, hnot⟩
      rcases Relation.TransGen.head'_iff.1 hrest with ⟨d, hd, -⟩
      rcases hd.2 with ⟨check, -, hslot, -⟩
      rcases jobOf_of_ready hslot with ⟨before, hbefore⟩
      exact ih hbefore (started_of_over h hbefore hover hnot).1

/-! ## Runs of single slots -/

/-- No task is between its start and its end. -/
structure Resting (s : State κ ι) : Prop where
  flags : ∀ group, s.flags group = false
  inflight : s.inflight = 0
  pcs : ∀ i, s.pcs i = .waiting ∨ ∃ outcome, s.pcs i = .finished outcome

theorem resting_init (slots : List (Slot κ)) : Resting (init slots : State κ ι) :=
  ⟨fun _ => rfl, rfl, fun _ => .inl rfl⟩

/-- The state in which the command of a slot is executing. -/
def State.executing (s : State κ ι) (i : Nat) (group : Text) : State κ ι :=
  { (s.setFlag group true).goto i .executing with inflight := 1, started := i :: s.started }

/-- The state in which the command of a slot is over. -/
def State.over (s : State κ ι) (i : Nat) (outcome : Outcome κ ι) : State κ ι :=
  { s.goto i (.finished outcome) with
    started := i :: s.started
    statuses := Function.update s.statuses i (statusCode outcome.result.status) }

section Single

variable {s : State κ ι} {i : Nat} {job : Job κ} (hmax : 1 ≤ setup.maxParallel)
  (hjob : jobOf setup.slots i = some job) (hrest : Resting s) (hpc : s.pcs i = .waiting)
  (hcleared : Cleared s.statuses job)

include hjob hpc hcleared in
theorem step_clear : step setup s i = some (s.goto i .locking) := by
  unfold step
  rw [hjob]
  dsimp only
  rw [hpc]
  dsimp only
  cases hdep : job.dep with
  | none => rfl
  | some d =>
      rcases hcleared d hdep with ⟨hover, hnot⟩
      dsimp only
      rw [if_pos hover, if_neg hnot]

include hmax hjob hrest hpc hcleared in
theorem run_executing :
    Run (step setup) free s [i, i, i, i] (s.executing i job.ready.group) := by
  have hlock : step setup (s.goto i .locking) i =
      some ((s.setFlag job.ready.group true).goto i .locked) := by
    simp [step, hjob, State.goto, State.setFlag, hrest.flags]
  have hcount : step setup ((s.setFlag job.ready.group true).goto i .locked) i =
      some ((s.setFlag job.ready.group true).goto i (.counted 0)) := by
    have hlow : 0 < setup.maxParallel := hmax
    simp [step, hjob, State.goto, State.setFlag, hrest.inflight, hlow]
  have htake : step setup ((s.setFlag job.ready.group true).goto i (.counted 0)) i =
      some (s.executing i job.ready.group) := by
    simp [step, hjob, State.goto, State.setFlag, State.executing, hrest.inflight]
  have hclear : Run (step setup) free s [i] (s.goto i .locking) :=
    .single trivial (step_clear hjob hpc hcleared)
  exact ((hclear.snoc trivial hlock).snoc trivial hcount).snoc trivial htake

include hjob hrest in
theorem run_over : Run (step setup) free (s.executing i job.ready.group) [i, i, i, i]
    (s.over i (setup.execute i)) := by
  have hflags : Function.update (Function.update s.flags job.ready.group true) job.ready.group
      false = s.flags := by
    rw [Function.update_idem]
    exact Function.update_eq_self_iff.2 (hrest.flags _).symm
  have hexecute : Run (step setup) free (s.executing i job.ready.group) [i]
      ((s.executing i job.ready.group).goto i (.release (setup.execute i))) := by
    apply Run.single trivial
    simp [step, hjob, State.goto, State.executing]
  have hrelease : step setup
      ((s.executing i job.ready.group).goto i (.release (setup.execute i))) i =
      some { s.goto i (.decrement (setup.execute i)) with
        inflight := 1, started := i :: s.started } := by
    simp [step, hjob, State.goto, State.setFlag, State.executing, hflags]
  have hdecrement : step setup { s.goto i (.decrement (setup.execute i)) with
      inflight := 1, started := i :: s.started } i =
      some { s.goto i (.publish (setup.execute i)) with started := i :: s.started } := by
    simp [step, hjob, State.goto, hrest.inflight]
  have hpublish : step setup
      { s.goto i (.publish (setup.execute i)) with started := i :: s.started } i =
      some (s.over i (setup.execute i)) := by
    simp [step, hjob, State.goto, State.over]
  exact ((hexecute.snoc trivial hrelease).snoc trivial hdecrement).snoc trivial hpublish

end Single

theorem resting_over {s : State κ ι} (h : Resting s) (i : Nat) (outcome : Outcome κ ι) :
    Resting (s.over i outcome) := by
  refine ⟨h.flags, h.inflight, ?_⟩
  intro j
  show Function.update s.pcs i _ j = _ ∨ ∃ outcome, Function.update s.pcs i _ j = _
  by_cases hji : j = i
  · subst hji
    rw [Function.update_self]
    exact .inr ⟨outcome, rfl⟩
  · rw [Function.update_of_ne hji]
    exact h.pcs j

/-- Only slots that have their results from the start, slot `i` and those behind it are over. -/
def OnlyBehind (slots : List (Slot κ)) (s : State κ ι) (i : Nat) : Prop :=
  ∀ j, stPassed ≤ s.statuses j → Given slots j ∨ j = i ∨ Behind slots i j

theorem given_of_initStatus {slots : List (Slot κ)} {i : Nat} (h : stPassed ≤ initStatus slots i) :
    Given slots i := by
  unfold initStatus at h
  split at h
  · rename_i result hslot
    exact ⟨result, hslot⟩
  · exact absurd h (show ¬stPassed ≤ stPending by decide)

theorem onlyBehind_before {slots : List (Slot κ)} {s : State κ ι} {i d : Nat}
    (hafter : ComesAfter slots i d) (h : OnlyBehind slots s d) (j : Nat)
    (hj : stPassed ≤ s.statuses j) : Given slots j ∨ Behind slots i j := by
  rcases h j hj with hgiven | rfl | hbehind
  · exact .inl hgiven
  · exact .inr (.single hafter)
  · exact .inr (.head hafter hbehind)

theorem onlyBehind_over {slots : List (Slot κ)} {s : State κ ι} {i : Nat}
    (h : ∀ j, stPassed ≤ s.statuses j → Given slots j ∨ Behind slots i j)
    (outcome : Outcome κ ι) : OnlyBehind slots (s.over i outcome) i := by
  intro j hj
  by_cases hji : j = i
  · exact .inr (.inl hji)
  · change stPassed ≤ Function.update s.statuses i _ j at hj
    rw [Function.update_of_ne hji] at hj
    exact (h j hj).imp_right .inr

section Passing

variable (hmax : 1 ≤ setup.maxParallel)
  (hpass : ∀ i, (setup.execute i).result.status = .passed)

include hmax hpass in
/-- A slot that has to wait for nothing more, or has been started. -/
theorem run_of_cleared {ls : List Nat} {s : State κ ι}
    (hrun : Run (step setup) free (init setup.slots) ls s) (hrest : Resting s) {i : Nat}
    {job : Job κ} (hjob : jobOf setup.slots i = some job) (hcleared : Cleared s.statuses job)
    (honly : ∀ j, stPassed ≤ s.statuses j → Given setup.slots j ∨ Behind setup.slots i j) :
    ∃ ls s, Run (step setup) free (init setup.slots) ls s ∧ Resting s ∧
      stPassed ≤ s.statuses i ∧ s.statuses i ≠ stErrored ∧ OnlyBehind setup.slots s i := by
  rcases hrest.pcs i with hpc | ⟨outcome, hpc⟩
  · have hover := (hrun.append (run_executing hmax hjob hrest hpc hcleared)).append
      (run_over hjob hrest)
    have hcode : (s.over i (setup.execute i)).statuses i = stPassed := by
      show Function.update s.statuses i _ i = _
      rw [Function.update_self, hpass]
      rfl
    refine ⟨_, _, hover, resting_over hrest i _, ?_, ?_, onlyBehind_over honly _⟩
    · rw [hcode]
    · rw [hcode]
      decide
  · have h := inv_of_run hrun
    have hcode := h.statuses.job i job hjob
    have hjudged := h.judged i job hjob
    rw [hpc] at hcode hjudged
    rcases hjudged with hran | hblocked
    · have hpassed : s.statuses i = stPassed := by
        rw [hcode, hran.2.2, Pc.code, hpass]
        rfl
      refine ⟨ls, s, hrun, hrest, ?_, ?_, fun j hj => (honly j hj).imp_right .inr⟩
      · rw [hpassed]
      · rw [hpassed]
        decide
    · rcases hblocked.1 with ⟨d, hdep, herrored⟩
      exact absurd herrored (hcleared d hdep).2

theorem cleared_of_first {slots : List (Slot κ)} {i : Nat} {job : Job κ} {statuses : Nat → Nat}
    (hjob : jobOf slots i = some job) (hfirst : ∀ d, ¬ComesAfter slots i d) :
    Cleared statuses job := by
  intro d hdep
  exact absurd (comesAfter_of_dep hjob hdep) (hfirst d)

theorem cleared_of_after {slots : List (Slot κ)} {i d : Nat} {job : Job κ} {statuses : Nat → Nat}
    (hjob : jobOf slots i = some job) (hafter : ComesAfter slots i d)
    (hover : stPassed ≤ statuses d) (hnot : statuses d ≠ stErrored) : Cleared statuses job := by
  intro d' hdep
  rw [dep_of_comesAfter hjob hafter] at hdep
  cases hdep
  exact ⟨hover, hnot⟩

include hmax hpass in
/-- Where all commands pass, a slot can be led to its end with only those behind it. -/
theorem run_of_passable {i : Nat} (h : Passable setup.slots i) :
    ∃ ls s, Run (step setup) free (init setup.slots) ls s ∧ Resting s ∧
      stPassed ≤ s.statuses i ∧ s.statuses i ≠ stErrored ∧ OnlyBehind setup.slots s i := by
  induction h with
  | @done i result hslot hnot =>
      have hcode : (init setup.slots : State κ ι).statuses i = statusCode result.status := by
        show initStatus setup.slots i = _
        rw [initStatus, hslot]
      refine ⟨[], _, .nil, resting_init _, ?_, ?_, fun j hj => .inl (given_of_initStatus hj)⟩
      · rw [hcode]
        exact stPassed_le_statusCode _
      · rw [hcode, Ne, statusCode_errored]
        exact hnot
  | first hslot hfirst =>
      rcases jobOf_of_ready hslot with ⟨job, hjob⟩
      exact run_of_cleared hmax hpass .nil (resting_init _) hjob (cleared_of_first hjob hfirst)
        fun j hj => .inl (given_of_initStatus hj)
  | after hafter _ ih =>
      rcases ih with ⟨ls, s, hrun, hrest, hover, hnot, honly⟩
      rcases hafter.2 with ⟨check, -, hslot, -⟩
      rcases jobOf_of_ready hslot with ⟨job, hjob⟩
      exact run_of_cleared hmax hpass hrun hrest hjob (cleared_of_after hjob hafter hover hnot)
        (onlyBehind_before hafter honly)

include hmax hpass in
/-- A slot that can be started is started in a run in which only those behind it are over. -/
theorem run_of_startable {i : Nat} (h : Startable setup.slots i) :
    ∃ ls s, Run (step setup) free (init setup.slots) ls s ∧ i ∈ s.started ∧
      ∀ j, stPassed ≤ s.statuses j → Given setup.slots j ∨ Behind setup.slots i j := by
  rcases h with ⟨⟨check, hslot⟩, hpassable⟩
  rcases jobOf_of_ready hslot with ⟨job, hjob⟩
  cases hpassable with
  | done hslot' =>
      rw [hslot] at hslot'
      cases hslot'
  | first _ hfirst =>
      exact ⟨_, _, run_executing hmax hjob (resting_init _) rfl (cleared_of_first hjob hfirst),
        List.mem_cons_self .., fun j hj => .inl (given_of_initStatus hj)⟩
  | after hafter hbefore =>
      rcases run_of_passable hmax hpass hbefore with ⟨ls, s, hrun, hrest, hover, hnot, honly⟩
      have hcleared := cleared_of_after hjob hafter hover hnot
      have hbehind := onlyBehind_before hafter honly
      rcases hrest.pcs i with hpc | ⟨outcome, hpc⟩
      · exact ⟨_, _, hrun.append (run_executing hmax hjob hrest hpc hcleared),
          List.mem_cons_self .., hbehind⟩
      · have hjudged := (inv_of_run hrun).judged i job hjob
        rw [hpc] at hjudged
        rcases hjudged with hran | hblocked
        · exact ⟨ls, s, hrun, hran.2.1, hbehind⟩
        · rcases hblocked.1 with ⟨d, hdep, herrored⟩
          exact absurd herrored (hcleared d hdep).2

end Passing

end Vanyline.Health.Scheduler

namespace Vanyline.Health.Expansion

open Vanyline.Lib TextLines Scheduler

variable {ι : Type}

/-! ## Runs of declarations -/

/-- What `run_checks` makes of the declarations. -/
def setupOf (world : World) (tailBytes : Nat) (checks : List Check) (maxParallel : Nat)
    (execute : Nat → Outcome CheckKind ι) : Setup CheckKind ι where
  slots := (expandAll world tailBytes checks).map Entry.slot
  maxParallel := max maxParallel 1
  tailBytes := tailBytes
  execute := execute

/-- The checks of all declarations get to their ends exactly if no slot comes after itself. -/
theorem unstuck_iff_not_circular (world : World) (tailBytes : Nat) (checks : List Check)
    (maxParallel : Nat) (execute : Nat → Outcome CheckKind ι) :
    Unstuck (setupOf world tailBytes checks maxParallel execute) ↔
      ¬Circular ((expandAll world tailBytes checks).map Entry.slot) := by
  have hmax : 1 ≤ (setupOf world tailBytes checks maxParallel execute).maxParallel :=
    Nat.le_max_right maxParallel 1
  exact ⟨not_circular_of_unstuck, unstuck_of_not_circular hmax⟩

/-- Two declarations that name each other. -/
def twoChecks : List Check :=
  [⟨['a'], .lint, [['x']], [], .none, none, none, some ['b']⟩,
    ⟨['b'], .tests, [['y']], [], .none, none, none, some ['a']⟩]

def emptyWorld : World := ⟨fun _ => .error [], fun _ _ => none, .ok []⟩

theorem circular_twoChecks : Circular ((expandAll emptyWorld 9 twoChecks).map Entry.slot) := by
  have hfirst : ComesAfter ((expandAll emptyWorld 9 twoChecks).map Entry.slot) 0 1 :=
    (depOf_eq_some _ 0 1).1 (by decide +kernel)
  have hsecond : ComesAfter ((expandAll emptyWorld 9 twoChecks).map Entry.slot) 1 0 :=
    (depOf_eq_some _ 1 0).1 (by decide +kernel)
  exact ⟨0, .tail (.single hfirst) hsecond⟩

theorem unstuck_fails : ¬∀ (world : World) (tailBytes : Nat) (checks : List Check)
    (maxParallel : Nat) (execute : Nat → Outcome CheckKind Unit),
    (∀ check ∈ checks, validate check = .ok ()) →
      Unstuck (setupOf world tailBytes checks maxParallel execute) := by
  intro h
  have hunstuck := h emptyWorld 9 twoChecks 2
    (fun _ => .solo (plainResult [] .lint .passed [] 9)) (by
      intro check hcheck
      rcases List.mem_pair.1 hcheck with rfl | rfl
      · rfl
      · rfl)
  exact not_circular_of_unstuck hunstuck circular_twoChecks

/-! ## Declared prerequisites -/

/-- The slots that a slot with the workspace `tag` must come after, where its declaration names
`after`: those of the same workspace where both have one, and else all. -/
def Concerns (origins : List (Check × Option Text)) (tag : Option Text) (after : Text)
    (j : Nat) : Prop :=
  ∃ check tag', origins[j]? = some (check, tag') ∧ check.id = after ∧
    ∀ workspace workspace', tag = some workspace → tag' = some workspace' → workspace = workspace'

/-- What has been started has found what it must come after, and this is over. -/
def Honoured (origins : List (Check × Option Text)) (slots : List (Slot CheckKind))
    (s : State CheckKind ι) : Prop :=
  ∀ i ∈ s.started, ∀ check tag after, origins[i]? = some (check, tag) →
    check.after = some after → (depOf slots i).isSome = true ∧
      ∀ j, Concerns origins tag after j → stPassed ≤ s.statuses j

/-- A slot waits for the slots that it must come after. -/
def Awaits (origins : List (Check × Option Text)) (slots : List (Slot CheckKind)) (i : Nat) :
    Prop :=
  ∀ check tag after, origins[i]? = some (check, tag) → check.after = some after →
    (∃ d, ComesAfter slots i d) ∧
      ∀ j, Concerns origins tag after j → Given slots j ∨ Behind slots i j

theorem honoured_of_run {setup : Setup CheckKind ι} {origins : List (Check × Option Text)}
    {ls : List Nat} {s : State CheckKind ι}
    (hrun : Run (step setup) free (init setup.slots) ls s)
    (h : ∀ i, Startable setup.slots i → Awaits origins setup.slots i) :
    Honoured origins setup.slots s := by
  intro i hi check tag after horigin hafter
  have hinv := inv_of_run hrun
  rcases h i (startable_of_started hrun hi) check tag after horigin hafter with ⟨hd, hawaits⟩
  refine ⟨?_, ?_⟩
  · rcases hd with ⟨d, hd⟩
    rw [(depOf_eq_some _ i d).2 hd]
    rfl
  · intro j hj
    rcases hawaits j hj with hgiven | hbehind
    · rcases hgiven with ⟨result, hslot⟩
      rw [hinv.statuses.done j result hslot]
      exact stPassed_le_statusCode _
    · rcases jobOf_of_started hrun i hi with ⟨job, hjob⟩
      exact over_of_behind hinv hbehind hjob ((hinv.judged i job hjob).cleared hi)

theorem awaits_of_honoured {setup : Setup CheckKind ι} {origins : List (Check × Option Text)}
    (hmax : 1 ≤ setup.maxParallel) (hpass : ∀ i, (setup.execute i).result.status = .passed)
    (h : ∀ ls s, Run (step setup) free (init setup.slots) ls s → Honoured origins setup.slots s)
    {i : Nat} (hi : Startable setup.slots i) : Awaits origins setup.slots i := by
  intro check tag after horigin hafter
  rcases run_of_startable hmax hpass hi with ⟨ls, s, hrun, hstarted, honly⟩
  rcases h ls s hrun i hstarted check tag after horigin hafter with ⟨hsome, hover⟩
  refine ⟨?_, fun j hj => honly j (hover j hj)⟩
  rcases Option.isSome_iff_exists.1 hsome with ⟨d, hd⟩
  exact ⟨d, (depOf_eq_some _ i d).1 hd⟩

/-- What a declaration names is over before its slots are started, in all runs, exactly if each
slot that can be started waits for all slots it must come after. -/
theorem honoured_iff_awaits (ι : Type) (world : World) (tailBytes : Nat) (checks : List Check)
    (maxParallel : Nat) : (∀ (execute : Nat → Outcome CheckKind ι) ls s,
      Run (step (setupOf world tailBytes checks maxParallel execute)) free
        (init ((expandAll world tailBytes checks).map Entry.slot)) ls s →
      Honoured (origins world checks) ((expandAll world tailBytes checks).map Entry.slot) s) ↔
    ∀ i, Startable ((expandAll world tailBytes checks).map Entry.slot) i →
      Awaits (origins world checks) ((expandAll world tailBytes checks).map Entry.slot) i := by
  constructor
  · intro h i hi
    let execute : Nat → Outcome CheckKind ι :=
      fun _ => .solo (plainResult [] .lint .passed [] tailBytes)
    have hmax : 1 ≤ (setupOf world tailBytes checks maxParallel execute).maxParallel :=
      Nat.le_max_right maxParallel 1
    exact awaits_of_honoured hmax (fun _ => rfl) (h execute) hi
  · intro h execute ls s hrun
    exact honoured_of_run hrun h

/-- A declaration for each workspace, and one that comes after it. -/
def mixedChecks : List Check :=
  [⟨['a'], .tests, [['x']], [], .none, some .npmWorkspaces, none, none⟩,
    ⟨['b'], .coverage, [['y']], [], .none, none, none, some ['a']⟩]

def npmWorld : World where
  manifest := fun _ => .ok (.obj [("workspaces".toList, .arr [.str ['w']])])
  subdirs := fun _ _ => none
  lsFiles := .ok []

def mixedSetup : Setup CheckKind Unit :=
  setupOf npmWorld 9 mixedChecks 2 fun _ => .solo (plainResult [] .lint .passed [] 9)

theorem honoured_fails : ¬∀ (world : World) (tailBytes : Nat) (checks : List Check)
    (maxParallel : Nat) (execute : Nat → Outcome CheckKind Unit) (ls : List Nat)
    (s : State CheckKind Unit), (∀ check ∈ checks, validate check = .ok ()) →
      Run (step (setupOf world tailBytes checks maxParallel execute)) free
        (init ((expandAll world tailBytes checks).map Entry.slot)) ls s →
      Honoured (origins world checks) ((expandAll world tailBytes checks).map Entry.slot) s := by
  intro h
  let test : State CheckKind Unit → Bool := fun s => decide (1 ∈ s.started)
  obtain ⟨s, hrun, htest⟩ := Run.exists_of_exec test
    (show (exec (step mixedSetup) free (init mixedSetup.slots) [1, 1, 1, 1]).any test = true by
      decide +kernel)
  have hvalid : ∀ check ∈ mixedChecks, validate check = .ok () := by
    intro check hcheck
    rcases List.mem_pair.1 hcheck with rfl | rfl
    · rfl
    · rfl
  have horigin : ∃ check, (origins npmWorld mixedChecks)[1]? = some (check, none) ∧
      check.after = some ['a'] := ⟨_, rfl, rfl⟩
  rcases horigin with ⟨check, hcheck, hafter⟩
  have hnone : depOf mixedSetup.slots 1 = none := by decide +kernel
  have hhonoured := h npmWorld 9 mixedChecks 2 mixedSetup.execute _ s hvalid hrun
  have hsome := (hhonoured 1 (of_decide_eq_true htest) check none ['a'] hcheck hafter).1
  change (depOf mixedSetup.slots 1).isSome = true at hsome
  rw [hnone] at hsome
  cases hsome

end Vanyline.Health.Expansion
