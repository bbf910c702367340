import Vanyline.Lib.Run
import Vanyline.Sandbox.CodeHealth

/-!
# When the report is fresh

The worktree has a version, which grows with each change, and a change is notified at some time
after it.  The fingerprint that the background task reads is that of the version at this
moment, or none if `git` fails.  An observer counts the notifications.

* `Honest` says that nothing has been notified since the phase has got its reason to be fresh:
  the start of the computation for a new report, and the fingerprint for the old one.
* The task reads the fingerprint and sets the phase in different steps.  What is notified in
  between is lost (`honest_fails`).
* `honest_of_run` holds without such a notification (`Undisturbed`).
-/

namespace Vanyline.Sandbox.HealthFreshness

open Vanyline.Lib CodeHealth

/-- `read`, `started` and `justified` are the numbers of notifications at the last fingerprint,
at the last start of a computation, and at the one of these that the phase is fresh by.  Between
a fingerprint and the computation a notification is noted by `raced`. -/
structure State where
  health : CodeHealth
  version : Nat
  notified : List Nat
  read : Nat
  started : Nat
  justified : Nat
  raced : Bool

def State.init (base : Option Ref) : State := ⟨.new base, 0, [], 0, 0, 0, false⟩

inductive Label
  | change
  | notify (change now : Nat)
  | act (l : CodeHealth.Label) (now : Nat)

def isReady : Background → Bool
  | .ready _ => true
  | _ => false

def isUnchanged : Background → Bool
  | .unchanged => true
  | _ => false

namespace State

variable (s : State)

/-- What `git` can answer at this moment. -/
def allows (fingerprintOf : Nat → Fingerprint) : CodeHealth.Label → Bool
  | .modify => false
  | .fingerprint fingerprint | .poll fingerprint =>
    fingerprint == none || fingerprint == some (fingerprintOf s.version)
  | _ => true

/-- What is noted of a step of the task. -/
def note : CodeHealth.Label → State
  | .fingerprint _ => { s with read := s.notified.length, raced := false }
  | .begin => { s with started := s.notified.length }
  | .markFresh | .finish false => { s with justified := s.read }
  | .finish true => { s with justified := s.started }
  | _ => s

end State

def step (fingerprintOf : Nat → Fingerprint) (s : State) : Label → Option State
  | .change => some { s with version := s.version + 1 }
  | .notify change now =>
    if change ≤ s.version then
      (s.health.step now s.version .modify).map fun health =>
        { s with
          health
          notified := change :: s.notified
          raced := s.raced || isReady s.health.background }
    else none
  | .act l now =>
    if s.allows fingerprintOf l then
      (s.health.step now s.version l).map fun health => { s.note l with health }
    else none

/-! ## Honesty -/

structure Honest (s : State) : Prop where
  /-- Nothing has been notified since the reason of the phase. -/
  unnotified : s.health.fields.phase = .fresh → s.justified = s.notified.length
  /-- The checks of the report have been started on a version with each change that has been
  notified. -/
  covered : s.health.fields.phase = .fresh →
    ∃ report, s.health.fields.report = some report ∧ ∀ change ∈ s.notified, change ≤ report.stamp

/-- The computation fails, and the phase is to be fresh again. -/
def restores (s : State) : Bool :=
  match s.health.background with
  | .running fingerprint _ =>
    s.health.fields.sees fingerprint && s.health.fields.report.isSome && !s.health.fields.dirty
  | _ => false

/-- Nothing is notified between a fingerprint that is that of the report and `mark_fresh`, and no
computation fails with this fingerprint after a notification between the fingerprint and
its start. -/
def Undisturbed (s : State) : Label → Prop
  | .notify _ _ => isUnchanged s.health.background = false
  | .act (.finish false) _ => s.raced = true → restores s = false
  | _ => True

instance (s : State) (label : Label) : Decidable (Undisturbed s label) :=
  match label with
  | .notify _ _ => inferInstanceAs (Decidable (_ = _))
  | .act (.finish false) _ => inferInstanceAs (Decidable (_ → _))
  | .change | .act .modify _ | .act (.refresh ..) _ | .act (.send _) _ | .act (.boot _) _
  | .act .recv _ | .act (.poll _) _ | .act (.worktree _) _ | .act .cool _ | .act .calm _
  | .act (.fingerprint _) _ | .act .markFresh _ | .act .begin _ | .act .run _
  | .act (.finish true) _ => isTrue trivial

/-! ## What stands behind the phase -/

section Invariant

variable (fingerprintOf : Nat → Fingerprint)

/-- A fingerprint that has been read, of a version up to `bound`, and `still` says that nothing
has been notified since. -/
def Taken (s : State) (fingerprint : Option Fingerprint) (bound : Nat) (still : Prop) : Prop :=
  ∀ text, fingerprint = some text → ∃ version, version ≤ bound ∧ text = fingerprintOf version ∧
    (still → ∀ change ∈ s.notified, change ≤ version)

/-- What is known of the notifications, by where the task is. -/
def Backed (s : State) : Background → Prop
  | .unchanged => s.read = s.notified.length ∧ ∃ report, s.health.fields.report = some report ∧
      ∀ change ∈ s.notified, change ≤ report.stamp
  | .ready fingerprint => (s.raced = false → s.read = s.notified.length) ∧
      Taken fingerprintOf s fingerprint s.version (s.raced = false)
  | .collecting fingerprint _ _ =>
      (s.health.fields.dirty = false → s.started = s.notified.length ∧
        (s.raced = false → s.read = s.notified.length)) ∧
      Taken fingerprintOf s fingerprint s.version
        (s.health.fields.dirty = false ∧ s.raced = false)
  | .running fingerprint report =>
      (s.health.fields.dirty = false → s.started = s.notified.length ∧
        (s.raced = false → s.read = s.notified.length) ∧
        ∀ change ∈ s.notified, change ≤ report.stamp) ∧
      Taken fingerprintOf s fingerprint report.stamp
        (s.health.fields.dirty = false ∧ s.raced = false)
  | _ => True

structure Inv (s : State) : Prop where
  versions : ∀ change ∈ s.notified, change ≤ s.version
  computing : s.health.fields.computing = s.health.background.computes
  last : ∀ text, s.health.fields.lastFingerprint = some text → ∃ report version,
    s.health.fields.report = some report ∧ text = fingerprintOf version ∧ version ≤ report.stamp
  honest : Honest s
  backed : Backed fingerprintOf s s.health.background

/-- The phase stays or is stale, and the rest that counts stays. -/
structure Kept (f f' : Fields) : Prop where
  phase : f'.phase = f.phase ∨ f'.phase = .stale
  report : f'.report = f.report
  lastFingerprint : f'.lastFingerprint = f.lastFingerprint
  computing : f'.computing = f.computing
  dirty : f'.dirty = f.dirty

theorem Kept.refl (f : Fields) : Kept f f := ⟨.inl rfl, rfl, rfl, rfl, rfl⟩

theorem kept_markStale (f : Fields) (now : Nat) : Kept f (f.markStale now) := by
  unfold Fields.markStale
  split_ifs
  · exact .refl f
  · exact ⟨.inr rfl, rfl, rfl, rfl, rfl⟩

variable {fingerprintOf} {s : State}

theorem inv_init (base : Option Ref) : Inv fingerprintOf (.init base) := by
  refine ⟨?_, rfl, ?_, ⟨?_, ?_⟩, trivial⟩
  · intro change h
    cases h
  · intro text h
    cases h
  · intro h
    cases h
  · intro h
    cases h

theorem Honest.kept (h : Honest s) {health : CodeHealth}
    (hfields : Kept s.health.fields health.fields) : Honest { s with health } := by
  have hphase : health.fields.phase = .fresh → s.health.fields.phase = .fresh := by
    intro hfresh
    rcases hfields.phase with hsame | hstale
    · rw [← hsame]
      exact hfresh
    · rw [hfresh] at hstale
      cases hstale
  refine ⟨fun hfresh => h.unnotified (hphase hfresh), fun hfresh => ?_⟩
  show ∃ report, health.fields.report = some report ∧ _
  rw [hfields.report]
  exact h.covered (hphase hfresh)

/-- A fingerprint of which nothing more is said. -/
theorem Taken.void {s' : State} {fingerprint : Option Fingerprint} {bound : Nat}
    {still still' : Prop} (h : Taken fingerprintOf s fingerprint bound still) (hnot : ¬still') :
    Taken fingerprintOf s' fingerprint bound still' := by
  intro text htext
  obtain ⟨version, hle, heq, -⟩ := h text htext
  exact ⟨version, hle, heq, fun hstill => absurd hstill hnot⟩

namespace Inv

variable (h : Inv fingerprintOf s)

include h in
/-- The task stays where it is. -/
theorem kept {health : CodeHealth} (hfields : Kept s.health.fields health.fields)
    (hbackground : health.background = s.health.background) :
    Inv fingerprintOf { s with health } := by
  refine ⟨h.versions, ?_, ?_, h.honest.kept hfields, ?_⟩
  · show health.fields.computing = health.background.computes
    rw [hfields.computing, hbackground]
    exact h.computing
  · show ∀ text, health.fields.lastFingerprint = some text → ∃ report version,
      health.fields.report = some report ∧ _
    rw [hfields.lastFingerprint, hfields.report]
    exact h.last
  · have hbacked := h.backed
    show Backed fingerprintOf { s with health } health.background
    rw [hbackground]
    cases hcase : s.health.background with
    | unchanged =>
        rw [hcase] at hbacked
        refine ⟨hbacked.1, ?_⟩
        show ∃ report, health.fields.report = some report ∧ _
        rw [hfields.report]
        exact hbacked.2
    | ready fingerprint =>
        rw [hcase] at hbacked
        exact hbacked
    | collecting fingerprint base languages =>
        rw [hcase] at hbacked
        show (health.fields.dirty = false → _) ∧
          Taken fingerprintOf s fingerprint s.version (health.fields.dirty = false ∧ _)
        rw [hfields.dirty]
        exact hbacked
    | running fingerprint report =>
        rw [hcase] at hbacked
        show (health.fields.dirty = false → _) ∧
          Taken fingerprintOf s fingerprint report.stamp (health.fields.dirty = false ∧ _)
        rw [hfields.dirty]
        exact hbacked
    | _ => trivial

include h in
/-- The task goes on without a computation. -/
theorem plain {health : CodeHealth} {read : Nat} {raced : Bool}
    (hfields : Kept s.health.fields health.fields)
    (hidle : s.health.background.computes = false)
    (hcomputes : health.background.computes = false)
    (hbacked : Backed fingerprintOf { s with health, read, raced } health.background) :
    Inv fingerprintOf { s with health, read, raced } := by
  have hhonest := h.honest.kept hfields
  refine ⟨h.versions, ?_, ?_, ⟨hhonest.unnotified, hhonest.covered⟩, hbacked⟩
  · show health.fields.computing = health.background.computes
    rw [hfields.computing, h.computing, hidle, hcomputes]
  · show ∀ text, health.fields.lastFingerprint = some text → ∃ report version,
      health.fields.report = some report ∧ _
    rw [hfields.lastFingerprint, hfields.report]
    exact h.last

include h in
theorem change : Inv fingerprintOf { s with version := s.version + 1 } := by
  refine ⟨?_, h.computing, h.last, ⟨h.honest.unnotified, h.honest.covered⟩, ?_⟩
  · intro change hchange
    exact Nat.le_succ_of_le (h.versions change hchange)
  · have htaken : ∀ fingerprint still, Taken fingerprintOf s fingerprint s.version still →
        Taken fingerprintOf { s with version := s.version + 1 } fingerprint (s.version + 1)
          still := by
      intro fingerprint still htaken text htext
      obtain ⟨version, hle, rest⟩ := htaken text htext
      exact ⟨version, Nat.le_succ_of_le hle, rest⟩
    have hbacked := h.backed
    show Backed fingerprintOf { s with version := s.version + 1 } s.health.background
    cases hcase : s.health.background with
    | unchanged =>
        rw [hcase] at hbacked
        exact hbacked
    | ready fingerprint =>
        rw [hcase] at hbacked
        exact ⟨hbacked.1, htaken _ _ hbacked.2⟩
    | collecting fingerprint base languages =>
        rw [hcase] at hbacked
        exact ⟨hbacked.1, htaken _ _ hbacked.2⟩
    | running fingerprint report =>
        rw [hcase] at hbacked
        exact hbacked
    | _ => trivial

include h in
/-- A notification makes the phase stale, and the computation that is under way dirty. -/
theorem notify {health : CodeHealth} {change now : Nat} (hle : change ≤ s.version)
    (hcalm : isUnchanged s.health.background = false)
    (hnext : s.health.step now s.version .modify = some health) :
    Inv fingerprintOf { s with
      health
      notified := change :: s.notified
      raced := s.raced || isReady s.health.background } := by
  cases hnext
  have hstale : (s.health.fields.notifyModified now).phase = .stale := by
    unfold Fields.notifyModified Fields.markStale
    split_ifs with hcomputing hphase hphase
    · exact hphase
    · rfl
    · exact hphase
    · rfl
  have hsame : Kept (if s.health.fields.computing then { s.health.fields with dirty := true }
      else s.health.fields) (s.health.fields.notifyModified now) := kept_markStale _ now
  have hlast : (s.health.fields.notifyModified now).lastFingerprint =
      s.health.fields.lastFingerprint := by
    rw [hsame.lastFingerprint]
    split_ifs <;> rfl
  have hreport : (s.health.fields.notifyModified now).report = s.health.fields.report := by
    rw [hsame.report]
    split_ifs <;> rfl
  have hcomputing : (s.health.fields.notifyModified now).computing =
      s.health.fields.computing := by
    rw [hsame.computing]
    split_ifs <;> rfl
  have hdirty : s.health.fields.computing = true →
      (s.health.fields.notifyModified now).dirty = true := by
    intro hcomputing
    rw [hsame.dirty, if_pos hcomputing]
  refine ⟨?_, hcomputing.trans h.computing, ?_, ⟨?_, ?_⟩, ?_⟩
  · intro other hother
    rcases List.mem_cons.1 hother with rfl | hother
    · exact hle
    · exact h.versions other hother
  · show ∀ text, (s.health.fields.notifyModified now).lastFingerprint = some text →
      ∃ report version, (s.health.fields.notifyModified now).report = some report ∧ _
    rw [hlast, hreport]
    exact h.last
  · intro hfresh
    rw [show (s.health.fields.notifyModified now).phase = .fresh from hfresh] at hstale
    cases hstale
  · intro hfresh
    rw [show (s.health.fields.notifyModified now).phase = .fresh from hfresh] at hstale
    cases hstale
  · have hbacked := h.backed
    show Backed fingerprintOf _ s.health.background
    cases hcase : s.health.background with
    | unchanged =>
        rw [hcase] at hcalm
        cases hcalm
    | ready fingerprint =>
        rw [hcase] at hbacked
        have hraced : ¬(s.raced || isReady (.ready fingerprint)) = false := by simp [isReady]
        exact ⟨fun hfalse => absurd hfalse hraced, hbacked.2.void hraced⟩
    | collecting fingerprint base languages =>
        rw [hcase] at hbacked
        have hclean : ¬(s.health.fields.notifyModified now).dirty = false := by
          rw [hdirty (by rw [h.computing, hcase]; rfl)]
          simp
        exact ⟨fun hfalse => absurd hfalse hclean, hbacked.2.void fun hboth => hclean hboth.1⟩
    | running fingerprint report =>
        rw [hcase] at hbacked
        have hclean : ¬(s.health.fields.notifyModified now).dirty = false := by
          rw [hdirty (by rw [h.computing, hcase]; rfl)]
          simp
        exact ⟨fun hfalse => absurd hfalse hclean, hbacked.2.void fun hboth => hclean hboth.1⟩
    | _ => trivial

include h in
/-- The fingerprint is read, and is compared with that of the report. -/
theorem fingerprint (hinj : Function.Injective fingerprintOf) {health : CodeHealth}
    {fingerprint : Option Fingerprint} {now : Nat}
    (hallowed : s.allows fingerprintOf (.fingerprint fingerprint) = true)
    (hnext : s.health.step now s.version (.fingerprint fingerprint) = some health) :
    Inv fingerprintOf { s with health, read := s.notified.length, raced := false } := by
  have htext : ∀ text, fingerprint = some text → text = fingerprintOf s.version := by
    rintro text rfl
    simpa [State.allows] using hallowed
  dsimp only [CodeHealth.step, cycle] at hnext
  split at hnext
  · rename_i forced hbackground
    cases hnext
    have hidle : s.health.background.computes = false := by
      rw [hbackground]
      rfl
    split_ifs with hsees
    · refine h.plain (.refl _) hidle rfl ⟨rfl, ?_⟩
      simp only [Bool.and_eq_true, Fields.sees, beq_iff_eq] at hsees
      obtain ⟨text, hsome⟩ := Option.isSome_iff_exists.1 hsees.2.1
      obtain ⟨report, version, hreport, hversion, hle⟩ :=
        h.last text (hsees.2.2.symm.trans hsome)
      rw [htext text hsome] at hversion
      have heq : s.version = version := hinj hversion
      refine ⟨report, hreport, fun change hchange => ?_⟩
      have := h.versions change hchange
      omega
    · refine h.plain (.refl _) hidle rfl ⟨fun _ => rfl, ?_⟩
      intro text hsome
      exact ⟨s.version, Nat.le_refl _, htext text hsome, fun _ => h.versions⟩
  · cases hnext

include h in
/-- The old report is fresh again. -/
theorem markFresh {health : CodeHealth} {now : Nat}
    (hnext : s.health.step now s.version .markFresh = some health) :
    Inv fingerprintOf { s with health, justified := s.read } := by
  dsimp only [CodeHealth.step, cycle] at hnext
  split at hnext
  · rename_i hbackground
    cases hnext
    have hbacked := h.backed
    have hcomputing := h.computing
    rw [hbackground] at hbacked hcomputing
    have hfields : s.health.fields.markFresh =
        { s.health.fields with phase := .fresh, staleSince := none } := by
      unfold Fields.markFresh
      rw [if_neg (by rw [hcomputing]; simp [Background.computes])]
    rw [hfields]
    exact ⟨h.versions, hcomputing, h.last, ⟨fun _ => hbacked.1, fun _ => hbacked.2⟩, trivial⟩
  · cases hnext

include h in
/-- The computation starts. -/
theorem begin_ {health : CodeHealth} {now : Nat}
    (hnext : s.health.step now s.version .begin = some health) :
    Inv fingerprintOf { s with health, started := s.notified.length } := by
  dsimp only [CodeHealth.step, cycle] at hnext
  split at hnext
  · rename_i fingerprint hbackground
    cases hnext
    have hbacked := h.backed
    rw [hbackground] at hbacked
    have hphase : s.health.fields.begin.phase ≠ .fresh := by
      unfold Fields.begin
      dsimp only
      split_ifs <;> simp
    refine ⟨h.versions, rfl, h.last, ⟨fun hfresh => absurd hfresh hphase,
      fun hfresh => absurd hfresh hphase⟩, ⟨fun _ => ⟨rfl, hbacked.1⟩, ?_⟩⟩
    intro text htext
    obtain ⟨version, hle, heq, hstill⟩ := hbacked.2 text htext
    exact ⟨version, hle, heq, fun hclean => hstill hclean.2⟩
  · cases hnext

include h in
/-- The checks start. -/
theorem run {health : CodeHealth} {now : Nat}
    (hnext : s.health.step now s.version .run = some health) :
    Inv fingerprintOf { s with health } := by
  dsimp only [CodeHealth.step, cycle] at hnext
  split at hnext
  · rename_i fingerprint base languages hbackground
    cases hnext
    have hbacked := h.backed
    have hcomputing := h.computing
    rw [hbackground] at hbacked hcomputing
    refine ⟨h.versions, hcomputing, h.last, ⟨h.honest.unnotified, h.honest.covered⟩, ?_, ?_⟩
    · intro hclean
      obtain ⟨hstarted, hread⟩ := hbacked.1 hclean
      exact ⟨hstarted, hread, h.versions⟩
    · exact hbacked.2
  · cases hnext

include h in
/-- The new report is published. -/
theorem publish {health : CodeHealth} {now : Nat}
    (hnext : s.health.step now s.version (.finish true) = some health) :
    Inv fingerprintOf { s with health, justified := s.started } := by
  dsimp only [CodeHealth.step, cycle] at hnext
  split at hnext
  · rename_i fingerprint report hbackground
    cases hnext
    have hbacked := h.backed
    rw [hbackground] at hbacked
    have hclean : (s.health.fields.publish now fingerprint report).phase = .fresh →
        s.health.fields.dirty = false := by
      intro hfresh
      cases hdirty : s.health.fields.dirty with
      | false => rfl
      | true =>
          unfold Fields.publish at hfresh
          rw [hdirty] at hfresh
          cases hfresh
    refine ⟨h.versions, rfl, ?_, ⟨?_, ?_⟩, trivial⟩
    · intro text htext
      obtain ⟨version, hle, heq, -⟩ := hbacked.2 text htext
      exact ⟨report, version, rfl, heq, hle⟩
    · intro hfresh
      exact (hbacked.1 (hclean hfresh)).1
    · intro hfresh
      exact ⟨report, rfl, (hbacked.1 (hclean hfresh)).2.2⟩
  · cases hnext

include h in
/-- The computation has failed. -/
theorem fail (hinj : Function.Injective fingerprintOf) {health : CodeHealth} {now : Nat}
    (hcalm : s.raced = true → restores s = false)
    (hnext : s.health.step now s.version (.finish false) = some health) :
    Inv fingerprintOf { s with health, justified := s.read } := by
  dsimp only [CodeHealth.step, cycle] at hnext
  split at hnext
  · rename_i fingerprint running hbackground
    cases hnext
    have hbacked := h.backed
    rw [hbackground] at hbacked
    have hrestores : restores s = (s.health.fields.sees fingerprint &&
        s.health.fields.report.isSome && !s.health.fields.dirty) := by
      unfold restores
      rw [hbackground]
    by_cases hrestored : restores s = true
    · have hfail : s.health.fields.fail now fingerprint =
          { s.health.fields with computing := false, phase := .fresh, staleSince := none } := by
        unfold Fields.fail
        rw [hrestores] at hrestored
        exact if_pos hrestored
      have hraced : s.raced = false := by
        cases hraced : s.raced with
        | false => rfl
        | true =>
            rw [hcalm hraced] at hrestored
            cases hrestored
      rw [hrestores] at hrestored
      simp only [Bool.and_eq_true, Fields.sees, beq_iff_eq, Bool.not_eq_true'] at hrestored
      obtain ⟨⟨⟨hsome, hsame⟩, -⟩, hdirty⟩ := hrestored
      obtain ⟨-, hread, -⟩ := hbacked.1 hdirty
      obtain ⟨text, htext⟩ := Option.isSome_iff_exists.1 hsome
      obtain ⟨report, version, hreport, hversion, hle⟩ := h.last text (hsame.symm.trans htext)
      obtain ⟨seen, -, hseen, hstill⟩ := hbacked.2 text htext
      have heq : seen = version := hinj (hseen.symm.trans hversion)
      rw [hfail]
      refine ⟨h.versions, rfl, h.last, ⟨fun _ => hread hraced, fun _ => ⟨report, hreport, ?_⟩⟩,
        trivial⟩
      intro change hchange
      have := hstill ⟨hdirty, hraced⟩ change hchange
      omega
    · have hfail : s.health.fields.fail now fingerprint =
          Fields.markStale { s.health.fields with computing := false } now := by
        unfold Fields.fail
        rw [hrestores] at hrestored
        exact if_neg hrestored
      have hstale : (s.health.fields.fail now fingerprint).phase ≠ .fresh := by
        rw [hfail]
        unfold Fields.markStale
        split_ifs with hphase
        · rw [hphase]
          simp
        · simp
      have hkept := kept_markStale { s.health.fields with computing := false } now
      rw [← hfail] at hkept
      refine ⟨h.versions, hkept.computing, ?_, ⟨fun hfresh => absurd hfresh hstale,
        fun hfresh => absurd hfresh hstale⟩, trivial⟩
      show ∀ text, (s.health.fields.fail now fingerprint).lastFingerprint = some text →
        ∃ report version, (s.health.fields.fail now fingerprint).report = some report ∧ _
      rw [hkept.lastFingerprint, hkept.report]
      exact h.last
  · cases hnext

end Inv

/-! ## Every run -/

theorem inv_act (hinj : Function.Injective fingerprintOf) (h : Inv fingerprintOf s)
    {l : CodeHealth.Label} {health : CodeHealth} {now : Nat}
    (hallowed : s.allows fingerprintOf l = true) (hcalm : Undisturbed s (.act l now))
    (hnext : s.health.step now s.version l = some health) :
    Inv fingerprintOf { s.note l with health } := by
  cases l with
  | modify => cases hallowed
  | refresh base languages =>
      cases hnext
      exact h.kept ⟨.inl rfl, rfl, rfl, rfl, rfl⟩ rfl
  | send event =>
      dsimp only [CodeHealth.step] at hnext
      split_ifs at hnext
      cases hnext
      exact h.kept (.refl _) rfl
  | boot present =>
      dsimp only [CodeHealth.step, cycle] at hnext
      split at hnext
      · rename_i hbackground
        cases hnext
        have hidle : s.health.background.computes = false := congrArg (·.computes) hbackground
        cases present <;> exact h.plain (.refl _) hidle rfl trivial
      · cases hnext
  | recv =>
      dsimp only [CodeHealth.step, cycle] at hnext
      split at hnext
      · rename_i event queue hbackground hqueue
        cases hnext
        have hidle : s.health.background.computes = false := congrArg (·.computes) hbackground
        cases event <;> exact h.plain (.refl _) hidle rfl trivial
      · cases hnext
  | poll fingerprint =>
      dsimp only [CodeHealth.step, cycle] at hnext
      split at hnext
      · rename_i hbackground
        cases hnext
        have hidle : s.health.background.computes = false := congrArg (·.computes) hbackground
        split_ifs <;> exact h.plain (.refl _) hidle rfl trivial
      · cases hnext
  | worktree present =>
      dsimp only [CodeHealth.step, cycle] at hnext
      split at hnext
      · rename_i hbackground
        have hidle : s.health.background.computes = false := congrArg (·.computes) hbackground
        split_ifs at hnext
        · cases hnext
          exact h.plain (kept_markStale _ now) hidle rfl trivial
        · cases hnext
          exact h.plain (.refl _) hidle rfl trivial
      · cases hnext
  | cool =>
      dsimp only [CodeHealth.step, cycle] at hnext
      split at hnext
      · rename_i event queue hbackground hqueue
        cases hnext
        have hidle : s.health.background.computes = false := congrArg (·.computes) hbackground
        cases event <;> exact h.plain (.refl _) hidle rfl trivial
      · cases hnext
  | calm =>
      dsimp only [CodeHealth.step, cycle] at hnext
      split at hnext
      · rename_i hbackground
        cases hnext
        have hidle : s.health.background.computes = false := congrArg (·.computes) hbackground
        exact h.plain (.refl _) hidle rfl trivial
      · cases hnext
  | fingerprint fingerprint => exact h.fingerprint hinj hallowed hnext
  | markFresh => exact h.markFresh hnext
  | begin => exact h.begin_ hnext
  | run => exact h.run hnext
  | finish ok =>
      cases ok with
      | true => exact h.publish hnext
      | false => exact h.fail hinj hcalm hnext

theorem inv_step (hinj : Function.Injective fingerprintOf) (h : Inv fingerprintOf s)
    {label : Label} {s' : State} (hcalm : Undisturbed s label)
    (hnext : step fingerprintOf s label = some s') : Inv fingerprintOf s' := by
  cases label with
  | change =>
      cases hnext
      exact h.change
  | notify change now =>
      dsimp only [step] at hnext
      split_ifs at hnext with hle
      obtain ⟨health, hhealth, rfl⟩ := Option.map_eq_some_iff.1 hnext
      exact h.notify hle hcalm hhealth
  | act l now =>
      dsimp only [step] at hnext
      split_ifs at hnext with hallowed
      obtain ⟨health, hhealth, rfl⟩ := Option.map_eq_some_iff.1 hnext
      exact inv_act hinj h hallowed hcalm hhealth

/-- While the fingerprint of a version is not that of another one, and nothing is notified
between a fingerprint and the phase that it justifies, the phase is honest. -/
theorem honest_of_run (hinj : Function.Injective fingerprintOf) {base : Option Ref}
    {labels : List Label} (h : Run (step fingerprintOf) Undisturbed (.init base) labels s) :
    Honest s :=
  (h.invariant (inv_init base) fun _ _ _ hinv hcalm hnext => inv_step hinj hinv hcalm hnext).honest

end Invariant

/-! ## A notification that is lost -/

/-- A fingerprint for each version. -/
def versionText (version : Nat) : Fingerprint := List.replicate version 'v'

theorem versionText_injective : Function.Injective versionText := by
  intro v w heq
  have := congrArg List.length heq
  rwa [versionText, versionText, List.length_replicate, List.length_replicate] at this

/-- Version 1 is notified while its report is computed, and the task takes that event, waits, and
sees that the fingerprint is that of the report. -/
def seenAgain : List Label :=
  [.change, .act (.boot true) 0, .act (.fingerprint (some ['v'])) 0, .act .begin 0, .act .run 0,
    .notify 1 0, .act (.finish true) 0, .act (.send .modified) 0, .act .recv 0, .act .calm 0,
    .act (.fingerprint (some ['v'])) 0]

/-- The report of version 1 is fresh again, and then a refresh reads its fingerprint. -/
def refreshed : List Label :=
  seenAgain ++ [.act .markFresh 0, .act (.refresh none none) 0, .act (.send .refresh) 0,
    .act .recv 0, .act (.fingerprint (some ['v'])) 0]

theorem honest_of_run_seenAgain :
    ∃ s, Run (step versionText) Undisturbed (.init none) (seenAgain ++ [.act .markFresh 0]) s ∧
      s.health.fields.phase = .fresh ∧ Honest s := by
  obtain ⟨s, hrun, htest⟩ := Run.exists_of_exec
    (fun s : State => decide (s.health.fields.phase = .fresh))
    (show (exec (step versionText) Undisturbed (.init none)
      (seenAgain ++ [.act .markFresh 0])).any _ = true by decide +kernel)
  exact ⟨s, hrun, by simpa using htest, honest_of_run versionText_injective hrun⟩

/-- The phase is fresh, and something has been notified since its reason. -/
def dishonest (s : State) : Bool :=
  decide (s.health.fields.phase = .fresh) && s.justified != s.notified.length

theorem not_honest_of_dishonest {s : State} (h : dishonest s = true) : ¬Honest s := by
  intro hhonest
  simp only [dishonest, Bool.and_eq_true, decide_eq_true_eq, bne_iff_ne] at h
  exact h.2 (hhonest.unnotified h.1)

/-- Version 2 is notified after the fingerprint of version 1 has been read: right before
`mark_fresh`, and right before a computation that fails. -/
theorem honest_fails :
    (∃ s, Run (step versionText) free (.init none)
      (seenAgain ++ [.change, .notify 2 0, .act .markFresh 0]) s ∧ dishonest s = true ∧
        ¬Honest s) ∧
    ∃ s, Run (step versionText) free (.init none)
      (refreshed ++ [.change, .notify 2 0, .act .begin 0, .act .run 0, .act (.finish false) 0]) s ∧
        dishonest s = true ∧ ¬Honest s := by
  refine ⟨?_, ?_⟩
  · obtain ⟨s, hrun, htest⟩ := Run.exists_of_exec dishonest
      (show (exec (step versionText) free (.init none)
        (seenAgain ++ [.change, .notify 2 0, .act .markFresh 0])).any _ = true by decide +kernel)
    exact ⟨s, hrun, htest, not_honest_of_dishonest htest⟩
  · obtain ⟨s, hrun, htest⟩ := Run.exists_of_exec dishonest
      (show (exec (step versionText) free (.init none)
        (refreshed ++ [.change, .notify 2 0, .act .begin 0, .act .run 0,
          .act (.finish false) 0])).any _ = true by decide +kernel)
    exact ⟨s, hrun, htest, not_honest_of_dishonest htest⟩

end Vanyline.Sandbox.HealthFreshness
