import Mathlib.Data.List.Basic

/-!
# Runs of a labelled transition system

A component is modelled as a partial step function `step : σ → α → Option σ`:
the label says which atomic step is taken, by whom and with which outcome of
the environment, and `none` means that the step is not enabled.  A run is a
list of labels whose steps are all enabled.

Runs carry a guard `ok : σ → α → Prop` on the state before each step.  `Run
step ok` is the runs whose steps all meet the guard.  With the guard `free`
these are all the runs of the system.

* `Run.invariant` is the induction rule: what the initial state has and every
  guarded step keeps, every state of a run has.
* `Run.relation` is the same rule for a relation between the first and the
  last state.
* `Run.of_exec` and `Run.exists_of_exec` turn a concrete list of labels that
  executes into a run, and `Run.exec_eq` is the converse.

A log of what one side of a connection has received is checked by an automaton,
which either goes on with each entry or rejects it (`monitor`).
-/

namespace Vanyline.Lib

variable {σ α : Type*}

/-- The guard that allows every step. -/
def free (_ : σ) (_ : α) : Prop := True

/-- `Run step ok s as t`: the labels `as`, taken in order from `s`, lead to
`t`, and each of them is taken in a state where the guard allows it. -/
inductive Run (step : σ → α → Option σ) (ok : σ → α → Prop) (s : σ) : List α → σ → Prop
  | nil : Run step ok s [] s
  | snoc {as : List α} {t u : σ} {a : α} (run : Run step ok s as t) (guard : ok t a)
      (next : step t a = some u) : Run step ok s (as ++ [a]) u

instance (s : σ) (a : α) : Decidable (free s a) := isTrue trivial

/-- Take the labels one after the other, as long as the guard allows them. -/
def exec (step : σ → α → Option σ) (ok : σ → α → Prop) [∀ s a, Decidable (ok s a)] (s : σ) :
    List α → Option σ
  | [] => some s
  | a :: as => if ok s a then (step s a).bind fun t => exec step ok t as else none

variable {step : σ → α → Option σ} {ok ok' : σ → α → Prop} {s t u : σ}

/-! ## Monitors -/

/-- The state of the automaton after the events, oldest first, if it takes them. -/
def monitor (accept : σ → α → Option σ) (start : σ) (events : List α) : Option σ :=
  events.foldlM accept start

@[simp] theorem monitor_nil (accept : σ → α → Option σ) (start : σ) :
    monitor accept start [] = some start := rfl

/-- One more event. -/
theorem monitor_concat {accept : σ → α → Option σ} {events : List α}
    (h : monitor accept s events = some t) (e : α) :
    monitor accept s (events ++ [e]) = accept t e := by
  rw [monitor, List.foldlM_append, ← monitor, h]
  simp

/-! ## Runs -/

namespace Run

/-- What the first state has and every guarded step keeps, the last state
has. -/
theorem invariant {I : σ → Prop} (hinit : I s)
    (hstep : ∀ t a u, I t → ok t a → step t a = some u → I u)
    {as : List α} (hrun : Run step ok s as t) : I t := by
  induction hrun with
  | nil => exact hinit
  | snoc _ hok hnext ih => exact hstep _ _ _ ih hok hnext

/-- A reflexive and transitive relation that holds across every guarded step
from a state with the invariant holds across the run. -/
theorem relation {I : σ → Prop} {R : σ → σ → Prop} (hinit : I s)
    (hstep : ∀ t a u, I t → ok t a → step t a = some u → I u)
    (hrefl : ∀ x, R x x) (htrans : ∀ x y z, R x y → R y z → R x z)
    (hrel : ∀ t a u, I t → ok t a → step t a = some u → R t u)
    {as : List α} (hrun : Run step ok s as t) : R s t := by
  induction hrun with
  | nil => exact hrefl _
  | snoc run hok hnext ih =>
      exact htrans _ _ _ ih (hrel _ _ _ (invariant hinit hstep run) hok hnext)

/-- A weaker guard allows the run too. -/
theorem mono (h : ∀ t a, ok t a → ok' t a) {as : List α} (hrun : Run step ok s as t) :
    Run step ok' s as t := by
  induction hrun with
  | nil => exact .nil
  | snoc _ hok hnext ih => exact .snoc ih (h _ _ hok) hnext

/-- One guarded step is a run. -/
theorem single {a : α} (hok : ok s a) (hnext : step s a = some t) : Run step ok s [a] t :=
  .snoc .nil hok hnext

/-- Two runs after each other are a run. -/
theorem append {as bs : List α} (hleft : Run step ok s as t) (hright : Run step ok t bs u) :
    Run step ok s (as ++ bs) u := by
  induction hright with
  | nil => simpa using hleft
  | snoc _ hok hnext ih =>
      rw [← List.append_assoc]
      exact .snoc ih hok hnext

variable [∀ s a, Decidable (ok s a)]

/-- A list of labels that executes is a run. -/
theorem of_exec {as : List α} (h : exec step ok s as = some t) : Run step ok s as t := by
  induction as generalizing s with
  | nil =>
      simp only [exec, Option.some.injEq] at h
      subst h
      exact .nil
  | cons a as ih =>
      simp only [exec] at h
      split_ifs at h with hok
      obtain ⟨v, hnext, hrest⟩ := Option.bind_eq_some_iff.1 h
      exact append (single hok hnext) (ih hrest)

theorem exec_concat (as : List α) (a : α) (s : σ) : exec step ok s (as ++ [a]) =
    (exec step ok s as).bind fun t => if ok t a then step t a else none := by
  induction as generalizing s with
  | nil =>
      simp only [List.nil_append, exec, Option.bind_some]
      split_ifs
      · exact Option.bind_fun_some _
      · rfl
  | cons b as ih =>
      simp only [List.cons_append, exec]
      split_ifs
      · rw [Option.bind_assoc]
        exact congrArg _ (funext fun t => ih t)
      · rfl

/-- The labels of a run execute. -/
theorem exec_eq {as : List α} (h : Run step ok s as t) : exec step ok s as = some t := by
  induction h with
  | nil => rfl
  | snoc _ hok hnext ih => rw [exec_concat, ih, Option.bind_some, if_pos hok, hnext]

/-- A concrete run to a state that passes a test. -/
theorem exists_of_exec (test : σ → Bool) {as : List α}
    (h : (exec step ok s as).any test = true) : ∃ t, Run step ok s as t ∧ test t = true := by
  obtain ⟨t, hexec, htest⟩ := Option.any_eq_true _ _ |>.1 h
  exact ⟨t, of_exec hexec, htest⟩

end Run

end Vanyline.Lib
