import Mathlib.Logic.Function.Basic
import Vanyline.Lib.Program
import Vanyline.Lib.Run

/-!
# Programs that run side by side

Any number of calls run at the same time, each a program, and share a world that
answers their requests one at a time.  The order is arbitrary, and so is what the
environment decides about an answer (the outcome `O`); between the requests the
world makes moves of its own.

* `Pool.step` is the transition system: a call is started, the next request of a
  call is served, or the world moves.
* `Valid` says that every call is on a path of its program, so what its program
  `Meets` holds of a call that has ended (`Valid.meets`).
* `Pool.Facts` is the induction rule for an invariant of the world together with a
  fact about every exchange, which holds when the exchange is made and is kept
  from then on.
-/

namespace Vanyline.Lib

universe u v w

variable {Q : Type u} {A : Q → Type v} {ε : Type*} {α : Type w}

/-- What the calls share: how it answers a request, and its own moves. -/
structure World (W : Type*) (Q : Type u) (A : Q → Type v) (O X : Type*) where
  serve : W → (q : Q) → O → Option (W × A q)
  move : W → X → Option W

/-- A call on its way: what is called, the rest of the program, and the
exchanges so far, newest first. -/
structure Thread (C : Type*) (Q : Type u) (A : Q → Type v) (ε : Type*) (α : Type w) where
  call : C
  rest : Program Q A ε α
  past : List (Exchange A)

/-- The world and the calls. -/
structure Pool (W ι C : Type*) (Q : Type u) (A : Q → Type v) (ε : Type*) (α : Type w) where
  world : W
  threads : ι → Option (Thread C Q A ε α)

inductive PoolAction (ι C O X : Type*)
  | start (i : ι) (call : C)
  | serve (i : ι) (outcome : O)
  | move (x : X)
  deriving DecidableEq

namespace Pool

variable {W ι C O X : Type*} [DecidableEq ι]

/-- One step of the pool; `program` is the program of a call. -/
def step (sys : World W Q A O X) (program : C → Program Q A ε α) (s : Pool W ι C Q A ε α) :
    PoolAction ι C O X → Option (Pool W ι C Q A ε α)
  | .start i call =>
      match s.threads i with
      | none => some { s with threads := Function.update s.threads i (some ⟨call, program call, []⟩) }
      | some _ => none
  | .serve i outcome =>
      match s.threads i with
      | some ⟨call, .ask q next, past⟩ =>
          match sys.serve s.world q outcome with
          | some (world, x) => some ⟨world,
              Function.update s.threads i (some ⟨call, next x, ⟨q, x⟩ :: past⟩)⟩
          | none => none
      | _ => none
  | .move x => (sys.move s.world x).map fun world => { s with world }

/-- Nothing has been called. -/
def init (world : W) : Pool W ι C Q A ε α := ⟨world, fun _ => none⟩

variable {sys : World W Q A O X} {program : C → Program Q A ε α} {s t : Pool W ι C Q A ε α}

/-- What one step does. -/
theorem step_cases {a : PoolAction ι C O X} (h : step sys program s a = some t) :
    (∃ i call, a = .start i call ∧ s.threads i = none ∧
      t = { s with threads := Function.update s.threads i (some ⟨call, program call, []⟩) }) ∨
    (∃ i outcome call q next past world x, a = .serve i outcome ∧
      s.threads i = some ⟨call, .ask q next, past⟩ ∧
      sys.serve s.world q outcome = some (world, x) ∧
      t = ⟨world, Function.update s.threads i (some ⟨call, next x, ⟨q, x⟩ :: past⟩)⟩) ∨
    (∃ x world, a = .move x ∧ sys.move s.world x = some world ∧ t = { s with world }) := by
  cases a with
  | start i call =>
      simp only [step] at h
      split at h
      · next hnone =>
        simp only [Option.some.injEq] at h
        exact .inl ⟨i, call, rfl, hnone, h.symm⟩
      · cases h
  | serve i outcome =>
      simp only [step] at h
      split at h
      · next call q next past hthread =>
        split at h
        · next world x hserve =>
          simp only [Option.some.injEq] at h
          exact .inr (.inl ⟨i, outcome, call, q, next, past, world, x, rfl, hthread, hserve, h.symm⟩)
        · cases h
      · cases h
  | move x =>
      simp only [step, Option.map_eq_some_iff] at h
      obtain ⟨world, hmove, rfl⟩ := h
      exact .inr (.inr ⟨x, world, rfl, hmove, rfl⟩)

/-- What the calls have, and the new call has, the calls have after the update. -/
theorem threads_update {P : Thread C Q A ε α → Prop} {threads : ι → Option (Thread C Q A ε α)}
    {i : ι} {new : Thread C Q A ε α} (hnew : P new) (h : ∀ j thread, threads j = some thread → P thread) :
    ∀ j thread, Function.update threads i (some new) j = some thread → P thread := by
  intro j thread hj
  by_cases hji : j = i
  · subst hji
    rw [Function.update_self, Option.some.injEq] at hj
    exact hj ▸ hnew
  · rw [Function.update_of_ne hji] at hj
    exact h j thread hj

/-! ## Calls follow their programs -/

/-- Every call goes on as its program does from the exchanges it has made. -/
def Valid (program : C → Program Q A ε α) (s : Pool W ι C Q A ε α) : Prop :=
  ∀ i thread, s.threads i = some thread → ∀ es r, thread.rest.Path thread.past es r →
    (program thread.call).Path [] es r

omit [DecidableEq ι] in
theorem valid_init {world : W} : Valid program (init world : Pool W ι C Q A ε α) := by
  intro i thread h
  cases h

theorem valid_step {a : PoolAction ι C O X} (hs : Valid program s)
    (h : step sys program s a = some t) : Valid program t := by
  rcases step_cases h with ⟨i, call, -, -, rfl⟩ |
    ⟨i, outcome, call, q, next, past, world, x, -, hthread, -, rfl⟩ | ⟨x, world, -, -, rfl⟩
  · exact threads_update (fun es r hpath => hpath) hs
  · exact threads_update (fun es r hpath => hs i _ hthread es r (.ask x hpath)) hs
  · exact hs

omit [DecidableEq ι] in
/-- What a program meets, its calls that have ended meet. -/
theorem Valid.meets (hs : Valid program s) {i : ι} {call : C} {r : Except ε α}
    {past : List (Exchange A)} (hthread : s.threads i = some ⟨call, .done r, past⟩)
    {P : List (Exchange A) → Except ε α → Prop} (h : (program call).Meets P []) : P past r :=
  Program.meets_iff.1 h past r (hs i _ hthread past r .done)

variable {ok : Pool W ι C Q A ε α → PoolAction ι C O X → Prop} {outcome : O} {oracle : ∀ q, A q}

/-- A call that nobody else disturbs runs to its end, when the world answers as an
oracle and stays as it is. -/
theorem run_answered (hok : ∀ s i, ok s (.serve i outcome)) {i : ι} {call : C}
    {p : Program Q A ε α} {past : List (Exchange A)} (s : Pool W ι C Q A ε α)
    (hserve : ∀ q, sys.serve s.world q outcome = some (s.world, oracle q))
    (hi : s.threads i = some ⟨call, p, past⟩) :
    ∃ as t, Run (step sys program) ok s as t ∧ t.threads i =
      some ⟨call, .done (p.answered oracle past).2, (p.answered oracle past).1⟩ := by
  induction p generalizing s past with
  | done r => exact ⟨[], s, .nil, hi⟩
  | ask q next ih =>
      let u : Pool W ι C Q A ε α := ⟨s.world, Function.update s.threads i
        (some ⟨call, next (oracle q), ⟨q, oracle q⟩ :: past⟩)⟩
      have hstep : step sys program s (.serve i outcome) = some u := by
        simp only [step, hi, hserve, u]
      obtain ⟨as, t, hrun, ht⟩ := ih (oracle q) u hserve (Function.update_self i _ s.threads)
      exact ⟨_, t, (Run.single (hok s i) hstep).append hrun, ht⟩

/-- Every call has a run that follows the oracle from the start. -/
theorem exists_run_answered (program : C → Program Q A ε α) {world : W}
    (hok : ∀ s i, ok s (.serve i outcome)) (hstart : ∀ s i call, ok s (.start i call))
    (hserve : ∀ q, sys.serve world q outcome = some (world, oracle q)) (i : ι) (call : C) :
    ∃ as t, Run (step sys program) ok (init world) as t ∧ t.threads i =
      some ⟨call, .done ((program call).answered oracle []).2,
        ((program call).answered oracle []).1⟩ := by
  let u : Pool W ι C Q A ε α :=
    ⟨world, Function.update (fun _ => none) i (some ⟨call, program call, []⟩)⟩
  have hstep : step sys program (init world) (.start i call) = some u := rfl
  have hi : u.threads i = some ⟨call, program call, []⟩ := by simp [u]
  obtain ⟨as, t, hrun, ht⟩ := run_answered hok u hserve hi
  exact ⟨_, t, (Run.single (hstart _ i call) hstep).append hrun, ht⟩

/-! ## Moments of a run -/

/-- At some moment of the run from `s` to `t`, while the call `i` is on its way, the
world is as `P` says. -/
def During (sys : World W Q A O X) (program : C → Program Q A ε α) (s : Pool W ι C Q A ε α)
    (as : List (PoolAction ι C O X)) (t : Pool W ι C Q A ε α) (i : ι) (P : W → Prop) : Prop :=
  ∃ bs cs u call q next past, as = bs ++ cs ∧ Run (step sys program) free s bs u ∧
    Run (step sys program) free u cs t ∧ u.threads i = some ⟨call, .ask q next, past⟩ ∧ P u.world

/-- Every exchange of a call was made at some moment of a run that starts without calls;
what holds in every state of the run holds at that moment. -/
theorem exchange_during {I : Pool W ι C Q A ε α → Prop} {world : W}
    {as : List (PoolAction ι C O X)} (hinit : I (init world))
    (hstep : ∀ s a u, I s → ok s a → step sys program s a = some u → I u)
    (h : Run (step sys program) ok (init world) as t) {i : ι} {thread : Thread C Q A ε α}
    (hi : t.threads i = some thread) {e : Exchange A} (he : e ∈ thread.past) {P : W → Prop}
    (hP : ∀ u outcome world', I u → sys.serve u.world e.1 outcome = some (world', e.2) → P u.world) :
    During sys program (init world) as t i P := by
  induction h generalizing thread with
  | nil => cases hi
  | @snoc as s t a hrun hok hnext ih =>
      have hfree := hrun.mono fun _ _ _ => trivial
      have hearlier : ∀ thread', s.threads i = some thread' → e ∈ thread'.past →
          During sys program (init world) (as ++ [a]) t i P := by
        intro thread' hi' he'
        obtain ⟨bs, cs, u, call, q, next, past, rfl, hbs, hcs, hu, hP⟩ := ih hi' he'
        exact ⟨bs, cs ++ [a], u, call, q, next, past, by rw [List.append_assoc], hbs,
          .snoc hcs trivial hnext, hu, hP⟩
      rcases step_cases hnext with ⟨j, call, -, -, rfl⟩ |
        ⟨j, outcome, call, q, next, past, world', x, -, hthread, hserve, rfl⟩ | ⟨x, world', -, -, rfl⟩
      · by_cases hij : i = j
        · subst hij
          simp only [Function.update_self, Option.some.injEq] at hi
          subst hi
          cases he
        · simp only [Function.update_of_ne hij] at hi
          exact hearlier thread hi he
      · by_cases hij : i = j
        · subst hij
          simp only [Function.update_self, Option.some.injEq] at hi
          subst hi
          rcases List.mem_cons.1 he with rfl | he
          · exact ⟨as, [a], s, call, q, next, past, rfl, hfree, .single trivial hnext, hthread,
              hP s outcome world' (hrun.invariant hinit hstep) hserve⟩
          · exact hearlier _ hthread he
        · simp only [Function.update_of_ne hij] at hi
          exact hearlier thread hi he
      · exact hearlier thread hi he

/-! ## Facts about exchanges -/

/-- An invariant of the world, and a fact about every exchange of every call. -/
structure Facts (I : W → Prop) (Fact : W → Exchange A → Prop) (s : Pool W ι C Q A ε α) : Prop where
  world : I s.world
  past : ∀ i thread, s.threads i = some thread → ∀ e ∈ thread.past, Fact s.world e

variable {I : W → Prop} {Fact : W → Exchange A → Prop}

omit [DecidableEq ι] in
theorem facts_init {world : W} (h : I world) : Facts I Fact (init world : Pool W ι C Q A ε α) where
  world := h
  past := by
    intro i thread hthread
    cases hthread

/-- A served request keeps the invariant, establishes the fact about itself and keeps
the other facts; a move of the world keeps both. -/
theorem facts_step {a : PoolAction ι C O X} (hs : Facts I Fact s)
    (hserve : ∀ i outcome call q next past world x, a = .serve i outcome →
      s.threads i = some ⟨call, .ask q next, past⟩ → sys.serve s.world q outcome = some (world, x) →
      I world ∧ Fact world ⟨q, x⟩ ∧ ∀ e, Fact s.world e → Fact world e)
    (hmove : ∀ x world, a = .move x → sys.move s.world x = some world →
      I world ∧ ∀ e, Fact s.world e → Fact world e)
    (h : step sys program s a = some t) : Facts I Fact t := by
  rcases step_cases h with ⟨i, call, -, -, rfl⟩ |
    ⟨i, outcome, call, q, next, past, world, x, ha, hthread, hq, rfl⟩ | ⟨x, world, ha, hx, rfl⟩
  · refine ⟨hs.world, threads_update ?_ hs.past⟩
    intro e he
    cases he
  · obtain ⟨hI, hfact, hkeep⟩ := hserve i outcome call q next past world x ha hthread hq
    refine ⟨hI, threads_update ?_ fun j thread hj e he => hkeep e (hs.past j thread hj e he)⟩
    intro e he
    rcases List.mem_cons.1 he with rfl | he
    · exact hfact
    · exact hkeep e (hs.past i _ hthread e he)
  · obtain ⟨hI, hkeep⟩ := hmove x world ha hx
    exact ⟨hI, fun i thread hthread e he => hkeep e (hs.past i thread hthread e he)⟩

end Pool

end Vanyline.Lib
