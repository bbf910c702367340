import Mathlib.Logic.Basic

/-!
# Computations with a state that an error keeps

An `Effect` reads and changes a state.  It ends with a value or with an error, and in both
cases with the state as it is then: an error takes nothing back.

* `read` and `change` are the two ways to use the state.  A `change` that fails has done
  nothing; a sequence of changes that fails may have done something.
* `ReadOnly` computations never change the state.  `Atomic` ones change it only when they
  succeed, and `Atomic.bind` puts them together: before the last step that writes there may
  only be reads.
* `exec_bind_ok` and `exec_bind_error` say how a sequence ends.
-/

namespace Vanyline.Lib

abbrev Effect (σ ε α : Type) := ExceptT ε (StateM σ) α

namespace Effect

variable {σ ε ε' α β : Type}

/-- The end of a computation: its result and the state. -/
def exec (m : Effect σ ε α) (s : σ) : Except ε α × σ := m.run.run s

def read (f : σ → Except ε α) : Effect σ ε α := fun s => (f s, s)

def change (f : σ → Except ε σ) : Effect σ ε Unit := fun s =>
  match f s with
  | .ok s' => (.ok (), s')
  | .error e => (.error e, s)

def mapError (f : ε → ε') (m : Effect σ ε α) : Effect σ ε' α := fun s =>
  match m.exec s with
  | (.ok a, s') => (.ok a, s')
  | (.error e, s') => (.error (f e), s')

/-- The computation on a part of the state. -/
def zoom {τ : Type} (get : τ → σ) (put : τ → σ → τ) (m : Effect σ ε α) : Effect τ ε α := fun t =>
  ((m.exec (get t)).1, put t (m.exec (get t)).2)

/-! ## How a computation ends -/

@[simp] theorem exec_pure (a : α) (s : σ) : (pure a : Effect σ ε α).exec s = (.ok a, s) := rfl

@[simp] theorem exec_throw (e : ε) (s : σ) :
    (throw e : Effect σ ε α).exec s = (.error e, s) := rfl

@[simp] theorem exec_read (f : σ → Except ε α) (s : σ) : (read f).exec s = (f s, s) := rfl

theorem exec_bind (m : Effect σ ε α) (k : α → Effect σ ε β) (s : σ) :
    (m >>= k).exec s = match m.exec s with
      | (.ok a, s') => (k a).exec s'
      | (.error e, s') => (.error e, s') := by
  show ExceptT.bindCont k (m s).1 (m s).2 = _
  show _ = match m s with
    | (.ok a, s') => (k a).exec s'
    | (.error e, s') => (.error e, s')
  rcases m s with ⟨result, s'⟩
  cases result <;> rfl

theorem exec_bind_of_ok {m : Effect σ ε α} {k : α → Effect σ ε β} {s s' : σ} {a : α}
    (h : m.exec s = (.ok a, s')) : (m >>= k).exec s = (k a).exec s' := by
  rw [exec_bind, h]

theorem exec_bind_of_error {m : Effect σ ε α} {k : α → Effect σ ε β} {s s' : σ} {e : ε}
    (h : m.exec s = (.error e, s')) : (m >>= k).exec s = (.error e, s') := by
  rw [exec_bind, h]

theorem exec_bind_ok {m : Effect σ ε α} {k : α → Effect σ ε β} {s s' : σ} {b : β} :
    (m >>= k).exec s = (.ok b, s') ↔
      ∃ a t, m.exec s = (.ok a, t) ∧ (k a).exec t = (.ok b, s') := by
  rw [exec_bind]
  rcases m.exec s with ⟨result, t⟩
  cases result with
  | ok a =>
    constructor
    · intro h
      exact ⟨a, t, rfl, h⟩
    · rintro ⟨a', t', heq, h⟩
      cases heq
      exact h
  | error e =>
    constructor
    · intro h
      cases h
    · rintro ⟨a, t', heq, -⟩
      cases heq

theorem exec_bind_error {m : Effect σ ε α} {k : α → Effect σ ε β} {s s' : σ} {e : ε} :
    (m >>= k).exec s = (.error e, s') ↔ m.exec s = (.error e, s') ∨
      ∃ a t, m.exec s = (.ok a, t) ∧ (k a).exec t = (.error e, s') := by
  rw [exec_bind]
  rcases m.exec s with ⟨result, t⟩
  cases result with
  | ok a =>
    constructor
    · intro h
      exact .inr ⟨a, t, rfl, h⟩
    · rintro (h | ⟨a', t', heq, h⟩)
      · cases h
      · cases heq
        exact h
  | error e' =>
    constructor
    · intro h
      exact .inl (by cases h; rfl)
    · rintro (h | ⟨a, t', heq, -⟩)
      · cases h
        rfl
      · cases heq

theorem exec_read_ok {f : σ → Except ε α} {s s' : σ} {a : α} :
    (read f).exec s = (.ok a, s') ↔ f s = .ok a ∧ s' = s := by
  rw [exec_read, Prod.mk.injEq, eq_comm (a := s)]

theorem exec_change_ok {f : σ → Except ε σ} {s s' : σ} {u : Unit} :
    (change f).exec s = (.ok u, s') ↔ f s = .ok s' := by
  show (match f s with
    | .ok s' => (Except.ok (), s')
    | .error e => (Except.error e, s)) = (.ok u, s') ↔ _
  cases f s with
  | ok t =>
    rw [Prod.mk.injEq, Except.ok.injEq, Except.ok.injEq]
    exact ⟨fun h => h.2, fun h => ⟨rfl, h⟩⟩
  | error e => exact ⟨fun h => (by cases h), fun h => (by cases h)⟩

theorem exec_change_error {f : σ → Except ε σ} {s s' : σ} {e : ε} :
    (change f).exec s = (.error e, s') ↔ f s = .error e ∧ s' = s := by
  show (match f s with
    | .ok s' => (Except.ok (), s')
    | .error e => (Except.error e, s)) = (.error e, s') ↔ _
  cases f s with
  | ok t => exact ⟨fun h => (by cases h), fun h => (by cases h.1)⟩
  | error e' =>
    rw [Prod.mk.injEq, eq_comm (a := s), Except.error.injEq, Except.error.injEq]

theorem exec_mapError_ok {f : ε → ε'} {m : Effect σ ε α} {s s' : σ} {a : α} :
    (m.mapError f).exec s = (.ok a, s') ↔ m.exec s = (.ok a, s') := by
  show (match m.exec s with
    | (.ok a, s') => (Except.ok a, s')
    | (.error e, s') => (Except.error (f e), s')) = (.ok a, s') ↔ _
  rcases m.exec s with ⟨result, t⟩
  cases result with
  | ok b =>
    constructor
    · intro h
      cases h
      rfl
    · intro h
      cases h
      rfl
  | error e => exact ⟨fun h => (by cases h), fun h => (by cases h)⟩

theorem exec_mapError_error {f : ε → ε'} {m : Effect σ ε α} {s s' : σ} {e' : ε'} :
    (m.mapError f).exec s = (.error e', s') ↔ ∃ e, m.exec s = (.error e, s') ∧ f e = e' := by
  show (match m.exec s with
    | (.ok a, s') => (Except.ok a, s')
    | (.error e, s') => (Except.error (f e), s')) = (.error e', s') ↔ _
  rcases m.exec s with ⟨result, t⟩
  cases result with
  | ok b =>
    constructor
    · intro h
      cases h
    · rintro ⟨e, h, -⟩
      cases h
  | error e =>
    constructor
    · intro h
      cases h
      exact ⟨e, rfl, rfl⟩
    · rintro ⟨e₀, h, rfl⟩
      cases h
      rfl

/-! ## Computations that only read -/

def ReadOnly (m : Effect σ ε α) : Prop := ∀ s, (m.exec s).2 = s

theorem ReadOnly.eq {m : Effect σ ε α} (h : ReadOnly m) {s s' : σ} {r : Except ε α}
    (hexec : m.exec s = (r, s')) : s' = s := by
  have hs := h s
  rw [hexec] at hs
  exact hs

theorem readOnly_pure (a : α) : ReadOnly (pure a : Effect σ ε α) := fun _ => rfl

theorem readOnly_throw (e : ε) : ReadOnly (throw e : Effect σ ε α) := fun _ => rfl

theorem readOnly_read (f : σ → Except ε α) : ReadOnly (read f) := fun _ => rfl

theorem ReadOnly.bind {m : Effect σ ε α} {k : α → Effect σ ε β} (hm : ReadOnly m)
    (hk : ∀ a, ReadOnly (k a)) : ReadOnly (m >>= k) := by
  intro s
  have hs := hm s
  rw [exec_bind]
  revert hs
  rcases m.exec s with ⟨result, t⟩
  intro hs
  cases result with
  | ok a =>
    rw [show t = s from hs]
    exact hk a s
  | error e => exact hs

theorem snd_exec_bind {m : Effect σ ε α} {k : α → Effect σ ε β} (hk : ∀ a, ReadOnly (k a))
    (s : σ) : ((m >>= k).exec s).2 = (m.exec s).2 := by
  rw [exec_bind]
  rcases m.exec s with ⟨result, t⟩
  cases result with
  | ok a => exact hk a t
  | error e => rfl

/-! ## Computations that change all or nothing -/

/-- An error leaves the state as it was. -/
def Atomic (m : Effect σ ε α) : Prop := ∀ s s' e, m.exec s = (.error e, s') → s' = s

theorem ReadOnly.atomic {m : Effect σ ε α} (h : ReadOnly m) : Atomic m :=
  fun _ _ _ hexec => h.eq hexec

theorem atomic_change (f : σ → Except ε σ) : Atomic (change f) :=
  fun _ _ _ hexec => (exec_change_error.1 hexec).2

theorem Atomic.bind {m : Effect σ ε α} {k : α → Effect σ ε β} (hm : ReadOnly m)
    (hk : ∀ a, Atomic (k a)) : Atomic (m >>= k) := by
  intro s s' e hexec
  rcases exec_bind_error.1 hexec with herr | ⟨a, t, hok, herr⟩
  · exact hm.eq herr
  · rw [hk a t s' e herr]
    exact hm.eq hok

theorem Atomic.mapError {m : Effect σ ε α} (h : Atomic m) (f : ε → ε') :
    Atomic (m.mapError f) := by
  intro s s' e' hexec
  obtain ⟨e, herr, -⟩ := exec_mapError_error.1 hexec
  exact h s s' e herr

end Effect

end Vanyline.Lib
