import Mathlib.Data.List.Nodup

/-!
# Promises that are settled by answers

A client makes promises with ids.  A promise is settled by the first who does it, by the
result of an answer or with another outcome.  Beside the promises that are settled stand the
answers that came while their promises were open.

* `Kept` says that no promise is settled twice, and that exactly those answers settle.
* `Kept.settle` and `Kept.answer` are the two ways in which a client may settle.
-/

namespace Vanyline.Lib

/-- Results `ρ` of answers, and outcomes `ω` of promises. -/
structure Promises (ρ ω : Type*) where
  settled : List (Nat × ω)
  answers : List (Nat × ρ)

namespace Promises

variable {ρ ω : Type*} {p : Promises ρ ω} {id n : Nat} {outcome : ω} {answered : ρ → ω}

def none : Promises ρ ω := ⟨[], []⟩

def isSettled (p : Promises ρ ω) (id : Nat) : Bool := p.settled.any fun e => e.1 == id

def settle (p : Promises ρ ω) (id : Nat) (outcome : ω) : Promises ρ ω :=
  if p.isSettled id then p else { p with settled := p.settled ++ [(id, outcome)] }

/-- An answer to an open promise. -/
def note (p : Promises ρ ω) (id : Nat) (result : ρ) : Promises ρ ω :=
  if p.isSettled id then p else { p with answers := p.answers ++ [(id, result)] }

structure Kept (answered : ρ → ω) (p : Promises ρ ω) : Prop where
  once : (p.settled.map Prod.fst).Nodup
  own : ∀ id result, (id, answered result) ∈ p.settled → (id, result) ∈ p.answers
  kept : ∀ id result, (id, result) ∈ p.answers → (id, answered result) ∈ p.settled

theorem kept_none : Kept answered (none : Promises ρ ω) where
  once := List.nodup_nil
  own := by simp [none]
  kept := by simp [none]

theorem isSettled_iff : p.isSettled id = true ↔ ∃ e ∈ p.settled, e.1 = id := by
  simp [isSettled]

/-- The promise and no other is settled after it. -/
theorem isSettled_settle :
    (p.settle id outcome).isSettled n = true ↔ p.isSettled n = true ∨ n = id := by
  unfold settle
  split_ifs with h
  · refine ⟨.inl, ?_⟩
    rintro (hn | rfl)
    · exact hn
    · exact h
  · simp only [isSettled, List.any_append, List.any_cons, List.any_nil, Bool.or_false,
      Bool.or_eq_true, beq_iff_eq]
    exact or_congr Iff.rfl eq_comm

theorem settle_of_isSettled (h : p.isSettled id = true) : p.settle id outcome = p := if_pos h

theorem note_of_isSettled {result : ρ} (h : p.isSettled id = true) : p.note id result = p := if_pos h

theorem isSettled_note {result : ρ} : (p.note id result).isSettled n = p.isSettled n := by
  unfold note
  split_ifs <;> rfl

theorem nodup_append_settled (h : (p.settled.map Prod.fst).Nodup) (hopen : p.isSettled id ≠ true) :
    ((p.settled ++ [(id, outcome)]).map Prod.fst).Nodup := by
  rw [List.map_append]
  refine List.Nodup.append h (List.nodup_singleton _) ?_
  intro n hn hn'
  rw [List.map_singleton, List.mem_singleton] at hn'
  obtain ⟨e, he, heq⟩ := List.mem_map.1 hn
  exact hopen (isSettled_iff.2 ⟨e, he, heq.trans hn'⟩)

/-- A promise is settled with an outcome that no answer has. -/
theorem Kept.settle (h : Kept answered p) (hother : ∀ result, outcome ≠ answered result) :
    Kept answered (p.settle id outcome) := by
  unfold Promises.settle
  split_ifs with hopen
  · exact h
  · refine ⟨nodup_append_settled h.once hopen, ?_, ?_⟩
    · intro n result hmem
      rcases List.mem_append.1 hmem with hmem | hmem
      · exact h.own n result hmem
      · have heq := List.mem_singleton.1 hmem
        rw [Prod.mk.injEq] at heq
        exact absurd heq.2.symm (hother result)
    · intro n result hmem
      exact List.mem_append_left _ (h.kept n result hmem)

/-- An answer settles its promise, if that is open. -/
theorem Kept.answer (h : Kept answered p) (hinj : Function.Injective answered) (id : Nat)
    (result : ρ) : Kept answered ((p.note id result).settle id (answered result)) := by
  unfold Promises.settle
  rw [isSettled_note]
  unfold note
  split_ifs with hopen
  · exact h
  · refine ⟨nodup_append_settled h.once hopen, ?_, ?_⟩
    · intro n other hmem
      rcases List.mem_append.1 hmem with hmem | hmem
      · exact List.mem_append_left _ (h.own n other hmem)
      · have heq := List.mem_singleton.1 hmem
        rw [Prod.mk.injEq] at heq
        rw [heq.1, hinj heq.2]
        exact List.mem_append_right _ (List.mem_singleton_self _)
    · intro n other hmem
      rcases List.mem_append.1 hmem with hmem | hmem
      · exact List.mem_append_left _ (h.kept n other hmem)
      · have heq := List.mem_singleton.1 hmem
        rw [Prod.mk.injEq] at heq
        rw [heq.1, heq.2]
        exact List.mem_append_right _ (List.mem_singleton_self _)

/-- An answer came, and nothing is settled. -/
def lost (p : Promises ρ ω) : Bool := p.settled.isEmpty && !p.answers.isEmpty

theorem not_kept_of_lost (h : lost p = true) : ¬ p.Kept answered := by
  intro hp
  simp only [lost, Bool.and_eq_true, List.isEmpty_iff, Bool.not_eq_true'] at h
  cases hanswers : p.answers with
  | nil => simp [hanswers] at h
  | cons e rest =>
      have hmem := hp.kept e.1 e.2 (hanswers ▸ List.mem_cons_self)
      rw [h.1] at hmem
      cases hmem

end Promises

end Vanyline.Lib
