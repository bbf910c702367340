import Mathlib.Data.List.Forall2

/-!
# Dividing a list by a pattern

A pattern is a list of places, and each place stands for some lists.  A list fits the pattern when
it can be divided into parts, one for each place, which the place stands for.

* `divided_cons`: the first part is divided off.
* `divided_any_cons`: a place for every list takes nothing, or one element more.
* `divided_one_cons`: a place for a single element takes the first one.

With these a matcher that tries one element after the other is shown to be right by induction on
its calls.
-/

namespace Vanyline.Lib.Divisions

universe u v

variable {π : Type u} {α : Type v}

/-- The list can be divided into parts that the places of the pattern stand for. -/
def Divided (stands : π → List α → Prop) (pattern : List π) (xs : List α) : Prop :=
  ∃ parts : List (List α), parts.flatten = xs ∧ List.Forall₂ stands pattern parts

variable {stands : π → List α → Prop} {p : π} {pattern : List π} {x : α} {xs : List α}

theorem divided_nil : Divided stands [] xs ↔ xs = [] := by
  constructor
  · rintro ⟨parts, rfl, hparts⟩
    cases hparts
    rfl
  · intro h
    exact ⟨[], h.symm, .nil⟩

theorem divided_cons : Divided stands (p :: pattern) xs ↔
    ∃ front back, xs = front ++ back ∧ stands p front ∧ Divided stands pattern back := by
  constructor
  · rintro ⟨parts, rfl, hparts⟩
    cases hparts with
    | cons hfront hback => exact ⟨_, _, List.flatten_cons, hfront, _, rfl, hback⟩
  · rintro ⟨front, back, rfl, hfront, parts, rfl, hback⟩
    exact ⟨front :: parts, List.flatten_cons, .cons hfront hback⟩

section Any

variable (hany : ∀ part, stands p part)

include hany

theorem divided_any_nil : Divided stands (p :: pattern) [] ↔ Divided stands pattern [] := by
  rw [divided_cons]
  constructor
  · rintro ⟨front, back, hnil, -, hback⟩
    rw [(List.append_eq_nil_iff.1 hnil.symm).2] at hback
    exact hback
  · intro h
    exact ⟨[], [], rfl, hany [], h⟩

theorem divided_any_cons : Divided stands (p :: pattern) (x :: xs) ↔
    Divided stands pattern (x :: xs) ∨ Divided stands (p :: pattern) xs := by
  rw [divided_cons, divided_cons]
  constructor
  · rintro ⟨front, back, hxs, -, hback⟩
    cases front with
    | nil => exact .inl (hxs ▸ hback)
    | cons y front =>
        obtain ⟨-, rfl⟩ := List.cons.inj hxs
        exact .inr ⟨front, back, rfl, hany front, hback⟩
  · rintro (h | ⟨front, back, rfl, -, hback⟩)
    · exact ⟨[], x :: xs, rfl, hany [], h⟩
    · exact ⟨x :: front, back, rfl, hany _, hback⟩

end Any

section One

variable {fits : α → Prop} (hone : ∀ part, stands p part ↔ ∃ y, part = [y] ∧ fits y)

include hone

theorem not_divided_one_nil : ¬ Divided stands (p :: pattern) [] := by
  rw [divided_cons]
  rintro ⟨front, back, hnil, hfront, -⟩
  obtain ⟨y, rfl, -⟩ := (hone front).1 hfront
  cases hnil

theorem divided_one_cons : Divided stands (p :: pattern) (x :: xs) ↔
    fits x ∧ Divided stands pattern xs := by
  rw [divided_cons]
  constructor
  · rintro ⟨front, back, hxs, hfront, hback⟩
    obtain ⟨y, rfl, hy⟩ := (hone front).1 hfront
    obtain ⟨rfl, rfl⟩ := List.cons.inj hxs
    exact ⟨hy, hback⟩
  · rintro ⟨hx, hback⟩
    exact ⟨[x], xs, rfl, (hone [x]).2 ⟨x, rfl, hx⟩, hback⟩

end One

end Vanyline.Lib.Divisions
