import Mathlib.Order.Bounds.Basic
import Mathlib.Data.List.Basic

/-!
# The distance of two lists

An edit inserts, deletes or replaces one element, anywhere in a list.  The distance of two lists
is the least number of edits, one after the other, that make one of the other.

* `Aligned` puts two lists side by side, and counts what differs.  Alignments compose
  (`Aligned.trans`), so a run of edits is no better than the alignment of its two ends.
* `distance` is the recursion over both lists, and `isLeast_distance` its meaning.
* `distance_comm`, `distance_eq_zero`, `distance_triangle`: it is a metric.
* `distance_take` is the recursion over the ends of prefixes, in which tables are filled.
-/

namespace Vanyline.Lib.EditDistance

variable {α : Type*}

/-! ## Edits -/

/-- One element is inserted, deleted or replaced. -/
inductive Edit : List α → List α → Prop
  | insert (front : List α) (x : α) (back : List α) : Edit (front ++ back) (front ++ x :: back)
  | delete (front : List α) (x : α) (back : List α) : Edit (front ++ x :: back) (front ++ back)
  | substitute (front : List α) (x y : α) (back : List α) :
      Edit (front ++ x :: back) (front ++ y :: back)

/-- A number of edits, one after the other. -/
inductive Edits : Nat → List α → List α → Prop
  | refl (a : List α) : Edits 0 a a
  | step {n : Nat} {a b c : List α} (h : Edits n a b) (hlast : Edit b c) : Edits (n + 1) a c

theorem Edit.cons (z : α) {a b : List α} (h : Edit a b) : Edit (z :: a) (z :: b) := by
  cases h with
  | insert front x back => exact .insert (z :: front) x back
  | delete front x back => exact .delete (z :: front) x back
  | substitute front x y back => exact .substitute (z :: front) x y back

theorem Edit.reverse {a b : List α} (h : Edit a b) : Edit a.reverse b.reverse := by
  cases h with
  | insert front x back =>
      simpa using Edit.insert back.reverse x front.reverse
  | delete front x back =>
      simpa using Edit.delete back.reverse x front.reverse
  | substitute front x y back =>
      simpa using Edit.substitute back.reverse x y front.reverse

theorem Edits.cons (z : α) {n : Nat} {a b : List α} (h : Edits n a b) :
    Edits n (z :: a) (z :: b) := by
  induction h with
  | refl a => exact .refl _
  | step _ hlast ih => exact ih.step (hlast.cons z)

theorem Edits.reverse {n : Nat} {a b : List α} (h : Edits n a b) :
    Edits n a.reverse b.reverse := by
  induction h with
  | refl a => exact .refl _
  | step _ hlast ih => exact ih.step hlast.reverse

theorem Edits.trans {m n : Nat} {a b c : List α} (h : Edits m a b) (h' : Edits n b c) :
    Edits (m + n) a c := by
  induction h' with
  | refl _ => exact h
  | step _ hlast ih => exact (ih h).step hlast

/-! ## Alignments -/

/-- Two lists side by side, with the number of places where they differ. -/
inductive Aligned : Nat → List α → List α → Prop
  | nil : Aligned 0 [] []
  | keep (x : α) {n : Nat} {a b : List α} (h : Aligned n a b) : Aligned n (x :: a) (x :: b)
  | substitute (x y : α) {n : Nat} {a b : List α} (h : Aligned n a b) :
      Aligned (n + 1) (x :: a) (y :: b)
  | insert (y : α) {n : Nat} {a b : List α} (h : Aligned n a b) : Aligned (n + 1) a (y :: b)
  | delete (x : α) {n : Nat} {a b : List α} (h : Aligned n a b) : Aligned (n + 1) (x :: a) b

namespace Aligned

theorem refl (a : List α) : Aligned 0 a a := by
  induction a with
  | nil => exact .nil
  | cons x a ih => exact ih.keep x

theorem symm {n : Nat} {a b : List α} (h : Aligned n a b) : Aligned n b a := by
  induction h with
  | nil => exact .nil
  | keep x _ ih => exact ih.keep x
  | substitute x y _ ih => exact ih.substitute y x
  | insert y _ ih => exact ih.delete y
  | delete x _ ih => exact ih.insert x

theorem inserts (added : List α) {n : Nat} {a b : List α} (h : Aligned n a b) :
    Aligned (n + added.length) a (added ++ b) := by
  induction added with
  | nil => exact h
  | cons y added ih => exact ih.insert y

/-- What the first element of the first list becomes, behind what is inserted before it. -/
theorem cons_left {n : Nat} {x : α} {a c : List α} (h : Aligned n (x :: a) c) :
    ∃ added rest k, c = added ++ rest ∧ n = k + added.length ∧
      ((∃ tail, rest = x :: tail ∧ Aligned k a tail) ∨
        (∃ y tail j, rest = y :: tail ∧ k = j + 1 ∧ Aligned j a tail) ∨
        ∃ j, k = j + 1 ∧ Aligned j a rest) := by
  generalize hb : x :: a = b at h
  induction h with
  | nil => cases hb
  | keep z h _ =>
      cases hb
      exact ⟨[], _, _, rfl, rfl, .inl ⟨_, rfl, h⟩⟩
  | substitute z y h _ =>
      cases hb
      exact ⟨[], _, _, rfl, rfl, .inr (.inl ⟨y, _, _, rfl, rfl, h⟩)⟩
  | insert y h ih =>
      obtain ⟨added, rest, k, rfl, rfl, hcases⟩ := ih hb
      exact ⟨y :: added, rest, k, rfl, rfl, hcases⟩
  | delete z h _ =>
      cases hb
      exact ⟨[], _, _, rfl, rfl, .inr (.inr ⟨_, rfl, h⟩)⟩

theorem trans {m n : Nat} {a b c : List α} (h : Aligned m a b) (h' : Aligned n b c) :
    ∃ k ≤ m + n, Aligned k a c := by
  induction h generalizing n c with
  | nil => exact ⟨n, Nat.le_add_left _ _, h'⟩
  | delete x _ ih =>
      obtain ⟨k, hk, haligned⟩ := ih h'
      exact ⟨k + 1, by omega, haligned.delete x⟩
  | keep x _ ih =>
      obtain ⟨added, rest, k, rfl, rfl, hcases⟩ := h'.cons_left
      rcases hcases with ⟨tail, rfl, htail⟩ | ⟨y, tail, j, rfl, rfl, htail⟩ | ⟨j, rfl, htail⟩
      · obtain ⟨l, hl, haligned⟩ := ih htail
        exact ⟨_, by omega, (haligned.keep x).inserts added⟩
      · obtain ⟨l, hl, haligned⟩ := ih htail
        exact ⟨_, by omega, (haligned.substitute x y).inserts added⟩
      · obtain ⟨l, hl, haligned⟩ := ih htail
        exact ⟨_, by omega, (haligned.delete x).inserts added⟩
  | substitute x z _ ih =>
      obtain ⟨added, rest, k, rfl, rfl, hcases⟩ := h'.cons_left
      rcases hcases with ⟨tail, rfl, htail⟩ | ⟨y, tail, j, rfl, rfl, htail⟩ | ⟨j, rfl, htail⟩
      · obtain ⟨l, hl, haligned⟩ := ih htail
        exact ⟨_, by omega, (haligned.substitute x z).inserts added⟩
      · obtain ⟨l, hl, haligned⟩ := ih htail
        exact ⟨_, by omega, (haligned.substitute x y).inserts added⟩
      · obtain ⟨l, hl, haligned⟩ := ih htail
        exact ⟨_, by omega, (haligned.delete x).inserts added⟩
  | insert z _ ih =>
      obtain ⟨added, rest, k, rfl, rfl, hcases⟩ := h'.cons_left
      rcases hcases with ⟨tail, rfl, htail⟩ | ⟨y, tail, j, rfl, rfl, htail⟩ | ⟨j, rfl, htail⟩
      · obtain ⟨l, hl, haligned⟩ := ih htail
        exact ⟨_, by omega, (haligned.insert z).inserts added⟩
      · obtain ⟨l, hl, haligned⟩ := ih htail
        exact ⟨_, by omega, (haligned.insert y).inserts added⟩
      · obtain ⟨l, hl, haligned⟩ := ih htail
        exact ⟨_, by omega, haligned.inserts added⟩

theorem edits {n : Nat} {a b : List α} (h : Aligned n a b) : Edits n a b := by
  induction h with
  | nil => exact .refl []
  | keep x _ ih => exact ih.cons x
  | substitute x y _ ih => exact (ih.cons x).step (.substitute [] x y _)
  | insert y _ ih => exact ih.step (.insert [] y _)
  | delete x _ ih => exact (ih.cons x).step (.delete [] x _)

/-- An edit is an alignment of its two lists. -/
theorem of_edit {a b : List α} (h : Edit a b) : Aligned 1 a b := by
  have hfront : ∀ (front : List α) {c d : List α}, Aligned 1 c d →
      Aligned 1 (front ++ c) (front ++ d) := by
    intro front c d hcd
    induction front with
    | nil => exact hcd
    | cons x front ih => exact ih.keep x
  cases h with
  | insert front x back => exact hfront front ((refl back).insert x)
  | delete front x back => exact hfront front ((refl back).delete x)
  | substitute front x y back => exact hfront front ((refl back).substitute x y)

end Aligned

/-- A run of edits is no better than the alignment of its ends. -/
theorem Edits.aligned {n : Nat} {a b : List α} (h : Edits n a b) : ∃ k ≤ n, Aligned k a b := by
  induction h with
  | refl a => exact ⟨0, Nat.le_refl 0, .refl a⟩
  | step _ hlast ih =>
      obtain ⟨k, hk, haligned⟩ := ih
      obtain ⟨l, hl, hall⟩ := haligned.trans (.of_edit hlast)
      exact ⟨l, by omega, hall⟩

/-! ## The distance -/

variable [DecidableEq α]

def distance : List α → List α → Nat
  | [], b => b.length
  | x :: a, [] => (x :: a).length
  | x :: a, y :: b =>
      min (min (distance a (y :: b) + 1) (distance (x :: a) b + 1))
        (distance a b + if x = y then 0 else 1)

@[simp] theorem distance_nil_left (b : List α) : distance [] b = b.length := by
  rw [distance]

@[simp] theorem distance_nil_right (a : List α) : distance a [] = a.length := by
  cases a with
  | nil => exact distance_nil_left []
  | cons x a => rw [distance]

theorem distance_cons (x y : α) (a b : List α) : distance (x :: a) (y :: b) =
    min (min (distance a (y :: b) + 1) (distance (x :: a) b + 1))
      (distance a b + if x = y then 0 else 1) := by
  rw [distance]

theorem distance_insert_le (y : α) (a b : List α) : distance a (y :: b) ≤ distance a b + 1 := by
  cases a with
  | nil => simp
  | cons x a =>
      rw [distance_cons]
      omega

theorem distance_delete_le (x : α) (a b : List α) : distance (x :: a) b ≤ distance a b + 1 := by
  cases b with
  | nil => simp
  | cons y b =>
      rw [distance_cons]
      omega

theorem aligned_distance (a b : List α) : Aligned (distance a b) a b := by
  induction a, b using distance.induct with
  | case1 b =>
      rw [distance_nil_left]
      simpa using Aligned.nil.inserts b
  | case2 x a =>
      rw [distance_nil_right]
      simpa using (Aligned.nil.inserts (x :: a)).symm
  | case3 x a y b ihdelete ihinsert ihboth =>
      rw [distance_cons]
      rcases Nat.le_total (min (distance a (y :: b) + 1) (distance (x :: a) b + 1))
        (distance a b + if x = y then 0 else 1) with hle | hle
      · rw [Nat.min_eq_left hle]
        rcases Nat.le_total (distance a (y :: b) + 1) (distance (x :: a) b + 1) with hle' | hle'
        · rw [Nat.min_eq_left hle']
          exact ihdelete.delete x
        · rw [Nat.min_eq_right hle']
          exact ihinsert.insert y
      · rw [Nat.min_eq_right hle]
        split_ifs with heq
        · rw [heq]
          exact ihboth.keep y
        · exact ihboth.substitute x y

theorem distance_le {n : Nat} {a b : List α} (h : Aligned n a b) : distance a b ≤ n := by
  induction h with
  | nil => exact Nat.le_of_eq (distance_nil_left [])
  | keep x _ ih =>
      rw [distance_cons, if_pos rfl]
      omega
  | substitute x y _ ih =>
      rw [distance_cons]
      split_ifs <;> omega
  | insert y _ ih => exact Nat.le_trans (distance_insert_le _ _ _) (Nat.succ_le_succ ih)
  | delete x _ ih => exact Nat.le_trans (distance_delete_le _ _ _) (Nat.succ_le_succ ih)

/-- The distance is the least number of edits. -/
theorem isLeast_distance (a b : List α) : IsLeast {n | Edits n a b} (distance a b) := by
  refine ⟨(aligned_distance a b).edits, ?_⟩
  intro n hn
  obtain ⟨k, hk, haligned⟩ := hn.aligned
  exact Nat.le_trans (distance_le haligned) hk

theorem distance_comm (a b : List α) : distance a b = distance b a :=
  Nat.le_antisymm (distance_le (aligned_distance b a).symm)
    (distance_le (aligned_distance a b).symm)

theorem distance_eq_zero {a b : List α} : distance a b = 0 ↔ a = b := by
  constructor
  · intro h
    have haligned := aligned_distance a b
    rw [h] at haligned
    cases haligned.edits
    rfl
  · intro h
    rw [h]
    exact Nat.le_zero.1 (distance_le (.refl b))

theorem distance_triangle (a b c : List α) : distance a c ≤ distance a b + distance b c :=
  (isLeast_distance a c).2 ((aligned_distance a b).edits.trans (aligned_distance b c).edits)

theorem distance_reverse (a b : List α) : distance a.reverse b.reverse = distance a b := by
  refine Nat.le_antisymm ((isLeast_distance _ _).2 (aligned_distance a b).edits.reverse) ?_
  have h := (aligned_distance a.reverse b.reverse).edits.reverse
  rw [List.reverse_reverse, List.reverse_reverse] at h
  exact (isLeast_distance a b).2 h

/-- The recursion over the last elements of two prefixes. -/
theorem distance_take {a b : List α} {i j : Nat} {x y : α} (hx : a[i]? = some x)
    (hy : b[j]? = some y) : distance (a.take (i + 1)) (b.take (j + 1)) =
      min (min (distance (a.take i) (b.take (j + 1)) + 1)
          (distance (a.take (i + 1)) (b.take j) + 1))
        (distance (a.take i) (b.take j) + if x = y then 0 else 1) := by
  have ha : (a.take (i + 1)).reverse = x :: (a.take i).reverse := by
    rw [List.take_add_one, hx, Option.toList_some, List.reverse_append]
    rfl
  have hb : (b.take (j + 1)).reverse = y :: (b.take j).reverse := by
    rw [List.take_add_one, hy, Option.toList_some, List.reverse_append]
    rfl
  rw [← distance_reverse, ha, hb, distance_cons, ← ha, ← hb]
  simp only [distance_reverse]

end Vanyline.Lib.EditDistance
