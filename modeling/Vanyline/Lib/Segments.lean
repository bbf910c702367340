import Mathlib.Data.List.Basic

/-!
# Segments of a list

A scanner reads a list from the left and cuts it into segments: an element either joins the
segment that was begun last, or begins a segment of its own.  Which of the two depends on a state
that the scanner keeps while it reads.

* `begins` and `next` are one step, `after` is the state after a list and `count` the number of
  segments that were begun in it.  The state `none` is that before the first element.
* `cut` has what still joins the open segment and the segments behind it, `segments` all segments
  of a list and `first` those with the first numbers, put together.
* A list can be divided between two segments where the second part begins with one (`Boundary`).
  `cut_append` is about such a place, and `first_eq_iff` says that the first segments end there.
-/

namespace Vanyline.Lib.Segments

/-- The state after the first element of a segment, and that after another one, if it joins. -/
structure Scanner (α σ : Type*) where
  start : α → σ
  step : σ → α → Option σ

namespace Scanner

variable {α σ : Type*} (S : Scanner α σ)

def begins : Option σ → α → Bool
  | none, _ => true
  | some s, a => (S.step s a).isNone

def next (s : Option σ) (a : α) : σ := (s.bind fun s => S.step s a).getD (S.start a)

def after (s : Option σ) (xs : List α) : Option σ := xs.foldl (fun s a => some (S.next s a)) s

def count : Option σ → List α → Nat
  | _, [] => 0
  | s, a :: rest => (if S.begins s a then 1 else 0) + count (some (S.next s a)) rest

def cut : Option σ → List α → List α × List (List α)
  | _, [] => ([], [])
  | s, a :: rest =>
    let parts := cut (some (S.next s a)) rest
    if S.begins s a then ([], (a :: parts.1) :: parts.2) else (a :: parts.1, parts.2)

def segments (xs : List α) : List (List α) := (S.cut none xs).2

/-- What joins the open segment, and `k` segments behind it. -/
def first (k : Nat) (s : Option σ) (xs : List α) : List α :=
  (S.cut s xs).1 ++ ((S.cut s xs).2.take k).flatten

/-- Nothing at the beginning of the list joins the open segment. -/
def Boundary (s : Option σ) : List α → Prop
  | [] => True
  | a :: _ => S.begins s a = true

variable {S} {s : Option σ} {a : α}

/-! ## One element -/

theorem next_of_begins (h : S.begins s a = true) : S.next s a = S.start a := by
  cases s with
  | none => rfl
  | some s =>
    have hstep : S.step s a = none := Option.isNone_iff_eq_none.1 h
    show (S.step s a).getD _ = _
    rw [hstep]
    rfl

@[simp] theorem after_nil : S.after s [] = s := rfl

@[simp] theorem after_cons (xs : List α) :
    S.after s (a :: xs) = S.after (some (S.next s a)) xs := rfl

theorem after_append (xs ys : List α) : S.after s (xs ++ ys) = S.after (S.after s xs) ys :=
  List.foldl_append

@[simp] theorem count_nil : S.count s [] = 0 := rfl

theorem count_singleton : S.count s [a] = if S.begins s a then 1 else 0 := rfl

theorem count_append (xs ys : List α) :
    S.count s (xs ++ ys) = S.count s xs + S.count (S.after s xs) ys := by
  induction xs generalizing s with
  | nil => rw [List.nil_append, count_nil, Nat.zero_add, after_nil]
  | cons a xs ih =>
    show _ + S.count _ (xs ++ ys) = _ + S.count _ xs + _
    rw [ih, after_cons]
    omega

/-- A segment that is begun stays. -/
theorem count_le_append (xs ys : List α) : S.count s xs ≤ S.count s (xs ++ ys) := by
  rw [count_append]
  omega

/-! ## Cutting -/

theorem cut_of_begins (h : S.begins s a = true) (xs : List α) :
    S.cut s (a :: xs) =
      ([], (a :: (S.cut (some (S.next s a)) xs).1) :: (S.cut (some (S.next s a)) xs).2) :=
  if_pos h

theorem cut_of_joins (h : ¬ S.begins s a = true) (xs : List α) :
    S.cut s (a :: xs) =
      (a :: (S.cut (some (S.next s a)) xs).1, (S.cut (some (S.next s a)) xs).2) :=
  if_neg h

/-- Nothing is lost. -/
theorem cut_flatten (xs : List α) : (S.cut s xs).1 ++ (S.cut s xs).2.flatten = xs := by
  induction xs generalizing s with
  | nil => rfl
  | cons a xs ih =>
    by_cases h : S.begins s a = true
    · rw [cut_of_begins h, List.flatten_cons, List.nil_append, List.cons_append, ih]
    · rw [cut_of_joins h, List.cons_append, ih]

theorem length_cut (xs : List α) : (S.cut s xs).2.length = S.count s xs := by
  induction xs generalizing s with
  | nil => rfl
  | cons a xs ih =>
    by_cases h : S.begins s a = true
    · rw [cut_of_begins h, List.length_cons, ih, count, if_pos h]
      omega
    · rw [cut_of_joins h, ih, count, if_neg h]
      omega

theorem cut_none_fst (xs : List α) : (S.cut none xs).1 = [] := by
  cases xs with
  | nil => rfl
  | cons a xs => rw [cut_of_begins rfl]

theorem flatten_segments (xs : List α) : (S.segments xs).flatten = xs := by
  have h := S.cut_flatten (s := none) xs
  rw [cut_none_fst, List.nil_append] at h
  exact h

theorem length_segments (xs : List α) : (S.segments xs).length = S.count none xs := length_cut xs

/-- What joins the open segment begins none. -/
theorem count_cut_fst (xs : List α) : S.count s (S.cut s xs).1 = 0 := by
  induction xs generalizing s with
  | nil => rfl
  | cons a xs ih =>
    by_cases h : S.begins s a = true
    · rw [cut_of_begins h]
      rfl
    · rw [cut_of_joins h, count, if_neg h, ih]

/-- A segment is its first element and what joins it. -/
theorem exists_of_mem_cut {xs segment : List α} (h : segment ∈ (S.cut s xs).2) :
    ∃ a rest, segment = a :: rest ∧ S.count (some (S.start a)) rest = 0 := by
  induction xs generalizing s with
  | nil => cases h
  | cons a xs ih =>
    by_cases hbegins : S.begins s a = true
    · rw [cut_of_begins hbegins, next_of_begins hbegins] at h
      rcases List.mem_cons.1 h with rfl | h
      · exact ⟨a, _, rfl, count_cut_fst xs⟩
      · exact ih h
    · rw [cut_of_joins hbegins] at h
      exact ih h

theorem ne_nil_of_mem_cut {xs segment : List α} (h : segment ∈ (S.cut s xs).2) :
    segment ≠ [] := by
  obtain ⟨a, rest, rfl, -⟩ := exists_of_mem_cut h
  exact List.cons_ne_nil a rest

/-- Behind a boundary the scanner goes on as if it began there. -/
theorem cut_append {xs ys : List α} (h : S.Boundary (S.after s xs) ys) :
    S.cut s (xs ++ ys) = ((S.cut s xs).1, (S.cut s xs).2 ++ S.segments ys) := by
  induction xs generalizing s with
  | nil =>
    cases ys with
    | nil => rfl
    | cons b ys =>
      have hbegins : S.begins s b = true := h
      rw [List.nil_append, cut_of_begins hbegins, next_of_begins hbegins, segments,
        cut_of_begins rfl]
      rfl
  | cons a xs ih =>
    rw [after_cons] at h
    rw [List.cons_append]
    by_cases hbegins : S.begins s a = true
    · rw [cut_of_begins hbegins, cut_of_begins hbegins, ih h]
      rfl
    · rw [cut_of_joins hbegins, cut_of_joins hbegins, ih h]

theorem segments_append {xs ys : List α} (h : S.Boundary (S.after none xs) ys) :
    S.segments (xs ++ ys) = S.segments xs ++ S.segments ys := congrArg Prod.snd (cut_append h)

/-! ## The first segments -/

theorem first_append_rest (k : Nat) (xs : List α) :
    S.first k s xs ++ ((S.cut s xs).2.drop k).flatten = xs := by
  rw [first, List.append_assoc, ← List.flatten_append, List.take_append_drop, cut_flatten]

/-- The first `k` segments reach at least as far as a beginning with that many. -/
theorem prefix_first {k : Nat} {xs ys : List α} (h : S.count s xs ≤ k) :
    xs <+: S.first k s (xs ++ ys) := by
  induction xs generalizing s k with
  | nil => exact List.nil_prefix
  | cons a xs ih =>
    unfold first
    rw [List.cons_append]
    by_cases hbegins : S.begins s a = true
    · rw [count, if_pos hbegins] at h
      obtain ⟨k, rfl⟩ := Nat.exists_eq_add_of_le (show 1 ≤ k by omega)
      rw [cut_of_begins hbegins, Nat.add_comm 1 k, List.take_succ_cons, List.flatten_cons,
        List.nil_append, List.cons_append]
      exact List.cons_prefix_cons.2 ⟨rfl, ih (by omega)⟩
    · rw [count, if_neg hbegins] at h
      rw [cut_of_joins hbegins, List.cons_append]
      exact List.cons_prefix_cons.2 ⟨rfl, ih (by omega)⟩

/-- The first `k` segments end at a place exactly when there are `k` of them before it and another
one begins behind it, or nothing is behind it. -/
theorem first_eq_iff {k : Nat} {xs ys : List α} :
    S.first k s (xs ++ ys) = xs ↔
      S.Boundary (S.after s xs) ys ∧ (S.count s xs = k ∨ ys = [] ∧ S.count s xs ≤ k) := by
  induction xs generalizing s k with
  | nil =>
    rw [List.nil_append, after_nil, count_nil]
    cases ys with
    | nil => exact ⟨fun _ => ⟨trivial, .inr ⟨rfl, Nat.zero_le k⟩⟩, fun _ => by cases k <;> rfl⟩
    | cons b ys =>
      unfold first
      by_cases hbegins : S.begins s b = true
      · rw [cut_of_begins hbegins]
        cases k with
        | zero => exact ⟨fun _ => ⟨hbegins, .inl rfl⟩, fun _ => rfl⟩
        | succ k =>
          constructor
          · intro h
            cases h
          · rintro ⟨-, h | ⟨h, -⟩⟩
            · cases h
            · cases h
      · rw [cut_of_joins hbegins]
        constructor
        · intro h
          cases h
        · rintro ⟨h, -⟩
          exact absurd h hbegins
  | cons a xs ih =>
    unfold first at ih ⊢
    rw [List.cons_append, after_cons, count]
    by_cases hbegins : S.begins s a = true
    · rw [cut_of_begins hbegins, if_pos hbegins, List.nil_append]
      cases k with
      | zero =>
        constructor
        · intro h
          cases h
        · rintro ⟨-, h | ⟨-, h⟩⟩
          · omega
          · omega
      | succ k =>
        rw [List.take_succ_cons, List.flatten_cons, List.cons_append, List.cons_inj_right, ih]
        constructor
        · rintro ⟨hboundary, h | ⟨hnil, h⟩⟩
          · exact ⟨hboundary, .inl (by omega)⟩
          · exact ⟨hboundary, .inr ⟨hnil, by omega⟩⟩
        · rintro ⟨hboundary, h | ⟨hnil, h⟩⟩
          · exact ⟨hboundary, .inl (by omega)⟩
          · exact ⟨hboundary, .inr ⟨hnil, by omega⟩⟩
    · rw [cut_of_joins hbegins, if_neg hbegins, List.cons_append, List.cons_inj_right, ih,
        Nat.zero_add]

/-- What is behind the first segment is cut as before. -/
theorem segments_tail {xs : List α} {rest : List (List α)}
    (h : S.segments (xs ++ rest.flatten) = xs :: rest) : S.segments rest.flatten = rest := by
  have hfirst : S.first 1 none (xs ++ rest.flatten) = xs := by
    rw [first, cut_none_fst, List.nil_append]
    show ((S.segments (xs ++ rest.flatten)).take 1).flatten = xs
    rw [h, List.take_succ_cons, List.take_zero, List.flatten_singleton]
  obtain ⟨hboundary, hcount⟩ := first_eq_iff.1 hfirst
  rw [segments_append hboundary] at h
  have hxs : xs ≠ [] := by
    have hmem : xs ∈ S.segments (xs ++ rest.flatten) := by
      rw [segments_append hboundary, h]
      exact List.mem_cons_self
    exact ne_nil_of_mem_cut hmem
  have hlength : (S.segments xs).length = 1 := by
    have hpos : S.segments xs ≠ [] := by
      intro hnil
      have hflat := S.flatten_segments xs
      rw [hnil] at hflat
      exact hxs hflat.symm
    have hlength := length_segments (S := S) xs
    have hpos' := List.length_pos_iff.2 hpos
    omega
  obtain ⟨x, hx⟩ := List.length_eq_one_iff.1 hlength
  rw [hx] at h
  exact (List.cons.inj h).2

end Scanner

end Vanyline.Lib.Segments
