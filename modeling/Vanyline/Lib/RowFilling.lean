import Mathlib.Algebra.BigOperators.Group.List.Basic
import Mathlib.Algebra.GroupWithZero.Nat
import Mathlib.Data.List.Induction

/-!
# Filling rows

Items with a weight are put one behind the other into rows of a fixed width.  An item that does
not fit into the rest of the row begins the next one.

* `flatten_rows`: no item is lost, and the order stays.
* `rows_append`: what follows only changes the last row, and adds others behind it.
* `load_le_iff`: no row is too heavy if and only if no item is.
* `needed_eq_iff`: the rows are no more than the total weight needs if and only if the filling is
  `Tight`: what stays empty at the ends of the rows is less than what the last row takes.
-/

namespace Vanyline.Lib.RowFilling

/-- The rows that are full, and the one that is being filled. -/
structure Filling (α : Type*) where
  done : List (List α)
  row : List α

variable {α : Type*} (weight : α → Nat) (width : Nat)

def load (row : List α) : Nat := (row.map weight).sum

def Filling.rows (f : Filling α) : List (List α) := f.done ++ [f.row]

def add (f : Filling α) (a : α) : Filling α :=
  if width < load weight f.row + weight a then ⟨f.done ++ [f.row], [a]⟩
  else ⟨f.done, f.row ++ [a]⟩

def fill (items : List α) : Filling α := items.foldl (add weight width) ⟨[], []⟩

/-- What stays empty at the ends of the rows that are full. -/
def Filling.blank (f : Filling α) : Nat := (f.done.map fun row => width - load weight row).sum

/-- What stays empty is less than what the last row takes, or there is only one row. -/
def Filling.Tight (f : Filling α) : Prop := f.done = [] ∨ f.blank weight width < load weight f.row

/-- The rows that a total weight needs, and at least one. -/
def needed (total : Nat) : Nat := max 1 ((total + width - 1) / width)

variable {weight width}

theorem load_append (front back : List α) :
    load weight (front ++ back) = load weight front + load weight back := by
  simp only [load, List.map_append, List.sum_append]

@[simp] theorem load_nil : load weight ([] : List α) = 0 := rfl

theorem load_cons (a : α) (row : List α) : load weight (a :: row) = weight a + load weight row :=
  rfl

@[simp] theorem load_singleton (a : α) : load weight [a] = weight a := Nat.add_zero _

theorem weight_le_load {row : List α} {a : α} (ha : a ∈ row) : weight a ≤ load weight row := by
  obtain ⟨front, back, rfl⟩ := List.append_of_mem ha
  rw [load_append, load_cons]
  omega

theorem load_flatten (rows : List (List α)) :
    load weight rows.flatten = (rows.map (load weight)).sum := by
  induction rows with
  | nil => rfl
  | cons row rows ih => rw [List.flatten_cons, load_append, ih, List.map_cons, List.sum_cons]

/-! ## What is in the rows -/

theorem fill_concat (items : List α) (a : α) :
    fill weight width (items ++ [a]) = add weight width (fill weight width items) a := by
  rw [fill, List.foldl_append]
  rfl

theorem flatten_add (f : Filling α) (a : α) :
    (add weight width f a).rows.flatten = f.rows.flatten ++ [a] := by
  unfold add
  split <;> simp [Filling.rows]

variable (weight width) in
theorem flatten_rows (items : List α) : (fill weight width items).rows.flatten = items := by
  induction items using List.reverseRecOn with
  | nil => rfl
  | append_singleton items a ih => rw [fill_concat, flatten_add, ih]

theorem rows_foldl (items : List α) (f : Filling α) :
    ∃ back rest, (items.foldl (add weight width) f).rows = f.done ++ (f.row ++ back) :: rest := by
  induction items generalizing f with
  | nil => exact ⟨[], [], by rw [List.append_nil]; rfl⟩
  | cons a items ih =>
      obtain ⟨back, rest, hrows⟩ := ih (add weight width f a)
      rw [List.foldl_cons, hrows]
      unfold add
      split
      · exact ⟨[], ([a] ++ back) :: rest, by simp⟩
      · exact ⟨a :: back, rest, by simp⟩

variable (weight width) in
/-- What follows only adds to the last row, and other rows behind it. -/
theorem rows_append (items more : List α) :
    ∃ back rest, (fill weight width (items ++ more)).rows =
      (fill weight width items).done ++ ((fill weight width items).row ++ back) :: rest := by
  rw [fill, List.foldl_append]
  exact rows_foldl more _

/-- What fits into one row takes one row. -/
theorem fill_of_load_le {items : List α} (h : load weight items ≤ width) :
    fill weight width items = ⟨[], items⟩ := by
  induction items using List.reverseRecOn with
  | nil => rfl
  | append_singleton items a ih =>
      rw [load_append, load_singleton] at h
      rw [fill_concat, ih (by omega), add, if_neg (by simp only; omega)]

/-! ## Rows of items that fit -/

section Fitting

variable {items : List α}

theorem load_le (hfit : ∀ a ∈ items, weight a ≤ width) :
    ∀ row ∈ (fill weight width items).rows, load weight row ≤ width := by
  induction items using List.reverseRecOn with
  | nil => simp [fill, Filling.rows]
  | append_singleton items a ih =>
      have hrows := ih fun b hb => hfit b (List.mem_append_left _ hb)
      have ha := hfit a (List.mem_append_right _ (List.mem_singleton_self a))
      intro row hrow
      rw [fill_concat, add] at hrow
      split at hrow
      · simp only [Filling.rows, List.append_assoc, List.mem_append, List.mem_singleton] at hrow
        rcases hrow with hrow | hrow | rfl
        · exact hrows row (List.mem_append_left _ hrow)
        · exact hrows row (List.mem_append_right _ (List.mem_singleton.2 hrow))
        · rw [load_singleton]
          exact ha
      · simp only [Filling.rows, List.mem_append, List.mem_singleton] at hrow
        rcases hrow with hrow | rfl
        · exact hrows row (List.mem_append_left _ hrow)
        · rw [load_append, load_singleton]
          omega

/-- No row is too heavy if and only if no item is. -/
theorem load_le_iff : (∀ row ∈ (fill weight width items).rows, load weight row ≤ width) ↔
    ∀ a ∈ items, weight a ≤ width := by
  refine ⟨fun hrows a ha => ?_, load_le⟩
  rw [← flatten_rows weight width items, List.mem_flatten] at ha
  obtain ⟨row, hrow, ha⟩ := ha
  exact Nat.le_trans (weight_le_load ha) (hrows row hrow)

/-- A row after the first has something in it. -/
theorem load_row_pos (hfit : ∀ a ∈ items, weight a ≤ width)
    (hdone : (fill weight width items).done ≠ []) :
    0 < load weight (fill weight width items).row := by
  induction items using List.reverseRecOn with
  | nil => exact absurd rfl hdone
  | append_singleton items a ih =>
      have hfit' : ∀ b ∈ items, weight b ≤ width := fun b hb =>
        hfit b (List.mem_append_left _ hb)
      have hrow := load_le hfit' _ (List.mem_append_right _ (List.mem_singleton_self _))
      rw [fill_concat, add] at hdone ⊢
      split
      · rw [load_singleton]
        omega
      · next hle =>
        rw [if_neg hle] at hdone
        have hpos := ih hfit' hdone
        rw [load_append]
        omega

/-- The weight of the items, and what stays empty. -/
theorem load_add_blank (hfit : ∀ a ∈ items, weight a ≤ width) :
    load weight items + (fill weight width items).blank weight width =
      (fill weight width items).done.length * width +
        load weight (fill weight width items).row := by
  have hrows := load_le hfit
  have hflatten := flatten_rows weight width items
  generalize fill weight width items = f at hrows hflatten
  have hdone : ∀ rows : List (List α), (∀ row ∈ rows, load weight row ≤ width) →
      (rows.map (load weight)).sum + (rows.map fun row => width - load weight row).sum =
        rows.length * width := by
    intro rows h
    induction rows with
    | nil => simp
    | cons row rows ih =>
        have hrow := h row List.mem_cons_self
        have htail := ih fun row' hrow' => h row' (List.mem_cons_of_mem _ hrow')
        rw [List.map_cons, List.map_cons, List.sum_cons, List.sum_cons, List.length_cons,
          Nat.succ_mul, ← htail]
        omega
  have hfull := hdone f.done fun row hrow => hrows row (List.mem_append_left _ hrow)
  rw [← hflatten, load_flatten, Filling.rows, List.map_append, List.sum_append, ← hfull,
    Filling.blank]
  simp only [List.map_cons, List.map_nil, List.sum_cons, List.sum_nil]
  omega

theorem needed_le_iff {total n : Nat} (hwidth : 0 < width) :
    needed width total ≤ n ↔ 1 ≤ n ∧ total ≤ n * width := by
  rw [needed, Nat.max_le, Nat.div_le_iff_le_mul_add_pred hwidth, Nat.mul_comm width n]
  omega

/-- The weight never needs more rows than it gets. -/
theorem needed_le (hwidth : 0 < width) (hfit : ∀ a ∈ items, weight a ≤ width) :
    needed width (load weight items) ≤ (fill weight width items).rows.length := by
  have hload := load_add_blank hfit
  have hrow := load_le hfit _ (List.mem_append_right _ (List.mem_singleton_self _))
  rw [needed_le_iff hwidth, Filling.rows, List.length_append, List.length_singleton, Nat.succ_mul]
  omega

/-- The rows are as few as the weight needs if and only if the filling is tight. -/
theorem needed_eq_iff (hwidth : 0 < width) (hfit : ∀ a ∈ items, weight a ≤ width) :
    needed width (load weight items) = (fill weight width items).rows.length ↔
      (fill weight width items).Tight weight width := by
  have hle := needed_le hwidth hfit
  have hload := load_add_blank hfit
  have hrow := load_le hfit _ (List.mem_append_right _ (List.mem_singleton_self _))
  have hfewer : needed width (load weight items) ≤ (fill weight width items).done.length ↔ _ :=
    needed_le_iff hwidth
  have hlength : (fill weight width items).rows.length =
      (fill weight width items).done.length + 1 := by
    rw [Filling.rows, List.length_append, List.length_singleton]
  rw [hlength] at hle ⊢
  unfold Filling.Tight
  rw [← List.length_eq_zero_iff]
  constructor
  · intro heq
    by_contra hnot
    rw [not_or, Nat.not_lt] at hnot
    have := hfewer.2 ⟨by omega, by omega⟩
    omega
  · intro htight
    by_contra hne
    have := hfewer.1 (by omega)
    omega

end Fitting

end Vanyline.Lib.RowFilling
