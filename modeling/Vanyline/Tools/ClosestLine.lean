import Vanyline.Lib.EditDistance
import Vanyline.Lib.Utf8

/-!
# The hint of a failed edit

When a text that is to be replaced is not in the file, `edit_file` quotes the line of the file that
is closest to it.  `levenshteinDistance` fills a table with two rows, which are swapped after each
row; the distance counts bytes.

* There is no value where the code would panic, at an index behind the end of a row.
* `levenshteinDistance_eq`: the table gives the least number of edits.
* `nearest_line`: the line quoted is the first one of the closest.
-/

namespace Vanyline.Tools.ClosestLine

open Vanyline.Lib TextLines EditDistance
open Vanyline.Lib.Utf8 (Bytes encode)

/-! ## The code -/

/-- `row[j] = value`. -/
def store (row : List Nat) (j value : Nat) : Option (List Nat) :=
  if j < row.length then some (row.set j value) else none

/-- The body of the loop over the columns. -/
def fillCell (a b : Bytes) (i : Nat) (prev curr : List Nat) (j : Nat) : Option (List Nat) := do
  let x ← a[i - 1]?
  let y ← b[j - 1]?
  let cost := if x = y then 0 else 1
  let above ← prev[j]?
  let left ← curr[j - 1]?
  let corner ← prev[j - 1]?
  store curr j (min (min (above + 1) (left + 1)) (corner + cost))

/-- The body of the loop over the rows.  The rows are swapped at its end. -/
def fillRow (a b : Bytes) (rows : List Nat × List Nat) (i : Nat) :
    Option (List Nat × List Nat) := do
  let (prev, curr) := rows
  let curr ← store curr 0 i
  let curr ← (List.range' 1 b.length).foldlM (fillCell a b i prev) curr
  return (curr, prev)

def levenshteinDistance (a b : Bytes) : Option Nat :=
  if a.length = 0 then some b.length
  else if b.length = 0 then some a.length
  else do
    let rows := (List.range (b.length + 1), List.replicate (b.length + 1) 0)
    let (prev, _) ← (List.range' 1 a.length).foldlM (fillRow a b) rows
    prev[b.length]?

/-- The body of the loop over the lines, with the best line and its distance. -/
def considerLine (trimmed : Text) (best : Text × Nat) (line : Text) : Option (Text × Nat) := do
  let trimmedLine := trim line
  let dist ← levenshteinDistance (encode trimmed) (encode trimmedLine)
  return if dist < best.2 then (trimmedLine, dist) else best

def closestLineHint (content needle : Text) : Option Text :=
  let trimmed := trim needle
  match lines content with
  | [] => some []
  | first :: more => do
    let dist ← levenshteinDistance (encode trimmed) (encode (trim first))
    let (bestLine, _) ← more.foldlM (considerLine trimmed) (trim first, dist)
    return ". Closest line in file: '".toList ++ bestLine ++ "'".toList

/-! ## The table -/

/-- A loop from one to `n` keeps what each round takes on. -/
theorem exists_foldlM_range' {σ : Type*} (P : Nat → σ → Prop) {f : σ → Nat → Option σ} {s : σ}
    {n : Nat} (hs : P 0 s)
    (hstep : ∀ k < n, ∀ s, P k s → ∃ s', f s (k + 1) = some s' ∧ P (k + 1) s') :
    ∃ s', (List.range' 1 n).foldlM f s = some s' ∧ P n s' := by
  induction n with
  | zero => exact ⟨s, rfl, hs⟩
  | succ n ih =>
      obtain ⟨s', hfold, hs'⟩ := ih fun k hk => hstep k (Nat.lt_succ_of_lt hk)
      obtain ⟨s'', hlast, hs''⟩ := hstep n (Nat.lt_succ_self n) s' hs'
      refine ⟨s'', ?_, hs''⟩
      rw [List.range'_1_concat, List.foldlM_append, hfold, Nat.add_comm 1 n, Option.bind_eq_bind,
        Option.bind_some, List.foldlM_cons, hlast]
      rfl

section Table

variable {a b : Bytes} {i : Nat} {prev curr row : List Nat}

/-- The row has the distances of the first bytes of `a` and each prefix of `b`, up to a column. -/
structure Filled (a b : Bytes) (i j : Nat) (row : List Nat) : Prop where
  length : row.length = b.length + 1
  cells : ∀ k ≤ j, row[k]? = some (distance (a.take i) (b.take k))

theorem Filled.store {value : Nat} {j : Nat} (hlength : row.length = b.length + 1)
    (hj : j ≤ b.length) (hcells : ∀ k < j, row[k]? = some (distance (a.take i) (b.take k)))
    (hvalue : value = distance (a.take i) (b.take j)) :
    ∃ row', store row j value = some row' ∧ Filled a b i j row' := by
  have hlt : j < row.length := by omega
  refine ⟨row.set j value, if_pos hlt, by rw [List.length_set, hlength], ?_⟩
  intro k hk
  rw [List.getElem?_set]
  split_ifs with heq
  · rw [← heq, hvalue]
  · exact hcells k (by omega)

/-- A cell is filled from those above it, left of it and in the corner. -/
theorem fillCell_spec {x : UInt8} {j : Nat} (hx : a[i]? = some x) (hj : j < b.length)
    (hprev : Filled a b i b.length prev) (hcurr : Filled a b (i + 1) j curr) :
    ∃ curr', fillCell a b (i + 1) prev curr (j + 1) = some curr' ∧
      Filled a b (i + 1) (j + 1) curr' := by
  have hy : b[j]? = some b[j] := List.getElem?_eq_getElem hj
  obtain ⟨curr', hstore, hfilled⟩ := Filled.store hcurr.length hj
    (fun k hk => hcurr.cells k (by omega)) (distance_take hx hy).symm
  refine ⟨curr', ?_, hfilled⟩
  simp only [fillCell, Nat.add_sub_cancel, hx, hy, hprev.cells (j + 1) hj,
    hprev.cells j (Nat.le_of_lt hj), hcurr.cells j (Nat.le_refl j), Option.bind_eq_bind,
    Option.bind_some]
  exact hstore

theorem fillRow_spec {x : UInt8} (hx : a[i]? = some x) (hprev : Filled a b i b.length prev)
    (hcurr : curr.length = b.length + 1) :
    ∃ row, fillRow a b (prev, curr) (i + 1) = some (row, prev) ∧
      Filled a b (i + 1) b.length row := by
  have hlt : i < a.length := (List.getElem?_eq_some_iff.1 hx).1
  obtain ⟨start, hstart, hfilled⟩ : ∃ start, store curr 0 (i + 1) = some start ∧
      Filled a b (i + 1) 0 start := by
    refine Filled.store hcurr (Nat.zero_le _) (fun k hk => absurd hk (Nat.not_lt_zero k)) ?_
    rw [List.take_zero, distance_nil_right, List.length_take]
    omega
  obtain ⟨row, hrow, hfilled⟩ := exists_foldlM_range' (Filled a b (i + 1)) hfilled
    fun j hj curr hcurr => fillCell_spec hx hj hprev hcurr
  refine ⟨row, ?_, hfilled⟩
  simp only [fillRow, hstart, hrow, Option.bind_eq_bind, Option.bind_some]
  rfl

/-- The table gives the distance, and no index is behind the end of a row. -/
theorem levenshteinDistance_eq (a b : Bytes) :
    levenshteinDistance a b = some (distance a b) := by
  unfold levenshteinDistance
  split_ifs with ha hb
  · rw [List.length_eq_zero_iff.1 ha, distance_nil_left]
  · rw [List.length_eq_zero_iff.1 hb, distance_nil_right]
  · have hfirst : Filled a b 0 b.length (List.range (b.length + 1)) := by
      refine ⟨List.length_range, ?_⟩
      intro k hk
      rw [List.take_zero, distance_nil_left, List.length_take, List.getElem?_range (by omega),
        Nat.min_eq_left hk]
    obtain ⟨⟨prev, curr⟩, hfold, hprev, -⟩ := exists_foldlM_range'
      (fun i (rows : List Nat × List Nat) =>
        Filled a b i b.length rows.1 ∧ rows.2.length = b.length + 1)
      (f := fillRow a b) (s := (List.range (b.length + 1), List.replicate (b.length + 1) 0))
      (n := a.length) ⟨hfirst, List.length_replicate⟩ fun i hi rows hrows => by
        obtain ⟨row, hrow, hfilled⟩ := fillRow_spec (List.getElem?_eq_getElem hi) hrows.1 hrows.2
        exact ⟨_, hrow, hfilled, hrows.1.length⟩
    simp only [hfold, Option.bind_eq_bind, Option.bind_some, hprev.cells b.length (Nat.le_refl _),
      List.take_length]

end Table

/-! ## The closest line -/

section Closest

variable {content needle trimmed line : Text} {seen more : List Text} {best : Text × Nat}

example : closestLineHint "bar\n  foo\nfoo\n".toList "fox".toList =
    some ". Closest line in file: 'foo'".toList := by decide

/-- How far a line is from the needle. -/
def lineDistance (trimmed line : Text) : Nat := distance (encode trimmed) (encode (trim line))

/-- The line is the first one of the closest. -/
def Closest (trimmed : Text) (before : List Text) (line : Text) (after : List Text) : Prop :=
  (∀ other ∈ before, lineDistance trimmed line < lineDistance trimmed other) ∧
    ∀ other ∈ after, lineDistance trimmed line ≤ lineDistance trimmed other

/-- What the loop has found among the lines it has seen. -/
def Found (trimmed : Text) (seen : List Text) (best : Text × Nat) : Prop :=
  ∃ before line after, seen = before ++ line :: after ∧ Closest trimmed before line after ∧
    best = (trim line, lineDistance trimmed line)

theorem considerLine_eq : considerLine trimmed best line =
    some (if lineDistance trimmed line < best.2 then (trim line, lineDistance trimmed line)
      else best) := by
  simp only [considerLine, levenshteinDistance_eq, Option.bind_eq_bind, Option.bind_some]
  rfl

theorem considerLine_spec (h : Found trimmed seen best) (line : Text) :
    ∃ best', considerLine trimmed best line = some best' ∧
      Found trimmed (seen ++ [line]) best' := by
  obtain ⟨before, old, after, rfl, ⟨hbefore, hafter⟩, rfl⟩ := h
  refine ⟨_, considerLine_eq, ?_⟩
  split_ifs with hlt
  · -- The new line is closer than the best one, and so than each of the others.
    refine ⟨before ++ old :: after, line, [], rfl, ⟨?_, nofun⟩, rfl⟩
    intro other hother
    rcases List.mem_append.1 hother with hother | hother
    · exact Nat.lt_trans hlt (hbefore other hother)
    · rcases List.mem_cons.1 hother with rfl | hother
      · exact hlt
      · exact Nat.lt_of_lt_of_le hlt (hafter other hother)
  · refine ⟨before, old, after ++ [line], by simp, ⟨hbefore, ?_⟩, rfl⟩
    intro other hother
    rcases List.mem_append.1 hother with hother | hother
    · exact hafter other hother
    · rw [List.mem_singleton.1 hother]
      exact Nat.le_of_not_lt hlt

theorem foldlM_considerLine (more : List Text) (h : Found trimmed seen best) :
    ∃ best', more.foldlM (considerLine trimmed) best = some best' ∧
      Found trimmed (seen ++ more) best' := by
  induction more generalizing seen best with
  | nil =>
      refine ⟨best, rfl, ?_⟩
      rw [List.append_nil]
      exact h
  | cons line more ih =>
      obtain ⟨best', hbest, hfound⟩ := considerLine_spec h line
      obtain ⟨best'', hfold, hfound'⟩ := ih hfound
      refine ⟨best'', ?_, ?_⟩
      · rw [List.foldlM_cons, hbest]
        exact hfold
      · rw [List.append_assoc] at hfound'
        exact hfound'

theorem lines_ne_nil (h : content ≠ []) : lines content ≠ [] := by
  intro hlines
  unfold lines at hlines
  rw [List.append_eq_nil_iff, List.map_eq_nil_iff] at hlines
  obtain ⟨hended, hrest⟩ := hlines
  split_ifs at hrest with hlast
  have htext := unlines_cut content
  rw [hended, hlast] at htext
  exact h htext.symm

/-- The hint quotes the first one of the closest lines. -/
theorem closestLineHint_eq (h : content ≠ []) (needle : Text) :
    ∃ before line after, lines content = before ++ line :: after ∧
      Closest (trim needle) before line after ∧
      closestLineHint content needle =
        some (". Closest line in file: '".toList ++ trim line ++ "'".toList) := by
  rcases hlines : lines content with _ | ⟨first, more⟩
  · exact absurd hlines (lines_ne_nil h)
  · have hfirst : Found (trim needle) [first] (trim first, lineDistance (trim needle) first) :=
      ⟨[], first, [], rfl, ⟨nofun, nofun⟩, rfl⟩
    obtain ⟨best, hfold, before, line, after, hseen, hclosest, rfl⟩ :=
      foldlM_considerLine more hfirst
    refine ⟨before, line, after, hseen, hclosest, ?_⟩
    unfold lineDistance at hfold
    simp only [closestLineHint, hlines, levenshteinDistance_eq, hfold, Option.bind_eq_bind,
      Option.bind_some]
    rfl

/-- The distance of two byte strings is the least number of edits, which makes it a metric; and
the line that the hint quotes is the first one of the closest to the needle. -/
theorem nearest_line :
    (∀ a b : Bytes, ∃ d, levenshteinDistance a b = some d ∧ IsLeast {n | Edits n a b} d) ∧
    (∀ a b : Bytes, levenshteinDistance a b = some 0 ↔ a = b) ∧
    (∀ a b : Bytes, levenshteinDistance a b = levenshteinDistance b a) ∧
    (∀ a b c : Bytes, ∀ d₁ d₂ d₃, levenshteinDistance a b = some d₁ →
      levenshteinDistance b c = some d₂ → levenshteinDistance a c = some d₃ → d₃ ≤ d₁ + d₂) ∧
    ∀ content needle : Text, content ≠ [] → ∃ before line after,
      lines content = before ++ line :: after ∧
      closestLineHint content needle =
        some (". Closest line in file: '".toList ++ trim line ++ "'".toList) ∧
      (∀ other ∈ before, distance (encode (trim needle)) (encode (trim line)) <
        distance (encode (trim needle)) (encode (trim other))) ∧
      ∀ other ∈ after, distance (encode (trim needle)) (encode (trim line)) ≤
        distance (encode (trim needle)) (encode (trim other)) := by
  refine ⟨?_, ?_, ?_, ?_, ?_⟩
  · intro a b
    exact ⟨distance a b, levenshteinDistance_eq a b, isLeast_distance a b⟩
  · intro a b
    rw [levenshteinDistance_eq, Option.some.injEq, distance_eq_zero]
  · intro a b
    rw [levenshteinDistance_eq, levenshteinDistance_eq, distance_comm]
  · intro a b c d₁ d₂ d₃ h₁ h₂ h₃
    rw [levenshteinDistance_eq, Option.some.injEq] at h₁ h₂ h₃
    rw [← h₁, ← h₂, ← h₃]
    exact distance_triangle a b c
  · intro content needle h
    obtain ⟨before, line, after, hlines, ⟨hbefore, hafter⟩, hhint⟩ := closestLineHint_eq h needle
    exact ⟨before, line, after, hlines, hhint, hbefore, hafter⟩

end Closest

end Vanyline.Tools.ClosestLine
