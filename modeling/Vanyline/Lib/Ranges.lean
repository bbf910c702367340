import Mathlib.Data.List.Basic
import Mathlib.Data.List.Sort

/-!
# Ranges of numbers

A list of ranges stands for the numbers that they cover.

* A list is `Normal` when its ranges are not empty, and each one begins at least two after the
  end of those before it.
* `Normal.ext` says that a normal list is determined by the numbers it covers.
* `merge` adds a range that begins no earlier than the others.  `normal_foldl_merge` and
  `coversAll_foldl_merge` are what a list of ranges in order gives.
* `extend` adds one number after the others.
-/

namespace Vanyline.Lib

/-- The numbers from `start` to `stop`, both included. -/
structure Range where
  start : Nat
  stop : Nat
deriving DecidableEq

namespace Range

def Covers (range : Range) (n : Nat) : Prop := range.start ≤ n ∧ n ≤ range.stop

/-- The numbers of a list of ranges. -/
def CoversAll (ranges : List Range) (n : Nat) : Prop := ∃ range ∈ ranges, range.Covers n

structure Normal (ranges : List Range) : Prop where
  nonempty : ∀ range ∈ ranges, range.start ≤ range.stop
  apart : ranges.Pairwise fun before after => before.stop + 1 < after.start

theorem coversAll_nil (n : Nat) : ¬CoversAll [] n := by
  rintro ⟨range, hrange, -⟩
  cases hrange

theorem coversAll_cons {range : Range} {ranges : List Range} {n : Nat} :
    CoversAll (range :: ranges) n ↔ range.Covers n ∨ CoversAll ranges n := by
  constructor
  · rintro ⟨other, hother, hcovers⟩
    rcases List.mem_cons.1 hother with rfl | hother
    · exact .inl hcovers
    · exact .inr ⟨other, hother, hcovers⟩
  · rintro (hcovers | ⟨other, hother, hcovers⟩)
    · exact ⟨range, List.mem_cons_self .., hcovers⟩
    · exact ⟨other, List.mem_cons_of_mem _ hother, hcovers⟩

theorem coversAll_perm {ranges ranges' : List Range} (h : ranges.Perm ranges') (n : Nat) :
    CoversAll ranges n ↔ CoversAll ranges' n :=
  ⟨fun ⟨range, hrange, hcovers⟩ => ⟨range, h.mem_iff.1 hrange, hcovers⟩,
    fun ⟨range, hrange, hcovers⟩ => ⟨range, h.mem_iff.2 hrange, hcovers⟩⟩

namespace Normal

theorem nil : Normal [] := ⟨fun _ h => (nomatch h), .nil⟩

variable {range other : Range} {ranges others : List Range}

theorem tail (h : Normal (range :: ranges)) : Normal ranges :=
  ⟨fun other hother => h.nonempty other (List.mem_cons_of_mem _ hother),
    (List.pairwise_cons.1 h.apart).2⟩

/-- What follows the first range begins at least two after its end. -/
theorem lt_of_coversAll (h : Normal (range :: ranges)) {n : Nat} (hn : CoversAll ranges n) :
    range.stop + 1 < n := by
  obtain ⟨other, hother, hstart, -⟩ := hn
  have := (List.pairwise_cons.1 h.apart).1 other hother
  omega

theorem start_le_of_covers (h : Normal (range :: ranges)) {n : Nat}
    (hn : CoversAll (range :: ranges) n) : range.start ≤ n := by
  have hne := h.nonempty range (List.mem_cons_self ..)
  rcases coversAll_cons.1 hn with hcovers | hrest
  · exact hcovers.1
  · have := h.lt_of_coversAll hrest
    omega

/-- Of two normal lists for the same numbers, the first ranges end at the same number or in
order. -/
theorem stop_le (h : Normal (range :: ranges))
    (hsame : ∀ n, CoversAll (range :: ranges) n ↔ CoversAll (other :: others) n)
    (hstart : range.start = other.start) : other.stop ≤ range.stop := by
  have hne := h.nonempty range (List.mem_cons_self ..)
  by_contra hlt
  have hcovers : CoversAll (other :: others) (range.stop + 1) :=
    coversAll_cons.2 (.inl ⟨by omega, by omega⟩)
  rcases coversAll_cons.1 ((hsame _).2 hcovers) with hfirst | hrest
  · have := hfirst.2
    omega
  · have := h.lt_of_coversAll hrest
    omega

/-- A normal list is determined by the numbers it covers. -/
theorem ext {ranges others : List Range} (h : Normal ranges) (h' : Normal others)
    (hsame : ∀ n, CoversAll ranges n ↔ CoversAll others n) : ranges = others := by
  induction ranges generalizing others with
  | nil =>
      cases others with
      | nil => rfl
      | cons other others =>
          have hne := h'.nonempty other (List.mem_cons_self ..)
          have := (hsame other.start).2 (coversAll_cons.2 (.inl ⟨Nat.le_refl _, hne⟩))
          exact absurd this (coversAll_nil _)
  | cons range ranges ih =>
      have hne := h.nonempty range (List.mem_cons_self ..)
      cases others with
      | nil =>
          have := (hsame range.start).1 (coversAll_cons.2 (.inl ⟨Nat.le_refl _, hne⟩))
          exact absurd this (coversAll_nil _)
      | cons other others =>
          have hne' := h'.nonempty other (List.mem_cons_self ..)
          have hstart : range.start = other.start := by
            have hle := h'.start_le_of_covers ((hsame range.start).1
              (coversAll_cons.2 (.inl ⟨Nat.le_refl _, hne⟩)))
            have hle' := h.start_le_of_covers ((hsame other.start).2
              (coversAll_cons.2 (.inl ⟨Nat.le_refl _, hne'⟩)))
            omega
          have hstop : range.stop = other.stop :=
            Nat.le_antisymm (stop_le h' (fun n => (hsame n).symm) hstart.symm)
              (stop_le h hsame hstart)
          obtain ⟨start, stop⟩ := range
          obtain ⟨start', stop'⟩ := other
          dsimp only at hstart hstop
          subst hstart hstop
          congr 1
          apply ih h.tail h'.tail
          intro n
          constructor
          · intro hn
            have hlt := h.lt_of_coversAll hn
            rcases coversAll_cons.1 ((hsame n).1 (coversAll_cons.2 (.inr hn))) with hfirst | hrest
            · have := hfirst.2
              dsimp only at this hlt
              omega
            · exact hrest
          · intro hn
            have hlt := h'.lt_of_coversAll hn
            rcases coversAll_cons.1 ((hsame n).2 (coversAll_cons.2 (.inr hn))) with hfirst | hrest
            · have := hfirst.2
              dsimp only at this hlt
              omega
            · exact hrest

/-- A range after the others. -/
theorem concat (h : Normal ranges) (hne : range.start ≤ range.stop)
    (hafter : ∀ other ∈ ranges, other.stop + 1 < range.start) : Normal (ranges ++ [range]) := by
  constructor
  · intro other hother
    rcases List.mem_append.1 hother with hother | hother
    · exact h.nonempty other hother
    · rw [List.mem_singleton.1 hother]
      exact hne
  · refine List.pairwise_append.2 ⟨h.apart, List.pairwise_singleton .., ?_⟩
    intro other hother last hlast
    rw [List.mem_singleton.1 hlast]
    exact hafter other hother

theorem init (h : Normal (ranges ++ [range])) : Normal ranges :=
  ⟨fun other hother => h.nonempty other (List.mem_append_left _ hother),
    (List.pairwise_append.1 h.apart).1⟩

theorem lt_last (h : Normal (ranges ++ [range])) : ∀ other ∈ ranges, other.stop + 1 < range.start :=
  fun other hother =>
    (List.pairwise_append.1 h.apart).2.2 other hother range (List.mem_singleton_self _)

end Normal

theorem coversAll_concat {range : Range} {ranges : List Range} {n : Nat} :
    CoversAll (ranges ++ [range]) n ↔ CoversAll ranges n ∨ range.Covers n := by
  rw [coversAll_perm (List.perm_append_singleton range ranges), coversAll_cons, or_comm]

/-! ## Ranges in order -/

/-- The range is put after the others, or becomes a part of the last one. -/
def merge (ranges : List Range) (range : Range) : List Range :=
  match ranges.getLast? with
  | some last =>
    if range.start ≤ last.stop + 1 then
      if last.stop < range.stop then ranges.dropLast ++ [{ last with stop := range.stop }]
      else ranges
    else ranges ++ [range]
  | none => ranges ++ [range]

/-- None of the ranges begins after `start`. -/
def Before (ranges : List Range) (start : Nat) : Prop := ∀ range ∈ ranges, range.start ≤ start

theorem before_merge {ranges : List Range} {range : Range} (h : Before ranges range.start) :
    Before (merge ranges range) range.start := by
  have hconcat : Before (ranges ++ [range]) range.start := by
    intro other hother
    rcases List.mem_append.1 hother with hother | hother
    · exact h other hother
    · rw [List.mem_singleton.1 hother]
  unfold merge
  split
  · rename_i last hlast
    split_ifs
    · intro other hother
      rcases List.mem_append.1 hother with hother | hother
      · exact h other ((List.dropLast_sublist ranges).subset hother)
      · rw [List.mem_singleton.1 hother]
        exact h last (List.mem_of_getLast? hlast)
    · exact h
    · exact hconcat
  · exact hconcat

theorem coversAll_merge {ranges : List Range} {range : Range} (h : Before ranges range.start)
    (n : Nat) : CoversAll (merge ranges range) n ↔ CoversAll ranges n ∨ range.Covers n := by
  rcases List.eq_nil_or_concat ranges with rfl | ⟨init, last, rfl⟩
  · exact coversAll_concat
  · rw [List.concat_eq_append] at h ⊢
    have hstart := h last (by simp)
    simp only [merge, List.getLast?_concat, List.dropLast_concat]
    split_ifs with htouch hlonger
    · rw [coversAll_concat, coversAll_concat, or_assoc]
      apply or_congr_right
      simp only [Covers]
      omega
    · rw [coversAll_concat, or_assoc]
      apply or_congr_right
      simp only [Covers]
      omega
    · exact coversAll_concat

theorem normal_merge {ranges : List Range} {range : Range} (h : Normal ranges)
    (hne : range.start ≤ range.stop) (hbefore : Before ranges range.start) :
    Normal (merge ranges range) := by
  rcases List.eq_nil_or_concat ranges with rfl | ⟨init, last, rfl⟩
  · exact Normal.concat .nil hne fun _ h => (nomatch h)
  · rw [List.concat_eq_append] at h hbefore ⊢
    have hlast := h.nonempty last (by simp)
    have hstart := hbefore last (by simp)
    simp only [merge, List.getLast?_concat, List.dropLast_concat]
    split_ifs with htouch hlonger
    · exact h.init.concat (show last.start ≤ range.stop by omega) h.lt_last
    · exact h
    · apply h.concat hne
      intro other hother
      rcases List.mem_append.1 hother with hother | hother
      · have := h.lt_last other hother
        omega
      · rw [List.mem_singleton.1 hother]
        omega

/-- Ranges that are taken in the order of their starts. -/
theorem coversAll_foldl_merge {ranges sorted : List Range}
    (hsorted : sorted.Pairwise fun first second => first.start ≤ second.start)
    (hbefore : ∀ range ∈ sorted, Before ranges range.start) (n : Nat) :
    CoversAll (sorted.foldl merge ranges) n ↔ CoversAll ranges n ∨ CoversAll sorted n := by
  induction sorted generalizing ranges with
  | nil => rw [List.foldl_nil, or_iff_left (coversAll_nil n)]
  | cons range sorted ih =>
      rw [List.pairwise_cons] at hsorted
      have hfirst := hbefore range (List.mem_cons_self ..)
      have hmerged : ∀ other ∈ sorted, Before (merge ranges range) other.start :=
        fun other hother third hthird =>
          Nat.le_trans (before_merge hfirst third hthird) (hsorted.1 other hother)
      rw [List.foldl_cons, ih hsorted.2 hmerged, coversAll_merge hfirst, coversAll_cons, or_assoc]

theorem normal_foldl_merge {ranges sorted : List Range} (h : Normal ranges)
    (hne : ∀ range ∈ sorted, range.start ≤ range.stop)
    (hsorted : sorted.Pairwise fun first second => first.start ≤ second.start)
    (hbefore : ∀ range ∈ sorted, Before ranges range.start) :
    Normal (sorted.foldl merge ranges) := by
  induction sorted generalizing ranges with
  | nil => exact h
  | cons range sorted ih =>
      rw [List.pairwise_cons] at hsorted
      have hfirst := hbefore range (List.mem_cons_self ..)
      apply ih (normal_merge h (hne range (List.mem_cons_self ..)) hfirst)
        (fun other hother => hne other (List.mem_cons_of_mem _ hother)) hsorted.2
      exact fun other hother third hthird =>
        Nat.le_trans (before_merge hfirst third hthird) (hsorted.1 other hother)

/-! ## Numbers in order -/

/-- A number after the others is put into the last range, or into one of its own. -/
def extend (ranges : List Range) (n : Nat) : List Range :=
  match ranges.getLast? with
  | some last =>
    if last.stop + 1 = n then ranges.dropLast ++ [{ last with stop := n }]
    else ranges ++ [⟨n, n⟩]
  | none => ranges ++ [⟨n, n⟩]

theorem extend_spec {ranges : List Range} {n : Nat} (h : Normal ranges)
    (hafter : ∀ m, CoversAll ranges m → m < n) :
    Normal (extend ranges n) ∧ ∀ m, CoversAll (extend ranges n) m ↔ CoversAll ranges m ∨ m = n := by
  have hsingle : ∀ m, (Range.mk n n).Covers m ↔ m = n := by
    intro m
    simp only [Covers]
    omega
  rcases List.eq_nil_or_concat ranges with rfl | ⟨init, last, rfl⟩
  · refine ⟨Normal.concat .nil (Nat.le_refl _) (fun _ h => (nomatch h)), fun m => ?_⟩
    exact coversAll_concat.trans (or_congr_right (hsingle m))
  · rw [List.concat_eq_append] at h hafter ⊢
    have hlast := h.nonempty last (by simp)
    have hlt : last.stop < n :=
      hafter _ (coversAll_concat.2 (.inr ⟨hlast, Nat.le_refl _⟩))
    simp only [extend, List.getLast?_concat, List.dropLast_concat]
    split_ifs with htouch
    · refine ⟨h.init.concat ?_ h.lt_last, fun m => ?_⟩
      · dsimp only
        omega
      · rw [coversAll_concat, coversAll_concat, or_assoc]
        apply or_congr_right
        simp only [Covers]
        omega
    · refine ⟨h.concat (Nat.le_refl _) ?_, fun m => ?_⟩
      · intro other hother
        rcases List.mem_append.1 hother with hother | hother
        · have := h.lt_last other hother
          dsimp only
          omega
        · rw [List.mem_singleton.1 hother]
          dsimp only
          omega
      · rw [coversAll_concat, hsingle]

/-- Numbers in order, after those of the ranges. -/
theorem foldl_extend {ranges : List Range} {ns : List Nat} (h : Normal ranges)
    (hsorted : ns.Pairwise (· < ·)) (hafter : ∀ m, CoversAll ranges m → ∀ n ∈ ns, m < n) :
    Normal (ns.foldl extend ranges) ∧
      ∀ m, CoversAll (ns.foldl extend ranges) m ↔ CoversAll ranges m ∨ m ∈ ns := by
  induction ns generalizing ranges with
  | nil => exact ⟨h, fun m => by simp⟩
  | cons n ns ih =>
      rw [List.pairwise_cons] at hsorted
      obtain ⟨hnormal, hcovers⟩ := extend_spec h fun m hm => hafter m hm n (List.mem_cons_self ..)
      have hlater : ∀ m, CoversAll (extend ranges n) m → ∀ n' ∈ ns, m < n' := by
        intro m hm n' hn'
        rcases (hcovers m).1 hm with hm | rfl
        · exact hafter m hm n' (List.mem_cons_of_mem _ hn')
        · exact hsorted.1 n' hn'
      obtain ⟨hnormal', hcovers'⟩ := ih hnormal hsorted.2 hlater
      refine ⟨hnormal', fun m => ?_⟩
      rw [List.foldl_cons, hcovers' m, hcovers m, List.mem_cons, or_assoc]

end Range

end Vanyline.Lib
