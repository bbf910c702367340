import Mathlib.Data.Set.Card
import Mathlib.Order.Interval.Set.Nat
import Vanyline.Lib.Ranges

/-!
# Counting the numbers of ranges

* `Normal.ncard` says that a normal list covers as many numbers as the sizes of its ranges sum up
  to.
* `clip` takes off what is behind a number, and `common` is what two lists share, range by range.
  Both are for lists in any order, and give lists that are not normal yet.
-/

namespace Vanyline.Lib.Range

variable {range : Range} {ranges others : List Range} {n : Nat}

/-- How many numbers a range covers that is not empty. -/
def size (range : Range) : Nat := range.stop - range.start + 1

theorem covered_eq_Icc (range : Range) :
    {n | range.Covers n} = Set.Icc range.start range.stop := rfl

theorem ncard_covers (h : range.start ≤ range.stop) : {n | range.Covers n}.ncard = range.size := by
  rw [covered_eq_Icc, Set.ncard_Icc_nat]
  unfold size
  omega

theorem finite_coversAll (ranges : List Range) : {n | CoversAll ranges n}.Finite := by
  induction ranges with
  | nil => exact Set.finite_empty.subset fun n hn => coversAll_nil n hn
  | cons range ranges ih =>
      apply ((Set.finite_Icc range.start range.stop).union ih).subset
      intro n hn
      exact coversAll_cons.1 hn

/-- The ranges of a normal list have no number twice. -/
theorem Normal.ncard (h : Normal ranges) :
    {n | CoversAll ranges n}.ncard = (ranges.map size).sum := by
  induction ranges with
  | nil =>
      have hempty : {n | CoversAll [] n} = ∅ := Set.eq_empty_of_forall_notMem coversAll_nil
      rw [hempty, Set.ncard_empty]
      rfl
  | cons range ranges ih =>
      have hsplit : {n | CoversAll (range :: ranges) n} =
          {n | range.Covers n} ∪ {n | CoversAll ranges n} := by
        ext n
        exact coversAll_cons
      have hdisjoint : Disjoint {n | range.Covers n} {n | CoversAll ranges n} := by
        rw [Set.disjoint_left]
        intro n hfirst hrest
        have hlt := h.lt_of_coversAll hrest
        have hle : n ≤ range.stop := hfirst.2
        omega
      rw [hsplit, Set.ncard_union_eq hdisjoint (Set.finite_Icc ..) (finite_coversAll ranges),
        ncard_covers (h.nonempty range (List.mem_cons_self ..)), ih h.tail, List.map_cons,
        List.sum_cons]

/-! ## Up to a number -/

/-- What is up to `last`. -/
def clip (last : Nat) (ranges : List Range) : List Range :=
  ranges.filterMap fun range =>
    if range.start > min range.stop last then none else some ⟨range.start, min range.stop last⟩

theorem mem_clip {last : Nat} {clipped : Range} : clipped ∈ clip last ranges ↔
    ∃ range ∈ ranges, range.start ≤ min range.stop last ∧
      clipped = ⟨range.start, min range.stop last⟩ := by
  unfold clip
  rw [List.mem_filterMap]
  constructor
  · intro h
    obtain ⟨range, hrange, hsome⟩ := h
    split_ifs at hsome with hgt
    exact ⟨range, hrange, by omega, (Option.some.inj hsome).symm⟩
  · intro h
    obtain ⟨range, hrange, hle, heq⟩ := h
    refine ⟨range, hrange, ?_⟩
    rw [if_neg (by omega), heq]

theorem nonempty_clip {last : Nat} : ∀ range ∈ clip last ranges, range.start ≤ range.stop := by
  intro range hrange
  obtain ⟨whole, -, hle, heq⟩ := mem_clip.1 hrange
  rw [heq]
  exact hle

theorem coversAll_clip {last : Nat} :
    CoversAll (clip last ranges) n ↔ CoversAll ranges n ∧ n ≤ last := by
  constructor
  · intro h
    obtain ⟨clipped, hclipped, hstart, hstop⟩ := h
    obtain ⟨range, hrange, hle, heq⟩ := mem_clip.1 hclipped
    rw [heq] at hstart hstop
    dsimp only at hstart hstop
    exact ⟨⟨range, hrange, hstart, by omega⟩, by omega⟩
  · intro h
    obtain ⟨⟨range, hrange, hstart, hstop⟩, hlast⟩ := h
    refine ⟨⟨range.start, min range.stop last⟩, mem_clip.2 ⟨range, hrange, by omega, rfl⟩, ?_⟩
    exact ⟨hstart, Nat.le_min.2 ⟨hstop, hlast⟩⟩

/-! ## What two lists share -/

/-- Each range with each range of the others, where they meet. -/
def common (ranges others : List Range) : List Range :=
  ranges.flatMap fun left => others.filterMap fun right =>
    if max left.start right.start ≤ min left.stop right.stop then
      some ⟨max left.start right.start, min left.stop right.stop⟩
    else none

theorem mem_common {shared : Range} : shared ∈ common ranges others ↔
    ∃ left ∈ ranges, ∃ right ∈ others,
      max left.start right.start ≤ min left.stop right.stop ∧
        shared = ⟨max left.start right.start, min left.stop right.stop⟩ := by
  unfold common
  rw [List.mem_flatMap]
  constructor
  · intro h
    obtain ⟨left, hleft, hshared⟩ := h
    obtain ⟨right, hright, hsome⟩ := List.mem_filterMap.1 hshared
    split_ifs at hsome with hle
    exact ⟨left, hleft, right, hright, hle, (Option.some.inj hsome).symm⟩
  · intro h
    obtain ⟨left, hleft, right, hright, hle, heq⟩ := h
    refine ⟨left, hleft, List.mem_filterMap.2 ⟨right, hright, ?_⟩⟩
    rw [if_pos hle, heq]

theorem nonempty_common : ∀ range ∈ common ranges others, range.start ≤ range.stop := by
  intro range hrange
  obtain ⟨left, -, right, -, hle, heq⟩ := mem_common.1 hrange
  rw [heq]
  exact hle

theorem coversAll_common :
    CoversAll (common ranges others) n ↔ CoversAll ranges n ∧ CoversAll others n := by
  constructor
  · intro h
    obtain ⟨shared, hshared, hstart, hstop⟩ := h
    obtain ⟨left, hleft, right, hright, hle, heq⟩ := mem_common.1 hshared
    rw [heq] at hstart hstop
    dsimp only at hstart hstop
    exact ⟨⟨left, hleft, by omega, by omega⟩, ⟨right, hright, by omega, by omega⟩⟩
  · intro h
    obtain ⟨⟨left, hleft, hls, hle⟩, ⟨right, hright, hrs, hre⟩⟩ := h
    refine ⟨⟨max left.start right.start, min left.stop right.stop⟩,
      mem_common.2 ⟨left, hleft, right, hright, by omega, rfl⟩, ?_⟩
    exact ⟨Nat.max_le.2 ⟨hls, hrs⟩, Nat.le_min.2 ⟨hle, hre⟩⟩

end Vanyline.Lib.Range
