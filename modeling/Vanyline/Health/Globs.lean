import Vanyline.Health.Expansion
import Vanyline.Lib.Divisions

/-!
# What a glob means

A glob and a path are divided at the slashes.  A segment `**` of the glob stands for any segments
of the path, every other one for a single segment; in it `*` stands for any characters, `?` for a
single one, and every other character for itself.  `globMatch` finds out by trying.
-/

namespace Vanyline.Health.Expansion

open Vanyline.Lib TextLines Divisions

/-- What a character in a segment of a glob stands for. -/
def CharStands (c : Char) (part : Text) : Prop :=
  if c = '*' then True else if c = '?' then ∃ d, part = [d] else part = [c]

/-- What a segment of a glob stands for. -/
def SegmentStands (segment : Text) (part : List Text) : Prop :=
  if segment = "**".toList then True
  else ∃ found, part = [found] ∧ Divided CharStands segment found

theorem charStands_star (part : Text) : CharStands '*' part := trivial

theorem charStands_iff {c : Char} (hstar : c ≠ '*') (part : Text) :
    CharStands c part ↔ ∃ d, part = [d] ∧ (c = '?' ∨ d = c) := by
  unfold CharStands
  rw [if_neg hstar]
  split_ifs with hmark
  · simp [hmark]
  · simp [hmark]

theorem segmentMatch_iff (pattern text : Text) :
    segmentMatch pattern text = true ↔ Divided CharStands pattern text := by
  induction pattern, text using segmentMatch.induct with
  | case1 text => rw [segmentMatch, divided_nil, List.isEmpty_iff]
  | case2 first rest ih =>
      rw [segmentMatch, Bool.and_eq_true, beq_iff_eq, ih]
      by_cases hstar : first = '*'
      · rw [hstar, divided_any_nil charStands_star]
        exact and_iff_right rfl
      · exact iff_of_false (fun h => hstar h.1) (not_divided_one_nil (charStands_iff hstar))
  | case3 rest c text ihskip ihtake =>
      rw [segmentMatch, if_pos rfl, Bool.or_eq_true, ihskip, ihtake,
        divided_any_cons charStands_star]
  | case4 rest c text hstar ih =>
      rw [segmentMatch, if_neg hstar, if_pos rfl, ih, divided_one_cons (charStands_iff hstar)]
      exact (and_iff_right (.inl rfl)).symm
  | case5 first rest c text hstar hmark ih =>
      rw [segmentMatch, if_neg hstar, if_neg hmark, Bool.and_eq_true, beq_iff_eq, ih,
        divided_one_cons (charStands_iff hstar), or_iff_right hmark]

theorem segmentStands_stars (part : List Text) : SegmentStands "**".toList part := trivial

theorem segmentStands_iff {segment : Text} (hstars : segment ≠ "**".toList) (part : List Text) :
    SegmentStands segment part ↔
      ∃ found, part = [found] ∧ Divided CharStands segment found := by
  unfold SegmentStands
  rw [if_neg hstars]

theorem globSegments_iff (pattern text : List Text) :
    globSegments pattern text = true ↔ Divided SegmentStands pattern text := by
  induction pattern, text using globSegments.induct with
  | case1 text => rw [globSegments, divided_nil, List.isEmpty_iff]
  | case2 first rest ih =>
      rw [globSegments, Bool.and_eq_true, beq_iff_eq, ih]
      by_cases hstars : first = "**".toList
      · rw [hstars, divided_any_nil segmentStands_stars]
        exact and_iff_right rfl
      · exact iff_of_false (fun h => hstars h.1) (not_divided_one_nil (segmentStands_iff hstars))
  | case3 rest segment text ihskip ihtake =>
      rw [globSegments, if_pos rfl, Bool.or_eq_true, ihskip, ihtake,
        divided_any_cons segmentStands_stars]
  | case4 first rest segment text hstars ih =>
      rw [globSegments, if_neg hstars, Bool.and_eq_true, segmentMatch_iff, ih,
        divided_one_cons (segmentStands_iff hstars)]

/-- A path matches a glob if and only if its segments can be divided into parts that the segments
of the glob stand for. -/
theorem globMatch_iff (pattern path : Text) :
    globMatch pattern path = true ↔
      ∃ parts : List (List Text), parts.flatten = path.splitOn '/' ∧
        List.Forall₂ SegmentStands (pattern.splitOn '/') parts :=
  globSegments_iff _ _

end Vanyline.Health.Expansion
