import Vanyline.Lib.ByteOffsets

/-!
# Head and tail of a command's output

`bound_head_tail` keeps the first and the last lines of an output that is too long, each in one
half of the byte budget, and puts a marker between them.  When what it puts together is still too
long, the tail gives up lines one by one.

* `find_split` and `find_count_from_end` are one loop, over the lines and over the reversed lines:
  `findFrom_spec`.
* `shrink_eq` says that the last loop only moves the start of the tail.
* `boundHeadTail_spec`: whole lines in front, the marker, whole lines behind, and the bound.  The
  number in the marker is what the text has over `maxBytes`, which is at most what is missing.
-/

namespace Vanyline.Tools.HeadTail

open Vanyline.Lib TextLines ByteOffsets

def marker (n : Nat) : Text :=
  "[... ".toList ++ Nat.toDigits 10 n ++ " bytes truncated ...]".toList

/-- The loop of `find_split` and of `find_count_from_end`: `count` lines with `length` bytes have
been taken. -/
def findFrom (maxBytes : Nat) : Nat → Nat → List Text → Nat
  | count, _, [] => count
  | count, length, line :: ls =>
    let next := length + if count = 0 then byteLen line else byteLen line + 1
    if next > maxBytes then count else findFrom maxBytes (count + 1) next ls

def findSplit (ls : List Text) (maxBytes : Nat) : Nat := findFrom maxBytes 0 0 ls

def findCountFromEnd (ls : List Text) (maxBytes : Nat) : Nat := findFrom maxBytes 0 0 ls.reverse

/-- The lines from `start` on. -/
def footer (ls : List Text) (start : Nat) : Text :=
  if start ≥ ls.length then [] else joinLines (ls.drop start)

/-- `{header}\n{marker}\n{footer}`. -/
def assemble (header mark foot : Text) : Text := header ++ '\n' :: (mark ++ '\n' :: foot)

/-- The loop that takes lines away from the front of the tail. -/
def shrink (header mark : Text) (ls : List Text) (maxBytes start : Nat) : Text :=
  let result := assemble header mark (footer ls start)
  if byteLen result ≤ maxBytes ∨ start ≥ ls.length - 1 then result
  else shrink header mark ls maxBytes (start + 1)
termination_by ls.length - start

def boundHeadTail (text : Text) (maxBytes : Nat) : Text :=
  if text = [] ∨ byteLen text ≤ maxBytes then text
  else
    let ls := lines text
    let mark := marker (byteLen text - maxBytes)
    let budget := maxBytes - (byteLen mark + 2)
    let half := budget / 2
    let splitPoint := findSplit ls half
    let footerLen := min (findCountFromEnd ls half) (ls.length - splitPoint)
    let header := joinLines (ls.take splitPoint)
    let footerStart := ls.length - footerLen
    let result := assemble header mark (footer ls footerStart)
    if byteLen result > maxBytes then shrink header mark ls maxBytes footerStart else result

/-! ## Bytes of joined lines -/

/-- A line more takes a line feed more, unless it is the only one. -/
theorem byteLen_joinLines (ls : List Text) :
    byteLen (joinLines ls) = (ls.map byteLen).sum + (ls.length - 1) := by
  induction ls with
  | nil => rfl
  | cons line ls ih =>
      cases ls with
      | nil =>
          show byteLen line = _
          simp
      | cons next ls =>
          have hfeed : byteLen ['\n'] = 1 := by decide
          show byteLen (line ++ (['\n'] ++ joinLines (next :: ls))) = _
          rw [byteLen_append, byteLen_append, ih, hfeed]
          simp only [List.map_cons, List.sum_cons, List.length_cons]
          omega

theorem byteLen_joinLines_concat (ls : List Text) (line : Text) :
    byteLen (joinLines (ls ++ [line])) =
      byteLen (joinLines ls) + if ls.length = 0 then byteLen line else byteLen line + 1 := by
  rw [byteLen_joinLines, byteLen_joinLines, List.map_append, List.sum_append, List.length_append]
  simp only [List.map_cons, List.map_nil, List.sum_cons, List.sum_nil, List.length_singleton]
  split_ifs with h
  · omega
  · omega

theorem byteLen_joinLines_reverse (ls : List Text) :
    byteLen (joinLines ls.reverse) = byteLen (joinLines ls) := by
  rw [byteLen_joinLines, byteLen_joinLines, List.map_reverse, List.sum_reverse,
    List.length_reverse]

theorem byteLen_joinLines_drop_le (ls : List Text) {i j : Nat} (h : i ≤ j) :
    byteLen (joinLines (ls.drop j)) ≤ byteLen (joinLines (ls.drop i)) := by
  have hdrop : ls.drop i = (ls.drop i).take (j - i) ++ ls.drop j := by
    have hsplit := List.take_append_drop (j - i) (ls.drop i)
    rw [List.drop_drop] at hsplit
    rw [show i + (j - i) = j by omega] at hsplit
    exact hsplit.symm
  rw [hdrop, byteLen_joinLines, byteLen_joinLines, List.map_append, List.sum_append,
    List.length_append]
  omega

/-! ## The scans -/

theorem findFrom_spec {maxBytes : Nat} (ls done : List Text)
    (h : byteLen (joinLines done) ≤ maxBytes) :
    findFrom maxBytes done.length (byteLen (joinLines done)) ls ≤ (done ++ ls).length ∧
      byteLen (joinLines ((done ++ ls).take
        (findFrom maxBytes done.length (byteLen (joinLines done)) ls))) ≤ maxBytes := by
  induction ls generalizing done with
  | nil =>
      rw [findFrom, List.append_nil, List.take_length]
      exact ⟨Nat.le_refl _, h⟩
  | cons line ls ih =>
      have hnext := byteLen_joinLines_concat done line
      rw [findFrom]
      simp only [← hnext]
      split_ifs with hgt
      · rw [List.take_left]
        refine ⟨?_, h⟩
        rw [List.length_append]
        omega
      · have hstep := ih (done ++ [line]) (Nat.le_of_not_lt hgt)
        rw [List.length_append, List.append_assoc] at hstep
        exact hstep

theorem findSplit_le (ls : List Text) (maxBytes : Nat) : findSplit ls maxBytes ≤ ls.length :=
  (findFrom_spec ls [] (Nat.zero_le _)).1

theorem byteLen_take_findSplit_le (ls : List Text) (maxBytes : Nat) :
    byteLen (joinLines (ls.take (findSplit ls maxBytes))) ≤ maxBytes :=
  (findFrom_spec ls [] (Nat.zero_le _)).2

theorem byteLen_drop_findCountFromEnd_le (ls : List Text) (maxBytes : Nat) :
    byteLen (joinLines (ls.drop (ls.length - findCountFromEnd ls maxBytes))) ≤ maxBytes := by
  have hspec := (findFrom_spec ls.reverse [] (Nat.zero_le maxBytes)).2
  have hcount : findFrom maxBytes 0 0 ls.reverse = findCountFromEnd ls maxBytes := rfl
  rw [List.nil_append, List.length_nil, show byteLen (joinLines []) = 0 from rfl, hcount,
    List.take_reverse, byteLen_joinLines_reverse] at hspec
  exact hspec

/-! ## Putting it together -/

theorem footer_eq (ls : List Text) (start : Nat) : footer ls start = joinLines (ls.drop start) := by
  unfold footer
  split_ifs with h
  · rw [List.drop_of_length_le h]
    rfl
  · rfl

theorem byteLen_assemble (header mark foot : Text) :
    byteLen (assemble header mark foot) = byteLen header + byteLen mark + byteLen foot + 2 := by
  have hfeed : byteLen ['\n'] = 1 := by decide
  show byteLen (header ++ (['\n'] ++ (mark ++ (['\n'] ++ foot)))) = _
  simp only [byteLen_append, hfeed]
  omega

/-- The start of the tail moves to the end, nothing else changes. -/
theorem shrink_eq (header mark : Text) (ls : List Text) (maxBytes start : Nat) :
    ∃ moved, start ≤ moved ∧
      shrink header mark ls maxBytes start = assemble header mark (joinLines (ls.drop moved)) := by
  induction start using shrink.induct header mark ls maxBytes with
  | case1 start result h =>
      refine ⟨start, Nat.le_refl _, ?_⟩
      rw [shrink, if_pos h, footer_eq]
  | case2 start result h ih =>
      rcases ih with ⟨moved, hle, heq⟩
      refine ⟨moved, by omega, ?_⟩
      rw [shrink, if_neg h, heq]

/-- What a truncated text is made of: the lines from `head` and from `tail`, which share none. -/
structure Parts (text : Text) where
  head : List Text
  middle : List Text
  tail : List Text
  lines_eq : lines text = head ++ (middle ++ tail)

/-- The bytes of the text that are not in the lines kept. -/
def Parts.absent {text : Text} (parts : Parts text) : Nat :=
  byteLen text - (byteLen (joinLines parts.head) + byteLen (joinLines parts.tail))

/-- What a text is truncated to, with the number `n` in the marker. -/
def Parts.shown {text : Text} (parts : Parts text) (n : Nat) : Text :=
  assemble (joinLines parts.head) (marker n) (joinLines parts.tail)

/-- The first lines up to `split` and those from `start` on. -/
def Parts.of (text : Text) {split start : Nat} (h : split ≤ start) : Parts text where
  head := (lines text).take split
  middle := ((lines text).drop split).take (start - split)
  tail := (lines text).drop start
  lines_eq := by
    have hdrop := List.take_append_drop (start - split) ((lines text).drop split)
    rw [List.drop_drop, show split + (start - split) = start by omega] at hdrop
    rw [hdrop, List.take_append_drop]

/-- The text is cut at line ends, and what is left with the marker is within the bound. -/
theorem boundHeadTail_spec {text : Text} {maxBytes : Nat} (h : maxBytes < byteLen text) :
    ∃ parts : Parts text,
      boundHeadTail text maxBytes = parts.shown (byteLen text - maxBytes) ∧
        (byteLen (marker (byteLen text - maxBytes)) + 2 ≤ maxBytes →
          byteLen (boundHeadTail text maxBytes) ≤ maxBytes) ∧
        byteLen text - maxBytes ≤ parts.absent := by
  have hcut : ¬ (text = [] ∨ byteLen text ≤ maxBytes) := by
    rintro (rfl | hle)
    · exact Nat.not_lt_zero _ h
    · omega
  rw [boundHeadTail, if_neg hcut]
  simp only [footer_eq]
  set ls := lines text
  set mark := marker (byteLen text - maxBytes)
  set half := (maxBytes - (byteLen mark + 2)) / 2 with hhalf
  set split := findSplit ls half
  set start := ls.length - min (findCountFromEnd ls half) (ls.length - split) with hstart
  have hsplit : split ≤ start := by
    have hle := findSplit_le ls half
    omega
  have hheader : byteLen (joinLines (ls.take split)) ≤ half := byteLen_take_findSplit_le ls half
  have hfooter : byteLen (joinLines (ls.drop start)) ≤ half := by
    apply Nat.le_trans (byteLen_joinLines_drop_le ls _) (byteLen_drop_findCountFromEnd_le ls half)
    omega
  have hlength := byteLen_assemble (joinLines (ls.take split)) mark (joinLines (ls.drop start))
  -- both halves are within the budget, so what is missing is counted from the budget
  have habsent : ∀ {moved : Nat} (hmoved : start ≤ moved),
      byteLen text - maxBytes ≤ (Parts.of text (Nat.le_trans hsplit hmoved)).absent := by
    intro moved hmoved
    have hle := byteLen_joinLines_drop_le ls hmoved
    show byteLen text - maxBytes ≤ byteLen text -
      (byteLen (joinLines (ls.take split)) + byteLen (joinLines (ls.drop moved)))
    omega
  split_ifs with hgt
  · rcases shrink_eq (joinLines (ls.take split)) mark ls maxBytes start with ⟨moved, hle, heq⟩
    refine ⟨Parts.of text (Nat.le_trans hsplit hle), heq, ?_, habsent hle⟩
    intro hmark
    omega
  · exact ⟨Parts.of text hsplit, rfl, fun _ => Nat.le_of_not_lt hgt, habsent (Nat.le_refl _)⟩

/-- One line of forty letters. -/
def longLine : Text := List.replicate 40 'a'

theorem boundHeadTail_spec_longLine : 30 < byteLen longLine ∧ ∃ parts : Parts longLine,
    boundHeadTail longLine 30 = parts.shown (byteLen longLine - 30) ∧
      (byteLen (marker (byteLen longLine - 30)) + 2 ≤ 30 →
        byteLen (boundHeadTail longLine 30) ≤ 30) ∧
      byteLen longLine - 30 ≤ parts.absent :=
  ⟨by decide, boundHeadTail_spec (by decide)⟩

/-- A line that is left out as a whole counts with what the text has over the bound only. -/
theorem marker_not_absent : ¬ ∀ (text : Text) (maxBytes : Nat), maxBytes < byteLen text →
    ∃ (parts : Parts text) (n : Nat), boundHeadTail text maxBytes = parts.shown n ∧
      (byteLen (marker n) + 2 ≤ maxBytes → byteLen (boundHeadTail text maxBytes) ≤ maxBytes) ∧
      n = parts.absent := by
  intro hall
  rcases hall longLine 30 (by decide) with ⟨parts, n, hshown, -, habsent⟩
  have hresult : boundHeadTail longLine 30 = assemble [] (marker 10) [] := by decide +kernel
  have hbytes : byteLen longLine = 40 := by decide
  have hmarker : byteLen (marker 10) = 28 := by decide +kernel
  have hlines : lines longLine = [longLine] := by decide +kernel
  have hlength := congrArg byteLen (hshown.symm.trans hresult)
  rw [Parts.shown, byteLen_assemble, byteLen_assemble, hmarker] at hlength
  have hempty : byteLen ([] : Text) = 0 := rfl
  -- the marker alone takes the thirty bytes, so the line is in the middle
  have hkept : ∀ ls : List Text, ls ⊆ lines longLine → byteLen (joinLines ls) < 40 →
      joinLines ls = [] := by
    intro ls hsub hlt
    cases ls with
    | nil => rfl
    | cons line ls =>
        have hline : line = longLine := by
          have hmem := hsub (List.mem_cons_self ..)
          rw [hlines] at hmem
          exact List.mem_singleton.1 hmem
        rw [hline, byteLen_joinLines, List.map_cons, List.sum_cons, hbytes] at hlt
        omega
  have hhead := hkept parts.head
    (fun line h => parts.lines_eq ▸ List.mem_append_left _ h) (by omega)
  have htail := hkept parts.tail
    (fun line h => parts.lines_eq ▸ List.mem_append_right _ (List.mem_append_right _ h)) (by omega)
  rw [Parts.absent, hhead, htail, hbytes, hempty] at habsent
  rw [Parts.shown, hhead, htail, habsent, hresult] at hshown
  have hne : assemble [] (marker 10) [] ≠ assemble [] (marker 40) [] := by decide +kernel
  exact hne hshown

end Vanyline.Tools.HeadTail
