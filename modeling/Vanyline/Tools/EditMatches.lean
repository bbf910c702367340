import Vanyline.Lib.Fields
import Vanyline.Tools.AtomicWrite

/-!
# What an edit replaces

`edit_file` counts the matches of the old text and replaces them, with loops that go on behind
each match.  `Matches` says in which fields they cut the content: the leftmost match comes first,
and the next one is looked for behind it.

* `countMatches_eq` and `replacen_eq`: the loops find these fields.
* `newContent_eq`: when an edit succeeds, and what it writes.  Without `replace_all` it is the one
  match that is replaced; a place that overlaps with it is not seen.
-/

namespace Vanyline.Tools.AtomicWrite

open Vanyline.Lib TextLines Utf8 Fields

/-! ## The fields between the matches -/

/-- The matches from the left, each behind the one before, cut the content in these fields. -/
inductive Matches (old : Text) : Text → List Text → Prop
  | last {text : Text} (none : ¬old <:+: text) : Matches old text [text]
  | cons {before rest : Text} {fields : List Text} (first : FirstPlace old before)
      (more : Matches old rest fields) : Matches old (before ++ old ++ rest) (before :: fields)

variable {old text : Text} {fields : List Text}

theorem Matches.ne_nil (h : Matches old text fields) : fields ≠ [] := by
  cases h <;> exact List.cons_ne_nil _ _

/-- The content is its fields with the old text between them. -/
theorem Matches.intercalate (h : Matches old text fields) : old.intercalate fields = text := by
  induction h with
  | last => exact List.intercalate_singleton
  | cons _ more ih => rw [List.intercalate_cons_of_ne_nil more.ne_nil, ih]

theorem exists_matches (hold : old ≠ []) (text : Text) : ∃ fields, Matches old text fields := by
  induction hn : text.length using Nat.strong_induction_on generalizing text with
  | _ n ih =>
    cases hsplit : splitAtText old text with
    | none => exact ⟨_, .last (splitAtText_eq_none_iff.1 hsplit)⟩
    | some parts =>
        obtain ⟨before, rest⟩ := parts
        have hlt := length_lt_of_splitAtText hold hsplit
        obtain ⟨rfl, hfirst⟩ := splitAtText_eq_some hold hsplit
        obtain ⟨fields, hmore⟩ := ih rest.length (by omega) rest rfl
        exact ⟨_, .cons hfirst hmore⟩

/-! ## The loops -/

theorem countMatches_skip (old : Text) (skip : Nat) (text : Text) :
    countMatches old skip text = countMatches old 0 (text.drop skip) := by
  induction skip generalizing text with
  | zero => rfl
  | succ skip ih =>
      cases text with
      | nil => rfl
      | cons c text =>
          rw [countMatches, ih]
          rfl

theorem replacen_skip (old new : Text) (n skip : Nat) (text : Text) :
    replacen old new n skip text = replacen old new n 0 (text.drop skip) := by
  induction skip generalizing text with
  | zero => rfl
  | succ skip ih =>
      cases text with
      | nil => simp only [replacen, List.drop_nil]
      | cons c text =>
          rw [replacen, ih]
          rfl

/-- Where there is no match, the loops go through. -/
theorem countMatches_last (h : ¬old <:+: text) : countMatches old 0 text = 0 := by
  induction text with
  | nil => rfl
  | cons c text ih =>
      rw [List.infix_cons_iff, not_or] at h
      rw [countMatches, if_neg (fun hfront => h.1 (List.isPrefixOf_iff_prefix.1 hfront)), ih h.2]

theorem replacen_last (new : Text) (n : Nat) (h : ¬old <:+: text) :
    replacen old new n 0 text = text := by
  induction text with
  | nil => rw [replacen]
  | cons c text ih =>
      rw [List.infix_cons_iff, not_or] at h
      cases n with
      | zero => rfl
      | succ n =>
          rw [replacen, if_neg (fun hfront => h.1 (List.isPrefixOf_iff_prefix.1 hfront)), ih h.2]

/-- The loops go on to the first match. -/
theorem firstPlace_tail {c : Char} {before : Text} (h : FirstPlace old (c :: before))
    (rest : Text) :
    ¬old.isPrefixOf (c :: (before ++ old ++ rest)) = true ∧ FirstPlace old before := by
  refine ⟨fun hfront => h ?_, fun hplace => h (hplace.trans (List.suffix_cons c _).isInfix)⟩
  have hshort : c :: before ++ old.dropLast <+: c :: before ++ old ++ rest :=
    ((List.prefix_append_right_inj _).2 (List.dropLast_prefix old)).trans (List.prefix_append _ _)
  refine (List.prefix_of_prefix_length_le (List.isPrefixOf_iff_prefix.1 hfront) hshort ?_).isInfix
  rw [List.length_append, List.length_cons, List.length_dropLast]
  omega

theorem countMatches_first {before : Text} (hold : old ≠ []) (h : FirstPlace old before)
    (rest : Text) : countMatches old 0 (before ++ old ++ rest) = countMatches old 0 rest + 1 := by
  induction before with
  | nil =>
      obtain ⟨d, tail, rfl⟩ := List.exists_cons_of_ne_nil hold
      have hfront : (d :: tail).isPrefixOf (d :: (tail ++ rest)) = true :=
        List.isPrefixOf_iff_prefix.2 (List.prefix_append (d :: tail) rest)
      show countMatches (d :: tail) 0 (d :: (tail ++ rest)) = _
      rw [countMatches, if_pos hfront, countMatches_skip, List.length_cons, Nat.add_sub_cancel,
        List.drop_left]
  | cons c before ih =>
      obtain ⟨hfront, hfirst⟩ := firstPlace_tail h rest
      show countMatches old 0 (c :: (before ++ old ++ rest)) = _
      rw [countMatches, if_neg hfront, ih hfirst]

theorem replacen_first {before : Text} (hold : old ≠ []) (h : FirstPlace old before)
    (new rest : Text) (n : Nat) :
    replacen old new (n + 1) 0 (before ++ old ++ rest) =
      before ++ new ++ replacen old new n 0 rest := by
  induction before with
  | nil =>
      obtain ⟨d, tail, rfl⟩ := List.exists_cons_of_ne_nil hold
      have hfront : (d :: tail).isPrefixOf (d :: (tail ++ rest)) = true :=
        List.isPrefixOf_iff_prefix.2 (List.prefix_append (d :: tail) rest)
      show replacen (d :: tail) new (n + 1) 0 (d :: (tail ++ rest)) = _
      rw [replacen, if_pos hfront, replacen_skip, List.length_cons, Nat.add_sub_cancel,
        List.drop_left]
      rfl
  | cons c before ih =>
      obtain ⟨hfront, hfirst⟩ := firstPlace_tail h rest
      show replacen old new (n + 1) 0 (c :: (before ++ old ++ rest)) = _
      rw [replacen, if_neg hfront, ih hfirst]
      rfl

theorem countMatches_eq (hold : old ≠ []) (h : Matches old text fields) :
    countMatches old 0 text + 1 = fields.length := by
  induction h with
  | last none => rw [countMatches_last none, List.length_singleton]
  | cons first _ ih => rw [countMatches_first hold first, ih, List.length_cons]

/-- With as many as there are, all matches are replaced. -/
theorem replacen_eq (hold : old ≠ []) (new : Text) (h : Matches old text fields) :
    replacen old new (countMatches old 0 text) 0 text = new.intercalate fields := by
  induction h with
  | last none => rw [replacen_last new _ none, List.intercalate_singleton]
  | cons first more ih =>
      rw [countMatches_first hold first, replacen_first hold first, ih,
        List.intercalate_cons_of_ne_nil more.ne_nil]

/-! ## Edits -/

/-- What an edit makes of a text: it needs a match, and without `replace_all` just one.  It writes
the fields with the new text between them. -/
theorem newContent_eq {opts : EditFileOptions} (hold : opts.oldString ≠ []) {read : Bytes}
    {content : Text} (hread : decode read = some content)
    (hmatches : Matches opts.oldString content fields) :
    newContent opts read =
      if fields.length = 1 then .error .editNoMatch
      else if fields.length > 2 ∧ opts.replaceAll = false then
        .error (.editAmbiguous (fields.length - 1))
      else .ok (encode (opts.newString.intercalate fields)) := by
  have hcount := countMatches_eq hold hmatches
  have hlength : countMatches opts.oldString 0 content = fields.length - 1 := by omega
  unfold newContent
  rw [hread]
  dsimp only
  rw [← replacen_eq hold opts.newString hmatches, hlength]
  by_cases hnone : fields.length = 1
  · rw [if_pos (by omega), if_pos hnone]
  · rw [if_neg (by omega), if_neg hnone]
    by_cases hmany : fields.length > 2 ∧ opts.replaceAll = false
    · rw [if_pos ⟨by omega, hmany.2⟩, if_pos hmany]
    · rw [if_neg (fun h => hmany ⟨by omega, h.2⟩), if_neg hmany]
      cases hopts : opts.replaceAll with
      | true => rfl
      | false =>
          -- the one match is all of them
          have hone : fields.length - 1 = 1 := by
            by_contra hne
            exact hmany ⟨by omega, hopts⟩
          rw [hone]
          rfl

/-- Of two places that overlap, the left one is replaced, and the edit is not ambiguous. -/
theorem newContent_eq_overlap :
    newContent ⟨"aa".toList, "b".toList, false⟩ (encode "aaa".toList) =
      .ok (encode "ba".toList) := by
  have hmatches : Matches "aa".toList "aaa".toList [[], "a".toList] := by
    have hlast : Matches "aa".toList "a".toList ["a".toList] :=
      .last fun h => absurd h.length_le (by decide)
    exact .cons (firstPlace_nil (by decide)) hlast
  have hread : decode (encode "aaa".toList) = some "aaa".toList := by decide
  exact @newContent_eq _ ⟨"aa".toList, "b".toList, false⟩ (by decide) _ _ hread hmatches

end Vanyline.Tools.AtomicWrite
