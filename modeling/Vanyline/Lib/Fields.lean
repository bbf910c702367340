import Vanyline.Lib.TextLines

/-!
# Fields of a text

A text is divided at a separator: at each one (`splitOn` of the library, and `splitText` for a
separator of several characters), or at the first ones only (`splitn`).

* `splitAtText` finds the first place of a text in another one: `splitAtText_eq_none_iff`,
  `splitAtText_eq_some` and `splitAtText_first` say which one it is.
* `splitn_ended` and `splitText_intercalate` read back the fields of a text that was put together,
  `length_splitOn` counts them.
* `lines_joinLines` does the same for lines without a line feed behind the last one.
-/

namespace Vanyline.Lib.Fields

open Vanyline.Lib.TextLines

/-! ## Dividing -/

/-- What is before the first place of a text, and what is behind it. -/
def splitAtText (sep : Text) : Text → Option (Text × Text)
  | [] => (stripPrefix sep []).map fun rest => ([], rest)
  | c :: text =>
    match stripPrefix sep (c :: text) with
    | some rest => some ([], rest)
    | none => (splitAtText sep text).map fun parts => (c :: parts.1, parts.2)

/-- At most as many parts as `fuel` and one more. -/
def splitTextFrom (sep : Text) : Nat → Text → List Text
  | 0, text => [text]
  | fuel + 1, text =>
    match splitAtText sep text with
    | some (before, rest) => before :: splitTextFrom sep fuel rest
    | none => [text]

/-- The parts between the places of a text that is not empty. -/
def splitText (sep text : Text) : List Text := splitTextFrom sep text.length text

/-- Every place of a text is replaced. -/
def replaceText (old new text : Text) : Text := List.intercalate new (splitText old text)

/-- The first `n - 1` fields that a character ends, and the rest. -/
def splitn (c : Char) : Nat → Text → List Text
  | 0, _ => []
  | 1, text => [text]
  | n + 2, text =>
    match splitOnce c text with
    | (before, some rest) => before :: splitn c (n + 1) rest
    | (before, none) => [before]

/-! ## Fields that end with a character -/

theorem splitOnce_ended {c : Char} {f : Text} (h : c ∉ f) (fields : List Text) (last : Text) :
    splitOnce c ((f :: fields).flatMap (· ++ [c]) ++ last) =
      (f, some (fields.flatMap (· ++ [c]) ++ last)) := by
  rw [List.flatMap_cons, List.append_assoc, List.append_assoc]
  exact splitOnce_append h _

theorem splitn_ended {c : Char} {fields : List Text} (h : ∀ f ∈ fields, c ∉ f) (last : Text) :
    splitn c (fields.length + 1) (fields.flatMap (· ++ [c]) ++ last) = fields ++ [last] := by
  induction fields with
  | nil => rfl
  | cons f fields ih =>
    rw [List.forall_mem_cons] at h
    rw [List.length_cons, splitn, splitOnce_ended h.1]
    exact congrArg (f :: ·) (ih h.2)

/-- Each field is divided on its own. -/
theorem splitOn_fields (c : Char) (fields : List Text) (last : Text) :
    (fields.flatMap (· ++ [c]) ++ last).splitOn c =
      fields.flatMap (·.splitOn c) ++ last.splitOn c := by
  induction fields with
  | nil => rfl
  | cons f fields ih =>
    rw [List.flatMap_cons, List.append_assoc, List.append_assoc, List.flatMap_cons,
      List.append_assoc]
    show (f ++ c :: (fields.flatMap (· ++ [c]) ++ last)).splitOn c = _
    rw [List.splitOn_append_cons_self, ih]

theorem splitOn_ended {c : Char} {fields : List Text} (h : ∀ f ∈ fields, c ∉ f) {last : Text}
    (hlast : c ∉ last) : (fields.flatMap (· ++ [c]) ++ last).splitOn c = fields ++ [last] := by
  rw [splitOn_fields, List.splitOn_eq_singleton hlast]
  congr 1
  induction fields with
  | nil => rfl
  | cons f fields ih =>
    rw [List.forall_mem_cons] at h
    rw [List.flatMap_cons, List.splitOn_eq_singleton h.1, ih h.2]
    rfl

theorem splitOn_newline (text : Text) : text.splitOn '\n' = (cut text).1 ++ [(cut text).2] := by
  obtain ⟨hlines, hlast⟩ := newline_notMem_cut text
  rw [← splitOn_ended hlines hlast]
  exact congrArg (List.splitOn '\n') (unlines_cut text).symm

/-- One field more than there are separators. -/
theorem length_splitOn (c : Char) (text : Text) : (text.splitOn c).length = text.count c + 1 := by
  induction text with
  | nil => rfl
  | cons d text ih =>
    rw [List.splitOn_cons_eq_if_modifyHead, List.count_cons]
    split_ifs with heq
    · rw [List.length_cons, ih]
    · rw [List.length_modifyHead, ih]

/-- A separator inside of a field makes two fields of it. -/
theorem length_splitOn_ended {c : Char} {fields : List Text} (h : ∃ f ∈ fields, c ∈ f)
    (last : Text) :
    fields.length + 1 < ((fields.flatMap (· ++ [c]) ++ last).splitOn c).length := by
  have hparts : ∀ fields : List Text,
      fields.length ≤ (fields.flatMap (·.splitOn c)).length := by
    intro fields
    induction fields with
    | nil => exact Nat.zero_le _
    | cons f fields ih =>
      rw [List.flatMap_cons, List.length_append, length_splitOn, List.length_cons]
      omega
  rcases h with ⟨f, hmem, hc⟩
  obtain ⟨before, after, rfl⟩ := List.append_of_mem hmem
  have hbefore := hparts before
  have hafter := hparts after
  have hpos := List.count_pos_iff.2 hc
  rw [splitOn_fields, List.flatMap_append, List.flatMap_cons, List.length_append,
    List.length_append, List.length_append, List.length_append, length_splitOn, length_splitOn,
    List.length_cons]
  omega

/-! ## The first place -/

/-- Where a text is found there is none of it before, not even one that ends inside of it. -/
def FirstPlace (sep before : Text) : Prop := ¬sep <:+: before ++ sep.dropLast

theorem stripPrefix_eq_none_iff {pre text : Text} : stripPrefix pre text = none ↔ ¬pre <+: text := by
  constructor
  · intro h hprefix
    rcases hprefix with ⟨rest, rfl⟩
    rw [stripPrefix_append] at h
    cases h
  · intro h
    cases hstrip : stripPrefix pre text with
    | none => rfl
    | some rest => exact absurd ⟨rest, (stripPrefix_eq_some hstrip).symm⟩ h

theorem splitAtText_eq_none_iff {sep text : Text} :
    splitAtText sep text = none ↔ ¬sep <:+: text := by
  induction text with
  | nil =>
    rw [splitAtText, Option.map_eq_none_iff, stripPrefix_eq_none_iff, List.infix_nil,
      List.prefix_nil]
  | cons c text ih =>
    rw [splitAtText, List.infix_cons_iff, not_or, ← stripPrefix_eq_none_iff, ← ih]
    cases stripPrefix sep (c :: text) with
    | none =>
      show (splitAtText sep text).map _ = none ↔ _
      rw [Option.map_eq_none_iff]
      exact ⟨fun h => ⟨rfl, h⟩, fun h => h.2⟩
    | some rest => exact ⟨fun h => (nomatch h), fun h => (nomatch h.1)⟩

theorem firstPlace_nil {sep : Text} (hsep : sep ≠ []) : FirstPlace sep [] := by
  intro h
  have hlength := h.length_le
  have hpos := List.length_pos_iff.2 hsep
  rw [List.nil_append, List.length_dropLast] at hlength
  omega

theorem splitAtText_eq_some {sep text before rest : Text} (hsep : sep ≠ [])
    (h : splitAtText sep text = some (before, rest)) :
    text = before ++ sep ++ rest ∧ FirstPlace sep before := by
  induction text generalizing before with
  | nil =>
    rw [splitAtText, Option.map_eq_some_iff] at h
    rcases h with ⟨rest', hstrip, heq⟩
    cases heq
    exact ⟨stripPrefix_eq_some hstrip, firstPlace_nil hsep⟩
  | cons c text ih =>
    rw [splitAtText] at h
    cases hstrip : stripPrefix sep (c :: text) with
    | some rest' =>
      rw [hstrip] at h
      cases h
      exact ⟨stripPrefix_eq_some hstrip, firstPlace_nil hsep⟩
    | none =>
      rw [hstrip] at h
      rcases Option.map_eq_some_iff.1 h with ⟨⟨before', rest'⟩, hsplit, heq⟩
      cases heq
      rcases ih hsplit with ⟨htext, hfirst⟩
      refine ⟨congrArg (c :: ·) htext, ?_⟩
      intro hplace
      rcases List.infix_cons_iff.1 hplace with hprefix | hinfix
      · apply stripPrefix_eq_none_iff.1 hstrip
        have hshort : before' ++ sep.dropLast <+: before' ++ sep :=
          (List.prefix_append_right_inj _).2 (List.dropLast_prefix sep)
        have hlong := hshort.trans (List.prefix_append _ rest')
        rw [htext]
        exact hprefix.trans (List.cons_prefix_cons.2 ⟨rfl, hlong⟩)
      · exact hfirst hinfix

theorem length_lt_of_splitAtText {sep text before rest : Text} (hsep : sep ≠ [])
    (h : splitAtText sep text = some (before, rest)) : rest.length < text.length := by
  have hpos := List.length_pos_iff.2 hsep
  rw [(splitAtText_eq_some hsep h).1, List.length_append, List.length_append]
  omega

/-- There is one first place only. -/
theorem FirstPlace.length_le {sep before before' rest rest' : Text} (h : FirstPlace sep before)
    (heq : before ++ sep ++ rest = before' ++ sep ++ rest') : before.length ≤ before'.length := by
  by_contra hlt
  apply h
  have hplace : before' ++ sep <+: before ++ sep ++ rest := by
    rw [heq]
    exact List.prefix_append _ _
  have hshort : before ++ sep.dropLast <+: before ++ sep ++ rest :=
    ((List.prefix_append_right_inj before).2 (List.dropLast_prefix sep)).trans
      (List.prefix_append _ _)
  have hprefix := List.prefix_of_prefix_length_le hplace hshort (by
    rw [List.length_append, List.length_append, List.length_dropLast]
    omega)
  exact (List.suffix_append before' sep).isInfix.trans hprefix.isInfix

theorem splitAtText_first {sep before : Text} (hsep : sep ≠ []) (h : FirstPlace sep before)
    (rest : Text) : splitAtText sep (before ++ sep ++ rest) = some (before, rest) := by
  cases hsplit : splitAtText sep (before ++ sep ++ rest) with
  | none =>
    exact absurd ⟨before, rest, rfl⟩ (splitAtText_eq_none_iff.1 hsplit)
  | some parts =>
    rcases splitAtText_eq_some hsep hsplit with ⟨heq, hfirst⟩
    have hlength := Nat.le_antisymm (h.length_le heq) (hfirst.length_le heq.symm)
    rw [List.append_assoc, List.append_assoc] at heq
    rcases List.append_inj heq hlength with ⟨hbefore, hrest⟩
    rw [hbefore, List.append_cancel_left hrest]

/-- A text whose last character is nowhere else in it does not end inside of itself. -/
theorem firstPlace_of_last {sep before : Text} {c : Char} (hc : c ∉ sep)
    (h : ¬sep ++ [c] <:+: before) : FirstPlace (sep ++ [c]) before := by
  intro hplace
  rw [List.dropLast_concat] at hplace
  rcases hplace with ⟨gap, rest, heq⟩
  rw [List.append_assoc, List.append_assoc, ← List.append_assoc gap, List.append_eq_append_iff]
    at heq
  rcases heq with ⟨more, hbefore, hrest⟩ | ⟨more, hgap, hrest⟩
  · cases more with
    | nil =>
      apply hc
      rw [show sep = [c] ++ rest from hrest.symm]
      exact List.mem_cons_self
    | cons d more =>
      apply h
      cases (List.cons.inj hrest).1
      exact ⟨gap, more, by rw [hbefore]; simp⟩
  · apply hc
    rw [hrest]
    exact List.mem_append_right _ List.mem_cons_self

/-- A text is found before a character that it does not have, or behind it. -/
theorem place_cases {sep gap rest before after : Text} {c : Char} (hc : c ∉ sep)
    (h : gap ++ sep ++ rest = before ++ c :: after) :
    (∃ more, before = gap ++ sep ++ more ∧ rest = more ++ c :: after) ∨
      ∃ more, gap = before ++ c :: more ∧ after = more ++ sep ++ rest := by
  rcases List.append_eq_append_iff.1 h with ⟨more, hbefore, hrest⟩ | ⟨more, hgap, hrest⟩
  · exact Or.inl ⟨more, hbefore, hrest⟩
  · cases more with
    | nil => exact Or.inl ⟨[], by rw [List.append_nil] at hgap ⊢; exact hgap.symm, hrest.symm⟩
    | cons d more =>
      cases (List.cons.inj hrest).1
      rcases List.append_eq_append_iff.1 hgap with ⟨tail, hbefore, hsep⟩ | ⟨tail, hgap', hsep⟩
      · exact absurd (by rw [hsep]; exact List.mem_append_right _ List.mem_cons_self) hc
      · cases tail with
        | nil => exact absurd (by rw [← List.nil_append sep, ← hsep]; exact List.mem_cons_self) hc
        | cons e tail =>
          cases (List.cons.inj hsep).1
          refine Or.inr ⟨tail, hgap', ?_⟩
          rw [(List.cons.inj hrest).2, (List.cons.inj hsep).2]
          rfl

/-! ## Fields with a text between them -/

/-- The text can stand between separators. -/
structure Whole (sep field : Text) : Prop where
  none : splitAtText sep field = none
  first : ∀ more, splitAtText sep (field ++ sep ++ more) = some (field, more)

theorem splitTextFrom_intercalate {sep : Text} {fields : List Text} {fuel : Nat}
    (h : ∀ f ∈ fields, Whole sep f) (hne : fields ≠ []) (hfuel : fields.length ≤ fuel + 1) :
    splitTextFrom sep fuel (sep.intercalate fields) = fields := by
  induction fields generalizing fuel with
  | nil => exact absurd rfl hne
  | cons f fields ih =>
    rw [List.forall_mem_cons] at h
    cases fields with
    | nil =>
      rw [List.intercalate_singleton]
      cases fuel with
      | zero => rfl
      | succ fuel => rw [splitTextFrom, h.1.none]
    | cons next fields =>
      obtain ⟨fuel, rfl⟩ : ∃ n, fuel = n + 1 := by
        rw [List.length_cons, List.length_cons] at hfuel
        exact ⟨fuel - 1, by omega⟩
      rw [List.intercalate_cons_cons, splitTextFrom, h.1.first]
      show f :: splitTextFrom sep fuel (sep.intercalate (next :: fields)) = _
      rw [ih h.2 (List.cons_ne_nil _ _) (by rw [List.length_cons] at hfuel; omega)]

theorem mem_intercalate {c : Char} {sep : Text} {fields : List Text}
    (h : c ∈ sep.intercalate fields) : c ∈ sep ∨ ∃ f ∈ fields, c ∈ f := by
  induction fields with
  | nil => cases h
  | cons f fields ih =>
    cases fields with
    | nil =>
      rw [List.intercalate_singleton] at h
      exact Or.inr ⟨f, List.mem_cons_self, h⟩
    | cons next fields =>
      rw [List.intercalate_cons_cons, List.mem_append, List.mem_append] at h
      rcases h with (h | h) | h
      · exact Or.inr ⟨f, List.mem_cons_self, h⟩
      · exact Or.inl h
      · rcases ih h with h | ⟨g, hg, hmem⟩
        · exact Or.inl h
        · exact Or.inr ⟨g, List.mem_cons_of_mem _ hg, hmem⟩

/-- Only the separators can make nothing of fields that are something. -/
theorem intercalate_ne_nil {sep : Text} {fields : List Text} (h : ∀ f ∈ fields, f ≠ [])
    (hne : fields ≠ []) : sep.intercalate fields ≠ [] := by
  cases fields with
  | nil => exact absurd rfl hne
  | cons f fields =>
    rw [List.forall_mem_cons] at h
    cases fields with
    | nil =>
      rw [List.intercalate_singleton]
      exact h.1
    | cons next fields =>
      rw [List.intercalate_cons_cons, List.append_assoc]
      exact List.append_ne_nil_of_left_ne_nil h.1 _

theorem length_le_intercalate {sep : Text} (hsep : sep ≠ []) (fields : List Text) :
    fields.length ≤ (sep.intercalate fields).length + 1 := by
  have hpos := List.length_pos_iff.2 hsep
  induction fields with
  | nil => exact Nat.zero_le _
  | cons f fields ih =>
    cases fields with
    | nil =>
      rw [List.length_singleton]
      omega
    | cons next fields =>
      rw [List.intercalate_cons_cons, List.length_append, List.length_append, List.length_cons]
      omega

theorem splitText_intercalate {sep : Text} (hsep : sep ≠ []) {fields : List Text}
    (h : ∀ f ∈ fields, Whole sep f) (hne : fields ≠ []) :
    splitText sep (sep.intercalate fields) = fields :=
  splitTextFrom_intercalate h hne (length_le_intercalate hsep fields)

/-- With a separator of two characters that differ, it is enough that it is not in the field. -/
theorem whole_of_pair {c d : Char} (hcd : d ≠ c) {field : Text}
    (h : splitAtText [c, d] field = none) : Whole [c, d] field := by
  refine ⟨h, ?_⟩
  have hd : d ∉ [c] := fun hmem => hcd (List.mem_singleton.1 hmem)
  exact splitAtText_first (List.cons_ne_nil _ _)
    (firstPlace_of_last hd (splitAtText_eq_none_iff.1 h))

/-! ## Lines -/

theorem lines_joinLines {ls : List Text}
    (h : ∀ line ∈ ls, line ≠ [] ∧ '\n' ∉ line ∧ line.getLast? ≠ some '\r') :
    lines (joinLines ls) = ls := by
  rcases List.eq_nil_or_concat' ls with rfl | ⟨init, last, rfl⟩
  · rfl
  · have hlast := h last (List.mem_append_right _ List.mem_cons_self)
    have hinit : ∀ line ∈ init, '\n' ∉ line :=
      fun line hline => (h line (List.mem_append_left _ hline)).2.1
    have hstrip : init.map stripCr = init := by
      conv_rhs => rw [← List.map_id init]
      apply List.map_congr_left
      intro line hline
      exact stripCr_eq_self_iff.2 (h line (List.mem_append_left _ hline)).2.2
    unfold lines
    rw [joinLines_concat, cut_unlines hinit, cut_of_no_newline hlast.2.1, List.append_nil, hstrip,
      if_neg hlast.1]

end Vanyline.Lib.Fields
