import Mathlib.Algebra.GroupWithZero.Nat
import Vanyline.Lib.TextLines

/-!
# Byte offsets in a text

A text is a list of characters, and a character takes one to four bytes in UTF-8.  A byte
offset that is not at the beginning or the end of a character is in the middle of one, where
a text cannot be divided.

* `splitAtByte` divides a text at an offset, `IsBoundary` says that it can be divided there.
* `replaceRange` replaces what is between two offsets; `replaceRange_eq_some` says when and by
  what.
* `isBoundary_append` and `replaceRange_append` are about the first part of a longer text.
-/

namespace Vanyline.Lib.ByteOffsets

open TextLines

/-- The length in bytes. -/
def byteLen (text : Text) : Nat := (text.map Char.utf8Size).sum

/-- The text before a byte offset and the text behind it. -/
def splitAtByte : Nat → Text → Option (Text × Text)
  | 0, text => some ([], text)
  | _ + 1, [] => none
  | n + 1, c :: text =>
    if c.utf8Size ≤ n + 1 then
      (splitAtByte (n + 1 - c.utf8Size) text).map fun parts => (c :: parts.1, parts.2)
    else none

/-- `is_char_boundary`, which is false for offsets behind the end of the text. -/
def IsBoundary (text : Text) (n : Nat) : Prop := (splitAtByte n text).isSome = true

/-- `replace_range(start..stop, new)`.  There is no value when it panics: when the range ends
before it starts, or when an end of it is not a character boundary. -/
def replaceRange (text : Text) (start stop : Nat) (new : Text) : Option Text :=
  if start ≤ stop then
    match splitAtByte start text, splitAtByte stop text with
    | some (before, _), some (_, after) => some (before ++ new ++ after)
    | _, _ => none
  else none

/-! ## Lengths -/

theorem byteLen_cons (c : Char) (text : Text) :
    byteLen (c :: text) = c.utf8Size + byteLen text := rfl

theorem byteLen_append (text more : Text) :
    byteLen (text ++ more) = byteLen text + byteLen more := by
  rw [byteLen, List.map_append, List.sum_append]
  rfl

theorem byteLen_pos {text : Text} (h : text ≠ []) : 0 < byteLen text := by
  cases text with
  | nil => exact absurd rfl h
  | cons c text =>
      have hc := Char.utf8Size_pos c
      rw [byteLen_cons]
      omega

/-- A longer beginning of a text takes more bytes. -/
theorem byteLen_take_lt {text : Text} {i j : Nat} (hlt : i < j) (hle : j ≤ text.length) :
    byteLen (text.take i) < byteLen (text.take j) := by
  have hsplit : text.take j = text.take i ++ (text.take j).drop i := by
    conv_lhs => rw [← List.take_append_drop i (text.take j), List.take_take,
      Nat.min_eq_left (Nat.le_of_lt hlt)]
  have hne : (text.take j).drop i ≠ [] := by
    intro hnil
    have hlength := congrArg List.length hnil
    rw [List.length_drop, List.length_take, List.length_nil] at hlength
    omega
  have hpos := byteLen_pos hne
  rw [hsplit, byteLen_append]
  omega

theorem byteLen_take_le_iff {text : Text} {i j : Nat} (hi : i ≤ text.length)
    (hj : j ≤ text.length) : byteLen (text.take i) ≤ byteLen (text.take j) ↔ i ≤ j := by
  constructor
  · intro hle
    by_contra hgt
    have hlt := byteLen_take_lt (Nat.lt_of_not_le hgt) hi
    omega
  · intro hle
    rcases Nat.lt_or_eq_of_le hle with hlt | rfl
    · exact Nat.le_of_lt (byteLen_take_lt hlt hj)
    · exact Nat.le_refl _

theorem byteLen_take_inj {text : Text} {i j : Nat} (hi : i ≤ text.length) (hj : j ≤ text.length)
    (h : byteLen (text.take i) = byteLen (text.take j)) : i = j := by
  have hij := (byteLen_take_le_iff hi hj).1 (Nat.le_of_eq h)
  have hji := (byteLen_take_le_iff hj hi).1 (Nat.le_of_eq h.symm)
  omega

/-! ## Dividing a text -/

theorem splitAtByte_eq_some {n : Nat} {text before after : Text} :
    splitAtByte n text = some (before, after) ↔ before ++ after = text ∧ byteLen before = n := by
  induction text generalizing n before with
  | nil =>
      cases n with
      | zero =>
          rw [splitAtByte, Option.some_inj, Prod.mk.injEq]
          constructor
          · rintro ⟨rfl, rfl⟩
            exact ⟨rfl, rfl⟩
          · rintro ⟨happend, -⟩
            obtain ⟨hbefore, hafter⟩ := List.append_eq_nil_iff.1 happend
            exact ⟨hbefore.symm, hafter.symm⟩
      | succ n =>
          refine ⟨fun h => (nomatch h), ?_⟩
          rintro ⟨happend, hlen⟩
          rw [(List.append_eq_nil_iff.1 happend).1] at hlen
          cases hlen
  | cons c text ih =>
      have hc := Char.utf8Size_pos c
      cases n with
      | zero =>
          rw [splitAtByte, Option.some_inj, Prod.mk.injEq]
          constructor
          · rintro ⟨rfl, rfl⟩
            exact ⟨rfl, rfl⟩
          · rintro ⟨happend, hlen⟩
            by_cases hnil : before = []
            · subst hnil
              exact ⟨rfl, happend.symm⟩
            · have hpos := byteLen_pos hnil
              omega
      | succ n =>
          rw [splitAtByte]
          constructor
          · intro h
            split_ifs at h with hle
            obtain ⟨⟨first, rest⟩, hsplit, heq⟩ := Option.map_eq_some_iff.1 h
            cases heq
            obtain ⟨rfl, hlen⟩ := ih.1 hsplit
            refine ⟨rfl, ?_⟩
            rw [byteLen_cons, hlen]
            omega
          · rintro ⟨happend, hlen⟩
            cases before with
            | nil => cases hlen
            | cons d before =>
                rw [List.cons_append, List.cons.injEq] at happend
                obtain ⟨rfl, rfl⟩ := happend
                rw [byteLen_cons] at hlen
                have hrest : splitAtByte (n + 1 - d.utf8Size) (before ++ after) =
                    some (before, after) := ih.2 ⟨rfl, by omega⟩
                rw [if_pos (by omega), hrest]
                rfl

theorem isBoundary_iff {text : Text} {n : Nat} :
    IsBoundary text n ↔ ∃ i ≤ text.length, byteLen (text.take i) = n := by
  constructor
  · intro h
    obtain ⟨⟨before, after⟩, hsplit⟩ := Option.isSome_iff_exists.1 h
    obtain ⟨rfl, hlen⟩ := splitAtByte_eq_some.1 hsplit
    refine ⟨before.length, by rw [List.length_append]; omega, ?_⟩
    rw [List.take_left, hlen]
  · rintro ⟨i, -, hlen⟩
    exact Option.isSome_iff_exists.2
      ⟨_, splitAtByte_eq_some.2 ⟨List.take_append_drop i text, hlen⟩⟩

/-- The first part of a text alone decides about the offsets in it. -/
theorem isBoundary_append {text more : Text} {n : Nat} (hle : n ≤ byteLen text) :
    IsBoundary (text ++ more) n ↔ IsBoundary text n := by
  rw [isBoundary_iff, isBoundary_iff]
  constructor
  · rintro ⟨i, hi, rfl⟩
    by_cases hlong : i ≤ text.length
    · refine ⟨i, hlong, ?_⟩
      rw [List.take_append_of_le_length hlong]
    · have hlt := byteLen_take_lt (Nat.lt_of_not_le hlong) hi
      rw [List.take_left] at hlt
      omega
  · rintro ⟨i, hi, rfl⟩
    refine ⟨i, by rw [List.length_append]; omega, ?_⟩
    rw [List.take_append_of_le_length hi]

theorem IsBoundary.le {text : Text} {n : Nat} (h : IsBoundary text n) : n ≤ byteLen text := by
  obtain ⟨i, -, rfl⟩ := isBoundary_iff.1 h
  have happend := byteLen_append (text.take i) (text.drop i)
  rw [List.take_append_drop] at happend
  omega

/-- An offset in the middle of a character. -/
theorem not_isBoundary_inside {before after : Text} {c : Char} {n : Nat}
    (hlt : byteLen before < n) (hgt : n < byteLen before + c.utf8Size) :
    ¬IsBoundary (before ++ c :: after) n := by
  intro h
  obtain ⟨i, hi, hlen⟩ := isBoundary_iff.1 h
  by_cases hle : i ≤ before.length
  · have hmono := (byteLen_take_le_iff (i := i) (j := before.length) hi
      (by rw [List.length_append]; omega)).2 hle
    rw [List.take_left] at hmono
    omega
  · have hmono := (byteLen_take_le_iff (i := before.length + 1) (j := i)
      (by rw [List.length_append, List.length_cons]; omega) hi).2 (by omega)
    rw [List.take_length_add_append, byteLen_append] at hmono
    have hc : byteLen (List.take 1 (c :: after)) = c.utf8Size := rfl
    omega

/-! ## Replacing a range -/

theorem replaceRange_eq_some {text new result : Text} {start stop : Nat} :
    replaceRange text start stop new = some result ↔
      ∃ i j, i ≤ j ∧ j ≤ text.length ∧ byteLen (text.take i) = start ∧
        byteLen (text.take j) = stop ∧ result = text.take i ++ new ++ text.drop j := by
  have hsplit : ∀ k, splitAtByte (byteLen (text.take k)) text = some (text.take k, text.drop k) :=
    fun k => splitAtByte_eq_some.2 ⟨List.take_append_drop k text, rfl⟩
  constructor
  · intro h
    unfold replaceRange at h
    split_ifs at h with hle
    split at h
    · rename_i before _ _ after hstart hstop
      have hbound : IsBoundary text start := by rw [IsBoundary, hstart]; rfl
      have hbound' : IsBoundary text stop := by rw [IsBoundary, hstop]; rfl
      obtain ⟨i, hi, rfl⟩ := isBoundary_iff.1 hbound
      obtain ⟨j, hj, rfl⟩ := isBoundary_iff.1 hbound'
      rw [hsplit] at hstart hstop
      cases hstart
      cases hstop
      cases h
      exact ⟨i, j, (byteLen_take_le_iff hi hj).1 hle, hj, rfl, rfl, rfl⟩
    · cases h
  · rintro ⟨i, j, hij, hj, rfl, rfl, rfl⟩
    rw [replaceRange, if_pos ((byteLen_take_le_iff (hij.trans hj) hj).2 hij), hsplit, hsplit]

/-- A range in the first part of a text. -/
theorem replaceRange_append {text : Text} {i j : Nat} (hij : i ≤ j) (hj : j ≤ text.length)
    (new more : Text) :
    replaceRange (text ++ more) (byteLen (text.take i)) (byteLen (text.take j)) new =
      some (text.take i ++ (new ++ text.drop j ++ more)) := by
  have hi := hij.trans hj
  refine replaceRange_eq_some.2 ⟨i, j, hij, by rw [List.length_append]; omega, ?_, ?_, ?_⟩
  · rw [List.take_append_of_le_length hi]
  · rw [List.take_append_of_le_length hj]
  · rw [List.take_append_of_le_length hi, List.drop_append_of_le_length hj]
    simp only [List.append_assoc]

end Vanyline.Lib.ByteOffsets
