import Mathlib.Data.List.Basic
import Mathlib.Data.List.DropRight

/-!
# Texts and their lines

A text is a list of characters.  `cut` divides it at the line feeds into the lines that are
ended by one and what is left behind the last one, and `lines` are the lines without the
carriage return that an ended line may have.

* `cut_append` says what the end of a text and the beginning of another one become.
* `lines_unlines` gives back the lines of a text that has been put together.
* `joinLines_lines_iff` says when a text that begins and ends with no white space survives
  being divided into lines and joined again: when no line of it ends in a carriage return.
* `stripPrefix`, `trim`, `splitOnce`, `firstWord` and `parseNat` are what line formats are read
  with.  `parseNat_toDigits` reads back a decimal number.
-/

namespace Vanyline.Lib.TextLines

abbrev Text := List Char

/-! ## Lines -/

/-- The lines that are ended, and the rest. -/
def cut : Text → List Text × Text
  | [] => ([], [])
  | c :: text =>
    if c = '\n' then ([] :: (cut text).1, (cut text).2)
    else
      match (cut text).1 with
      | [] => ([], c :: (cut text).2)
      | line :: lines => ((c :: line) :: lines, (cut text).2)

/-- A carriage return at the end is taken away. -/
def stripCr (line : Text) : Text :=
  if line.getLast? = some '\r' then line.dropLast else line

def lines (text : Text) : List Text :=
  (cut text).1.map stripCr ++ if (cut text).2 = [] then [] else [(cut text).2]

def unlines (ls : List Text) : Text := ls.flatMap (· ++ ['\n'])

theorem cut_of_no_newline {text : Text} (h : '\n' ∉ text) : cut text = ([], text) := by
  induction text with
  | nil => rfl
  | cons c text ih =>
      rw [List.mem_cons, not_or] at h
      rw [cut, if_neg (Ne.symm h.1), ih h.2]

theorem newline_notMem_cut (text : Text) :
    (∀ line ∈ (cut text).1, '\n' ∉ line) ∧ '\n' ∉ (cut text).2 := by
  induction text with
  | nil => exact ⟨fun _ h => (nomatch h), fun h => (nomatch h)⟩
  | cons c text ih =>
      rw [cut]
      split_ifs with hc
      · refine ⟨?_, ih.2⟩
        intro line hline
        rcases List.mem_cons.1 hline with rfl | hline
        · exact fun h => (nomatch h)
        · exact ih.1 line hline
      · have hne : '\n' ≠ c := fun heq => hc heq.symm
        split
        · refine ⟨fun _ h => (nomatch h), ?_⟩
          rw [List.mem_cons, not_or]
          exact ⟨hne, ih.2⟩
        · rename_i first rest hcut
          rw [hcut] at ih
          refine ⟨?_, ih.2⟩
          intro line hline
          rcases List.mem_cons.1 hline with rfl | hline
          · rw [List.mem_cons, not_or]
            exact ⟨hne, ih.1 first (List.mem_cons_self ..)⟩
          · exact ih.1 line (List.mem_cons_of_mem _ hline)

/-- A line and its line feed in front of a text. -/
theorem cut_line {line : Text} (h : '\n' ∉ line) (text : Text) :
    cut (line ++ '\n' :: text) = (line :: (cut text).1, (cut text).2) := by
  induction line with
  | nil => rw [List.nil_append, cut, if_pos rfl]
  | cons c line ih =>
      rw [List.mem_cons, not_or] at h
      rw [List.cons_append, cut, if_neg (Ne.symm h.1), ih h.2]

/-- The last line of a text goes on in the one behind it. -/
theorem cut_append (text more : Text) :
    cut (text ++ more) =
      match (cut more).1 with
      | [] => ((cut text).1, (cut text).2 ++ (cut more).2)
      | line :: rest => ((cut text).1 ++ ((cut text).2 ++ line) :: rest, (cut more).2) := by
  induction text with
  | nil =>
      rcases hcut : cut more with ⟨ls, rest⟩
      cases ls <;> exact hcut
  | cons c text ih =>
      rw [List.cons_append, cut, cut, ih]
      split_ifs with hc
      · cases (cut more).1 <;> rfl
      · rcases htext : cut text with ⟨ls, rest⟩
        rcases hmore : cut more with ⟨ls', rest'⟩
        cases ls <;> cases ls' <;> rfl

theorem cut_unlines {ls : List Text} (h : ∀ line ∈ ls, '\n' ∉ line) (text : Text) :
    cut (unlines ls ++ text) = (ls ++ (cut text).1, (cut text).2) := by
  induction ls with
  | nil => rfl
  | cons line ls ih =>
      have hcons : unlines (line :: ls) ++ text = line ++ '\n' :: (unlines ls ++ text) := by
        rw [unlines, List.flatMap_cons, List.append_assoc, List.append_assoc]
        rfl
      rw [hcons, cut_line (h line (List.mem_cons_self ..)),
        ih fun other hother => h other (List.mem_cons_of_mem _ hother)]
      rfl

/-- A text is its lines and the rest. -/
theorem unlines_cut (text : Text) : unlines (cut text).1 ++ (cut text).2 = text := by
  induction text with
  | nil => rfl
  | cons c text ih =>
      rw [cut]
      split_ifs with hc
      · subst hc
        exact congrArg ('\n' :: ·) ih
      · split
        · rename_i hcut
          rw [hcut] at ih
          exact congrArg (c :: ·) ih
        · rename_i line rest hcut
          rw [hcut] at ih
          exact congrArg (c :: ·) ih

theorem lines_unlines {ls : List Text} (h : ∀ line ∈ ls, '\n' ∉ line) :
    lines (unlines ls) = ls.map stripCr := by
  have hcut := cut_unlines h []
  rw [List.append_nil] at hcut
  unfold lines
  rw [hcut]
  simp [cut]

theorem newline_notMem_lines (text : Text) : ∀ line ∈ lines text, '\n' ∉ line := by
  intro line hline hmem
  obtain ⟨hlines, hlast⟩ := newline_notMem_cut text
  unfold lines at hline
  rcases List.mem_append.1 hline with hline | hline
  · obtain ⟨whole, hwhole, heq⟩ := List.mem_map.1 hline
    rw [← heq] at hmem
    unfold stripCr at hmem
    split_ifs at hmem
    · exact hlines whole hwhole (List.dropLast_subset _ hmem)
    · exact hlines whole hwhole hmem
  · split_ifs at hline
    · cases hline
    · rw [List.mem_singleton.1 hline] at hmem
      exact hlast hmem

theorem stripCr_cons {c : Char} (h : c ≠ '\r') (line : Text) :
    stripCr (c :: line) = c :: stripCr line := by
  unfold stripCr
  cases line with
  | nil => simp [h]
  | cons d line =>
      rw [List.getLast?_cons_cons]
      split_ifs
      · rfl
      · rfl

theorem stripCr_append {text : Text} (h : '\r' ∉ text) (line : Text) :
    stripCr (text ++ line) = text ++ stripCr line := by
  induction text with
  | nil => rfl
  | cons c text ih =>
      rw [List.mem_cons, not_or] at h
      rw [List.cons_append, stripCr_cons (Ne.symm h.1), ih h.2]
      rfl

theorem stripCr_of_notMem {line : Text} (h : '\r' ∉ line) : stripCr line = line := by
  have happend := stripCr_append h []
  rw [List.append_nil] at happend
  rw [happend]
  exact List.append_nil line

/-! ## Joined lines -/

@[simp] theorem unlines_nil : unlines [] = [] := rfl

@[simp] theorem unlines_cons (line : Text) (ls : List Text) :
    unlines (line :: ls) = line ++ '\n' :: unlines ls := by
  rw [unlines, List.flatMap_cons, List.append_assoc]
  rfl

@[simp] theorem unlines_append (ls ls' : List Text) :
    unlines (ls ++ ls') = unlines ls ++ unlines ls' :=
  List.flatMap_append

/-- The lines with a line feed between them. -/
def joinLines : List Text → Text
  | [] => []
  | [line] => line
  | line :: next :: ls => line ++ '\n' :: joinLines (next :: ls)

theorem joinLines_concat (ls : List Text) (last : Text) :
    joinLines (ls ++ [last]) = unlines ls ++ last := by
  induction ls with
  | nil => rfl
  | cons line ls ih =>
      have hne : ls ++ [last] ≠ [] := by simp
      obtain ⟨next, rest, hrest⟩ := List.exists_cons_of_ne_nil hne
      rw [List.cons_append, hrest, joinLines, ← hrest, ih, unlines_cons, List.append_assoc]
      rfl

theorem stripCr_eq_self_iff {line : Text} : stripCr line = line ↔ line.getLast? ≠ some '\r' := by
  unfold stripCr
  split_ifs with hcr
  · refine ⟨fun heq => ?_, fun hne => absurd hcr hne⟩
    have hlength := congrArg List.length (List.dropLast_append_getLast? _ hcr)
    rw [List.length_append, heq, List.length_singleton] at hlength
    omega
  · exact ⟨fun _ => hcr, fun _ => rfl⟩

theorem length_stripCr_le (line : Text) : (stripCr line).length ≤ line.length := by
  unfold stripCr
  split_ifs
  · rw [List.length_dropLast]
    omega
  · exact Nat.le_refl _

theorem length_stripCr_lt {line : Text} (h : line.getLast? = some '\r') :
    (stripCr line).length < line.length := by
  unfold stripCr
  have hlength := congrArg List.length (List.dropLast_append_getLast? _ h)
  rw [List.length_append, List.length_singleton] at hlength
  rw [if_pos h]
  omega

theorem length_unlines_stripCr_le (ls : List Text) :
    (unlines (ls.map stripCr)).length ≤ (unlines ls).length := by
  induction ls with
  | nil => exact Nat.le_refl _
  | cons line ls ih =>
      have hline := length_stripCr_le line
      simp only [List.map_cons, unlines_cons, List.length_append, List.length_cons] at ih ⊢
      omega

/-- A carriage return that is taken away makes the text shorter. -/
theorem length_unlines_stripCr_lt {ls : List Text} {line : Text} (hmem : line ∈ ls)
    (h : line.getLast? = some '\r') :
    (unlines (ls.map stripCr)).length < (unlines ls).length := by
  induction ls with
  | nil => cases hmem
  | cons first ls ih =>
      have hfirst := length_stripCr_le first
      have hrest := length_unlines_stripCr_le ls
      rcases List.mem_cons.1 hmem with heq | hmem
      · have hlt := length_stripCr_lt (heq ▸ h)
        simp only [List.map_cons, unlines_cons, List.length_append, List.length_cons] at hrest ⊢
        omega
      · have hlt := ih hmem
        simp only [List.map_cons, unlines_cons, List.length_append, List.length_cons] at hlt ⊢
        omega

/-- A line that is ended ends in a carriage return when the text has one before a line feed. -/
theorem exists_cr_iff {text : Text} :
    (∃ line ∈ (cut text).1, line.getLast? = some '\r') ↔ ['\r', '\n'] <:+: text := by
  constructor
  · rintro ⟨line, hmem, hcr⟩
    obtain ⟨before, after, hsplit⟩ := List.append_of_mem hmem
    have hline := List.dropLast_append_getLast? _ hcr
    refine ⟨unlines before ++ line.dropLast, unlines after ++ (cut text).2, ?_⟩
    have htext := unlines_cut text
    rw [hsplit, unlines_append, unlines_cons, ← hline] at htext
    refine Eq.trans ?_ htext
    simp
  · rintro ⟨before, after, rfl⟩
    have hmore : cut (['\r', '\n'] ++ after) = (['\r'] :: (cut after).1, (cut after).2) := rfl
    refine ⟨(cut before).2 ++ ['\r'], ?_, by simp⟩
    rw [List.append_assoc, cut_append, hmore]
    simp

/-! ## Fields -/

/-- The characters with the Unicode property `White_Space`. -/
def isWhite (c : Char) : Bool :=
  let n := c.toNat
  (9 ≤ n && n ≤ 13) || n == 32 || n == 133 || n == 160 || n == 5760 ||
    (8192 ≤ n && n ≤ 8202) || n == 8232 || n == 8233 || n == 8239 || n == 8287 || n == 12288

def trim (text : Text) : Text := (text.dropWhile isWhite).rdropWhile isWhite

def stripPrefix : Text → Text → Option Text
  | [], text => some text
  | c :: pre, d :: text => if c = d then stripPrefix pre text else none
  | _ :: _, [] => none

/-- What is before the first `c`, and what is behind it. -/
def splitOnce (c : Char) : Text → Text × Option Text
  | [] => ([], none)
  | d :: text =>
    if d = c then ([], some text) else (d :: (splitOnce c text).1, (splitOnce c text).2)

/-- The first word of a text, and what is behind it. -/
def firstWord (text : Text) : Option (Text × Text) :=
  let rest := text.dropWhile isWhite
  if rest = [] then none
  else some (rest.takeWhile (! isWhite ·), rest.dropWhile (! isWhite ·))

def withoutPlus : Text → Text
  | '+' :: digits => digits
  | digits => digits

/-- A decimal number below `bound`, with an optional plus. -/
def parseNat (bound : Nat) (text : Text) : Option Nat :=
  let digits := withoutPlus text
  if digits.isEmpty || !digits.all Char.isDigit then none
  else
    let n := Nat.ofDigitChars 10 digits 0
    if n < bound then some n else none

@[simp] theorem stripPrefix_append (pre text : Text) :
    stripPrefix pre (pre ++ text) = some text := by
  induction pre with
  | nil => rfl
  | cons c pre ih =>
      rw [List.cons_append, stripPrefix, if_pos rfl]
      exact ih

theorem stripPrefix_append_append (common pre text : Text) :
    stripPrefix (common ++ pre) (common ++ text) = stripPrefix pre text := by
  induction common with
  | nil => rfl
  | cons c common ih =>
      rw [List.cons_append, List.cons_append, stripPrefix, if_pos rfl]
      exact ih

theorem stripPrefix_cons_ne {c d : Char} (h : c ≠ d) (pre text : Text) :
    stripPrefix (c :: pre) (d :: text) = none := if_neg h

theorem stripPrefix_eq_some {pre text rest : Text} (h : stripPrefix pre text = some rest) :
    text = pre ++ rest := by
  induction pre generalizing text with
  | nil =>
      cases h
      rfl
  | cons c pre ih =>
      cases text with
      | nil => cases h
      | cons d text =>
          rw [stripPrefix] at h
          split_ifs at h with hc
          rw [ih h, hc]
          rfl

/-- White space behind a text is trimmed. -/
theorem trim_concat {c : Char} (h : isWhite c = true) (text : Text) :
    trim (text ++ [c]) = trim text := by
  unfold trim
  rw [List.dropWhile_append]
  split_ifs with hempty
  · rw [List.isEmpty_iff.1 hempty, List.dropWhile_cons_of_pos h]
    rfl
  · exact List.rdropWhile_concat_pos _ _ _ h

theorem trim_stripCr (line : Text) : trim (stripCr line) = trim line := by
  unfold stripCr
  split_ifs with hcr
  · have hline := List.dropLast_append_getLast? _ hcr
    rw [← trim_concat (by decide : isWhite '\r' = true) line.dropLast, hline]
  · rfl

/-- A text that is not blank begins as all that goes on with it. -/
theorem head_trim_append {text : Text} (h : trim text ≠ []) (more : Text) :
    (trim (text ++ more)).head? = (trim text).head? := by
  have hhead : ∀ {rest : Text}, rest.dropWhile isWhite ≠ [] →
      (trim rest).head? = (rest.dropWhile isWhite).head? := by
    intro rest hrest
    unfold trim
    cases hdrop : rest.dropWhile isWhite with
    | nil => exact absurd hdrop hrest
    | cons c tail =>
        have hc : ¬isWhite c = true := by
          have := List.head_dropWhile_not isWhite hrest
          simp only [hdrop, List.head_cons] at this
          rw [this]
          exact Bool.false_ne_true
        obtain ⟨white, hwhite⟩ := List.rdropWhile_prefix isWhite (c :: tail)
        cases hkept : (c :: tail).rdropWhile isWhite with
        | nil =>
            rw [List.rdropWhile_eq_nil_iff] at hkept
            exact absurd (hkept c (List.mem_cons_self ..)) hc
        | cons d kept =>
            rw [hkept] at hwhite
            cases hwhite
            rfl
  have htext : text.dropWhile isWhite ≠ [] := by
    intro hnil
    apply h
    rw [trim, hnil]
    rfl
  have happend : (text ++ more).dropWhile isWhite = text.dropWhile isWhite ++ more := by
    rw [List.dropWhile_append, if_neg (by simpa using htext)]
  rw [hhead htext, hhead (by rw [happend]; simp [htext]), happend,
    List.head?_append_of_ne_nil _ htext]

theorem isWhite_newline : isWhite '\n' = true := by decide

/-- A text with no white space at its ends. -/
theorem trim_eq_self {text : Text} (hfirst : ∀ c ∈ text.head?, isWhite c = false)
    (hlast : ∀ c ∈ text.getLast?, isWhite c = false) : trim text = text := by
  have hdrop : text.dropWhile isWhite = text := by
    cases text with
    | nil => rfl
    | cons c tail => exact List.dropWhile_cons_of_neg (by simp [hfirst c rfl])
  rw [trim, hdrop, List.rdropWhile_eq_self_iff]
  intro hne
  rw [hlast _ (List.getLast_mem_getLast? hne)]
  exact Bool.false_ne_true

theorem length_trim_le (text : Text) : (trim text).length ≤ text.length :=
  (List.rdropWhile_prefix isWhite _).length_le.trans (List.dropWhile_suffix isWhite).length_le

theorem trim_trim (text : Text) : trim (trim text) = trim text := by
  have hdrop : (trim text).dropWhile isWhite = trim text := by
    cases htrim : trim text with
    | nil => rfl
    | cons c tail =>
        obtain ⟨more, hmore⟩ := List.rdropWhile_prefix isWhite (text.dropWhile isWhite)
        have hfirst := List.head?_dropWhile_not isWhite text
        rw [← hmore, show (text.dropWhile isWhite).rdropWhile isWhite = c :: tail from htrim]
          at hfirst
        rw [List.dropWhile_cons_of_neg]
        exact Bool.eq_false_iff.1 hfirst
  rw [trim, hdrop]
  exact List.rdropWhile_idempotent isWhite _

theorem getLast?_trim (text : Text) : ∀ c ∈ (trim text).getLast?, isWhite c = false := by
  intro c hc
  have hne : trim text ≠ [] := by
    intro hnil
    rw [hnil] at hc
    cases hc
  rw [List.getLast?_eq_some_getLast hne] at hc
  cases hc
  exact Bool.eq_false_iff.2 (List.rdropWhile_last_not _ _ hne)

theorem trim_rdropWhile (text : Text) : trim (text.rdropWhile isWhite) = trim text := by
  induction text using List.reverseRecOn with
  | nil => rfl
  | append_singleton text c ih =>
      by_cases hc : isWhite c = true
      · rw [List.rdropWhile_concat_pos _ _ _ hc, ih, trim_concat hc]
      · rw [List.rdropWhile_concat_neg _ _ _ hc]

/-- Only what is behind a text without white space is trimmed. -/
theorem trim_append {pre : Text} (hne : pre ≠ []) (hpre : ∀ c ∈ pre, isWhite c = false)
    (rest : Text) : trim (pre ++ rest) = pre ++ rest.rdropWhile isWhite := by
  have hdrop : (pre ++ rest).dropWhile isWhite = pre ++ rest := by
    cases pre with
    | nil => exact absurd rfl hne
    | cons c pre => exact List.dropWhile_cons_of_neg (by simp [hpre c (List.mem_cons_self ..)])
  rw [trim, hdrop]
  clear hdrop
  induction rest using List.reverseRecOn with
  | nil =>
      rw [List.append_nil, List.rdropWhile_nil, List.append_nil, List.rdropWhile_eq_self_iff]
      intro hne
      rw [hpre _ (List.getLast_mem hne)]
      exact Bool.false_ne_true
  | append_singleton rest c ih =>
      rw [← List.append_assoc]
      by_cases hc : isWhite c = true
      · rw [List.rdropWhile_concat_pos _ _ _ hc, List.rdropWhile_concat_pos _ _ _ hc, ih]
      · rw [List.rdropWhile_concat_neg _ _ _ hc, List.rdropWhile_concat_neg _ _ _ hc,
          List.append_assoc]

theorem mem_trim {text : Text} {c : Char} (h : c ∈ trim text) : c ∈ text :=
  (List.dropWhile_suffix isWhite).subset ((List.rdropWhile_prefix isWhite _).subset h)

/-- What trimming takes away. -/
theorem trim_parts (text : Text) : ∃ lead trail, text = lead ++ trim text ++ trail ∧
    (∀ c ∈ lead, isWhite c = true) ∧ ∀ c ∈ trail, isWhite c = true := by
  refine ⟨text.takeWhile isWhite, (text.dropWhile isWhite).rtakeWhile isWhite, ?_, ?_, ?_⟩
  · rw [trim, List.append_assoc, List.rdropWhile_append_rtakeWhile, List.takeWhile_append_dropWhile]
  · exact fun c hc => List.mem_takeWhile_imp hc
  · exact fun c hc => List.mem_rtakeWhile_imp hc

/-- A text without white space at its ends that is divided into lines and joined again. -/
theorem joinLines_lines_iff {text : Text} :
    trim (joinLines (lines (trim text))) = trim text ↔ ¬['\r', '\n'] <:+: trim text := by
  have hidem := trim_trim text
  revert hidem
  generalize trim text = body
  intro hidem
  have hbody := unlines_cut body
  by_cases hrest : (cut body).2 = []
  · -- The text ends in a line feed or is empty; the former is white space.
    rw [hrest, List.append_nil] at hbody
    have hnil : (cut body).1 = [] := by
      by_contra hne
      obtain ⟨front, line, hcut⟩ : ∃ front line, (cut body).1 = front ++ [line] :=
        ⟨_, _, (List.dropLast_append_getLast hne).symm⟩
      have hend : unlines front ++ line ++ ['\n'] = body := by
        rw [hcut, unlines_append, unlines_cons, unlines_nil] at hbody
        rw [List.append_assoc]
        exact hbody
      have hlength := length_trim_le (unlines front ++ line)
      rw [← hend, trim_concat isWhite_newline] at hidem
      rw [hidem, List.length_append, List.length_singleton] at hlength
      omega
    rw [hnil] at hbody
    rw [← hbody]
    exact ⟨fun _ h => by simp at h, fun _ => rfl⟩
  have hlines : joinLines (lines body) = unlines ((cut body).1.map stripCr) ++ (cut body).2 := by
    rw [lines, if_neg hrest, joinLines_concat]
  rw [hlines, ← exists_cr_iff]
  constructor
  · rintro heq ⟨line, hmem, hcr⟩
    have hlt := length_unlines_stripCr_lt hmem hcr
    have hle := length_trim_le (unlines ((cut body).1.map stripCr) ++ (cut body).2)
    have hlength := congrArg List.length hbody
    rw [heq] at hle
    rw [List.length_append] at hle hlength
    omega
  · intro hnone
    have hsame : (cut body).1.map stripCr = (cut body).1 := by
      have hid : ∀ line ∈ (cut body).1, stripCr line = id line := by
        intro line hmem
        exact stripCr_eq_self_iff.2 fun hcr => hnone ⟨line, hmem, hcr⟩
      rw [List.map_congr_left hid, List.map_id]
    rw [hsame, hbody, hidem]

theorem splitOnce_append {c : Char} {before : Text} (h : c ∉ before) (text : Text) :
    splitOnce c (before ++ c :: text) = (before, some text) := by
  induction before with
  | nil => rw [List.nil_append, splitOnce, if_pos rfl]
  | cons d before ih =>
      rw [List.mem_cons, not_or] at h
      rw [List.cons_append, splitOnce, if_neg (Ne.symm h.1), ih h.2]

theorem splitOnce_of_notMem {c : Char} {text : Text} (h : c ∉ text) :
    splitOnce c text = (text, none) := by
  induction text with
  | nil => rfl
  | cons d text ih =>
      rw [List.mem_cons, not_or] at h
      rw [splitOnce, if_neg (Ne.symm h.1), ih h.2]

theorem splitOnce_eq_some {c : Char} {text before rest : Text}
    (h : splitOnce c text = (before, some rest)) : text = before ++ c :: rest ∧ c ∉ before := by
  by_cases hmem : c ∈ text
  · rcases List.eq_append_cons_of_mem hmem with ⟨first, last, rfl, hfirst⟩
    rw [splitOnce_append hfirst] at h
    cases h
    exact ⟨rfl, hfirst⟩
  · rw [splitOnce_of_notMem hmem] at h
    cases h

theorem firstWord_space (text : Text) : firstWord (' ' :: text) = firstWord text := by
  unfold firstWord
  rw [List.dropWhile_cons_of_pos (by decide)]

theorem dropWhile_word {word : Text} (hne : word ≠ []) (hword : ∀ c ∈ word, isWhite c = false)
    (text : Text) : (word ++ text).dropWhile isWhite = word ++ text := by
  cases word with
  | nil => exact absurd rfl hne
  | cons c word =>
      rw [List.cons_append, List.dropWhile_cons_of_neg]
      rw [hword c (List.mem_cons_self ..)]
      simp

/-- A text begins with a word, which may go on. -/
theorem firstWord_begin {word : Text} (hne : word ≠ []) (hword : ∀ c ∈ word, isWhite c = false)
    (text : Text) : firstWord (word ++ text) =
      some (word ++ text.takeWhile (! isWhite ·), text.dropWhile (! isWhite ·)) := by
  have hpos : ∀ c ∈ word, (!isWhite c) = true := by
    intro c hc
    rw [hword c hc]
    rfl
  unfold firstWord
  rw [dropWhile_word hne hword, if_neg (by simp [hne]), List.takeWhile_append_of_pos hpos,
    List.dropWhile_append_of_pos hpos]

/-- A word and a space in front of a text. -/
theorem firstWord_append {word : Text} (hne : word ≠ []) (hword : ∀ c ∈ word, isWhite c = false)
    (text : Text) : firstWord (word ++ ' ' :: text) = some (word, ' ' :: text) := by
  have hspace : (!isWhite ' ') = false := by decide
  rw [firstWord_begin hne hword, List.takeWhile_cons_of_neg (by rw [hspace]; simp),
    List.dropWhile_cons_of_neg (by rw [hspace]; simp), List.append_nil]

theorem isDigit_toDigits {n : Nat} {c : Char} (h : c ∈ Nat.toDigits 10 n) : c.isDigit = true :=
  Nat.isDigit_of_mem_toDigits (by decide) (by decide) h

theorem isWhite_of_isDigit {c : Char} (h : c.isDigit = true) : isWhite c = false := by
  simp only [Char.isDigit, Bool.and_eq_true, decide_eq_true_eq] at h
  have hlow : 48 ≤ c.toNat := h.1
  have hhigh : c.toNat ≤ 57 := h.2
  simp only [isWhite, Bool.or_eq_false_iff, Bool.and_eq_false_iff, beq_eq_false_iff_ne,
    decide_eq_false_iff_not]
  omega

theorem parseNat_toDigits (bound n : Nat) :
    parseNat bound (Nat.toDigits 10 n) = if n < bound then some n else none := by
  have hplus : withoutPlus (Nat.toDigits 10 n) = Nat.toDigits 10 n := by
    unfold withoutPlus
    split
    · rename_i digits heq
      have := isDigit_toDigits (n := n) (c := '+') (by rw [heq]; exact List.mem_cons_self ..)
      exact absurd this (by decide)
    · rfl
  have hall : (Nat.toDigits 10 n).all Char.isDigit = true :=
    List.all_eq_true.2 fun c hc => isDigit_toDigits hc
  have hne : (Nat.toDigits 10 n).isEmpty = false := by
    rw [List.isEmpty_eq_false_iff]
    exact Nat.toDigits_ne_nil
  unfold parseNat
  dsimp only
  rw [hplus, hall, hne, Nat.ofDigitChars_ten_toDigits]
  rfl

theorem parseNat_lt {bound n : Nat} {text : Text} (h : parseNat bound text = some n) :
    n < bound := by
  unfold parseNat at h
  dsimp only at h
  split_ifs at h with hdigits hlt
  rw [← Option.some.inj h]
  exact hlt

end Vanyline.Lib.TextLines
