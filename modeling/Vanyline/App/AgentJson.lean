import Vanyline.App.RhaiValues
import Vanyline.Lib.Fields
import Vanyline.Lib.JsonText

/-!
# The JSON answer of an agent step

`extract_json` looks for a code block between an opening and a closing mark whose content is valid
JSON, and takes the text itself when there is none.

* `Blocks` are the blocks as the search for the marks sees them, `extractLoop_eq` says that the
  loop takes the first valid one.
* `extractJson_fenced` finds a value whose text has no closing mark.
* `extractJson_cut`: otherwise the first block ends inside of a literal.  So does everything that
  is cut behind it, and what is cut there is no text of the value.

How JSON is read is a parameter, of which it is only assumed that what is read is JSON.
-/

namespace Vanyline.App.AgentJson

open Vanyline.Lib Vanyline.Lib.TextLines Vanyline.Lib.Fields Vanyline.Lib.JsonText
open Vanyline.App.RhaiBridge (Floats Number insertEntry)

variable {fl : Floats}

abbrev Value (fl : Floats) := RhaiBridge.Json fl

/-! ## The search -/

def tick : Char := '\x60'

/-- The mark that opens a block. -/
def openMark : Text := [tick, tick, tick, 'j', 's', 'o', 'n']

/-- The mark that closes a block. -/
def closeMark : Text := [tick, tick, tick]

theorem openMark_ne_nil : openMark ≠ [] := List.cons_ne_nil _ _

theorem closeMark_ne_nil : closeMark ≠ [] := List.cons_ne_nil _ _

/-- The loop of `extract_json`, which goes on behind a block that is not valid. -/
def extractLoop (parse : Text → Option (Value fl)) (rest : Text) : Option (Value fl) :=
  match _hopen : splitAtText openMark rest with
  | none => none
  | some (_, afterOpen) =>
    match _hclose : splitAtText closeMark afterOpen with
    | none => none
    | some (content, behind) =>
      match parse (trim content) with
      | some value => some value
      | none => extractLoop parse behind
termination_by rest.length
decreasing_by
  exact (length_lt_of_splitAtText closeMark_ne_nil _hclose).trans
    (length_lt_of_splitAtText openMark_ne_nil _hopen)

def extractJson (parse : Text → Option (Value fl)) (text : Text) : Option (Value fl) :=
  (extractLoop parse text).or (parse (trim text))

/-- The contents of the blocks of a text, in their order. -/
inductive Blocks : Text → List Text → Prop
  | none {text : Text} (hopen : ¬openMark <:+: text) : Blocks text []
  | unclosed {before after : Text} (hopen : FirstPlace openMark before)
      (hclose : ¬closeMark <:+: after) : Blocks (before ++ openMark ++ after) []
  | block {before content behind : Text} {contents : List Text}
      (hopen : FirstPlace openMark before) (hclose : FirstPlace closeMark content)
      (h : Blocks behind contents) :
      Blocks (before ++ openMark ++ (content ++ closeMark ++ behind)) (content :: contents)

theorem exists_blocks (text : Text) : ∃ contents, Blocks text contents := by
  induction hlength : text.length using Nat.strong_induction_on generalizing text with
  | _ n ih =>
    cases hopen : splitAtText openMark text with
    | none => exact ⟨[], .none (splitAtText_eq_none_iff.1 hopen)⟩
    | some parts =>
      rcases parts with ⟨before, after⟩
      have hshort := length_lt_of_splitAtText openMark_ne_nil hopen
      rcases splitAtText_eq_some openMark_ne_nil hopen with ⟨rfl, hbefore⟩
      cases hclose : splitAtText closeMark after with
      | none => exact ⟨[], .unclosed hbefore (splitAtText_eq_none_iff.1 hclose)⟩
      | some parts =>
        rcases parts with ⟨content, behind⟩
        have hless := length_lt_of_splitAtText closeMark_ne_nil hclose
        rcases splitAtText_eq_some closeMark_ne_nil hclose with ⟨rfl, hcontent⟩
        rcases ih behind.length (by omega) behind rfl with ⟨contents, hblocks⟩
        exact ⟨content :: contents, .block hbefore hcontent hblocks⟩

theorem extractLoop_eq (parse : Text → Option (Value fl)) {text : Text} {contents : List Text}
    (h : Blocks text contents) :
    extractLoop parse text = contents.findSome? fun content => parse (trim content) := by
  induction h with
  | none hopen =>
    unfold extractLoop
    split
    · rfl
    · rename_i hsplit
      rw [splitAtText_eq_none_iff.2 hopen] at hsplit
      cases hsplit
  | unclosed hopen hclose =>
    unfold extractLoop
    rw [splitAtText_first openMark_ne_nil hopen]
    split
    · rfl
    · rename_i hsplit
      cases hsplit
      split
      · rfl
      · rename_i hsplit
        rw [splitAtText_eq_none_iff.2 hclose] at hsplit
        cases hsplit
  | block hopen hclose h ih =>
    unfold extractLoop
    rw [splitAtText_first openMark_ne_nil hopen]
    split
    · rename_i hsplit
      cases hsplit
    · rename_i hsplit
      cases hsplit
      rw [splitAtText_first closeMark_ne_nil hclose]
      split
      · rename_i hsplit
        cases hsplit
      · rename_i hsplit
        cases hsplit
        rw [List.findSome?_cons, ih]
        cases parse (trim _) <;> rfl

theorem Blocks.nil {contents : List Text} (h : Blocks [] contents) : contents = [] := by
  generalize htext : ([] : Text) = text at h
  cases h with
  | none hopen => rfl
  | unclosed hopen hclose => rfl
  | block hopen hclose h =>
    have hlength := congrArg List.length htext
    simp [openMark] at hlength

/-! ## A value between marks -/

/-- A text with a block. -/
def fenced (before r after : Text) : Text :=
  before ++ openMark ++ ('\n' :: r ++ ['\n'] ++ closeMark ++ after)

theorem newline_notMem_closeMark : '\n' ∉ closeMark := by decide

theorem newline_notMem_openMark : '\n' ∉ openMark := by decide

theorem closeMark_infix_newline {text : Text} (h : closeMark <:+: '\n' :: text) :
    closeMark <:+: text := by
  rcases List.infix_cons_iff.1 h with hprefix | hinfix
  · exact absurd (List.cons_prefix_cons.1 hprefix).1 (by decide)
  · exact hinfix

theorem firstPlace_closeMark {r : Text} (h : ¬closeMark <:+: r) :
    FirstPlace closeMark ('\n' :: r ++ ['\n']) := by
  intro hplace
  rcases hplace with ⟨gap, behind, heq⟩
  rw [List.append_assoc ('\n' :: r)] at heq
  rcases place_cases newline_notMem_closeMark heq with ⟨more, hr, _⟩ | ⟨more, _, hafter⟩
  · exact h (closeMark_infix_newline ⟨gap, more, hr.symm⟩)
  · have hlength : 2 = (more ++ closeMark ++ behind).length := congrArg List.length hafter
    rw [List.length_append, List.length_append, show closeMark.length = 3 from rfl] at hlength
    omega

theorem firstPlace_openMark {before : Text} (h : ¬openMark <:+: before) :
    FirstPlace openMark before := by
  show FirstPlace ([tick, tick, tick, 'j', 's', 'o'] ++ ['n']) before
  exact firstPlace_of_last (by decide) h

theorem trim_newlines (r : Text) : trim ('\n' :: r ++ ['\n']) = trim r := by
  rw [trim_concat isWhite_newline]
  unfold trim
  rw [List.dropWhile_cons_of_pos isWhite_newline]

theorem extractLoop_fenced (parse : Text → Option (Value fl)) {before r after : Text}
    (hbefore : ¬openMark <:+: before) (hr : ¬closeMark <:+: r) {contents : List Text}
    (h : Blocks after contents) :
    extractLoop parse (fenced before r after) =
      (parse (trim r)).or (contents.findSome? fun content => parse (trim content)) := by
  have hblock := Blocks.block (firstPlace_openMark hbefore) (firstPlace_closeMark hr) h
  rw [fenced, extractLoop_eq parse hblock, List.findSome?_cons, trim_newlines]
  cases parse (trim r) <;> rfl

theorem extractJson_fenced {parse : Text → Option (Value fl)} {before r : Text} {v : Value fl}
    (hbefore : ¬openMark <:+: before) (hr : ¬closeMark <:+: r) (hparse : parse (trim r) = some v)
    (after : Text) : extractJson parse (fenced before r after) = some v := by
  rcases exists_blocks after with ⟨contents, hblocks⟩
  rw [extractJson, extractLoop_fenced parse hbefore hr hblocks, hparse]
  rfl

/-! ## The values of the reader -/

/-- The values of `serde_json`.  Of two fields with one key the last one is kept. -/
def builder (numeral : Text → Option (Number fl)) : Builder (Value fl) where
  null := .null
  bool := .bool
  number := fun text => (numeral text).map .number
  string := .string
  array := .array
  object := fun fields =>
    .object (fields.foldl (fun entries field => insertEntry field.1 field.2 entries) [])

mutual

/-- The character is in a string or a key of the value. -/
def mentions (c : Char) : Value fl → Prop
  | .string s => c ∈ s
  | .array items => itemsMention c items
  | .object fields => fieldsMention c fields
  | _ => False

def itemsMention (c : Char) : List (Value fl) → Prop
  | [] => False
  | item :: items => mentions c item ∨ itemsMention c items

def fieldsMention (c : Char) : List (Text × Value fl) → Prop
  | [] => False
  | (key, value) :: fields => (c ∈ key ∨ mentions c value) ∨ fieldsMention c fields

end

theorem itemsMention_iff {c : Char} {items : List (Value fl)} :
    itemsMention c items ↔ ∃ item ∈ items, mentions c item := by
  induction items with
  | nil => exact ⟨fun h => h.elim, fun ⟨_, h, _⟩ => nomatch h⟩
  | cons item items ih => rw [itemsMention, ih, List.exists_mem_cons_iff]

theorem fieldsMention_iff {c : Char} {fields : List (Text × Value fl)} :
    fieldsMention c fields ↔ ∃ field ∈ fields, c ∈ field.1 ∨ mentions c field.2 := by
  induction fields with
  | nil => exact ⟨fun h => h.elim, fun ⟨_, h, _⟩ => nomatch h⟩
  | cons field fields ih => rw [fieldsMention, ih, List.exists_mem_cons_iff]

theorem mem_insertEntry {ν : Type} {key : Text} {value : ν} {entries : List (Text × ν)}
    {entry : Text × ν} (h : entry ∈ insertEntry key value entries) :
    entry = (key, value) ∨ entry ∈ entries := by
  induction entries with
  | nil => exact Or.inl (List.mem_singleton.1 h)
  | cons first entries ih =>
    rw [insertEntry, SortedMap.updateEntries] at h
    split_ifs at h with hlt heq
    · exact List.mem_cons.1 h
    · exact (List.mem_cons.1 h).imp_right (List.mem_cons_of_mem _)
    · rcases List.mem_cons.1 h with rfl | h
      · exact Or.inr List.mem_cons_self
      · exact (ih h).imp_right (List.mem_cons_of_mem _)

theorem mem_insertEntry_self {ν : Type} (key : Text) (value : ν) (entries : List (Text × ν)) :
    (key, value) ∈ insertEntry key value entries := by
  induction entries with
  | nil => exact List.mem_cons_self
  | cons first entries ih =>
    rw [insertEntry, SortedMap.updateEntries]
    split_ifs with hlt heq
    · exact List.mem_cons_self
    · exact List.mem_cons_self
    · exact List.mem_cons_of_mem _ ih

theorem mem_insertEntry_of_ne {ν : Type} {key : Text} (value : ν) {entries : List (Text × ν)}
    {entry : Text × ν} (hne : entry.1 ≠ key) (h : entry ∈ entries) :
    entry ∈ insertEntry key value entries := by
  induction entries with
  | nil => cases h
  | cons first entries ih =>
    rw [insertEntry, SortedMap.updateEntries]
    split_ifs with hlt heq
    · exact List.mem_cons_of_mem _ h
    · rcases List.mem_cons.1 h with rfl | h
      · exact absurd heq.symm hne
      · exact List.mem_cons_of_mem _ h
    · rcases List.mem_cons.1 h with rfl | h
      · exact List.mem_cons_self
      · exact List.mem_cons_of_mem _ (ih h)

theorem mem_of_mem_collected {ν : Type} {fields entries : List (Text × ν)} {entry : Text × ν}
    (h : entry ∈ fields.foldl (fun entries field => insertEntry field.1 field.2 entries) entries) :
    entry ∈ fields ∨ entry ∈ entries := by
  induction fields generalizing entries with
  | nil => exact Or.inr h
  | cons field fields ih =>
    rcases ih h with hmem | hmem
    · exact Or.inl (List.mem_cons_of_mem _ hmem)
    · rcases mem_insertEntry hmem with heq | hmem
      · exact Or.inl (heq ▸ List.mem_cons_self)
      · exact Or.inr hmem

theorem mem_collected {ν : Type} {fields entries : List (Text × ν)} {entry : Text × ν}
    (hkeys : (fields.map Prod.fst).Nodup)
    (h : entry ∈ fields ∨ entry ∈ entries ∧ entry.1 ∉ fields.map Prod.fst) :
    entry ∈ fields.foldl (fun entries field => insertEntry field.1 field.2 entries) entries := by
  induction fields generalizing entries with
  | nil => exact (h.resolve_left List.not_mem_nil).1
  | cons field fields ih =>
    rw [List.map_cons, List.nodup_cons] at hkeys
    apply ih hkeys.2
    rcases h with hmem | ⟨hmem, hkey⟩
    · rcases List.mem_cons.1 hmem with rfl | hmem
      · exact Or.inr ⟨mem_insertEntry_self _ _ _, hkeys.1⟩
      · exact Or.inl hmem
    · rw [List.map_cons, List.mem_cons, not_or] at hkey
      exact Or.inr ⟨mem_insertEntry_of_ne _ hkey.1 hmem, hkey.2⟩

theorem mentions_builder (numeral : Text → Option (Number fl)) (c : Char) :
    Mentions (builder numeral) c (mentions c) where
  null := fun h => h
  bool := fun _ h => h
  number := by
    intro text v hv hmention
    rcases Option.map_eq_some_iff.1 hv with ⟨n, _, rfl⟩
    exact hmention
  string := Iff.rfl
  array := itemsMention_iff
  field_of_object := by
    intro fields h
    rcases fieldsMention_iff.1 h with ⟨field, hmem, hmention⟩
    exact ⟨field, (mem_of_mem_collected hmem).resolve_right List.not_mem_nil, hmention⟩
  object := by
    intro fields hkeys h
    rcases h with ⟨field, hmem, hmention⟩
    exact fieldsMention_iff.2 ⟨field, mem_collected hkeys (Or.inl hmem), hmention⟩

/-! ## A value that is cut -/

/-- A mark inside of a JSON text is inside of a literal. -/
theorem scan_mark {mode : Mode} {before tail after : Text}
    (htail : ∀ c ∈ tail, c ≠ '"' ∧ c ≠ '\\')
    (h : scan mode (before ++ tick :: tail ++ after) = some .outside) :
    (∃ m, scan mode before = some m ∧ m ≠ .outside) ∧ scan .inside after = some .outside := by
  rw [List.append_assoc, scan_append] at h
  cases hbefore : scan mode before with
  | none =>
    rw [hbefore] at h
    cases h
  | some m =>
    rw [hbefore] at h
    cases m with
    | outside => cases h
    | inside =>
      refine ⟨⟨_, rfl, fun h => nomatch h⟩, ?_⟩
      rw [← scan_inside htail after]
      exact h
    | escaped =>
      refine ⟨⟨_, rfl, fun h => nomatch h⟩, ?_⟩
      rw [← scan_inside htail after]
      exact h

theorem scan_closeMark {mode : Mode} {before after : Text}
    (h : scan mode (before ++ closeMark ++ after) = some .outside) :
    (∃ m, scan mode before = some m ∧ m ≠ .outside) ∧ scan .inside after = some .outside :=
  scan_mark (plain_of_all (show [tick, tick].all _ = true from rfl)) h

theorem scan_openMark {mode : Mode} {before after : Text}
    (h : scan mode (before ++ openMark ++ after) = some .outside) :
    (∃ m, scan mode before = some m ∧ m ≠ .outside) ∧ scan .inside after = some .outside :=
  scan_mark (plain_of_all (show [tick, tick, 'j', 's', 'o', 'n'].all _ = true from rfl)) h

/-- Behind a place inside of a literal all contents begin inside of one. -/
theorem scan_contents {text : Text} {contents : List Text} (h : Blocks text contents) :
    ∀ left : Text, text = left ++ '\n' :: closeMark → scan .inside left = some .outside →
      ∀ content ∈ contents, scan .inside content ≠ none := by
  induction h with
  | none hopen => exact fun _ _ _ content hmem => nomatch hmem
  | unclosed hopen hclose => exact fun _ _ _ content hmem => nomatch hmem
  | @block before content behind contents hopen hclose h ih =>
    intro left htext hscan
    rcases place_cases newline_notMem_openMark htext with ⟨more, rfl, hmore⟩ | ⟨more, _, hshort⟩
    · have hmode := (scan_openMark hscan).2
      rw [List.forall_mem_cons]
      rcases place_cases newline_notMem_closeMark hmore with
        ⟨more', rfl, hbehind⟩ | ⟨more', hcontent, hend⟩
      · rcases scan_closeMark hmode with ⟨⟨m, hcontent, _⟩, hmore'⟩
        refine ⟨?_, ih more' hbehind hmore'⟩
        rw [hcontent]
        exact Option.some_ne_none m
      · have hlength := congrArg List.length hend
        rw [List.length_append, List.length_append] at hlength
        cases List.length_eq_zero_iff.1 (show more'.length = 0 by omega)
        cases List.length_eq_zero_iff.1 (show behind.length = 0 by omega)
        cases h.nil
        refine ⟨?_, fun _ hmem => nomatch hmem⟩
        rw [hcontent, scan_append, hmode]
        exact Option.some_ne_none Mode.outside
    · have hlength := congrArg List.length hshort
      rw [List.length_append, List.length_append, show closeMark.length = 3 from rfl,
        show openMark.length = 7 from rfl] at hlength
      omega

theorem white_ne {w : Text} (h : ∀ c ∈ w, isWhite c = true) : ∀ c ∈ w, c ≠ '"' ∧ c ≠ '\\' := by
  intro c hc
  have hwhite := h c hc
  constructor
  · intro heq
    rw [heq] at hwhite
    exact absurd hwhite (by decide)
  · intro heq
    rw [heq] at hwhite
    exact absurd hwhite (by decide)

/-- White space is outside of the literals when it begins there. -/
theorem scan_white {w text : Text} (h : ∀ c ∈ w, isWhite c = true) {mode : Mode}
    (hscan : scan .outside (w ++ text) = some mode) : scan .outside text = some mode := by
  induction w with
  | nil => exact hscan
  | cons c w ih =>
    have hc := (white_ne h c List.mem_cons_self).1
    rw [List.forall_mem_cons] at h
    rw [List.cons_append, scan, step_outside, if_neg hc] at hscan
    split_ifs at hscan with hsyntax
    · exact ih h.2 hscan
    · cases hscan

/-- What is read is JSON. -/
def Sound (numeral : Text → Option (Number fl)) (parse : Text → Option (Value fl)) : Prop :=
  ∀ text v, parse text = some v → Document (builder numeral) true v text

section

variable {numeral : Text → Option (Number fl)} {parse : Text → Option (Value fl)}

/-- What ends inside of a literal is not read. -/
theorem parse_eq_none (hsound : Sound numeral parse) {content : Text} {m : Mode}
    (hscan : scan .outside content = some m) (hm : m ≠ .outside) : parse (trim content) = none := by
  cases hparse : parse (trim content) with
  | none => rfl
  | some v =>
    have hdocument := (hsound _ _ hparse).scan
    rcases trim_parts content with ⟨lead, trail, hparts, hlead, htrail⟩
    rw [hparts, List.append_assoc] at hscan
    have hbody := scan_white hlead hscan
    rw [scan_append, hdocument] at hbody
    rw [← List.append_nil trail] at hbody
    have hend := scan_white htrail hbody
    exact absurd (Option.some.inj hend).symm hm

/-- What begins inside of a literal is not read as a value with a backtick. -/
theorem parse_ne (hsound : Sound numeral parse) {content : Text}
    (hscan : scan .inside content ≠ none) {v : Value fl} (hv : mentions tick v) :
    parse (trim content) ≠ some v := by
  intro hparse
  have hdocument := hsound _ _ hparse
  have hinside : scan .inside (trim content) ≠ none := by
    rcases trim_parts content with ⟨lead, trail, hparts, hlead, _⟩
    intro hnone
    apply hscan
    rw [hparts, List.append_assoc, scan_inside (white_ne hlead), scan_append, hnone]
    rfl
  have houtside : scan .outside (trim content) ≠ none := by
    rw [hdocument.scan]
    exact Option.some_ne_none _
  have hchars := mem_syntaxChars_of_scan hinside houtside
  rcases hdocument.mem_of_mentions (mentions_builder numeral tick) hv with hmem | hmem
  · exact absurd (hchars _ hmem) (by decide)
  · exact absurd (hchars _ hmem) (by decide)

theorem ordinary_tick : Ordinary tick := ⟨by decide, by decide, by decide⟩

theorem isWhite_tick : isWhite tick = false := by decide

theorem trim_fenced (r : Text) : trim (fenced [] r []) = fenced [] r [] := by
  apply trim_eq_self
  · intro c hc
    cases hc
    exact isWhite_tick
  · have hend : fenced [] r [] = openMark ++ ('\n' :: r ++ ['\n'] ++ [tick, tick]) ++ [tick] := by
      simp [fenced, closeMark]
    intro c hc
    rw [hend, List.getLast?_concat] at hc
    cases hc
    exact isWhite_tick

/-- A value whose text has a closing mark is not found. -/
theorem extractJson_cut (hsound : Sound numeral parse) {v : Value fl} {r : Text}
    (hr : Document (builder numeral) false v r) (hmark : closeMark <:+: r) :
    extractJson parse (fenced [] r []) ≠ some v := by
  cases hsplit : splitAtText closeMark r with
  | none => exact absurd hmark (splitAtText_eq_none_iff.1 hsplit)
  | some parts =>
    rcases parts with ⟨front, left⟩
    rcases splitAtText_eq_some closeMark_ne_nil hsplit with ⟨rfl, hfront⟩
    rcases scan_closeMark hr.scan with ⟨⟨m, hm, hinside⟩, hleft⟩
    rcases exists_blocks (left ++ '\n' :: closeMark) with ⟨contents, hblocks⟩
    have hplace : FirstPlace closeMark ('\n' :: front) :=
      fun hplace => hfront (closeMark_infix_newline hplace)
    have htext : fenced [] (front ++ closeMark ++ left) [] =
        [] ++ openMark ++ ('\n' :: front ++ closeMark ++ (left ++ '\n' :: closeMark)) := by
      simp [fenced]
    have hloop := extractLoop_eq parse
      (Blocks.block (firstPlace_nil openMark_ne_nil) hplace hblocks)
    have hfirst : parse (trim ('\n' :: front)) = none := parse_eq_none hsound hm hinside
    have hv : mentions tick v := by
      apply hr.mentions_of_mem ordinary_tick (mentions_builder numeral tick)
      exact List.mem_append_left _ (List.mem_append_right _ List.mem_cons_self)
    have hfallback : parse (trim (fenced [] (front ++ closeMark ++ left) [])) = none := by
      rw [trim_fenced]
      cases hparse : parse (fenced [] (front ++ closeMark ++ left) []) with
      | none => rfl
      | some u => cases (hsound _ _ hparse).scan
    intro hfound
    rw [extractJson, hfallback, Option.or_none, htext, hloop, List.findSome?_cons, hfirst] at hfound
    rcases List.exists_of_findSome?_eq_some hfound with ⟨content, hmem, hcontent⟩
    exact parse_ne hsound (scan_contents hblocks left rfl hleft content hmem) hv hcontent

theorem extractJson_iff (hsound : Sound numeral parse) {v : Value fl} {r : Text}
    (hr : Document (builder numeral) false v r) :
    (∀ before after, ¬openMark <:+: before → extractJson parse (fenced before r after) = some v) ↔
      parse (trim r) = some v ∧ ¬closeMark <:+: r := by
  constructor
  · intro hall
    have hfound := hall [] [] (fun h => by cases List.infix_nil.1 h)
    have hmark : ¬closeMark <:+: r := fun hmark => extractJson_cut hsound hr hmark hfound
    refine ⟨?_, hmark⟩
    have hend : Blocks [] [] := .none fun h => by cases List.infix_nil.1 h
    have hfallback : parse (trim (fenced [] r [])) = none := by
      rw [trim_fenced]
      cases hparse : parse (fenced [] r []) with
      | none => rfl
      | some u => cases (hsound _ _ hparse).scan
    have hloop := extractLoop_fenced parse (fun h => by cases List.infix_nil.1 h) hmark hend
    rw [extractJson, hfallback, Option.or_none, hloop] at hfound
    rw [← hfound]
    exact (Option.or_none).symm
  · intro h before after hbefore
    exact extractJson_fenced hbefore h.2 h.1 after

end

/-- A value whose text stands between the marks is found, whatever is around them, exactly when
the text is read as the value and has no closing mark.  Of every text the first block is taken
that is valid, and the text itself when there is none. -/
theorem extractJson_finds_iff (numeral : Text → Option (Number fl))
    (parse : Text → Option (Value fl)) (hsound : Sound numeral parse) :
    (∀ v r, Document (builder numeral) false v r →
      ((∀ before after, ¬openMark <:+: before →
          extractJson parse (fenced before r after) = some v) ↔
        parse (trim r) = some v ∧ ¬closeMark <:+: r)) ∧
    ∀ text, (∃ contents, Blocks text contents) ∧
      ∀ contents, Blocks text contents →
        extractJson parse text =
          (contents.findSome? fun content => parse (trim content)).or (parse (trim text)) := by
  refine ⟨fun v r hr => extractJson_iff hsound hr, ?_⟩
  intro text
  refine ⟨exists_blocks text, ?_⟩
  intro contents hblocks
  rw [extractJson, extractLoop_eq parse hblocks]

/-! ### Two texts -/

/-- Floats that play no part. -/
def unitFloats : Floats := ⟨Unit, fun _ => true, fun _ => (), fun _ => ()⟩

/-- A reader that knows one text. -/
def readerOf (r : Text) (v : Value unitFloats) (text : Text) : Option (Value unitFloats) :=
  if text = r then some v else none

theorem sound_readerOf {numeral : Text → Option (Number unitFloats)} {r : Text}
    {v : Value unitFloats} (h : Document (builder numeral) true v r) :
    Sound numeral (readerOf r v) := by
  intro text u hu
  unfold readerOf at hu
  split_ifs at hu with heq
  cases hu
  rw [heq]
  exact h

def nullText : Text := ['n', 'u', 'l', 'l']

theorem document_null (numeral : Text → Option (Number unitFloats)) (repeats : Bool) :
    Document (builder numeral) repeats .null nullText := by
  have hblank : Blank [] := fun _ h => nomatch h
  exact .mk hblank hblank (.null [])

theorem extractJson_finds_null :
    extractJson (readerOf nullText .null) (fenced ['a'] nullText ['b']) = some .null := by
  have hfinds := (extractJson_finds_iff (fun _ => none) _ (sound_readerOf (document_null _ _))).1
    .null nullText (document_null _ _)
  exact hfinds.2 ⟨if_pos (by decide), by decide⟩ ['a'] ['b'] (by decide)

/-- An object with a string of three backticks. -/
def tickText : Text := ['{', '"', 'a', '"', ':', '"', tick, tick, tick, '"', '}']

def tickValue : Value unitFloats := .object [(['a'], .string [tick, tick, tick])]

theorem document_tick (numeral : Text → Option (Number unitFloats)) (repeats : Bool) :
    Document (builder numeral) repeats tickValue tickText := by
  have hblank : Blank [] := fun _ h => nomatch h
  have htick : ∀ {text s rest : Text}, Literal text s rest →
      Literal (tick :: text) (tick :: s) rest :=
    fun h => .char (by decide) (by decide) (by decide) h
  have hkey : Literal ['a', '"', ':', '"', tick, tick, tick, '"', '}'] ['a']
      [':', '"', tick, tick, tick, '"', '}'] :=
    .char (by decide) (by decide) (by decide) (.close _)
  have hstring : Literal [tick, tick, tick, '"', '}'] [tick, tick, tick] ['}'] :=
    htick (htick (htick (.close _)))
  have hfield : Reads (builder numeral) repeats tickText.tail
      (.fields [(['a'], .string [tick, tick, tick])]) ['}'] :=
    .field hblank hblank hblank hblank hkey (.string hstring)
  exact .mk hblank hblank (.object hfield (Or.inr (List.nodup_singleton _)))

/-- The block ends where the string begins. -/
theorem extractJson_misses_ticks :
    ¬∀ (numeral : Text → Option (Number unitFloats)) (parse : Text → Option (Value unitFloats)),
      Sound numeral parse → ∀ v r, Document (builder numeral) false v r →
        parse (trim r) = some v → ∀ before after, ¬openMark <:+: before →
          extractJson parse (fenced before r after) = some v := by
  intro hall
  have hsound := sound_readerOf (document_tick (fun _ => none) true)
  have hfound := hall (fun _ => none) _ hsound tickValue tickText (document_tick _ _)
    (if_pos (by decide)) [] [] (by decide)
  exact extractJson_cut hsound (document_tick _ _) (by decide) hfound

end Vanyline.App.AgentJson
