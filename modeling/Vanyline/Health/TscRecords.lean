import Vanyline.Health.ToolOutput

/-!
# The diagnostics of tsc, printed and read back

Each diagnostic is printed on a line of its own, between lines of noise, and ANSI sequences stand
anywhere in the text.  `Reported` says that the issues of the text are those of the diagnostics.

* `stripAnsi_decorated`: what is read does not depend on the ANSI sequences.
* A path with a bracket is cut there, so that its line is lost or misread; a path that begins with a
  blank makes its line one of the message before it.
* `reported_iff`: these are the only things that go wrong, but for diagnostics that differ in
  nothing but their severity, and paths of the root itself.
-/

namespace Vanyline.Health.ToolOutput

open Vanyline.Lib TextLines Fields
open Diff (u32Max parseU32)

/-! ## ANSI sequences -/

/-- A text with ANSI sequences, and what is left without them. -/
inductive Decorated : Text → Text → Prop
  | nil : Decorated [] []
  | char {c : Char} {text plain : Text} (hc : c ≠ esc) (rest : Decorated text plain) :
      Decorated (c :: text) (c :: plain)
  | csi {params text plain : Text} {final : Char} (hparams : ∀ c ∈ params, isFinal c = false)
      (hfinal : isFinal final = true) (rest : Decorated text plain) :
      Decorated (esc :: '[' :: (params ++ final :: text)) plain
  | oscBel {payload text plain : Text} (hbel : bel ∉ payload) (hst : ¬[esc, '\\'] <:+: payload)
      (rest : Decorated text plain) : Decorated (esc :: ']' :: (payload ++ bel :: text)) plain
  | oscSt {payload text plain : Text} (hbel : bel ∉ payload) (hst : ¬[esc, '\\'] <:+: payload)
      (rest : Decorated text plain) :
      Decorated (esc :: ']' :: (payload ++ esc :: '\\' :: text)) plain

theorem decorated_self {plain : Text} (h : esc ∉ plain) : Decorated plain plain := by
  induction plain with
  | nil => exact .nil
  | cons c plain ih =>
    rw [List.mem_cons, not_or] at h
    exact .char (Ne.symm h.1) (ih h.2)

theorem strip_csi {params : Text} (hparams : ∀ c ∈ params, isFinal c = false) {final : Char}
    (hfinal : isFinal final = true) (text : Text) :
    stripAnsiFrom .csi (params ++ final :: text) = stripAnsi text := by
  induction params with
  | nil =>
    rw [List.nil_append, stripAnsiFrom, if_pos hfinal]
    rfl
  | cons c params ih =>
    rw [List.cons_append, stripAnsiFrom, hparams c (List.mem_cons_self ..)]
    exact ih fun d hd => hparams d (List.mem_cons_of_mem _ hd)

/-- Inside of an OSC sequence nothing is kept, up to its end. -/
theorem strip_osc {payload ending text : Text} (hbel : bel ∉ payload)
    (hst : ¬[esc, '\\'] <:+: payload)
    (hosc : stripAnsiFrom .osc (ending ++ text) = stripAnsi text)
    (hesc : stripAnsiFrom .oscEscape (ending ++ text) = stripAnsi text) :
    stripAnsiFrom .osc (payload ++ (ending ++ text)) = stripAnsi text ∧
      (payload.head? ≠ some '\\' →
        stripAnsiFrom .oscEscape (payload ++ (ending ++ text)) = stripAnsi text) := by
  induction payload with
  | nil => exact ⟨hosc, fun _ => hesc⟩
  | cons c payload ih =>
    rw [List.mem_cons, not_or] at hbel
    have hcbel : c ≠ bel := Ne.symm hbel.1
    rcases ih hbel.2 (fun h => hst (h.trans (List.suffix_cons c payload).isInfix)) with
      ⟨hplain, hescaped⟩
    have hnext : stripAnsiFrom (if c = esc then .oscEscape else .osc)
        (payload ++ (ending ++ text)) = stripAnsi text := by
      by_cases hc : c = esc
      · rw [if_pos hc]
        apply hescaped
        intro hhead
        rcases List.head?_eq_some_iff.1 hhead with ⟨rest, rfl⟩
        apply hst
        rw [hc]
        exact ⟨[], rest, rfl⟩
      · rw [if_neg hc]
        exact hplain
    refine ⟨?_, ?_⟩
    · rw [List.cons_append, stripAnsiFrom, if_neg hcbel]
      exact hnext
    · intro hhead
      have hcslash : c ≠ '\\' := fun heq => hhead (congrArg some heq)
      rw [List.cons_append, stripAnsiFrom, if_neg (not_or.2 ⟨hcslash, hcbel⟩)]
      exact hnext

/-- What is left of a text does not depend on its ANSI sequences. -/
theorem stripAnsi_decorated {text plain : Text} (h : Decorated text plain) :
    stripAnsi text = plain := by
  induction h with
  | nil => rfl
  | char hc _ ih =>
    rw [stripAnsi, stripAnsiFrom, if_neg hc]
    exact congrArg _ ih
  | csi hparams hfinal _ ih =>
    show stripAnsiFrom .csi _ = _
    rw [strip_csi hparams hfinal, ih]
  | @oscBel payload text _ hbel hst _ ih =>
    show stripAnsiFrom .osc (payload ++ ([bel] ++ text)) = _
    rw [(strip_osc hbel hst rfl rfl).1, ih]
  | @oscSt payload text _ hbel hst _ ih =>
    show stripAnsiFrom .osc (payload ++ ([esc, '\\'] ++ text)) = _
    rw [(strip_osc hbel hst rfl rfl).1, ih]

/-! ## Diagnostics -/

structure Diagnostic where
  path : Text
  line : Nat
  column : Nat
  severity : Severity
  code : Nat
  message : Text

def Severity.text : Severity → Text
  | .error => "error".toList
  | .warning => "warning".toList

namespace Diagnostic

variable (d : Diagnostic)

def codeText : Text := "TS".toList ++ Nat.toDigits 10 d.code

def positions : Text := Nat.toDigits 10 d.line ++ ',' :: Nat.toDigits 10 d.column

/-- What is printed behind the position. -/
def tail : Text := d.severity.text ++ ' ' :: (d.codeText ++ ": ".toList ++ d.message)

/-- The line that is printed. -/
def render : Text := d.path ++ '(' :: (d.positions ++ "): ".toList ++ d.tail)

end Diagnostic

/-- The components of a path below the root, unless it escapes. -/
def located (pathPrefix path : Text) : Option (List Name) :=
  Lcov.resolve [] ((if pathPrefix = [] then path else pathPrefix ++ '/' :: path).splitOn '/')

/-- The issue of a diagnostic. -/
def issueOf (pathPrefix checkId : Text) (d : Diagnostic) : Issue where
  checkId := checkId
  path := List.intercalate ['/'] ((located pathPrefix d.path).getD [])
  line := d.line
  column := d.column
  severity := d.severity
  code := some d.codeText
  message := d.message

/-- A part of a line. -/
def Inline (text : Text) : Prop := '\n' ∉ text ∧ esc ∉ text

/-- What tsc can print. -/
structure Printable (pathPrefix : Text) (d : Diagnostic) : Prop where
  path : Inline d.path
  relative : d.path ≠ [] ∧ d.path.head? ≠ some '/'
  inside : (located pathPrefix d.path).isSome = true
  line : d.line ≤ u32Max
  column : d.column ≤ u32Max
  message : Inline d.message
  messageEnd : d.message.getLast? ≠ some '\r'

/-- What is read back. -/
structure Readable (pathPrefix : Text) (d : Diagnostic) : Prop where
  bracket : '(' ∉ d.path
  blank : d.path.head? ≠ some ' ' ∧ d.path.head? ≠ some '\t'
  root : located pathPrefix d.path ≠ some []

/-! ## The line of a diagnostic -/

theorem normalizeJoin_eq {pathPrefix path : Text} (hne : path ≠ []) (hrel : path.head? ≠ some '/') :
    normalizeJoin pathPrefix path = (located pathPrefix path).bind fun parts =>
      if parts = [] then none else some (List.intercalate ['/'] parts) := by
  rw [normalizeJoin, if_neg (not_or.2 ⟨hne, hrel⟩)]
  rfl

theorem tokenSeverity_text (severity : Severity) :
    tokenSeverity severity.text = some severity := by
  cases severity <;> rfl

theorem isCode_codeText (d : Diagnostic) : isCode d.codeText = true := by
  unfold isCode Diagnostic.codeText
  rw [stripPrefix_append, Option.any_some, Bool.and_eq_true, List.all_eq_true]
  exact ⟨decide_eq_true Nat.toDigits_ne_nil, fun c hc => isDigit_toDigits hc⟩

theorem trim_toDigits (n : Nat) : trim (Nat.toDigits 10 n) = Nat.toDigits 10 n := by
  apply trim_eq_self
  · intro c hc
    exact isWhite_of_isDigit (isDigit_toDigits (List.mem_of_mem_head? hc))
  · intro c hc
    exact isWhite_of_isDigit (isDigit_toDigits (List.mem_of_mem_getLast? hc))

theorem parsePositions_positions {d : Diagnostic} (hline : d.line ≤ u32Max)
    (hcolumn : d.column ≤ u32Max) : parsePositions d.positions = some (d.line, d.column) := by
  have hcomma : ∀ n, ',' ∉ Nat.toDigits 10 n :=
    fun n hmem => absurd (isDigit_toDigits hmem) (by decide)
  have hsplit : d.positions.splitOn ',' = [Nat.toDigits 10 d.line, Nat.toDigits 10 d.column] := by
    have hline : ∀ f ∈ [Nat.toDigits 10 d.line], ',' ∉ f := by
      intro f hf
      rw [List.mem_singleton.1 hf]
      exact hcomma d.line
    simpa [Diagnostic.positions] using splitOn_ended hline (hcomma d.column)
  have hread : ∀ n, n ≤ u32Max → parseU32 (trim (Nat.toDigits 10 n)) = some n := by
    intro n hn
    rw [trim_toDigits, parseU32, parseNat_toDigits, if_pos (Nat.lt_succ_of_le hn)]
  unfold parsePositions
  rw [hsplit]
  dsimp only
  rw [hread _ hline, hread _ hcolumn]
  rfl

theorem splitAtText_positions (d : Diagnostic) :
    splitAtText "): ".toList (d.positions ++ "): ".toList ++ d.tail) =
      some (d.positions, d.tail) := by
  have hbracket : ')' ∉ d.positions := by
    intro hmem
    rcases List.mem_append.1 hmem with hmem | hmem
    · exact absurd (isDigit_toDigits hmem) (by decide)
    · rcases List.mem_cons.1 hmem with heq | hmem
      · exact absurd heq (by decide)
      · exact absurd (isDigit_toDigits hmem) (by decide)
  have hfirst : FirstPlace ([')', ':'] ++ [' ']) d.positions := by
    refine firstPlace_of_last (by decide) ?_
    intro hplace
    exact hbracket (hplace.subset (by decide))
  exact splitAtText_first (by decide) hfirst _

theorem splitAtText_code (d : Diagnostic) :
    splitAtText ": ".toList (d.codeText ++ ": ".toList ++ d.message) =
      some (d.codeText, d.message) := by
  have hcolon : ':' ∉ d.codeText := by
    intro hmem
    rcases List.mem_append.1 hmem with hmem | hmem
    · exact absurd hmem (by decide)
    · exact absurd (isDigit_toDigits hmem) (by decide)
  have hfirst : FirstPlace ([':'] ++ [' ']) d.codeText := by
    refine firstPlace_of_last (by decide) ?_
    intro hplace
    exact hcolon (hplace.subset (by decide))
  exact splitAtText_first (by decide) hfirst _

theorem splitOnce_tail (d : Diagnostic) : splitOnce ' ' d.tail =
    (d.severity.text, some (d.codeText ++ ": ".toList ++ d.message)) := by
  apply splitOnce_append
  cases d.severity <;> decide

/-- The line of a diagnostic whose path has no bracket is read as it is. -/
theorem parseDiagnostic_render {pathPrefix checkId : Text} {d : Diagnostic}
    (h : Printable pathPrefix d) (hbracket : '(' ∉ d.path)
    (hroot : located pathPrefix d.path ≠ some []) :
    parseDiagnostic d.render pathPrefix checkId = some (issueOf pathPrefix checkId d) := by
  rcases Option.isSome_iff_exists.1 h.inside with ⟨parts, hparts⟩
  have hne : parts ≠ [] := fun heq => hroot (heq ▸ hparts)
  have hpath : normalizeJoin pathPrefix d.path = some (List.intercalate ['/'] parts) := by
    rw [normalizeJoin_eq h.relative.1 h.relative.2, hparts, Option.bind_some, if_neg hne]
  unfold parseDiagnostic Diagnostic.render
  rw [splitOnce_append hbracket]
  dsimp only [bind, Option.bind]
  rw [splitAtText_positions]
  dsimp only
  rw [parsePositions_positions h.line h.column]
  dsimp only
  rw [splitOnce_tail]
  dsimp only
  rw [tokenSeverity_text]
  dsimp only
  rw [splitAtText_code]
  dsimp only
  rw [isCode_codeText, if_pos rfl, hpath]
  unfold issueOf
  rw [hparts]
  rfl

/-! ## Lines that are read -/

/-- The parts of a line that is read as a diagnostic. -/
structure LineParts (line pathPrefix : Text) (issue : Issue)
    (pathRaw positions severity token : Text) : Prop where
  line : line = pathRaw ++ '(' :: (positions ++ "): ".toList ++
    (severity ++ ' ' :: (token ++ ": ".toList ++ issue.message)))
  bracket : '(' ∉ pathRaw
  positions : parsePositions positions = some (issue.line, issue.column)
  severity : tokenSeverity severity = some issue.severity
  code : issue.code = some token
  digits : isCode token = true
  path : normalizeJoin pathPrefix pathRaw = some issue.path

theorem parseDiagnostic_eq_some {line pathPrefix checkId : Text} {issue : Issue}
    (h : parseDiagnostic line pathPrefix checkId = some issue) :
    ∃ pathRaw positions severity code,
      LineParts line pathPrefix issue pathRaw positions severity code := by
  unfold parseDiagnostic at h
  rcases hopen : splitOnce '(' line with ⟨pathRaw, afterOpen⟩
  rw [hopen] at h
  dsimp only at h
  rcases Option.bind_eq_some_iff.1 h with ⟨afterOpen', heq, h⟩
  rw [heq] at hopen
  rcases Option.bind_eq_some_iff.1 h with ⟨⟨positions, rest⟩, hclose, h⟩
  rcases Option.bind_eq_some_iff.1 h with ⟨⟨lineNo, columnNo⟩, hpositions, h⟩
  dsimp only at h
  rcases hblank : splitOnce ' ' rest with ⟨severityToken, rest'⟩
  rw [hblank] at h
  dsimp only at h
  rcases Option.bind_eq_some_iff.1 h with ⟨rest'', heq', h⟩
  rw [heq'] at hblank
  rcases Option.bind_eq_some_iff.1 h with ⟨severity, hseverity, h⟩
  rcases Option.bind_eq_some_iff.1 h with ⟨⟨codeToken, message⟩, hcode, h⟩
  dsimp only at h
  split_ifs at h with hdigits
  rcases Option.bind_eq_some_iff.1 h with ⟨path, hpath, h⟩
  cases h
  rcases splitOnce_eq_some hopen with ⟨hline, hbracket⟩
  have hafter := (splitAtText_eq_some (by decide) hclose).1
  have hrest := (splitOnce_eq_some hblank).1
  have htail := (splitAtText_eq_some (by decide) hcode).1
  refine ⟨pathRaw, positions, severityToken, codeToken, ?_, hbracket, hpositions, hseverity, rfl,
    hdigits, hpath⟩
  rw [hline, hafter, hrest, htail]

/-- The form of a line with a diagnostic, with numbers as they are read. -/
def Shaped (line : Text) : Prop :=
  ∃ path lineNo columnNo severity digits message,
    line = path ++ '(' :: (lineNo ++ ',' :: columnNo ++ "): ".toList ++
      (Severity.text severity ++ ' ' :: ("TS".toList ++ digits ++ ": ".toList ++ message))) ∧
    (parseU32 (trim lineNo)).isSome = true ∧ (parseU32 (trim columnNo)).isSome = true ∧
    digits ≠ [] ∧ digits.all Char.isDigit = true

theorem parsePositions_eq_some {positions : Text} {line column : Nat}
    (h : parsePositions positions = some (line, column)) :
    ∃ lineNo columnNo, positions = lineNo ++ ',' :: columnNo ∧
      parseU32 (trim lineNo) = some line ∧ parseU32 (trim columnNo) = some column := by
  unfold parsePositions at h
  split at h
  · rename_i lineNo columnNo hsplit
    rcases Option.bind_eq_some_iff.1 h with ⟨line', hline, h⟩
    rcases Option.bind_eq_some_iff.1 h with ⟨column', hcolumn, h⟩
    cases h
    refine ⟨lineNo, columnNo, ?_, hline, hcolumn⟩
    have hjoin : List.intercalate [','] (positions.splitOn ',') = positions :=
      List.intercalate_splitOn ','
    rw [← hjoin, hsplit]
    simp [List.intercalate]
  · cases h

theorem tokenSeverity_eq_some {token : Text} {severity : Severity}
    (h : tokenSeverity token = some severity) : token = severity.text := by
  unfold tokenSeverity at h
  split_ifs at h with herror hwarning
  · cases h
    exact herror
  · cases h
    exact hwarning

theorem shaped_of_parse {line pathPrefix checkId : Text} {issue : Issue}
    (h : parseDiagnostic line pathPrefix checkId = some issue) : Shaped line := by
  rcases parseDiagnostic_eq_some h with ⟨pathRaw, positions, severity, code, hparts⟩
  rcases parsePositions_eq_some hparts.positions with ⟨lineNo, columnNo, hpositions, hline, hcolumn⟩
  have hdigits := hparts.digits
  unfold isCode at hdigits
  rcases (Option.any_eq_true _ _).1 hdigits with ⟨digits, hstrip, hall⟩
  rw [Bool.and_eq_true, decide_eq_true_eq] at hall
  refine ⟨pathRaw, lineNo, columnNo, issue.severity, digits, issue.message, ?_, ?_, ?_, hall⟩
  · rw [hparts.line, hpositions, tokenSeverity_eq_some hparts.severity, stripPrefix_eq_some hstrip]
  · rw [hline]
    rfl
  · rw [hcolumn]
    rfl

/-! ## Paths with a bracket -/

theorem notMem_of_parseU32 {text : Text} {n : Nat} (h : parseU32 (trim text) = some n) :
    '(' ∉ text := by
  intro hmem
  rcases trim_parts text with ⟨lead, trail, heq, hlead, htrail⟩
  have hmem' : '(' ∈ trim text := by
    rw [heq, List.mem_append, List.mem_append] at hmem
    rcases hmem with (hmem | hmem) | hmem
    · exact absurd (hlead _ hmem) (by decide)
    · exact hmem
    · exact absurd (htrail _ hmem) (by decide)
  unfold parseU32 parseNat at h
  dsimp only at h
  split_ifs at h with hdigits
  rw [Bool.or_eq_true, not_or, Bool.not_eq_true', Bool.not_eq_false, List.all_eq_true] at hdigits
  have hplus : '(' ∈ withoutPlus (trim text) := by
    unfold withoutPlus
    split
    · rename_i digits htrim
      rw [htrim] at hmem'
      exact (List.mem_cons.1 hmem').resolve_left (by decide)
    · exact hmem'
  exact absurd (hdigits.2 _ hplus) (by decide)

theorem bracket_notMem_positions {positions : Text} {line column : Nat}
    (h : parsePositions positions = some (line, column)) : '(' ∉ positions := by
  rcases parsePositions_eq_some h with ⟨lineNo, columnNo, rfl, hline, hcolumn⟩
  rw [List.mem_append, List.mem_cons, not_or, not_or]
  exact ⟨notMem_of_parseU32 hline, by decide, notMem_of_parseU32 hcolumn⟩

/-- The line of a diagnostic whose path has a bracket is not read as it is. -/
theorem parseDiagnostic_bracket {pathPrefix checkId : Text} {d : Diagnostic}
    (hbracket : '(' ∈ d.path) :
    parseDiagnostic d.render pathPrefix checkId ≠ some (issueOf pathPrefix checkId d) := by
  intro hparse
  rcases parseDiagnostic_eq_some hparse with ⟨pathRaw, positions, severity, code, hparts⟩
  have hcode : code = d.codeText := (Option.some.inj hparts.code).symm
  have hseverity : severity = d.severity.text := tokenSeverity_eq_some hparts.severity
  rcases List.eq_append_cons_of_mem hbracket with ⟨first, more, hpath, hfirst⟩
  have hline := hparts.line
  rw [Diagnostic.render, hpath, List.append_assoc, List.cons_append] at hline
  -- the path is cut at its first bracket
  have hcut := splitOnce_append hfirst
    (more ++ '(' :: (d.positions ++ "): ".toList ++ d.tail))
  rw [hline, splitOnce_append hparts.bracket, hcode, hseverity] at hcut
  have hrest := Option.some.inj (congrArg Prod.snd hcut)
  change positions ++ "): ".toList ++ d.tail =
    more ++ ('(' :: d.positions ++ "): ".toList ++ d.tail) at hrest
  rw [← List.append_assoc, ← List.append_assoc] at hrest
  have hpositions := List.append_cancel_right (List.append_cancel_right hrest)
  apply bracket_notMem_positions hparts.positions
  rw [hpositions]
  exact List.mem_append_right _ (List.mem_cons_self ..)

/-! ## Texts -/

inductive Item
  | diagnostic (d : Diagnostic)
  | noise (line : Text)

def Item.line : Item → Text
  | .diagnostic d => d.render
  | .noise line => line

def Item.diagnostic? : Item → Option Diagnostic
  | .diagnostic d => some d
  | .noise _ => none

/-- A line that is not one of a diagnostic, and does not go on with a message. -/
structure Noise (line : Text) : Prop where
  inline : Inline line
  lineEnd : line.getLast? ≠ some '\r'
  blank : line.head? ≠ some ' ' ∧ line.head? ≠ some '\t'
  shape : ¬Shaped line

/-- Diagnostics that `allowed` says, and noise. -/
def Item.Ok (allowed : Diagnostic → Prop) : Item → Prop
  | .diagnostic d => allowed d
  | .noise line => Noise line

/-- One line for each item; the last line feed may be missing. -/
def Prints (items : List Item) (plain : Text) : Prop :=
  plain = unlines (items.map Item.line) ∨ plain ++ ['\n'] = unlines (items.map Item.line)

/-- The issues are those of the diagnostics. -/
def Reported (pathPrefix checkId : Text) (diagnostics : List Diagnostic) (issues : List Issue) :
    Prop :=
  ∀ issue, issue ∈ issues ↔ ∃ d ∈ diagnostics, issue = issueOf pathPrefix checkId d

theorem notMem_toDigits {c : Char} (hc : c.isDigit = false) (n : Nat) : c ∉ Nat.toDigits 10 n := by
  intro hmem
  rw [isDigit_toDigits hmem] at hc
  cases hc

/-- A character that is only in the texts of a diagnostic is in no other part of its line. -/
theorem notMem_render {d : Diagnostic} {c : Char} (hdigit : c.isDigit = false)
    (hpath : c ∉ d.path) (hmessage : c ∉ d.message)
    (hfixed : c ∉ "(,): TSerrorwarning".toList) : c ∉ d.render := by
  have hpart : ∀ part : Text, part ⊆ "(,): TSerrorwarning".toList → c ∉ part :=
    fun part hsub hmem => hfixed (hsub hmem)
  have hsingle : ∀ e ∈ "(,): TSerrorwarning".toList, c ≠ e := fun e he heq => hfixed (heq ▸ he)
  have hseverity : c ∉ d.severity.text := by
    cases d.severity with
    | error => exact hpart "error".toList (by decide)
    | warning => exact hpart "warning".toList (by decide)
  simp only [Diagnostic.render, Diagnostic.positions, Diagnostic.tail, Diagnostic.codeText,
    List.mem_append, List.mem_cons, not_or, notMem_toDigits hdigit, not_false_eq_true, and_true,
    true_and]
  exact ⟨hpath, hsingle '(' (by decide), ⟨hsingle ',' (by decide), hpart "): ".toList (by decide)⟩,
    hseverity, hsingle ' ' (by decide), ⟨hpart "TS".toList (by decide),
      hpart ": ".toList (by decide)⟩, hmessage⟩

theorem getLast?_render {d : Diagnostic} (h : d.message.getLast? ≠ some '\r') :
    d.render.getLast? ≠ some '\r' := by
  have hrender : d.render = (d.path ++ '(' :: (d.positions ++ "): ".toList ++
      (d.severity.text ++ ' ' :: (d.codeText ++ [':'])))) ++ ' ' :: d.message := by
    simp [Diagnostic.render, Diagnostic.tail]
  rw [hrender, List.getLast?_append_cons]
  cases hmessage : d.message with
  | nil => decide
  | cons c message =>
    rw [hmessage] at h
    rw [List.getLast?_cons_cons]
    exact h

theorem inline_line {pathPrefix : Text} {allowed : Diagnostic → Prop}
    (hprintable : ∀ d, allowed d → Printable pathPrefix d) {item : Item} (h : item.Ok allowed) :
    Inline item.line ∧ item.line.getLast? ≠ some '\r' := by
  cases item with
  | noise line => exact ⟨h.inline, h.lineEnd⟩
  | diagnostic d =>
    have hd := hprintable d h
    refine ⟨⟨?_, ?_⟩, getLast?_render hd.messageEnd⟩
    · exact notMem_render (by decide) hd.path.1 hd.message.1 (by decide)
    · exact notMem_render (by decide) hd.path.2 hd.message.2 (by decide)

theorem lines_of_prints {items : List Item} {plain : Text} (h : Prints items plain)
    (hlines : ∀ item ∈ items, '\n' ∉ item.line ∧ item.line.getLast? ≠ some '\r') :
    lines plain = items.map Item.line ∨ lines plain ++ [[]] = items.map Item.line := by
  have hno : ∀ line ∈ items.map Item.line, '\n' ∉ line := by
    intro line hline
    rcases List.mem_map.1 hline with ⟨item, hitem, rfl⟩
    exact (hlines item hitem).1
  have hstrip : ∀ ls : List Text, ls.Sublist (items.map Item.line) → ls.map stripCr = ls := by
    intro ls hsub
    conv_rhs => rw [← List.map_id ls]
    apply List.map_congr_left
    intro line hline
    rcases List.mem_map.1 (hsub.subset hline) with ⟨item, hitem, rfl⟩
    exact stripCr_eq_self_iff.2 (hlines item hitem).2
  rcases h with rfl | h
  · left
    rw [lines_unlines hno, hstrip _ (List.Sublist.refl _)]
  · rcases List.eq_nil_or_concat' (items.map Item.line) with hnil | ⟨init, last, hlast⟩
    · rw [hnil] at h
      exact absurd h (by simp [unlines])
    · have hplain : plain = unlines init ++ last := by
        rw [hlast, unlines, List.flatMap_append, List.flatMap_singleton, ← List.append_assoc] at h
        exact List.append_cancel_right h
      have hinit : ∀ line ∈ init, '\n' ∉ line := by
        intro line hline
        exact hno line (hlast ▸ List.mem_append_left _ hline)
      have hlastLine : '\n' ∉ last := hno last (hlast ▸ List.mem_append_right _ List.mem_cons_self)
      have hsub : init.Sublist (items.map Item.line) := hlast ▸ List.sublist_append_left _ _
      unfold lines
      rw [hplain, cut_unlines hinit, cut_of_no_newline hlastLine, List.append_nil, hstrip _ hsub,
        hlast]
      by_cases hempty : last = []
      · right
        rw [if_pos hempty, hempty, List.append_nil]
      · left
        rw [if_neg hempty]

/-! ## What is reported -/

section Reports

variable {pathPrefix checkId : Text}

theorem head?_render {d : Diagnostic} (h : d.path ≠ []) : d.render.head? = d.path.head? := by
  rw [Diagnostic.render, List.head?_append_of_ne_nil _ h]

theorem readTscLine_of_noBlank {issues : List Issue} {line : Text}
    (h : line.head? ≠ some ' ' ∧ line.head? ≠ some '\t') :
    readTscLine pathPrefix checkId issues line =
      issues ++ (parseDiagnostic line pathPrefix checkId).toList :=
  if_neg (not_or.2 h)

theorem readTscLine_noise {issues : List Issue} {line : Text} (h : Noise line) :
    readTscLine pathPrefix checkId issues line = issues := by
  rw [readTscLine_of_noBlank h.blank]
  cases hparse : parseDiagnostic line pathPrefix checkId with
  | none => exact List.append_nil issues
  | some issue => exact absurd (shaped_of_parse hparse) h.shape

theorem readTscLine_render {issues : List Issue} {d : Diagnostic} (h : Printable pathPrefix d)
    (hread : Readable pathPrefix d) : readTscLine pathPrefix checkId issues d.render =
      issues ++ [issueOf pathPrefix checkId d] := by
  rw [readTscLine_of_noBlank (by rw [head?_render h.relative.1]; exact hread.blank),
    parseDiagnostic_render h hread.bracket hread.root]
  rfl

theorem foldl_readTscLine {allowed : Diagnostic → Prop}
    (hprintable : ∀ d, allowed d → Printable pathPrefix d)
    (hreadable : ∀ d, allowed d → Readable pathPrefix d) {items : List Item}
    (hitems : ∀ item ∈ items, item.Ok allowed) (issues : List Issue) :
    (items.map Item.line).foldl (readTscLine pathPrefix checkId) issues =
      issues ++ (items.filterMap Item.diagnostic?).map (issueOf pathPrefix checkId) := by
  induction items generalizing issues with
  | nil => exact (List.append_nil issues).symm
  | cons item items ih =>
    have hitem := hitems item (List.mem_cons_self ..)
    have hrest := fun issues => ih (fun other h => hitems other (List.mem_cons_of_mem _ h)) issues
    rw [List.map_cons, List.foldl_cons, hrest]
    cases item with
    | noise line =>
      show readTscLine pathPrefix checkId issues line ++ _ = _
      rw [readTscLine_noise hitem]
      rfl
    | diagnostic d =>
      show readTscLine pathPrefix checkId issues d.render ++ _ = _
      rw [readTscLine_render (hprintable d hitem) (hreadable d hitem), List.append_assoc]
      rfl

theorem foundTsc_prints {allowed : Diagnostic → Prop}
    (hprintable : ∀ d, allowed d → Printable pathPrefix d) {items : List Item}
    (hitems : ∀ item ∈ items, item.Ok allowed) {plain text : Text} (hprints : Prints items plain)
    (hdecorated : Decorated text plain) : foundTsc text pathPrefix checkId =
      (items.map Item.line).foldl (readTscLine pathPrefix checkId) [] := by
  unfold foundTsc
  rw [stripAnsi_decorated hdecorated]
  rcases lines_of_prints hprints fun item hitem =>
    (inline_line hprintable (hitems item hitem)).imp_left And.left with hlines | hlines
  · rw [hlines]
  · rw [← hlines, List.foldl_append]
    show _ = readTscLine pathPrefix checkId _ []
    rw [readTscLine_of_noBlank (by decide)]
    exact (List.append_nil _).symm

theorem issueOf_eq {d d' : Diagnostic}
    (hface : (issueOf pathPrefix checkId d).face = (issueOf pathPrefix checkId d').face)
    (hseverity : d.severity = d'.severity) :
    issueOf pathPrefix checkId d = issueOf pathPrefix checkId d' := by
  simp only [Issue.face, issueOf, Prod.mk.injEq] at hface
  simp only [issueOf, Issue.mk.injEq]
  exact ⟨trivial, hface.1, hface.2.1, hface.2.2.1, hseverity, hface.2.2.2.1, hface.2.2.2.2⟩

/-- The diagnostics of every text with diagnostics that `allowed` says are reported. -/
def AlwaysReported (pathPrefix checkId : Text) (allowed : Diagnostic → Prop) : Prop :=
  ∀ items plain text, (∀ item ∈ items, item.Ok allowed) → Prints items plain →
    Decorated text plain → Reported pathPrefix checkId (items.filterMap Item.diagnostic?)
      (parseTscText text pathPrefix checkId)

variable {allowed : Diagnostic → Prop}

theorem alwaysReported_of_readable (hprintable : ∀ d, allowed d → Printable pathPrefix d)
    (hreadable : ∀ d, allowed d → Readable pathPrefix d)
    (hseverity : ∀ d d', allowed d → allowed d' →
      (issueOf pathPrefix checkId d).face = (issueOf pathPrefix checkId d').face →
        d.severity = d'.severity) : AlwaysReported pathPrefix checkId allowed := by
  intro items plain text hitems hprints hdecorated issue
  have hfound : foundTsc text pathPrefix checkId =
      (items.filterMap Item.diagnostic?).map (issueOf pathPrefix checkId) := by
    rw [foundTsc_prints hprintable hitems hprints hdecorated,
      foldl_readTscLine hprintable hreadable hitems, List.nil_append]
  have hallowed : ∀ d ∈ items.filterMap Item.diagnostic?, allowed d := by
    intro d hd
    rcases List.mem_filterMap.1 hd with ⟨item, hitem, heq⟩
    have hok := hitems item hitem
    cases item with
    | noise line => cases heq
    | diagnostic d' =>
      cases heq
      exact hok
  have hlist : ∀ issue, issue ∈ parseTscText text pathPrefix checkId →
      ∃ d ∈ items.filterMap Item.diagnostic?, issue = issueOf pathPrefix checkId d := by
    intro issue hissue
    have hmem := mem_of_mem_sortDedup Issue.key Issue.face hissue
    rw [hfound] at hmem
    rcases List.mem_map.1 hmem with ⟨d, hd, heq⟩
    exact ⟨d, hd, heq.symm⟩
  refine ⟨hlist issue, ?_⟩
  intro h
  rcases h with ⟨d, hd, rfl⟩
  -- an issue that agrees with it is in the list, and has its severity too
  have hface : (issueOf pathPrefix checkId d).face ∈
      (parseTscText text pathPrefix checkId).map Issue.face := by
    unfold parseTscText
    refine (mem_map_sortDedup Issue.key Issue.face).2 ?_
    rw [hfound]
    exact List.mem_map_of_mem (List.mem_map_of_mem hd)
  rcases List.mem_map.1 hface with ⟨other, hother, heq⟩
  rcases hlist other hother with ⟨d', hd', rfl⟩
  rw [← issueOf_eq heq (hseverity d' d (hallowed d' hd') (hallowed d hd) heq)]
  exact hother

theorem mem_readTscLine {d : Diagnostic} (h : Printable pathPrefix d)
    (hmem : issueOf pathPrefix checkId d ∈ readTscLine pathPrefix checkId [] d.render) :
    Readable pathPrefix d := by
  have hblank : d.render.head? ≠ some ' ' ∧ d.render.head? ≠ some '\t' := by
    by_contra hnot
    rw [not_and_or, not_not, not_not] at hnot
    rw [readTscLine, if_pos hnot] at hmem
    cases hmem
  rw [readTscLine_of_noBlank hblank, List.nil_append, Option.mem_toList] at hmem
  have hbracket : '(' ∉ d.path := fun hin => parseDiagnostic_bracket hin hmem
  rw [head?_render h.relative.1] at hblank
  refine ⟨hbracket, hblank, ?_⟩
  intro hroot
  rcases parseDiagnostic_eq_some hmem with ⟨pathRaw, positions, severity, code, hparts⟩
  have hcut := splitOnce_append hbracket (d.positions ++ "): ".toList ++ d.tail)
  have hline := hparts.line
  rw [Diagnostic.render] at hline
  rw [hline, splitOnce_append hparts.bracket] at hcut
  have hraw : pathRaw = d.path := congrArg Prod.fst hcut
  have hpath := hparts.path
  rw [hraw, normalizeJoin_eq h.relative.1 h.relative.2, hroot, Option.bind_some,
    if_pos rfl] at hpath
  cases hpath

/-- A text of the lines of some diagnostics only. -/
theorem reported_unlines (hprintable : ∀ d, allowed d → Printable pathPrefix d)
    (h : AlwaysReported pathPrefix checkId allowed) (diagnostics : List Diagnostic)
    (hallowed : ∀ d ∈ diagnostics, allowed d) : Reported pathPrefix checkId diagnostics (sortDedup
      ((diagnostics.map Diagnostic.render).foldl (readTscLine pathPrefix checkId) [])) := by
  have hitems : ∀ item ∈ diagnostics.map Item.diagnostic, item.Ok allowed := by
    intro item hitem
    rcases List.mem_map.1 hitem with ⟨d, hd, rfl⟩
    exact hallowed d hd
  have hplain : esc ∉ unlines ((diagnostics.map Item.diagnostic).map Item.line) := by
    intro hmem
    rcases List.mem_flatMap.1 hmem with ⟨line, hline, hmem⟩
    rcases List.mem_map.1 hline with ⟨item, hitem, rfl⟩
    rcases List.mem_append.1 hmem with hmem | hmem
    · exact (inline_line hprintable (hitems item hitem)).1.2 hmem
    · exact absurd hmem (by decide)
  have hdecorated := decorated_self hplain
  have hreported := h (diagnostics.map Item.diagnostic) _ _ hitems (.inl rfl) hdecorated
  have hdiagnostics : (diagnostics.map Item.diagnostic).filterMap Item.diagnostic? =
      diagnostics := by
    rw [List.filterMap_map]
    exact List.filterMap_some
  unfold parseTscText at hreported
  rw [hdiagnostics, foundTsc_prints hprintable hitems (.inl rfl) hdecorated, List.map_map]
    at hreported
  exact hreported

/-- The diagnostics of all texts are reported exactly if each can be read, and no two differ in
their severity only. -/
theorem reported_iff (hprintable : ∀ d, allowed d → Printable pathPrefix d) :
    AlwaysReported pathPrefix checkId allowed ↔
      (∀ d, allowed d → Readable pathPrefix d) ∧ ∀ d d', allowed d → allowed d' →
        (issueOf pathPrefix checkId d).face = (issueOf pathPrefix checkId d').face →
          d.severity = d'.severity := by
  constructor
  · intro h
    have hreadable : ∀ d, allowed d → Readable pathPrefix d := by
      intro d hd
      have hreported := reported_unlines hprintable h [d]
        (fun other hother => List.mem_singleton.1 hother ▸ hd)
      have hmem := (hreported _).2 ⟨d, List.mem_singleton_self d, rfl⟩
      exact mem_readTscLine (hprintable d hd) (mem_of_mem_sortDedup Issue.key Issue.face hmem)
    refine ⟨hreadable, ?_⟩
    intro d d' hd hd' hface
    have hreported := reported_unlines hprintable h [d, d'] (by
      intro other hother
      rcases List.mem_pair.1 hother with rfl | rfl
      · exact hd
      · exact hd')
    have hmem := (hreported _).2 ⟨d, List.mem_cons_self .., rfl⟩
    have hmem' := (hreported _).2 ⟨d', List.mem_cons_of_mem _ (List.mem_cons_self ..), rfl⟩
    -- of two issues no face can come again behind another one
    have hnot : ¬Repeats (([d, d'].map Diagnostic.render).foldl
        (readTscLine pathPrefix checkId) []) := by
      intro hrepeats
      rcases hrepeats with ⟨a, b, c, hsub, -⟩
      have hlen := hsub.length_le
      simp only [List.map_cons, List.map_nil, List.foldl_cons, List.foldl_nil] at hlen
      rw [readTscLine_render (hprintable d hd) (hreadable d hd),
        readTscLine_render (hprintable d' hd') (hreadable d' hd')] at hlen
      simp at hlen
    have hnodup := ((deduplicated_sortDedup _).2 hnot).distinct
    have heq := List.inj_on_of_nodup_map hnodup hmem hmem' hface
    exact congrArg Issue.severity heq
  · intro h
    exact alwaysReported_of_readable hprintable h.1 h.2

end Reports

/-- An error of a file whose path has no bracket. -/
def plainError : Diagnostic := ⟨"src/a.ts".toList, 12, 5, .error, 2322, "Type".toList⟩

theorem reported_iff_plainError :
    AlwaysReported "frontend".toList "ts-check".toList (· = plainError) := by
  refine (reported_iff (fun d hd => ?_)).2 ⟨fun d hd => ?_, fun d d' hd hd' _ => by rw [hd, hd']⟩
  · rw [hd]
    exact ⟨⟨by decide, by decide⟩, ⟨by decide, by decide⟩, by decide +kernel, by decide, by decide,
      ⟨by decide, by decide⟩, by decide⟩
  · rw [hd]
    exact ⟨by decide, ⟨by decide, by decide⟩, by decide +kernel⟩

/-- An error of a file in a directory whose name is in brackets. -/
def groupError : Diagnostic := ⟨"src/(app)/page.tsx".toList, 12, 5, .error, 2322, "Type".toList⟩

theorem reported_fails : ¬∀ (pathPrefix checkId : Text) (items : List Item) (plain text : Text),
    (∀ item ∈ items, item.Ok (Printable pathPrefix)) → Prints items plain →
      Decorated text plain → Reported pathPrefix checkId (items.filterMap Item.diagnostic?)
        (parseTscText text pathPrefix checkId) := by
  intro h
  have hprintable : Printable [] groupError :=
    ⟨⟨by decide, by decide⟩, ⟨by decide, by decide⟩, by decide +kernel, by decide, by decide,
      ⟨by decide, by decide⟩, by decide⟩
  have hreported := reported_unlines (fun _ hd => hd)
    (fun items plain text => h [] ['t'] items plain text) [groupError]
    (fun d hd => List.mem_singleton.1 hd ▸ hprintable)
  have hmem := (hreported _).2 ⟨groupError, List.mem_singleton_self _, rfl⟩
  have hreadable :=
    mem_readTscLine hprintable (mem_of_mem_sortDedup Issue.key Issue.face hmem)
  exact hreadable.bracket (by decide)

end Vanyline.Health.ToolOutput
