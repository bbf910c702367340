import Vanyline.Lib.TextLines

/-!
# JSON texts

The grammar of JSON, over the values that are built of it.

* `Reads b repeats text node rest`: the text begins with the text of a value, of the items of an
  array or of the fields of an object, and `rest` is behind it.  Whether an object may have a key
  twice is a parameter: who reads JSON takes such objects, who writes it does not make them.
* `scan` follows a text and knows what is inside of its literals.  It fails at a character that
  JSON has nowhere else.  By `scan_reads` it never fails in a JSON text.
* `mem_syntaxChars_of_scan`: a text that can be followed from the inside and from the outside has
  only characters of the syntax.
* `mentions_of_mem` and `mem_of_mentions`: a character of a literal is a character of the value.
-/

namespace Vanyline.Lib.JsonText

open Vanyline.Lib.TextLines

/-! ## The grammar -/

/-- What the values are, and how they are built.  Not every numeral has a value. -/
structure Builder (V : Type) where
  null : V
  bool : Bool → V
  number : Text → Option V
  string : Text → V
  array : List V → V
  object : List (Text × V) → V

variable {V : Type} {b : Builder V}

def numeralChars : Text :=
  ['+', '-', '.', '0', '1', '2', '3', '4', '5', '6', '7', '8', '9', 'e', 'E']

def blankChars : Text := [' ', '\t', '\n', '\r']

/-- The characters that are found outside of the literals. -/
def syntaxChars : Text :=
  blankChars ++ numeralChars ++
    ['[', ']', '{', '}', ',', ':', 'n', 'u', 'l', 't', 'r', 'f', 'a', 's']

def hexDigits : Text :=
  ['0', '1', '2', '3', '4', '5', '6', '7', '8', '9', 'a', 'b', 'c', 'd', 'e', 'f', 'A', 'B', 'C',
    'D', 'E', 'F']

/-- The characters of the escapes with one letter, with what they stand for. -/
def shortEscapes : List (Char × Char) :=
  [('"', '"'), ('\\', '\\'), ('/', '/'), ('b', '\x08'), ('f', '\x0c'), ('n', '\n'), ('r', '\r'),
    ('t', '\t')]

/-- The characters that stand for something else in a literal. -/
def escapeChars : Text := shortEscapes.map Prod.fst ++ 'u' :: hexDigits

def hexValue (c : Char) : Nat :=
  let place := hexDigits.idxOf c
  if place < 16 then place else place - 6

/-- Four hexadecimal digits and their number. -/
structure CodeUnit (digits : Text) (unit : Nat) : Prop where
  four : digits.length = 4
  hex : ∀ c ∈ digits, c ∈ hexDigits
  unit : digits.foldl (fun n c => 16 * n + hexValue c) 0 = unit

/-- What is behind the quote that begins a literal: its string, and the text behind it. -/
inductive Literal : Text → Text → Text → Prop
  | close (rest : Text) : Literal ('"' :: rest) [] rest
  | char {c : Char} {text s rest : Text} (hquote : c ≠ '"') (hescape : c ≠ '\\')
      (hcontrol : 32 ≤ c.toNat) (h : Literal text s rest) : Literal (c :: text) (c :: s) rest
  | short {c d : Char} {text s rest : Text} (hescape : (c, d) ∈ shortEscapes)
      (h : Literal text s rest) : Literal ('\\' :: c :: text) (d :: s) rest
  | unicode {digits text s rest : Text} {unit : Nat} (hunit : CodeUnit digits unit)
      (hscalar : unit < 0xD800 ∨ 0xE000 ≤ unit) (h : Literal text s rest) :
      Literal ('\\' :: 'u' :: (digits ++ text)) (Char.ofNat unit :: s) rest
  | pair {digits digits' text s rest : Text} {high low : Nat} (hhigh : CodeUnit digits high)
      (hlow : CodeUnit digits' low) (hhigh' : 0xD800 ≤ high ∧ high < 0xDC00)
      (hlow' : 0xDC00 ≤ low ∧ low < 0xE000) (h : Literal text s rest) :
      Literal ('\\' :: 'u' :: (digits ++ '\\' :: 'u' :: (digits' ++ text)))
        (Char.ofNat (0x10000 + (high - 0xD800) * 0x400 + (low - 0xDC00)) :: s) rest

def Blank (text : Text) : Prop := ∀ c ∈ text, c ∈ blankChars

inductive Node (V : Type) where
  | value (v : V)
  | items (vs : List V)
  | fields (fs : List (Text × V))

/-- The text of a value, of items or of fields, and the rest behind it. -/
inductive Reads (b : Builder V) (repeats : Bool) : Text → Node V → Text → Prop
  | null (rest : Text) : Reads b repeats ('n' :: 'u' :: 'l' :: 'l' :: rest) (.value b.null) rest
  | true (rest : Text) :
      Reads b repeats ('t' :: 'r' :: 'u' :: 'e' :: rest) (.value (b.bool true)) rest
  | false (rest : Text) :
      Reads b repeats ('f' :: 'a' :: 'l' :: 's' :: 'e' :: rest) (.value (b.bool false)) rest
  | number {numeral : Text} {v : V} (rest : Text) (hchars : ∀ c ∈ numeral, c ∈ numeralChars)
      (hvalue : b.number numeral = some v) : Reads b repeats (numeral ++ rest) (.value v) rest
  | string {text s rest : Text} (h : Literal text s rest) :
      Reads b repeats ('"' :: text) (.value (b.string s)) rest
  | emptyArray {blank : Text} (hblank : Blank blank) (rest : Text) :
      Reads b repeats ('[' :: (blank ++ ']' :: rest)) (.value (b.array [])) rest
  | array {text rest : Text} {vs : List V} (h : Reads b repeats text (.items vs) (']' :: rest)) :
      Reads b repeats ('[' :: text) (.value (b.array vs)) rest
  | emptyObject {blank : Text} (hblank : Blank blank) (rest : Text) :
      Reads b repeats ('{' :: (blank ++ '}' :: rest)) (.value (b.object [])) rest
  | object {text rest : Text} {fs : List (Text × V)}
      (h : Reads b repeats text (.fields fs) ('}' :: rest))
      (hkeys : repeats = true ∨ (fs.map Prod.fst).Nodup) :
      Reads b repeats ('{' :: text) (.value (b.object fs)) rest
  | item {blank blank' text rest : Text} {v : V} (hblank : Blank blank) (hblank' : Blank blank')
      (h : Reads b repeats text (.value v) (blank' ++ rest)) :
      Reads b repeats (blank ++ text) (.items [v]) rest
  | moreItems {text text' rest : Text} {v : V} {vs : List V}
      (h : Reads b repeats text (.items [v]) (',' :: text'))
      (h' : Reads b repeats text' (.items vs) rest) : Reads b repeats text (.items (v :: vs)) rest
  | field {blank blank₁ blank₂ blank₃ text text' key rest : Text} {v : V} (hblank : Blank blank)
      (hblank₁ : Blank blank₁) (hblank₂ : Blank blank₂) (hblank₃ : Blank blank₃)
      (hkey : Literal text key (blank₁ ++ ':' :: (blank₂ ++ text')))
      (h : Reads b repeats text' (.value v) (blank₃ ++ rest)) :
      Reads b repeats (blank ++ '"' :: text) (.fields [(key, v)]) rest
  | moreFields {text text' rest : Text} {f : Text × V} {fs : List (Text × V)}
      (h : Reads b repeats text (.fields [f]) (',' :: text'))
      (h' : Reads b repeats text' (.fields fs) rest) :
      Reads b repeats text (.fields (f :: fs)) rest

/-- The text of a value, with white space around it. -/
inductive Document (b : Builder V) (repeats : Bool) (v : V) : Text → Prop
  | mk {blank text blank' : Text} (hblank : Blank blank) (hblank' : Blank blank')
      (h : Reads b repeats text (.value v) blank') : Document b repeats v (blank ++ text)

/-! ## Literals and what is around them -/

inductive Mode where
  | outside
  | inside
  | escaped

/-- A character more.  Outside of the literals it must be one of the syntax. -/
def step : Mode → Char → Option Mode
  | .outside, c =>
    if c = '"' then some .inside else if c ∈ syntaxChars then some .outside else none
  | .inside, c =>
    if c = '"' then some .outside else if c = '\\' then some .escaped else some .inside
  | .escaped, _ => some .inside

def scan : Mode → Text → Option Mode
  | mode, [] => some mode
  | mode, c :: text => (step mode c).bind fun next => scan next text

theorem step_outside (c : Char) :
    step .outside c =
      if c = '"' then some .inside else if c ∈ syntaxChars then some .outside else none := rfl

theorem step_inside (c : Char) :
    step .inside c =
      if c = '"' then some .outside else if c = '\\' then some .escaped else some .inside := rfl

theorem mem_of_all {w chars : Text} (h : (w.all fun c => chars.contains c) = true) :
    ∀ c ∈ w, c ∈ chars := by
  intro c hc
  exact List.contains_iff_mem.1 (List.all_eq_true.1 h c hc)

theorem plain_of_all {w : Text} (h : (w.all fun c => c != '"' && c != '\\') = true) :
    ∀ c ∈ w, c ≠ '"' ∧ c ≠ '\\' := by
  intro c hc
  have hboth := List.all_eq_true.1 h c hc
  rw [Bool.and_eq_true, bne_iff_ne, bne_iff_ne] at hboth
  exact hboth

theorem scan_append (mode : Mode) (text more : Text) :
    scan mode (text ++ more) = (scan mode text).bind fun next => scan next more := by
  induction text generalizing mode with
  | nil => rfl
  | cons c text ih =>
    rw [List.cons_append, scan, scan]
    cases step mode c with
    | none => rfl
    | some next => exact ih next

theorem scan_outside {w : Text} (h : ∀ c ∈ w, c ∈ syntaxChars) (text : Text) :
    scan .outside (w ++ text) = scan .outside text := by
  induction w with
  | nil => rfl
  | cons c w ih =>
    rw [List.forall_mem_cons] at h
    have hc : c ≠ '"' := by
      intro hc
      rw [hc] at h
      exact absurd h.1 (by decide)
    rw [List.cons_append, scan, step_outside, if_neg hc, if_pos h.1]
    exact ih h.2

theorem scan_inside {w : Text} (h : ∀ c ∈ w, c ≠ '"' ∧ c ≠ '\\') (text : Text) :
    scan .inside (w ++ text) = scan .inside text := by
  induction w with
  | nil => rfl
  | cons c w ih =>
    rw [List.forall_mem_cons] at h
    rw [List.cons_append, scan, step_inside, if_neg h.1.1, if_neg h.1.2]
    exact ih h.2

theorem scan_escape (c : Char) (text : Text) :
    scan .inside ('\\' :: c :: text) = scan .inside text := rfl

theorem CodeUnit.scan_inside {digits : Text} {unit : Nat} (h : CodeUnit digits unit)
    (text : Text) : scan .inside (digits ++ text) = scan .inside text := by
  apply JsonText.scan_inside
  intro c hc
  have hhex := h.hex c hc
  constructor
  · intro heq
    rw [heq] at hhex
    exact absurd hhex (by decide)
  · intro heq
    rw [heq] at hhex
    exact absurd hhex (by decide)

theorem scan_literal {text s rest : Text} (h : Literal text s rest) :
    scan .inside text = scan .outside rest := by
  induction h with
  | close rest => rfl
  | char hquote hescape hcontrol h ih =>
    rw [scan, step_inside, if_neg hquote, if_neg hescape]
    exact ih
  | short hescape h ih => exact ih
  | unicode hunit hscalar h ih => rw [scan_escape, hunit.scan_inside, ih]
  | pair hhigh hlow hhigh' hlow' h ih =>
    rw [scan_escape, hhigh.scan_inside, scan_escape, hlow.scan_inside, ih]

theorem Blank.scan_outside {blank : Text} (h : Blank blank) (text : Text) :
    scan .outside (blank ++ text) = scan .outside text :=
  JsonText.scan_outside
    (fun c hc => List.mem_append_left _ (List.mem_append_left _ (h c hc))) text

theorem scan_reads {repeats : Bool} {text rest : Text} {node : Node V}
    (h : Reads b repeats text node rest) : scan .outside text = scan .outside rest := by
  induction h with
  | null rest => rfl
  | true rest => rfl
  | false rest => rfl
  | number rest hchars hvalue =>
    apply scan_outside
    intro c hc
    exact List.mem_append_left _ (List.mem_append_right _ (hchars c hc))
  | string h => exact scan_literal h
  | emptyArray hblank rest => exact hblank.scan_outside _
  | array h ih => exact ih
  | emptyObject hblank rest => exact hblank.scan_outside _
  | object h hkeys ih => exact ih
  | item hblank hblank' h ih => rw [hblank.scan_outside, ih, hblank'.scan_outside]
  | moreItems h h' ih ih' => exact ih.trans ih'
  | field hblank hblank₁ hblank₂ hblank₃ hkey h ih =>
    rw [hblank.scan_outside]
    refine (scan_literal hkey).trans ?_
    rw [hblank₁.scan_outside]
    refine (hblank₂.scan_outside _).trans ?_
    rw [ih, hblank₃.scan_outside]
  | moreFields h h' ih ih' => exact ih.trans ih'

theorem Document.scan {repeats : Bool} {v : V} {text : Text} (h : Document b repeats v text) :
    scan .outside text = some .outside := by
  cases h with
  | mk hblank hblank' h =>
    have hbehind := hblank'.scan_outside []
    rw [List.append_nil] at hbehind
    rw [hblank.scan_outside, scan_reads h, hbehind]
    rfl

/-- One of two readers that never agree on what is a literal is outside of it. -/
theorem mem_syntaxChars_of_scan {text : Text} (hinside : scan .inside text ≠ none)
    (houtside : scan .outside text ≠ none) : ∀ c ∈ text, c = '"' ∨ c ∈ syntaxChars := by
  induction text with
  | nil => exact fun c hc => nomatch hc
  | cons c text ih =>
    rw [List.forall_mem_cons]
    rw [scan, step_inside] at hinside
    rw [scan, step_outside] at houtside
    by_cases hquote : c = '"'
    · rw [if_pos hquote] at hinside houtside
      exact ⟨Or.inl hquote, ih houtside hinside⟩
    · rw [if_neg hquote] at hinside houtside
      by_cases hchar : c ∈ syntaxChars
      · rw [if_pos hchar] at houtside
        have hescape : c ≠ '\\' := by
          intro hc
          rw [hc] at hchar
          exact absurd hchar (by decide)
        rw [if_neg hescape] at hinside
        exact ⟨Or.inr hchar, ih hinside houtside⟩
      · rw [if_neg hchar] at houtside
        exact absurd rfl houtside

/-! ## The characters of a value -/

/-- The values with the character in one of their strings or keys. -/
structure Mentions (b : Builder V) (c : Char) (mentions : V → Prop) : Prop where
  null : ¬mentions b.null
  bool (x : Bool) : ¬mentions (b.bool x)
  number {numeral : Text} {v : V} : b.number numeral = some v → ¬mentions v
  string {s : Text} : mentions (b.string s) ↔ c ∈ s
  array {vs : List V} : mentions (b.array vs) ↔ ∃ v ∈ vs, mentions v
  field_of_object {fs : List (Text × V)} :
    mentions (b.object fs) → ∃ f ∈ fs, c ∈ f.1 ∨ mentions f.2
  object {fs : List (Text × V)} : (fs.map Prod.fst).Nodup →
    (∃ f ∈ fs, c ∈ f.1 ∨ mentions f.2) → mentions (b.object fs)

def Node.Mentions (c : Char) (mentions : V → Prop) : Node V → Prop
  | .value v => mentions v
  | .items vs => ∃ v ∈ vs, mentions v
  | .fields fs => ∃ f ∈ fs, c ∈ f.1 ∨ mentions f.2

/-- What is written as it is only. -/
structure Ordinary (c : Char) : Prop where
  notSyntax : c ∉ syntaxChars
  notQuote : c ≠ '"'
  notEscape : c ∉ escapeChars

theorem CodeUnit.notMem {digits : Text} {unit : Nat} (h : CodeUnit digits unit) {c : Char}
    (hc : Ordinary c) : c ∉ digits := by
  intro hmem
  exact hc.notEscape (List.mem_append_right _ (List.mem_cons_of_mem _ (h.hex c hmem)))

theorem Blank.notMem {blank : Text} (h : Blank blank) {c : Char} (hc : Ordinary c) :
    c ∉ blank := by
  intro hmem
  exact hc.notSyntax (List.mem_append_left _ (List.mem_append_left _ (h c hmem)))

theorem Ordinary.ne_of_escape {c : Char} (hc : Ordinary c) {d : Char} (hd : d ∈ escapeChars) :
    c ≠ d := fun heq => hc.notEscape (heq ▸ hd)

theorem mem_string_of_mem {c : Char} (hc : Ordinary c) {text s rest : Text}
    (h : Literal text s rest) (hmem : c ∈ text) : c ∈ s ∨ c ∈ rest := by
  have hslash : c ≠ '\\' := hc.ne_of_escape (by decide)
  have hu : c ≠ 'u' := hc.ne_of_escape (by decide)
  induction h with
  | close rest => exact Or.inr ((List.mem_cons.1 hmem).resolve_left hc.notQuote)
  | char hquote hescape hcontrol h ih =>
    rcases List.mem_cons.1 hmem with heq | hmem
    · exact Or.inl (heq ▸ List.mem_cons_self)
    · exact (ih hmem).imp_left (List.mem_cons_of_mem _)
  | @short e d text s rest hescape h ih =>
    have he : c ≠ e := hc.ne_of_escape
      (List.mem_append_left _ (List.mem_map.2 ⟨(e, d), hescape, rfl⟩))
    have hmem := (List.mem_cons.1 ((List.mem_cons.1 hmem).resolve_left hslash)).resolve_left he
    exact (ih hmem).imp_left (List.mem_cons_of_mem _)
  | unicode hunit hscalar h ih =>
    have hmem := (List.mem_cons.1 ((List.mem_cons.1 hmem).resolve_left hslash)).resolve_left hu
    have hmem := (List.mem_append.1 hmem).resolve_left (hunit.notMem hc)
    exact (ih hmem).imp_left (List.mem_cons_of_mem _)
  | pair hhigh hlow hhigh' hlow' h ih =>
    have hmem := (List.mem_cons.1 ((List.mem_cons.1 hmem).resolve_left hslash)).resolve_left hu
    have hmem := (List.mem_append.1 hmem).resolve_left (hhigh.notMem hc)
    have hmem := (List.mem_cons.1 ((List.mem_cons.1 hmem).resolve_left hslash)).resolve_left hu
    have hmem := (List.mem_append.1 hmem).resolve_left (hlow.notMem hc)
    exact (ih hmem).imp_left (List.mem_cons_of_mem _)

theorem mem_of_mem_string {c : Char} {text s rest : Text} (h : Literal text s rest)
    (hmem : c ∈ s) : c ∈ text ∨ '\\' ∈ text := by
  induction h with
  | close rest => cases hmem
  | char hquote hescape hcontrol h ih =>
    rcases List.mem_cons.1 hmem with heq | hmem
    · exact Or.inl (heq ▸ List.mem_cons_self)
    · exact (ih hmem).imp (List.mem_cons_of_mem _) (List.mem_cons_of_mem _)
  | short hescape h ih => exact Or.inr List.mem_cons_self
  | unicode hunit hscalar h ih => exact Or.inr List.mem_cons_self
  | pair hhigh hlow hhigh' hlow' h ih => exact Or.inr List.mem_cons_self

/-- What is behind a literal is a part of the text. -/
theorem Literal.suffix {text s rest : Text} (h : Literal text s rest) : rest <:+ text := by
  induction h with
  | close rest => exact List.suffix_cons _ _
  | char hquote hescape hcontrol h ih => exact ih.trans (List.suffix_cons _ _)
  | short hescape h ih => exact ih.trans (List.suffix_append [_, _] _)
  | @unicode digits text s rest unit hunit hscalar h ih =>
    exact ih.trans (List.suffix_append ('\\' :: 'u' :: digits) _)
  | @pair digits digits' text s rest high low hhigh hlow hhigh' hlow' h ih =>
    have hlast := ih.trans (List.suffix_append ('\\' :: 'u' :: digits') _)
    exact hlast.trans (List.suffix_append ('\\' :: 'u' :: digits) _)

theorem Reads.suffix {repeats : Bool} {text rest : Text} {node : Node V}
    (h : Reads b repeats text node rest) : rest <:+ text := by
  induction h with
  | null rest => exact List.suffix_append ['n', 'u', 'l', 'l'] rest
  | true rest => exact List.suffix_append ['t', 'r', 'u', 'e'] rest
  | false rest => exact List.suffix_append ['f', 'a', 'l', 's', 'e'] rest
  | @number numeral v rest hchars hvalue => exact List.suffix_append numeral rest
  | string h => exact h.suffix.trans (List.suffix_cons _ _)
  | @emptyArray blank hblank rest =>
    refine (List.suffix_append ('[' :: blank ++ [']']) rest).trans ?_
    simp
  | array h ih => exact ((List.suffix_cons _ _).trans ih).trans (List.suffix_cons _ _)
  | @emptyObject blank hblank rest =>
    refine (List.suffix_append ('{' :: blank ++ ['}']) rest).trans ?_
    simp
  | object h hkeys ih => exact ((List.suffix_cons _ _).trans ih).trans (List.suffix_cons _ _)
  | item hblank hblank' h ih =>
    exact ((List.suffix_append _ _).trans ih).trans (List.suffix_append _ _)
  | moreItems h h' ih ih' => exact (ih'.trans (List.suffix_cons _ _)).trans ih
  | @field blank blank₁ blank₂ blank₃ text text' key rest v hblank hblank₁ hblank₂ hblank₃ hkey h
      ih =>
    have hvalue := ((List.suffix_append _ _).trans ih).trans (List.suffix_append blank₂ _)
    have hcolon := (hvalue.trans (List.suffix_cons ':' _)).trans (List.suffix_append blank₁ _)
    exact ((hcolon.trans hkey.suffix).trans (List.suffix_cons '"' _)).trans
      (List.suffix_append blank _)
  | moreFields h h' ih ih' => exact (ih'.trans (List.suffix_cons _ _)).trans ih

theorem mem_of_mentions {c : Char} {mentions : V → Prop} (hm : Mentions b c mentions)
    {repeats : Bool} {text rest : Text} {node : Node V} (h : Reads b repeats text node rest)
    (hnode : node.Mentions c mentions) : c ∈ text ∨ '\\' ∈ text := by
  induction h with
  | null rest => exact absurd hnode hm.null
  | true rest => exact absurd hnode (hm.bool _)
  | false rest => exact absurd hnode (hm.bool _)
  | number rest hchars hvalue => exact absurd hnode (hm.number hvalue)
  | string h =>
    have hmem := mem_of_mem_string h (hm.string.1 hnode)
    exact hmem.imp (List.mem_cons_of_mem _) (List.mem_cons_of_mem _)
  | emptyArray hblank rest =>
    rcases hm.array.1 hnode with ⟨v, hv, _⟩
    cases hv
  | array h ih =>
    exact (ih (hm.array.1 hnode)).imp (List.mem_cons_of_mem _) (List.mem_cons_of_mem _)
  | emptyObject hblank rest =>
    rcases hm.field_of_object hnode with ⟨f, hf, _⟩
    cases hf
  | object h hkeys ih =>
    exact (ih (hm.field_of_object hnode)).imp (List.mem_cons_of_mem _) (List.mem_cons_of_mem _)
  | item hblank hblank' h ih =>
    rcases hnode with ⟨v, hv, hmention⟩
    cases List.mem_singleton.1 hv
    exact (ih hmention).imp (List.mem_append_right _) (List.mem_append_right _)
  | moreItems h h' ih ih' =>
    rcases hnode with ⟨v, hv, hmention⟩
    rcases List.mem_cons.1 hv with rfl | hv
    · exact ih ⟨v, List.mem_cons_self, hmention⟩
    · have hsuffix := (List.suffix_cons _ _).trans h.suffix
      exact (ih' ⟨v, hv, hmention⟩).imp (hsuffix.subset ·) (hsuffix.subset ·)
  | @field blank blank₁ blank₂ blank₃ text text' key rest v hblank hblank₁ hblank₂ hblank₃ hkey h
      ih =>
    rcases hnode with ⟨f, hf, hmention⟩
    cases List.mem_singleton.1 hf
    have hwhole : ∀ {d : Char}, d ∈ text → d ∈ blank ++ '"' :: text :=
      fun hd => List.mem_append_right _ (List.mem_cons_of_mem _ hd)
    rcases hmention with hmem | hmention
    · exact (mem_of_mem_string hkey hmem).imp hwhole hwhole
    · have hsuffix : text' <:+ text := ((List.suffix_append blank₂ _).trans
        ((List.suffix_cons ':' _).trans (List.suffix_append blank₁ _))).trans hkey.suffix
      exact (ih hmention).imp (fun hd => hwhole (hsuffix.subset hd))
        (fun hd => hwhole (hsuffix.subset hd))
  | moreFields h h' ih ih' =>
    rcases hnode with ⟨f, hf, hmention⟩
    rcases List.mem_cons.1 hf with rfl | hf
    · exact ih ⟨f, List.mem_cons_self, hmention⟩
    · have hsuffix := (List.suffix_cons _ _).trans h.suffix
      exact (ih' ⟨f, hf, hmention⟩).imp (hsuffix.subset ·) (hsuffix.subset ·)

/-- Without repeated keys nothing of a text is lost. -/
theorem mentions_of_mem {c : Char} (hc : Ordinary c) {mentions : V → Prop}
    (hm : Mentions b c mentions) {text rest : Text} {node : Node V}
    (h : Reads b Bool.false text node rest) (hmem : c ∈ text) :
    node.Mentions c mentions ∨ c ∈ rest := by
  have hskip : ∀ {w more : Text}, (∀ d ∈ w, d ∈ syntaxChars) → c ∈ w ++ more → c ∈ more := by
    intro w more hw hmem
    exact (List.mem_append.1 hmem).resolve_left fun h => hc.notSyntax (hw c h)
  have hblanks : ∀ {blank : Text}, Blank blank → ∀ d ∈ blank, d ∈ syntaxChars :=
    fun hblank d hd => List.mem_append_left _ (List.mem_append_left _ (hblank d hd))
  induction h with
  | null rest => exact Or.inr (hskip (w := ['n', 'u', 'l', 'l']) (mem_of_all rfl) hmem)
  | true rest => exact Or.inr (hskip (w := ['t', 'r', 'u', 'e']) (mem_of_all rfl) hmem)
  | false rest => exact Or.inr (hskip (w := ['f', 'a', 'l', 's', 'e']) (mem_of_all rfl) hmem)
  | number rest hchars hvalue =>
    exact Or.inr (hskip
      (fun d hd => List.mem_append_left _ (List.mem_append_right _ (hchars d hd))) hmem)
  | string h =>
    have hmem := (List.mem_cons.1 hmem).resolve_left hc.notQuote
    exact (mem_string_of_mem hc h hmem).imp_left hm.string.2
  | emptyArray hblank rest =>
    have hmem := hskip (hblanks hblank) (hskip (w := ['[']) (mem_of_all rfl) hmem)
    exact Or.inr (hskip (w := [']']) (mem_of_all rfl) hmem)
  | array h ih =>
    rcases ih (hskip (w := ['[']) (mem_of_all rfl) hmem) with hmention | hmem
    · exact Or.inl (hm.array.2 hmention)
    · exact Or.inr (hskip (w := [']']) (mem_of_all rfl) hmem)
  | emptyObject hblank rest =>
    have hmem := hskip (hblanks hblank) (hskip (w := ['{']) (mem_of_all rfl) hmem)
    exact Or.inr (hskip (w := ['}']) (mem_of_all rfl) hmem)
  | object h hkeys ih =>
    rcases ih (hskip (w := ['{']) (mem_of_all rfl) hmem) with hmention | hmem
    · exact Or.inl (hm.object (hkeys.resolve_left Bool.false_ne_true) hmention)
    · exact Or.inr (hskip (w := ['}']) (mem_of_all rfl) hmem)
  | item hblank hblank' h ih =>
    rcases ih (hskip (hblanks hblank) hmem) with hmention | hmem
    · exact Or.inl ⟨_, List.mem_cons_self, hmention⟩
    · exact Or.inr (hskip (hblanks hblank') hmem)
  | moreItems h h' ih ih' =>
    rcases ih hmem with ⟨v, hv, hmention⟩ | hmem
    · cases List.mem_singleton.1 hv
      exact Or.inl ⟨_, List.mem_cons_self, hmention⟩
    · rcases ih' (hskip (w := [',']) (mem_of_all rfl) hmem) with ⟨v, hv, hmention⟩ | hmem
      · exact Or.inl ⟨v, List.mem_cons_of_mem _ hv, hmention⟩
      · exact Or.inr hmem
  | field hblank hblank₁ hblank₂ hblank₃ hkey h ih =>
    have hmem := (List.mem_cons.1 (hskip (hblanks hblank) hmem)).resolve_left hc.notQuote
    rcases mem_string_of_mem hc hkey hmem with hmem | hmem
    · exact Or.inl ⟨_, List.mem_cons_self, Or.inl hmem⟩
    · have hmem := hskip (w := [':']) (mem_of_all rfl) (hskip (hblanks hblank₁) hmem)
      rcases ih (hskip (hblanks hblank₂) hmem) with hmention | hmem
      · exact Or.inl ⟨_, List.mem_cons_self, Or.inr hmention⟩
      · exact Or.inr (hskip (hblanks hblank₃) hmem)
  | moreFields h h' ih ih' =>
    rcases ih hmem with ⟨f, hf, hmention⟩ | hmem
    · cases List.mem_singleton.1 hf
      exact Or.inl ⟨_, List.mem_cons_self, hmention⟩
    · rcases ih' (hskip (w := [',']) (mem_of_all rfl) hmem) with ⟨f, hf, hmention⟩ | hmem
      · exact Or.inl ⟨f, List.mem_cons_of_mem _ hf, hmention⟩
      · exact Or.inr hmem

theorem Document.mem_of_mentions {c : Char} {mentions : V → Prop} (hm : Mentions b c mentions)
    {repeats : Bool} {v : V} {text : Text} (h : Document b repeats v text) (hv : mentions v) :
    c ∈ text ∨ '\\' ∈ text := by
  cases h with
  | mk hblank hblank' h =>
    exact (JsonText.mem_of_mentions hm h hv).imp (List.mem_append_right _)
      (List.mem_append_right _)

theorem Document.mentions_of_mem {c : Char} (hc : Ordinary c) {mentions : V → Prop}
    (hm : Mentions b c mentions) {v : V} {text : Text} (h : Document b Bool.false v text)
    (hmem : c ∈ text) : mentions v := by
  cases h with
  | mk hblank hblank' h =>
    have hmem := (List.mem_append.1 hmem).resolve_left (hblank.notMem hc)
    exact (JsonText.mentions_of_mem hc hm h hmem).resolve_right (hblank'.notMem hc)

end Vanyline.Lib.JsonText
