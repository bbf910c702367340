import Vanyline.Lib.ByteOffsets
import Vanyline.Lib.JsonValue
import Vanyline.Lib.Splices

/-!
# Text edits of a language server

A language server answers a rename with edits of a document: ranges of positions and the texts
to put there.  `position_to_offset` makes a byte offset of a position, and `apply_text_edits`
replaces the ranges one after the other, from the greatest start to the smallest.
`replace_range` panics when the offsets do not fit the text as it is then.

* `replaceRanges_isSome_iff` says which offsets never make it panic, whatever the new texts are:
  those at character boundaries of the document, in ranges that do not overlap.
* `error_code` says that every error has the documented code.
* `answers_iff`: an array of edits is answered, whatever its new texts are, exactly when one of
  its ranges is malformed or the offsets are of that kind.
-/

namespace Vanyline.Sandbox.TextEdits

open Vanyline.Lib TextLines ByteOffsets

structure ParsedEdit where
  start : Nat
  stop : Nat
  newText : Text

/-- What a call comes to. -/
inductive Outcome
  | ok (text : Text)
  | error (message : Text)
  | panic

/-- `position_to_offset`.  The sums cannot saturate, as a string has less than 2^63 bytes. -/
def positionToOffset (content : Text) (line character : Nat) : Except Text Nat :=
  let ls := lines content
  match ls[line]? with
  | none =>
    .error ("VNL-SBX-LSP-007: line ".toList ++ Nat.toDigits 10 line ++ " out of range (".toList ++
      Nat.toDigits 10 ls.length ++ " lines)".toList)
  | some lineText =>
    let clamped := min character lineText.length
    .ok (((ls.take line).map fun l => byteLen l + 1).sum + byteLen (lineText.take clamped))

/-- `Value::as_u64`. -/
def asU64 : Json → Option Nat
  | .num n => if n < 2 ^ 64 then some n else none
  | _ => none

def asStr : Json → Option Text
  | .str text => some text
  | _ => none

/-- The offset of one end of a range, which is its field `name`. -/
def parseEnd (content : Text) (range : Json) (name : String) : Except Text Nat :=
  let position := range.get name
  match (position.bind (·.get "line")).bind asU64 with
  | none => .error ("VNL-SBX-LSP-008: TextEdit range missing '".toList ++ name.toList ++
      "' line".toList)
  | some line =>
    match (position.bind (·.get "character")).bind asU64 with
    | none => .error ("VNL-SBX-LSP-008: TextEdit range missing '".toList ++ name.toList ++
        "' character".toList)
    | some character =>
      match positionToOffset content line character with
      | .ok offset => .ok offset
      | .error _ => .error ("VNL-SBX-LSP-008: invalid ".toList ++ name.toList ++
          " position in TextEdit".toList)

/-- The range of an edit as offsets. -/
def parseRange (content : Text) (edit : Json) : Except Text (Nat × Nat) :=
  match edit.get "range" with
  | none => .error "VNL-SBX-LSP-008: TextEdit missing 'range'".toList
  | some range =>
    match parseEnd content range "start", parseEnd content range "end" with
    | .error message, _ => .error message
    | .ok _, .error message => .error message
    | .ok start, .ok stop =>
      if start > stop then
        .error ("VNL-SBX-LSP-008: TextEdit range start > end (".toList ++ Nat.toDigits 10 start ++
          " > ".toList ++ Nat.toDigits 10 stop ++ [')'])
      else .ok (start, stop)

def newTextOf (edit : Json) : Text := ((edit.get "newText").bind asStr).getD []

def parseEdit (content : Text) (edit : Json) : Except Text ParsedEdit :=
  match parseRange content edit with
  | .error message => .error message
  | .ok (start, stop) => .ok ⟨start, stop, newTextOf edit⟩

/-- The loop over the edits, which ends at the first malformed one. -/
def parseEdits (content : Text) : List Json → Except Text (List ParsedEdit)
  | [] => .ok []
  | edit :: edits =>
    match parseEdit content edit with
    | .error message => .error message
    | .ok parsed =>
      match parseEdits content edits with
      | .error message => .error message
      | .ok rest => .ok (parsed :: rest)

/-- The loop that replaces the ranges; it has no value when `replace_range` panics. -/
def replaceRanges : List ParsedEdit → Text → Option Text
  | [], result => some result
  | edit :: edits, result =>
    match replaceRange result edit.start edit.stop edit.newText with
    | none => none
    | some result => replaceRanges edits result

/-- `apply_text_edits`.  `sort_by_key(Reverse(start))` is stable. -/
def applyTextEdits (content : Text) (edits : List Json) : Outcome :=
  match parseEdits content edits with
  | .error message => .error message
  | .ok parsed =>
    match replaceRanges (descending ParsedEdit.start parsed) content with
    | some result => .ok result
    | none => .panic

/-- The answers that the callers reckon with: the new text, or an error with its code. -/
def Answers : Outcome → Prop
  | .ok _ => True
  | .error message => "VNL-SBX-LSP-008".toList <+: message
  | .panic => False

/-- The arrays have the same ranges. -/
def SameRanges (edits edits' : List Json) : Prop :=
  edits.map (·.get "range") = edits'.map (·.get "range")

/-- Offsets that fit a document whatever texts come in: both ends of each range are character
boundaries, and of two ranges the one that is applied later ends where the other begins or
before. -/
structure Fit (content : Text) (parsed : List ParsedEdit) : Prop where
  boundaries : ∀ edit ∈ parsed, IsBoundary content edit.start ∧ IsBoundary content edit.stop
  separate : parsed.Pairwise fun a b =>
    if b.start ≤ a.start then b.stop ≤ a.start else a.stop ≤ b.start

/-- An edit as a server writes it. -/
def editValue (startLine startCharacter stopLine stopCharacter : Nat) (newText : Text) : Json :=
  .object [("range", .object [
    ("start", .object [("line", .num startLine), ("character", .num startCharacter)]),
    ("end", .object [("line", .num stopLine), ("character", .num stopCharacter)])]),
    ("newText", .str newText)]

example : applyTextEdits "abcd".toList [editValue 0 1 0 2 ['X'], editValue 0 2 0 3 ['Y']] =
    .ok "aXYd".toList := by
  rfl

/-! ## Replacing the ranges -/

namespace ParsedEdit

/-- The same range with another text. -/
def withText (newText : Text) (edit : ParsedEdit) : ParsedEdit := { edit with newText }

def range (edit : ParsedEdit) : Nat × Nat := (edit.start, edit.stop)

/-- The byte offsets of a range of characters. -/
def ofSplice (content : Text) (splice : Splice Char) : ParsedEdit :=
  ⟨byteLen (content.take splice.start), byteLen (content.take splice.stop), splice.new⟩

end ParsedEdit

open ParsedEdit

variable {content text more : Text} {edit : ParsedEdit} {edits : List ParsedEdit}

theorem ofSplice_take {n : Nat} {splice : Splice Char} (hstart : splice.start ≤ splice.stop)
    (hstop : splice.stop ≤ n) :
    ofSplice (content.take n) splice = ofSplice content splice := by
  rw [ofSplice, ofSplice, List.take_take, List.take_take,
    Nat.min_eq_left (hstart.trans hstop), Nat.min_eq_left hstop]

/-- Ranges of characters that do not overlap, from the last to the first one. -/
theorem replaceRanges_ofSplice {splices : List (Splice Char)}
    (hdesc : splices.Pairwise fun s t => t.stop ≤ s.start)
    (hwithin : Splice.Within content.length splices) (more : Text) :
    replaceRanges (splices.map (ofSplice content)) (content ++ more) =
      some (Splice.applyAll splices content ++ more) := by
  induction splices generalizing content more with
  | nil => rfl
  | cons s rest ih =>
      obtain ⟨hs, hstop⟩ := hwithin s (List.mem_cons_self ..)
      have hrest := hwithin.tail_of_pairwise hdesc
      have hlength : (content.take s.start).length = s.start :=
        List.length_take_of_le (hs.trans hstop)
      have hmap : rest.map (ofSplice content) = rest.map (ofSplice (content.take s.start)) :=
        List.map_congr_left fun t ht => (ofSplice_take (hrest t ht).1 (hrest t ht).2).symm
      have hfirst := replaceRange_append hs hstop s.new more
      rw [List.map_cons, replaceRanges]
      simp only [ofSplice] at hfirst ⊢
      rw [hfirst]
      show replaceRanges (rest.map (ofSplice content)) _ = _
      rw [hmap, ih (List.pairwise_cons.1 hdesc).2 (by rw [hlength]; exact hrest),
        Splice.applyAll_cons hdesc hwithin]
      simp only [List.append_assoc]

/-- Offsets at boundaries are those of ranges of characters. -/
theorem exists_splices (hedits : ∀ edit ∈ edits, edit.start ≤ edit.stop)
    (h : ∀ edit ∈ edits, IsBoundary content edit.start ∧ IsBoundary content edit.stop) :
    ∃ splices : List (Splice Char), splices.map (ofSplice content) = edits ∧
      Splice.Within content.length splices := by
  induction edits with
  | nil => exact ⟨[], rfl, fun _ h => (nomatch h)⟩
  | cons edit edits ih =>
      obtain ⟨splices, hmap, hwithin⟩ :=
        ih (fun other hother => hedits other (List.mem_cons_of_mem _ hother))
          fun other hother => h other (List.mem_cons_of_mem _ hother)
      obtain ⟨hstart, hstop⟩ := h edit (List.mem_cons_self ..)
      obtain ⟨i, hi, hstart⟩ := isBoundary_iff.1 hstart
      obtain ⟨j, hj, hstop⟩ := isBoundary_iff.1 hstop
      have hle := hedits edit (List.mem_cons_self ..)
      rw [← hstart, ← hstop] at hle
      refine ⟨⟨i, j, edit.newText⟩ :: splices, ?_, ?_⟩
      · rw [List.map_cons, hmap, ofSplice, hstart, hstop]
      · intro splice hsplice
        rcases List.mem_cons.1 hsplice with rfl | hsplice
        · exact ⟨(byteLen_take_le_iff hi hj).1 hle, hj⟩
        · exact hwithin splice hsplice

/-- The ranges of characters do not overlap when the byte offsets do not. -/
theorem pairwise_of_ofSplice {splices : List (Splice Char)}
    (hwithin : Splice.Within content.length splices)
    (h : (splices.map (ofSplice content)).Pairwise fun a b => b.stop ≤ a.start) :
    splices.Pairwise fun s t => t.stop ≤ s.start := by
  rw [List.pairwise_map] at h
  refine h.imp_of_mem fun {s t} hs ht hle => ?_
  have hswithin := hwithin s hs
  exact (byteLen_take_le_iff (hwithin t ht).2 (hswithin.1.trans hswithin.2)).1 hle

/-- A text that cannot be divided `n + 1` bytes behind its beginning. -/
def obstacle (n : Nat) : Text := List.replicate n 'a' ++ ['é']

theorem not_isBoundary_obstacle (before after : Text) (n : Nat) :
    ¬IsBoundary (before ++ obstacle n ++ after) (byteLen before + n + 1) := by
  have hlen : byteLen (before ++ List.replicate n 'a') = byteLen before + n := by
    rw [byteLen_append, byteLen, byteLen, List.map_replicate, List.sum_replicate_nat]
    exact congrArg (_ + ·) (Nat.mul_one n)
  have hsplit : before ++ obstacle n ++ after =
      before ++ List.replicate n 'a' ++ 'é' :: after := by
    simp [obstacle]
  have hsize : 'é'.utf8Size = 2 := rfl
  rw [hsplit]
  apply not_isBoundary_inside <;> omega

/-- The offsets do not fit when a range ends behind the start of the one replaced before. -/
theorem separate_of_isSome (hedits : ∀ edit ∈ edits, edit.start ≤ edit.stop)
    (h : ∀ newText, ∃ text, (replaceRanges (edits.map (withText newText)) text).isSome = true) :
    edits.Pairwise fun a b => b.stop ≤ a.start := by
  induction edits with
  | nil => exact .nil
  | cons first edits ih =>
      have hrest := ih (fun edit hedit => hedits edit (List.mem_cons_of_mem _ hedit)) <| by
        intro newText
        obtain ⟨text, hsome⟩ := h newText
        rw [List.map_cons, replaceRanges] at hsome
        split at hsome
        · cases hsome
        · exact ⟨_, hsome⟩
      refine List.pairwise_cons.2 ⟨?_, hrest⟩
      cases edits with
      | nil => exact fun _ h => (nomatch h)
      | cons second edits =>
          have hsecond : second.stop ≤ first.start := by
            by_contra hgt
            -- the text of the first range ends in a character that the second one would divide
            obtain ⟨text, hsome⟩ := h (obstacle (second.stop - first.start - 1))
            rw [List.map_cons, replaceRanges] at hsome
            split at hsome
            · cases hsome
            · rename_i result hresult
              rw [List.map_cons, replaceRanges] at hsome
              split at hsome
              · cases hsome
              · rename_i result' hresult'
                obtain ⟨i, j, -, -, hstart, -, rfl⟩ := replaceRange_eq_some.1 hresult
                obtain ⟨i', j', -, hj', -, hstop, -⟩ := replaceRange_eq_some.1 hresult'
                have hinside := not_isBoundary_obstacle (text.take i) (text.drop j)
                  (second.stop - first.start - 1)
                apply hinside
                refine isBoundary_iff.2 ⟨j', hj', hstop.trans ?_⟩
                show second.stop = _
                have hstart : byteLen (text.take i) = first.start := hstart
                omega
          intro other hother
          rcases List.mem_cons.1 hother with rfl | hother
          · exact hsecond
          · have hle := (List.pairwise_cons.1 hrest).1 other hother
            have hordered := hedits second (List.mem_cons_of_mem _ (List.mem_cons_self ..))
            omega

/-- Ranges that have been replaced began and ended at boundaries of the text. -/
theorem boundaries_of_isSome (hedits : ∀ edit ∈ edits, edit.start ≤ edit.stop)
    (hstop : ∀ edit ∈ edits, edit.stop ≤ byteLen content)
    (hdesc : edits.Pairwise fun a b => b.stop ≤ a.start)
    (h : (replaceRanges edits (content ++ more)).isSome = true) :
    ∀ edit ∈ edits, IsBoundary content edit.start ∧ IsBoundary content edit.stop := by
  induction edits generalizing content more with
  | nil => exact fun _ h => (nomatch h)
  | cons first edits ih =>
      obtain ⟨hbefore, hdesc⟩ := List.pairwise_cons.1 hdesc
      have hfirst := hstop first (List.mem_cons_self ..)
      have hordered := hedits first (List.mem_cons_self ..)
      rw [replaceRanges] at h
      split at h
      · cases h
      · rename_i result hresult
        obtain ⟨i, j, hij, hj, hi, hjstop, rfl⟩ := replaceRange_eq_some.1 hresult
        have hstartBoundary : IsBoundary content first.start :=
          (isBoundary_append (hordered.trans hfirst)).1 (isBoundary_iff.2 ⟨i, hij.trans hj, hi⟩)
        have hstopBoundary := (isBoundary_append hfirst).1 (isBoundary_iff.2 ⟨j, hj, hjstop⟩)
        obtain ⟨k, hk, hkstart⟩ := isBoundary_iff.1 hstartBoundary
        have htake : (content ++ more).take i = content.take k := by
          have hlong : k ≤ (content ++ more).length := by
            rw [List.length_append]
            omega
          have hik : i = k := by
            apply byteLen_take_inj (hij.trans hj) hlong
            rw [hi, List.take_append_of_le_length hk, hkstart]
          rw [hik, List.take_append_of_le_length hk]
        rw [htake, List.append_assoc] at h
        have hrest := ih (fun edit hedit => hedits edit (List.mem_cons_of_mem _ hedit))
          (fun edit hedit => by rw [hkstart]; exact hbefore edit hedit) hdesc h
        intro edit hedit
        rcases List.mem_cons.1 hedit with rfl | hedit
        · exact ⟨hstartBoundary, hstopBoundary⟩
        · obtain ⟨hstart, hstop⟩ := hrest edit hedit
          have hwhole := List.take_append_drop k content
          rw [← hwhole]
          exact ⟨(isBoundary_append hstart.le).2 hstart, (isBoundary_append hstop.le).2 hstop⟩

/-- Offsets that fit, in the order in which the ranges are replaced. -/
theorem replaceRanges_isSome (hedits : ∀ edit ∈ edits, edit.start ≤ edit.stop)
    (hboundaries : ∀ edit ∈ edits, IsBoundary content edit.start ∧ IsBoundary content edit.stop)
    (hdesc : edits.Pairwise fun a b => b.stop ≤ a.start) :
    (replaceRanges edits content).isSome = true := by
  obtain ⟨splices, rfl, hwithin⟩ := exists_splices hedits hboundaries
  have hresult := replaceRanges_ofSplice (pairwise_of_ofSplice hwithin hdesc) hwithin []
  rw [List.append_nil] at hresult
  rw [hresult]
  rfl

/-- What offsets never make `replace_range` panic. -/
theorem replaceRanges_isSome_iff (hedits : ∀ edit ∈ edits, edit.start ≤ edit.stop) :
    (∀ newText, (replaceRanges (edits.map (withText newText)) content).isSome = true) ↔
      (∀ edit ∈ edits, IsBoundary content edit.start ∧ IsBoundary content edit.stop) ∧
        edits.Pairwise fun a b => b.stop ≤ a.start := by
  have hmap : ∀ newText, ∀ edit ∈ edits.map (withText newText), edit.start ≤ edit.stop :=
    fun newText => List.forall_mem_map.2 hedits
  constructor
  · intro h
    have hdesc := separate_of_isSome hedits fun newText => ⟨content, h newText⟩
    refine ⟨?_, hdesc⟩
    cases edits with
    | nil => exact fun _ h => (nomatch h)
    | cons first edits =>
        have hsome := h []
        have hfirst : first.stop ≤ byteLen content := by
          rw [List.map_cons, replaceRanges] at hsome
          split at hsome
          · cases hsome
          · rename_i result hresult
            obtain ⟨i, j, -, hj, -, hstop, -⟩ := replaceRange_eq_some.1 hresult
            exact (isBoundary_iff.2 ⟨j, hj, hstop⟩).le
        have hstop : ∀ edit ∈ first :: edits, edit.stop ≤ byteLen content := by
          intro edit hedit
          rcases List.mem_cons.1 hedit with rfl | hedit
          · exact hfirst
          · have hle := (List.pairwise_cons.1 hdesc).1 edit hedit
            have hordered := hedits first (List.mem_cons_self ..)
            omega
        rw [← List.append_nil content] at hsome
        exact List.forall_mem_map.1 (boundaries_of_isSome (hmap []) (List.forall_mem_map.2 hstop)
          (List.pairwise_map.2 hdesc) hsome)
  · rintro ⟨hboundaries, hdesc⟩ newText
    exact replaceRanges_isSome (hmap newText) (List.forall_mem_map.2 hboundaries)
      (List.pairwise_map.2 hdesc)

/-! ## Reading the edits -/

theorem fit_iff {parsed : List ParsedEdit} :
    Fit content parsed ↔
      (∀ r ∈ parsed.map range, IsBoundary content r.1 ∧ IsBoundary content r.2) ∧
        (parsed.map range).Pairwise fun a b => if b.1 ≤ a.1 then b.2 ≤ a.1 else a.2 ≤ b.1 := by
  rw [List.forall_mem_map, List.pairwise_map]
  exact ⟨fun ⟨hboundaries, hseparate⟩ => ⟨hboundaries, hseparate⟩,
    fun ⟨hboundaries, hseparate⟩ => ⟨hboundaries, hseparate⟩⟩

/-- Whether offsets fit, in the order in which the ranges are replaced. -/
theorem fit_iff_descending {parsed : List ParsedEdit} :
    Fit content parsed ↔
      (∀ edit ∈ descending ParsedEdit.start parsed,
        IsBoundary content edit.start ∧ IsBoundary content edit.stop) ∧
          (descending ParsedEdit.start parsed).Pairwise fun a b => b.stop ≤ a.start := by
  rw [pairwise_descending_iff]
  simp only [mem_descending]
  exact ⟨fun ⟨hboundaries, hseparate⟩ => ⟨hboundaries, hseparate⟩,
    fun ⟨hboundaries, hseparate⟩ => ⟨hboundaries, hseparate⟩⟩

theorem parseEdit_eq_ok {value : Json} {parsed : ParsedEdit} :
    parseEdit content value = .ok parsed ↔
      parseRange content value = .ok parsed.range ∧ parsed.newText = newTextOf value := by
  rw [parseEdit]
  split
  · rename_i message hrange
    rw [hrange]
    exact ⟨fun h => (nomatch h), fun h => (nomatch h.1)⟩
  · rename_i start stop hrange
    rw [hrange]
    constructor
    · rintro ⟨⟩
      exact ⟨rfl, rfl⟩
    · rintro ⟨hsame, htext⟩
      cases parsed
      cases hsame
      cases htext
      rfl

theorem parseEdits_eq_ok {values : List Json} {parsed : List ParsedEdit} :
    parseEdits content values = .ok parsed ↔
      List.Forall₂ (fun value edit => parseEdit content value = .ok edit) values parsed := by
  induction values generalizing parsed with
  | nil =>
      rw [parseEdits, List.forall₂_nil_left_iff]
      exact ⟨fun h => (by cases h; rfl), fun h => (by rw [h])⟩
  | cons value values ih =>
      rw [parseEdits, List.forall₂_cons_left_iff]
      constructor
      · intro h
        split at h
        · cases h
        · rename_i edit hedit
          split at h
          · cases h
          · rename_i rest hrest
            cases h
            exact ⟨edit, rest, hedit, ih.1 hrest, rfl⟩
      · rintro ⟨edit, rest, hedit, hrest, rfl⟩
        rw [hedit, ih.2 hrest]

theorem parseRange_congr {value value' : Json} (h : value.get "range" = value'.get "range") :
    parseRange content value = parseRange content value' := by
  rw [parseRange, parseRange, h]

/-- The ranges that are read do not depend on the new texts. -/
theorem parseEdits_sameRanges {values values' : List Json} {parsed : List ParsedEdit}
    (hsame : SameRanges values values') (h : parseEdits content values = .ok parsed) :
    ∃ parsed', parseEdits content values' = .ok parsed' ∧
      parsed'.map range = parsed.map range := by
  rw [parseEdits_eq_ok] at h
  simp only [parseEdits_eq_ok]
  induction h generalizing values' with
  | nil =>
      rw [List.map_eq_nil_iff.1 hsame.symm]
      exact ⟨[], .nil, rfl⟩
  | @cons value edit values edits hedit _ ih =>
      obtain ⟨value', rest', rfl, hvalue, hrest⟩ := List.map_eq_cons_iff.1 hsame.symm
      obtain ⟨parsed', hparsed', hranges⟩ := ih hrest.symm
      obtain ⟨hrange, -⟩ := parseEdit_eq_ok.1 hedit
      rw [← parseRange_congr hvalue] at hrange
      refine ⟨⟨edit.start, edit.stop, newTextOf value'⟩ :: parsed', .cons ?_ hparsed', ?_⟩
      · exact parseEdit_eq_ok.2 ⟨hrange, rfl⟩
      · rw [List.map_cons, List.map_cons, hranges]
        rfl

theorem parseRange_le {value : Json} {start stop : Nat}
    (h : parseRange content value = .ok (start, stop)) : start ≤ stop := by
  rw [parseRange] at h
  split at h
  · cases h
  · split at h
    · cases h
    · cases h
    · split_ifs at h with hgt
      cases h
      omega

theorem le_of_parseEdits {values : List Json} {parsed : List ParsedEdit}
    (h : parseEdits content values = .ok parsed) : ∀ edit ∈ parsed, edit.start ≤ edit.stop := by
  rw [parseEdits_eq_ok] at h
  induction h with
  | nil => exact fun _ h => (nomatch h)
  | cons hedit _ ih =>
      exact List.forall_mem_cons.2 ⟨parseRange_le (parseEdit_eq_ok.1 hedit).1, ih⟩

/-- The edit with another text. -/
def retext (newText : Text) (value : Json) : Json :=
  match value.get "range" with
  | some range => .object [("range", range), ("newText", .str newText)]
  | none => .null

theorem get_range_retext (newText : Text) (value : Json) :
    (retext newText value).get "range" = value.get "range" := by
  rw [retext]
  split
  · rename_i range hrange
    rw [hrange, Json.get_object_self]
  · rename_i hrange
    rw [hrange]
    rfl

theorem newTextOf_retext {newText : Text} {value range : Json}
    (h : value.get "range" = some range) : newTextOf (retext newText value) = newText := by
  rw [retext, h]
  dsimp only
  rw [newTextOf, Json.get_object_ne rfl, Json.get_object_self]
  rfl

theorem sameRanges_retext (newText : Text) (values : List Json) :
    SameRanges values (values.map (retext newText)) := by
  rw [SameRanges, List.map_map]
  exact List.map_congr_left fun value _ => (get_range_retext newText value).symm

theorem parseEdits_retext {values : List Json} {parsed : List ParsedEdit}
    (h : parseEdits content values = .ok parsed) (newText : Text) :
    parseEdits content (values.map (retext newText)) = .ok (parsed.map (withText newText)) := by
  rw [parseEdits_eq_ok] at h ⊢
  rw [List.forall₂_map_left_iff, List.forall₂_map_right_iff]
  refine h.imp fun value edit hedit => ?_
  obtain ⟨hrange, -⟩ := parseEdit_eq_ok.1 hedit
  refine parseEdit_eq_ok.2 ⟨?_, ?_⟩
  · rw [parseRange_congr (get_range_retext newText value), hrange]
    rfl
  · rw [parseRange] at hrange
    split at hrange
    · cases hrange
    · rename_i hget
      exact (newTextOf_retext hget).symm

/-! ## Errors -/

/-- What the messages begin with. -/
theorem code_prefix (text : Text) : "VNL-SBX-LSP-008".toList <+: "VNL-SBX-LSP-008".toList ++ text :=
  List.prefix_append ..

theorem code_parseEnd {range : Json} {name : String} {message : Text}
    (h : parseEnd content range name = .error message) :
    "VNL-SBX-LSP-008".toList <+: message := by
  simp only [parseEnd] at h
  split at h
  · cases h
    exact code_prefix (": TextEdit range missing '".toList ++ name.toList ++ "' line".toList)
  · split at h
    · cases h
      exact code_prefix (": TextEdit range missing '".toList ++ name.toList ++ "' character".toList)
    · split at h
      · cases h
      · cases h
        exact code_prefix (": invalid ".toList ++ name.toList ++ " position in TextEdit".toList)

theorem code_parseRange {value : Json} {message : Text}
    (h : parseRange content value = .error message) :
    "VNL-SBX-LSP-008".toList <+: message := by
  rw [parseRange] at h
  split at h
  · cases h
    exact code_prefix ": TextEdit missing 'range'".toList
  · split at h
    · rename_i hstart
      cases h
      exact code_parseEnd hstart
    · rename_i hstop
      cases h
      exact code_parseEnd hstop
    · rename_i start stop _ _
      split_ifs at h
      cases h
      exact code_prefix (": TextEdit range start > end (".toList ++ Nat.toDigits 10 start ++
          " > ".toList ++ Nat.toDigits 10 stop ++ [')'])

theorem error_code {values : List Json} {message : Text}
    (h : parseEdits content values = .error message) :
    "VNL-SBX-LSP-008".toList <+: message := by
  induction values with
  | nil => cases h
  | cons value values ih =>
      rw [parseEdits] at h
      split at h
      · rename_i hedit
        cases h
        rw [parseEdit] at hedit
        split at hedit
        · rename_i hrange
          cases hedit
          exact code_parseRange hrange
        · cases hedit
      · split at h
        · rename_i hrest
          cases h
          exact ih hrest
        · cases h

/-- An array of edits, malformed or not, is answered whatever its new texts are when its offsets
fit the document, and only then. -/
theorem answers_iff (content : Text) (values : List Json) :
    (∀ values', SameRanges values values' → Answers (applyTextEdits content values')) ↔
      ∀ parsed, parseEdits content values = .ok parsed → Fit content parsed := by
  constructor
  · intro h parsed hparsed
    rw [fit_iff_descending, ← replaceRanges_isSome_iff]
    · intro newText
      have hanswers := h _ (sameRanges_retext newText values)
      rw [applyTextEdits, parseEdits_retext hparsed] at hanswers
      have hsort : (descending ParsedEdit.start parsed).map (withText newText) =
          descending ParsedEdit.start (parsed.map (withText newText)) :=
        map_descending fun _ _ _ _ => Iff.rfl
      rw [hsort]
      dsimp only at hanswers
      split at hanswers
      · rename_i hsome
        rw [hsome]
        rfl
      · exact hanswers.elim
    · intro edit hedit
      exact le_of_parseEdits hparsed edit (mem_descending.1 hedit)
  · intro h values' hsame
    rw [applyTextEdits]
    cases hparsed' : parseEdits content values' with
    | error message => exact error_code hparsed'
    | ok parsed' =>
        obtain ⟨parsed, hparsed, hranges⟩ := parseEdits_sameRanges hsame.symm hparsed'
        have hfit : Fit content parsed' := by
          rw [fit_iff, ← hranges, ← fit_iff]
          exact h parsed hparsed
        obtain ⟨hboundaries, hdesc⟩ := fit_iff_descending.1 hfit
        have hsome := replaceRanges_isSome
          (fun edit hedit => le_of_parseEdits hparsed' edit (mem_descending.1 hedit))
          hboundaries hdesc
        obtain ⟨result, hresult⟩ := Option.isSome_iff_exists.1 hsome
        dsimp only
        rw [hresult]
        trivial

/-- A carriage return in front of a line feed is not counted, and the offset of a position behind
it can be in the middle of a character. -/
example : applyTextEdits "a\r\né".toList [editValue 1 1 1 1 ['X']] = .panic := by
  rfl

/-- Two edits of a document that overlap. -/
theorem overlap_panics :
    ¬∀ content values, Answers (applyTextEdits content values) := by
  intro h
  exact h "abc".toList [editValue 0 0 0 2 [], editValue 0 1 0 3 []]

end Vanyline.Sandbox.TextEdits
