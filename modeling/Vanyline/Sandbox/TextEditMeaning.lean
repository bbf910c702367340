import Vanyline.Sandbox.TextEdits

/-!
# What text edits mean

The protocol says what edits of a document mean: their ranges, which do not overlap, are replaced
at once, and insertions at one position come in the order of the array.  A position is a line and
a number of UTF-16 units in it; behind a last line break there is one more line.

`apply_text_edits` gives another text, or none, in three situations, and `meaning_iff` says that
there are no others.

* A line break in front of a position is a CRLF: only one byte is counted for it.
* A position is in the line behind the last line break, or the document is empty: `lines` has no
  such line.
* Two edits begin at one position: insertions come out in the opposite order, and a range that
  comes behind an insertion in the array replaces what has been inserted.
-/

namespace Vanyline.Sandbox.TextEdits

open Vanyline.Lib TextLines ByteOffsets ParsedEdit

/-- A position of the protocol, whose numbers are machine integers. -/
structure Position where
  line : Nat
  character : Nat
  line_lt : line < 2 ^ 64
  character_lt : character < 2 ^ 64

structure TextEdit where
  start : Position
  stop : Position
  newText : Text

/-- The number of UTF-16 units of a character. -/
def units (c : Char) : Nat := if c.toNat < 0x10000 then 1 else 2

/-- The characters of a line that are before a number of units. -/
def charsBefore : Nat → Text → Nat
  | _, [] => 0
  | n, c :: line => if units c ≤ n then charsBefore (n - units c) line + 1 else 0

/-- The lines of a document with LF and CRLF line ends, without these. -/
def documentLines (content : Text) : List Text :=
  (cut content).1.map stripCr ++ [(cut content).2]

namespace Position

variable (content : Text) (position : Position)

/-- The document has the line; in a line that is shorter, its end is meant. -/
def Valid : Prop := position.line < (documentLines content).length

/-- The characters of the document before the position. -/
def index : Nat :=
  (unlines ((cut content).1.take position.line)).length +
    charsBefore position.character ((documentLines content).getD position.line [])

end Position

instance (content : Text) (position : Position) : Decidable (position.Valid content) :=
  inferInstanceAs (Decidable (position.line < (documentLines content).length))

namespace TextEdit

variable (content : Text)

def splice (edit : TextEdit) : Splice Char :=
  ⟨edit.start.index content, edit.stop.index content, edit.newText⟩

/-- The same range with another text. -/
def withText (newText : Text) (edit : TextEdit) : TextEdit := { edit with newText }

def range (edit : TextEdit) : Position × Position := (edit.start, edit.stop)

end TextEdit

/-- The text that the edits of a document mean. -/
def meaning (content : Text) (edits : List TextEdit) : Text :=
  Splice.replaceAll (edits.map (TextEdit.splice content)) content

/-- Ranges of the document that do not overlap. -/
structure ValidEdits (content : Text) (edits : List TextEdit) : Prop where
  start_valid : ∀ edit ∈ edits, edit.start.Valid content
  stop_valid : ∀ edit ∈ edits, edit.stop.Valid content
  ordered : ∀ edit ∈ edits, edit.start.index content ≤ edit.stop.index content
  disjoint : edits.Pairwise fun a b =>
    a.stop.index content ≤ b.start.index content ∨ b.stop.index content ≤ a.start.index content

/-- The JSON value of a position. -/
def Position.Written (position : Position) (value : Json) : Prop :=
  value.get "line" = some (.num position.line) ∧
    value.get "character" = some (.num position.character)

/-- The JSON value of an edit, which may have other fields too. -/
def TextEdit.Written (value : Json) (edit : TextEdit) : Prop :=
  ∃ range start stop, value.get "range" = some range ∧ range.get "start" = some start ∧
    range.get "end" = some stop ∧ edit.start.Written start ∧ edit.stop.Written stop ∧
    value.get "newText" = some (.str edit.newText)

/-- However they are written, the edits are applied as they are meant. -/
def Applied (content : Text) (edits : List TextEdit) : Prop :=
  ∀ values, List.Forall₂ TextEdit.Written values edits →
    applyTextEdits content values = .ok (meaning content edits)

/-- No line break before the line of the position is a CRLF, and the line is one of `lines`. -/
structure Position.Plain (content : Text) (position : Position) : Prop where
  no_cr : ∀ line ∈ (cut content).1.take position.line, line.getLast? ≠ some '\r'
  in_lines : position.line < (lines content).length

/-- Of two edits that begin at one position, the first one replaces a range and the other one
inserts. -/
structure PlainEdits (content : Text) (edits : List TextEdit) : Prop where
  positions : ∀ edit ∈ edits, edit.start.Plain content ∧ edit.stop.Plain content
  starts : edits.Pairwise fun a b => a.start.index content = b.start.index content →
    a.start.index content < a.stop.index content ∧ b.start.index content = b.stop.index content

/-! ## Characters and units -/

variable {content : Text} {edits : List TextEdit} {position other : Position}

theorem bmp_of_all (h : content.all (fun c => decide (c.toNat < 0x10000)) = true) :
    ∀ c ∈ content, c.toNat < 0x10000 :=
  fun c hc => of_decide_eq_true (List.all_eq_true.1 h c hc)

theorem charsBefore_of_bmp {line : Text} (h : ∀ c ∈ line, c.toNat < 0x10000) (n : Nat) :
    charsBefore n line = min n line.length := by
  induction line generalizing n with
  | nil => rw [charsBefore, List.length_nil, Nat.min_zero]
  | cons c line ih =>
      have hunits : units c = 1 := if_pos (h c (List.mem_cons_self ..))
      rw [charsBefore, hunits, ih fun d hd => h d (List.mem_cons_of_mem _ hd), List.length_cons]
      split_ifs <;> omega

/-- The line of a document with a number. -/
def lineAt (content : Text) (n : Nat) : Text := (documentLines content).getD n []

theorem lineAt_of_lt {n : Nat} (h : n < (cut content).1.length) :
    lineAt content n = stripCr ((cut content).1.get ⟨n, h⟩) := by
  rw [lineAt, documentLines, List.getD_eq_getElem?_getD,
    List.getElem?_append_left (by rw [List.length_map]; exact h), List.getElem?_map,
    List.getElem?_eq_getElem h]
  rfl

theorem lineAt_last : lineAt content (cut content).1.length = (cut content).2 := by
  rw [lineAt, documentLines, List.getD_eq_getElem?_getD,
    List.getElem?_append_right (by rw [List.length_map]), List.length_map, Nat.sub_self]
  rfl

theorem valid_iff : position.Valid content ↔ position.line ≤ (cut content).1.length := by
  rw [Position.Valid, documentLines, List.length_append, List.length_map, List.length_singleton]
  omega

theorem stripCr_begins (line : Text) : stripCr line <+: line := by
  unfold stripCr
  split_ifs
  · exact List.dropLast_prefix line
  · exact List.prefix_refl line

/-- A document divided in front of one of its lines. -/
theorem exists_behind_line {n : Nat} (h : n ≤ (cut content).1.length) :
    ∃ more, content = unlines ((cut content).1.take n) ++ (lineAt content n ++ more) := by
  have hcontent := unlines_cut content
  rcases Nat.lt_or_eq_of_le h with hlt | rfl
  · obtain ⟨cr, hcr⟩ := stripCr_begins ((cut content).1.get ⟨n, hlt⟩)
    refine ⟨cr ++ '\n' :: (unlines ((cut content).1.drop (n + 1)) ++ (cut content).2), ?_⟩
    rw [lineAt_of_lt hlt]
    conv_lhs => rw [← hcontent, ← List.take_append_drop n (cut content).1,
      List.drop_eq_getElem_cons hlt, unlines_append, unlines_cons]
    rw [← List.append_assoc _ cr, hcr]
    simp only [List.append_assoc, List.cons_append, List.get_eq_getElem]
  · refine ⟨[], ?_⟩
    rw [lineAt_last, List.append_nil, List.take_length]
    exact hcontent.symm

/-- The characters of its line before a position. -/
def column (content : Text) (position : Position) : Nat :=
  min position.character (lineAt content position.line).length

theorem column_le (content : Text) (position : Position) :
    column content position ≤ (lineAt content position.line).length :=
  Nat.min_le_right ..

section Bmp

variable (hbmp : ∀ c ∈ content, c.toNat < 0x10000)
include hbmp

theorem index_eq (h : position.Valid content) :
    position.index content =
      (unlines ((cut content).1.take position.line)).length + column content position := by
  obtain ⟨more, hmore⟩ := exists_behind_line (valid_iff.1 h)
  have hline : ∀ c ∈ lineAt content position.line, c.toNat < 0x10000 := by
    intro c hc
    apply hbmp
    rw [hmore]
    exact List.mem_append_right _ (List.mem_append_left _ hc)
  rw [Position.index]
  exact congrArg (_ + ·) (charsBefore_of_bmp hline position.character)

theorem take_index (h : position.Valid content) :
    content.take (position.index content) =
      unlines ((cut content).1.take position.line) ++
        (lineAt content position.line).take (column content position) := by
  obtain ⟨more, hmore⟩ := exists_behind_line (valid_iff.1 h)
  rw [index_eq hbmp h]
  refine (congrArg (List.take _) hmore).trans ?_
  rw [List.take_length_add_append, List.take_append_of_le_length (column_le content position)]

theorem index_le (h : position.Valid content) : position.index content ≤ content.length := by
  obtain ⟨more, hmore⟩ := exists_behind_line (valid_iff.1 h)
  have hlength := congrArg List.length hmore
  have hcolumn := column_le content position
  rw [List.length_append, List.length_append] at hlength
  rw [index_eq hbmp h]
  omega

end Bmp

/-! ## Offsets -/

/-- The bytes that `position_to_offset` counts for lines. -/
def countedBytes (ls : List Text) : Nat := (ls.map fun line => byteLen (stripCr line) + 1).sum

def offset (content : Text) (position : Position) : Nat :=
  countedBytes ((cut content).1.take position.line) +
    byteLen ((lineAt content position.line).take (column content position))

theorem countedBytes_cons (line : Text) (ls : List Text) :
    countedBytes (line :: ls) = byteLen (stripCr line) + 1 + countedBytes ls := rfl

theorem countedBytes_append (ls ls' : List Text) :
    countedBytes (ls ++ ls') = countedBytes ls + countedBytes ls' := by
  rw [countedBytes, List.map_append, List.sum_append]
  rfl

theorem byteLen_unlines_cons (line : Text) (ls : List Text) :
    byteLen (unlines (line :: ls)) = byteLen line + 1 + byteLen (unlines ls) := by
  have hnewline : byteLen ('\n' :: unlines ls) = 1 + byteLen (unlines ls) := rfl
  rw [unlines_cons, byteLen_append, hnewline, Nat.add_assoc]

theorem byteLen_stripCr (line : Text) :
    byteLen line = byteLen (stripCr line) + if line.getLast? = some '\r' then 1 else 0 := by
  unfold stripCr
  split_ifs with hcr
  · have hline := List.dropLast_append_getLast? _ hcr
    conv_lhs => rw [← hline, byteLen_append]
    rfl
  · rfl

theorem countedBytes_le (ls : List Text) : countedBytes ls ≤ byteLen (unlines ls) := by
  induction ls with
  | nil => exact Nat.le_refl _
  | cons line ls ih =>
      have hline := byteLen_stripCr line
      rw [countedBytes_cons, byteLen_unlines_cons]
      omega

/-- All bytes are counted when no line break is a CRLF. -/
theorem countedBytes_eq_iff {ls : List Text} :
    countedBytes ls = byteLen (unlines ls) ↔ ∀ line ∈ ls, line.getLast? ≠ some '\r' := by
  induction ls with
  | nil => exact iff_of_true rfl fun _ h => (nomatch h)
  | cons line ls ih =>
      have hline := byteLen_stripCr line
      have hle := countedBytes_le ls
      rw [countedBytes_cons, byteLen_unlines_cons, List.forall_mem_cons, ← ih]
      split_ifs at hline with hcr
      · constructor
        · intro h
          omega
        · exact fun h => absurd hcr h.1
      · constructor
        · exact fun h => ⟨hcr, by omega⟩
        · intro h
          omega

theorem lines_begin (content : Text) : lines content <+: documentLines content := by
  rw [lines, documentLines]
  apply (List.prefix_append_right_inj _).2
  split_ifs
  · exact List.nil_prefix
  · exact List.prefix_refl _

theorem line_le_of_lt (h : position.line < (lines content).length) :
    position.line ≤ (cut content).1.length :=
  valid_iff.1 (Nat.lt_of_lt_of_le h (lines_begin content).length_le)

theorem positionToOffset_eq_ok {n : Nat} :
    positionToOffset content position.line position.character = .ok n ↔
      position.line < (lines content).length ∧ n = offset content position := by
  rw [positionToOffset]
  split
  · rename_i hnone
    rw [List.getElem?_eq_none_iff] at hnone
    refine ⟨fun h => (nomatch h), fun h => ?_⟩
    omega
  · rename_i lineText hline
    obtain ⟨hlt, -⟩ := List.getElem?_eq_some_iff.1 hline
    have hle := line_le_of_lt hlt
    have hlineText : lineText = lineAt content position.line := by
      obtain ⟨more, hmore⟩ := lines_begin content
      rw [lineAt, ← hmore, List.getD_eq_getElem?_getD, List.getElem?_append_left hlt, hline]
      rfl
    have htake : (lines content).take position.line =
        ((cut content).1.take position.line).map stripCr := by
      rw [lines, List.take_append_of_le_length (by rw [List.length_map]; exact hle),
        List.map_take]
    rw [htake, List.map_map, hlineText]
    constructor
    · intro h
      cases h
      exact ⟨hlt, rfl⟩
    · rintro ⟨-, rfl⟩
      rfl

/-- The lines in front of a position, divided at one of them. -/
theorem exists_take {m n : Nat} (hlt : m < n) (hle : n ≤ (cut content).1.length) :
    ∃ line ls, (cut content).1.take n = (cut content).1.take m ++ line :: ls ∧
      stripCr line = lineAt content m := by
  have hm : m < (cut content).1.length := Nat.lt_of_lt_of_le hlt hle
  obtain ⟨k, rfl⟩ := Nat.exists_eq_add_of_lt hlt
  refine ⟨(cut content).1.get ⟨m, hm⟩, ((cut content).1.drop (m + 1)).take k, ?_,
    (lineAt_of_lt hm).symm⟩
  rw [Nat.add_assoc, List.take_add, List.drop_eq_getElem_cons hm, List.take_succ_cons]
  rfl

theorem offset_lt_of_line (hlt : position.line < other.line)
    (hle : other.line ≤ (cut content).1.length) :
    offset content position < offset content other := by
  obtain ⟨line, ls, htake, hline⟩ := exists_take hlt hle
  have hcolumn : byteLen ((lineAt content position.line).take (column content position)) ≤
      byteLen (lineAt content position.line) := by
    have hle := (byteLen_take_le_iff (column_le content position) (Nat.le_refl _)).2
      (column_le content position)
    rwa [List.take_length] at hle
  rw [offset, offset, htake, countedBytes_append, countedBytes_cons, hline]
  omega

theorem offset_le_iff_of_line (h : position.line = other.line) :
    offset content position ≤ offset content other ↔
      column content position ≤ column content other := by
  have hother := column_le content other
  rw [offset, offset, h, Nat.add_le_add_iff_left]
  exact byteLen_take_le_iff (h ▸ column_le content position) hother

section Bmp

variable (hbmp : ∀ c ∈ content, c.toNat < 0x10000)
include hbmp

theorem index_lt_of_line (hvalid : other.Valid content) (hlt : position.line < other.line) :
    position.index content < other.index content := by
  have hle := valid_iff.1 hvalid
  obtain ⟨line, ls, htake, hline⟩ := exists_take hlt hle
  have hstrip := (stripCr_begins line).length_le
  have hcolumn := column_le content position
  rw [index_eq hbmp (valid_iff.2 (by omega)), index_eq hbmp hvalid, htake, unlines_append,
    List.length_append, unlines_cons, List.length_append, List.length_cons]
  rw [hline] at hstrip
  omega

/-- The offsets are in the order of the positions. -/
theorem offset_le_iff (hposition : position.Valid content) (hother : other.Valid content) :
    offset content position ≤ offset content other ↔
      position.index content ≤ other.index content := by
  rcases Nat.lt_trichotomy position.line other.line with hlt | heq | hgt
  · have hoffset := offset_lt_of_line hlt (valid_iff.1 hother)
    have hindex := index_lt_of_line hbmp hother hlt
    omega
  · rw [offset_le_iff_of_line heq, index_eq hbmp hposition, index_eq hbmp hother, heq]
    omega
  · have hoffset := offset_lt_of_line hgt (valid_iff.1 hposition)
    have hindex := index_lt_of_line hbmp hposition hgt
    omega

theorem byteLen_take_index (h : position.Valid content) :
    byteLen (content.take (position.index content)) =
      byteLen (unlines ((cut content).1.take position.line)) +
        byteLen ((lineAt content position.line).take (column content position)) := by
  rw [take_index hbmp h, byteLen_append]

/-- The offset of a position is the right one when no CRLF is in front of its line. -/
theorem offset_eq_iff (h : position.Valid content) :
    offset content position = byteLen (content.take (position.index content)) ↔
      ∀ line ∈ (cut content).1.take position.line, line.getLast? ≠ some '\r' := by
  rw [byteLen_take_index hbmp h, offset, Nat.add_right_cancel_iff]
  exact countedBytes_eq_iff

end Bmp

/-! ## Reading the edits -/

def parsedOf (content : Text) (edit : TextEdit) : ParsedEdit :=
  ⟨offset content edit.start, offset content edit.stop, edit.newText⟩

theorem parseEnd_eq_ok {range value : Json} {name : String} {n : Nat}
    (hget : range.get name = some value) (hwritten : position.Written value) :
    parseEnd content range name = .ok n ↔
      position.line < (lines content).length ∧ n = offset content position := by
  have hline : asU64 (.num position.line) = some position.line := if_pos position.line_lt
  have hcharacter : asU64 (.num position.character) = some position.character :=
    if_pos position.character_lt
  rw [← positionToOffset_eq_ok]
  simp only [parseEnd, hget, hwritten.1, hwritten.2, Option.bind_some, hline, hcharacter]
  cases positionToOffset content position.line position.character with
  | ok offset => exact Iff.rfl
  | error message =>
    constructor
    · intro h
      cases h
    · intro h
      cases h

theorem parseEdit_written {value : Json} {edit : TextEdit} (hwritten : edit.Written value)
    {parsed : ParsedEdit} :
    parseEdit content value = .ok parsed ↔
      (edit.start.line < (lines content).length ∧ edit.stop.line < (lines content).length ∧
        offset content edit.start ≤ offset content edit.stop) ∧
          parsed = parsedOf content edit := by
  obtain ⟨range, start, stop, hrange, hstart, hstop, hwstart, hwstop, htext⟩ := hwritten
  have hnew : newTextOf value = edit.newText := by
    rw [newTextOf, htext]
    rfl
  rw [parseEdit_eq_ok, hnew, parseRange, hrange]
  dsimp only
  constructor
  · rintro ⟨h, htext⟩
    split at h
    · cases h
    · cases h
    · rename_i hs ht
      obtain ⟨hsline, rfl⟩ := (parseEnd_eq_ok hstart hwstart).1 hs
      obtain ⟨htline, rfl⟩ := (parseEnd_eq_ok hstop hwstop).1 ht
      split_ifs at h with hgt
      refine ⟨⟨hsline, htline, Nat.le_of_not_lt hgt⟩, ?_⟩
      cases parsed
      cases htext
      cases h
      rfl
  · rintro ⟨⟨hsline, htline, hle⟩, rfl⟩
    rw [(parseEnd_eq_ok hstart hwstart).2 ⟨hsline, rfl⟩,
      (parseEnd_eq_ok hstop hwstop).2 ⟨htline, rfl⟩]
    exact ⟨if_neg (Nat.not_lt_of_le hle), rfl⟩

/-- The edits are read when all positions are in the lines that are counted. -/
theorem parseEdits_written {values : List Json}
    (hwritten : List.Forall₂ TextEdit.Written values edits) {parsed : List ParsedEdit} :
    parseEdits content values = .ok parsed ↔
      (∀ edit ∈ edits, edit.start.line < (lines content).length ∧
        edit.stop.line < (lines content).length ∧
          offset content edit.start ≤ offset content edit.stop) ∧
            parsed = edits.map (parsedOf content) := by
  rw [parseEdits_eq_ok]
  induction hwritten generalizing parsed with
  | nil =>
      rw [List.forall₂_nil_left_iff]
      exact ⟨fun h => ⟨fun _ h => (nomatch h), h⟩, fun h => h.2⟩
  | cons hvalue _ ih =>
      rw [List.forall₂_cons_left_iff, List.forall_mem_cons, List.map_cons]
      simp only [parseEdit_written hvalue, ih]
      constructor
      · rintro ⟨_, _, ⟨hedit, rfl⟩, ⟨hrest, rfl⟩, rfl⟩
        exact ⟨⟨hedit, hrest⟩, rfl⟩
      · rintro ⟨⟨hedit, hrest⟩, rfl⟩
        exact ⟨_, _, ⟨hedit, rfl⟩, ⟨hrest, rfl⟩, rfl⟩

theorem written_object (position : Position) :
    position.Written
      (.object [("line", .num position.line), ("character", .num position.character)]) := by
  refine ⟨Json.get_object_self .., ?_⟩
  rw [Json.get_object_ne rfl, Json.get_object_self]

/-- Every edit can be written. -/
theorem exists_written (edits : List TextEdit) :
    ∃ values, List.Forall₂ TextEdit.Written values edits := by
  induction edits with
  | nil => exact ⟨[], .nil⟩
  | cons edit edits ih =>
      obtain ⟨values, hvalues⟩ := ih
      refine ⟨editValue edit.start.line edit.start.character edit.stop.line edit.stop.character
        edit.newText :: values, .cons ?_ hvalues⟩
      refine ⟨_, _, _, Json.get_object_self .., Json.get_object_self .., ?_,
        written_object edit.start, written_object edit.stop, ?_⟩
      · rw [Json.get_object_ne rfl, Json.get_object_self]
      · rw [editValue, Json.get_object_ne rfl, Json.get_object_self]

/-! ## The order of application -/

/-- The edits in the order in which they are applied. -/
def inOrder (content : Text) (edits : List TextEdit) : List TextEdit :=
  descending (fun edit => offset content edit.start) edits

theorem descending_parsed (edits : List TextEdit) :
    descending ParsedEdit.start (edits.map (parsedOf content)) =
      (inOrder content edits).map (parsedOf content) := by
  have hmap : (inOrder content edits).map (parsedOf content) =
      descending ParsedEdit.start (edits.map (parsedOf content)) :=
    map_descending fun _ _ _ _ => Iff.rfl
  exact hmap.symm

theorem inOrder_withText (newText : Text) (edits : List TextEdit) :
    inOrder content (edits.map (TextEdit.withText newText)) =
      (inOrder content edits).map (TextEdit.withText newText) := by
  have hmap : (inOrder content edits).map (TextEdit.withText newText) =
      descending (fun edit => offset content edit.start)
        (edits.map (TextEdit.withText newText)) :=
    map_descending fun _ _ _ _ => Iff.rfl
  exact hmap.symm

theorem mem_inOrder {edit : TextEdit} : edit ∈ inOrder content edits ↔ edit ∈ edits :=
  mem_descending

section Bmp

variable (hbmp : ∀ c ∈ content, c.toNat < 0x10000) (hvalid : ValidEdits content edits)
include hbmp hvalid

/-- Edits that begin at one position stay in their order. -/
theorem filter_inOrder (p : Nat) :
    (((inOrder content edits).map (TextEdit.splice content)).filter
      fun s => decide (s.start = p)) =
        (edits.map (TextEdit.splice content)).filter fun s => decide (s.start = p) := by
  rw [List.filter_map, List.filter_map, inOrder, filter_descending]
  intro a ha b hb hpa hpb
  have hpa : a.start.index content = p := of_decide_eq_true hpa
  have hpb : b.start.index content = p := of_decide_eq_true hpb
  rw [offset_le_iff hbmp (hvalid.start_valid a ha) (hvalid.start_valid b hb), hpa, hpb]

theorem meaning_eq :
    meaning content edits =
      Splice.replaceAll ((inOrder content edits).map (TextEdit.splice content)) content :=
  Splice.replaceAll_congr (fun p => (filter_inOrder hbmp hvalid p).symm) content

theorem within_splices :
    Splice.Within content.length ((inOrder content edits).map (TextEdit.splice content)) := by
  refine List.forall_mem_map.2 fun edit hedit => ?_
  have hmem := mem_inOrder.1 hedit
  exact ⟨hvalid.ordered edit hmem, index_le hbmp (hvalid.stop_valid edit hmem)⟩

/-- The result, when the offsets are the right ones. -/
theorem applyTextEdits_of_replaceRanges {values : List Json} {result : Text}
    (hwritten : List.Forall₂ TextEdit.Written values edits)
    (hpositions : ∀ edit ∈ edits, edit.start.Plain content ∧ edit.stop.Plain content)
    (hresult : replaceRanges
      (((inOrder content edits).map (TextEdit.splice content)).map (ofSplice content)) content =
        some result) : applyTextEdits content values = .ok result := by
  have hparsed : parseEdits content values = .ok (edits.map (parsedOf content)) := by
    refine (parseEdits_written hwritten).2 ⟨fun edit hedit => ?_, rfl⟩
    obtain ⟨hstart, hstop⟩ := hpositions edit hedit
    refine ⟨hstart.in_lines, hstop.in_lines, ?_⟩
    exact (offset_le_iff hbmp (hvalid.start_valid edit hedit) (hvalid.stop_valid edit hedit)).2
      (hvalid.ordered edit hedit)
  have hsplices : (inOrder content edits).map (parsedOf content) =
      ((inOrder content edits).map (TextEdit.splice content)).map (ofSplice content) := by
    rw [List.map_map]
    refine List.map_congr_left fun edit hedit => ?_
    have hmem := mem_inOrder.1 hedit
    obtain ⟨hstart, hstop⟩ := hpositions edit hmem
    rw [parsedOf, (offset_eq_iff hbmp (hvalid.start_valid edit hmem)).2 hstart.no_cr,
      (offset_eq_iff hbmp (hvalid.stop_valid edit hmem)).2 hstop.no_cr]
    rfl
  rw [applyTextEdits, hparsed]
  dsimp only
  rw [descending_parsed, hsplices, hresult]

/-- The result, when the ranges do not overlap either. -/
theorem applyTextEdits_eq {values : List Json}
    (hwritten : List.Forall₂ TextEdit.Written values edits)
    (hpositions : ∀ edit ∈ edits, edit.start.Plain content ∧ edit.stop.Plain content)
    (hdesc : ((inOrder content edits).map (TextEdit.splice content)).Pairwise
      fun s t => t.stop ≤ s.start) :
    applyTextEdits content values =
      .ok (Splice.applyAll ((inOrder content edits).map (TextEdit.splice content)) content) := by
  have hresult := replaceRanges_ofSplice hdesc (within_splices hbmp hvalid) []
  rw [List.append_nil, List.append_nil] at hresult
  exact applyTextEdits_of_replaceRanges hbmp hvalid hwritten hpositions hresult

/-- The splices in the order of their application, the last one first. -/
theorem pairwise_inOrder
    (hseparate : edits.Pairwise fun a b =>
      if b.start.index content ≤ a.start.index content then
        b.stop.index content ≤ a.start.index content
      else a.stop.index content ≤ b.start.index content) :
    ((inOrder content edits).map (TextEdit.splice content)).Pairwise
      fun s t => t.stop ≤ s.start := by
  rw [List.pairwise_map, inOrder, pairwise_descending_iff]
  refine hseparate.imp_of_mem fun {a b} ha hb hseparate => ?_
  have hstart := offset_le_iff hbmp (hvalid.start_valid b hb) (hvalid.start_valid a ha)
  split_ifs at hseparate ⊢ with hcode hmeant hmeant
  · exact hseparate
  · exact absurd (hstart.1 hcode) hmeant
  · exact absurd (hstart.2 hmeant) hcode
  · exact hseparate

theorem applied_of_plain (hplain : PlainEdits content edits) : Applied content edits := by
  intro values hwritten
  have hdesc := pairwise_inOrder hbmp hvalid <| by
    refine (hvalid.disjoint.and hplain.starts).imp_of_mem ?_
    intro a b ha hb ⟨hdisjoint, hstarts⟩
    have ha' := hvalid.ordered a ha
    have hb' := hvalid.ordered b hb
    split_ifs <;> omega
  have hapart : ((inOrder content edits).map (TextEdit.splice content)).Pairwise
      Splice.Apart := by
    rw [List.pairwise_map, inOrder, pairwise_descending_iff]
    refine hplain.starts.imp fun {a b} hstarts => ?_
    split_ifs
    · intro hsame _ hstart
      have hlt := (hstarts hstart.symm).1
      exact Nat.ne_of_lt hlt hsame
    · intro _ hsame hstart
      have hlt := (hstarts hstart).1
      exact Nat.ne_of_lt hlt hsame
  rw [applyTextEdits_eq hbmp hvalid hwritten hplain.positions hdesc, meaning_eq hbmp hvalid,
    Splice.applyAll_eq_replaceAll hdesc (within_splices hbmp hvalid) hapart]

end Bmp

/-! ## Edits with the same ranges -/

section Ranges

variable {edits' : List TextEdit} (h : edits'.map TextEdit.range = edits.map TextEdit.range)
include h

theorem forall_of_ranges {p : Position → Position → Prop}
    (hp : ∀ edit ∈ edits, p edit.start edit.stop) : ∀ edit ∈ edits', p edit.start edit.stop := by
  have hranges : ∀ r ∈ edits.map TextEdit.range, p r.1 r.2 := List.forall_mem_map.2 hp
  rw [← h] at hranges
  exact List.forall_mem_map.1 hranges

theorem pairwise_of_ranges {p : Position × Position → Position × Position → Prop}
    (hp : edits.Pairwise fun a b => p a.range b.range) :
    edits'.Pairwise fun a b => p a.range b.range := by
  have hranges := List.pairwise_map.2 hp
  rw [← h] at hranges
  exact List.pairwise_map.1 hranges

theorem ValidEdits.congr (hvalid : ValidEdits content edits) : ValidEdits content edits' where
  start_valid := forall_of_ranges (p := fun start _ => start.Valid content) h hvalid.start_valid
  stop_valid := forall_of_ranges (p := fun _ stop => stop.Valid content) h hvalid.stop_valid
  ordered := forall_of_ranges (p := fun start stop => start.index content ≤ stop.index content) h
    hvalid.ordered
  disjoint := pairwise_of_ranges (p := fun a b => a.2.index content ≤ b.1.index content ∨
    b.2.index content ≤ a.1.index content) h hvalid.disjoint

theorem PlainEdits.congr (hplain : PlainEdits content edits) : PlainEdits content edits' where
  positions := forall_of_ranges (p := fun start stop => start.Plain content ∧ stop.Plain content)
    h hplain.positions
  starts := pairwise_of_ranges (p := fun a b => a.1.index content = b.1.index content →
    a.1.index content < a.2.index content ∧ b.1.index content = b.2.index content) h hplain.starts

end Ranges

theorem range_withText (newText : Text) (edits : List TextEdit) :
    (edits.map (TextEdit.withText newText)).map TextEdit.range = edits.map TextEdit.range := by
  rw [List.map_map]
  rfl

/-! ## What is behind the last text -/

/-- What is behind the last one of an element. -/
theorem eq_of_append_cons {before before' after after' : Text} {m : Char} (hafter : m ∉ after)
    (hafter' : m ∉ after') (h : before ++ m :: after = before' ++ m :: after') :
    after = after' := by
  rcases List.append_eq_append_iff.1 h with ⟨between, -, heq⟩ | ⟨between, -, heq⟩
  · cases between with
    | nil => exact (List.cons.inj heq).2
    | cons d between =>
        have htail := (List.cons.inj heq).2
        exact absurd (htail ▸ List.mem_append_right _ (List.mem_cons_self ..)) hafter
  · cases between with
    | nil => exact (List.cons.inj heq).2.symm
    | cons d between =>
        have htail := (List.cons.inj heq).2
        exact absurd (htail ▸ List.mem_append_right _ (List.mem_cons_self ..)) hafter'

/-- Behind the text that is put in first, the document is left as it was. -/
theorem exists_behind_first {parsed rest : List ParsedEdit} {first : ParsedEdit} {text : Text}
    (h : replaceRanges parsed content = some text) (hcons : parsed = first :: rest)
    (hedits : ∀ edit ∈ parsed, edit.start ≤ edit.stop)
    (hboundaries : ∀ edit ∈ parsed, IsBoundary content edit.start ∧ IsBoundary content edit.stop)
    (hdesc : parsed.Pairwise fun a b => b.stop ≤ a.start) :
    ∃ n ≤ content.length, byteLen (content.take n) = first.stop ∧
      ∃ before, text = before ++ first.newText ++ content.drop n := by
  obtain ⟨splices, rfl, hwithin⟩ := exists_splices hedits hboundaries
  have hpair := pairwise_of_ofSplice hwithin hdesc
  have hresult := replaceRanges_ofSplice hpair hwithin []
  obtain ⟨s, ss, rfl, rfl, -⟩ := List.map_eq_cons_iff.1 hcons
  rw [List.append_nil, List.append_nil, h, Splice.applyAll_cons hpair hwithin] at hresult
  exact ⟨s.stop, (hwithin s (List.mem_cons_self ..)).2, rfl, _, Option.some.inj hresult⟩

theorem meaning_behind_last (hbmp : ∀ c ∈ content, c.toNat < 0x10000)
    (hvalid : ValidEdits content edits) (m : Char) {last : TextEdit} {rest : List TextEdit}
    (horder : inOrder content edits = last :: rest)
    (hbehind : ∀ edit ∈ rest, edit.stop.index content ≤ last.start.index content) :
    ∃ before, meaning content (edits.map (TextEdit.withText [m])) =
      before ++ [m] ++ content.drop (last.stop.index content) := by
  have hmem : ∀ edit ∈ last :: rest, edit ∈ edits :=
    fun edit hedit => mem_inOrder.1 (horder ▸ hedit)
  have hlast := hmem last (List.mem_cons_self ..)
  rw [meaning_eq hbmp (hvalid.congr (range_withText [m] edits)), inOrder_withText, horder,
    List.map_cons, List.map_cons]
  have hrest : Splice.Within (last.start.index content)
      ((rest.map (TextEdit.withText [m])).map (TextEdit.splice content)) := by
    refine List.forall_mem_map.2 (List.forall_mem_map.2 fun edit hedit => ?_)
    exact ⟨hvalid.ordered edit (hmem edit (List.mem_cons_of_mem _ hedit)), hbehind edit hedit⟩
  have hconst : ∀ s ∈ TextEdit.splice content (TextEdit.withText [m] last) ::
      (rest.map (TextEdit.withText [m])).map (TextEdit.splice content), s.new = [m] := by
    refine List.forall_mem_cons.2 ⟨rfl, ?_⟩
    exact List.forall_mem_map.2 (List.forall_mem_map.2 fun _ _ => rfl)
  have hordered := hvalid.ordered last hlast
  rw [Splice.replaceAll_cons hordered (index_le hbmp (hvalid.stop_valid last hlast)) hrest
    (Splice.newAt_cons_const hconst hordered hrest)]
  exact ⟨_, rfl⟩

/-! ## What follows when all edits are applied as they are meant -/

/-- Both positions are in lines that are counted, and the range does not end before it starts. -/
def Readable (content : Text) (edit : TextEdit) : Prop :=
  edit.start.line < (lines content).length ∧ edit.stop.line < (lines content).length ∧
    offset content edit.start ≤ offset content edit.stop

theorem replaceRanges_of_ok {values : List Json} {text : Text}
    (hwritten : List.Forall₂ TextEdit.Written values edits)
    (h : applyTextEdits content values = .ok text) :
    (∀ edit ∈ edits, Readable content edit) ∧
      replaceRanges ((inOrder content edits).map (parsedOf content)) content = some text := by
  rw [applyTextEdits] at h
  cases hparsed : parseEdits content values with
  | error message =>
      rw [hparsed] at h
      cases h
  | ok parsed =>
      obtain ⟨hread, rfl⟩ := (parseEdits_written hwritten).1 hparsed
      rw [hparsed] at h
      dsimp only at h
      rw [descending_parsed] at h
      split at h
      · rename_i hresult
        cases h
        exact ⟨hread, hresult⟩
      · cases h

theorem parsedOf_withText (newText : Text) (edits : List TextEdit) :
    ((edits.map (TextEdit.withText newText)).map (parsedOf content)) =
      (edits.map (parsedOf content)).map (ParsedEdit.withText newText) := by
  rw [List.map_map, List.map_map]
  rfl

section Converse

variable (happlied : ∀ newText, Applied content (edits.map (TextEdit.withText newText)))
include happlied

theorem replaceRanges_withText (newText : Text) :
    (∀ edit ∈ edits, Readable content edit) ∧
      replaceRanges (((inOrder content edits).map (parsedOf content)).map
        (ParsedEdit.withText newText)) content =
          some (meaning content (edits.map (TextEdit.withText newText))) := by
  obtain ⟨values, hvalues⟩ := exists_written (edits.map (TextEdit.withText newText))
  obtain ⟨hread, hresult⟩ := replaceRanges_of_ok hvalues (happlied newText values hvalues)
  rw [inOrder_withText, parsedOf_withText] at hresult
  exact ⟨(List.forall_mem_map (f := TextEdit.withText newText)).1 hread, hresult⟩

/-- The offsets fit when the edits are applied whatever their texts are. -/
theorem fit_of_applied :
    (∀ edit ∈ (inOrder content edits).map (parsedOf content),
      IsBoundary content edit.start ∧ IsBoundary content edit.stop) ∧
      ((inOrder content edits).map (parsedOf content)).Pairwise fun a b => b.stop ≤ a.start := by
  refine (replaceRanges_isSome_iff ?_).1 fun newText => ?_
  · have hread := (replaceRanges_withText happlied []).1
    exact List.forall_mem_map.2 fun edit hedit => (hread edit (mem_inOrder.1 hedit)).2.2
  · rw [(replaceRanges_withText happlied newText).2]
    rfl

variable (hbmp : ∀ c ∈ content, c.toNat < 0x10000) (hvalid : ValidEdits content edits)
include hbmp hvalid

/-- The offset of the last position is the right one: a text that all edits bring in shows how
much of the document is left behind it. -/
theorem offset_last {last : TextEdit} {rest : List TextEdit}
    (horder : inOrder content edits = last :: rest) :
    offset content last.stop = byteLen (content.take (last.stop.index content)) := by
  obtain ⟨hboundaries, hdesc⟩ := fit_of_applied happlied
  obtain ⟨hread, hresult⟩ := replaceRanges_withText happlied ['😀']
  have hfresh : ∀ n, '😀' ∉ content.drop n := by
    intro n hmem
    have hsmall := hbmp _ (List.mem_of_mem_drop hmem)
    exact absurd hsmall (by decide)
  have hmem : ∀ edit ∈ last :: rest, edit ∈ edits :=
    fun edit hedit => mem_inOrder.1 (horder ▸ hedit)
  have hlast := hmem last (List.mem_cons_self ..)
  -- what the code leaves behind the last text
  obtain ⟨n, hn, hstop, before, hcode⟩ := exists_behind_first hresult (by rw [horder]; rfl)
    (List.forall_mem_map.2 (List.forall_mem_map.2 fun edit hedit =>
      (hread edit (mem_inOrder.1 hedit)).2.2))
    (List.forall_mem_map.2 hboundaries) (List.pairwise_map.2 hdesc)
  rw [horder, List.map_cons] at hdesc
  -- what is meant to be left
  obtain ⟨before', hmeant⟩ := meaning_behind_last hbmp hvalid '😀' horder <| by
    intro edit hedit
    have hmemEdit := hmem edit (List.mem_cons_of_mem _ hedit)
    rw [← offset_le_iff hbmp (hvalid.stop_valid edit hmemEdit) (hvalid.start_valid last hlast)]
    exact (List.pairwise_cons.1 hdesc).1 _ (List.mem_map_of_mem hedit)
  rw [hcode, List.append_assoc, List.append_assoc] at hmeant
  have hdrop := congrArg List.length (eq_of_append_cons (hfresh _) (hfresh _) hmeant)
  have hle := index_le hbmp (hvalid.stop_valid last hlast)
  rw [List.length_drop, List.length_drop] at hdrop
  have heq : n = last.stop.index content := by omega
  rw [← heq]
  exact hstop.symm

/-- No CRLF is in front of a position, as none is in front of the last one. -/
theorem positions_plain :
    ∀ edit ∈ edits, edit.start.Plain content ∧ edit.stop.Plain content := by
  intro edit hedit
  have hread := (replaceRanges_withText happlied []).1
  have hdesc := List.pairwise_map.1 (fit_of_applied happlied).2
  cases horder : inOrder content edits with
  | nil => exact absurd (horder ▸ mem_inOrder.2 hedit) (List.not_mem_nil)
  | cons last rest =>
      have hlast : last ∈ edits := mem_inOrder.1 (horder ▸ List.mem_cons_self ..)
      have hno := (offset_eq_iff hbmp (hvalid.stop_valid last hlast)).1
        (offset_last happlied hbmp hvalid horder)
      have hstop : offset content edit.stop ≤ offset content last.stop := by
        have hmem : edit ∈ last :: rest := horder ▸ mem_inOrder.2 hedit
        rw [horder] at hdesc
        rcases List.mem_cons.1 hmem with rfl | hmem
        · exact Nat.le_refl _
        · exact ((List.pairwise_cons.1 hdesc).1 edit hmem).trans (hread last hlast).2.2
      have hplain : ∀ position : Position, position.line < (lines content).length →
          offset content position ≤ offset content last.stop → position.Plain content := by
        intro position hline hle
        refine ⟨fun line hmem => hno line (List.take_subset_take_left _ ?_ hmem), hline⟩
        by_contra hgt
        have hlt := offset_lt_of_line (Nat.lt_of_not_le hgt) (line_le_of_lt hline)
        omega
      obtain ⟨hstartLine, hstopLine, hle⟩ := hread edit hedit
      exact ⟨hplain edit.start hstartLine (hle.trans hstop), hplain edit.stop hstopLine hstop⟩

/-- The ranges do not overlap, in the order of the array. -/
theorem separate_of_applied :
    edits.Pairwise fun a b =>
      if b.start.index content ≤ a.start.index content then
        b.stop.index content ≤ a.start.index content
      else a.stop.index content ≤ b.start.index content := by
  have hdesc := List.pairwise_map.1 (fit_of_applied happlied).2
  rw [inOrder, pairwise_descending_iff] at hdesc
  refine hdesc.imp_of_mem fun {a b} ha hb hseparate => ?_
  have hstart := offset_le_iff hbmp (hvalid.start_valid b hb) (hvalid.start_valid a ha)
  have hstop := offset_le_iff hbmp (hvalid.stop_valid b hb) (hvalid.start_valid a ha)
  have hstop' := offset_le_iff hbmp (hvalid.stop_valid a ha) (hvalid.start_valid b hb)
  split_ifs at hseparate ⊢ with hmeant hcode hcode
  · exact hstop.1 hseparate
  · exact absurd (hstart.2 hmeant) hcode
  · exact absurd (hstart.1 hcode) hmeant
  · exact hstop'.1 hseparate

end Converse

/-! ## Two insertions -/

/-- Texts in two edits only. -/
def twoTexts (before between after : List TextEdit) (first second : TextEdit) : List TextEdit :=
  before.map (TextEdit.withText []) ++ first.withText ['😀'] ::
    (between.map (TextEdit.withText []) ++ second.withText ['😁'] ::
      after.map (TextEdit.withText []))

section Insertions

variable (hbmp : ∀ c ∈ content, c.toNat < 0x10000) (hvalid : ValidEdits content edits)
  (happlied : ∀ edits', edits'.map TextEdit.range = edits.map TextEdit.range →
    Applied content edits')
include hbmp hvalid happlied

/-- Two insertions at one position would come out in the opposite order. -/
theorem not_both_insert {before between after : List TextEdit} {first second : TextEdit} {p : Nat}
    (hsplit : edits = before ++ first :: (between ++ second :: after))
    (hfirst : first.start.index content = p ∧ first.stop.index content = p)
    (hsecond : second.start.index content = p ∧ second.stop.index content = p) : False := by
  have hranges : (twoTexts before between after first second).map TextEdit.range =
      edits.map TextEdit.range := by
    rw [hsplit, twoTexts]
    simp only [List.map_append, List.map_cons, range_withText]
    rfl
  have htexts : ∀ newText, Applied content (edits.map (TextEdit.withText newText)) :=
    fun newText => happlied _ (range_withText newText edits)
  have hpositions := positions_plain htexts hbmp hvalid
  have hseparate := separate_of_applied htexts hbmp hvalid
  have hvalid' := hvalid.congr hranges
  have hpositions' := forall_of_ranges hranges
    (p := fun start stop => start.Plain content ∧ stop.Plain content) hpositions
  have hdesc := pairwise_inOrder hbmp hvalid' <| pairwise_of_ranges hranges
    (p := fun a b => if b.1.index content ≤ a.1.index content then
      b.2.index content ≤ a.1.index content else a.2.index content ≤ b.1.index content) hseparate
  obtain ⟨values, hvalues⟩ := exists_written (twoTexts before between after first second)
  have hresult := happlied _ hranges values hvalues
  rw [applyTextEdits_eq hbmp hvalid' hvalues hpositions' hdesc, meaning_eq hbmp hvalid',
    Outcome.ok.injEq] at hresult
  have hfresh : ∀ m : Char, 0x10000 ≤ m.toNat → m ∉ content := by
    intro m hm hmem
    have hsmall := hbmp m hmem
    omega
  have hblank : ∀ l : List TextEdit,
      Splice.Blank ((l.map (TextEdit.withText [])).map (TextEdit.splice content)) :=
    fun l => List.forall_mem_map.2 (List.forall_mem_map.2 fun _ _ => rfl)
  have hmap : (twoTexts before between after first second).map (TextEdit.splice content) =
      (before.map (TextEdit.withText [])).map (TextEdit.splice content) ++
        (first.withText ['😀']).splice content ::
          ((between.map (TextEdit.withText [])).map (TextEdit.splice content) ++
            (second.withText ['😁']).splice content ::
              (after.map (TextEdit.withText [])).map (TextEdit.splice content)) := by
    rw [twoTexts, List.map_append, List.map_cons, List.map_append, List.map_cons]
  have hsame := filter_inOrder hbmp hvalid' p
  rw [hmap] at hsame
  have hp : p ≤ content.length := by
    have hmem : first ∈ edits := hsplit ▸ List.mem_append_right _ (List.mem_cons_self ..)
    have hle := index_le hbmp (hvalid.stop_valid first hmem)
    omega
  refine Splice.applyAll_ne_replaceAll hdesc (within_splices hbmp hvalid')
    (hfresh '😀' (by decide)) (hfresh '😁' (by decide)) (by decide) hp ?_ ?_ hresult
  · rw [Splice.newAt_congr hsame]
    exact Splice.newAt_two (hblank before) (hblank between) (hblank after) hfirst hsecond
  · refine Splice.flatMap_reverse_two (hblank before) (hblank between) (hblank after) hfirst
      hsecond hsame ?_
    intro s hs hne
    obtain ⟨edit, hedit, rfl⟩ := List.mem_map.1 hs
    have hmem := mem_inOrder.1 hedit
    simp only [twoTexts, List.mem_append, List.mem_cons, List.mem_map] at hmem
    rcases hmem with ⟨_, _, rfl⟩ | rfl | ⟨_, _, rfl⟩ | rfl | ⟨_, _, rfl⟩
    · rfl
    · exact absurd hfirst.1 hne
    · rfl
    · exact absurd hsecond.1 hne
    · rfl

theorem plain_of_applied : PlainEdits content edits := by
  have htexts : ∀ newText, Applied content (edits.map (TextEdit.withText newText)) :=
    fun newText => happlied _ (range_withText newText edits)
  refine ⟨positions_plain htexts hbmp hvalid, ?_⟩
  have hseparate := separate_of_applied htexts hbmp hvalid
  rw [List.pairwise_iff_forall_sublist] at hseparate ⊢
  intro a b hsub hstart
  have hle := hseparate hsub
  rw [if_pos (Nat.le_of_eq hstart.symm)] at hle
  have ha := hvalid.ordered a (hsub.subset (List.mem_cons_self ..))
  have hb := hvalid.ordered b (hsub.subset (List.mem_cons_of_mem _ (List.mem_cons_self ..)))
  refine ⟨?_, by omega⟩
  by_contra hinsertion
  obtain ⟨front, back, rfl, hfront, hback⟩ := List.cons_sublist_iff.1 hsub
  obtain ⟨before, between, rfl⟩ := List.append_of_mem hfront
  obtain ⟨between', after, rfl⟩ := List.append_of_mem (List.singleton_sublist.1 hback)
  have hsplit : before ++ a :: between ++ (between' ++ b :: after) =
      before ++ a :: ((between ++ between') ++ b :: after) := by
    simp only [List.append_assoc, List.cons_append]
  exact not_both_insert hbmp hvalid happlied hsplit ⟨rfl, by omega⟩ ⟨by omega, by omega⟩

end Insertions

/-- Edits of a document are applied as they are meant, whatever their texts are, exactly when no
position is behind a CRLF or in the line behind the last line break, and of two edits that begin at
one position the first one replaces a range and the other one inserts. -/
theorem meaning_iff (content : Text) (edits : List TextEdit)
    (hbmp : ∀ c ∈ content, c.toNat < 0x10000) (hvalid : ValidEdits content edits) :
    (∀ edits', edits'.map TextEdit.range = edits.map TextEdit.range → Applied content edits') ↔
      PlainEdits content edits :=
  ⟨plain_of_applied hbmp hvalid, fun hplain _ hranges =>
    applied_of_plain hbmp (hvalid.congr hranges) (hplain.congr hranges)⟩

/-- A range and an insertion behind it. -/
def replaceAndInsert : List TextEdit :=
  [⟨⟨0, 1, by decide, by decide⟩, ⟨0, 2, by decide, by decide⟩, ['X']⟩,
    ⟨⟨1, 0, by decide, by decide⟩, ⟨1, 0, by decide, by decide⟩, ['Y']⟩]

theorem meaning_iff_two : Applied "ab\nc".toList replaceAndInsert := by
  refine (meaning_iff "ab\nc".toList replaceAndInsert (bmp_of_all rfl)
    ⟨by decide, by decide, by decide, by decide⟩).2 ⟨?_, by decide⟩ _ rfl
  exact List.forall_mem_cons.2 ⟨⟨⟨by decide, by decide⟩, ⟨by decide, by decide⟩⟩,
    List.forall_mem_singleton.2 ⟨⟨by decide, by decide⟩, ⟨by decide, by decide⟩⟩⟩

/-- An insertion behind a CRLF. -/
theorem crlf_misplaced : ¬∀ content edits, (∀ c ∈ content, c.toNat < 0x10000) →
    ValidEdits content edits → Applied content edits := by
  intro h
  have hresult := h "a\r\nb".toList
    [⟨⟨1, 0, by decide, by decide⟩, ⟨1, 0, by decide, by decide⟩, ['X']⟩] (bmp_of_all rfl)
    ⟨by decide, by decide, by decide, by decide⟩ [editValue 1 0 1 0 ['X']]
    (.cons ⟨_, _, _, rfl, rfl, rfl, ⟨rfl, rfl⟩, ⟨rfl, rfl⟩, rfl⟩ .nil)
  have hsame : "a\rX\nb".toList = "a\r\nXb".toList := Outcome.ok.inj hresult
  exact absurd hsame (by decide)

end Vanyline.Sandbox.TextEdits
