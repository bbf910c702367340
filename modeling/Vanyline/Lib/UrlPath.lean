import Mathlib.Data.List.Infix

/-!
# Paths of http URLs

The path of an http URL as an URL parser of the WHATWG kind reads it.  Two
things in it surprise a reader who thinks of a path as its segments between
slashes:

* in an http URL a backslash separates segments just as a slash does;
* a segment counts as `.` or `..` also when its dots are percent-encoded.

`normalize` resolves these segments while it reads, and percent-encodes the
characters that may not stand in a path; it never decodes anything.  `climb`
follows only the depth: the number of segments above the current place, which
`..` takes down and which stops at zero.

The main results are `exists_cons_of_walkPieces`, a segment is the first one of
the walk exactly when a piece with its text starts at depth zero and no later
`..` takes the depth back to zero, and `normalize_eq_cons_cons_iff`, which adds
that another segment follows.  `parseHttp` reads a whole URL with a plain host
and a port, and `parseHttp_eq` says what it makes of a URL that is put together
from such parts.
-/

namespace Vanyline.Lib.UrlPath

/-- A segment of a path. -/
abbrev Segment := List Char

/-! ## Percent-encoding -/

/-- The value of a hexadecimal digit. -/
def hexDigit? (c : Char) : Option UInt8 :=
  if '0' ≤ c ∧ c ≤ '9' then some (c.toNat - '0'.toNat).toUInt8
  else if 'a' ≤ c ∧ c ≤ 'f' then some (c.toNat - 'a'.toNat + 10).toUInt8
  else if 'A' ≤ c ∧ c ≤ 'F' then some (c.toNat - 'A'.toNat + 10).toUInt8
  else none

/-- The bytes of a text. -/
def utf8 (s : List Char) : List UInt8 := s.flatMap String.utf8EncodeChar

/-- The bytes of a segment: `%` followed by two hexadecimal digits is a byte,
everything else stands for itself. -/
def percentDecode : Segment → List UInt8
  | '%' :: hi :: lo :: rest =>
    match hexDigit? hi, hexDigit? lo with
    | some h, some l => (h * 16 + l) :: percentDecode rest
    | _, _ => String.utf8EncodeChar '%' ++ percentDecode (hi :: lo :: rest)
  | c :: rest => String.utf8EncodeChar c ++ percentDecode rest
  | [] => []

/-- An upper-case hexadecimal digit. -/
def hexChar (n : Nat) : Char :=
  if n < 10 then Char.ofNat ('0'.toNat + n) else Char.ofNat ('A'.toNat + (n - 10))

/-- The characters that a path segment percent-encodes.  The percent sign is not
one of them. -/
def isEncoded (c : Char) : Bool :=
  c ≤ ' ' || '~' < c || "\"#<>?\x60\x7b\x7d".toList.contains c

/-- A character as it stands in a normalised path. -/
def encodeChar (c : Char) : Segment :=
  if isEncoded c then
    (String.utf8EncodeChar c).flatMap fun b =>
      ['%', hexChar (b.toNat / 16), hexChar (b.toNat % 16)]
  else [c]

/-- A segment as it stands in a normalised path. -/
def encode (seg : Segment) : Segment := seg.flatMap encodeChar

/-! ## Dot segments -/

/-- The ways to write the segment `.`. -/
def isSingleDot (seg : Segment) : Bool :=
  [".", "%2e", "%2E"].map String.toList |>.contains seg

/-- The ways to write the segment `..`. -/
def isDoubleDot (seg : Segment) : Bool :=
  ["..", "%2e%2e", "%2e%2E", "%2E%2e", "%2E%2E", "%2e.", "%2E.", ".%2e", ".%2E"].map String.toList
    |>.contains seg

/-! ## Normalisation -/

def isSeparator (c : Char) : Bool := c == '/' || c == '\\'

/-- The pieces of a path between separators. -/
def pieces (path : List Char) : List Segment := path.splitOnP isSeparator

/-- Follow the pieces from the segments read so far. -/
def walkPieces (segs : List Segment) : List Segment → List Segment
  | [] => segs
  | p :: rest =>
    if isDoubleDot p then walkPieces segs.dropLast rest
    else if isSingleDot p then walkPieces segs rest
    else walkPieces (segs ++ [encode p]) rest

/-- A path that ends in a dot segment ends in a slash. -/
def endSlash (ps : List Segment) : List Segment :=
  match ps.getLast? with
  | some p => if isDoubleDot p || isSingleDot p then [[]] else []
  | none => []

/-- The segments of the normalised path, from the characters after its first
separator. -/
def normalize (path : List Char) : List Segment :=
  walkPieces [] (pieces path) ++ endSlash (pieces path)

/-! ## Depth -/

/-- The depth after some pieces. -/
def climb (depth : Nat) : List Segment → Nat
  | [] => depth
  | p :: rest =>
    if isDoubleDot p then climb (depth - 1) rest
    else if isSingleDot p then climb depth rest
    else climb (depth + 1) rest

/-- No prefix of the pieces takes the depth to zero. -/
def StaysUp (depth : Nat) (ps : List Segment) : Prop := ∀ q, q <+: ps → climb depth q ≠ 0

theorem length_walkPieces (segs ps : List Segment) :
    (walkPieces segs ps).length = climb segs.length ps := by
  induction ps generalizing segs with
  | nil => rfl
  | cons p rest ih =>
      rw [walkPieces, climb]
      split_ifs <;> simp [ih]

theorem staysUp_nil {depth : Nat} : StaysUp depth [] ↔ depth ≠ 0 := by
  simp [StaysUp, climb]

/-- Staying up, one piece at a time. -/
theorem staysUp_cons {depth : Nat} {p : Segment} {ps : List Segment} :
    StaysUp depth (p :: ps) ↔ depth ≠ 0 ∧
      StaysUp (if isDoubleDot p then depth - 1 else if isSingleDot p then depth else depth + 1)
        ps := by
  constructor
  · intro h
    refine ⟨by simpa [climb] using h [] List.nil_prefix, fun q hq => ?_⟩
    have := h (p :: q) (List.cons_prefix_cons.2 ⟨rfl, hq⟩)
    rw [climb] at this
    split_ifs at this ⊢ <;> exact this
  · rintro ⟨hdepth, h⟩ q hq
    cases q with
    | nil => simpa [climb] using hdepth
    | cons p' q =>
        obtain ⟨rfl, hq'⟩ := List.cons_prefix_cons.1 hq
        have := h q hq'
        rw [climb]
        split_ifs at this ⊢ <;> exact this

/-- A piece that starts at depth zero becomes the segment `x`, and stays. -/
def Enters (x : Segment) (depth : Nat) (ps : List Segment) : Prop :=
  ∃ pre p post, ps = pre ++ p :: post ∧ isDoubleDot p = false ∧ isSingleDot p = false ∧
    encode p = x ∧ climb depth pre = 0 ∧ StaysUp 1 post

theorem not_enters_nil {x : Segment} {depth : Nat} : ¬ Enters x depth [] := by
  rintro ⟨pre, p, post, heq, -⟩
  simp at heq

/-- Entering now, or after the first piece. -/
theorem enters_cons {x : Segment} {depth : Nat} {p : Segment} {ps : List Segment} :
    Enters x depth (p :: ps) ↔
      (isDoubleDot p = false ∧ isSingleDot p = false ∧ encode p = x ∧ depth = 0 ∧ StaysUp 1 ps) ∨
      Enters x (if isDoubleDot p then depth - 1 else if isSingleDot p then depth else depth + 1)
        ps := by
  have hclimb : ∀ pre, climb depth (p :: pre) =
      climb (if isDoubleDot p then depth - 1 else if isSingleDot p then depth else depth + 1)
        pre := by
    intro pre
    rw [climb]
    split_ifs <;> rfl
  constructor
  · rintro ⟨pre, p', post, heq, hdd, hsd, henc, hzero, hup⟩
    cases pre with
    | nil =>
        obtain ⟨rfl, rfl⟩ := List.cons_eq_cons.1 heq
        exact .inl ⟨hdd, hsd, henc, hzero, hup⟩
    | cons p'' pre =>
        obtain ⟨rfl, rfl⟩ := List.cons_eq_cons.1 heq
        exact .inr ⟨pre, p', post, rfl, hdd, hsd, henc, hclimb pre ▸ hzero, hup⟩
  · rintro (⟨hdd, hsd, henc, hzero, hup⟩ | ⟨pre, p', post, rfl, hdd, hsd, henc, hzero, hup⟩)
    · exact ⟨[], p, ps, rfl, hdd, hsd, henc, hzero, hup⟩
    · exact ⟨p :: pre, p', post, rfl, hdd, hsd, henc, (hclimb pre).trans hzero, hup⟩

/-- The first segment after some pieces: the one from before, when no `..` took
it away, or a piece that started at depth zero and was not taken away since. -/
theorem exists_cons_of_walkPieces {x : Segment} {segs ps : List Segment} :
    (∃ rest, walkPieces segs ps = x :: rest) ↔
      ((∃ rest, segs = x :: rest) ∧ StaysUp segs.length ps) ∨ Enters x segs.length ps := by
  induction ps generalizing segs with
  | nil =>
      rw [walkPieces, staysUp_nil]
      constructor
      · rintro ⟨rest, rfl⟩
        exact .inl ⟨⟨rest, rfl⟩, by simp⟩
      · rintro (⟨h, -⟩ | h)
        · exact h
        · exact absurd h not_enters_nil
  | cons p ps ih =>
      rw [walkPieces, staysUp_cons, enters_cons]
      by_cases hdd : isDoubleDot p
      · simp only [hdd, if_true, Bool.true_eq_false, false_and, false_or]
        rw [ih, List.length_dropLast]
        refine or_congr_left ?_
        constructor
        · rintro ⟨⟨rest, hrest⟩, hup⟩
          obtain ⟨y, rest', rfl⟩ : ∃ y rest', segs = y :: rest' :=
            List.exists_cons_of_ne_nil fun h => by simp [h] at hrest
          cases rest' with
          | nil => simp at hrest
          | cons z rest' =>
              rw [List.dropLast_cons_cons] at hrest
              exact ⟨⟨_, by rw [(List.cons_eq_cons.1 hrest).1]⟩, by simp, hup⟩
        · rintro ⟨⟨rest, rfl⟩, -, hup⟩
          have hlen : rest.length ≠ 0 := by simpa [climb] using hup [] List.nil_prefix
          obtain ⟨z, rest', rfl⟩ : ∃ z rest', rest = z :: rest' :=
            List.exists_cons_of_ne_nil fun h => by simp [h] at hlen
          exact ⟨⟨_, List.dropLast_cons_cons⟩, hup⟩
      · by_cases hsd : isSingleDot p
        · simp only [hdd, hsd, if_true, if_false, Bool.true_eq_false, false_and, and_false,
            false_or, Bool.false_eq_true]
          rw [ih]
          refine or_congr_left ?_
          constructor
          · rintro ⟨⟨rest, rfl⟩, hup⟩
            exact ⟨⟨rest, rfl⟩, by simp, hup⟩
          · rintro ⟨h, -, hup⟩
            exact ⟨h, hup⟩
        · simp only [hdd, hsd, if_false, Bool.false_eq_true, true_and]
          rw [ih, List.length_append, List.length_singleton]
          cases segs with
          | nil => simp [eq_comm]
          | cons y segs => simp

theorem climb_append (depth : Nat) (ps qs : List Segment) :
    climb depth (ps ++ qs) = climb (climb depth ps) qs := by
  induction ps generalizing depth with
  | nil => rfl
  | cons p ps ih =>
      simp only [List.cons_append, climb]
      split_ifs <;> exact ih _

/-- Every segment of a walk is an encoded piece. -/
theorem mem_walkPieces {segs ps : List Segment} {seg : Segment} (h : seg ∈ walkPieces segs ps) :
    seg ∈ segs ∨ ∃ p ∈ ps, seg = encode p := by
  induction ps generalizing segs with
  | nil => exact .inl h
  | cons p ps ih =>
      have hlift : (∃ q ∈ ps, seg = encode q) → ∃ q ∈ p :: ps, seg = encode q :=
        fun ⟨q, hq, heq⟩ => ⟨q, List.mem_cons_of_mem p hq, heq⟩
      rw [walkPieces] at h
      split_ifs at h
      · exact (ih h).imp List.mem_of_mem_dropLast hlift
      · exact (ih h).imp_right hlift
      · rcases ih h with hmem | hmem
        · rcases List.mem_append.1 hmem with hmem | hmem
          · exact .inl hmem
          · exact .inr ⟨p, by simp, List.mem_singleton.1 hmem⟩
        · exact .inr (hlift hmem)

/-- The normalised path of `ps` starts with the segment `x` and goes on after
it: a piece `x` is entered, and it is not the last piece. -/
theorem normalize_eq_cons_cons_iff {x : Segment} {ps : List Segment} :
    (∃ y rest, walkPieces [] ps ++ endSlash ps = x :: y :: rest) ↔
      ∃ pre p post, ps = pre ++ p :: post ∧ post ≠ [] ∧ isDoubleDot p = false ∧
        isSingleDot p = false ∧ encode p = x ∧ climb 0 pre = 0 ∧ StaysUp 1 post := by
  constructor
  · rintro ⟨y, rest, heq⟩
    have hfirst : ∃ rest, walkPieces [] ps = x :: rest := by
      cases hwalk : walkPieces [] ps with
      | nil =>
          rw [hwalk, List.nil_append, endSlash] at heq
          split at heq
          · split_ifs at heq
            simp at heq
          · simp at heq
      | cons z zs =>
          rw [hwalk, List.cons_append] at heq
          exact ⟨zs, by rw [(List.cons_eq_cons.1 heq).1]⟩
    rcases exists_cons_of_walkPieces.1 hfirst with ⟨⟨_, hnil⟩, -⟩ |
      ⟨pre, p, post, rfl, hdd, hsd, henc, hzero, hup⟩
    · simp at hnil
    · refine ⟨pre, p, post, rfl, ?_, hdd, hsd, henc, hzero, hup⟩
      rintro rfl
      have hlen := congrArg List.length heq
      rw [List.length_append, length_walkPieces, climb_append, endSlash,
        List.getLast?_concat] at hlen
      simp only [List.length_nil] at hzero hlen
      simp [hzero, climb, hdd, hsd] at hlen
  · rintro ⟨pre, p, post, rfl, hne, hdd, hsd, henc, hzero, hup⟩
    have henter : Enters x ([] : List Segment).length (pre ++ p :: post) :=
      ⟨pre, p, post, rfl, hdd, hsd, henc, hzero, hup⟩
    obtain ⟨zs, hzs⟩ := exists_cons_of_walkPieces.2 (.inr henter)
    have hlen : 2 ≤ (walkPieces [] (pre ++ p :: post) ++ endSlash (pre ++ p :: post)).length := by
      rcases List.eq_nil_or_concat post with rfl | ⟨post', q, rfl⟩
      · exact absurd rfl hne
      · rw [List.concat_eq_append] at hup ⊢
        have hpost : climb 1 post' ≠ 0 := hup post' (List.prefix_append _ _)
        have hlast := hup _ List.prefix_rfl
        rw [climb_append] at hlast
        have hdepth : climb 0 (pre ++ p :: (post' ++ [q])) = climb (climb 1 post') [q] := by
          rw [climb_append, hzero, climb, hdd, hsd, ← climb_append]
          rfl
        rw [List.length_append, length_walkPieces, List.length_nil, hdepth, endSlash,
          ← List.cons_append, ← List.append_assoc, List.getLast?_concat]
        simp only [climb] at hlast ⊢
        by_cases hq : isDoubleDot q
        · simp only [hq, if_true, Bool.true_or, List.length_singleton] at hlast ⊢
          omega
        · by_cases hq' : isSingleDot q <;> simp [hq, hq'] at hlast ⊢ <;>
            omega
    rw [hzs] at hlen ⊢
    cases hrest : zs ++ endSlash (pre ++ p :: post) with
    | nil => simp [hrest] at hlen
    | cons y rest => exact ⟨y, rest, by rw [List.cons_append, hrest]⟩

/-! ## Text that normalisation keeps -/

/-- An encoded character starts with a percent sign. -/
theorem percent_mem_encodeChar {c : Char} (h : isEncoded c = true) : '%' ∈ encodeChar c := by
  rw [encodeChar, if_pos h]
  have hne : String.utf8EncodeChar c ≠ [] := String.utf8EncodeChar_ne_nil
  obtain ⟨b, bytes, hbytes⟩ := List.exists_cons_of_ne_nil hne
  simp [hbytes]

/-- A segment whose normalised text has no percent sign is that text. -/
theorem encode_eq_of_notMem {seg : Segment} (h : '%' ∉ encode seg) : encode seg = seg := by
  induction seg with
  | nil => rfl
  | cons c seg ih =>
      rw [encode, List.flatMap_cons, List.mem_append, not_or] at h
      have hc : isEncoded c = false := by
        by_contra hc
        exact h.1 (percent_mem_encodeChar (by simpa using hc))
      rw [encode, List.flatMap_cons, encodeChar, hc]
      exact congrArg (c :: ·) (ih h.2)

theorem encode_append (s t : Segment) : encode (s ++ t) = encode s ++ encode t :=
  List.flatMap_append

/-- A text without characters to encode stays as it is inside a segment. -/
theorem encode_append_append {esc : Segment} (h : ∀ c ∈ esc, isEncoded c = false)
    (pre post : Segment) : encode (pre ++ esc ++ post) = encode pre ++ esc ++ encode post := by
  have hesc : encode esc = esc := by
    induction esc with
    | nil => rfl
    | cons c esc ih =>
        rw [encode, List.flatMap_cons, encodeChar, h c (by simp)]
        exact congrArg (c :: ·) (ih fun d hd => h d (by simp [hd]))
  rw [encode_append, encode_append, hesc]

/-! ## Dot segments, decoded -/

/-- Every way to write `.` decodes to `.`. -/
theorem percentDecode_of_isSingleDot {seg : Segment} (h : isSingleDot seg = true) :
    percentDecode seg = utf8 ".".toList := by
  have hall : ∀ seg ∈ [".", "%2e", "%2E"].map String.toList,
      percentDecode seg = utf8 ".".toList := by decide
  exact hall seg (List.contains_iff_mem.1 h)

/-- Every way to write `..` decodes to `..`. -/
theorem percentDecode_of_isDoubleDot {seg : Segment} (h : isDoubleDot seg = true) :
    percentDecode seg = utf8 "..".toList := by
  have hall : ∀ seg ∈ ["..", "%2e%2e", "%2e%2E", "%2E%2e", "%2E%2E", "%2e.", "%2E.", ".%2e",
      ".%2E"].map String.toList, percentDecode seg = utf8 "..".toList := by decide
  exact hall seg (List.contains_iff_mem.1 h)

/-! ## Whole URLs -/

/-- What a request needs of an http URL.  The part from `?` or `#` on is left
out. -/
structure HttpUrl where
  host : List Char
  port : List Char
  path : List Segment
  deriving DecidableEq

/-- The characters that an URL parser keeps in a host as they are. -/
def isHostChar (c : Char) : Bool := c.isLower || c.isDigit || c == '-' || c == '.'

def endsAuthority (c : Char) : Bool := isSeparator c || c == '?' || c == '#'

def endsPath (c : Char) : Bool := c == '?' || c == '#'

/-- Read an http URL with a plain host and a port. -/
def parseHttp (url : List Char) : Option HttpUrl :=
  if "http://".toList.isPrefixOf url then
    let rest := url.drop "http://".toList.length
    let authority := rest.takeWhile (!endsAuthority ·)
    let afterAuthority := rest.dropWhile (!endsAuthority ·)
    let host := authority.takeWhile (· != ':')
    let port := (authority.dropWhile (· != ':')).tail
    if host ≠ [] ∧ host.all isHostChar ∧ port ≠ [] ∧ port.all Char.isDigit then
      some ⟨host, port, normalize (afterAuthority.takeWhile (!endsPath ·)).tail⟩
    else none
  else none

/-- The prefix up to the first element that fails a test. -/
private theorem span_append_cons {p : Char → Bool} {xs ys : List Char} {y : Char}
    (hxs : ∀ x ∈ xs, p x = true) (hy : p y = false) :
    (xs ++ y :: ys).takeWhile p = xs ∧ (xs ++ y :: ys).dropWhile p = y :: ys := by
  rw [List.takeWhile_append_of_pos hxs, List.dropWhile_append_of_pos hxs,
    List.takeWhile_cons_of_neg (by simp [hy]), List.dropWhile_cons_of_neg (by simp [hy])]
  simp

/-- The delimiters of an authority are neither host characters nor digits. -/
private theorem not_host_of_delimiter {c : Char} (h : endsAuthority c = true ∨ c = ':') :
    isHostChar c = false ∧ c.isDigit = false := by
  simp only [endsAuthority, isSeparator, Bool.or_eq_true, beq_iff_eq] at h
  rcases h with (((rfl | rfl) | rfl) | rfl) | rfl <;> decide

/-- A URL put together from a host, a port and a path reads as these. -/
theorem parseHttp_eq {host port path after : List Char} (hne : host ≠ [])
    (hhost : ∀ c ∈ host, isHostChar c = true) (hport : port ≠ [])
    (hdigits : ∀ c ∈ port, c.isDigit = true) (hpath : ∀ c ∈ path, endsPath c = false)
    (hafter : after = [] ∨ ∃ c rest, after = c :: rest ∧ endsPath c = true) :
    parseHttp ("http://".toList ++ ((host ++ ':' :: port) ++ '/' :: (path ++ after))) =
      some ⟨host, port, normalize path⟩ := by
  have hauthority : ∀ c ∈ host ++ ':' :: port, (!endsAuthority c) = true := by
    intro c hc
    by_contra hends
    obtain ⟨hnhost, hndigit⟩ := not_host_of_delimiter (.inl (by simpa using hends))
    rcases List.mem_append.1 hc with hc | hc
    · simp [hhost c hc] at hnhost
    · rcases List.mem_cons.1 hc with rfl | hc
      · exact absurd hends (by decide)
      · simp [hdigits c hc] at hndigit
  have hcolon : ∀ c ∈ host, (c != ':') = true := by
    intro c hc
    by_contra heq
    obtain ⟨hnhost, -⟩ := not_host_of_delimiter (.inr (by simpa using heq : c = ':'))
    simp [hhost c hc] at hnhost
  have hslash : (!endsAuthority '/') = false := by decide
  have hlast : (('/' :: (path ++ after)).takeWhile (!endsPath ·)).tail = path := by
    rw [List.takeWhile_cons_of_pos (by decide), List.tail_cons]
    have hpath' : ∀ c ∈ path, (!endsPath c) = true := fun c hc => by simp [hpath c hc]
    rcases hafter with rfl | ⟨c, rest, rfl, hc⟩
    · have htake : (path ++ []).takeWhile (!endsPath ·) = path ++ [] :=
        List.takeWhile_append_of_pos hpath'
      simpa using htake
    · exact (span_append_cons hpath' (by simp [hc])).1
  rw [parseHttp, if_pos (List.isPrefixOf_iff_prefix.2 (List.prefix_append _ _)), List.drop_left]
  simp only [(span_append_cons hauthority hslash).1, (span_append_cons hauthority hslash).2,
    (span_append_cons hcolon (by decide : (':' != ':') = false)).1,
    (span_append_cons hcolon (by decide : (':' != ':') = false)).2, List.tail_cons, hlast]
  rw [if_pos]
  exact ⟨hne, List.all_eq_true.2 hhost, hport, List.all_eq_true.2 hdigits⟩

end Vanyline.Lib.UrlPath
