import Mathlib.Data.Char
import Mathlib.Data.List.Lex
import Vanyline.Lib.Chunks
import Vanyline.Lib.TextLines
import Vanyline.Lib.Utf8

/-!
# Frames on the standard streams of a language server

A message is a header with its length, an empty line and its bytes (`encodeMessage`).  The reader
appends what it reads from the stream to a buffer, and `nextFrame` takes the first frame from it.

`frames_round_trip`: however the stream is divided, the frames are the payloads that were encoded,
each as soon as it is complete.
-/

namespace Vanyline.Sandbox.Framing

open Vanyline.Lib TextLines Chunks Utf8

def usizeMax : Nat := 18446744073709551615

/-- No vector or slice of bytes is longer. -/
def isizeMax : Nat := 9223372036854775807

/-- `\r\n\r\n`. -/
def terminator : Bytes := [13, 10, 13, 10]

def frameHeader (n : Nat) : Text := "Content-Length: ".toList ++ Nat.toDigits 10 n

def encodeMessage (payload : Bytes) : Bytes :=
  asciiBytes (frameHeader payload.length) ++ terminator ++ payload

/-! ## The header -/

/-- The length that a line of the header gives. -/
def lineLength (line : Text) : Option Nat :=
  let lower := (trim line).map Char.toLower
  (stripPrefix "content-length:".toList lower).bind fun stripped =>
    parseNat (usizeMax + 1) (trim stripped)

def contentLength (header : Bytes) : Option Nat :=
  (lines (fromUtf8Lossy header)).findSome? lineLength

/-! ## The reader -/

/-- Where `\r\n\r\n` begins for the first time. -/
def terminatorPos : Bytes → Option Nat
  | [] => none
  | b :: bytes =>
    if (b :: bytes).take 4 = terminator then some 0 else (terminatorPos bytes).map (· + 1)

/-- The first frame of the buffer and what is behind it; with `none` the buffer stays. -/
def nextFrame (buf : Bytes) : Option (Bytes × Bytes) :=
  (terminatorPos buf).bind fun pos =>
    let bodyStart := pos + 4
    (contentLength (buf.take pos)).bind fun n =>
      -- `checked_add`
      if bodyStart + n > usizeMax then none
      else if bodyStart + n > buf.length then none
      else some ((buf.drop bodyStart).take n, buf.drop (bodyStart + n))

theorem nextFrame_shrinks (buf frame rest : Bytes) (h : nextFrame buf = some (frame, rest)) :
    rest.length < buf.length := by
  obtain ⟨pos, -, h⟩ := Option.bind_eq_some_iff.1 h
  obtain ⟨n, -, h⟩ := Option.bind_eq_some_iff.1 h
  split_ifs at h with hmax hlen
  cases h
  rw [List.length_drop]
  omega

/-- A reader is its buffer. -/
abbrev FrameReader := Bytes

def FrameReader.new : FrameReader := []

def decoder : Decoder UInt8 Bytes := ⟨nextFrame, nextFrame_shrinks⟩

/-! ## What a header says -/

theorem mem_frameHeader {n : Nat} {c : Char} (h : c ∈ frameHeader n) :
    c.toNat < 128 ∧ c ≠ '\r' ∧ c ≠ '\n' := by
  rcases List.mem_append.1 h with h | h
  · have hall : "Content-Length: ".toList.all
        (fun c => decide (c.toNat < 128) && c != '\r' && c != '\n') = true := rfl
    have hc := List.all_eq_true.1 hall c h
    simp only [Bool.and_eq_true, decide_eq_true_eq, bne_iff_ne] at hc
    exact ⟨hc.1.1, hc.1.2, hc.2⟩
  · have hdigit := isDigit_toDigits h
    have hwhite := isWhite_of_isDigit hdigit
    simp only [Char.isDigit, Bool.and_eq_true, decide_eq_true_eq] at hdigit
    have hhigh : c.toNat ≤ 57 := hdigit.2
    refine ⟨by omega, ?_, ?_⟩
    · rintro rfl
      exact absurd hwhite (by decide)
    · rintro rfl
      exact absurd hwhite (by decide)

theorem toLower_digits (before : Text) (n : Nat) :
    (before ++ Nat.toDigits 10 n).map Char.toLower =
      before.map Char.toLower ++ Nat.toDigits 10 n := by
  have hsame : ∀ c ∈ Nat.toDigits 10 n, c.toLower = c := by
    intro c hc
    have hdigit := isDigit_toDigits hc
    simp only [Char.isDigit, Bool.and_eq_true, decide_eq_true_eq] at hdigit
    have hupper : ¬ (c.val ≥ 'A'.val ∧ c.val ≤ 'Z'.val) := by
      intro hupper
      have hlow : 65 ≤ c.toNat := hupper.1
      have hhigh : c.toNat ≤ 57 := hdigit.2
      omega
    exact dif_neg hupper
  rw [List.map_append, List.map_congr_left hsame, List.map_id']

/-- A text that ends with a number is not blank at its end. -/
theorem trim_digits (before : Text) (n : Nat) (hbefore : ∀ c ∈ before.head?, isWhite c = false) :
    trim (before ++ Nat.toDigits 10 n) = before ++ Nat.toDigits 10 n := by
  have hdigit : ∀ c ∈ Nat.toDigits 10 n, isWhite c = false := fun c hc =>
    isWhite_of_isDigit (isDigit_toDigits hc)
  apply trim_eq_self
  · intro c hc
    cases before with
    | nil => exact hdigit c (List.mem_of_mem_head? hc)
    | cons d before => exact hbefore c hc
  · intro c hc
    rw [List.getLast?_append_of_ne_nil _ Nat.toDigits_ne_nil] at hc
    exact hdigit c (List.mem_of_mem_getLast? hc)

theorem lineLength_frameHeader {n : Nat} (h : n ≤ usizeMax) :
    lineLength (frameHeader n) = some n := by
  have hfirst : ∀ c ∈ "Content-Length: ".toList.head?, isWhite c = false := by
    intro c hc
    cases hc
    rfl
  have htrim : trim (frameHeader n) = frameHeader n := trim_digits _ n hfirst
  have hname : "Content-Length: ".toList.map Char.toLower = "content-length:".toList ++ [' '] :=
    rfl
  have hlower : (frameHeader n).map Char.toLower =
      "content-length:".toList ++ ([' '] ++ Nat.toDigits 10 n) :=
    calc (frameHeader n).map Char.toLower
      _ = "Content-Length: ".toList.map Char.toLower ++ Nat.toDigits 10 n := toLower_digits _ n
      _ = "content-length:".toList ++ [' '] ++ Nat.toDigits 10 n := congrArg (· ++ _) hname
      _ = _ := List.append_assoc ..
  have hdigits : trim ([' '] ++ Nat.toDigits 10 n) = Nat.toDigits 10 n := by
    show trim (' ' :: Nat.toDigits 10 n) = _
    rw [trim, List.dropWhile_cons_of_pos (by decide), ← trim]
    exact trim_digits [] n (by simp)
  rw [lineLength, htrim, hlower, stripPrefix_append, Option.bind_some, hdigits, parseNat_toDigits,
    if_pos (Nat.lt_succ_of_le h)]

theorem lines_of_one {line : Text} (hne : line ≠ []) (hline : '\n' ∉ line) :
    lines line = [line] := by
  rw [lines, cut_of_no_newline hline, if_neg hne]
  rfl

theorem contentLength_frameHeader {n : Nat} (h : n ≤ usizeMax) :
    contentLength (asciiBytes (frameHeader n)) = some n := by
  have hne : frameHeader n ≠ [] := List.append_ne_nil_of_left_ne_nil (by decide) _
  rw [contentLength, fromUtf8Lossy_asciiBytes fun c hc => (mem_frameHeader hc).1,
    lines_of_one hne fun hmem => (mem_frameHeader hmem).2.2 rfl, List.findSome?_cons,
    lineLength_frameHeader h]

/-! ## Where a header ends -/

theorem terminatorPos_of_short {buf : Bytes} (h : buf.length < 4) : terminatorPos buf = none := by
  induction buf with
  | nil => rfl
  | cons b buf ih =>
    have hne : (b :: buf).take 4 ≠ terminator := by
      intro heq
      have hlength := congrArg List.length heq
      rw [List.length_take, Nat.min_eq_right h.le] at hlength
      exact absurd hlength (Nat.ne_of_lt h)
    rw [terminatorPos, if_neg hne, ih (Nat.lt_of_succ_lt h)]
    rfl

theorem terminatorPos_cons {b : UInt8} (hb : b ≠ 13) (buf : Bytes) :
    terminatorPos (b :: buf) = (terminatorPos buf).map (· + 1) := by
  rw [terminatorPos, if_neg]
  intro heq
  exact hb (Option.some.inj (congrArg List.head? heq))

/-- The terminator is found behind a header without carriage returns. -/
theorem terminatorPos_append {header : Bytes} (h : 13 ∉ header) (rest : Bytes) :
    terminatorPos (header ++ (terminator ++ rest)) = some header.length := by
  induction header with
  | nil => rfl
  | cons b header ih =>
    rw [List.mem_cons, not_or] at h
    rw [List.cons_append, terminatorPos_cons (Ne.symm h.1), ih h.2]
    rfl

/-- It is not found before all of it has come. -/
theorem terminatorPos_of_prefix {header : Bytes} (h : 13 ∉ header) {buf rest : Bytes}
    (hbuf : buf <+: header ++ (terminator ++ rest)) (hlt : buf.length < header.length + 4) :
    terminatorPos buf = none := by
  induction header generalizing buf with
  | nil => exact terminatorPos_of_short (by simpa using hlt)
  | cons b header ih =>
    rw [List.mem_cons, not_or] at h
    cases buf with
    | nil => rfl
    | cons c buf =>
      rw [List.cons_append, List.cons_prefix_cons] at hbuf
      obtain ⟨rfl, hbuf⟩ := hbuf
      have hlt' : buf.length < header.length + 4 := by
        simp only [List.length_cons] at hlt
        omega
      rw [terminatorPos_cons (Ne.symm h.1), ih h.2 hbuf hlt']
      rfl

/-- What is found is a terminator. -/
theorem terminatorPos_eq_some {buf : Bytes} {pos : Nat} (h : terminatorPos buf = some pos) :
    buf = buf.take pos ++ (terminator ++ buf.drop (pos + 4)) := by
  induction buf generalizing pos with
  | nil => cases h
  | cons b buf ih =>
    rw [terminatorPos] at h
    split_ifs at h with hhere
    · cases h
      rw [List.take_zero, List.nil_append, ← hhere, Nat.zero_add, List.take_append_drop]
    · obtain ⟨pos', hpos, rfl⟩ := Option.map_eq_some_iff.1 h
      have hbuf := congrArg (b :: ·) (ih hpos)
      exact hbuf

/-! ## Frames -/

/-- The bytes of a payload that a vector can have. -/
structure Payload where
  bytes : Bytes
  fits : bytes.length ≤ isizeMax

def Payload.encode (payload : Payload) : Bytes := encodeMessage payload.bytes

/-- A frame that is taken was complete: its header, the empty line, and all the bytes that the
header says. -/
theorem nextFrame_eq_some {buf frame rest : Bytes} (h : nextFrame buf = some (frame, rest)) :
    ∃ header, buf = header ++ terminator ++ frame ++ rest ∧
      contentLength header = some frame.length := by
  obtain ⟨pos, hpos, h⟩ := Option.bind_eq_some_iff.1 h
  obtain ⟨n, hn, h⟩ := Option.bind_eq_some_iff.1 h
  split_ifs at h with hmax hlen
  cases h
  refine ⟨buf.take pos, ?_, ?_⟩
  · have hbody : (buf.drop (pos + 4)).take n ++ buf.drop (pos + 4 + n) = buf.drop (pos + 4) := by
      have hrest : buf.drop (pos + 4 + n) = (buf.drop (pos + 4)).drop n := List.drop_drop.symm
      rw [hrest, List.take_append_drop]
    rw [List.append_assoc, hbody, List.append_assoc]
    exact terminatorPos_eq_some hpos
  · rw [List.length_take, List.length_drop, Nat.min_eq_left (by omega)]
    exact hn

theorem notMem_asciiBytes_frameHeader (n : Nat) : 13 ∉ asciiBytes (frameHeader n) := by
  intro hmem
  obtain ⟨c, hc, hbyte⟩ := List.mem_map.1 hmem
  obtain ⟨hascii, hcr, -⟩ := mem_frameHeader hc
  have hnat := congrArg UInt8.toNat hbyte
  rw [UInt8.toNat_ofNat'] at hnat
  apply hcr
  rw [← Char.ofNat_toNat c, show c.toNat = 13 by
    rw [Nat.mod_eq_of_lt (by omega)] at hnat
    exact hnat]

theorem length_frameHeader_le {n : Nat} (h : n ≤ isizeMax) : (frameHeader n).length ≤ 35 := by
  have hname : "Content-Length: ".toList.length = 16 := by decide
  have hdigits : (Nat.toDigits 10 n).length ≤ 19 := by
    rw [Nat.length_toDigits_le_iff (by omega) (by omega)]
    unfold isizeMax at h
    omega
  have hlength : (frameHeader n).length =
      "Content-Length: ".toList.length + (Nat.toDigits 10 n).length := List.length_append
  omega

/-- What a message and what follows it look like to the reader. -/
theorem encode_append (payload : Payload) (rest : Bytes) : payload.encode ++ rest =
    asciiBytes (frameHeader payload.bytes.length) ++ (terminator ++ (payload.bytes ++ rest)) := by
  rw [Payload.encode, encodeMessage, List.append_assoc, List.append_assoc]

/-- The length of a frame is below the bounds of the machine. -/
theorem frame_end_le (payload : Payload) :
    (asciiBytes (frameHeader payload.bytes.length)).length + 4 + payload.bytes.length ≤
      usizeMax := by
  have hheader := length_frameHeader_le payload.fits
  have hfits := payload.fits
  rw [asciiBytes, List.length_map]
  unfold usizeMax
  unfold isizeMax at hfits
  omega

theorem contentLength_payload (payload : Payload) :
    contentLength (asciiBytes (frameHeader payload.bytes.length)) =
      some payload.bytes.length := by
  apply contentLength_frameHeader
  have hend := frame_end_le payload
  omega

theorem nextFrame_encode (payload : Payload) (rest : Bytes) :
    nextFrame (payload.encode ++ rest) = some (payload.bytes, rest) := by
  have hlength := contentLength_payload payload
  have hend := frame_end_le payload
  have hno := notMem_asciiBytes_frameHeader payload.bytes.length
  rw [encode_append]
  generalize asciiBytes (frameHeader payload.bytes.length) = header at *
  have hbody : (header ++ (terminator ++ (payload.bytes ++ rest))).drop (header.length + 4) =
      payload.bytes ++ rest := List.drop_length_add_append 4
  have hrest : (header ++ (terminator ++ (payload.bytes ++ rest))).drop
      (header.length + 4 + payload.bytes.length) = rest := by
    rw [← List.drop_drop, hbody, List.drop_left]
  have hlen : ¬ header.length + 4 + payload.bytes.length >
      (header ++ (terminator ++ (payload.bytes ++ rest))).length := by
    simp only [List.length_append, show terminator.length = 4 from rfl]
    omega
  rw [nextFrame, terminatorPos_append hno, Option.bind_some, List.take_left, hlength]
  show (if header.length + 4 + payload.bytes.length > usizeMax then none else _) = _
  rw [if_neg (Nat.not_lt_of_le hend), if_neg hlen, hbody, hrest, List.take_left]

theorem nextFrame_of_prefix (payload : Payload) (buf : Bytes) (hbuf : buf <+: payload.encode)
    (hlt : buf.length < payload.encode.length) : nextFrame buf = none := by
  have hlength := contentLength_payload payload
  have hno := notMem_asciiBytes_frameHeader payload.bytes.length
  have hencode := encode_append payload []
  rw [List.append_nil, List.append_nil] at hencode
  rw [hencode] at hbuf hlt
  generalize asciiBytes (frameHeader payload.bytes.length) = header at *
  by_cases hshort : buf.length < header.length + 4
  · rw [nextFrame, terminatorPos_of_prefix hno hbuf hshort]
    rfl
  · -- The header is there, but the bytes are not all.
    have hheader : header ++ terminator <+: buf := by
      rw [← List.append_assoc] at hbuf
      apply List.prefix_of_prefix_length_le (List.prefix_append ..) hbuf
      rw [List.length_append]
      exact Nat.le_of_not_lt hshort
    obtain ⟨part, rfl⟩ := hheader
    have hpart : part.length < payload.bytes.length := by
      simp only [List.length_append] at hlt
      omega
    have hlen : header.length + 4 + payload.bytes.length >
        (header ++ (terminator ++ part)).length := by
      simp only [List.length_append, show terminator.length = 4 from rfl]
      omega
    rw [nextFrame, List.append_assoc, terminatorPos_append hno, Option.bind_some, List.take_left,
      hlength]
    show (if header.length + 4 + payload.bytes.length > usizeMax then none else _) = _
    rw [if_pos hlen, ite_self]

/-- The reader gives back the payloads that were encoded. -/
theorem reads_payloads : decoder.Reads Payload.encode Payload.bytes where
  complete := nextFrame_encode
  incomplete := nextFrame_of_prefix

/-- However the stream of some payloads is divided into chunks: the frames are the payloads, in
their order; after each chunk those have been taken whose last byte has come; nothing is left in
the buffer; and no buffer ever gives a frame whose bytes are not all there. -/
theorem frames_round_trip (payloads : List Payload) (chunks : List Bytes)
    (hstream : chunks.flatten = (payloads.map Payload.encode).flatten) :
    let fed := decoder.feed FrameReader.new chunks
    fed.1.flatten = payloads.map Payload.bytes ∧ fed.2 = FrameReader.new ∧
      (∀ k, (fed.1.take k).flatten =
        (arrived Payload.encode (chunks.take k).flatten.length payloads).map Payload.bytes) ∧
      ∀ buf frame rest, nextFrame buf = some (frame, rest) → ∃ header,
        buf = header ++ terminator ++ frame ++ rest ∧ contentLength header = some frame.length := by
  have hall : chunks.flatten = encodeAll Payload.encode payloads := by
    rw [hstream, encodeAll, List.flatMap_def]
  obtain ⟨htaken, hrest⟩ := feed_encodeAll reads_payloads hall
  refine ⟨htaken, hrest, ?_, fun buf frame rest h => nextFrame_eq_some h⟩
  intro k
  have hprefix : (chunks.take k).flatten <+: encodeAll Payload.encode payloads := by
    rw [← hall]
    refine ⟨(chunks.drop k).flatten, ?_⟩
    rw [← List.flatten_append, List.take_append_drop]
  rw [← decoder.feed_take]
  exact (feed_eq reads_payloads hprefix).1

/-- An empty payload and one that looks like a header, divided in the middle of a header. -/
theorem frames_round_trip_divided :
    let chunks := [asciiBytes "Content-Length: 0\r\n\r".toList,
      asciiBytes "\nContent-Length: 5\r\n\r\nA\r\n\r\n".toList]
    let fed := decoder.feed FrameReader.new chunks
    fed.1.flatten = [[], [65, 13, 10, 13, 10]] ∧ fed.2 = [] := by
  have hround := frames_round_trip [⟨[], Nat.zero_le _⟩, ⟨[65, 13, 10, 13, 10], by decide⟩]
    [asciiBytes "Content-Length: 0\r\n\r".toList,
      asciiBytes "\nContent-Length: 5\r\n\r\nA\r\n\r\n".toList] (by decide +kernel)
  exact ⟨hround.1, hround.2.1⟩

end Vanyline.Sandbox.Framing
