import Vanyline.Lib.TextLines

/-!
# UTF-8

`decode` reads bytes that must be valid, and `fromUtf8Lossy` reads any bytes.  Both go by the table
of well-formed sequences: how many bytes the first one announces, and which second bytes it allows.
-/

namespace Vanyline.Lib.Utf8

open TextLines

abbrev Bytes := List UInt8

def encode (text : Text) : Bytes := text.flatMap String.utf8EncodeChar

/-- The bytes of a text of ASCII characters. -/
def asciiBytes (text : Text) : Bytes := text.map fun c => UInt8.ofNat c.toNat

def replacement : Char := '\uFFFD'

def isContinuation (b : UInt8) : Bool := b &&& 0xC0 == 0x80

/-- The second bytes that a first byte of a sequence of three or four allows. -/
def allowsSecond (b second : UInt8) : Bool :=
  if b = 0xE0 then 0xA0 ≤ second && second ≤ 0xBF
  else if b = 0xED then 0x80 ≤ second && second ≤ 0x9F
  else if b = 0xF0 then 0x90 ≤ second && second ≤ 0xBF
  else if b = 0xF4 then 0x80 ≤ second && second ≤ 0x8F
  else isContinuation second

/-- The character of a sequence: the bits of the first byte and of the continuations. -/
def charOf (first : Nat) (continuations : Bytes) : Char :=
  Char.ofNat (continuations.foldl (fun n b => n * 64 + (b.toNat - 0x80)) first)

/-- `String::from_utf8`. -/
def decode : Bytes → Option Text
  | [] => some []
  | b :: bytes =>
    if b < 0x80 then (decode bytes).map (Char.ofNat b.toNat :: ·)
    else if 0xC2 ≤ b && b ≤ 0xDF then
      match bytes with
      | b₁ :: rest =>
        if isContinuation b₁ then (decode rest).map (charOf (b.toNat - 0xC0) [b₁] :: ·) else none
      | [] => none
    else if 0xE0 ≤ b && b ≤ 0xEF then
      match bytes with
      | b₁ :: b₂ :: rest =>
        if allowsSecond b b₁ && isContinuation b₂ then
          (decode rest).map (charOf (b.toNat - 0xE0) [b₁, b₂] :: ·)
        else none
      | _ => none
    else if 0xF0 ≤ b && b ≤ 0xF4 then
      match bytes with
      | b₁ :: b₂ :: b₃ :: rest =>
        if allowsSecond b b₁ && isContinuation b₂ && isContinuation b₃ then
          (decode rest).map (charOf (b.toNat - 0xF0) [b₁, b₂, b₃] :: ·)
        else none
      | _ => none
    else none

/-- `String::from_utf8_lossy`: the longest beginning of a sequence that does not go on as it should
becomes one replacement character. -/
def fromUtf8Lossy : Bytes → Text
  | [] => []
  | b :: bytes =>
    if b < 0x80 then Char.ofNat b.toNat :: fromUtf8Lossy bytes
    else if 0xC2 ≤ b && b ≤ 0xDF then
      match bytes with
      | [] => [replacement]
      | b₁ :: rest =>
        if isContinuation b₁ then charOf (b.toNat - 0xC0) [b₁] :: fromUtf8Lossy rest
        else replacement :: fromUtf8Lossy (b₁ :: rest)
    else if 0xE0 ≤ b && b ≤ 0xEF then
      match bytes with
      | [] => [replacement]
      | [b₁] =>
        if allowsSecond b b₁ then [replacement] else replacement :: fromUtf8Lossy [b₁]
      | b₁ :: b₂ :: rest =>
        if !allowsSecond b b₁ then replacement :: fromUtf8Lossy (b₁ :: b₂ :: rest)
        else if !isContinuation b₂ then replacement :: fromUtf8Lossy (b₂ :: rest)
        else charOf (b.toNat - 0xE0) [b₁, b₂] :: fromUtf8Lossy rest
    else if 0xF0 ≤ b && b ≤ 0xF4 then
      match bytes with
      | [] => [replacement]
      | [b₁] =>
        if allowsSecond b b₁ then [replacement] else replacement :: fromUtf8Lossy [b₁]
      | [b₁, b₂] =>
        if !allowsSecond b b₁ then replacement :: fromUtf8Lossy [b₁, b₂]
        else if !isContinuation b₂ then replacement :: fromUtf8Lossy [b₂]
        else [replacement]
      | b₁ :: b₂ :: b₃ :: rest =>
        if !allowsSecond b b₁ then replacement :: fromUtf8Lossy (b₁ :: b₂ :: b₃ :: rest)
        else if !isContinuation b₂ then replacement :: fromUtf8Lossy (b₂ :: b₃ :: rest)
        else if !isContinuation b₃ then replacement :: fromUtf8Lossy (b₃ :: rest)
        else charOf (b.toNat - 0xF0) [b₁, b₂, b₃] :: fromUtf8Lossy rest
    else replacement :: fromUtf8Lossy bytes

example : decode [0xC3, 0xA9, 0xF0, 0x9F, 0xA6, 0x80] = some ['é', '🦀'] := by decide

example : fromUtf8Lossy [0xE2, 0x82, 0x41, 0xFF] = [replacement, 'A', replacement] := by decide

theorem fromUtf8Lossy_of_lt {b : UInt8} (h : b < 0x80) (bytes : Bytes) :
    fromUtf8Lossy (b :: bytes) = Char.ofNat b.toNat :: fromUtf8Lossy bytes := by
  rw [fromUtf8Lossy.eq_def]
  exact if_pos h

theorem fromUtf8Lossy_asciiBytes {text : Text} (h : ∀ c ∈ text, c.toNat < 128) :
    fromUtf8Lossy (asciiBytes text) = text := by
  induction text with
  | nil => rfl
  | cons c text ih =>
    have hc := h c (List.mem_cons_self ..)
    have hbyte : (UInt8.ofNat c.toNat).toNat = c.toNat := by
      rw [UInt8.toNat_ofNat']
      omega
    have hlt : UInt8.ofNat c.toNat < 0x80 := by
      rw [UInt8.lt_iff_toNat_lt, hbyte]
      exact hc
    show fromUtf8Lossy (UInt8.ofNat c.toNat :: asciiBytes text) = _
    rw [fromUtf8Lossy_of_lt hlt, hbyte, Char.ofNat_toNat,
      ih fun d hd => h d (List.mem_cons_of_mem _ hd)]

end Vanyline.Lib.Utf8
