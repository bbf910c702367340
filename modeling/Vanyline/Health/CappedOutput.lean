import Vanyline.Lib.Chunks
import Vanyline.Lib.Utf8

/-!
# Output files with a ceiling

`writeCapped` copies what a check prints to a file.  It keeps the first `cap` bytes, writes one
line that says that the rest is missing, and goes on reading, so that the command is not stopped by
a pipe that is full.

The bytes are counted in a `usize` that stays at its maximum when it is reached.  As long as the
counter is right, the file holds the beginning of the stream and the line, however the stream comes
in chunks (`copyOver_below`, `copyOver_crossing`).  A counter at its maximum exceeds no ceiling:
`capped_iff` says for which streams and ceilings that can be seen.
-/

namespace Vanyline.Health.CappedOutput

open Vanyline.Lib TextLines Utf8 Chunks

/-- The targets differ in what a `usize` can hold. -/
inductive Target where
  | bits32
  | bits64
deriving DecidableEq

def Target.usizeMax : Target → Nat
  | .bits32 => UInt32.size - 1
  | .bits64 => UInt64.size - 1

/-- `saturating_add` of `usize`. -/
def Target.satAdd (t : Target) (a b : Nat) : Nat := min (a + b) t.usizeMax

/-- `usize::try_from(cap).unwrap_or(usize::MAX)`. -/
def capBytes (t : Target) (cap : UInt64) : Nat :=
  if cap.toNat ≤ t.usizeMax then cap.toNat else t.usizeMax

/-- The bytes that a buffer takes at once. -/
def bufferLen : Nat := 64 * 1024

def marker (cap : UInt64) : Bytes :=
  encode ("\n[TRONQUÉ — sortie plafonnée à ".toList ++ Nat.toDigits 10 cap.toNat ++
    " octets]\n".toList)

/-- `report_io_msg`: the text of `HealthError::ReportIo`. -/
def reportIoMsg (path source : Text) : Text :=
  "VNL-HLT-006: report I/O error on ".toList ++ path ++ ": ".toList ++ source

/-- `write_all` on a file with some content: what is in it afterwards, and the error if one
occurred. -/
abbrev Disk := Bytes → Bytes → Bytes × Option Text

/-- What the calls of `read` give, one after the other.  No byte at all is the end. -/
abbrev Reads := List (Except Text Bytes)

structure Copy where
  file : Bytes
  written : Nat
  truncated : Bool
deriving DecidableEq

structure Outcome where
  file : Bytes
  unread : Reads
  result : Except Text Unit
deriving DecidableEq

/-! ## The loop -/

/-- The first of the two writes of a turn: what of the chunk is below the ceiling. -/
def keepBytes (t : Target) (disk : Disk) (take : Nat) (copy : Copy) (chunk : Bytes) :
    Copy × Option Text :=
  let keep := chunk.length - take
  if 0 < keep then
    let wrote := disk copy.file (chunk.take keep)
    ({ copy with
        file := wrote.1
        written := if wrote.2 = none then t.satAdd copy.written keep else copy.written },
      wrote.2)
  else (copy, none)

/-- The second: the line that says that there was more. -/
def markTruncated (disk : Disk) (cap : UInt64) (take : Nat) (copy : Copy) : Copy × Option Text :=
  if 0 < take then
    let wrote := disk copy.file (marker cap)
    ({ copy with file := wrote.1, truncated := true }, wrote.2)
  else (copy, none)

/-- What the loop does with a chunk that is not empty. -/
def copyChunk (t : Target) (disk : Disk) (cap : UInt64) (copy : Copy) (chunk : Bytes) :
    Copy × Option Text :=
  if copy.truncated then (copy, none)
  else
    let take := t.satAdd copy.written chunk.length - capBytes t cap
    let kept := keepBytes t disk take copy chunk
    if kept.2 = none then markTruncated disk cap take kept.1 else kept

def copyLoop (t : Target) (disk : Disk) (path : Text) (cap : UInt64) (copy : Copy) :
    Reads → Outcome
  | [] => ⟨copy.file, [], .ok ()⟩
  | .error source :: reads => ⟨copy.file, reads, .error (reportIoMsg path source)⟩
  | .ok chunk :: reads =>
    if chunk = [] then ⟨copy.file, reads, .ok ()⟩
    else
      let copied := copyChunk t disk cap copy chunk
      match copied.2 with
      | none => copyLoop t disk path cap copied.1 reads
      | some source => ⟨copied.1.file, reads, .error (reportIoMsg path source)⟩

/-- `write_capped` into a file that has been created. -/
def writeCapped (t : Target) (disk : Disk) (path : Text) (cap : UInt64) (reads : Reads) : Outcome :=
  copyLoop t disk path cap ⟨[], 0, false⟩ reads

/-- Every error of a copy names the file. -/
theorem writeCapped_error {t : Target} {disk : Disk} {path message : Text} {cap : UInt64}
    {reads : Reads} (h : (writeCapped t disk path cap reads).result = .error message) :
    ∃ source, message = reportIoMsg path source := by
  unfold writeCapped at h
  generalize (⟨[], 0, false⟩ : Copy) = copy at h
  induction reads generalizing copy with
  | nil => cases h
  | cons read reads ih =>
    rcases read with source | chunk
    · exact ⟨source, (Except.error.inj h).symm⟩
    · rw [copyLoop] at h
      by_cases hempty : chunk = []
      · rw [if_pos hempty] at h
        cases h
      · rw [if_neg hempty] at h
        rcases hcopied : (copyChunk t disk cap copy chunk).2 with _ | source
        · simp only [hcopied] at h
          exact ih _ h
        · simp only [hcopied] at h
          exact ⟨source, (Except.error.inj h).symm⟩

/-! ## Copies without an error -/

/-- A file that takes what is written to it. -/
def plainFile : Disk := fun content bytes => (content ++ bytes, none)

/-- What `Handles` promises of the file: the first bytes, and the line if there were more. -/
def capped (cap : UInt64) (stream : Bytes) : Bytes :=
  stream.take cap.toNat ++ if cap.toNat < stream.length then marker cap else []

def copyOver (t : Target) (cap : UInt64) (copy : Copy) (chunks : List Bytes) : Copy :=
  chunks.foldl (fun copy chunk => (copyChunk t plainFile cap copy chunk).1) copy

theorem copyChunk_plain (t : Target) (cap : UInt64) (copy : Copy) (chunk : Bytes) :
    (copyChunk t plainFile cap copy chunk).2 = none := by
  have hkept : ∀ take, (keepBytes t plainFile take copy chunk).2 = none := by
    intro take
    unfold keepBytes
    dsimp only
    split
    · rfl
    · rfl
  unfold copyChunk
  split
  · rfl
  · dsimp only
    rw [if_pos (hkept _)]
    unfold markTruncated
    split
    · rfl
    · rfl

/-- The stream is read to its end. -/
theorem copyLoop_plain {t : Target} {path : Text} {cap : UInt64} {chunks : List Bytes}
    (h : ∀ chunk ∈ chunks, chunk ≠ []) (copy : Copy) :
    copyLoop t plainFile path cap copy (chunks.map .ok) =
      ⟨(copyOver t cap copy chunks).file, [], .ok ()⟩ := by
  induction chunks generalizing copy with
  | nil => rfl
  | cons chunk chunks ih =>
    rw [List.map_cons, copyLoop, if_neg (h chunk List.mem_cons_self)]
    simp only [copyChunk_plain]
    exact ih (fun later hmem => h later (List.mem_cons_of_mem _ hmem)) _

theorem capBytes_le (t : Target) (cap : UInt64) : capBytes t cap ≤ t.usizeMax := by
  unfold capBytes
  split
  · assumption
  · exact Nat.le_refl _

theorem capBytes_of_lt {t : Target} {cap : UInt64} (h : cap.toNat < t.usizeMax) :
    capBytes t cap = cap.toNat := if_pos (by omega)

theorem capBytes_of_le {t : Target} {cap : UInt64} (h : t.usizeMax ≤ cap.toNat) :
    capBytes t cap = t.usizeMax := by
  unfold capBytes
  split
  · omega
  · rfl

/-- A chunk below the ceiling is copied. -/
theorem copyChunk_below {t : Target} {cap : UInt64} {file chunk : Bytes} {written : Nat}
    (hnonempty : chunk ≠ []) (h : t.satAdd written chunk.length ≤ capBytes t cap) :
    (copyChunk t plainFile cap ⟨file, written, false⟩ chunk).1 =
      ⟨file ++ chunk, t.satAdd written chunk.length, false⟩ := by
  have htake : t.satAdd written chunk.length - capBytes t cap = 0 := by omega
  have hpos : 0 < chunk.length := List.length_pos_iff.2 hnonempty
  simp only [copyChunk, htake, keepBytes, Nat.sub_zero, if_pos hpos, plainFile, List.take_length,
    markTruncated, Nat.lt_irrefl, if_false, if_true, Bool.false_eq_true]

theorem keepBytes_plain (t : Target) (take : Nat) (copy : Copy) (chunk : Bytes) :
    (keepBytes t plainFile take copy chunk).2 = none ∧
      (keepBytes t plainFile take copy chunk).1.file =
        copy.file ++ chunk.take (chunk.length - take) := by
  by_cases hkeep : 0 < chunk.length - take
  · simp only [keepBytes, if_pos hkeep, plainFile, and_self]
  · have hzero : chunk.length - take = 0 := by omega
    simp only [keepBytes, hzero, Nat.lt_irrefl, if_false, List.take_zero, List.append_nil, and_self]

/-- Of a chunk that crosses the ceiling the beginning is copied, and the line is added. -/
theorem copyChunk_above {t : Target} {cap : UInt64} {file chunk : Bytes} {written : Nat}
    (h : capBytes t cap < t.satAdd written chunk.length) :
    let copied := (copyChunk t plainFile cap ⟨file, written, false⟩ chunk).1
    copied.truncated = true ∧ copied.file =
      file ++ chunk.take (chunk.length - (t.satAdd written chunk.length - capBytes t cap)) ++
        marker cap := by
  have htake : 0 < t.satAdd written chunk.length - capBytes t cap := by omega
  obtain ⟨hnone, hfile⟩ := keepBytes_plain t (t.satAdd written chunk.length - capBytes t cap)
    ⟨file, written, false⟩ chunk
  simp only [copyChunk, Bool.false_eq_true, if_false, hnone, if_true, markTruncated, if_pos htake,
    plainFile, true_and]
  exact congrArg (· ++ marker cap) hfile

theorem copyOver_append (t : Target) (cap : UInt64) (copy : Copy) (earlier later : List Bytes) :
    copyOver t cap copy (earlier ++ later) = copyOver t cap (copyOver t cap copy earlier) later :=
  List.foldl_append

/-- After the line nothing is written. -/
theorem copyOver_truncated {t : Target} {cap : UInt64} {copy : Copy} (h : copy.truncated = true)
    (chunks : List Bytes) : copyOver t cap copy chunks = copy := by
  induction chunks with
  | nil => rfl
  | cons chunk chunks ih =>
    have hsame : (copyChunk t plainFile cap copy chunk).1 = copy := by
      rw [copyChunk, if_pos h]
    show copyOver t cap (copyChunk t plainFile cap copy chunk).1 chunks = copy
    rw [hsame, ih]

/-- Below the ceiling everything is written, and the counter is right. -/
theorem copyOver_below {t : Target} {cap : UInt64} {chunks : List Bytes} {file : Bytes}
    {written : Nat} (hnonempty : ∀ chunk ∈ chunks, chunk ≠ [])
    (h : written + chunks.flatten.length ≤ capBytes t cap) :
    copyOver t cap ⟨file, written, false⟩ chunks =
      ⟨file ++ chunks.flatten, written + chunks.flatten.length, false⟩ := by
  induction chunks generalizing file written with
  | nil => rw [List.flatten_nil, List.append_nil]; rfl
  | cons chunk chunks ih =>
    rw [List.flatten_cons, List.length_append] at h
    have hmax := capBytes_le t cap
    have hcount : t.satAdd written chunk.length = written + chunk.length :=
      Nat.min_eq_left (by omega)
    show copyOver t cap (copyChunk t plainFile cap ⟨file, written, false⟩ chunk).1 chunks = _
    rw [copyChunk_below (hnonempty chunk List.mem_cons_self) (by omega), hcount,
      ih (fun later hmem => hnonempty later (List.mem_cons_of_mem _ hmem)) (by omega),
      List.flatten_cons, List.length_append, List.append_assoc, Nat.add_assoc]

/-- A ceiling that the counter cannot exceed is none. -/
theorem copyOver_unlimited {t : Target} {cap : UInt64} (hcap : t.usizeMax ≤ cap.toNat)
    {chunks : List Bytes} (hnonempty : ∀ chunk ∈ chunks, chunk ≠ []) (file : Bytes)
    (written : Nat) :
    (copyOver t cap ⟨file, written, false⟩ chunks).file = file ++ chunks.flatten := by
  induction chunks generalizing file written with
  | nil => exact (List.append_nil file).symm
  | cons chunk chunks ih =>
    show (copyOver t cap (copyChunk t plainFile cap ⟨file, written, false⟩ chunk).1 chunks).file = _
    have hcount : t.satAdd written chunk.length ≤ capBytes t cap := by
      rw [capBytes_of_le hcap]
      exact Nat.min_le_right ..
    rw [copyChunk_below (hnonempty chunk List.mem_cons_self) hcount,
      ih (fun later hmem => hnonempty later (List.mem_cons_of_mem _ hmem)),
      List.flatten_cons, List.append_assoc]

/-- The chunk that crosses the ceiling: what the counter misses of it is written too. -/
theorem copyOver_crossing {t : Target} {cap : UInt64} {earlier later : List Bytes} {chunk : Bytes}
    (hnonempty : ∀ chunk ∈ earlier, chunk ≠ []) (hcap : cap.toNat < t.usizeMax)
    (hbelow : earlier.flatten.length ≤ cap.toNat)
    (hcross : cap.toNat < earlier.flatten.length + chunk.length) :
    (copyOver t cap ⟨[], 0, false⟩ (earlier ++ chunk :: later)).file =
      earlier.flatten ++ chunk.take (chunk.length -
        (t.satAdd earlier.flatten.length chunk.length - cap.toNat)) ++ marker cap := by
  have hbytes := capBytes_of_lt hcap
  have habove : capBytes t cap < t.satAdd earlier.flatten.length chunk.length := by
    rw [hbytes]
    exact Nat.lt_min.2 ⟨hcross, hcap⟩
  obtain ⟨htruncated, hfile⟩ := @copyChunk_above t cap earlier.flatten chunk _ habove
  rw [copyOver_append, copyOver_below hnonempty (by rw [hbytes]; omega), List.nil_append,
    Nat.zero_add]
  show (copyOver t cap (copyChunk t plainFile cap ⟨earlier.flatten, earlier.flatten.length, false⟩
    chunk).1 later).file = _
  rw [copyOver_truncated htruncated, hfile, hbytes]

/-! ## Every way to divide the stream -/

theorem writeCapped_plain {t : Target} {path : Text} {cap : UInt64} {stream : Bytes}
    {chunks : List Bytes} (h : Divides bufferLen stream chunks) :
    writeCapped t plainFile path cap (chunks.map .ok) =
      ⟨(copyOver t cap ⟨[], 0, false⟩ chunks).file, [], .ok ()⟩ :=
  copyLoop_plain h.nonempty _

theorem length_capped {cap : UInt64} {stream : Bytes} (h : cap.toNat < stream.length) :
    (capped cap stream).length = cap.toNat + (marker cap).length := by
  rw [capped, if_pos h, List.length_append, List.length_take, Nat.min_eq_left (by omega)]

theorem capped_of_le {cap : UInt64} {stream : Bytes} (h : stream.length ≤ cap.toNat) :
    capped cap stream = stream := by
  rw [capped, if_neg (by omega), List.append_nil, List.take_of_length_le h]

/-- A counter that has room for the chunk that crosses the ceiling is right. -/
theorem copyOver_exact {t : Target} {cap : UInt64} {stream : Bytes} {chunks : List Bytes}
    (h : Divides bufferLen stream chunks) (hcap : cap.toNat < t.usizeMax)
    (hroom : stream.length ≤ t.usizeMax ∨ cap.toNat + bufferLen ≤ t.usizeMax) :
    (copyOver t cap ⟨[], 0, false⟩ chunks).file = capped cap stream := by
  by_cases hle : stream.length ≤ cap.toNat
  · have hbelow : 0 + chunks.flatten.length ≤ capBytes t cap := by
      rw [capBytes_of_lt hcap, h.flatten, Nat.zero_add]
      exact hle
    rw [copyOver_below h.nonempty hbelow, capped_of_le hle, h.flatten, List.nil_append]
  · have hin : cap.toNat < chunks.flatten.length := by
      rw [h.flatten]
      omega
    obtain ⟨earlier, chunk, later, rfl, hbelow, hcross⟩ := exists_crossing hin
    have hmem : chunk ∈ earlier ++ chunk :: later :=
      List.mem_append_right _ List.mem_cons_self
    have hbounded := h.bounded chunk hmem
    have hstream : stream = earlier.flatten ++ (chunk ++ later.flatten) := by
      rw [← h.flatten, List.flatten_append, List.flatten_cons]
    have hlength : stream.length =
        earlier.flatten.length + (chunk.length + later.flatten.length) := by
      rw [hstream, List.length_append, List.length_append]
    have hcount : t.satAdd earlier.flatten.length chunk.length =
        earlier.flatten.length + chunk.length := Nat.min_eq_left (by omega)
    have hkept : chunk.length - (earlier.flatten.length + chunk.length - cap.toNat) =
        cap.toNat - earlier.flatten.length := by omega
    have htake : stream.take cap.toNat =
        earlier.flatten ++ chunk.take (cap.toNat - earlier.flatten.length) := by
      rw [hstream, List.take_append, List.take_of_length_le hbelow,
        List.take_append_of_le_length (by omega)]
    rw [copyOver_crossing (fun c hc => h.nonempty c (List.mem_append_left _ hc)) hcap hbelow hcross,
      hcount, hkept, capped, if_pos (by omega), htake]

/-- A division with a chunk that fills the counter to its maximum: one byte too many is kept. -/
theorem exists_overcopied {t : Target} {cap : UInt64} {stream : Bytes}
    (hcap : cap.toNat < t.usizeMax) (hlong : t.usizeMax < stream.length)
    (hnear : t.usizeMax < cap.toNat + bufferLen) :
    ∃ chunks, Divides bufferLen stream chunks ∧
      (copyOver t cap ⟨[], 0, false⟩ chunks).file ≠ capped cap stream := by
  let front := stream.take cap.toNat
  let crossing := (stream.drop cap.toNat).take (t.usizeMax + 1 - cap.toNat)
  let back := (stream.drop cap.toNat).drop (t.usizeMax + 1 - cap.toNat)
  have hfront : front.length = cap.toNat := by
    rw [List.length_take]
    omega
  have hcrossing : crossing.length = t.usizeMax + 1 - cap.toNat := by
    rw [List.length_take, List.length_drop]
    omega
  have hstream : stream = front ++ (crossing ++ back) := by
    rw [List.take_append_drop, List.take_append_drop]
  have hbuffer : 0 < bufferLen := by decide
  have hone : Divides bufferLen crossing [crossing] := by
    apply divides_single
    · exact List.length_pos_iff.1 (by omega)
    · omega
  have hsingles := divides_singletons hbuffer front
  refine ⟨front.map (fun b => [b]) ++ crossing :: back.map (fun b => [b]), ?_, ?_⟩
  · rw [hstream]
    exact hsingles.append (hone.append (divides_singletons hbuffer back))
  · intro heq
    have hflat : (front.map fun b => [b]).flatten = front := hsingles.flatten
    have hcount : t.satAdd front.length crossing.length = t.usizeMax :=
      Nat.min_eq_right (by omega)
    rw [copyOver_crossing hsingles.nonempty hcap (by rw [hflat]; omega) (by rw [hflat]; omega),
      hflat, hcount] at heq
    have htaken : (crossing.take (crossing.length - (t.usizeMax - cap.toNat))).length = 1 := by
      rw [List.length_take, hcrossing]
      omega
    have hlength := congrArg List.length heq
    rw [length_capped (by omega), List.length_append, List.length_append, htaken, hfront] at hlength
    omega

/-- The file holds what it should, for every division of the stream, exactly if the stream or the
ceiling leave the counter room, or what is behind the ceiling happens to be the line itself. -/
theorem capped_iff (t : Target) (path : Text) (cap : UInt64) (stream : Bytes) :
    (∀ chunks, Divides bufferLen stream chunks →
      writeCapped t plainFile path cap (chunks.map .ok) = ⟨capped cap stream, [], .ok ()⟩) ↔
    stream.length ≤ cap.toNat ∨ stream.length ≤ t.usizeMax ∨
      cap.toNat + bufferLen ≤ t.usizeMax ∨
      t.usizeMax ≤ cap.toNat ∧ stream.drop cap.toNat = marker cap := by
  constructor
  · intro hall
    by_cases hshort : stream.length ≤ cap.toNat ∨ stream.length ≤ t.usizeMax
    · omega
    by_cases hcap : cap.toNat < t.usizeMax
    · by_cases hnear : cap.toNat + bufferLen ≤ t.usizeMax
      · omega
      · obtain ⟨chunks, hdivides, hne⟩ : ∃ chunks, Divides bufferLen stream chunks ∧
            (copyOver t cap ⟨[], 0, false⟩ chunks).file ≠ capped cap stream :=
          exists_overcopied hcap (by omega) (by omega)
        have heq := hall chunks hdivides
        rw [writeCapped_plain hdivides] at heq
        exact absurd (congrArg Outcome.file heq) hne
    · have hdivides : Divides bufferLen stream _ := divides_singletons (by decide) stream
      have heq := hall _ hdivides
      rw [writeCapped_plain hdivides] at heq
      have hfile : stream = stream.take cap.toNat ++ marker cap := by
        have hcopied := congrArg Outcome.file heq
        rwa [copyOver_unlimited (by omega) hdivides.nonempty, hdivides.flatten, List.nil_append,
          capped, if_pos (by omega)] at hcopied
      have hdrop : stream.drop cap.toNat = marker cap := by
        rw [← List.append_cancel_left_eq (stream.take cap.toNat), List.take_append_drop]
        exact hfile
      exact Or.inr (Or.inr (Or.inr ⟨by omega, hdrop⟩))
  · intro hcond chunks hdivides
    rw [writeCapped_plain hdivides]
    congr 1
    by_cases hcap : cap.toNat < t.usizeMax
    · apply copyOver_exact hdivides hcap
      rcases hcond with h | h | h | ⟨h, -⟩
      · omega
      · omega
      · omega
      · omega
    · rw [copyOver_unlimited (by omega) hdivides.nonempty, hdivides.flatten, List.nil_append]
      by_cases hle : stream.length ≤ cap.toNat
      · rw [capped_of_le hle]
      · have hbuffer : 0 < bufferLen := by decide
        have hdrop : stream.drop cap.toNat = marker cap := by
          rcases hcond with h | h | h | h
          · omega
          · omega
          · omega
          · exact h.2
        rw [capped, if_pos (by omega), ← hdrop, List.take_append_drop]

/-- With a `usize` of 32 bits, a ceiling of 4 GiB does not stop a stream that is one byte longer. -/
theorem capped_missed :
    ¬ ∀ (t : Target) (path : Text) (cap : UInt64) (stream : Bytes) (chunks : List Bytes),
      Divides bufferLen stream chunks →
      writeCapped t plainFile path cap (chunks.map .ok) = ⟨capped cap stream, [], .ok ()⟩ := by
  intro hall
  let cap : UInt64 := 4294967296
  let stream : Bytes := List.replicate 4294967297 0
  have hdivides : Divides bufferLen stream _ := divides_singletons (by decide) stream
  have heq := hall .bits32 [] cap stream _ hdivides
  have hlen : stream.length = 4294967297 := List.length_replicate
  have hcap : cap.toNat = 4294967296 := rfl
  have hmax : Target.usizeMax .bits32 ≤ cap.toNat := by
    rw [hcap]
    decide
  rw [writeCapped_plain hdivides] at heq
  have hfile := congrArg Outcome.file heq
  rw [copyOver_unlimited hmax hdivides.nonempty, hdivides.flatten, List.nil_append] at hfile
  have hlength := congrArg List.length hfile
  rw [length_capped (by omega), hlen, hcap] at hlength
  have hmarker : (marker cap).length = 55 := by decide
  omega

end Vanyline.Health.CappedOutput
