import Mathlib.Data.List.Basic

/-!
# Decoding a stream that comes in chunks

A `Decoder` takes the first message from a buffer, or says that there is none yet.  `drain` takes
messages as long as there are any, and `feed` appends the chunks to the buffer one after the other
and drains it after each.

A decoder reads an encoding (`Reads`) if it takes a message whose symbols are all there, whatever
is behind it, and takes nothing from a beginning of one.  Then, however the stream is divided,

* what has been taken after some chunks are the messages that have come completely, and the
  buffer is what has come of the next one (`feed_eq`);
* the whole stream gives back all messages and an empty buffer (`feed_encodeAll`).

`Divides` says which divisions a reader with a buffer of a given size can make of a stream.
-/

namespace Vanyline.Lib.Chunks

variable {β γ μ : Type}

/-! ## Dividing a stream -/

/-- The chunks that a reader gets of a stream: none is empty, and each has room in its buffer. -/
structure Divides (room : Nat) (stream : List β) (chunks : List (List β)) : Prop where
  nonempty : ∀ chunk ∈ chunks, chunk ≠ []
  bounded : ∀ chunk ∈ chunks, chunk.length ≤ room
  flatten : chunks.flatten = stream

theorem divides_single {room : Nat} {stream : List β} (h : stream ≠ [])
    (hroom : stream.length ≤ room) : Divides room stream [stream] := by
  refine ⟨?_, ?_, List.flatten_singleton⟩
  · intro chunk hmem
    rw [List.mem_singleton.1 hmem]
    exact h
  · intro chunk hmem
    rw [List.mem_singleton.1 hmem]
    exact hroom

theorem Divides.append {room : Nat} {front back : List β} {chunks later : List (List β)}
    (h : Divides room front chunks) (hlater : Divides room back later) :
    Divides room (front ++ back) (chunks ++ later) := by
  refine ⟨?_, ?_, by rw [List.flatten_append, h.flatten, hlater.flatten]⟩
  · intro chunk hmem
    rcases List.mem_append.1 hmem with hmem | hmem
    · exact h.nonempty chunk hmem
    · exact hlater.nonempty chunk hmem
  · intro chunk hmem
    rcases List.mem_append.1 hmem with hmem | hmem
    · exact h.bounded chunk hmem
    · exact hlater.bounded chunk hmem

/-- A stream can come one by one. -/
theorem divides_singletons {room : Nat} (hroom : 0 < room) (stream : List β) :
    Divides room stream (stream.map fun b => [b]) := by
  induction stream with
  | nil =>
    refine ⟨?_, ?_, rfl⟩
    · intro chunk hmem
      cases hmem
    · intro chunk hmem
      cases hmem
  | cons b stream ih => exact (divides_single (List.cons_ne_nil b []) hroom).append ih

/-- A place in a stream is in one of its chunks. -/
theorem exists_crossing {chunks : List (List β)} {n : Nat} (h : n < chunks.flatten.length) :
    ∃ earlier chunk later, chunks = earlier ++ chunk :: later ∧ earlier.flatten.length ≤ n ∧
      n < earlier.flatten.length + chunk.length := by
  induction chunks generalizing n with
  | nil => exact absurd h (Nat.not_lt_zero n)
  | cons chunk chunks ih =>
    rw [List.flatten_cons, List.length_append] at h
    by_cases hin : n < chunk.length
    · refine ⟨[], chunk, chunks, rfl, Nat.zero_le n, ?_⟩
      rw [List.flatten_nil, List.length_nil]
      omega
    · obtain ⟨earlier, crossing, later, heq, hle, hlt⟩ := ih (n := n - chunk.length) (by omega)
      refine ⟨chunk :: earlier, crossing, later, by rw [heq, List.cons_append], ?_, ?_⟩
      · rw [List.flatten_cons, List.length_append]
        omega
      · rw [List.flatten_cons, List.length_append]
        omega

/-! ## Decoders -/

structure Decoder (β γ : Type) where
  next : List β → Option (γ × List β)
  shrinks : ∀ buf value rest, next buf = some (value, rest) → rest.length < buf.length

namespace Decoder

variable (d : Decoder β γ)

/-- Take messages until there is none. -/
def drain (buf : List β) : List γ × List β :=
  match _h : d.next buf with
  | none => ([], buf)
  | some (value, rest) => (value :: (drain rest).1, (drain rest).2)
termination_by buf.length
decreasing_by all_goals exact d.shrinks _ _ _ _h

/-- Push the chunks, and drain the buffer after each: what each of them gave, and what is left. -/
def feed (buf : List β) : List (List β) → List (List γ) × List β
  | [] => ([], buf)
  | chunk :: chunks =>
    let drained := d.drain (buf ++ chunk)
    let fed := feed drained.2 chunks
    (drained.1 :: fed.1, fed.2)

theorem drain_of_none {buf : List β} (h : d.next buf = none) : d.drain buf = ([], buf) := by
  rw [drain]
  split
  · rfl
  · rename_i hnext
    rw [h] at hnext
    cases hnext

theorem drain_of_some {buf rest : List β} {value : γ} (h : d.next buf = some (value, rest)) :
    d.drain buf = (value :: (d.drain rest).1, (d.drain rest).2) := by
  rw [drain]
  split
  · rename_i hnext
    rw [h] at hnext
    cases hnext
  · rename_i hnext
    rw [h] at hnext
    cases hnext
    rfl

theorem next_nil : d.next [] = none := by
  cases h : d.next [] with
  | none => rfl
  | some result => exact absurd (d.shrinks _ _ _ h) (Nat.not_lt_zero _)

@[simp] theorem feed_nil (buf : List β) : d.feed buf [] = ([], buf) := rfl

theorem feed_cons (buf chunk : List β) (chunks : List (List β)) :
    d.feed buf (chunk :: chunks) =
      ((d.drain (buf ++ chunk)).1 :: (d.feed (d.drain (buf ++ chunk)).2 chunks).1,
        (d.feed (d.drain (buf ++ chunk)).2 chunks).2) := rfl

/-- What the first chunks give does not depend on the later ones. -/
theorem feed_take (buf : List β) (chunks : List (List β)) (k : Nat) :
    (d.feed buf (chunks.take k)).1 = (d.feed buf chunks).1.take k := by
  induction chunks generalizing buf k with
  | nil => simp
  | cons chunk chunks ih =>
    cases k with
    | zero => rfl
    | succ k => rw [List.take_succ_cons, feed_cons, feed_cons, List.take_succ_cons, ih]

/-- The decoder gives back the values of the messages that were encoded. -/
structure Reads (d : Decoder β γ) (encode : μ → List β) (value : μ → γ) : Prop where
  complete : ∀ message rest, d.next (encode message ++ rest) = some (value message, rest)
  incomplete : ∀ message buf, buf <+: encode message → buf.length < (encode message).length →
    d.next buf = none

end Decoder

/-! ## Streams of messages -/

variable (encode : μ → List β)

def encodeAll (messages : List μ) : List β := messages.flatMap encode

/-- The messages that have come completely with the first `n` symbols of the stream. -/
def arrived : Nat → List μ → List μ
  | _, [] => []
  | n, message :: messages =>
    if (encode message).length ≤ n then
      message :: arrived (n - (encode message).length) messages
    else []

@[simp] theorem encodeAll_nil : encodeAll encode [] = [] := rfl

theorem encodeAll_cons (message : μ) (messages : List μ) :
    encodeAll encode (message :: messages) = encode message ++ encodeAll encode messages :=
  List.flatMap_cons ..

theorem encodeAll_append (messages more : List μ) :
    encodeAll encode (messages ++ more) = encodeAll encode messages ++ encodeAll encode more :=
  List.flatMap_append ..

theorem arrived_of_le {n : Nat} {message : μ} (h : (encode message).length ≤ n)
    (messages : List μ) : arrived encode n (message :: messages) =
      message :: arrived encode (n - (encode message).length) messages := if_pos h

theorem arrived_of_lt {n : Nat} {message : μ} (h : n < (encode message).length)
    (messages : List μ) : arrived encode n (message :: messages) = [] :=
  if_neg (Nat.not_le_of_lt h)

/-- When the whole stream has come, all messages have. -/
theorem arrived_encodeAll (messages : List μ) :
    arrived encode (encodeAll encode messages).length messages = messages := by
  induction messages with
  | nil => rfl
  | cons message messages ih =>
    rw [encodeAll_cons, List.length_append, arrived_of_le encode (Nat.le_add_right _ _),
      Nat.add_sub_cancel_left, ih]

/-- The messages that have come, the others, and what will have come later. -/
theorem exists_arrived_append (n : Nat) (messages : List μ) : ∃ rest,
    messages = arrived encode n messages ++ rest ∧
      (encodeAll encode (arrived encode n messages)).length ≤ n ∧
      ∀ k, arrived encode (n + k) messages = arrived encode n messages ++
        arrived encode (n - (encodeAll encode (arrived encode n messages)).length + k) rest := by
  induction messages generalizing n with
  | nil => exact ⟨[], rfl, Nat.zero_le _, fun _ => rfl⟩
  | cons message messages ih =>
    by_cases hle : (encode message).length ≤ n
    · obtain ⟨rest, heq, hlen, hlater⟩ := ih (n - (encode message).length)
      have harrived := arrived_of_le encode hle messages
      refine ⟨rest, ?_, ?_, ?_⟩
      · rw [harrived, List.cons_append, ← heq]
      · rw [harrived, encodeAll_cons, List.length_append]
        omega
      · intro k
        rw [harrived, arrived_of_le encode (Nat.le_add_right_of_le hle), encodeAll_cons,
          List.length_append, List.cons_append, Nat.sub_add_comm hle, hlater k, Nat.sub_sub]
    · have harrived := arrived_of_lt encode (Nat.lt_of_not_le hle) messages
      refine ⟨message :: messages, by rw [harrived, List.nil_append], ?_, ?_⟩
      · rw [harrived]
        exact Nat.zero_le _
      · intro k
        rw [harrived]
        rfl

/-! ## Feeding a decoder -/

variable {encode} {d : Decoder β γ} {value : μ → γ}

/-- A message has symbols. -/
theorem Decoder.Reads.length_pos (h : d.Reads encode value) (message : μ) :
    0 < (encode message).length := by
  have hlt := d.shrinks _ _ _ (h.complete message [])
  rw [List.append_nil] at hlt
  exact Nat.lt_of_le_of_lt (Nat.zero_le _) hlt

theorem Decoder.Reads.arrived_zero (h : d.Reads encode value) (messages : List μ) :
    arrived encode 0 messages = [] := by
  cases messages with
  | nil => rfl
  | cons message messages => exact arrived_of_lt encode (h.length_pos message) messages

/-- A buffer with the beginning of a stream gives the messages that have come. -/
theorem drain_eq (h : d.Reads encode value) (messages : List μ) {buf : List β}
    (hbuf : buf <+: encodeAll encode messages) :
    d.drain buf = ((arrived encode buf.length messages).map value,
      buf.drop (encodeAll encode (arrived encode buf.length messages)).length) := by
  induction messages generalizing buf with
  | nil =>
    rw [List.prefix_nil.1 hbuf, d.drain_of_none d.next_nil]
    rfl
  | cons message messages ih =>
    have hmessage : encode message <+: encodeAll encode (message :: messages) := by
      rw [encodeAll_cons]
      exact List.prefix_append ..
    by_cases hle : (encode message).length ≤ buf.length
    · obtain ⟨rest, rfl⟩ := List.prefix_of_prefix_length_le hmessage hbuf hle
      have hrest : rest <+: encodeAll encode messages := by
        rw [encodeAll_cons] at hbuf
        exact (List.prefix_append_right_inj _).1 hbuf
      rw [d.drain_of_some (h.complete message rest), ih hrest, arrived_of_le encode hle,
        List.length_append, Nat.add_sub_cancel_left, encodeAll_cons, List.length_append,
        List.drop_length_add_append]
      rfl
    · have hlt := Nat.lt_of_not_le hle
      have hprefix := List.prefix_of_prefix_length_le hbuf hmessage (Nat.le_of_lt hlt)
      rw [d.drain_of_none (h.incomplete message buf hprefix hlt), arrived_of_lt encode hlt]
      rfl

/-- What the chunks give from a buffer that holds no complete message. -/
theorem feed_eq_of_drained (h : d.Reads encode value) (chunks : List (List β)) (buf : List β)
    (messages : List μ) (hdrained : arrived encode buf.length messages = [])
    (hstream : buf ++ chunks.flatten <+: encodeAll encode messages) :
    let come := arrived encode (buf.length + chunks.flatten.length) messages
    (d.feed buf chunks).1.flatten = come.map value ∧
      (d.feed buf chunks).2 = (buf ++ chunks.flatten).drop (encodeAll encode come).length := by
  induction chunks generalizing buf messages with
  | nil => simp [hdrained]
  | cons chunk chunks ih =>
    rw [List.flatten_cons, ← List.append_assoc] at hstream
    have hbuf : buf ++ chunk <+: encodeAll encode messages :=
      (List.prefix_append ..).trans hstream
    obtain ⟨later, heq, hlen, hlater⟩ :=
      exists_arrived_append encode (buf ++ chunk).length messages
    rw [Decoder.feed_cons, drain_eq h messages hbuf]
    generalize hcome : arrived encode (buf ++ chunk).length messages = come at *
    -- The buffer is the messages that have come, and what is left of it.
    have hsplit : encodeAll encode messages = encodeAll encode come ++ encodeAll encode later := by
      rw [heq, encodeAll_append]
    have hcomeBuf : encodeAll encode come <+: buf ++ chunk := by
      apply List.prefix_of_prefix_length_le _ hbuf hlen
      rw [hsplit]
      exact List.prefix_append ..
    obtain ⟨left, hleft⟩ := hcomeBuf
    have hlength : (buf ++ chunk).length = (encodeAll encode come).length + left.length := by
      rw [← hleft, List.length_append]
    have hdrop : (buf ++ chunk).drop (encodeAll encode come).length = left := by
      rw [← hleft, List.drop_left]
    have hleftDrained : arrived encode left.length later = [] := by
      have hzero := hlater 0
      rw [Nat.add_zero, hcome, hlength, Nat.add_zero, Nat.add_sub_cancel_left] at hzero
      exact List.append_cancel_left (hzero.symm.trans (List.append_nil _).symm)
    have hleftStream : left ++ chunks.flatten <+: encodeAll encode later := by
      rw [hsplit, ← hleft, List.append_assoc] at hstream
      exact (List.prefix_append_right_inj _).1 hstream
    obtain ⟨htaken, hrest⟩ := ih left later hleftDrained hleftStream
    have hall := hlater chunks.flatten.length
    rw [hlength, Nat.add_sub_cancel_left] at hall
    have hcount : buf.length + (chunk :: chunks).flatten.length =
        (encodeAll encode come).length + left.length + chunks.flatten.length := by
      rw [← hlength, List.flatten_cons, List.length_append, List.length_append, Nat.add_assoc]
    rw [hdrop, hcount, hall]
    refine ⟨?_, ?_⟩
    · rw [List.flatten_cons, htaken, List.map_append]
    · rw [hrest, List.flatten_cons, ← List.append_assoc, ← hleft, encodeAll_append,
        List.length_append, List.append_assoc, List.drop_length_add_append]

/-- However the beginning of a stream is divided, the messages that have come have been taken,
and the rest is in the buffer. -/
theorem feed_eq (h : d.Reads encode value) {chunks : List (List β)} {messages : List μ}
    (hstream : chunks.flatten <+: encodeAll encode messages) :
    let come := arrived encode chunks.flatten.length messages
    (d.feed [] chunks).1.flatten = come.map value ∧
      (d.feed [] chunks).2 = chunks.flatten.drop (encodeAll encode come).length := by
  have hfeed := feed_eq_of_drained h chunks [] messages (h.arrived_zero messages)
    (by rwa [List.nil_append])
  simpa only [List.length_nil, Nat.zero_add, List.nil_append] using hfeed

/-- A whole stream gives back its messages, and leaves nothing. -/
theorem feed_encodeAll (h : d.Reads encode value) {chunks : List (List β)} {messages : List μ}
    (hstream : chunks.flatten = encodeAll encode messages) :
    (d.feed [] chunks).1.flatten = messages.map value ∧ (d.feed [] chunks).2 = [] := by
  have hprefix : chunks.flatten <+: encodeAll encode messages :=
    ⟨[], by rw [List.append_nil, hstream]⟩
  obtain ⟨htaken, hrest⟩ := feed_eq h hprefix
  rw [hstream, arrived_encodeAll] at htaken hrest
  rw [List.drop_length] at hrest
  exact ⟨htaken, hrest⟩

end Vanyline.Lib.Chunks
