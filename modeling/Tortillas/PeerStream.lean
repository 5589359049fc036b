/-
**Reading frames from a connection.**

`protocol/stream.rs`: a connection is read in one of two ways.  `PeerStream` puts what the transport
delivers into a buffer and takes whole frames out of it; its `recv` waits for the transport at one
place only, and may be dropped there.  `PeerReader`, the reading half after a split, has no such
loop: it reads a header and then a body, byte counts it asks for being filled up read by read, first
from the buffer it has inherited and then from the transport.

A transport delivers its bytes in pieces of its own choosing, and then ends.  A call of `recv` is
modelled by what happens to it: it is called, the transport answers it, or it is dropped.

Main definitions:

* `bufferedMessage`, `PeerStream`, `Receiving.step` — the buffered side;
* `PeerReader.pollRead`, `PeerReader.readExact`, `PeerReader.recv` — the unbuffered side;
* `received` — what a stream carries: its frames, decoded, and how it ends.

Main results:

* `bufferedMessage_eq` — a message is taken from the buffer frame by frame;
* `PeerReader.readExact_eq` — what is read does not depend on how it arrives;
* `PeerReader.recv_eq` — neither does what is received.
-/

import Tortillas.HostileInput
import Tortillas.Framing

set_option relaxedAutoImplicit false
set_option autoImplicit false

namespace Tortillas

open Outcome

/-- What a call of `recv` yields. -/
abbrev Received := Outcome PeerActorError PeerMessages

/-! ### The buffered side -/

/-- The error of a header that announces too much. -/
def oversizedFrame (length : ℕ) : PeerActorError :=
  .protocolViolation s!"peer frame payload length {length} exceeds maximum {maxFramePayloadLength}"

def validateFramePayloadLength (length : ℕ) : Outcome PeerActorError Unit :=
  if maxFramePayloadLength < length then .err (oversizedFrame length) else .ok ()

/-- `buffered_message`: a message from the buffer, and the buffer behind it. -/
def bufferedMessage (s : Serde) (readBuffer : Bytes) : Option Received × Bytes :=
  if readBuffer.length < 4 then (none, readBuffer)
  else
    let length := beNat (readBuffer.take 4)
    if length = 0 then (some (.ok .keepAlive), readBuffer.drop 4)
    else
      match validateFramePayloadLength length with
      | .err error => (some (.err error), readBuffer)
      | .panic => (some .panic, readBuffer)
      | .ok () =>
          let frameLen := 4 + length
          if readBuffer.length < frameLen then (none, readBuffer)
          else (some (PeerMessages.fromBytes s (readBuffer.take frameLen)), readBuffer.drop frameLen)

/-- The state of a connection that is read through a buffer. -/
structure PeerStream where
  readBuffer : Bytes
  bytesDownloaded : ℕ

/-- A connection, whether a call of `recv` waits for the transport, and whether the transport has
ended. -/
structure Receiving where
  stream : PeerStream := ⟨[], 0⟩
  pending : Bool := false
  closed : Bool := false

/-- What happens to the calls of `recv`. -/
inductive RecvStep
  | call
  | read (chunk : Bytes)
  | eof
  | drop
  deriving DecidableEq

/-- The error of a connection that has ended. -/
def closedConnection : PeerActorError :=
  .receiveFailed ⟨.unexpectedEof, "peer closed connection"⟩

namespace Receiving

/-- The loop of `recv` up to the next time it waits for the transport. -/
def poll (s : Serde) (r : Receiving) : Receiving × Option Received :=
  match bufferedMessage s r.stream.readBuffer with
  | (some message, rest) =>
      ({ r with stream := { r.stream with readBuffer := rest }, pending := false }, some message)
  | (none, _) => ({ r with pending := true }, none)

/-- One step, and the result a call yields in it; `none` when the step cannot happen. -/
def step (s : Serde) (r : Receiving) : RecvStep → Option (Receiving × Option Received)
  | .call => if r.pending then none else some (r.poll s)
  | .read chunk =>
      if r.pending = false ∨ r.closed = true ∨ chunk = [] then none
      else
        some ({ r with
          stream := ⟨r.stream.readBuffer ++ chunk, r.stream.bytesDownloaded + chunk.length⟩ }.poll s)
  | .eof =>
      if r.pending then some ({ r with pending := false, closed := true }, some (.err closedConnection))
      else none
  | .drop => if r.pending then some ({ r with pending := false }, none) else none

/-- A schedule, and the results of the calls. -/
def run (s : Serde) : Receiving → List RecvStep → Option (Receiving × List Received)
  | r, [] => some (r, [])
  | r, i :: is =>
      match r.step s i with
      | none => none
      | some (r, result) => (run s r is).map fun done => (done.1, result.toList ++ done.2)

end Receiving

/-- The bytes a schedule delivers. -/
def RecvStep.bytes : RecvStep → Bytes
  | .read chunk => chunk
  | .call | .eof | .drop => []

def bytesRead (steps : List RecvStep) : Bytes := steps.flatMap RecvStep.bytes

/-! ### The unbuffered side -/

/-- The reading half of a connection that has been split: the buffer it has inherited, and the
pieces in which the transport delivers the rest. -/
structure PeerReader where
  readBuffer : Bytes
  transport : List Bytes
  bytesDownloaded : ℕ

/-- `split`: the buffer goes to the reader. -/
def PeerStream.split (p : PeerStream) (transport : List Bytes) : PeerReader :=
  ⟨p.readBuffer, transport, p.bytesDownloaded⟩

namespace PeerReader

/-- One read of the transport, of at most the given number of bytes; nothing at its end. -/
def pollTransport (remaining : ℕ) : List Bytes → Bytes × List Bytes
  | [] => ([], [])
  | chunk :: chunks =>
      if chunk = [] then pollTransport remaining chunks
      else (chunk.take remaining, chunk.drop remaining :: chunks)

/-- `poll_read`: the buffer first, and then the transport, whose bytes are counted. -/
def pollRead (remaining : ℕ) (r : PeerReader) : Bytes × PeerReader :=
  if r.readBuffer ≠ [] then
    let length := min remaining r.readBuffer.length
    (r.readBuffer.take length, { r with readBuffer := r.readBuffer.drop length })
  else
    let read := pollTransport remaining r.transport
    (read.1, { r with transport := read.2, bytesDownloaded := r.bytesDownloaded + read.1.length })

/-- `read_exact`: read until there is enough; `none` when the stream ends before. -/
def readExact (n : ℕ) (r : PeerReader) : Option Bytes × PeerReader :=
  if n = 0 then (some [], r)
  else
    match r.pollRead n with
    | ([], r) => (none, r)
    | (byte :: bytes, r) =>
        let rest := readExact (n - (bytes.length + 1)) r
        (rest.1.map ((byte :: bytes) ++ ·), rest.2)
termination_by n

/-- `recv`: a header, an id and the rest of the body.  The text of the error at the end of the
stream is that of the runtime. -/
def recv (s : Serde) (endText : String) (r : PeerReader) : Received × PeerReader :=
  let ended : Received := .err (.receiveFailed ⟨.unexpectedEof, endText⟩)
  match r.readExact 4 with
  | (none, r) => (ended, r)
  | (some lengthBuf, r) =>
      let length := beNat lengthBuf
      if length = 0 then (.ok .keepAlive, r)
      else
        match validateFramePayloadLength length with
        | .err error => (.err error, r)
        | .panic => (.panic, r)
        | .ok () =>
            match r.readExact 1 with
            | (none, r) => (ended, r)
            | (some messageType, r) =>
                match r.readExact (length - 1) with
                | (none, r) => (ended, r)
                | (some rest, r) =>
                    (PeerMessages.fromBytes s (lengthBuf ++ messageType ++ rest), r)

/-- The results of a number of calls, one after the other. -/
def recvs (s : Serde) (endText : String) : ℕ → PeerReader → List Received × PeerReader
  | 0, r => ([], r)
  | k + 1, r =>
      let first := r.recv s endText
      let rest := recvs s endText k first.2
      (first.1 :: rest.1, rest.2)

end PeerReader

/-! ### What a stream carries -/

/-- **What a stream carries**: its frames, decoded, and then a header that is too large, or what is
received at the end. -/
def received (s : Serde) (stream : Bytes) (ended : Option PeerActorError) : List Received :=
  (cut maxFramePayloadLength stream).1.map (PeerMessages.fromBytes s) ++
    match nextFrame maxFramePayloadLength (cut maxFramePayloadLength stream).2 with
    | .oversized length => [.err (oversizedFrame length)]
    | _ => ended.toList.map .err

section Received

variable {s : Serde} {stream : Bytes} {ended : Option PeerActorError}

/-- The frames in front of a stream are received first. -/
theorem received_append {frames : List Bytes}
    (h : ∀ frame ∈ frames, IsFrame maxFramePayloadLength frame) (rest : Bytes) :
    received s (frames.flatten ++ rest) ended =
      frames.map (PeerMessages.fromBytes s) ++ received s rest ended := by
  rw [received, cut_append h, received, List.map_append, List.append_assoc]

theorem received_of_frame {frame rest : Bytes}
    (h : nextFrame maxFramePayloadLength stream = .frame frame rest) :
    received s stream ended = PeerMessages.fromBytes s frame :: received s rest ended := by
  obtain ⟨hframe, rfl⟩ := nextFrame_eq_frame h
  have happend : received s ([frame].flatten ++ rest) ended = _ :=
    received_append (by simpa using hframe) rest
  simpa using happend

theorem received_of_oversized {n : ℕ} (h : nextFrame maxFramePayloadLength stream = .oversized n) :
    received s stream ended = [.err (oversizedFrame n)] := by
  rw [received, cut_of_not_frame (by rw [h]; exact nofun), h]
  rfl

theorem received_of_more (h : nextFrame maxFramePayloadLength stream = .more) :
    received s stream ended = ended.toList.map .err := by
  rw [received, cut_of_not_frame (by rw [h]; exact nofun), h]
  rfl

end Received

/-- A frame without a body is a keep-alive. -/
theorem fromBytes_of_announced_zero (s : Serde) {frame : Bytes} (hlen : frame.length = 4)
    (hzero : announced frame = 0) : PeerMessages.fromBytes s frame = .ok .keepAlive := by
  rw [announced, List.take_of_length_le (by omega)] at hzero
  have hno : looksLikeHandshake frame = false := by
    simp [looksLikeHandshake, hlen]
  rw [PeerMessages.fromBytes, hno, if_neg (by simp), if_neg (by omega),
    getUint_of_le (by omega), ok_bind, List.take_of_length_le (by omega), hzero]
  dsimp only
  rw [if_neg (by omega), if_pos rfl]

/-- **A message is taken from the buffer frame by frame.** -/
theorem bufferedMessage_eq (s : Serde) (readBuffer : Bytes) :
    bufferedMessage s readBuffer =
      match nextFrame maxFramePayloadLength readBuffer with
      | .more => (none, readBuffer)
      | .oversized length => (some (.err (oversizedFrame length)), readBuffer)
      | .frame frame rest => (some (PeerMessages.fromBytes s frame), rest) := by
  unfold bufferedMessage nextFrame validateFramePayloadLength
  by_cases hheader : readBuffer.length < 4
  · rw [if_pos hheader, if_pos hheader]
  rw [if_neg hheader, if_neg hheader]
  dsimp only
  rw [← announced]
  by_cases hzero : announced readBuffer = 0
  · have htake : (readBuffer.take 4).length = 4 := List.length_take_of_le (by omega)
    have hann : announced (readBuffer.take 4) = 0 := by
      rw [announced, List.take_take, Nat.min_self, ← announced, hzero]
    rw [if_pos hzero, hzero, if_neg (Nat.not_lt_zero _), if_neg hheader]
    simp only [fromBytes_of_announced_zero s htake hann]
  rw [if_neg hzero]
  by_cases hmax : maxFramePayloadLength < announced readBuffer
  · rw [if_pos hmax, if_pos hmax]
  rw [if_neg hmax, if_neg hmax]
  by_cases hlen : readBuffer.length < 4 + announced readBuffer
  · rw [if_pos hlen, if_pos hlen]
  · rw [if_neg hlen, if_neg hlen]

namespace PeerReader

/-! ### Reading through the inherited buffer -/

/-- The bytes that are still to be read. -/
def unread (r : PeerReader) : Bytes := r.readBuffer ++ r.transport.flatten

/-- The bytes that have been read from the transport, and those that have not. -/
def carried (r : PeerReader) : ℕ := r.bytesDownloaded + r.transport.flatten.length

theorem pollTransport_eq (n : ℕ) (chunks : List Bytes) :
    chunks.flatten = (pollTransport n chunks).1 ++ (pollTransport n chunks).2.flatten ∧
      (pollTransport n chunks).1.length ≤ n ∧
      (0 < n → (pollTransport n chunks).1 = [] → chunks.flatten = []) := by
  induction chunks with
  | nil => exact ⟨rfl, Nat.zero_le n, fun _ _ => rfl⟩
  | cons chunk chunks ih =>
      rw [pollTransport]
      by_cases hchunk : chunk = []
      · rw [if_pos hchunk, hchunk]
        exact ih
      · rw [if_neg hchunk]
        refine ⟨?_, ?_, ?_⟩
        · rw [List.flatten_cons, List.flatten_cons, ← List.append_assoc, List.take_append_drop]
        · exact List.length_take_le n chunk
        · intro hn hnil
          rcases List.take_eq_nil_iff.1 hnil with h | h
          · omega
          · exact absurd h hchunk

/-- A read takes bytes from the front, and ends only when there are none. -/
theorem pollRead_eq (n : ℕ) (r : PeerReader) :
    r.unread = (r.pollRead n).1 ++ (r.pollRead n).2.unread ∧ (r.pollRead n).1.length ≤ n ∧
      (0 < n → (r.pollRead n).1 = [] → r.unread = []) ∧ (r.pollRead n).2.carried = r.carried := by
  rw [pollRead]
  by_cases hbuffer : r.readBuffer = []
  · obtain ⟨hflatten, hle, hend⟩ := pollTransport_eq n r.transport
    rw [if_neg (not_not.2 hbuffer)]
    simp only [unread, carried, hbuffer, List.nil_append]
    refine ⟨hflatten, hle, hend, ?_⟩
    rw [Nat.add_assoc, ← List.length_append, ← hflatten]
  · have hpos := List.length_pos_iff.2 hbuffer
    rw [if_pos hbuffer]
    simp only [unread, carried]
    refine ⟨?_, ?_, ?_, trivial⟩
    · rw [← List.append_assoc, List.take_append_drop]
    · exact (List.length_take_le _ _).trans (Nat.min_le_left _ _)
    · intro hn hnil
      have hlen := congrArg List.length hnil
      rw [List.length_take, List.length_nil] at hlen
      omega

/-- **What is read does not depend on how it arrives.** -/
theorem readExact_eq (n : ℕ) (r : PeerReader) :
    (n ≤ r.unread.length →
        (r.readExact n).1 = some (r.unread.take n) ∧ (r.readExact n).2.unread = r.unread.drop n) ∧
      (r.unread.length < n → (r.readExact n).1 = none ∧ (r.readExact n).2.unread = []) ∧
      (r.readExact n).2.carried = r.carried := by
  induction n using Nat.strong_induction_on generalizing r with
  | _ n ih =>
      rw [readExact]
      by_cases hn : n = 0
      · rw [if_pos hn, hn]
        exact ⟨fun _ => ⟨rfl, rfl⟩, fun h => absurd h (Nat.not_lt_zero _), rfl⟩
      rw [if_neg hn]
      obtain ⟨hunread, hle, hend, hcarried⟩ := r.pollRead_eq n
      cases hpoll : r.pollRead n with
      | mk bytes next =>
          rw [hpoll] at hunread hle hend hcarried
          cases bytes with
          | nil =>
              -- the stream has ended, and there was less than has been asked for
              have hnil := hend (by omega) rfl
              rw [hnil]
              refine ⟨fun h => ?_, fun _ => ⟨rfl, ?_⟩, hcarried⟩
              · rw [List.length_nil] at h
                omega
              · rw [hnil] at hunread
                exact hunread.symm
          | cons byte bytes =>
              rw [List.length_cons] at hle
              obtain ⟨henough, hshort, hcount⟩ := ih (n - (bytes.length + 1)) (by omega) next
              have hlen := congrArg List.length hunread
              simp only [List.length_append, List.length_cons] at hlen
              have hsplit : n = (byte :: bytes).length + (n - (bytes.length + 1)) := by
                rw [List.length_cons]
                omega
              have htake : r.unread.take n =
                  (byte :: bytes) ++ next.unread.take (n - (bytes.length + 1)) := by
                conv_lhs => rw [hunread, hsplit]
                exact List.take_length_add_append _
              have hdrop : r.unread.drop n = next.unread.drop (n - (bytes.length + 1)) := by
                conv_lhs => rw [hunread, hsplit]
                exact List.drop_length_add_append _
              dsimp only
              refine ⟨fun h => ?_, fun h => ?_, hcount.trans hcarried⟩
              · obtain ⟨hsome, hrest⟩ := henough (by omega)
                rw [hsome, htake, hrest, hdrop]
                exact ⟨rfl, rfl⟩
              · obtain ⟨hnone, hnil⟩ := hshort (by omega)
                rw [hnone, hnil]
                exact ⟨rfl, rfl⟩

theorem readExact_of_le {n : ℕ} {r : PeerReader} (h : n ≤ r.unread.length) :
    ∃ q, r.readExact n = (some (r.unread.take n), q) ∧ q.unread = r.unread.drop n ∧
      q.carried = r.carried := by
  obtain ⟨henough, -, hcarried⟩ := r.readExact_eq n
  obtain ⟨hsome, hdrop⟩ := henough h
  exact ⟨(r.readExact n).2, Prod.ext hsome rfl, hdrop, hcarried⟩

theorem readExact_of_lt {n : ℕ} {r : PeerReader} (h : r.unread.length < n) :
    ∃ q, r.readExact n = (none, q) ∧ q.unread = [] ∧ q.carried = r.carried := by
  obtain ⟨-, hshort, hcarried⟩ := r.readExact_eq n
  obtain ⟨hnone, hnil⟩ := hshort h
  exact ⟨(r.readExact n).2, Prod.ext hnone rfl, hnil, hcarried⟩

/-- The error at the end of the stream, with the text of the runtime. -/
def endOfStream (endText : String) : PeerActorError := .receiveFailed ⟨.unexpectedEof, endText⟩

/-- What a call receives, given what the stream begins with. -/
def Receives (s : Serde) (endText : String) (stream : Bytes) (result : Received) (rest : Bytes) :
    Prop :=
  match nextFrame maxFramePayloadLength stream with
  | .more => result = .err (endOfStream endText) ∧ rest = []
  | .oversized length => result = .err (oversizedFrame length)
  | .frame frame behind => result = PeerMessages.fromBytes s frame ∧ rest = behind

/-- **A call receives what the stream begins with**, and leaves what is behind it. -/
theorem recv_eq (s : Serde) (endText : String) (r : PeerReader) :
    Receives s endText r.unread (r.recv s endText).1 (r.recv s endText).2.unread ∧
      (r.recv s endText).2.carried = r.carried := by
  unfold recv Receives nextFrame
  by_cases hheader : r.unread.length < 4
  · obtain ⟨q, hq, hunread, hcarried⟩ := readExact_of_lt hheader
    rw [hq, if_pos hheader]
    exact ⟨⟨rfl, hunread⟩, hcarried⟩
  obtain ⟨q, hq, hunread, hcarried⟩ := readExact_of_le (Nat.le_of_not_lt hheader)
  rw [hq, if_neg hheader]
  dsimp only
  rw [← announced]
  by_cases hzero : announced r.unread = 0
  · have htake : (r.unread.take 4).length = 4 := List.length_take_of_le (by omega)
    have hann : announced (r.unread.take 4) = 0 := by
      rw [announced, List.take_take, Nat.min_self, ← announced, hzero]
    rw [if_pos hzero, hzero, if_neg (Nat.not_lt_zero _), if_neg hheader]
    exact ⟨⟨(fromBytes_of_announced_zero s htake hann).symm, hunread⟩, hcarried⟩
  rw [if_neg hzero, validateFramePayloadLength]
  by_cases hmax : maxFramePayloadLength < announced r.unread
  · rw [if_pos hmax, if_pos hmax]
    exact ⟨rfl, hcarried⟩
  rw [if_neg hmax, if_neg hmax]
  have hlen : q.unread.length = r.unread.length - 4 := by
    rw [hunread, List.length_drop]
  dsimp only
  by_cases hid : q.unread.length < 1
  · obtain ⟨p, hp, hnil, hcount⟩ := readExact_of_lt hid
    rw [hp, if_pos (by omega)]
    exact ⟨⟨rfl, hnil⟩, hcount.trans hcarried⟩
  obtain ⟨p, hp, hbody, hcount⟩ := readExact_of_le (Nat.le_of_not_lt hid)
  have hlen' : p.unread.length = r.unread.length - 4 - 1 := by
    rw [hbody, List.length_drop, hlen]
  rw [hp]
  dsimp only
  by_cases hrest : p.unread.length < announced r.unread - 1
  · obtain ⟨e, he, hnil, hcount'⟩ := readExact_of_lt hrest
    rw [he, if_pos (by omega)]
    exact ⟨⟨rfl, hnil⟩, (hcount'.trans hcount).trans hcarried⟩
  · obtain ⟨e, he, hbehind, hcount'⟩ := readExact_of_le (Nat.le_of_not_lt hrest)
    rw [he, if_neg (by omega)]
    have hsum : 4 + announced r.unread = 4 + 1 + (announced r.unread - 1) := by
      omega
    refine ⟨⟨?_, ?_⟩, (hcount'.trans hcount).trans hcarried⟩
    · rw [hbody, hunread, hsum, List.drop_drop, List.take_add, List.take_add]
    · rw [hbehind, hbody, hunread, hsum, List.drop_drop, List.drop_drop, Nat.add_assoc]

end PeerReader

end Tortillas
