/-
**The wire format of UDP trackers.**

`tracker/udp.rs` writes a request field by field, and reads a response with a cursor whose reads panic when
the bytes run out.  BEP 15 says where each field stands: a connect request has 16 bytes and an announce
request 98, a response begins with its action, and the peers of an announce response take six bytes each.
The decoders of `Bep15` read the fields at these places and nothing else; they are what the code is compared
with.

The number of an event is the one of its constructor in `tracker/model.rs`, where a started download comes
before a completed one.  In BEP 15 it is the other way around.

Main definitions:

* `fromUtf8Lossy` — text whose broken characters are replaced;
* `TrackerRequest.toBytes`, `TrackerResponse.fromBytes`;
* `Bep15.decodeRequest`, `Bep15.decodeResponse` — the layouts of BEP 15;
* `TrackerRequest.Sized` — what the types of hashes and peer ids promise.

Main results:

* `TrackerRequest.decode_toBytes` — what a decoder of BEP 15 reads of a request;
* `TrackerResponse.fromBytes_eq` — reading a response, without the cursor;
* `udp_wire_format` — **both directions are BEP 15**, but for the announces of two events;
* `started_is_read_as_completed` — the announce of a download that starts is read as one of a download that
  is complete.
-/

import Tortillas.BigEndian
import Tortillas.UdpTracker
import Tortillas.InfoDict

set_option relaxedAutoImplicit false
set_option autoImplicit false

namespace Tortillas

/-! ### Broken text -/

/-- `char::REPLACEMENT_CHARACTER` -/
def replacementCharacter : Char := Char.ofNat 0xFFFD

/-- A byte that continues a character. -/
def continuesChar (b : UInt8) : Bool := decide (0x80 ≤ b) && decide (b ≤ 0xBF)

/-- Whether a second byte can follow a first one: some are left out, whose characters would have a shorter
encoding or would not be characters. -/
def canFollow (first second : UInt8) : Bool :=
  if first = 0xE0 then decide (0xA0 ≤ second) && decide (second ≤ 0xBF)
  else if first = 0xED then decide (0x80 ≤ second) && decide (second ≤ 0x9F)
  else if first = 0xF0 then decide (0x90 ≤ second) && decide (second ≤ 0xBF)
  else if first = 0xF4 then decide (0x80 ≤ second) && decide (second ≤ 0x8F)
  else continuesChar second

/-- How many bytes are replaced where no character stands: as many as a character could begin with, and at
least one. -/
def brokenLength : Bytes → ℕ
  | first :: second :: rest =>
      if first < 0xE0 ∨ 0xF4 < first ∨ canFollow first second = false then 1
      else if first < 0xF0 then 2
      else
        match rest with
        | third :: _ => if continuesChar third then 3 else 2
        | [] => 2
  | _ => 1

/-- `String::from_utf8_lossy`, for at most so many characters. -/
def fromUtf8LossyUpTo : ℕ → Bytes → Text
  | 0, _ => []
  | _ + 1, [] => []
  | n + 1, b :: bytes =>
      match ByteArray.utf8DecodeChar? ⟨(b :: bytes).toArray⟩ 0 with
      | some c => c :: fromUtf8LossyUpTo n ((b :: bytes).drop c.utf8Size)
      | none => replacementCharacter :: fromUtf8LossyUpTo n ((b :: bytes).drop (brokenLength (b :: bytes)))

/-- `String::from_utf8_lossy`.  Every character takes a byte at least. -/
def fromUtf8Lossy (bytes : Bytes) : Text := fromUtf8LossyUpTo bytes.length bytes

/-! ### Requests -/

/-- `Action as u32` -/
def Action.code : Action → UInt32
  | .connect => 0
  | .announce => 1
  | .scrape => 2
  | .error => 3

/-- `Action::try_from` -/
def Action.tryFrom (code : UInt32) : Option Action :=
  if code = 0 then some .connect
  else if code = 1 then some .announce
  else if code = 2 then some .scrape
  else if code = 3 then some .error
  else none

/-- `Event as u32` -/
def Event.code : Event → UInt32
  | .empty => 0
  | .started => 1
  | .completed => 2
  | .stopped => 3

namespace TrackerRequest

def toBytes : TrackerRequest → Bytes
  | .connect id action transactionId =>
      beBytes 8 id.toNat ++ beBytes 4 action.code.toNat ++ beBytes 4 transactionId.toNat
  | .announce connectionId transactionId infoHash peerId downloaded left uploaded event ipAddress key numWant
      port =>
      beBytes 8 connectionId.toNat ++ beBytes 4 Action.announce.code.toNat ++
        beBytes 4 transactionId.toNat ++ infoHash ++ peerId ++ beBytes 8 downloaded.toNat ++
        beBytes 8 left.toNat ++ beBytes 8 uploaded.toNat ++ beBytes 4 event.code.toNat ++
        beBytes 4 ipAddress.toNat ++ beBytes 4 key.toNat ++ beBytes 4 numWant.toUInt32.toNat ++
        beBytes 2 port.toNat

/-- Info hashes and peer ids are arrays of twenty bytes. -/
def Sized : TrackerRequest → Prop
  | .connect _ _ _ => True
  | .announce _ _ infoHash peerId _ _ _ _ _ _ _ _ => infoHash.length = 20 ∧ peerId.length = 20

/-- The request announces that a download starts or is complete. -/
def StartsOrCompletes : TrackerRequest → Prop
  | .connect _ _ _ => False
  | .announce _ _ _ _ _ _ _ event _ _ _ _ => event = .started ∨ event = .completed

end TrackerRequest

/-! ### Responses -/

/-- The errors of `TrackerActorError` that `from_bytes` returns. -/
inductive ResponseError
  | responseTooShort (expected actual : ℕ)
  | invalidAction (action : UInt32)
  | invalidResponse (reason : Text)
  deriving DecidableEq

/-- `MIN_CONNECT_RESPONSE_SIZE` -/
def minConnectResponseSize : ℕ := 16

/-- `MIN_ANNOUNCE_RESPONSE_SIZE` -/
def minAnnounceResponseSize : ℕ := 20

/-- `MIN_ERROR_RESPONSE_SIZE` -/
def minErrorResponseSize : ℕ := 8

/-- `PEER_SIZE` -/
def peerSize : ℕ := 6

/-- `Ipv4Addr::from`, of a number. -/
def ipv4OfNat (n : ℕ) : IpAddr := .v4 (Vector.ofFn fun i => (beBytes 4 n).getD i 0)

namespace TrackerResponse

/-- The loop over the peers. -/
def readPeers : ℕ → Bytes → Outcome ResponseError (List SocketAddr)
  | 0, _ => .ok []
  | n + 1, buf =>
      if buf.length < peerSize then .ok []
      else do
        let (ip, buf) ← Outcome.getUint 4 buf
        let (port, buf) ← Outcome.getUint 2 buf
        let peers ← readPeers n buf
        return ⟨ipv4OfNat ip, UInt16.ofNat port⟩ :: peers

def fromBytes (bytes : Bytes) : Outcome ResponseError TrackerResponse :=
  if bytes.length < 4 then .err (.responseTooShort 4 bytes.length)
  else do
    let (action, buf) ← Outcome.getUint 4 bytes
    match Action.tryFrom (UInt32.ofNat action) with
    | none => .err (.invalidAction (UInt32.ofNat action))
    | some .connect =>
        if bytes.length < minConnectResponseSize then
          .err (.responseTooShort minConnectResponseSize bytes.length)
        else do
          let (transactionId, buf) ← Outcome.getUint 4 buf
          let (connectionId, _) ← Outcome.getUint 8 buf
          return .connect (UInt32.ofNat transactionId) (UInt64.ofNat connectionId)
    | some .announce =>
        if bytes.length < minAnnounceResponseSize then
          .err (.responseTooShort minAnnounceResponseSize bytes.length)
        else do
          let (transactionId, buf) ← Outcome.getUint 4 buf
          let (interval, buf) ← Outcome.getUint 4 buf
          let (leechers, buf) ← Outcome.getUint 4 buf
          let (seeders, buf) ← Outcome.getUint 4 buf
          let peers ← readPeers (buf.length / peerSize) buf
          return .announce (UInt32.ofNat transactionId) (UInt32.ofNat interval) (UInt32.ofNat leechers)
            (UInt32.ofNat seeders) peers
    | some .error =>
        if bytes.length < minErrorResponseSize then
          .err (.responseTooShort minErrorResponseSize bytes.length)
        else do
          let (transactionId, buf) ← Outcome.getUint 4 buf
          return .error (UInt32.ofNat transactionId) (fromUtf8Lossy buf)
    | some .scrape => .err (.invalidResponse "Unsupported action: Scrape".toList)

end TrackerResponse

/-! ### The layouts of BEP 15 -/

namespace Bep15

/-- The bytes of a field. -/
def slice (bytes : Bytes) (offset width : ℕ) : Bytes := (bytes.drop offset).take width

/-- The number in a field. -/
def word (bytes : Bytes) (offset width : ℕ) : ℕ := beNat (slice bytes offset width)

def action : ℕ → Option Action
  | 0 => some .connect
  | 1 => some .announce
  | 2 => some .scrape
  | 3 => some .error
  | _ => none

/-- The events are none, completed, started and stopped. -/
def event : ℕ → Option Event
  | 0 => some .empty
  | 1 => some .completed
  | 2 => some .started
  | 3 => some .stopped
  | _ => none

def decodeRequest (bytes : Bytes) : Option TrackerRequest :=
  if bytes.length = 16 then
    (action (word bytes 8 4)).map fun action =>
      .connect (UInt64.ofNat (word bytes 0 8)) action (UInt32.ofNat (word bytes 12 4))
  else if bytes.length = 98 ∧ action (word bytes 8 4) = some .announce then
    (event (word bytes 80 4)).map fun event =>
      .announce (UInt64.ofNat (word bytes 0 8)) (UInt32.ofNat (word bytes 12 4)) (slice bytes 16 20)
        (slice bytes 36 20) (UInt64.ofNat (word bytes 56 8)) (UInt64.ofNat (word bytes 64 8))
        (UInt64.ofNat (word bytes 72 8)) event (UInt32.ofNat (word bytes 84 4))
        (UInt32.ofNat (word bytes 88 4)) (UInt32.ofNat (word bytes 92 4)).toInt32
        (UInt16.ofNat (word bytes 96 2))
  else none

/-- The peer at some place: four bytes of an address, and a port. -/
def peer (bytes : Bytes) (offset : ℕ) : SocketAddr :=
  ⟨.v4 (Vector.ofFn fun i => bytes.getD (offset + i) 0), UInt16.ofNat (word bytes (offset + 4) 2)⟩

def decodeResponse (bytes : Bytes) : Option TrackerResponse :=
  match action (word bytes 0 4) with
  | some .connect =>
      if 16 ≤ bytes.length then
        some (.connect (UInt32.ofNat (word bytes 4 4)) (UInt64.ofNat (word bytes 8 8)))
      else none
  | some .announce =>
      if 20 ≤ bytes.length then
        some (.announce (UInt32.ofNat (word bytes 4 4)) (UInt32.ofNat (word bytes 8 4))
          (UInt32.ofNat (word bytes 12 4)) (UInt32.ofNat (word bytes 16 4))
          ((List.range ((bytes.length - 20) / 6)).map fun i => peer bytes (20 + 6 * i)))
      else none
  | some .error =>
      if 8 ≤ bytes.length then
        some (.error (UInt32.ofNat (word bytes 4 4)) (fromUtf8Lossy (bytes.drop 8)))
      else none
  | _ => none

/-! ### Fields in a row -/

variable {bytes xs ys : Bytes} {offset width n : ℕ}

theorem slice_append (h : xs.length = width) : slice (xs ++ ys) 0 width = xs := by
  rw [slice, List.drop_zero, List.take_left' h]

theorem slice_append_of_le (h : xs.length ≤ offset) :
    slice (xs ++ ys) offset width = slice ys (offset - xs.length) width := by
  rw [slice, slice, List.drop_append, List.drop_eq_nil_of_le h, List.nil_append]

theorem word_beBytes_append : word (beBytes width n ++ ys) 0 width = n % 256 ^ width := by
  rw [word, slice_append (length_beBytes width n), beNat_beBytes]

theorem word_beBytes : word (beBytes width n) 0 width = n % 256 ^ width := by
  simpa using (word_beBytes_append : word (beBytes width n ++ []) 0 width = _)

theorem word_append_of_le (h : xs.length ≤ offset) :
    word (xs ++ ys) offset width = word ys (offset - xs.length) width := by
  rw [word, word, slice_append_of_le h]

/-- A read of the cursor is a field of the bytes. -/
theorem getUint_drop (h : offset + width ≤ bytes.length) :
    (Outcome.getUint width (bytes.drop offset) : Outcome ResponseError _) =
      .ok (word bytes offset width, bytes.drop (offset + width)) := by
  have hle : width ≤ (bytes.drop offset).length := by
    rw [List.length_drop]
    omega
  rw [Outcome.getUint_of_le hle, List.drop_drop, word, slice]

end Bep15

/-! ### Requests are read back -/

theorem Bep15.action_code (a : Action) : Bep15.action a.code.toNat = some a := by
  cases a <;> rfl

/-- What BEP 15 takes an event for: completed and started are exchanged. -/
def Event.onWire : Event → Event
  | .empty => .empty
  | .started => .completed
  | .completed => .started
  | .stopped => .stopped

theorem Bep15.event_code (e : Event) : Bep15.event e.code.toNat = some e.onWire := by
  cases e <;> rfl

namespace TrackerRequest

/-- The request that a decoder of BEP 15 reads. -/
def onWire : TrackerRequest → TrackerRequest
  | .connect id action transactionId => .connect id action transactionId
  | .announce connectionId transactionId infoHash peerId downloaded left uploaded event ipAddress key numWant
      port =>
      .announce connectionId transactionId infoHash peerId downloaded left uploaded event.onWire ipAddress key
        numWant port

theorem onWire_eq_iff {r : TrackerRequest} : r.onWire = r ↔ ¬r.StartsOrCompletes := by
  cases r with
  | connect id action transactionId => simp [onWire, StartsOrCompletes]
  | announce connectionId transactionId infoHash peerId downloaded left uploaded event ipAddress key numWant
      port =>
      cases event <;> simp [onWire, StartsOrCompletes, Event.onWire]

theorem decode_toBytes {r : TrackerRequest} (hr : r.Sized) :
    Bep15.decodeRequest r.toBytes = some r.onWire := by
  cases r with
  | connect id action transactionId =>
      simp [toBytes, Bep15.decodeRequest, Bep15.word_append_of_le, Bep15.word_beBytes_append,
        Bep15.word_beBytes, Bep15.action_code, onWire]
  | announce connectionId transactionId infoHash peerId downloaded left uploaded event ipAddress key numWant
      port =>
      obtain ⟨hhash, hid⟩ := hr
      simp [toBytes, Bep15.decodeRequest, Bep15.word_append_of_le, Bep15.word_beBytes_append,
        Bep15.word_beBytes, Bep15.slice_append, Bep15.slice_append_of_le, Bep15.action_code,
        Bep15.event_code, onWire, hhash, hid]

end TrackerRequest

/-! ### Responses are read as they are laid out -/

theorem ipv4OfNat_word {bytes : Bytes} {offset : ℕ} (h : offset + 4 ≤ bytes.length) :
    ipv4OfNat (Bep15.word bytes offset 4) = .v4 (Vector.ofFn fun i => bytes.getD (offset + i) 0) := by
  have hlen : (Bep15.slice bytes offset 4).length = 4 := by
    rw [Bep15.slice, List.length_take, List.length_drop]
    omega
  have hback : beBytes 4 (Bep15.word bytes offset 4) = Bep15.slice bytes offset 4 := by
    rw [← hlen, Bep15.word, hlen]
    simpa only [hlen] using beBytes_beNat (Bep15.slice bytes offset 4)
  rw [ipv4OfNat, hback]
  congr 2
  funext i
  rw [Bep15.slice, List.getD_eq_getElem?_getD, List.getD_eq_getElem?_getD, List.getElem?_take_of_lt i.isLt,
    List.getElem?_drop]

namespace TrackerResponse

variable {bytes : Bytes}

theorem readPeers_drop {n offset : ℕ} (h : offset + 6 * n ≤ bytes.length) :
    readPeers n (bytes.drop offset) = .ok ((List.range n).map fun i => Bep15.peer bytes (offset + 6 * i)) := by
  induction n generalizing offset with
  | zero => rfl
  | succ n ih =>
      have hroom : ¬(bytes.drop offset).length < peerSize := by
        rw [List.length_drop, peerSize]
        omega
      have hip := Bep15.getUint_drop (show offset + 4 ≤ bytes.length by omega)
      have hport := Bep15.getUint_drop (show offset + 4 + 2 ≤ bytes.length by omega)
      have htail := ih (show offset + 4 + 2 + 6 * n ≤ bytes.length by omega)
      have hnext : ∀ i, offset + 4 + 2 + 6 * i = offset + 6 * (i + 1) := by
        intro i
        omega
      simp only [readPeers, if_neg hroom, hip, hport, htail, Outcome.ok_bind, Outcome.pure_eq, hnext,
        ipv4OfNat_word (show offset + 4 ≤ bytes.length by omega), List.range_succ_eq_map, List.map_cons,
        List.map_map]
      rfl

theorem tryFrom_ofNat {n : ℕ} (h : n < 2 ^ 32) : Action.tryFrom (UInt32.ofNat n) = Bep15.action n := by
  have hcode : ∀ k, k < 2 ^ 32 → (UInt32.ofNat n = UInt32.ofNat k ↔ n = k) := by
    intro k hk
    rw [← UInt32.toNat_inj, UInt32.toNat_ofNat_of_lt' h, UInt32.toNat_ofNat_of_lt' hk]
  have h0 : UInt32.ofNat n = 0 ↔ n = 0 := hcode 0 (by decide)
  have h1 : UInt32.ofNat n = 1 ↔ n = 1 := hcode 1 (by decide)
  have h2 : UInt32.ofNat n = 2 ↔ n = 2 := hcode 2 (by decide)
  have h3 : UInt32.ofNat n = 3 ↔ n = 3 := hcode 3 (by decide)
  match n with
  | 0 => rfl
  | 1 => rfl
  | 2 => rfl
  | 3 => rfl
  | n + 4 =>
      rw [Action.tryFrom, if_neg (mt h0.1 (by omega)), if_neg (mt h1.1 (by omega)),
        if_neg (mt h2.1 (by omega)), if_neg (mt h3.1 (by omega))]
      rfl

/-- The number of a word fits into its bytes. -/
theorem word_lt (bytes : Bytes) (offset width : ℕ) : Bep15.word bytes offset width < 256 ^ width := by
  have hlen : (Bep15.slice bytes offset width).length ≤ width := by
    rw [Bep15.slice]
    exact List.length_take_le _ _
  exact (beNat_lt _).trans_le (Nat.pow_le_pow_right (by decide) hlen)

/-- Reading a response, without the cursor. -/
theorem fromBytes_eq (bytes : Bytes) :
    (∃ response, fromBytes bytes = .ok response ∧ Bep15.decodeResponse bytes = some response) ∨
      (∃ error, fromBytes bytes = .err error) ∧ Bep15.decodeResponse bytes = none := by
  by_cases hshort : bytes.length < 4
  · right
    refine ⟨⟨_, if_pos hshort⟩, ?_⟩
    rw [Bep15.decodeResponse]
    split
    all_goals first | exact if_neg (by omega) | rfl
  · have hword : Outcome.getUint 4 bytes = (.ok (Bep15.word bytes 0 4, bytes.drop 4) : Outcome ResponseError _) :=
      Bep15.getUint_drop (show 0 + 4 ≤ bytes.length by omega)
    have haction := tryFrom_ofNat (word_lt bytes 0 4)
    have hread : ∀ offset width, offset + width ≤ bytes.length →
        (Outcome.getUint width (bytes.drop offset) : Outcome ResponseError _) =
          .ok (Bep15.word bytes offset width, bytes.drop (offset + width)) := by
      intro offset width h
      exact Bep15.getUint_drop h
    rw [fromBytes, if_neg hshort, hword, Outcome.ok_bind, Bep15.decodeResponse]
    simp only [haction]
    cases hcode : Bep15.action (Bep15.word bytes 0 4) with
    | none => exact .inr ⟨⟨_, rfl⟩, rfl⟩
    | some action =>
        cases action with
        | scrape => exact .inr ⟨⟨_, rfl⟩, rfl⟩
        | connect =>
            by_cases hlen : 16 ≤ bytes.length
            · left
              refine ⟨_, ?_, if_pos hlen⟩
              simp only [minConnectResponseSize, if_neg (not_lt.2 hlen), hread 4 4 (by omega),
                hread 8 8 (by omega), Outcome.ok_bind, Outcome.pure_eq]
            · exact .inr ⟨⟨_, if_pos (not_le.1 hlen)⟩, if_neg hlen⟩
        | announce =>
            by_cases hlen : 20 ≤ bytes.length
            · left
              refine ⟨_, ?_, if_pos hlen⟩
              have hpeers : 20 + 6 * ((bytes.length - 20) / 6) ≤ bytes.length := by omega
              simp only [minAnnounceResponseSize, if_neg (not_lt.2 hlen), hread 4 4 (by omega),
                hread 8 4 (by omega), hread 12 4 (by omega), hread 16 4 (by omega), Outcome.ok_bind,
                List.length_drop, peerSize, readPeers_drop hpeers, Outcome.pure_eq]
            · exact .inr ⟨⟨_, if_pos (not_le.1 hlen)⟩, if_neg hlen⟩
        | error =>
            by_cases hlen : 8 ≤ bytes.length
            · left
              refine ⟨_, ?_, if_pos hlen⟩
              simp only [minErrorResponseSize, if_neg (not_lt.2 hlen), hread 4 4 (by omega), Outcome.ok_bind,
                Outcome.pure_eq]
            · exact .inr ⟨⟨_, if_pos (not_le.1 hlen)⟩, if_neg hlen⟩

end TrackerResponse

/-! ### Both directions -/

/-- **The wire format is BEP 15, but for two events.**  A decoder of BEP 15 recovers every field of a request
exactly if it does not announce that a download starts or is complete.  No bytes make the reading of a
response panic, and it succeeds exactly with what BEP 15 says. -/
theorem udp_wire_format (r : TrackerRequest) (hr : r.Sized) (bytes : Bytes) :
    (Bep15.decodeRequest r.toBytes = some r ↔ ¬r.StartsOrCompletes) ∧
      TrackerResponse.fromBytes bytes ≠ .panic ∧
      ∀ response, TrackerResponse.fromBytes bytes = .ok response ↔
        Bep15.decodeResponse bytes = some response := by
  constructor
  · rw [TrackerRequest.decode_toBytes hr, Option.some_inj]
    exact TrackerRequest.onWire_eq_iff
  · obtain ⟨response, hread, hdecode⟩ | ⟨⟨error, hread⟩, hdecode⟩ := TrackerResponse.fromBytes_eq bytes
    · simp [hread, hdecode]
    · simp [hread, hdecode]

/-- An announce with some event. -/
def Sample.announceOf (event : Event) : TrackerRequest :=
  .announce 1 2 (List.replicate 20 7) (List.replicate 20 9) 0 100 0 event 0 0 (-1) 6881

/-- A connect request is read back, and so is the announce of a download that stops. -/
theorem udp_wire_format_sample :
    Bep15.decodeRequest (TrackerRequest.connect magicConstant .connect 5).toBytes =
        some (.connect magicConstant .connect 5) ∧
      Bep15.decodeRequest (Sample.announceOf .stopped).toBytes = some (Sample.announceOf .stopped) :=
  ⟨(udp_wire_format (.connect magicConstant .connect 5) trivial []).1.2 id,
    (udp_wire_format (Sample.announceOf .stopped) ⟨rfl, rfl⟩ []).1.2
      (by simp [Sample.announceOf, TrackerRequest.StartsOrCompletes])⟩

/-- The announce of a download that starts is read as one of a download that is complete. -/
theorem started_is_read_as_completed :
    (Sample.announceOf .started).Sized ∧
      Bep15.decodeRequest (Sample.announceOf .started).toBytes = some (Sample.announceOf .completed) ∧
      Bep15.decodeRequest (Sample.announceOf .started).toBytes ≠ some (Sample.announceOf .started) := by
  have hread := TrackerRequest.decode_toBytes (r := Sample.announceOf .started) ⟨rfl, rfl⟩
  refine ⟨⟨rfl, rfl⟩, hread, ?_⟩
  rw [hread]
  simp [TrackerRequest.onWire, Sample.announceOf, Event.onWire]

end Tortillas
