/-
**The peer wire protocol.**

`protocol/messages.rs`: the messages peers exchange, how they are written and how they are read.
Apart from the handshake, a message is a frame: a four-byte length, an id and a payload.  The
decoder recognises a handshake by its first twenty bytes and takes everything else for a frame.
The dictionary of an extended message has no length of its own; where it ends is found by adding
up the events a bencode parser reports for it.

The bencode serialiser and parser belong to other crates and are the parameter `Serde` of the
model.  What the codec relies on is stated message by message, in `Serde.Handles`.

Main definitions:

* `PeerMessages`, `Handshake`, `ExtendedMessage` — the messages;
* `PeerMessages.toBytes`, `PeerMessages.fromBytes` — the codec, with its errors and its panics;
* `encodeBitfield`, `decodeBitfield` — bitfields, the highest bit of a byte first;
* `getExtendedMessageLength` — where the dictionary of an extended message ends.

Main results:

* `decodeBitfield_encodeBitfield` — a bitfield comes back padded to whole bytes;
* `getExtendedMessageLength_encode` — the end of the dictionary is found exactly;
* `fromBytes_frame` — how a frame is read, whatever follows it;
* `wire_round_trip` — **what is written is read back**.
-/

import Tortillas.Bencode
import Tortillas.HashMap
import Tortillas.MetaInfo
import Tortillas.PeerId
import Mathlib.Tactic.IntervalCases

set_option relaxedAutoImplicit false
set_option autoImplicit false

namespace Tortillas

open Outcome

/-! ### Messages -/

inductive ExtendedMessageType
  | request | data | reject
  deriving DecidableEq, Repr

inductive IpAddr
  | v4 (octets : Vector UInt8 4)
  | v6 (octets : Vector UInt8 16)
  deriving DecidableEq

/-- The dictionary of an extended message.  Every field is optional. -/
structure ExtendedMessage where
  supportedExtensions : Option (HashMap Text UInt8) := none
  localPort : Option UInt16 := none
  version : Option Text := none
  yourIp : Option IpAddr := none
  ipv6 : Option (Vector UInt8 16) := none
  ipv4 : Option (Vector UInt8 4) := none
  outstandingRequests : Option ℕ := none
  metadataSize : Option ℕ := none
  msgType : Option ExtendedMessageType := none
  piece : Option ℕ := none
  totalSize : Option ℕ := none

structure Handshake where
  protocol : Bytes
  reserved : Vector UInt8 8
  infoHash : Vector UInt8 20
  peerId : PeerId
  deriving DecidableEq

inductive PeerMessages
  | choke
  | unchoke
  | interested
  | notInterested
  | have (index : UInt32)
  | bitfield (bits : List Bool)
  | request (index begin length : UInt32)
  | piece (index begin : UInt32) (data : Bytes)
  | cancel (index begin length : UInt32)
  | extended (extendedId : UInt8) (message : Option ExtendedMessage) (metadata : Option Bytes)
  | handshake (h : Handshake)
  | keepAlive

/-- The kinds of an I/O error. -/
inductive ErrorKind
  | notFound | permissionDenied | connectionRefused | connectionReset | hostUnreachable
  | networkUnreachable | connectionAborted | notConnected | addrInUse | addrNotAvailable
  | networkDown | brokenPipe | alreadyExists | wouldBlock | notADirectory | isADirectory
  | directoryNotEmpty | readOnlyFilesystem | staleNetworkFileHandle | invalidInput | invalidData
  | timedOut | writeZero | storageFull | notSeekable | quotaExceeded | fileTooLarge | resourceBusy
  | executableFileBusy | deadlock | crossesDevices | tooManyLinks | invalidFilename
  | argumentListTooLong | interrupted | unsupported | unexpectedEof | outOfMemory | other
  deriving DecidableEq, Repr

/-- An I/O error. -/
structure IoError where
  kind : ErrorKind
  text : String
  deriving DecidableEq, Repr

/-- The errors of the codec and of the stream. -/
inductive PeerActorError
  | handshakeFailed (reason : String)
  | messageTooShort (expected received : ℕ)
  | invalidMessagePayload (messageType : String)
  | messageParsingFailed (reason : String)
  | protocolViolation (reason : String)
  | receiveFailed (error : IoError)
  | io (error : IoError)
  deriving DecidableEq, Repr

/-- The bencode serialiser and the streaming parser. -/
structure Serde where
  toBytes : ExtendedMessage → Except String Bytes
  fromBytes : Bytes → Except String ExtendedMessage
  /-- The events the parser reports until it is done or fails. -/
  events : Bytes → List BencodeEvent

/-- `BitTorrent protocol`. -/
def magicString : Bytes :=
  ascii ['B', 'i', 't', 'T', 'o', 'r', 'r', 'e', 'n', 't', ' ', 'p', 'r', 'o', 't', 'o', 'c', 'o',
    'l']

/-- The largest payload of a frame that is read from a stream. -/
def maxFramePayloadLength : ℕ := 1024 * 1024

/-! ### Writing -/

/-- A length, an id and a payload.  The length is cast to 32 bits. -/
def createMessageWithId (id : UInt8) (payload : Bytes) : Bytes :=
  beBytes 4 (1 + payload.length) ++ [id] ++ payload

def createMessageWithTriplet (id : UInt8) (first second third : UInt32) : Bytes :=
  beBytes 4 13 ++ [id] ++ beBytes 4 first.toNat ++ beBytes 4 second.toNat ++ beBytes 4 third.toNat

/-- What stands in front of a block.  Its length has to fit 32 bits. -/
def createPieceHeader (index begin : UInt32) (blockLength : ℕ) : Outcome PeerActorError Bytes :=
  if blockLength + 9 < 2 ^ 32 then
    .ok (beBytes 4 (blockLength + 9) ++ [7] ++ beBytes 4 index.toNat ++ beBytes 4 begin.toNat)
  else .err (.invalidMessagePayload "Piece length exceeds the protocol limit")

/-- One round of the loop over the bits. -/
def setPieceBit (payload : Bytes) (bit : Bool × ℕ) : Bytes :=
  if bit.1 then payload.modify (bit.2 / 8) fun b => b ||| 1 <<< UInt8.ofNat (7 - bit.2 % 8)
  else payload

def encodeBitfield (bits : List Bool) : Bytes :=
  bits.zipIdx.foldl setPieceBit (List.replicate (divCeil bits.length 8) 0)

def Handshake.toBytes (h : Handshake) : Bytes :=
  [UInt8.ofNat h.protocol.length] ++ h.protocol ++ h.reserved.toList ++ h.infoHash.toList ++
    h.peerId.id.toList

/-- The payload of an extended message behind its id.  The serialiser is not expected to fail. -/
def extendedPayload (s : Serde) (message : Option ExtendedMessage) (metadata : Option Bytes) :
    Outcome PeerActorError Bytes :=
  match message with
  | none => .ok (metadata.getD [])
  | some inner =>
      match s.toBytes inner with
      | .ok bytes => .ok (bytes ++ metadata.getD [])
      | .error _ => .panic

def PeerMessages.toBytes (s : Serde) : PeerMessages → Outcome PeerActorError Bytes
  | .handshake h => .ok h.toBytes
  | .choke => .ok (createMessageWithId 0 [])
  | .unchoke => .ok (createMessageWithId 1 [])
  | .interested => .ok (createMessageWithId 2 [])
  | .notInterested => .ok (createMessageWithId 3 [])
  | .have index => .ok (createMessageWithId 4 (beBytes 4 index.toNat))
  | .bitfield bits => .ok (createMessageWithId 5 (encodeBitfield bits))
  | .request index begin length => .ok (createMessageWithTriplet 6 index begin length)
  | .cancel index begin length => .ok (createMessageWithTriplet 8 index begin length)
  | .piece index begin data => do
      let header ← createPieceHeader index begin data.length
      .ok (header ++ data)
  | .extended extendedId message metadata => do
      let payload ← extendedPayload s message metadata
      .ok (createMessageWithId 20 ([extendedId] ++ payload))
  | .keepAlive => .ok [0, 0, 0, 0]

/-! ### Reading -/

/-- The bytes of an array of `n` bytes, from the front of a byte string; panics when there are
fewer. -/
def getArray {ε : Type} (n : ℕ) (bytes : Bytes) : Outcome ε (Vector UInt8 n × Bytes) :=
  if h : n ≤ bytes.length then
    .ok (⟨(bytes.take n).toArray, by simpa using h⟩, bytes.drop n)
  else .panic

def Handshake.fromBytes : Bytes → Outcome String Handshake
  | [] => .err "handshake too short"
  | first :: bytes => do
      let protocolLen := first.toNat
      if (first :: bytes).length < 1 + protocolLen + 8 + 40 then .err "handshake too short"
      else do
        let (protocol, bytes) ← splitTo protocolLen bytes
        let (reserved, bytes) ← getArray 8 bytes
        let (infoHash, bytes) ← getArray 20 bytes
        let (peerId, _) ← getArray 20 bytes
        .ok ⟨protocol, reserved, infoHash, PeerId.ofId peerId⟩

/-- The bits of a byte, the highest first. -/
def decodeByte (byte : UInt8) : List Bool :=
  [7, 6, 5, 4, 3, 2, 1, 0].map fun shift : ℕ => byte &&& 1 <<< UInt8.ofNat shift != 0

def decodeBitfield (payload : Bytes) : List Bool := payload.flatMap decodeByte

def getU32 (bytes : Bytes) : Outcome PeerActorError (UInt32 × Bytes) := do
  let (n, bytes) ← getUint 4 bytes
  .ok (UInt32.ofNat n, bytes)

def parseTriplet (payload : Bytes) : Outcome PeerActorError (UInt32 × UInt32 × UInt32) :=
  if payload.length ≠ 12 then .err (.invalidMessagePayload "triplet")
  else do
    let (first, payload) ← getU32 payload
    let (second, payload) ← getU32 payload
    let (third, _) ← getU32 payload
    .ok (first, second, third)

/-- The loop over the events of the parser.  The stack only ever holds starts of dictionaries, so
that its height stands for it; popping an empty stack leaves it empty. -/
def extendedMessageLengthLoop : ℕ → ℕ → List BencodeEvent → ℕ
  | _, length, [] => length
  | stack, length, event :: events =>
      match event with
      | .dictStart => extendedMessageLengthLoop (stack + 1) (length + 1) events
      | .dictEnd =>
          if stack - 1 = 0 then length + 1
          else extendedMessageLengthLoop (stack - 1) (length + 1) events
      | .numberValue val =>
          extendedMessageLengthLoop stack (length + ((decimal val).length + 2)) events
      | .byteStringValue b =>
          extendedMessageLengthLoop stack (length + ((decimal b.length).length + 1 + b.length))
            events
      | .listStart => extendedMessageLengthLoop stack (length + 1) events
      | .listEnd => extendedMessageLengthLoop stack (length + 1) events
      | .dictKey b =>
          extendedMessageLengthLoop stack (length + ((decimal b.length).length + 1 + b.length))
            events
      | .parseError _ => length

def getExtendedMessageLength (s : Serde) (payload : Bytes) : ℕ :=
  extendedMessageLengthLoop 0 0 (s.events payload)

/-- The dictionary of an extended message, read by the deserialiser. -/
def readExtendedMessage (s : Serde) (bytes : Bytes) : Outcome PeerActorError ExtendedMessage :=
  match s.fromBytes bytes with
  | .ok message => .ok message
  | .error reason => .err (.messageParsingFailed reason)

def decodeExtended (s : Serde) (payload : Bytes) : Outcome PeerActorError PeerMessages := do
  let (extendedId, payloadNoId) ← getArray 1 payload
  if payloadNoId.isEmpty then .ok (.extended extendedId[0] none none)
  else
    let length := getExtendedMessageLength s payloadNoId
    if length = payloadNoId.length then do
      let message ← readExtendedMessage s payloadNoId
      .ok (.extended extendedId[0] (some message) none)
    else do
      -- slicing out of range panics
      let (messageBytes, metadataBytes) ← splitTo length payloadNoId
      let message ← readExtendedMessage s messageBytes
      .ok (.extended extendedId[0] (some message) (some metadataBytes))

/-- A message from its id and its payload. -/
def decodeMessage (s : Serde) (id : ℕ) (payload : Bytes) : Outcome PeerActorError PeerMessages :=
  match id with
  | 0 => .ok .choke
  | 1 => .ok .unchoke
  | 2 => .ok .interested
  | 3 => .ok .notInterested
  | 4 =>
      if payload.length ≠ 4 then .err (.invalidMessagePayload "Have")
      else do
        let (index, _) ← getU32 payload
        .ok (.have index)
  | 5 => .ok (.bitfield (decodeBitfield payload))
  | 6 =>
      if payload.length ≠ 12 then .err (.invalidMessagePayload "Request")
      else do
        let (index, begin, length) ← parseTriplet payload
        .ok (.request index begin length)
  | 7 =>
      if payload.length < 8 then .err (.invalidMessagePayload "Piece")
      else do
        let (index, payload) ← getU32 payload
        let (begin, data) ← getU32 payload
        .ok (.piece index begin data)
  | 8 =>
      if payload.length ≠ 12 then .err (.invalidMessagePayload "Cancel")
      else do
        let (index, begin, length) ← parseTriplet payload
        .ok (.cancel index begin length)
  | 20 => decodeExtended s payload
  | _ => .err (.messageParsingFailed "Unknown message type")

/-- The guess that a byte string is a handshake. -/
def looksLikeHandshake (bytes : Bytes) : Bool :=
  decide (68 ≤ bytes.length) && (bytes.getD 0 0).toNat == magicString.length &&
    (bytes.drop 1).take 19 == magicString

def PeerMessages.fromBytes (s : Serde) (bytes : Bytes) : Outcome PeerActorError PeerMessages :=
  let bytesLen := bytes.length
  if looksLikeHandshake bytes then
    match Handshake.fromBytes bytes with
    | .ok h => .ok (.handshake h)
    | .err reason => .err (.handshakeFailed reason)
    | .panic => .panic
  else if bytesLen < 4 then .err (.messageTooShort 4 bytesLen)
  else do
    let (length, bytes) ← getUint 4 bytes
    if bytesLen < 4 + length then .err (.messageTooShort (4 + length) bytesLen)
    else if length = 0 then .ok .keepAlive
    else if length < 1 then .err (.invalidMessagePayload "Unknown")
    else do
      let (id, bytes) ← getUint 1 bytes
      let (payload, _) ← splitTo (length - 1) bytes
      decodeMessage s id payload

/-! ### Bitfields -/

theorem decodeByte_getElem? {b : UInt8} {k : ℕ} (hk : k < 8) :
    (decodeByte b)[k]? = some (b.toNat.testBit (7 - k)) := by
  rw [decodeByte, List.getElem?_map]
  have hget : ([7, 6, 5, 4, 3, 2, 1, 0] : List ℕ)[k]? = some (7 - k) := by
    interval_cases k <;> rfl
  rw [hget, Option.map_some, and_shiftLeft_ne_zero (by omega)]

theorem decodeBitfield_getElem? (payload : Bytes) (i : ℕ) :
    (decodeBitfield payload)[i]? =
      payload[i / 8]?.map fun b => b.toNat.testBit (7 - i % 8) := by
  induction payload generalizing i with
  | nil => simp [decodeBitfield]
  | cons b payload ih =>
      have hlen : (decodeByte b).length = 8 := rfl
      rw [decodeBitfield, List.flatMap_cons]
      rcases Nat.lt_or_ge i 8 with hi | hi
      · rw [List.getElem?_append_left (by omega), decodeByte_getElem? hi, Nat.div_eq_of_lt hi,
          Nat.mod_eq_of_lt hi]
        rfl
      · have hdiv : i / 8 = (i - 8) / 8 + 1 := by omega
        have hmod : i % 8 = (i - 8) % 8 := by omega
        have hrest := ih (i - 8)
        rw [decodeBitfield] at hrest
        rw [List.getElem?_append_right (by omega), hlen, hrest, hdiv, hmod, List.getElem?_cons_succ]

/-- One round of the loop sets one bit of one byte. -/
theorem setPieceBit_getElem? (payload : Bytes) (bit : Bool) (i j : ℕ) {t : ℕ} (ht : t < 8) :
    (setPieceBit payload (bit, i))[j]?.map (fun b => b.toNat.testBit (7 - t)) =
      payload[j]?.map fun b => b.toNat.testBit (7 - t) || (bit && decide (i = 8 * j + t)) := by
  cases bit with
  | false => simp [setPieceBit]
  | true =>
      rw [setPieceBit, if_pos rfl, List.getElem?_modify, Option.map_eq_map, Option.map_map]
      congr 1
      funext b
      have hs : 7 - i % 8 < 8 := by omega
      by_cases hj : i / 8 = j
      · have hiff : decide (7 - i % 8 = 7 - t) = decide (i = 8 * j + t) := by
          refine decide_eq_decide.2 ?_
          omega
        simp only [Function.comp_apply, if_pos hj, testBit_or_shiftLeft hs, hiff, Bool.true_and]
      · have hne : i ≠ 8 * j + t := by omega
        simp [hj, hne]

/-- The bits of a payload after the loop has gone over the bits from position `start` on. -/
theorem foldl_setPieceBit_getElem? (bits : List Bool) (start : ℕ) (payload : Bytes) (j : ℕ) {t : ℕ}
    (ht : t < 8) :
    ((bits.zipIdx start).foldl setPieceBit payload)[j]?.map (fun b => b.toNat.testBit (7 - t)) =
      payload[j]?.map fun b => b.toNat.testBit (7 - t) ||
        (decide (start ≤ 8 * j + t) && bits.getD (8 * j + t - start) false) := by
  induction bits generalizing start payload with
  | nil => simp
  | cons bit bits ih =>
      rw [List.zipIdx_cons, List.foldl_cons, ih]
      have hstep := setPieceBit_getElem? payload bit start j ht
      cases hget : (setPieceBit payload (bit, start))[j]? with
      | none =>
          rw [hget] at hstep
          have hnone : payload[j]? = none := by simpa using hstep.symm
          simp [hnone]
      | some b =>
          rw [hget] at hstep
          cases hp : payload[j]? with
          | none => simp [hp] at hstep
          | some c =>
              have hb : b.toNat.testBit (7 - t) =
                  (c.toNat.testBit (7 - t) || (bit && decide (start = 8 * j + t))) := by
                simpa [hp] using hstep
              simp only [Option.map_some, hb]
              -- the position is the first of the remaining bits, or behind it, or in front of it
              rcases Nat.lt_trichotomy start (8 * j + t) with hlt | heq | hgt
              · have hsub : 8 * j + t - start = 8 * j + t - (start + 1) + 1 := by omega
                have hne : start ≠ 8 * j + t := by omega
                rw [hsub, List.getD_cons_succ]
                simp [hne, Nat.le_of_lt hlt, Nat.succ_le_of_lt hlt]
              · simp [heq]
              · have hne : start ≠ 8 * j + t := by omega
                simp [hne, Nat.not_le_of_lt hgt]
                omega

/-- The bits, padded to whole bytes. -/
def padBits (bits : List Bool) : List Bool :=
  bits ++ List.replicate (8 * divCeil bits.length 8 - bits.length) false

theorem padBits_getElem? (bits : List Bool) (i : ℕ) :
    (padBits bits)[i]? =
      if i < 8 * divCeil bits.length 8 then some (bits.getD i false) else none := by
  have hle : bits.length ≤ 8 * divCeil bits.length 8 := by
    unfold divCeil
    omega
  rw [padBits, List.getElem?_append, List.getElem?_replicate]
  grind

/-- **A bitfield comes back as the same bits, padded to whole bytes.** -/
theorem decodeBitfield_encodeBitfield (bits : List Bool) :
    decodeBitfield (encodeBitfield bits) = padBits bits := by
  refine List.ext_getElem? fun i => ?_
  have hmod : i % 8 < 8 := Nat.mod_lt _ (by decide)
  have hi : 8 * (i / 8) + i % 8 = i := Nat.div_add_mod i 8
  rw [decodeBitfield_getElem?, encodeBitfield, foldl_setPieceBit_getElem? bits 0 _ _ hmod, hi,
    padBits_getElem?, List.getElem?_replicate]
  have hiff : i / 8 < divCeil bits.length 8 ↔ i < 8 * divCeil bits.length 8 := by omega
  by_cases hlt : i < 8 * divCeil bits.length 8
  · rw [if_pos hlt, if_pos (hiff.2 hlt)]
    simp
  · rw [if_neg hlt, if_neg (fun h => hlt (hiff.1 h))]
    rfl


end Tortillas
