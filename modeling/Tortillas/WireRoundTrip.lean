/-
**What is written on the wire is read back.**

Every message but the handshake is written as a frame: the length of the body, and the body, which
is the id of the message and its payload.  A frame within the limit starts with a zero byte and so
never looks like a handshake, and the decoder reads its body and nothing behind it.  What remains is
one argument for each kind of payload.

Main definitions:

* `PeerMessages.body` — what stands behind the length of a message;
* `PeerMessages.Representable` — the messages the wire has a form for;
* `Serde.Handles` — what is assumed of the bencode serialiser and parser, for one message;
* `PeerMessages.padded` — the message that comes back.

Main results:

* `getExtendedMessageLength_encode` — where the dictionary of an extended message ends;
* `fromBytes_frame` — how a frame is read, whatever follows it;
* `toBytes_eq_frame` — what is written is a frame;
* `wire_round_trip` — **the round trip**.
-/

import Tortillas.PeerMessages

set_option relaxedAutoImplicit false
set_option autoImplicit false

namespace Tortillas

open Outcome

/-! ### Reading what was written -/

theorem getU32_append (n : UInt32) (rest : Bytes) :
    getU32 (beBytes 4 n.toNat ++ rest) = .ok (n, rest) := by
  have hlt : n.toNat < 256 ^ 4 := n.toNat_lt
  rw [getU32, getUint_append, ok_bind, Nat.mod_eq_of_lt hlt]
  simp

theorem getArray_append {ε : Type} {n : ℕ} (a : Vector UInt8 n) (rest : Bytes) :
    (getArray n (a.toList ++ rest) : Outcome ε _) = .ok (a, rest) := by
  have hlen : a.toList.length = n := by simp
  have hle : n ≤ (a.toList ++ rest).length := by simp
  rw [getArray, dif_pos hle]
  congr 2
  · refine Vector.toList_inj.1 ?_
    simp [Vector.toList]
  · exact List.drop_left' hlen

theorem parseTriplet_append (first second third : UInt32) :
    parseTriplet (beBytes 4 first.toNat ++ beBytes 4 second.toNat ++ beBytes 4 third.toNat) =
      .ok (first, second, third) := by
  have hlast := getU32_append third []
  rw [List.append_nil] at hlast
  rw [parseTriplet, if_neg (by simp), List.append_assoc]
  simp only [getU32_append, ok_bind, hlast]

/-- The loop of the source is a scan of the events. -/
theorem extendedMessageLengthLoop_eq (stack length : ℕ) (events : List BencodeEvent) :
    extendedMessageLengthLoop stack length events = length + BencodeEvent.scan stack events := by
  induction events generalizing stack length with
  | nil => rfl
  | cons event events ih =>
      cases event with
      | dictEnd =>
          by_cases hlast : stack - 1 = 0
          · simp [extendedMessageLengthLoop, BencodeEvent.scan, BencodeEvent.stops,
              BencodeEvent.width, hlast]
          · simp [extendedMessageLengthLoop, BencodeEvent.scan, BencodeEvent.stops,
              BencodeEvent.width, BencodeEvent.depth, hlast, ih]
            omega
      | _ =>
          simp [extendedMessageLengthLoop, BencodeEvent.scan, BencodeEvent.stops,
            BencodeEvent.width, BencodeEvent.stringWidth, BencodeEvent.depth, ih]
          try omega

/-- The parser reports the events of a dictionary before it looks at anything behind it. -/
def Serde.Reports (s : Serde) (entries : List (Bytes × Bencode)) : Prop :=
  ∀ rest, (Bencode.dict entries).events <+: s.events ((Bencode.dict entries).encode ++ rest)

/-- **The end of the dictionary is found exactly.** -/
theorem getExtendedMessageLength_encode {s : Serde} {entries : List (Bytes × Bencode)}
    (h : s.Reports entries) (rest : Bytes) :
    getExtendedMessageLength s ((Bencode.dict entries).encode ++ rest) =
      (Bencode.dict entries).encode.length := by
  obtain ⟨more, hmore⟩ := h rest
  rw [getExtendedMessageLength, extendedMessageLengthLoop_eq, ← hmore, Bencode.scan_dict,
    Nat.zero_add]

/-! ### Frames -/

/-- How the body of a frame is read. -/
def readBody (s : Serde) : Bytes → Outcome PeerActorError PeerMessages
  | [] => .ok .keepAlive
  | id :: payload => decodeMessage s id.toNat payload

/-- The first byte of a length within the limit is zero, so that no frame looks like a
handshake. -/
theorem looksLikeHandshake_frame {n : ℕ} (h : n ≤ maxFramePayloadLength) (rest : Bytes) :
    looksLikeHandshake (beBytes 4 n ++ rest) = false := by
  have hzero : n / 16777216 = 0 := Nat.div_eq_of_lt (lt_of_le_of_lt h (by decide))
  have hfirst : (beBytes 4 n ++ rest).getD 0 0 = 0 := by
    rw [List.getD_eq_getElem?_getD, ← List.head?_eq_getElem?, List.head?_append,
      head?_beBytes_four, hzero]
    rfl
  rw [looksLikeHandshake, hfirst]
  simp [magicString, ascii]

/-- **How a frame within the limit is read**: its body, and nothing of what follows. -/
theorem fromBytes_frame (s : Serde) (body rest : Bytes) (h : body.length ≤ maxFramePayloadLength) :
    PeerMessages.fromBytes s (beBytes 4 body.length ++ body ++ rest) = readBody s body := by
  have hlt : body.length < 256 ^ 4 := lt_of_le_of_lt h (by decide)
  have hno : looksLikeHandshake (beBytes 4 body.length ++ body ++ rest) = false := by
    rw [List.append_assoc]
    exact looksLikeHandshake_frame h _
  have hlen : (beBytes 4 body.length ++ body ++ rest).length = 4 + body.length + rest.length := by
    simp [Nat.add_assoc]
  rw [PeerMessages.fromBytes, hno, if_neg (by simp), if_neg (by omega), List.append_assoc,
    getUint_append, ok_bind, Nat.mod_eq_of_lt hlt]
  simp only [List.length_append, length_beBytes]
  rw [if_neg (by omega)]
  cases body with
  | nil => rfl
  | cons id payload =>
      have hid : (getUint 1 (id :: payload ++ rest) : Outcome PeerActorError _) =
          .ok (id.toNat, payload ++ rest) := by
        simp [getUint, beNat]
      simp only [hid, ok_bind, List.length_cons, Nat.succ_ne_zero, if_false,
        Nat.not_lt.2 (Nat.le_add_left 1 _), Nat.add_sub_cancel, splitTo_append]
      rfl

/-! ### Messages -/

/-- The text of the dictionary of an extended message. -/
def Serde.dictionary (s : Serde) : Option ExtendedMessage → Bytes
  | none => []
  | some e =>
      match s.toBytes e with
      | .ok bytes => bytes
      | .error _ => []

/-- What stands behind the length of a message: its id and its payload. -/
def PeerMessages.body (s : Serde) : PeerMessages → Bytes
  | .choke => [0]
  | .unchoke => [1]
  | .interested => [2]
  | .notInterested => [3]
  | .have index => 4 :: beBytes 4 index.toNat
  | .bitfield bits => 5 :: encodeBitfield bits
  | .request index begin length =>
      6 :: (beBytes 4 index.toNat ++ beBytes 4 begin.toNat ++ beBytes 4 length.toNat)
  | .piece index begin data => 7 :: (beBytes 4 index.toNat ++ beBytes 4 begin.toNat ++ data)
  | .cancel index begin length =>
      8 :: (beBytes 4 index.toNat ++ beBytes 4 begin.toNat ++ beBytes 4 length.toNat)
  | .extended extendedId message metadata =>
      20 :: extendedId :: (s.dictionary message ++ metadata.getD [])
  | .handshake _ => []
  | .keepAlive => []

def PeerMessages.isHandshake : PeerMessages → Bool
  | .handshake _ => true
  | _ => false

/-- The serialiser writes the dictionary of a message, if it has one. -/
def Serde.Writes (s : Serde) : PeerMessages → Prop
  | .extended _ (some e) _ => ∃ bytes, s.toBytes e = .ok bytes
  | _ => True

/-- A message that was written had its dictionary written. -/
theorem writes_of_toBytes {s : Serde} {m : PeerMessages} {bytes : Bytes}
    (h : m.toBytes s = .ok bytes) : s.Writes m := by
  cases m with
  | extended extendedId message metadata =>
      cases message with
      | none => trivial
      | some e =>
          cases he : s.toBytes e with
          | ok dictionary => exact ⟨dictionary, he⟩
          | error reason => simp [PeerMessages.toBytes, extendedPayload, he] at h
  | _ => trivial

/-- **What is written is a frame.** -/
theorem toBytes_eq_frame {s : Serde} {m : PeerMessages} (hm : m.isHandshake = false)
    (hs : s.Writes m) (hfit : (m.body s).length ≤ maxFramePayloadLength) :
    m.toBytes s = .ok (beBytes 4 (m.body s).length ++ m.body s) := by
  cases m with
  | handshake h => cases hm
  | bitfield bits =>
      simp [PeerMessages.toBytes, PeerMessages.body, createMessageWithId, Nat.add_comm]
  | request index begin length =>
      simp [PeerMessages.toBytes, PeerMessages.body, createMessageWithTriplet]
  | cancel index begin length =>
      simp [PeerMessages.toBytes, PeerMessages.body, createMessageWithTriplet]
  | piece index begin data =>
      have hlen : ((PeerMessages.piece index begin data).body s).length = data.length + 9 := by
        simp [PeerMessages.body]
        omega
      rw [hlen] at hfit ⊢
      have hlt : data.length + 9 < 2 ^ 32 := lt_of_le_of_lt hfit (by decide)
      rw [PeerMessages.toBytes, createPieceHeader, if_pos hlt, ok_bind]
      simp [PeerMessages.body]
  | extended extendedId message metadata =>
      cases message with
      | none =>
          simp [PeerMessages.toBytes, PeerMessages.body, extendedPayload, Serde.dictionary,
            createMessageWithId, Nat.add_comm]
      | some e =>
          obtain ⟨bytes, hbytes⟩ := hs
          simp [PeerMessages.toBytes, PeerMessages.body, extendedPayload, Serde.dictionary,
            createMessageWithId, hbytes, Nat.add_comm]
  | _ => simp [PeerMessages.toBytes, PeerMessages.body, createMessageWithId, beBytes]

/-- What the codec relies on for one dictionary: the serialiser writes it as the canonical text of
a bencoded dictionary and reads that text back, and the parser reports the events of the text. -/
structure Serde.Faithful (s : Serde) (e : ExtendedMessage) (entries : List (Bytes × Bencode)) :
    Prop where
  writes : s.toBytes e = .ok (Bencode.dict entries).encode
  reads : s.fromBytes (Bencode.dict entries).encode = .ok e
  reports : s.Reports entries

/-- What the codec relies on for one message. -/
def Serde.Handles (s : Serde) : PeerMessages → Prop
  | .extended _ (some e) _ => ∃ entries, s.Faithful e entries
  | _ => True

theorem Serde.Handles.writes {s : Serde} {m : PeerMessages} (h : s.Handles m) : s.Writes m := by
  cases m with
  | extended extendedId message metadata =>
      cases message with
      | none => trivial
      | some e =>
          obtain ⟨entries, he⟩ := h
          exact ⟨_, he.writes⟩
  | _ => trivial

/-- The messages the wire has a form for.  A handshake comes back filed under the client that its
peer id announces, and an extended message without a dictionary has no metadata. -/
def PeerMessages.Representable : PeerMessages → Prop
  | .handshake h => h.protocol = magicString ∧ h.peerId = PeerId.ofId h.peerId.id
  | .extended _ (some _) metadata => metadata ≠ some []
  | .extended _ none metadata => metadata = none
  | _ => True

/-- The message that comes back: a bitfield is padded to whole bytes. -/
def PeerMessages.padded : PeerMessages → PeerMessages
  | .bitfield bits => .bitfield (padBits bits)
  | m => m

theorem encode_dict_ne_nil (entries : List (Bytes × Bencode)) :
    (Bencode.dict entries).encode ≠ [] := by
  simp [Bencode.encode, ascii]

theorem decodeExtended_body {s : Serde} {extendedId : UInt8} {message : Option ExtendedMessage}
    {metadata : Option Bytes} (hs : s.Handles (.extended extendedId message metadata))
    (hm : (PeerMessages.extended extendedId message metadata).Representable) :
    decodeExtended s (extendedId :: (s.dictionary message ++ metadata.getD [])) =
      .ok (.extended extendedId message metadata) := by
  have hid := getArray_append (ε := PeerActorError) #v[extendedId]
    (s.dictionary message ++ metadata.getD [])
  have hcons : (#v[extendedId] : Vector UInt8 1).toList = [extendedId] := rfl
  rw [hcons, List.singleton_append] at hid
  rw [decodeExtended, hid, ok_bind]
  cases message with
  | none =>
      obtain rfl : metadata = none := hm
      rfl
  | some e =>
      obtain ⟨entries, he⟩ := hs
      have hdict : s.dictionary (some e) = (Bencode.dict entries).encode := by
        simp only [Serde.dictionary, he.writes]
      have hne := encode_dict_ne_nil entries
      have hlength := getExtendedMessageLength_encode he.reports (metadata.getD [])
      have hread : readExtendedMessage s (Bencode.dict entries).encode = .ok e := by
        rw [readExtendedMessage, he.reads]
      simp only [hdict, hlength]
      cases metadata with
      | none => simp [hne, hread]
      | some data =>
          have hdata : data ≠ [] := fun h => hm (by rw [h])
          simp [hne, hdata, splitTo_append, hread]

/-- The body of a message is read back. -/
theorem readBody_body {s : Serde} {m : PeerMessages} (hm : m.Representable) (hs : s.Handles m)
    (hno : m.isHandshake = false) : readBody s (m.body s) = .ok m.padded := by
  cases m with
  | handshake h => cases hno
  | bitfield bits =>
      simp [PeerMessages.body, readBody, decodeMessage, PeerMessages.padded,
        decodeBitfield_encodeBitfield]
  | «have» index =>
      have hindex := getU32_append index []
      rw [List.append_nil] at hindex
      simp [PeerMessages.body, readBody, decodeMessage, PeerMessages.padded, hindex]
  | request index begin length =>
      have htriplet := parseTriplet_append index begin length
      rw [List.append_assoc] at htriplet
      simp [PeerMessages.body, readBody, PeerMessages.padded, decodeMessage, htriplet]
  | cancel index begin length =>
      have htriplet := parseTriplet_append index begin length
      rw [List.append_assoc] at htriplet
      simp [PeerMessages.body, readBody, PeerMessages.padded, decodeMessage, htriplet]
  | piece index begin data =>
      simp [PeerMessages.body, readBody, PeerMessages.padded, decodeMessage, getU32_append]
      omega
  | extended extendedId message metadata => exact decodeExtended_body hs hm
  | _ => rfl

theorem decodeExtended_not_handshake {s : Serde} {payload : Bytes} {m : PeerMessages}
    (h : decodeExtended s payload = .ok m) : m.isHandshake = false := by
  unfold decodeExtended at h
  obtain ⟨⟨extendedId, payloadNoId⟩, -, h⟩ := bind_eq_ok.1 h
  dsimp only at h
  split_ifs at h
  · cases h
    rfl
  · obtain ⟨message, -, h⟩ := bind_eq_ok.1 h
    cases h
    rfl
  · obtain ⟨parts, -, h⟩ := bind_eq_ok.1 h
    obtain ⟨message, -, h⟩ := bind_eq_ok.1 h
    cases h
    rfl

/-- No id stands for a handshake. -/
theorem decodeMessage_not_handshake {s : Serde} {id : ℕ} {payload : Bytes} {m : PeerMessages}
    (h : decodeMessage s id payload = .ok m) : m.isHandshake = false := by
  unfold decodeMessage at h
  split at h
  case h_10 => exact decodeExtended_not_handshake h
  all_goals try (split_ifs at h)
  -- what is left of the other ids reads one or two numbers first
  all_goals try (cases h <;> rfl)
  all_goals
    obtain ⟨a, -, h⟩ := bind_eq_ok.1 h
    try obtain ⟨b, -, h⟩ := bind_eq_ok.1 h
    cases h
    rfl

theorem readBody_not_handshake {s : Serde} {body : Bytes} {m : PeerMessages}
    (h : readBody s body = .ok m) : m.isHandshake = false := by
  cases body with
  | nil =>
      cases h
      rfl
  | cons id payload => exact decodeMessage_not_handshake h

/-! ### The handshake -/

theorem looksLikeHandshake_toBytes {h : Handshake} (hp : h.protocol = magicString) (rest : Bytes) :
    looksLikeHandshake (h.toBytes ++ rest) = true := by
  have hlen : magicString.length = 19 := rfl
  have hbytes : h.toBytes ++ rest =
      19 :: (magicString ++ (h.reserved.toList ++ h.infoHash.toList ++ h.peerId.id.toList ++ rest)) := by
    simp [Handshake.toBytes, hp, hlen]
  have hsize : 68 ≤ (h.toBytes ++ rest).length := by
    simp [hbytes, hlen]
    omega
  have htake : ((h.toBytes ++ rest).drop 1).take 19 = magicString := by
    rw [hbytes, List.drop_one, List.tail_cons]
    exact List.take_left' hlen
  have hfirst : ((h.toBytes ++ rest).getD 0 0).toNat = magicString.length := by
    rw [hbytes]
    rfl
  rw [looksLikeHandshake, htake, hfirst, decide_eq_true hsize]
  decide

theorem Handshake.fromBytes_toBytes {h : Handshake} (hp : h.protocol = magicString)
    (hid : h.peerId = PeerId.ofId h.peerId.id) (rest : Bytes) :
    Handshake.fromBytes (h.toBytes ++ rest) = .ok h := by
  have hlen : h.protocol.length = 19 := by rw [hp]; rfl
  have hfirst : (UInt8.ofNat h.protocol.length).toNat = h.protocol.length := by rw [hlen]; rfl
  simp only [Handshake.toBytes, List.cons_append, List.nil_append,
    List.append_assoc, Handshake.fromBytes, hfirst]
  rw [if_neg (by simp; omega), splitTo_append, ok_bind]
  simp only [getArray_append, ok_bind, ← hid]

/-! ### The round trip -/

/-- **What is written is read back.**  A message the wire has a form for, within the frame limit,
comes back from its bytes whatever follows them; no other message within the limit is taken for a
handshake; and of any frame within the limit nothing is read but the frame. -/
theorem wire_round_trip (s : Serde) :
    (∀ m : PeerMessages, m.Representable → s.Handles m →
      (m.body s).length ≤ maxFramePayloadLength →
        ∃ bytes, m.toBytes s = .ok bytes ∧
          ∀ rest, PeerMessages.fromBytes s (bytes ++ rest) = .ok m.padded) ∧
      (∀ (m : PeerMessages) (bytes rest : Bytes) (h : Handshake), m.isHandshake = false →
        (m.body s).length ≤ maxFramePayloadLength → m.toBytes s = .ok bytes →
          PeerMessages.fromBytes s (bytes ++ rest) ≠ .ok (.handshake h)) ∧
      ∀ body rest : Bytes, body.length ≤ maxFramePayloadLength →
        PeerMessages.fromBytes s (beBytes 4 body.length ++ body ++ rest) =
          PeerMessages.fromBytes s (beBytes 4 body.length ++ body) := by
  refine ⟨fun m hm hs hfit => ?_, fun m bytes rest h hno hfit hbytes heq => ?_,
    fun body rest hfit => ?_⟩
  · by_cases hno : m.isHandshake = true
    · obtain ⟨h, rfl⟩ : ∃ h, m = .handshake h := by
        cases m with
        | handshake h => exact ⟨h, rfl⟩
        | _ => cases hno
      refine ⟨h.toBytes, rfl, fun rest => ?_⟩
      rw [PeerMessages.fromBytes, looksLikeHandshake_toBytes hm.1, if_pos rfl,
        Handshake.fromBytes_toBytes hm.1 hm.2]
      rfl
    · have hfalse : m.isHandshake = false := by simpa using hno
      refine ⟨_, toBytes_eq_frame hfalse hs.writes hfit, fun rest => ?_⟩
      rw [fromBytes_frame s _ rest hfit, readBody_body hm hs hfalse]
  · have hwrites : s.Writes m := writes_of_toBytes hbytes
    rw [toBytes_eq_frame hno hwrites hfit] at hbytes
    cases hbytes
    rw [fromBytes_frame s _ rest hfit] at heq
    cases readBody_not_handshake heq
  · have hself := fromBytes_frame s body [] hfit
    rw [List.append_nil] at hself
    rw [fromBytes_frame s body rest hfit, hself]

namespace Sample

/-- The dictionary in front of the first three bytes of metadata. -/
def dataMessage : ExtendedMessage := { msgType := some .data, piece := some 0, totalSize := some 3 }

def dataEntries : List (Bytes × Bencode) :=
  [(ascii ['m', 's', 'g', '_', 't', 'y', 'p', 'e'], .int 1),
    (ascii ['p', 'i', 'e', 'c', 'e'], .int 0),
    (ascii ['t', 'o', 't', 'a', 'l', '_', 's', 'i', 'z', 'e'], .int 3)]

/-- A serialiser and a parser that know one dictionary. -/
def serde : Serde where
  toBytes _ := .ok (Bencode.dict dataEntries).encode
  fromBytes bytes :=
    if bytes = (Bencode.dict dataEntries).encode then .ok dataMessage else .error "unknown text"
  events bytes :=
    if (Bencode.dict dataEntries).encode <+: bytes then (Bencode.dict dataEntries).events
    else [.parseError "unknown text"]

theorem faithful_serde : serde.Faithful dataMessage dataEntries where
  writes := rfl
  reads := by simp [serde]
  reports rest := by
    have hstarts : (Bencode.dict dataEntries).encode <+:
        (Bencode.dict dataEntries).encode ++ rest := List.prefix_append _ _
    simp [serde, hstarts]

/-- The bytes of a peer id that announces this client. -/
def announced : Id := ⟨(ascii ['-', 'T', 'O', '0', '0', '0', '1', '-', 'a', 'b', 'c', 'd', 'e', 'f',
  'g', 'h', 'i', 'j', 'k', 'l']).toArray, rfl⟩

/-- A handshake with a peer id that is filed under `unknown`, although its bytes announce this
client. -/
def misfiled : Handshake :=
  ⟨magicString, Vector.replicate 8 0, Vector.replicate 20 0, ⟨.unknown, announced⟩⟩

end Sample

/-- The round trip at a piece of metadata behind its dictionary, and at a handshake. -/
theorem wire_round_trip_sample :
    (∃ bytes,
      (PeerMessages.extended 1 (some Sample.dataMessage) (some [100, 49, 58])).toBytes
          Sample.serde = .ok bytes ∧
        ∀ rest, PeerMessages.fromBytes Sample.serde (bytes ++ rest) =
          .ok (.extended 1 (some Sample.dataMessage) (some [100, 49, 58]))) ∧
      ∃ bytes,
        (PeerMessages.handshake { Sample.misfiled with peerId := .ofId Sample.announced }).toBytes
            Sample.serde = .ok bytes ∧
          ∀ rest, PeerMessages.fromBytes Sample.serde (bytes ++ rest) =
            .ok (.handshake { Sample.misfiled with peerId := .ofId Sample.announced }) :=
  ⟨(wire_round_trip Sample.serde).1 _ (by simp [PeerMessages.Representable])
      ⟨_, Sample.faithful_serde⟩ (by decide),
    (wire_round_trip Sample.serde).1 _ ⟨rfl, rfl⟩ trivial (by decide)⟩

/-- A handshake comes back with its peer id filed under the client its bytes announce, so that one
that is filed elsewhere does not come back. -/
theorem misfiled_handshake_not_read_back :
    ((PeerMessages.handshake Sample.misfiled).toBytes Sample.serde >>=
      PeerMessages.fromBytes Sample.serde) ≠ .ok (.handshake Sample.misfiled) := by
  have hread : ((PeerMessages.handshake Sample.misfiled).toBytes Sample.serde >>=
      PeerMessages.fromBytes Sample.serde) =
        .ok (.handshake { Sample.misfiled with peerId := .ofId Sample.announced }) := by
    have hlooks : looksLikeHandshake Sample.misfiled.toBytes = true := by decide
    have hback : Handshake.fromBytes Sample.misfiled.toBytes =
        .ok { Sample.misfiled with peerId := .ofId Sample.announced } := rfl
    rw [PeerMessages.toBytes, ok_bind, PeerMessages.fromBytes, hlooks, if_pos rfl, hback]
  rw [hread]
  intro h
  injection h with h
  injection h with h
  exact absurd h (by decide)

end Tortillas
