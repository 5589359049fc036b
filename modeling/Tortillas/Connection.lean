/-
**What is under a conversation: bytes.**

`protocol/stream.rs`, `peer/actor.rs`: the messages of an actor are written as frames, one behind the
other; the transport carries their bytes and delivers them in pieces of its own choosing; the loop of
the other actor calls `recv`, drops the call whenever something else comes first, and hands on what
it yields.  None of this shows in a conversation, whose wire is a queue of messages.  It need not:
the bytes that a side has written and the other has not taken out of its buffer are always those of
the messages on their way, in order, and a call of `recv` yields the first of them or nothing.  So
every run of the bytes is a run of the messages, and what is proved of conversations holds of
connections.

A frame has to be within the limit that the other end checks.  A bitfield of more than eight million
pieces is not, and neither is a block of a megabyte; this is the one condition.

Main definitions:

* `written` — the bytes of messages;
* `Connection`, `Connection.step`, `connectionSystem` — two actors, their buffers and the transport;
* `Small` — what is sent fits into a frame;
* `Connection.Refines` — the bytes on their way are those of the messages on their way.

Main results:

* `nextFrame_of_part` — a part of a frame is not taken for a frame;
* `poll_frames` — what a call of `recv` yields is the message that comes next, or nothing;
* `connection_refines` — **every run of a connection is a run of a conversation**.
-/

import Tortillas.ConversationBlocks
import Tortillas.ReceiveLoop

set_option relaxedAutoImplicit false
set_option autoImplicit false

namespace Tortillas

/-! ### Frames on their way -/

/-- A part of a frame is not taken for a frame, nor for a header that is too large. -/
theorem nextFrame_of_part {max : ℕ} {frame part rest : Bytes} (h : IsFrame max frame)
    (hsplit : frame = part ++ rest) (hrest : rest ≠ []) : nextFrame max part = .more := by
  have hpos := List.length_pos_iff.2 hrest
  have hlen := congrArg List.length hsplit
  rw [List.length_append] at hlen
  rw [nextFrame]
  by_cases hheader : part.length < 4
  · rw [if_pos hheader]
  · have hann : announced part = announced frame := by
      rw [hsplit, announced_append (Nat.le_of_not_lt hheader)]
    have hexact := h.exact
    have hbounded := h.bounded
    rw [if_neg hheader, hann, if_neg (by omega), if_pos (by omega)]

/-- A message as it is written: the length of its body and its body. -/
def PeerMessages.frame (s : Serde) (m : PeerMessages) : Bytes :=
  beBytes 4 (m.body s).length ++ m.body s

/-- The messages whose frames the other end accepts. -/
def PeerMessages.Sendable (s : Serde) (m : PeerMessages) : Prop :=
  m.plain = true ∧ (m.body s).length ≤ maxFramePayloadLength

theorem isFrame_frame {s : Serde} {m : PeerMessages} (h : m.Sendable s) :
    IsFrame maxFramePayloadLength (m.frame s) := by
  have hlt : (m.body s).length < 256 ^ 4 := lt_of_le_of_lt h.2 (by decide)
  have hann : announced (m.frame s) = (m.body s).length := by
    rw [announced, PeerMessages.frame, List.take_left' (length_beBytes 4 _), beNat_beBytes,
      Nat.mod_eq_of_lt hlt]
  refine ⟨?_, ?_, ?_⟩
  · simp [PeerMessages.frame]
  · rw [hann]
    exact h.2
  · rw [hann]
    simp [PeerMessages.frame]

theorem not_handshake_of_plain {m : PeerMessages} (h : m.plain = true) : m.isHandshake = false := by
  cases m with
  | handshake h' => cases h
  | _ => rfl

/-- The frame of a message is read back. -/
theorem fromBytes_frame_self {s : Serde} {m : PeerMessages} (h : m.Sendable s) :
    PeerMessages.fromBytes s (m.frame s) = .ok m.padded := by
  have hhandles : m.Representable ∧ s.Handles m := by
    cases m with
    | extended extendedId message metadata => cases h.1
    | handshake h' => cases h.1
    | _ => exact ⟨trivial, trivial⟩
  have hread := fromBytes_frame s (m.body s) [] h.2
  rw [List.append_nil] at hread
  rw [PeerMessages.frame, hread,
    readBody_body hhandles.1 hhandles.2 (not_handshake_of_plain h.1)]

theorem toBytes_frame {s : Serde} {m : PeerMessages} (h : m.Sendable s) :
    m.toBytes s = .ok (m.frame s) := by
  have hwrites : s.Writes m := by
    cases m with
    | extended extendedId message metadata => cases h.1
    | _ => trivial
  exact toBytes_eq_frame (not_handshake_of_plain h.1) hwrites h.2

/-- The bytes of messages, one behind the other; `none` when one of them has no form. -/
def written (s : Serde) : List PeerMessages → Option Bytes
  | [] => some []
  | m :: ms =>
      match m.toBytes s with
      | .ok bytes => (written s ms).map (bytes ++ ·)
      | .err _ | .panic => none

/-- The frames of messages, one behind the other. -/
def frames (s : Serde) (ms : List PeerMessages) : Bytes := ms.flatMap (PeerMessages.frame s)

@[simp] theorem frames_nil (s : Serde) : frames s [] = [] := rfl

@[simp] theorem frames_cons (s : Serde) (m : PeerMessages) (ms : List PeerMessages) :
    frames s (m :: ms) = m.frame s ++ frames s ms := List.flatMap_cons

@[simp] theorem frames_append (s : Serde) (ms ms' : List PeerMessages) :
    frames s (ms ++ ms') = frames s ms ++ frames s ms' := List.flatMap_append

theorem written_eq {s : Serde} {ms : List PeerMessages} (h : ∀ m ∈ ms, m.Sendable s) :
    written s ms = some (frames s ms) := by
  induction ms with
  | nil => rfl
  | cons m ms ih =>
      rw [written, toBytes_frame (h m (List.mem_cons_self ..)),
        ih fun m hm => h m (List.mem_cons_of_mem _ hm)]
      rfl

/-- **What a call of `recv` yields is the message that comes next, or nothing**, and it takes the
bytes of that message, or none. -/
theorem poll_frames {s : Serde} {ms : List PeerMessages} (hms : ∀ m ∈ ms, m.Sendable s)
    {r : Receiving} {transit : Bytes} (h : frames s ms = r.stream.readBuffer ++ transit) :
    (∃ m rest, ms = m :: rest ∧ (r.poll s).2 = some (.ok m.padded) ∧
        frames s rest = (r.poll s).1.stream.readBuffer ++ transit) ∨
      (r.poll s).2 = none ∧ (r.poll s).1.stream.readBuffer = r.stream.readBuffer := by
  have hpoll : ∀ {readBuffer : Bytes}, r.stream.readBuffer = readBuffer →
      nextFrame maxFramePayloadLength readBuffer = .more →
        (r.poll s).2 = none ∧ (r.poll s).1.stream.readBuffer = r.stream.readBuffer := by
    rintro readBuffer rfl hmore
    rw [Receiving.poll, bufferedMessage_eq, hmore]
    exact ⟨rfl, rfl⟩
  cases ms with
  | nil =>
      have hnil := (List.append_eq_nil_iff.1 h.symm).1
      exact .inr (hpoll hnil rfl)
  | cons m rest =>
      have hm := hms m (List.mem_cons_self ..)
      rw [frames_cons] at h
      rcases List.append_eq_append_iff.1 h with ⟨behind, hbuffer, hrest⟩ | ⟨missing, hframe, htransit⟩
      · refine .inl ⟨m, rest, rfl, ?_⟩
        rw [Receiving.poll, bufferedMessage_eq, hbuffer, nextFrame_append (isFrame_frame hm)]
        exact ⟨congrArg some (fromBytes_frame_self hm), hrest⟩
      · by_cases hmissing : missing = []
        · refine .inl ⟨m, rest, rfl, ?_⟩
          rw [hmissing, List.append_nil] at hframe
          rw [hmissing, List.nil_append] at htransit
          have hnext := nextFrame_append (isFrame_frame hm) []
          rw [List.append_nil, hframe] at hnext
          rw [Receiving.poll, bufferedMessage_eq, hnext]
          refine ⟨?_, htransit.symm⟩
          rw [← hframe]
          exact congrArg some (fromBytes_frame_self hm)
        · exact .inr (hpoll rfl (nextFrame_of_part (isFrame_frame hm) hframe hmissing))

/-! ### The connection -/

/-- The two ends of a connection: their actors, how they read, and the bytes on their way. -/
structure Connection where
  party : Side → Party
  receiving : Side → Receiving
  /-- What a side has written and the transport has not delivered. -/
  transit : Side → Bytes
  told : Side → List PeerEvent

/-- What happens at one side. -/
inductive ConnectionInput
  | start (bitfield : List Bool)
  | startFailed
  | command (command : PeerCommand) (env : PeerEnv)
  | recv (step : RecvStep) (env : PeerEnv)
  | keepAlive
  | timeout
  | stop

/-- What the loop of an actor makes of what a call of `recv` yields. -/
def signalled (env : PeerEnv) : Received → Option PartyInput
  | .panic => some .stop
  | result =>
      match checkMessageSignal true result with
      | some (.message m) => some (.hear m env)
      | some .stop => some .stop
      | some .mailbox | none => none

namespace Connection

/-- The bytes that are left on their way behind a step of a call of `recv`. -/
def deliver (transit : Bytes) : RecvStep → Option Bytes
  | .read chunk => if chunk <+: transit then some (transit.drop chunk.length) else none
  | .call | .eof | .drop => some transit

/-- What a step of a call of `recv` reads, and what the call yields in it. -/
def reads (s : Serde) (c : Connection) (side : Side) (r : RecvStep) :
    Option (Connection × Option Received) :=
  (deliver (c.transit side.opposite) r).bind fun transit =>
    ((c.receiving side).step s r).map fun done =>
      ({ c with
          receiving := Function.update c.receiving side done.1
          transit := Function.update c.transit side.opposite transit }, done.2)

/-- What an input reads, and what it is to the party. -/
def next (s : Serde) (c : Connection) (side : Side) :
    ConnectionInput → Option (Connection × Option PartyInput)
  | .start bitfield => some (c, some (.start bitfield))
  | .startFailed => some (c, some .startFailed)
  | .command order env => some (c, some (.command order env))
  | .recv r env =>
      if (c.party side).phase = .running then
        (c.reads s side r).map fun done => (done.1, done.2.bind (signalled env))
      else none
  | .keepAlive => some (c, some .keepAlive)
  | .timeout => some (c, some .timeout)
  | .stop => some (c, some .stop)

/-- A step of the party, and what it writes. -/
def acts (s : Serde) (c : Connection) (side : Side) (i : PartyInput) : Option Connection :=
  ((c.party side).act i).bind fun t =>
    (written s t.said).map fun bytes =>
      { c with
        party := Function.update c.party side t.party
        transit := Function.update c.transit side (c.transit side ++ bytes)
        told := Function.update c.told side (c.told side ++ t.told) }

/-- A step of the connection; `none` when it cannot happen. -/
def step (s : Serde) (c : Connection) (side : Side) (input : ConnectionInput) : Option Connection :=
  (c.next s side input).bind fun done =>
    match done.2 with
    | some i => done.1.acts s side i
    | none => some done.1

end Connection

/-- The connection of two actors that have been spawned for it. -/
def connectionSystem (s : Serde) (id : Side → PeerId) :
    System Connection (Side × ConnectionInput) where
  init c := c = ⟨fun side => ⟨PeerActor.new (id side), .starting⟩, fun _ => {}, fun _ => [],
    fun _ => []⟩
  step c i d := c.step s i.1 i.2 = some d

/-- The bits of a bitfield that fits into a frame. -/
def maxBits : ℕ := 8 * (maxFramePayloadLength - 1)

/-- What is sent in a step fits into a frame. -/
def Small : PartyInput → Prop
  | .start bitfield => bitfield.length ≤ maxBits
  | .command (.haveInfoDict bits) _ => bits.length ≤ maxBits
  | .hear _ env => ∀ data ∈ env.requestPiece.join, data.length + 9 ≤ maxFramePayloadLength
  | _ => True

instance : DecidablePred Small
  | .start bitfield => inferInstanceAs (Decidable (bitfield.length ≤ maxBits))
  | .command (.haveInfoDict bits) _ => inferInstanceAs (Decidable (bits.length ≤ maxBits))
  | .hear _ env =>
      inferInstanceAs (Decidable (∀ data ∈ env.requestPiece.join,
        data.length + 9 ≤ maxFramePayloadLength))
  | .command (.needPiece _ _ _) _ | .command (.cancelPiece _ _ _) _ | .command (.setChoked _) _
  | .command (.have _) _ | .startFailed | .keepAlive | .timeout | .stop =>
      inferInstanceAs (Decidable True)

theorem length_setPieceBit (payload : Bytes) (bit : Bool × ℕ) :
    (setPieceBit payload bit).length = payload.length := by
  unfold setPieceBit
  split <;> simp

@[simp] theorem length_encodeBitfield (bits : List Bool) :
    (encodeBitfield bits).length = divCeil bits.length 8 := by
  have hfold : ∀ (l : List (Bool × ℕ)) (payload : Bytes),
      (l.foldl setPieceBit payload).length = payload.length := by
    intro l
    induction l with
    | nil => exact fun _ => rfl
    | cons bit l ih =>
        intro payload
        rw [List.foldl_cons, ih, length_setPieceBit]
  rw [encodeBitfield, hfold, List.length_replicate]

theorem sendable_bitfield (s : Serde) {bits : List Bool} (h : bits.length ≤ maxBits) :
    (PeerMessages.bitfield bits).Sendable s := by
  refine ⟨rfl, ?_⟩
  simp only [PeerMessages.body, List.length_cons, length_encodeBitfield]
  unfold divCeil
  unfold maxBits at h
  have hpos : 0 < maxFramePayloadLength := by decide
  omega

/-- The messages that have a fixed length. -/
def PeerMessages.brief : PeerMessages → Bool
  | .bitfield _ | .piece _ _ _ | .extended _ _ _ | .handshake _ => false
  | _ => true

theorem sendable_of_brief (s : Serde) {m : PeerMessages} (h : m.brief = true) : m.Sendable s := by
  have hmax : 13 ≤ maxFramePayloadLength := by decide
  cases m with
  | bitfield bits => cases h
  | piece index begin data => cases h
  | extended extendedId message metadata => cases h
  | handshake h' => cases h
  | _ =>
      refine ⟨rfl, ?_⟩
      simp only [PeerMessages.body, List.length_cons, List.length_append, length_beBytes,
        List.length_nil]
      omega

theorem Weighs.brief {env : PeerEnv} {a b : PeerActor} {ms : List PeerMessages}
    (h : Weighs env a b ms) : ∀ m ∈ ms, m.brief = true := by
  intro m hm
  cases h with
  | unanswered h => cases hm
  | @answered interesting h hsent =>
      rw [List.mem_singleton.1 hm]
      cases interesting <;> rfl

/-- **What a party writes fits into a frame** where the bitfields and the blocks it is given do. -/
theorem Party.Acts.sendable (s : Serde) {p : Party} {i : PartyInput} {t : Turned} (h : p.Acts i t)
    (hsmall : Small i) : ∀ m ∈ t.said, m.Sendable s := by
  intro m hm
  cases h with
  | @starts bitfield ms phase hms =>
      subst hms
      by_cases hbits : bitfield = []
      · simp [hbits] at hm
      · simp only [if_neg hbits, List.mem_singleton] at hm
        rw [hm]
        exact sendable_bitfield s hsmall
  | obeys h =>
      cases h with
      | requested h hchoked =>
          rw [List.mem_singleton.1 hm]
          exact sendable_of_brief s rfl
      | cancelled hms =>
          rcases hms with rfl | rfl
          · cases hm
          · rw [List.mem_singleton.1 hm]
            exact sendable_of_brief s rfl
      | @changed choked h =>
          rw [List.mem_singleton.1 hm]
          cases choked <;> exact sendable_of_brief s rfl
      | announces h hms =>
          rcases hms with rfl | rfl
          · cases hm
          · rw [List.mem_singleton.1 hm]
            rcases h with ⟨piece, -, rfl⟩ | ⟨bits, rfl, rfl⟩
            · exact sendable_of_brief s rfl
            · exact sendable_bitfield s hsmall
      | _ => cases hm
  | hears h =>
      cases h with
      | unchoke =>
          obtain ⟨key, -, rfl⟩ := List.mem_map.1 hm
          exact sendable_of_brief s rfl
      | news h hlt hb => exact sendable_of_brief s (hb.brief m hm)
      | pieces hb => exact sendable_of_brief s (hb.brief m hm)
      | @served index offset length data h hlength hdata hsent =>
          rw [List.mem_singleton.1 hm]
          refine ⟨rfl, ?_⟩
          have hfits := hsmall data (by rw [hdata]; rfl)
          simp only [PeerMessages.body, List.length_cons, List.length_append, length_beBytes]
          omega
      | _ => cases hm
  | keepsAlive =>
      rw [List.mem_singleton.1 hm]
      exact sendable_of_brief s rfl
  | _ => cases hm

/-! ### The bytes on their way -/

/-- **The bytes on their way are those of the messages on their way**: what a side has written and
the other has not taken out of its buffer. -/
structure Conveys (s : Serde) (c : Connection) (wire : Side → List PeerMessages) : Prop where
  bytes : ∀ side,
    frames s (wire side) = (c.receiving side.opposite).stream.readBuffer ++ c.transit side
  sendable : ∀ side, ∀ m ∈ wire side, m.Sendable s

namespace Conveys

variable {s : Serde} {c d : Connection} {wire : Side → List PeerMessages} {side : Side}

/-- What a party writes goes behind what is on its way. -/
theorem acts {i : PartyInput} {t : Turned} (h : Conveys s c wire) (hact : (c.party side).act i = some t)
    (hsaid : ∀ m ∈ t.said, m.Sendable s) (hacts : c.acts s side i = some d) :
    Conveys s d (Function.update wire side (wire side ++ t.said)) ∧
      d.party = Function.update c.party side t.party ∧
      d.told = Function.update c.told side (c.told side ++ t.told) := by
  rw [Connection.acts, hact, Option.bind_some, written_eq hsaid, Option.map_some,
    Option.some.injEq] at hacts
  subst hacts
  refine ⟨⟨fun other => ?_, fun other m hm => ?_⟩, rfl, rfl⟩
  · by_cases hother : other = side
    · subst hother
      dsimp only
      rw [Function.update_self, Function.update_self, frames_append, h.bytes other, List.append_assoc]
    · dsimp only
      rw [Function.update_of_ne hother, Function.update_of_ne hother]
      exact h.bytes other
  · by_cases hother : other = side
    · subst hother
      rw [Function.update_self] at hm
      rcases List.mem_append.1 hm with hm | hm
      · exact h.sendable other m hm
      · exact hsaid m hm
    · rw [Function.update_of_ne hother] at hm
      exact h.sendable other m hm

/-- Reading does not touch the parties. -/
theorem party_reads {r : RecvStep} {result : Option Received} (h : c.reads s side r = some (d, result)) :
    d.party = c.party ∧ d.told = c.told := by
  obtain ⟨transit, -, hmap⟩ := Option.bind_eq_some_iff.1 h
  obtain ⟨done, -, hd⟩ := Option.map_eq_some_iff.1 hmap
  cases hd
  exact ⟨rfl, rfl⟩

/-- What is left when a side has read: the bytes it has and those that have not been delivered. -/
theorem updated (h : Conveys s c wire) (side : Side) (receiving : Receiving) {transit : Bytes}
    {ms : List PeerMessages} (hms : ∀ m ∈ ms, m.Sendable s)
    (hbytes : frames s ms = receiving.stream.readBuffer ++ transit) :
    Conveys s { c with
        receiving := Function.update c.receiving side receiving
        transit := Function.update c.transit side.opposite transit }
      (Function.update wire side.opposite ms) := by
  refine ⟨fun other => ?_, fun other m hm => ?_⟩
  · dsimp only
    rcases side.eq_or_eq_opposite other with rfl | rfl
    · rw [Function.update_of_ne other.opposite_ne.symm, Function.update_of_ne other.opposite_ne,
        Function.update_of_ne other.opposite_ne.symm]
      exact h.bytes other
    · rw [Function.update_self, Side.opposite_opposite, Function.update_self, Function.update_self]
      exact hbytes
  · rcases side.eq_or_eq_opposite other with rfl | rfl
    · rw [Function.update_of_ne other.opposite_ne.symm] at hm
      exact h.sendable other m hm
    · rw [Function.update_self] at hm
      exact hms m hm

/-- A poll of what has been delivered takes the message that comes next, or nothing. -/
theorem poll (h : Conveys s c wire) {r : Receiving} {transit : Bytes}
    (hr : frames s (wire side.opposite) = r.stream.readBuffer ++ transit) :
    let e : Connection := { c with
      receiving := Function.update c.receiving side (r.poll s).1
      transit := Function.update c.transit side.opposite transit }
    ((r.poll s).2 = none ∧ Conveys s e wire) ∨
      ∃ m rest, wire side.opposite = m :: rest ∧ (r.poll s).2 = some (.ok m.padded) ∧
        Conveys s e (Function.update wire side.opposite rest) := by
  intro e
  have hms := h.sendable side.opposite
  rcases poll_frames hms hr with ⟨m, rest, hwire, hresult, hrest⟩ | ⟨hresult, hbuffer⟩
  · refine .inr ⟨m, rest, hwire, hresult, h.updated side _ (fun m' hm' => hms m' ?_) hrest⟩
    rw [hwire]
    exact List.mem_cons_of_mem _ hm'
  · refine .inl ⟨hresult, ?_⟩
    have hsame := h.updated side _ hms (hbuffer ▸ hr)
    rwa [Function.update_eq_self] at hsame

/-- **A step of a call of `recv`** takes the message that comes next, or nothing; it fails only when
the connection ends. -/
theorem reads {r : RecvStep} {result : Option Received} (h : Conveys s c wire)
    (hreads : c.reads s side r = some (d, result)) :
    ((result = none ∨ result = some (.err closedConnection)) ∧ Conveys s d wire) ∨
      ∃ m rest, wire side.opposite = m :: rest ∧ result = some (.ok m.padded) ∧
        Conveys s d (Function.update wire side.opposite rest) := by
  obtain ⟨transit, hdeliver, hmap⟩ := Option.bind_eq_some_iff.1 hreads
  obtain ⟨⟨receiving, result'⟩, hstep, hd⟩ := Option.map_eq_some_iff.1 hmap
  simp only [Prod.mk.injEq] at hd
  obtain ⟨rfl, rfl⟩ := hd
  have hbytes := h.bytes side.opposite
  rw [Side.opposite_opposite] at hbytes
  have hsame : ∀ receiving : Receiving,
      receiving.stream.readBuffer = (c.receiving side).stream.readBuffer →
        Conveys s { c with
          receiving := Function.update c.receiving side receiving
          transit := Function.update c.transit side.opposite (c.transit side.opposite) } wire := by
    intro receiving hbuffer
    have hupdated := h.updated side receiving (h.sendable side.opposite)
      (by rw [hbytes, hbuffer])
    have hwire : Function.update wire side.opposite (wire side.opposite) = wire :=
      Function.update_eq_self _ _
    rwa [hwire] at hupdated
  cases r with
  | call =>
      cases hdeliver
      rw [Receiving.step] at hstep
      split at hstep
      · cases hstep
      · rw [Option.some.injEq] at hstep
        rcases h.poll hbytes with ⟨hnone, hconveys⟩ | ⟨m, rest, hwire, hsome, hconveys⟩
        · rw [hstep] at hnone hconveys
          exact .inl ⟨.inl hnone, hconveys⟩
        · rw [hstep] at hsome hconveys
          exact .inr ⟨m, rest, hwire, hsome, hconveys⟩
  | read chunk =>
      rw [Connection.deliver] at hdeliver
      split at hdeliver
      · rename_i hprefix
        obtain ⟨behind, hsplit⟩ := hprefix
        rw [← hsplit, List.drop_left, Option.some.injEq] at hdeliver
        subst hdeliver
        rw [Receiving.step] at hstep
        split at hstep
        · cases hstep
        · rw [Option.some.injEq] at hstep
          rw [← hsplit, ← List.append_assoc] at hbytes
          rcases h.poll (r := { c.receiving side with
              stream := ⟨(c.receiving side).stream.readBuffer ++ chunk,
                (c.receiving side).stream.bytesDownloaded + chunk.length⟩ }) hbytes with
            ⟨hnone, hconveys⟩ | ⟨m, rest, hwire, hsome, hconveys⟩
          · rw [hstep] at hnone hconveys
            exact .inl ⟨.inl hnone, hconveys⟩
          · rw [hstep] at hsome hconveys
            exact .inr ⟨m, rest, hwire, hsome, hconveys⟩
      · cases hdeliver
  | eof =>
      cases hdeliver
      rw [Receiving.step] at hstep
      split at hstep
      · cases hstep
        exact .inl ⟨.inr rfl, hsame _ rfl⟩
      · cases hstep
  | drop =>
      cases hdeliver
      rw [Receiving.step] at hstep
      split at hstep
      · cases hstep
        exact .inl ⟨.inl rfl, hsame _ rfl⟩
      · cases hstep

end Conveys

/-! ### The refinement -/

namespace Conversation

theorem step_eq {v : Conversation} {side : Side} {input : SideInput} {i : PartyInput} {t : Turned}
    (hi : input.partyInput (v.wire side.opposite).head? = some i)
    (hact : (v.party side).act i = some t) : v.step side input = some (v.turned side i t) := by
  rw [step, hi, Option.bind_some, hact, Option.map_some]

theorem wire_turned {v : Conversation} {side : Side} {i : PartyInput} {t : Turned}
    {wire : Side → List PeerMessages} (hside : wire side = v.wire side)
    (hopposite : wire side.opposite = (v.wire side.opposite).drop i.heard.length) :
    (v.turned side i t).wire = Function.update wire side (wire side ++ t.said) := by
  funext other
  rcases side.eq_or_eq_opposite other with rfl | rfl
  · rw [turned_wire_self, Function.update_self, hside]
  · rw [turned_wire_opposite, Function.update_of_ne side.opposite_ne, hopposite]

end Conversation

/-- A condition on the steps of a connection: on the side, the party before the step and what happens
to it; and what is sent fits into a frame. -/
def Connection.Under (s : Serde) (C : Side → Party → PartyInput → Prop) (c : Connection)
    (i : Side × ConnectionInput) : Prop :=
  ∀ j ∈ (c.next s i.1 i.2).bind Prod.snd, C i.1 (c.party i.1) j ∧ Small j

/-- **A connection and a conversation that have come to the same**: the parties, what they have told,
and what is on its way. -/
structure Connection.Refines (s : Serde) (c : Connection) (v : Conversation) : Prop where
  party : v.party = c.party
  told : v.told = c.told
  conveys : Conveys s c v.wire

section Refines

variable {s : Serde} {c d e : Connection} {v : Conversation} {side : Side}
  {C : Side → Party → PartyInput → Prop}

/-- A step of a party is a step of the conversation, once it is known what it hears. -/
theorem refines_acts {i : PartyInput} {input : SideInput} {wire : Side → List PeerMessages}
    (hplain : v.Plain) (hi : input.partyInput (v.wire side.opposite).head? = some i)
    (hconveys : Conveys s d wire) (hside : wire side = v.wire side)
    (hopposite : wire side.opposite = (v.wire side.opposite).drop i.heard.length)
    (hparty : v.party = d.party) (htold : v.told = d.told) (hsmall : Small i)
    (hacts : d.acts s side i = some e) :
    ∃ w, v.step side input = some w ∧ e.Refines s w := by
  obtain ⟨t, hact, -⟩ := Option.bind_eq_some_iff.1 hacts
  have hact' : (v.party side).act i = some t := by rw [hparty, hact]
  have hstep := Conversation.step_eq hi hact'
  obtain ⟨j, u, hj, hmoves, -⟩ := Conversation.moves_of_step hstep
  rw [hi, Option.some.injEq] at hj
  subst hj
  obtain rfl : t = u := by
    rw [hmoves.act] at hact'
    exact (Option.some.inj hact').symm
  have hsaid := (hmoves.acts hplain).sendable s hsmall
  obtain ⟨hwire, hparty', htold'⟩ := hconveys.acts hact hsaid hacts
  refine ⟨_, hstep, ?_, ?_, ?_⟩
  · rw [hparty', ← hparty]
    rfl
  · rw [htold', ← htold]
    rfl
  · rw [Conversation.wire_turned hside hopposite]
    exact hwire

/-- **A step of the bytes is a step of the messages, or none.** -/
theorem refines_step {input : ConnectionInput} (h : c.Refines s v) (hplain : v.Plain)
    (hunder : Connection.Under s C c (side, input)) (hstep : c.step s side input = some e) :
    ∃ w, (w = v ∨ ∃ j, v.step side j = some w ∧ Conversation.Under C v (side, j)) ∧ e.Refines s w := by
  obtain ⟨⟨d, i⟩, hnext, hdone⟩ := Option.bind_eq_some_iff.1 hstep
  -- the parties that take a step of their own
  have hown : ∀ {i : PartyInput} {j : SideInput}, c.next s side input = some (d, some i) →
      (∀ head, j.partyInput head = some i) → i.heard = [] → d.party = c.party → d.told = c.told →
        Conveys s d v.wire → d.acts s side i = some e →
          ∃ w, (w = v ∨ ∃ j, v.step side j = some w ∧ Conversation.Under C v (side, j)) ∧
            e.Refines s w := by
    intro i j hnext hj hheard hparty htold hconveys hacts
    obtain ⟨hC, hsmall⟩ := hunder i (by rw [hnext]; rfl)
    obtain ⟨w, hw, hrefines⟩ := refines_acts hplain (hj _) hconveys rfl (by rw [hheard]; rfl)
      (h.party.trans hparty.symm) (h.told.trans htold.symm) hsmall hacts
    refine ⟨w, .inr ⟨j, hw, ?_⟩, hrefines⟩
    intro k hk
    rw [hj, Option.mem_some_iff] at hk
    subst hk
    rw [h.party]
    exact hC
  cases input with
  | recv r env =>
      rw [Connection.next] at hnext
      split at hnext
      · rename_i hrunning
        obtain ⟨⟨d', result⟩, hreads, hd⟩ := Option.map_eq_some_iff.1 hnext
        simp only [Prod.mk.injEq] at hd
        obtain ⟨rfl, hsignal⟩ := hd
        obtain ⟨hparty, htold⟩ := Conveys.party_reads hreads
        rcases h.conveys.reads hreads with ⟨rfl | rfl, hconveys⟩ | ⟨m, rest, hwire, rfl, hconveys⟩
        · -- the call waits, or has been dropped
          cases hsignal
          cases hdone
          exact ⟨v, .inl rfl, h.party.trans hparty.symm, h.told.trans htold.symm, hconveys⟩
        · -- the connection has ended
          cases hsignal
          refine hown (j := .stop) ?_ (fun _ => rfl) rfl hparty htold hconveys hdone
          rw [Connection.next, if_pos hrunning, hreads]
          rfl
        · -- the message that comes next
          cases hsignal
          have hsome : c.next s side (.recv r env) = some (d', some (.hear m.padded env)) := by
            rw [Connection.next, if_pos hrunning, hreads]
            rfl
          obtain ⟨hC, hsmall⟩ := hunder _ (by rw [hsome]; rfl)
          have hinput : (SideInput.receive env).partyInput (v.wire side.opposite).head? =
              some (.hear m.padded env) := by
            rw [hwire]
            rfl
          obtain ⟨w, hw, hrefines⟩ := refines_acts hplain hinput hconveys
            (Function.update_of_ne side.opposite_ne.symm ..)
            (by rw [Function.update_self, hwire]; rfl) (h.party.trans hparty.symm)
            (h.told.trans htold.symm) hsmall hdone
          refine ⟨w, .inr ⟨.receive env, hw, ?_⟩, hrefines⟩
          intro k hk
          rw [hinput, Option.mem_some_iff] at hk
          subst hk
          rw [h.party]
          exact hC
      · cases hnext
  | start bitfield =>
      cases hnext
      exact hown (j := .start bitfield) rfl (fun _ => rfl) rfl rfl rfl h.conveys hdone
  | startFailed =>
      cases hnext
      exact hown (j := .startFailed) rfl (fun _ => rfl) rfl rfl rfl h.conveys hdone
  | command order env =>
      cases hnext
      exact hown (j := .command order env) rfl (fun _ => rfl) rfl rfl rfl h.conveys hdone
  | keepAlive =>
      cases hnext
      exact hown (j := .keepAlive) rfl (fun _ => rfl) rfl rfl rfl h.conveys hdone
  | timeout =>
      cases hnext
      exact hown (j := .timeout) rfl (fun _ => rfl) rfl rfl rfl h.conveys hdone
  | stop =>
      cases hnext
      exact hown (j := .stop) rfl (fun _ => rfl) rfl rfl rfl h.conveys hdone

end Refines

/-- **Every run of a connection is a run of a conversation**: however the transport cuts the bytes
into pieces, and wherever the calls of `recv` are dropped, there is a run of the two actors with queues
of messages in which the same happens to the same parties and the same is told; and the bytes that are
in the buffer of one side and on their way to it are those of the messages on their way, in order, so
that nothing is on its way when there are none. -/
theorem connection_refines (s : Serde) (id : Side → PeerId) (C : Side → Party → PartyInput → Prop)
    (c : Connection) (h : (connectionSystem s id).Reach (Connection.Under s C) c) :
    ∃ v, (conversationSystem id).Reach (Conversation.Under C) v ∧ v.party = c.party ∧ v.told = c.told ∧
      ∀ side, frames s (v.wire side) =
          (c.receiving side.opposite).stream.readBuffer ++ c.transit side ∧
        ((c.receiving side.opposite).stream.readBuffer = [] → c.transit side = [] →
          v.wire side = []) := by
  have hrefines : ∃ v, (conversationSystem id).Reach (Conversation.Under C) v ∧ c.Refines s v := by
    refine h.invariant
      (I := fun c => ∃ v, (conversationSystem id).Reach (Conversation.Under C) v ∧ c.Refines s v) ?_ ?_
    · rintro c rfl
      refine ⟨_, .init rfl, rfl, rfl, fun side => rfl, fun side m hm => ?_⟩
      cases hm
    · rintro c ⟨side, input⟩ d ⟨v, hreach, hv⟩ hunder hstep
      obtain ⟨w, rfl | ⟨j, hw, hC⟩, hrefines⟩ :=
        refines_step hv (Conversation.plain_of_reach hreach) hunder hstep
      · exact ⟨w, hreach, hrefines⟩
      · exact ⟨w, hreach.step hC hw, hrefines⟩
  obtain ⟨v, hreach, hv⟩ := hrefines
  refine ⟨v, hreach, hv.party, hv.told, fun side => ⟨hv.conveys.bytes side, fun hbuffer htransit => ?_⟩⟩
  have hbytes := hv.conveys.bytes side
  rw [hbuffer, htransit] at hbytes
  cases hwire : v.wire side with
  | nil => rfl
  | cons m ms =>
      rw [hwire, frames_cons] at hbytes
      have hlen := congrArg List.length hbytes
      simp [PeerMessages.frame] at hlen

namespace Sample

/-- A bitfield of one piece comes in two parts, and the call that has read the first one is
dropped. -/
def inParts : List (Side × ConnectionInput) :=
  [(.left, .start []), (.right, .start [true]), (.left, .recv .call quietEnv),
    (.left, .recv (.read [0, 0, 0]) quietEnv), (.left, .recv .drop quietEnv),
    (.left, .recv .call quietEnv), (.left, .recv (.read [2, 5, 128]) quietEnv)]

instance (c : Connection) (i : Side × ConnectionInput) :
    Decidable (Connection.Under serde (fun _ _ _ => True) c i) :=
  Option.decidableForallMem ((c.next serde i.1 i.2).bind Prod.snd)

end Sample

/-- The bitfield has been heard, and the answer to it is on its way. -/
theorem connection_refines_sample :
    ∃ (c : Connection) (v : Conversation),
      (c.party .left).actor.pieces = [true, false, false, false, false, false, false, false] ∧
      (conversationSystem fun _ => .ofId Sample.announced).Reach
        (Conversation.Under fun _ _ _ => True) v ∧ v.party = c.party := by
  obtain ⟨c, hreach, hc⟩ := System.Reach.exists_guarded
    (S := connectionSystem Sample.serde fun _ => .ofId Sample.announced)
    (G := Connection.Under Sample.serde fun _ _ _ => True)
    (f := fun c i => c.step Sample.serde i.1 i.2) (fun _ _ _ h => h) (.init rfl) Sample.inParts
    (P := fun c => (c.party .left).actor.pieces ==
      [true, false, false, false, false, false, false, false]) rfl
  obtain ⟨v, hv, hparty, -⟩ := connection_refines _ _ _ c hreach
  exact ⟨c, v, by simpa using hc, hv, hparty⟩

end Tortillas
