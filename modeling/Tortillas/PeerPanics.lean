/-
**When a handler of the peer actor panics.**

`peer/actor.rs` unwraps in three kinds of places what need not be there: the number of a piece of metadata
and its successor, what comes of sending to the remote, and the answer of the torrent to a request for a
block.  Everything else that can fail is logged, or stops the actor.

The queue of messages that `flush_queue` would send is part of the state here.  Nothing is ever put in it,
so that its sends do not fail.

Main definitions:

* `QueuedPeer` — the actor with its queue, and its steps; a step that panics answers `none`;
* `QueuedPeer.Spares` — what the handler unwraps is there.

Main results:

* `PeerActor.handle_ne_none_iff` — **exactly when a handler does not panic**;
* `peer_handlers_survive` — a run is free of panics exactly if each of its steps meets the condition;
* `remote_panics_peer` — a remote that sends a piece of metadata without its number, or a request and
  closes the connection, makes the actor panic.
-/

import Tortillas.WireRoundTrip
import Tortillas.PeerActor

set_option relaxedAutoImplicit false
set_option autoImplicit false

namespace Tortillas

/-- The actor with the messages that wait for the remote to unchoke us. -/
structure QueuedPeer where
  actor : PeerActor
  pendingMessageRequests : List PeerMessages

/-- A message from the remote, or a command of the torrent, and what the handler learns from outside. -/
inductive HandlerInput
  | wire (env : PeerEnv) (message : PeerMessages)
  | command (env : PeerEnv) (command : PeerCommand)

namespace QueuedPeer

def new (id : PeerId) : QueuedPeer := ⟨.new id, []⟩

/-- `flush_queue`: the last message goes first; panics when one cannot be sent. -/
def flushQueue (env : PeerEnv) (p : QueuedPeer) : Option QueuedPeer :=
  if p.pendingMessageRequests.isEmpty then some p
  else if env.sent then
    some ⟨p.pendingMessageRequests.reverse.foldl (fun a message => a.send message true) p.actor, []⟩
  else none

/-- `handle`, where unchoking flushes the queue first. -/
def handle (env : PeerEnv) (p : QueuedPeer) (message : PeerMessages) : Option QueuedPeer :=
  match message with
  | .unchoke =>
      (flushQueue env { p with actor := { p.actor with peerChoking := false } }).bind fun p =>
        (p.actor.handle env .unchoke).map fun a => { p with actor := a }
  | message => (p.actor.handle env message).map fun a => { p with actor := a }

def step (p : QueuedPeer) : HandlerInput → Option QueuedPeer
  | .wire env message => p.handle env message
  | .command env command => some { p with actor := p.actor.perform env command }

/-- The inputs one after the other, as long as no handler panics. -/
def run (p : QueuedPeer) (inputs : List HandlerInput) : Option QueuedPeer := inputs.foldlM step p

end QueuedPeer

/-! ### The condition -/

/-- The torrent does not answer, or the remote can be told. -/
def PeerEnv.TellsInterest (env : PeerEnv) : Prop := env.interestingPieces = none ∨ env.sent = true

/-- The torrent answers, and if it has the block the block can be sent. -/
def PeerEnv.ServesBlock (env : PeerEnv) : Prop :=
  env.requestPiece = some none ∨ ∃ data, env.requestPiece = some (some data) ∧ env.sent = true

/-- The bytes are taken in, and more are to be asked for. -/
def PeerInfo.Lacks (info : PeerInfo) (bytes : Bytes) : Prop :=
  info.infoBytes.length + bytes.length ≤ info.infoSize ∧
    (info.infoSize = 0 ∨ info.infoBytes.length + bytes.length < info.infoSize)

/-- The handler of the message does not panic in the state: the remote can be told of our interest if it
has something new, a block that the remote may ask for is served, and a piece of metadata that is taken in
and is not the last has a number that has a successor. -/
def PeerActor.Spares (a : PeerActor) (env : PeerEnv) : PeerMessages → Prop
  | .have index => a.pieces[index.toNat]? = some false → env.TellsInterest
  | .bitfield _ => env.TellsInterest
  | .request _ _ length =>
      a.amChoking = false → length ≠ 0 → length.toNat ≤ blockSize → env.ServesBlock
  | .extended _ (some m) (some bytes) =>
      m.msgType = some .data → a.info.Lacks bytes → ∃ piece, m.piece = some piece ∧ piece ≠ usizeMax
  | _ => True

def QueuedPeer.Spares (p : QueuedPeer) : HandlerInput → Prop
  | .wire env message => p.actor.Spares env message
  | .command _ _ => True

/-! ### Handlers -/

namespace PeerActor

variable {env : PeerEnv} {a : PeerActor}

theorem determineInterest_ne_none_iff (a : PeerActor) :
    a.determineInterest env ≠ none ↔ env.TellsInterest := by
  unfold determineInterest PeerEnv.TellsInterest
  cases env.interestingPieces with
  | none => simp
  | some interesting => cases env.sent <;> simp

/-- When a piece of metadata has to be followed by another one. -/
theorem takeMetadata_ne_none_iff (m : ExtendedMessage) (bytes : Bytes) :
    a.takeMetadata m (some bytes) env ≠ none ↔
      (m.msgType = some .data → a.info.Lacks bytes →
        ∃ piece, m.piece = some piece ∧ piece ≠ usizeMax) := by
  by_cases hdata : m.msgType = some .data
  · by_cases hfits : a.info.infoBytes.length + bytes.length ≤ a.info.infoSize
    · have hlacks : a.info.Lacks bytes ↔
          (PeerInfo.haveAllBytes { a.info with infoBytes := a.info.infoBytes ++ bytes }) = false := by
        simp only [PeerInfo.Lacks, PeerInfo.haveAllBytes, List.length_append, Bool.and_eq_false_iff,
          bne_eq_false_iff_eq, decide_eq_false_iff_not]
        omega
      rw [hlacks]
      simp only [takeMetadata, ExtendedMessage.isBep0009Data, hdata, PeerInfo.appendToBytes, if_pos hfits]
      cases hall : PeerInfo.haveAllBytes { a.info with infoBytes := a.info.infoBytes ++ bytes } with
      | true => simp
      | false =>
          cases m.piece with
          | none => simp
          | some piece => by_cases hpiece : piece = usizeMax <;> simp [hpiece]
    · have hnot : ¬ a.info.Lacks bytes := fun h => hfits h.1
      simp [takeMetadata, ExtendedMessage.isBep0009Data, hdata, PeerInfo.appendToBytes, hfits, hnot]
  · simp [takeMetadata, ExtendedMessage.isBep0009Data, hdata]

/-- **Exactly when the handler of a message does not panic.** -/
theorem handle_ne_none_iff (a : PeerActor) (env : PeerEnv) (message : PeerMessages) :
    a.handle env message ≠ none ↔ a.Spares env message := by
  cases message with
  | «have» index =>
      simp only [handle, Spares]
      by_cases hlt : index.toNat < a.pieces.length
      · rw [if_pos hlt, List.getElem?_eq_getElem hlt, List.getD_eq_getElem _ _ hlt]
        cases a.pieces[index.toNat] with
        | true => simp
        | false => simp [determineInterest_ne_none_iff]
      · rw [if_neg hlt, List.getElem?_eq_none (Nat.le_of_not_lt hlt)]
        simp
  | bitfield bits =>
      simp only [handle, Spares, ne_eq, Option.map_eq_none_iff]
      exact determineInterest_ne_none_iff _
  | request index offset length =>
      simp only [handle, Spares]
      cases a.amChoking with
      | true => simp
      | false =>
          by_cases hlength : length = 0 ∨ blockSize < length.toNat
          · rw [if_neg Bool.false_ne_true, if_pos hlength]
            refine iff_of_true (by simp) fun _ hzero hle => ?_
            exact absurd hlength (by simp [hzero, hle])
          · rw [if_neg Bool.false_ne_true, if_neg hlength]
            rw [not_or, Nat.not_lt] at hlength
            simp only [hlength, ne_eq, not_false_eq_true, forall_const, PeerEnv.ServesBlock]
            cases env.requestPiece with
            | none => simp
            | some data =>
                cases data with
                | none => simp
                | some data => cases env.sent <;> simp
  | extended extendedId message metadata =>
      have hinfo : (if extendedId = 0 then a.sendExtendedHandshake env else a).info = a.info := by
        split
        · simp only [sendExtendedHandshake, send]
          split <;> rfl
        · rfl
      cases message with
      | none => simp [handle, handleExtendedMessage, Spares]
      | some m =>
          simp only [handle, handleExtendedMessage, ne_eq, Option.map_eq_none_iff]
          cases metadata with
          | none => simp [takeMetadata, Spares]
          | some bytes =>
              rw [← ne_eq, takeMetadata_ne_none_iff, hinfo]
              exact Iff.rfl
  | piece index offset data =>
      simp only [handle, Spares, iff_true]
      split <;> simp
  | choke => simp [handle, Spares]
  | unchoke => simp [handle, Spares]
  | interested => simp [handle, Spares]
  | notInterested => simp [handle, Spares]
  | keepAlive => simp [handle, Spares]
  | cancel index offset length => simp [handle, Spares]
  | handshake h => simp [handle, Spares]

end PeerActor

/-! ### Runs -/

namespace QueuedPeer

/-- With an empty queue the handler is the one of the actor. -/
theorem handle_of_empty {p : QueuedPeer} (h : p.pendingMessageRequests = []) (env : PeerEnv)
    (message : PeerMessages) :
    p.handle env message = (p.actor.handle env message).map fun a => { p with actor := a } := by
  cases message <;> simp [handle, flushQueue, h, PeerActor.handle]

/-- **Nothing is put in the queue.** -/
theorem pendingMessageRequests_step {p p' : QueuedPeer} {i : HandlerInput}
    (h : p.pendingMessageRequests = []) (hstep : p.step i = some p') :
    p'.pendingMessageRequests = [] := by
  cases i with
  | wire env message =>
      rw [step, handle_of_empty h, Option.map_eq_some_iff] at hstep
      obtain ⟨a, -, rfl⟩ := hstep
      exact h
  | command env command =>
      cases hstep
      exact h

theorem step_ne_none_iff {p : QueuedPeer} (h : p.pendingMessageRequests = []) (i : HandlerInput) :
    p.step i ≠ none ↔ p.Spares i := by
  cases i with
  | wire env message =>
      rw [step, handle_of_empty h, ne_eq, Option.map_eq_none_iff]
      exact p.actor.handle_ne_none_iff env message
  | command env command => simp [step, Spares]

end QueuedPeer

/-- **No handler panics in a run exactly if each of its steps meets the condition**, whatever the remote
sends and the torrent asks for, and whatever fails. -/
theorem peer_handlers_survive (id : PeerId) (inputs : List HandlerInput) :
    (QueuedPeer.new id).run inputs ≠ none ↔
      System.Along QueuedPeer.Spares (fun p i => (p.step i).getD p) (QueuedPeer.new id) inputs := by
  have hrun : ∀ p : QueuedPeer, p.pendingMessageRequests = [] →
      (p.run inputs ≠ none ↔
        System.Along QueuedPeer.Spares (fun p i => (p.step i).getD p) p inputs) := by
    induction inputs with
    | nil => exact fun p _ => iff_of_true (by simp [QueuedPeer.run]) trivial
    | cons i inputs ih =>
        intro p hp
        have hspares := QueuedPeer.step_ne_none_iff hp i
        simp only [QueuedPeer.run, List.foldlM_cons, System.Along, ← hspares]
        cases hstep : p.step i with
        | none => simp
        | some p' => simpa [QueuedPeer.run] using ih p' (QueuedPeer.pendingMessageRequests_step hp hstep)
  exact hrun _ rfl

namespace Sample

/-- The handshake of a remote that has two bytes of metadata. -/
def metadataHandshake : ExtendedMessage :=
  { supportedExtensions := some (HashMap.insert ∅ utMetadata 1), metadataSize := some 2 }

/-- A piece of metadata without its number. -/
def unnumbered : ExtendedMessage := { msgType := some .data }

/-- Its dictionary on the wire. -/
def unnumberedEntries : List (Bytes × Bencode) := [(ascii "msg_type".toList, .int 1)]

/-- Everything that is sent goes out, and the torrent has all it is asked for but the metadata. -/
def working : PeerEnv := ⟨true, [], some true, some false, some (some [1])⟩

/-- Nothing goes out. -/
def disconnected : PeerEnv := { working with sent := false }

def panickingPeer : PeerId := .ofId (Vector.replicate 20 0)

end Sample

/-- The decoder reads it, if serde reads its dictionary. -/
theorem Sample.fromBytes_unnumbered {s : Serde}
    (h : s.Faithful Sample.unnumbered Sample.unnumberedEntries) :
    PeerMessages.fromBytes s
      (beBytes 4 18 ++ ([20, 2] ++ (Bencode.dict Sample.unnumberedEntries).encode ++ [7])) =
        .ok (.extended 2 (some Sample.unnumbered) (some [7])) := by
  have hbody : (PeerMessages.extended 2 (some Sample.unnumbered) (some [7])).body s =
      [20, 2] ++ (Bencode.dict Sample.unnumberedEntries).encode ++ [7] := by
    simp [PeerMessages.body, Serde.dictionary, h.writes]
  have hlength : ((PeerMessages.extended 2 (some Sample.unnumbered) (some [7])).body s).length = 18 := by
    rw [hbody]
    decide
  have hread := fromBytes_frame s ((PeerMessages.extended 2 (some Sample.unnumbered) (some [7])).body s) []
    (by rw [hlength]; decide)
  rw [List.append_nil, hlength, hbody] at hread
  rw [hread, ← hbody]
  exact readBody_body (by simp [PeerMessages.Representable]) ⟨_, h⟩ rfl

open Sample in
/-- The actor panics at a piece of metadata without its number, which the decoder reads from the wire; at
the request of a remote that has closed its connection; and at a bitfield, if the answer to it cannot be
sent. -/
theorem remote_panics_peer :
    (∀ s : Serde, s.Faithful unnumbered unnumberedEntries → PeerMessages.fromBytes s
      (beBytes 4 18 ++ ([20, 2] ++ (Bencode.dict unnumberedEntries).encode ++ [7])) =
        .ok (.extended 2 (some unnumbered) (some [7]))) ∧
    (QueuedPeer.new panickingPeer).run [.wire working (.extended 0 (some metadataHandshake) none),
      .wire working (.extended 2 (some unnumbered) (some [7]))] = none ∧
    (QueuedPeer.new panickingPeer).run [.command working (.setChoked false),
      .wire disconnected (.request 0 0 16384)] = none ∧
    (QueuedPeer.new panickingPeer).run [.wire disconnected (.bitfield [true])] = none :=
  ⟨fun _ => fromBytes_unnumbered, rfl, rfl, rfl⟩

end Tortillas
