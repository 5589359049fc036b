/-
**How two ends of a connection come to be peers of each other.**

`protocol/stream.rs`, `engine/messages.rs`, `torrent/swarm.rs`: a torrent that is told of an address
calls it, writes its handshake and reads one; an engine that is called reads a handshake first, looks
up the torrent that it names, and leaves the answer to that torrent.  Only then does the torrent take
the peer in, under the id of the handshake.

Both ends read from a stream that is in pieces of any size and that goes on behind the handshake.  The
frames behind it belong to another reader.  So what has to be right is where reading stops: `recv_handshake_message`
asks for one byte, and then for exactly what that byte announces.  The other end may be anybody, and may write anything.

Main definitions:

* `Handshake.wanted`, `recvHandshakeMessage`, `validateHandshake` — how a handshake is read and checked;
* `incomingPeer`, `connectedId`, `insertPeer` — what the engine and the torrents make of it;
* `Link`, `Network`, `Network.step`, `networkSystem` — the tasks of all connections, under any interleaving;
* `Stands` — what lies behind an end of a connection at each point of its task.

Main results:

* `Handshake.wanted_append`, `toBytes_of_fromBytes` — a handshake is read whole, and nothing behind it;
* `incomingPeer_ok`, `answeredHandshake_ok`, `connectedId_ok` — what has been checked when a check is passed;
* `Link.Goes.stands` — every step of a task comes to where the task stands.
-/

import Tortillas.AnnounceUrl
import Tortillas.Conversation
import Tortillas.UdpWire

set_option relaxedAutoImplicit false
set_option autoImplicit false

namespace Tortillas

open Outcome

/-- The hash that names a torrent. -/
abbrev InfoHash := Vector UInt8 20

/-! ### Reading a handshake -/

/-- Why a connection comes to nothing. -/
inductive ConnectError
  | handshakeFailed (reason : String)
  | handshakeMagicMismatch (expected received : Text)
  | handshakeInfoHashMismatch (expected received : Text)
  | peerTimeout (seconds : ℕ)
  | io (error : IoError)
  | invalidOperation (operation reason : String)
  | peerAlreadyConnected (peerId : PeerId)
  | actorCommunicationFailed (operation reason : String)
  /-- The engine has no torrent of this hash; it drops the stream. -/
  | unknownTorrent (infoHash : InfoHash)
  deriving DecidableEq

namespace Handshake

/-- `Handshake::new`: the bit of BEP 10 is set. -/
def new (infoHash : InfoHash) (peerId : PeerId) : Handshake :=
  ⟨magicString, (Vector.replicate 8 0).set 5 0x10, infoHash, peerId⟩

/-- The length of a handshake, from the length of its protocol. -/
def lengthFor (protocolLen : UInt8) : ℕ := 1 + protocolLen.toNat + 8 + 40

/-- How many bytes the read that is under way still asks for. -/
def wanted : Bytes → ℕ
  | [] => 1
  | protocolLen :: got => lengthFor protocolLen - (got.length + 1)

end Handshake

/-- What `recv_handshake_message` makes of the bytes it has asked for. -/
def recvHandshakeMessage (buf : Bytes) : Outcome ConnectError Handshake :=
  match Handshake.fromBytes buf with
  | .ok h => .ok h
  | .err reason => .err (.handshakeFailed reason)
  | .panic => .panic

/-- `to_hex`. -/
def hexOf (infoHash : InfoHash) : Text := infoHash.toList.flatMap hexEncode

def validateHandshakeProtocol (h : Handshake) : Outcome ConnectError Unit :=
  if magicString ≠ h.protocol then
    .err (.handshakeMagicMismatch (fromUtf8Lossy magicString) (fromUtf8Lossy h.protocol))
  else .ok ()

def validateHandshake (h : Handshake) (infoHash : InfoHash) : Outcome ConnectError Unit := do
  validateHandshakeProtocol h
  if infoHash ≠ h.infoHash then
    .err (.handshakeInfoHashMismatch (hexOf infoHash) (hexOf h.infoHash))
  else .ok ()

/-! ### The engine and the torrents -/

/-- The engine's `incoming_peer`: the torrent that an incoming handshake is for. -/
def incomingPeer {τ : Type} (torrents : HashMap InfoHash τ) (buf : Bytes) :
    Outcome ConnectError (τ × Handshake) := do
  let h ← recvHandshakeMessage buf
  validateHandshakeProtocol h
  match torrents.get? h.infoHash with
  | some torrent => .ok (torrent, h)
  | none => .err (.unknownTorrent h.infoHash)

/-- The handshake that answers the call of a torrent. -/
def answeredHandshake (infoHash : InfoHash) (buf : Bytes) : Outcome ConnectError Handshake := do
  let h ← recvHandshakeMessage buf
  validateHandshake h infoHash
  .ok h

/-- The id a connection is registered under.  The one the peer was announced with comes before the
one it names itself. -/
def connectedId (ourId : PeerId) (id handshakeId : Option PeerId) : Outcome ConnectError PeerId :=
  match id.or handshakeId with
  | none => .err (.invalidOperation "add peer" "peer connection completed without a peer id")
  | some id =>
      if id = ourId then
        .err (.invalidOperation "add peer" "a torrent cannot connect to its own peer id")
      else .ok id

/-- What the checks of `insert_peer` make of a connected peer.  `scope` tells whether the live hub is
there to open the scope of the peer. -/
def insertPeer {V : Type} (peers : HashMap PeerId V) (id : Option PeerId) (scope : Bool) :
    Outcome ConnectError PeerId :=
  match id with
  | none =>
      .err (.invalidOperation "register connected peer" "connected peer is missing its peer id")
  | some id =>
      if peers.contains id then .err (.peerAlreadyConnected id)
      else if scope = false then
        .err (.actorCommunicationFailed "register peer live scope" "live hub is no longer available")
      else .ok id

/-- The engines `ν` and their torrents `τ`, each torrent spawned once. -/
structure Roster (τ ν : Type) where
  home : τ → ν
  infoHash : τ → InfoHash
  peerId : ν → PeerId
  /-- `incoming_peer_handshake_timeout`, in whole seconds. -/
  handshakeTimeout : ν → ℕ

variable {τ ν κ : Type} (R : Roster τ ν)

/-- The handshake of a torrent. -/
def Roster.hello (t : τ) : Handshake := .new (R.infoHash t) (R.peerId (R.home t))

/-- How far the task at one end of a connection is. -/
inductive TaskPhase (τ : Type)
  /-- This end is no program of ours. -/
  | foreign
  /-- The engine has not come to it. -/
  | queued
  /-- The engine reads its handshake. -/
  | admitted (got : Bytes)
  /-- `IncomingPeer` is in the mailbox of a torrent. -/
  | routed (torrent : τ) (id : PeerId) (reserved : Vector UInt8 8)
  /-- The task of a torrent writes; of an incoming stream it knows the reserved bytes. -/
  | greeting (torrent : τ) (id : Option PeerId) (reserved : Option (Vector UInt8 8)) (rest : Bytes)
  /-- The task of a torrent that has called reads the answer. -/
  | reading (torrent : τ) (id : Option PeerId) (got : Bytes)
  /-- `PeerConnected` is in the mailbox of the torrent. -/
  | asking (torrent : τ) (id : PeerId) (reserved : Vector UInt8 8)
  | registered (torrent : τ) (id : PeerId) (reserved : Vector UInt8 8)
  /-- It is over: with this error, or because the peer was removed, or by a panic. -/
  | ended (error : Option ConnectError)
  deriving DecidableEq

/-- Where a task goes on with a value, and where it ends. -/
def TaskPhase.ofOutcome {α : Type} (f : α → TaskPhase τ) : Outcome ConnectError α → TaskPhase τ
  | .ok a => f a
  | .err error => .ended (some error)
  | .panic => .ended none

/-- The engine, with the bytes that it has by now. -/
def admits (torrents : HashMap InfoHash τ) (got : Bytes) : TaskPhase τ :=
  if Handshake.wanted got = 0 then
    .ofOutcome (fun r => .routed r.1 r.2.peerId r.2.reserved) (incomingPeer torrents got)
  else .admitted got

/-- What a torrent that has called makes of the answer. -/
def Roster.answered (t : τ) (id : Option PeerId) (got : Bytes) :
    Outcome ConnectError (PeerId × Vector UInt8 8) := do
  let h ← answeredHandshake (R.infoHash t) got
  let id ← connectedId (R.peerId (R.home t)) id (some h.peerId)
  .ok (id, h.reserved)

/-- The task of a torrent that has called, with the bytes that it has by now. -/
def Roster.hears (t : τ) (id : Option PeerId) (got : Bytes) : TaskPhase τ :=
  if Handshake.wanted got = 0 then .ofOutcome (fun r => .asking t r.1 r.2) (R.answered t id got)
  else .reading t id got

/-- The task of a torrent that has this much of its handshake left to write. -/
def Roster.greets (t : τ) (id : Option PeerId) (reserved : Option (Vector UInt8 8)) (rest : Bytes) :
    TaskPhase τ :=
  if rest ≠ [] then .greeting t id reserved rest
  else
    match reserved with
    | none => .reading t id []
    | some reserved =>
        .ofOutcome (fun id => .asking t id reserved) (connectedId (R.peerId (R.home t)) id none)

/-! ### The network -/

/-- A connection.  The caller is the left end of it, and `known` is the id under which the caller was
told of the address. -/
structure Link (τ ν : Type) where
  caller : Option τ
  callee : Option ν
  known : Option PeerId
  /-- All that an end has written. -/
  sent : Side → Bytes
  /-- How much of what the other end has written the handshake has taken. -/
  taken : Side → ℕ
  phase : Side → TaskPhase τ

structure Network (τ ν κ : Type) where
  /-- The torrents of each engine. -/
  torrents : ν → HashMap InfoHash τ
  running : τ → Bool
  /-- The stream whose handshake an engine reads; it handles one message at a time. -/
  handling : ν → Option κ
  peers : τ → HashMap PeerId (κ × Side)
  link : κ → Option (Link τ ν)

inductive NetworkInput (τ ν κ : Type)
  | addTorrent (t : τ)
  | removeTorrent (t : τ)
  | stopTorrent (t : τ)
  /-- A torrent calls an address that was announced with this id, or with none. -/
  | dial (c : κ) (t : τ) (known : Option PeerId) (callee : Option ν)
  /-- Somebody calls an engine. -/
  | call (c : κ) (callee : ν)
  /-- The engine comes to an incoming stream. -/
  | accept (c : κ)
  /-- The torrent comes to `IncomingPeer`. -/
  | append (c : κ)
  /-- The transport delivers this many bytes. -/
  | read (c : κ) (side : Side) (n : ℕ)
  /-- The transport takes this many bytes. -/
  | write (c : κ) (side : Side) (n : ℕ)
  /-- A foreign end, or the actor of a registered peer, writes. -/
  | talk (c : κ) (side : Side) (bytes : Bytes)
  /-- The torrent comes to `PeerConnected`. -/
  | register (c : κ) (side : Side) (scope : Bool)
  /-- The torrent stops before it comes to the message of a task; a caller is told so. -/
  | unanswered (c : κ) (side : Side) (reason : String)
  | ioError (c : κ) (side : Side) (error : IoError)
  | timeout (c : κ) (side : Side)
  /-- A torrent removes the peer of this id. -/
  | removePeer (t : τ) (id : PeerId)

namespace Link

/-- The engine at an end. -/
def owner (l : Link τ ν) : Side → Option ν
  | .left => l.caller.map R.home
  | .right => l.callee

/-- What an end has not taken yet. -/
def ahead (l : Link τ ν) (side : Side) : Bytes := (l.sent side.opposite).drop (l.taken side)

/-- An end comes to another point of its task; it has written these bytes and taken so many. -/
def after (l : Link τ ν) (side : Side) (phase : TaskPhase τ) (bytes : Bytes) (n : ℕ) : Link τ ν :=
  { l with
    phase := Function.update l.phase side phase
    sent := Function.update l.sent side (l.sent side ++ bytes)
    taken := Function.update l.taken side (l.taken side + n) }

def setPhase (l : Link τ ν) (side : Side) (phase : TaskPhase τ) : Link τ ν := l.after side phase [] 0

/-- A read that wants more gets this many bytes. -/
def deliver (l : Link τ ν) (side : Side) (got : Bytes) (n : ℕ) : Option Bytes :=
  if 0 < n ∧ n ≤ Handshake.wanted got ∧ n ≤ (l.ahead side).length then
    some (got ++ (l.ahead side).take n)
  else none

/-- `n` bytes are read at an end. -/
def read (torrents : ν → HashMap InfoHash τ) (l : Link τ ν) (side : Side) (n : ℕ) :
    Option (Link τ ν) :=
  match l.phase side with
  | .admitted got =>
      l.callee.bind fun node => (l.deliver side got n).map fun got =>
        l.after side (admits (torrents node) got) [] n
  | .reading t id got => (l.deliver side got n).map fun got => l.after side (R.hears t id got) [] n
  | _ => none

/-- `n` bytes are written at an end. -/
def write (l : Link τ ν) (side : Side) (n : ℕ) : Option (Link τ ν) :=
  match l.phase side with
  | .greeting t id reserved rest =>
      if 0 < n ∧ n ≤ rest.length then
        some (l.after side (R.greets t id reserved (rest.drop n)) (rest.take n) 0)
      else none
  | _ => none

def talk (l : Link τ ν) (side : Side) (bytes : Bytes) : Option (Link τ ν) :=
  match l.phase side with
  | .foreign | .registered _ _ _ => some (l.after side (l.phase side) bytes 0)
  | _ => none

/-- The torrent's `incoming_peer`: a task is spawned. -/
def append (running : τ → Bool) (l : Link τ ν) : Option (Link τ ν) :=
  match l.phase .right with
  | .routed t id reserved =>
      if running t then
        some (l.setPhase .right (R.greets t (some id) (some reserved) (R.hello t).toBytes))
      else none
  | _ => none

/-- A message in the mailbox of a torrent that is not running any more. -/
def unanswered (running : τ → Bool) (l : Link τ ν) (side : Side) (reason : String) :
    Option (Link τ ν) :=
  match l.phase side with
  | .routed t _ _ => if running t then none else some (l.setPhase side (.ended none))
  | .asking t _ _ =>
      if running t then none
      else
        some (l.setPhase side
          (.ended (some (.actorCommunicationFailed "register connected peer" reason))))
  | _ => none

/-- A task that waits for the other end fails. -/
def fail (l : Link τ ν) (side : Side) (error : ConnectError) : Option (Link τ ν) :=
  match l.phase side with
  | .admitted _ | .greeting _ _ _ _ | .reading _ _ _ => some (l.setPhase side (.ended (some error)))
  | _ => none

end Link

namespace Network

variable [DecidableEq τ] [DecidableEq ν] [DecidableEq κ]

def setLink (N : Network τ ν κ) (c : κ) (l : Link τ ν) : Network τ ν κ :=
  { N with link := Function.update N.link c (some l) }

/-- The engine is done with a stream. -/
def release (N : Network τ ν κ) (c : κ) : Network τ ν κ :=
  { N with handling := fun node => if N.handling node = some c then none else N.handling node }

/-- A step of the task at one end.  The engine goes on to the next message when it is done with this. -/
def move (N : Network τ ν κ) (c : κ) (f : Link τ ν → Option (Link τ ν)) : Option (Network τ ν κ) :=
  (N.link c).bind fun l => (f l).map fun l =>
    match l.phase .right with
    | .admitted _ => N.setLink c l
    | _ => (N.setLink c l).release c

/-- The torrent's `peer_connected`. -/
def register (N : Network τ ν κ) (c : κ) (side : Side) (scope : Bool) : Option (Network τ ν κ) :=
  (N.link c).bind fun l =>
    match l.phase side with
    | .asking t id reserved =>
        if N.running t then
          match insertPeer (N.peers t) (some id) scope with
          | .ok id =>
              some { N.setLink c (l.setPhase side (.registered t id reserved)) with
                peers := Function.update N.peers t ((N.peers t).insert id (c, side)) }
          | .err error => some (N.setLink c (l.setPhase side (.ended (some error))))
          | .panic => none
        else none
    | _ => none

/-- The torrent's `remove_peer`: the actor of the peer is stopped. -/
def removePeer (N : Network τ ν κ) (t : τ) (id : PeerId) : Option (Network τ ν κ) :=
  ((N.peers t).get? id).bind fun e => (N.link e.1).map fun l =>
    { N.setLink e.1 (l.setPhase e.2 (.ended none)) with
      peers := Function.update N.peers t ((N.peers t).erase id) }

/-- A step of the network; `none` when it cannot happen. -/
def step (N : Network τ ν κ) : NetworkInput τ ν κ → Option (Network τ ν κ)
  | .addTorrent t =>
      if (N.torrents (R.home t)).contains (R.infoHash t) then none
      else some { N with
        torrents := Function.update N.torrents (R.home t)
          ((N.torrents (R.home t)).insert (R.infoHash t) t)
        running := Function.update N.running t true }
  | .removeTorrent t =>
      if (N.torrents (R.home t)).get? (R.infoHash t) = some t then
        some { N with
          torrents := Function.update N.torrents (R.home t)
            ((N.torrents (R.home t)).erase (R.infoHash t)) }
      else none
  | .stopTorrent t =>
      if (N.torrents (R.home t)).get? (R.infoHash t) = some t then none
      else some { N with running := Function.update N.running t false }
  | .dial c t known callee =>
      if N.link c = none ∧ N.running t = true then
        some (N.setLink c
          { caller := some t, callee := callee, known := known, sent := fun _ => [],
            taken := fun _ => 0
            phase := fun
              | .left => R.greets t known none (R.hello t).toBytes
              | .right => if callee.isSome then .queued else .foreign })
      else none
  | .call c callee =>
      if N.link c = none then
        some (N.setLink c
          { caller := none, callee := some callee, known := none, sent := fun _ => [],
            taken := fun _ => 0
            phase := fun
              | .left => .foreign
              | .right => .queued })
      else none
  | .accept c =>
      (N.link c).bind fun l => l.callee.bind fun node =>
        if l.phase .right = .queued ∧ N.handling node = none then
          some { N.setLink c (l.setPhase .right (.admitted [])) with
            handling := Function.update N.handling node (some c) }
        else none
  | .append c => N.move c (Link.append R N.running)
  | .read c side n => N.move c (Link.read R N.torrents · side n)
  | .write c side n => N.move c (Link.write R · side n)
  | .talk c side bytes => N.move c (Link.talk · side bytes)
  | .register c side scope => N.register c side scope
  | .unanswered c side reason => N.move c (Link.unanswered N.running · side reason)
  | .ioError c side error => N.move c (Link.fail · side (.io error))
  | .timeout c side =>
      N.move c fun l => (l.owner R side).bind fun node =>
        l.fail side (.peerTimeout (max (R.handshakeTimeout node) 1))
  | .removePeer t id => N.removePeer t id

end Network

/-- The engines of a roster, with no torrent and no connection yet. -/
def networkSystem [DecidableEq τ] [DecidableEq ν] [DecidableEq κ] :
    System (Network τ ν κ) (NetworkInput τ ν κ) where
  init N := N = ⟨fun _ => ∅, fun _ => false, fun _ => none, fun _ => ∅, fun _ => none⟩
  step N i M := N.step R i = some M

/-! ### A handshake is read whole -/

/-- The bytes of one handshake, to the last that its first byte announces. -/
def Handshake.Whole (buf : Bytes) : Prop :=
  ∃ protocolLen rest, buf = protocolLen :: rest ∧ buf.length = lengthFor protocolLen

/-- **What is asked for is what is missing**: when nothing more is, a handshake is there and nothing
behind it. -/
theorem Handshake.wanted_append {got chunk : Bytes} (hgot : 0 < wanted got)
    (hchunk : chunk.length ≤ wanted got) (hdone : wanted (got ++ chunk) = 0) :
    Whole (got ++ chunk) := by
  cases got with
  | nil =>
      -- the first read asks for the length of the protocol only
      simp only [wanted] at hchunk
      cases chunk with
      | nil => simp [wanted] at hdone
      | cons protocolLen chunk =>
          simp only [List.length_cons] at hchunk
          have hnil : chunk = [] := List.eq_nil_of_length_eq_zero (by omega)
          simp only [hnil, List.nil_append, wanted, lengthFor, List.length_nil] at hdone
          omega
  | cons protocolLen got =>
      refine ⟨protocolLen, got ++ chunk, rfl, ?_⟩
      simp only [wanted, List.cons_append, List.length_append, List.length_cons] at *
      omega

theorem eq_of_getArray {ε : Type} {n : ℕ} {bytes rest : Bytes} {a : Vector UInt8 n}
    (h : (getArray n bytes : Outcome ε _) = .ok (a, rest)) : bytes = a.toList ++ rest := by
  unfold getArray at h
  split at h
  · rename_i hle
    cases h
    simp [Vector.toList]
  · cases h

theorem eq_of_splitTo {ε : Type} {n : ℕ} {bytes front rest : Bytes}
    (h : (splitTo n bytes : Outcome ε _) = .ok (front, rest)) :
    bytes = front ++ rest ∧ front.length = n := by
  unfold splitTo at h
  split at h
  · rename_i hle
    cases h
    exact ⟨(List.take_append_drop ..).symm, by simp; omega⟩
  · cases h

/-- **The bytes of a handshake that is read are those that it would be written as.** -/
theorem toBytes_of_fromBytes {buf : Bytes} {h : Handshake} (hwhole : Handshake.Whole buf)
    (hread : Handshake.fromBytes buf = .ok h) :
    h.toBytes = buf ∧ h.peerId = PeerId.ofId h.peerId.id := by
  obtain ⟨protocolLen, bytes, rfl, hlen⟩ := hwhole
  simp only [Handshake.fromBytes] at hread
  split at hread
  · cases hread
  · obtain ⟨⟨protocol, afterProtocol⟩, hprotocol, hread⟩ := bind_eq_ok.1 hread
    obtain ⟨⟨reserved, afterReserved⟩, hreserved, hread⟩ := bind_eq_ok.1 hread
    obtain ⟨⟨infoHash, afterHash⟩, hinfoHash, hread⟩ := bind_eq_ok.1 hread
    obtain ⟨⟨peerId, rest⟩, hpeerId, hread⟩ := bind_eq_ok.1 hread
    cases hread
    obtain ⟨rfl, hprotocolLen⟩ := eq_of_splitTo hprotocol
    obtain rfl := eq_of_getArray hreserved
    obtain rfl := eq_of_getArray hinfoHash
    obtain rfl := eq_of_getArray hpeerId
    -- the length leaves nothing behind the peer id
    simp only [Handshake.lengthFor, List.length_cons, List.length_append, Vector.length_toList,
      hprotocolLen] at hlen
    obtain rfl : rest = [] := List.eq_nil_of_length_eq_zero (by omega)
    refine ⟨?_, rfl⟩
    simp [Handshake.toBytes, hprotocolLen]

theorem of_recvHandshakeMessage {buf : Bytes} {h : Handshake} (hwhole : Handshake.Whole buf)
    (hread : recvHandshakeMessage buf = .ok h) :
    h.toBytes = buf ∧ h.peerId = PeerId.ofId h.peerId.id := by
  unfold recvHandshakeMessage at hread
  cases hbytes : Handshake.fromBytes buf with
  | ok h' =>
      rw [hbytes] at hread
      cases hread
      exact toBytes_of_fromBytes hwhole hbytes
  | err reason =>
      rw [hbytes] at hread
      cases hread
  | panic =>
      rw [hbytes] at hread
      cases hread

theorem validateHandshakeProtocol_ok {h : Handshake} :
    validateHandshakeProtocol h = .ok () ↔ h.protocol = magicString := by
  rw [validateHandshakeProtocol]
  split
  · rename_i hne
    constructor
    · intro hok
      cases hok
    · intro heq
      exact absurd heq.symm hne
  · rename_i heq
    exact ⟨fun _ => (not_not.1 heq).symm, fun _ => rfl⟩

/-- What an engine hands to a torrent is a handshake for it. -/
theorem incomingPeer_ok {torrents : HashMap InfoHash τ} {buf : Bytes} {t : τ} {h : Handshake}
    (hwhole : Handshake.Whole buf) (hok : incomingPeer torrents buf = .ok (t, h)) :
    h.toBytes = buf ∧ h.peerId = PeerId.ofId h.peerId.id ∧ h.protocol = magicString ∧
      torrents.get? h.infoHash = some t := by
  obtain ⟨h', hread, hok⟩ := bind_eq_ok.1 hok
  obtain ⟨⟨⟩, hprotocol, hok⟩ := bind_eq_ok.1 hok
  cases hget : torrents.get? h'.infoHash with
  | none =>
      rw [hget] at hok
      cases hok
  | some t' =>
      rw [hget] at hok
      cases hok
      obtain ⟨hbytes, hid⟩ := of_recvHandshakeMessage hwhole hread
      exact ⟨hbytes, hid, validateHandshakeProtocol_ok.1 hprotocol, hget⟩

/-- What a caller takes for an answer is a handshake for its torrent. -/
theorem answeredHandshake_ok {infoHash : InfoHash} {buf : Bytes} {h : Handshake}
    (hwhole : Handshake.Whole buf) (hok : answeredHandshake infoHash buf = .ok h) :
    h.toBytes = buf ∧ h.peerId = PeerId.ofId h.peerId.id ∧ h.protocol = magicString ∧
      h.infoHash = infoHash := by
  obtain ⟨h', hread, hok⟩ := bind_eq_ok.1 hok
  obtain ⟨⟨⟩, hvalid, hok⟩ := bind_eq_ok.1 hok
  cases hok
  obtain ⟨⟨⟩, hprotocol, hhash⟩ := bind_eq_ok.1 hvalid
  obtain ⟨hbytes, hid⟩ := of_recvHandshakeMessage hwhole hread
  refine ⟨hbytes, hid, validateHandshakeProtocol_ok.1 hprotocol, ?_⟩
  by_contra hne
  rw [if_pos (Ne.symm hne)] at hhash
  cases hhash

theorem connectedId_ok {ourId p : PeerId} {id handshakeId : Option PeerId}
    (hok : connectedId ourId id handshakeId = .ok p) : id.or handshakeId = some p ∧ p ≠ ourId := by
  unfold connectedId at hok
  cases hor : id.or handshakeId with
  | none =>
      rw [hor] at hok
      cases hok
  | some q =>
      rw [hor] at hok
      by_cases hours : q = ourId
      · simp [hours] at hok
      · simp only [if_neg hours] at hok
        cases hok
        exact ⟨rfl, hours⟩

/-- A peer is only taken in under an id that is free. -/
theorem insertPeer_ok {V : Type} {peers : HashMap PeerId V} {id : Option PeerId} {scope : Bool}
    {p : PeerId} (hok : insertPeer peers id scope = .ok p) : id = some p ∧ peers.get? p = none := by
  cases id with
  | none => cases hok
  | some id =>
      simp only [insertPeer] at hok
      by_cases hcontains : peers.contains id = true
      · rw [if_pos hcontains] at hok
        cases hok
      · rw [if_neg hcontains] at hok
        cases scope with
        | false => cases hok
        | true =>
            cases hok
            refine ⟨rfl, ?_⟩
            rw [HashMap.contains] at hcontains
            simpa using hcontains

/-! ### What lies behind an end -/

/-- An end has read this handshake, for a torrent of this hash, and nothing behind it. -/
structure Link.Heard (l : Link τ ν) (side : Side) (infoHash : InfoHash) (h : Handshake) : Prop where
  protocol : h.protocol = magicString
  infoHash : h.infoHash = infoHash
  filed : h.peerId = PeerId.ofId h.peerId.id
  read : h.toBytes <+: l.sent side.opposite
  taken : l.taken side = h.toBytes.length

/-- The id under which an end takes the other in, with this handshake of it. -/
def Link.idOf (l : Link τ ν) (h : Handshake) : Side → PeerId
  | .left => l.known.getD h.peerId
  | .right => h.peerId

/-- An end that was called has written nothing, unless it has read a handshake for one of its torrents. -/
def Link.Discreet (l : Link τ ν) (side : Side) : Prop :=
  side = .right → l.callee ≠ none → l.sent .right = [] ∨
    ∃ t h, l.callee = some (R.home t) ∧ l.Heard .right (R.infoHash t) h

/-- **What lies behind an end at each point of its task.** -/
inductive Stands (l : Link τ ν) : Side → TaskPhase τ → Prop
  | foreign {side : Side} (howner : l.owner R side = none) : Stands l side .foreign
  | queued (hsent : l.sent .right = []) (htaken : l.taken .right = 0) : Stands l .right .queued
  | admitted {got : Bytes} (hsent : l.sent .right = []) (hgot : got <+: l.sent .left)
      (htaken : l.taken .right = got.length) (hwanted : 0 < Handshake.wanted got) :
      Stands l .right (.admitted got)
  | routed {t : τ} {h : Handshake} (hsent : l.sent .right = []) (howner : l.callee = some (R.home t))
      (hheard : l.Heard .right (R.infoHash t) h) : Stands l .right (.routed t h.peerId h.reserved)
  | answers {t : τ} {h : Handshake} {rest : Bytes} (howner : l.callee = some (R.home t))
      (hsent : l.sent .right ++ rest = (R.hello t).toBytes) (hrest : rest ≠ [])
      (hheard : l.Heard .right (R.infoHash t) h) :
      Stands l .right (.greeting t (some h.peerId) (some h.reserved) rest)
  | calls {t : τ} {rest : Bytes} (howner : l.caller = some t)
      (hsent : l.sent .left ++ rest = (R.hello t).toBytes) (hrest : rest ≠ [])
      (htaken : l.taken .left = 0) : Stands l .left (.greeting t l.known none rest)
  | reading {t : τ} {got : Bytes} (howner : l.caller = some t)
      (hsent : l.sent .left = (R.hello t).toBytes) (hgot : got <+: l.sent .right)
      (htaken : l.taken .left = got.length) (hwanted : 0 < Handshake.wanted got) :
      Stands l .left (.reading t l.known got)
  | asking {side : Side} {t : τ} {h : Handshake} (howner : l.owner R side = some (R.home t))
      (hsent : l.sent side = (R.hello t).toBytes) (hheard : l.Heard side (R.infoHash t) h)
      (hother : l.idOf h side ≠ R.peerId (R.home t)) :
      Stands l side (.asking t (l.idOf h side) h.reserved)
  | registered {side : Side} {t : τ} {h : Handshake} (howner : l.owner R side = some (R.home t))
      (hsent : (R.hello t).toBytes <+: l.sent side) (hheard : l.Heard side (R.infoHash t) h)
      (hother : l.idOf h side ≠ R.peerId (R.home t)) :
      Stands l side (.registered t (l.idOf h side) h.reserved)
  | ended {side : Side} {error : Option ConnectError} (hdiscreet : l.Discreet R side) :
      Stands l side (.ended error)

/-- Both ends of a connection stand where their tasks are. -/
def Link.Sound (l : Link τ ν) : Prop := ∀ side, Stands R l side (l.phase side)

variable {R}

section After

variable (l : Link τ ν) (side : Side) (phase : TaskPhase τ) (bytes : Bytes) (n : ℕ)

@[simp] theorem Link.after_caller : (l.after side phase bytes n).caller = l.caller := rfl

@[simp] theorem Link.after_callee : (l.after side phase bytes n).callee = l.callee := rfl

@[simp] theorem Link.after_known : (l.after side phase bytes n).known = l.known := rfl

@[simp] theorem Link.after_owner : (l.after side phase bytes n).owner R = l.owner R := rfl

@[simp] theorem Link.after_idOf (h : Handshake) :
    (l.after side phase bytes n).idOf h = l.idOf h := rfl

@[simp] theorem Link.after_phase : (l.after side phase bytes n).phase side = phase :=
  Function.update_self ..

@[simp] theorem Link.after_phase_opposite :
    (l.after side phase bytes n).phase side.opposite = l.phase side.opposite :=
  Function.update_of_ne side.opposite_ne ..

theorem Link.after_phase_of_ne {other : Side} (h : other ≠ side) :
    (l.after side phase bytes n).phase other = l.phase other := Function.update_of_ne h ..

@[simp] theorem Link.after_sent : (l.after side phase bytes n).sent side = l.sent side ++ bytes :=
  Function.update_self ..

@[simp] theorem Link.after_sent_opposite :
    (l.after side phase bytes n).sent side.opposite = l.sent side.opposite :=
  Function.update_of_ne side.opposite_ne ..

@[simp] theorem Link.after_taken : (l.after side phase bytes n).taken side = l.taken side + n :=
  Function.update_self ..

@[simp] theorem Link.after_taken_opposite :
    (l.after side phase bytes n).taken side.opposite = l.taken side.opposite :=
  Function.update_of_ne side.opposite_ne ..

end After

namespace Link

variable {l m : Link τ ν} {side : Side}

/-- What the other end writes behind it does not matter to a handshake that has been read. -/
theorem Heard.frame {infoHash : InfoHash} {h : Handshake} (hheard : l.Heard side infoHash h)
    (hsent : l.sent side.opposite <+: m.sent side.opposite) (htaken : m.taken side = l.taken side) :
    m.Heard side infoHash h :=
  { hheard with
    read := hheard.read.trans hsent
    taken := htaken.trans hheard.taken }

theorem Discreet.setPhase (h : l.Discreet R side) (p : TaskPhase τ) :
    (l.setPhase side p).Discreet R side := by
  intro hright hcallee
  subst hright
  rcases h rfl hcallee with hnil | ⟨t, h, howner, hheard⟩
  · exact .inl (by simp [Link.setPhase, hnil])
  · exact .inr ⟨t, h, howner, hheard.frame (by simp [Link.setPhase]) (by simp [Link.setPhase])⟩

end Link

namespace Stands

variable {l : Link τ ν} {side : Side}

/-- An end stands where it stood while the other one takes a step. -/
theorem frame {p : TaskPhase τ} (h : Stands R l side.opposite p) (phase : TaskPhase τ)
    (bytes : Bytes) (n : ℕ) : Stands R (l.after side phase bytes n) side.opposite p := by
  have hgrown : ∀ {other : Side}, side.opposite = other →
      l.sent other.opposite <+: (l.after side phase bytes n).sent other.opposite := by
    rintro other rfl
    rw [Side.opposite_opposite, Link.after_sent]
    exact List.prefix_append ..
  have hsent_eq : ∀ {other : Side}, side.opposite = other →
      (l.after side phase bytes n).sent other = l.sent other := by
    rintro other rfl
    exact Link.after_sent_opposite ..
  have htaken_eq : ∀ {other : Side}, side.opposite = other →
      (l.after side phase bytes n).taken other = l.taken other := by
    rintro other rfl
    exact Link.after_taken_opposite ..
  generalize hother : side.opposite = other at h ⊢
  have hgrown := hgrown hother
  have hsent_eq := hsent_eq hother
  have htaken_eq := htaken_eq hother
  cases h with
  | foreign howner => exact .foreign howner
  | queued hsent htaken => exact .queued (hsent_eq.trans hsent) (htaken_eq.trans htaken)
  | admitted hsent hgot htaken hwanted =>
      exact .admitted (hsent_eq.trans hsent) (hgot.trans hgrown) (htaken_eq.trans htaken) hwanted
  | routed hsent howner hheard =>
      exact .routed (hsent_eq.trans hsent) howner (hheard.frame hgrown htaken_eq)
  | answers howner hsent hrest hheard =>
      exact .answers howner (by rw [hsent_eq, hsent]) hrest (hheard.frame hgrown htaken_eq)
  | calls howner hsent hrest htaken =>
      exact .calls howner (by rw [hsent_eq, hsent]) hrest (htaken_eq.trans htaken)
  | reading howner hsent hgot htaken hwanted =>
      exact .reading howner (hsent_eq.trans hsent) (hgot.trans hgrown) (htaken_eq.trans htaken) hwanted
  | asking howner hsent hheard hne =>
      exact .asking (l := l.after side phase bytes n) howner (hsent_eq.trans hsent)
        (hheard.frame hgrown htaken_eq) hne
  | registered howner hsent hheard hne =>
      exact .registered (l := l.after side phase bytes n) howner (by rw [hsent_eq]; exact hsent)
        (hheard.frame hgrown htaken_eq) hne
  | ended hdiscreet =>
      refine .ended fun hright hcallee => ?_
      subst hright
      rcases hdiscreet rfl hcallee with hnil | ⟨t, h, howner, hheard⟩
      · exact .inl (hsent_eq.trans hnil)
      · exact .inr ⟨t, h, howner, hheard.frame hgrown htaken_eq⟩

theorem discreet {p : TaskPhase τ} (h : Stands R l side p) : l.Discreet R side := by
  intro hright hcallee
  subst hright
  cases h with
  | foreign howner => exact absurd howner hcallee
  | queued hsent htaken => exact .inl hsent
  | admitted hsent hgot htaken hwanted => exact .inl hsent
  | routed hsent howner hheard => exact .inl hsent
  | answers howner hsent hrest hheard => exact .inr ⟨_, _, howner, hheard⟩
  | asking howner hsent hheard hother => exact .inr ⟨_, _, howner, hheard⟩
  | registered howner hsent hheard hother => exact .inr ⟨_, _, howner, hheard⟩
  | ended hdiscreet => exact hdiscreet rfl hcallee

end Stands

namespace Link

variable {l m : Link τ ν} {side : Side}

/-! ### What a task does -/

/-- A step of the task at one end: where it comes to, what it writes and how much it takes. -/
inductive Goes (R : Roster τ ν) (torrents : ν → HashMap InfoHash τ) (running : τ → Bool) (l : Link τ ν) :
    Side → TaskPhase τ → Bytes → ℕ → Prop
  | admits {side : Side} {node : ν} {got more : Bytes} {n : ℕ} (hphase : l.phase side = .admitted got)
      (hnode : l.callee = some node) (hmore : l.deliver side got n = some more) :
      Goes R torrents running l side (Tortillas.admits (torrents node) more) [] n
  | hears {side : Side} {t : τ} {id : Option PeerId} {got more : Bytes} {n : ℕ}
      (hphase : l.phase side = .reading t id got) (hmore : l.deliver side got n = some more) :
      Goes R torrents running l side (R.hears t id more) [] n
  | writes {side : Side} {t : τ} {id : Option PeerId} {reserved : Option (Vector UInt8 8)}
      {rest : Bytes} {n : ℕ} (hphase : l.phase side = .greeting t id reserved rest)
      (hn : 0 < n ∧ n ≤ rest.length) :
      Goes R torrents running l side (R.greets t id reserved (rest.drop n)) (rest.take n) 0
  | talks {side : Side} {bytes : Bytes}
      (hphase : l.phase side = .foreign ∨ ∃ t id reserved, l.phase side = .registered t id reserved) :
      Goes R torrents running l side (l.phase side) bytes 0
  | appends {t : τ} {id : PeerId} {reserved : Vector UInt8 8}
      (hphase : l.phase .right = .routed t id reserved) (hrunning : running t = true) :
      Goes R torrents running l .right
        (R.greets t (some id) (some reserved) (R.hello t).toBytes) [] 0
  | fails {side : Side} {error : Option ConnectError}
      (hphase : ∀ t id reserved, l.phase side ≠ .registered t id reserved) :
      Goes R torrents running l side (.ended error) [] 0

variable {torrents : ν → HashMap InfoHash τ} {running : τ → Bool} {n : ℕ}

theorem goes_of_read (h : l.read R torrents side n = some m) :
    ∃ phase bytes k, Goes R torrents running l side phase bytes k ∧ m = l.after side phase bytes k := by
  unfold read at h
  split at h
  · rename_i got hphase
    obtain ⟨node, hnode, h⟩ := Option.bind_eq_some_iff.1 h
    obtain ⟨more, hmore, rfl⟩ := Option.map_eq_some_iff.1 h
    exact ⟨_, _, _, .admits hphase hnode hmore, rfl⟩
  · rename_i t id got hphase
    obtain ⟨more, hmore, rfl⟩ := Option.map_eq_some_iff.1 h
    exact ⟨_, _, _, .hears hphase hmore, rfl⟩
  · cases h

theorem goes_of_write (h : l.write R side n = some m) :
    ∃ phase bytes k, Goes R torrents running l side phase bytes k ∧ m = l.after side phase bytes k := by
  unfold write at h
  split at h
  · rename_i t id reserved rest hphase
    split at h
    · rename_i hn
      cases h
      exact ⟨_, _, _, .writes hphase hn, rfl⟩
    · cases h
  · cases h

theorem goes_of_talk {bytes : Bytes} (h : l.talk side bytes = some m) :
    ∃ phase bytes k, Goes R torrents running l side phase bytes k ∧ m = l.after side phase bytes k := by
  unfold talk at h
  split at h
  · rename_i hphase
    cases h
    exact ⟨_, _, _, .talks (.inl hphase), rfl⟩
  · rename_i t id reserved hphase
    cases h
    exact ⟨_, _, _, .talks (.inr ⟨t, id, reserved, hphase⟩), rfl⟩
  · cases h

theorem goes_of_append (h : l.append R running = some m) :
    ∃ phase bytes k, Goes R torrents running l .right phase bytes k ∧ m = l.after .right phase bytes k := by
  unfold append at h
  split at h
  · rename_i t id reserved hphase
    split at h
    · rename_i hrunning
      cases h
      exact ⟨_, _, _, .appends hphase hrunning, rfl⟩
    · cases h
  · cases h

theorem goes_of_unanswered {reason : String} (h : l.unanswered running side reason = some m) :
    ∃ phase bytes k, Goes R torrents running l side phase bytes k ∧ m = l.after side phase bytes k := by
  unfold unanswered at h
  split at h
  · rename_i hphase
    split at h
    · cases h
    · cases h
      exact ⟨_, _, _, .fails (by simp [hphase]), rfl⟩
  · rename_i hphase
    split at h
    · cases h
    · cases h
      exact ⟨_, _, _, .fails (by simp [hphase]), rfl⟩
  · cases h

theorem goes_of_fail {error : ConnectError} (h : l.fail side error = some m) :
    ∃ phase bytes k, Goes R torrents running l side phase bytes k ∧ m = l.after side phase bytes k := by
  unfold fail at h
  split at h
  case h_4 => cases h
  all_goals
    rename_i hphase
    cases h
    exact ⟨_, _, _, .fails (by simp [hphase]), rfl⟩

/-- What a read that wants more gets is what comes next. -/
theorem of_deliver {got more : Bytes} (h : l.deliver side got n = some more)
    (hgot : got <+: l.sent side.opposite) (htaken : l.taken side = got.length)
    (hwanted : 0 < Handshake.wanted got) :
    more <+: l.sent side.opposite ∧ l.taken side + n = more.length ∧
      (Handshake.wanted more = 0 → Handshake.Whole more) := by
  unfold deliver at h
  split at h
  · rename_i hn
    cases h
    have hchunk : ((l.ahead side).take n).length = n := by
      rw [List.length_take]
      exact Nat.min_eq_left hn.2.2
    refine ⟨?_, ?_, ?_⟩
    · obtain ⟨behind, hsent⟩ := hgot
      have hahead : l.ahead side = behind := by
        rw [ahead, htaken, ← hsent]
        exact List.drop_left
      rw [hahead, ← hsent]
      exact (List.prefix_append_right_inj got).2 (List.take_prefix n behind)
    · rw [List.length_append, hchunk, htaken]
    · exact Handshake.wanted_append hwanted (by rw [hchunk]; exact hn.2.1)
  · cases h

end Link

/-- Where a task comes to with an outcome. -/
theorem TaskPhase.ofOutcome_cases {α : Type} (f : α → TaskPhase τ) (o : Outcome ConnectError α) :
    (∃ a, o = .ok a ∧ TaskPhase.ofOutcome f o = f a) ∨
      ∃ error, TaskPhase.ofOutcome f o = .ended error := by
  cases o with
  | ok a => exact .inl ⟨a, rfl, rfl⟩
  | err error => exact .inr ⟨some error, rfl⟩
  | panic => exact .inr ⟨none, rfl⟩

/-- The torrents of an engine are those that it has been given, under their hashes. -/
def Homed (R : Roster τ ν) (torrents : ν → HashMap InfoHash τ) : Prop :=
  ∀ node infoHash t, (torrents node).get? infoHash = some t → R.home t = node ∧ R.infoHash t = infoHash

theorem Homed.add [DecidableEq ν] {torrents : ν → HashMap InfoHash τ} {t : τ}
    (h : Homed R torrents) : Homed R (Function.update torrents (R.home t)
    ((torrents (R.home t)).insert (R.infoHash t) t)) := by
  intro node infoHash t' hget
  by_cases hnode : node = R.home t
  · subst hnode
    rw [Function.update_self] at hget
    rcases HashMap.get?_of_get?_insert hget with ⟨rfl, rfl⟩ | ⟨-, hget⟩
    · exact ⟨rfl, rfl⟩
    · exact h _ _ _ hget
  · rw [Function.update_of_ne hnode] at hget
    exact h _ _ _ hget

theorem Homed.remove [DecidableEq ν] {torrents : ν → HashMap InfoHash τ} {t : τ}
    (h : Homed R torrents) : Homed R (Function.update torrents (R.home t)
    ((torrents (R.home t)).erase (R.infoHash t))) := by
  intro node infoHash t' hget
  by_cases hnode : node = R.home t
  · subst hnode
    rw [Function.update_self] at hget
    exact h _ _ _ (HashMap.get?_of_get?_erase hget).2
  · rw [Function.update_of_ne hnode] at hget
    exact h _ _ _ hget

namespace Link

variable {l : Link τ ν} {side : Side} {torrents : ν → HashMap InfoHash τ} {running : τ → Bool}

theorem hello_ne_nil (t : τ) : (R.hello t).toBytes ≠ [] := by
  simp [Handshake.toBytes]

/-- A task that has this much left to write: it goes on writing, or is done. -/
theorem greets_cases (t : τ) (id : Option PeerId) (reserved : Option (Vector UInt8 8)) (rest : Bytes) :
    (rest ≠ [] ∧ R.greets t id reserved rest = .greeting t id reserved rest) ∨
      (rest = [] ∧ reserved = none ∧ R.greets t id reserved rest = .reading t id []) ∨
      (rest = [] ∧ ∃ bits p, reserved = some bits ∧ id = some p ∧ p ≠ R.peerId (R.home t) ∧
        R.greets t id reserved rest = .asking t p bits) ∨
      ∃ error, R.greets t id reserved rest = .ended error := by
  unfold Roster.greets
  by_cases hrest : rest = []
  · rw [if_neg (not_not.2 hrest)]
    cases reserved with
    | none => exact .inr (.inl ⟨hrest, rfl, rfl⟩)
    | some bits =>
        rcases TaskPhase.ofOutcome_cases (fun p => TaskPhase.asking t p bits)
          (connectedId (R.peerId (R.home t)) id none) with ⟨p, hok, hphase⟩ | ⟨error, hphase⟩
        · obtain ⟨hor, hne⟩ := connectedId_ok hok
          rw [Option.or_none] at hor
          exact .inr (.inr (.inl ⟨hrest, bits, p, rfl, hor, hne, hphase⟩))
        · exact .inr (.inr (.inr ⟨error, hphase⟩))
  · exact .inl ⟨hrest, if_pos hrest⟩

/-- **A task stands where it comes to.** -/
theorem Goes.stands (hhosted : Homed R torrents) (hl : l.Sound R) {phase : TaskPhase τ}
    {bytes : Bytes} {n : ℕ} (h : Goes R torrents running l side phase bytes n) :
    Stands R (l.after side phase bytes n) side phase := by
  have hstands := hl side
  cases h with
  | @admits _ node got more _ hphase hnode hmore =>
      rw [hphase] at hstands
      cases hstands with
      | admitted hsent hgot htaken hwanted =>
          obtain ⟨hbegins, hlen, hwhole⟩ := of_deliver hmore hgot htaken hwanted
          unfold Tortillas.admits
          split
          · rename_i hdone
            rcases TaskPhase.ofOutcome_cases
              (fun r : τ × Handshake => TaskPhase.routed r.1 r.2.peerId r.2.reserved)
              (incomingPeer (torrents node) more) with ⟨⟨t, h⟩, hok, hphase'⟩ | ⟨error, hphase'⟩
            · obtain ⟨hbytes, hfiled, hprotocol, hget⟩ := incomingPeer_ok (hwhole hdone) hok
              obtain ⟨hhome, hhash⟩ := hhosted _ _ _ hget
              rw [hphase']
              refine .routed (by simp [hsent]) (by simp [hnode, hhome])
                ⟨hprotocol, hhash.symm, hfiled, ?_, ?_⟩
              · rw [hbytes, after_sent_opposite]
                exact hbegins
              · rw [hbytes, after_taken]
                exact hlen
            · rw [hphase']
              exact .ended fun _ _ => .inl (by simp [hsent])
          · rename_i hmore
            exact .admitted (by simp [hsent]) hbegins (by rw [after_taken]; exact hlen)
              (Nat.pos_of_ne_zero hmore)
  | @hears _ t id got more _ hphase hmore =>
      rw [hphase] at hstands
      cases hstands with
      | reading howner hsent hgot htaken hwanted =>
          obtain ⟨hbegins, hlen, hwhole⟩ := of_deliver hmore hgot htaken hwanted
          unfold Roster.hears
          split
          · rename_i hdone
            rcases TaskPhase.ofOutcome_cases (fun r : PeerId × Vector UInt8 8 =>
              TaskPhase.asking t r.1 r.2) (R.answered t l.known more) with ⟨⟨p, bits⟩, hok, hphase'⟩ | ⟨error, hphase'⟩
            · obtain ⟨h, hanswer, hok⟩ := bind_eq_ok.1 hok
              obtain ⟨p', hid, hok⟩ := bind_eq_ok.1 hok
              cases hok
              obtain ⟨hbytes, hfiled, hprotocol, hhash⟩ := answeredHandshake_ok (hwhole hdone) hanswer
              obtain ⟨hor, hne⟩ := connectedId_ok hid
              have hidOf : l.idOf h .left = p := by
                rw [Option.or_some, Option.some.injEq] at hor
                exact hor
              rw [hphase']
              subst hidOf
              refine .asking (l := l.after .left _ [] n) (by simp [owner, howner]) (by simp [hsent])
                ⟨hprotocol, hhash, hfiled, ?_, ?_⟩ hne
              · rw [hbytes, after_sent_opposite]
                exact hbegins
              · rw [hbytes, after_taken]
                exact hlen
            · rw [hphase']
              refine .ended fun hright => ?_
              cases hright
          · rename_i hmore
            exact .reading howner (by simp [hsent]) hbegins (by rw [after_taken]; exact hlen)
              (Nat.pos_of_ne_zero hmore)
  | @writes _ t id reserved rest n hphase hn =>
      rw [hphase] at hstands
      have happend : ∀ {sent : Bytes}, sent ++ rest = (R.hello t).toBytes →
          (sent ++ rest.take n) ++ rest.drop n = (R.hello t).toBytes := by
        intro sent hsent
        rw [List.append_assoc, List.take_append_drop, hsent]
      cases hstands with
      | @answers t h _ howner hsent _ hheard =>
          have hheard' : ∀ phase, (l.after .right phase (rest.take n) 0).Heard .right (R.infoHash t) h :=
            fun phase => hheard.frame (by rw [after_sent_opposite]) (by simp)
          rcases greets_cases t (some h.peerId) (some h.reserved) (rest.drop n) with
            ⟨hmore, heq⟩ | ⟨-, hnone, -⟩ | ⟨hdone, bits, p, hbits, hp, hne, heq⟩ | ⟨error, heq⟩
          · rw [heq]
            exact .answers howner (by rw [after_sent]; exact happend hsent) hmore (hheard' _)
          · cases hnone
          · cases hbits
            cases hp
            rw [heq]
            have hall := happend hsent
            rw [hdone, List.append_nil] at hall
            exact .asking (l := l.after .right _ (rest.take n) 0) howner (by rw [after_sent]; exact hall)
              (hheard' _) hne
          · rw [heq]
            exact .ended fun _ _ => .inr ⟨t, h, howner, hheard' _⟩
      | @calls t _ howner hsent _ htaken =>
          rcases greets_cases t l.known none (rest.drop n) with
            ⟨hmore, heq⟩ | ⟨hdone, -, heq⟩ | ⟨-, bits, p, hbits, -⟩ | ⟨error, heq⟩
          · rw [heq]
            exact .calls howner (by rw [after_sent]; exact happend hsent) hmore (by simp [htaken])
          · rw [heq]
            have hall := happend hsent
            rw [hdone, List.append_nil] at hall
            exact .reading howner (by rw [after_sent]; exact hall) List.nil_prefix (by simp [htaken])
              (by decide)
          · cases hbits
          · rw [heq]
            refine .ended fun hright => ?_
            cases hright
  | talks hphase =>
      rcases hphase with hphase | ⟨t, id, bits, hphase⟩
      · rw [hphase] at hstands ⊢
        cases hstands with
        | foreign howner => exact .foreign howner
      · rw [hphase] at hstands ⊢
        cases hstands with
        | registered howner hsent hheard hne =>
            exact .registered (l := l.after side _ bytes 0) howner
              (by rw [after_sent]; exact hsent.trans (List.prefix_append ..))
              (hheard.frame (by rw [after_sent_opposite]) (by simp)) hne
  | @appends t id bits hphase hrunning =>
      rw [hphase] at hstands
      cases hstands with
      | @routed _ h hsent howner hheard =>
          rw [Roster.greets, if_pos (hello_ne_nil t)]
          exact .answers howner (by simp [hsent]) (hello_ne_nil t)
            (hheard.frame (by rw [after_sent_opposite]) (by simp))
  | fails hphase => exact .ended (hstands.discreet.setPhase _)

/-- When an end moves on, both stand where their tasks are. -/
theorem Sound.after (hl : l.Sound R) {phase : TaskPhase τ} {bytes : Bytes} {n : ℕ}
    (h : Stands R (l.after side phase bytes n) side phase) : (l.after side phase bytes n).Sound R := by
  intro other
  by_cases hother : other = side
  · rw [hother, after_phase]
    exact h
  · obtain rfl : other = side.opposite := by
      cases other <;> cases side <;> simp [Side.opposite] at hother ⊢
    rw [after_phase_opposite]
    exact (hl side.opposite).frame phase bytes n

end Link

/-- A step of a task registers nobody and removes nobody. -/
theorem Link.Goes.registered_iff {l : Link τ ν} {side : Side} {torrents : ν → HashMap InfoHash τ}
    {running : τ → Bool} {phase : TaskPhase τ} {bytes : Bytes} {n : ℕ}
    (h : Link.Goes R torrents running l side phase bytes n) (t : τ) (id : PeerId)
    (reserved : Vector UInt8 8) :
    phase = .registered t id reserved ↔ l.phase side = .registered t id reserved := by
  have hneither : ∀ {p : TaskPhase τ}, l.phase side = p → p ≠ .registered t id reserved →
      phase ≠ .registered t id reserved →
        (phase = .registered t id reserved ↔ l.phase side = .registered t id reserved) := by
    rintro p rfl hbefore hafter
    exact iff_of_false hafter hbefore
  cases h with
  | admits hphase hnode hmore =>
      refine hneither hphase (by simp) ?_
      unfold Tortillas.admits
      split
      · rcases TaskPhase.ofOutcome_cases _ _ with ⟨a, -, h⟩ | ⟨error, h⟩ <;> rw [h] <;> simp
      · simp
  | hears hphase hmore =>
      refine hneither hphase (by simp) ?_
      unfold Roster.hears
      split
      · rcases TaskPhase.ofOutcome_cases _ _ with ⟨a, -, h⟩ | ⟨error, h⟩ <;> rw [h] <;> simp
      · simp
  | @writes _ t' id' reserved' rest n hphase hn =>
      refine hneither hphase (by simp) ?_
      rcases Link.greets_cases t' id' reserved' (rest.drop n) with
        ⟨-, h⟩ | ⟨-, -, h⟩ | ⟨-, bits, p, -, -, -, h⟩ | ⟨error, h⟩ <;> rw [h] <;> simp
  | talks hphase => exact Iff.rfl
  | @appends t' id' reserved' hphase hrunning =>
      refine hneither hphase (by simp) ?_
      rcases Link.greets_cases t' (some id') (some reserved') (R.hello t').toBytes with
        ⟨-, h⟩ | ⟨-, -, h⟩ | ⟨-, bits, p, -, -, -, h⟩ | ⟨error, h⟩ <;> rw [h] <;> simp
  | fails hphase => exact hneither rfl (hphase t id reserved) (by simp)

/-- Only the engine that reads a handshake goes on reading it. -/
theorem Link.Goes.admitted {l : Link τ ν} {side : Side} {torrents : ν → HashMap InfoHash τ}
    {running : τ → Bool} {phase : TaskPhase τ} {bytes got : Bytes} {n : ℕ}
    (h : Link.Goes R torrents running l side phase bytes n) (hafter : phase = .admitted got) :
    ∃ before, l.phase side = .admitted before := by
  cases h with
  | admits hphase hnode hmore => exact ⟨_, hphase⟩
  | hears hphase hmore =>
      unfold Roster.hears at hafter
      split at hafter
      · rcases TaskPhase.ofOutcome_cases _ _ with ⟨a, -, h⟩ | ⟨error, h⟩ <;> rw [h] at hafter <;> cases hafter
      · cases hafter
  | @writes _ t' id' reserved' rest n hphase hn =>
      rcases Link.greets_cases t' id' reserved' (rest.drop n) with
        ⟨-, h⟩ | ⟨-, -, h⟩ | ⟨-, bits, p, -, -, -, h⟩ | ⟨error, h⟩ <;> rw [h] at hafter <;> cases hafter
  | talks hphase => exact ⟨got, hafter⟩
  | @appends t' id' reserved' hphase hrunning =>
      rcases Link.greets_cases t' (some id') (some reserved') (R.hello t').toBytes with
        ⟨-, h⟩ | ⟨-, -, h⟩ | ⟨-, bits, p, -, -, -, h⟩ | ⟨error, h⟩ <;> rw [h] at hafter <;> cases hafter
  | fails hphase => cases hafter

end Tortillas
