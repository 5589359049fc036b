/-
**The peer actor.**

`peer/actor.rs`: one actor for each connection.  It takes commands from the torrent out of its
mailbox and messages from the remote peer off the wire, keeps the requests it still waits for in
`pendingBlockRequests`, and tells the torrent what it has to know: that the peer is ready, that a
block has come in or has been refused, the metadata it has gathered, and that the connection is
over.

A handler is a function on `PeerActor` that adds to the outbox what is told to the torrent and what
is sent to the remote.  What it learns from outside (whether a send succeeds, what the torrent
answers when it is asked) is a `PeerEnv`.  A handler that panics answers `none`; nothing it has done
before the panic is seen by the torrent.

Main definitions:

* `PeerEvent`, `PeerOutput` — what an actor tells the torrent, and what it sends;
* `PeerActor` — the state, with its handlers under the names of the source;
* `PeerActor.perform`, `PeerActor.handle` — the handler of each command and of each wire message.

Main results:

* `PeerActor.perform_spec` — what a command does to the pending requests, and what is told;
* `PeerActor.handle_spec` — **the same for a wire message**.
-/

import Tortillas.PeerMessages
import Tortillas.TorrentActor
import Mathlib.Data.Finset.Basic

set_option relaxedAutoImplicit false
set_option autoImplicit false

namespace Tortillas

/-- What a peer actor tells the torrent. -/
inductive PeerEvent
  | peerReady (id : PeerId) (availablePieces : List Bool)
  | incomingPiece (peerId : PeerId) (index offset : ℕ) (block : Bytes)
  | peerRejectedRequest (peerId : PeerId) (index offset : ℕ)
  | killPeer (id : PeerId)
  | infoBytes (bytes : Bytes)
  deriving DecidableEq

/-- What a handler of a peer actor does outside the actor's state. -/
inductive PeerOutput
  | tell (event : PeerEvent)
  | send (message : PeerMessages)

/-- The metadata gathered from a peer. -/
structure PeerInfo where
  infoSize : ℕ
  infoBytes : Bytes

namespace PeerInfo

/-- Append to the bytes; fails when they would be longer than announced. -/
def appendToBytes (info : PeerInfo) (bytes : Bytes) : Option PeerInfo :=
  if info.infoBytes.length + bytes.length ≤ info.infoSize then
    some { info with infoBytes := info.infoBytes ++ bytes }
  else none

def haveAllBytes (info : PeerInfo) : Bool :=
  info.infoSize != 0 && decide (info.infoSize ≤ info.infoBytes.length)

end PeerInfo

/-- A block as it is asked for: its piece, its offset and its length. -/
abbrev BlockKey := ℕ × ℕ × ℕ

/-- What a command makes of the pending requests, if it is not refused. -/
def PeerCommand.applyTo (pending : Finset BlockKey) : PeerCommand → Finset BlockKey
  | .needPiece index start length => insert (index, start, length) pending
  | .cancelPiece index start length => pending.erase (index, start, length)
  | _ => pending

/-- What an actor tells the torrent without having been asked: that it is ready, and metadata. -/
inductive PeerEvent.IsNotice (id : PeerId) : PeerEvent → Prop
  | ready (bits : List Bool) : IsNotice id (.peerReady id bits)
  | info (bytes : Bytes) : IsNotice id (.infoBytes bytes)

structure PeerActor where
  id : PeerId
  /-- Whether we choke the remote. -/
  amChoking : Bool
  peerInterested : Bool
  /-- Whether the remote chokes us. -/
  peerChoking : Bool
  amInterested : Bool
  pieces : List Bool
  bep0009 : UInt8
  info : PeerInfo
  pendingBlockRequests : Finset BlockKey
  outbox : List PeerOutput

/-- What a handler learns from outside: whether what it sends goes out, which requests a flush
sends again, and the answers of the torrent to the questions the handler asks (`none` when the
torrent does not answer). -/
structure PeerEnv where
  sent : Bool
  flushed : List BlockKey
  interestingPieces : Option Bool
  hasInfoDict : Option Bool
  requestPiece : Option (Option Bytes)

/-- The name of the metadata extension. -/
def utMetadata : Text := "ut_metadata".toList

namespace ExtendedMessage

def new : ExtendedMessage := {}

/-- `supports_bep_0009`: the id the peer has for the metadata extension. -/
def supportsBep0009 (m : ExtendedMessage) : Option UInt8 :=
  m.supportedExtensions.bind fun extensions => extensions.get? utMetadata

def isBep0009Data (m : ExtendedMessage) : Bool := m.msgType = some .data

end ExtendedMessage

namespace PeerActor

/-- The actor of a new connection. -/
def new (id : PeerId) : PeerActor where
  id := id
  amChoking := true
  peerInterested := false
  peerChoking := true
  amInterested := false
  pieces := []
  bep0009 := 0
  info := ⟨0, []⟩
  pendingBlockRequests := ∅
  outbox := []

/-! ### Small steps -/

def tell (a : PeerActor) (event : PeerEvent) : PeerActor :=
  { a with outbox := a.outbox ++ [.tell event] }

/-- Send a message to the remote; nothing happens when that fails. -/
def send (a : PeerActor) (message : PeerMessages) (sent : Bool) : PeerActor :=
  if sent then { a with outbox := a.outbox ++ [.send message] } else a

def notifyReady (a : PeerActor) : PeerActor := a.tell (.peerReady a.id a.pieces)

def rejectPieceRequest (a : PeerActor) (index start : ℕ) : PeerActor :=
  a.tell (.peerRejectedRequest a.id index start)

/-- The request for a block on the wire, where every number has 32 bits. -/
def requestMessage (key : BlockKey) : PeerMessages :=
  .request (UInt32.ofNat key.1) (UInt32.ofNat key.2.1) (UInt32.ofNat key.2.2)

/-- `flush_block_requests`: ask again for everything that is pending. -/
def flushBlockRequests (env : PeerEnv) (a : PeerActor) : PeerActor :=
  (env.flushed.filter (· ∈ a.pendingBlockRequests)).foldl
    (fun b key => b.send (requestMessage key) true) a

/-- `determine_interest`; panics when the remote cannot be told. -/
def determineInterest (env : PeerEnv) (a : PeerActor) : Option PeerActor :=
  match env.interestingPieces with
  | none => some a
  | some interesting =>
      if env.sent then
        some { a.send (if interesting then .interested else .notInterested) true with
          amInterested := interesting }
      else none

/-! ### Metadata -/

/-- The answer to an extended handshake. -/
def sendExtendedHandshake (env : PeerEnv) (a : PeerActor) : PeerActor :=
  a.send (.extended 0
    (some { ExtendedMessage.new with
      supportedExtensions := some (HashMap.insert ∅ utMetadata 2) }) none) env.sent

def requestMetadata (metadataSize : Option ℕ) (piece : ℕ) (env : PeerEnv) (a : PeerActor) :
    PeerActor :=
  let a := match metadataSize with
    | some size => { a with info := { a.info with infoSize := size } }
    | none => a
  if 0 < a.info.infoSize ∧ a.info.haveAllBytes = false then
    a.send (.extended a.bep0009
      (some { ExtendedMessage.new with piece := some piece, msgType := some .request }) none)
      env.sent
  else a

/-- The part of `handle_extended_message` that takes in a piece of metadata; panics when another
one has to be asked for and the message does not say which one it was. -/
def takeMetadata (m : ExtendedMessage) (metadata : Option Bytes) (env : PeerEnv) (a : PeerActor) :
    Option PeerActor :=
  match metadata with
  | none => some a
  | some bytes =>
      if m.isBep0009Data = false then some a
      else
        match a.info.appendToBytes bytes with
        | none => some a
        | some info =>
            let a := { a with info := info }
            if info.haveAllBytes then some a
            else
              match m.piece with
              | none => none
              | some piece =>
                  if piece = usizeMax then none
                  else some (a.requestMetadata m.metadataSize (piece + 1) env)

/-- The part that begins to ask for metadata; the second component is whether the handler goes on,
which it does not when the torrent does not answer. -/
def beginMetadata (m : ExtendedMessage) (env : PeerEnv) (a : PeerActor) : PeerActor × Bool :=
  match m.supportsBep0009 with
  | none => (a, true)
  | some id =>
      let a := { a with bep0009 := id }
      match m.metadataSize with
      | none => (a, true)
      | some size =>
          match env.hasInfoDict with
          | none => (a, false)
          | some known =>
              if m.piece.getD 0 = 0 ∧ known = false then (a.requestMetadata (some size) 0 env, true)
              else (a, true)

/-- The end of `handle_extended_message`. -/
def offerInfoBytes (a : PeerActor) : PeerActor :=
  if a.info.haveAllBytes then a.tell (.infoBytes a.info.infoBytes) else a

def handleExtendedMessage (message : Option ExtendedMessage) (metadata : Option Bytes)
    (env : PeerEnv) (a : PeerActor) : Option PeerActor :=
  match message with
  | none => some a.offerInfoBytes
  | some m =>
      (a.takeMetadata m metadata env).map fun a =>
        let begun := a.beginMetadata m env
        if begun.2 then begun.1.offerInfoBytes else begun.1

/-! ### Wire messages -/

/-- `Message<PeerMessages>::handle`: a message from the remote. -/
def handle (env : PeerEnv) (a : PeerActor) : PeerMessages → Option PeerActor
  | .piece index offset data =>
      let key := (index.toNat, offset.toNat, data.length)
      -- only what was asked for and has not been cancelled goes to the torrent
      if key ∈ a.pendingBlockRequests then
        some ({ a with pendingBlockRequests := a.pendingBlockRequests.erase key }.tell
          (.incomingPiece a.id index.toNat offset.toNat data))
      else some a
  | .choke => some { a with peerChoking := true }
  | .unchoke => some ({ a with peerChoking := false }.flushBlockRequests env).notifyReady
  | .interested => some { a with peerInterested := true }
  | .notInterested => some { a with peerInterested := false }
  | .keepAlive => some a
  | .have index =>
      let index := index.toNat
      if index < a.pieces.length then
        let b := { a with pieces := a.pieces.set index true }
        if a.pieces.getD index false then some b else b.determineInterest env
      else some a
  | .request index offset length =>
      if a.amChoking then some a
      -- the stream is shut down
      else if length = 0 ∨ blockSize < length.toNat then some a
      else
        match env.requestPiece with
        | none => none
        | some none => some a
        | some (some data) =>
            if env.sent then some (a.send (.piece index offset data) true) else none
  | .extended extendedId message metadata =>
      (if extendedId = 0 then a.sendExtendedHandshake env else a).handleExtendedMessage message
        metadata env
  | .cancel index offset length =>
      some { a with pendingBlockRequests :=
        a.pendingBlockRequests.erase (index.toNat, offset.toNat, length.toNat) }
  | .bitfield bits => ({ a with pieces := bits }.determineInterest env).map notifyReady
  | .handshake _ => some a

/-! ### Commands -/

def needPiece (index start length : ℕ) (env : PeerEnv) (a : PeerActor) : PeerActor :=
  let key := (index, start, length)
  if a.pieces[index]? ≠ some true then a.rejectPieceRequest index start
  else if a.peerChoking then
    { a with pendingBlockRequests := insert key a.pendingBlockRequests }
  else if env.sent then
    { a.send (requestMessage key) true with
      pendingBlockRequests := insert key a.pendingBlockRequests }
  else a.rejectPieceRequest index start

def cancelPiece (index start length : ℕ) (env : PeerEnv) (a : PeerActor) : PeerActor :=
  let key := (index, start, length)
  if key ∉ a.pendingBlockRequests then a
  else
    { a with pendingBlockRequests := a.pendingBlockRequests.erase key }.send
      (.cancel (UInt32.ofNat index) (UInt32.ofNat start) (UInt32.ofNat length)) env.sent

def setChoked (choked : Bool) (env : PeerEnv) (a : PeerActor) : PeerActor :=
  if a.amChoking = choked then a
  else if env.sent then
    { a.send (if choked then .choke else .unchoke) true with amChoking := choked }
  else a

/-- A command of the torrent. -/
def perform (env : PeerEnv) (a : PeerActor) : PeerCommand → PeerActor
  | .needPiece index start length => a.needPiece index start length env
  | .cancelPiece index start length => a.cancelPiece index start length env
  | .setChoked choked => a.setChoked choked env
  | .have piece => a.send (.have (UInt32.ofNat piece)) env.sent
  | .haveInfoDict bits => a.send (.bitfield bits) env.sent

/-! ### What is told -/

/-- What has been told to the torrent. -/
def told (a : PeerActor) : List PeerEvent :=
  a.outbox.filterMap fun
    | .tell event => some event
    | .send _ => none

@[simp] theorem told_tell (a : PeerActor) (e : PeerEvent) : (a.tell e).told = a.told ++ [e] := by
  simp [tell, told]

@[simp] theorem told_send (a : PeerActor) (m : PeerMessages) (sent : Bool) :
    (a.send m sent).told = a.told := by
  unfold send
  split <;> simp [told]

@[simp] theorem id_send (a : PeerActor) (m : PeerMessages) (sent : Bool) :
    (a.send m sent).id = a.id := by
  unfold send
  split <;> rfl

@[simp] theorem pending_send (a : PeerActor) (m : PeerMessages) (sent : Bool) :
    (a.send m sent).pendingBlockRequests = a.pendingBlockRequests := by
  unfold send
  split <;> rfl

/-- The actor keeps its id and its pending requests, and tells nothing but notices. -/
structure Notifies (a b : PeerActor) : Prop where
  id : b.id = a.id
  pending : b.pendingBlockRequests = a.pendingBlockRequests
  told : ∃ es, b.told = a.told ++ es ∧ ∀ e ∈ es, e.IsNotice a.id

namespace Notifies

variable {a b c : PeerActor}

theorem refl (a : PeerActor) : Notifies a a :=
  ⟨rfl, rfl, [], (List.append_nil _).symm, fun _ h => absurd h List.not_mem_nil⟩

theorem trans (h₁ : Notifies a b) (h₂ : Notifies b c) : Notifies a c := by
  obtain ⟨es₁, htold₁, hes₁⟩ := h₁.told
  obtain ⟨es₂, htold₂, hes₂⟩ := h₂.told
  refine ⟨h₂.id.trans h₁.id, h₂.pending.trans h₁.pending, es₁ ++ es₂, ?_, ?_⟩
  · rw [htold₂, htold₁, List.append_assoc]
  · intro e he
    rcases List.mem_append.1 he with he | he
    · exact hes₁ e he
    · rw [← h₁.id]
      exact hes₂ e he

/-- Nothing is told. -/
theorem silent (hid : b.id = a.id) (hpending : b.pendingBlockRequests = a.pendingBlockRequests)
    (htold : b.told = a.told) : Notifies a b :=
  ⟨hid, hpending, [], by rw [htold, List.append_nil], fun _ h => absurd h List.not_mem_nil⟩

theorem tell {e : PeerEvent} (he : e.IsNotice a.id) : Notifies a (a.tell e) :=
  ⟨rfl, rfl, [e], told_tell a e, fun _ he' => List.mem_singleton.1 he' ▸ he⟩

theorem send (a : PeerActor) (m : PeerMessages) (sent : Bool) : Notifies a (a.send m sent) :=
  silent (id_send a m sent) (pending_send a m sent) (told_send a m sent)

theorem notifyReady (a : PeerActor) : Notifies a a.notifyReady := tell (.ready a.pieces)

theorem flushBlockRequests (env : PeerEnv) (a : PeerActor) :
    Notifies a (a.flushBlockRequests env) := by
  unfold PeerActor.flushBlockRequests
  generalize env.flushed.filter (· ∈ a.pendingBlockRequests) = keys
  induction keys generalizing a with
  | nil => exact refl a
  | cons key keys ih => exact (send a _ _).trans (ih _)

theorem determineInterest {env : PeerEnv} (h : a.determineInterest env = some b) :
    Notifies a b := by
  unfold PeerActor.determineInterest at h
  split at h
  · cases h
    exact refl a
  · split at h
    · cases h
      exact (send a _ _).trans (silent rfl rfl rfl)
    · cases h

theorem requestMetadata (size : Option ℕ) (piece : ℕ) (env : PeerEnv) (a : PeerActor) :
    Notifies a (a.requestMetadata size piece env) := by
  unfold PeerActor.requestMetadata
  cases size with
  | none =>
      simp only
      split
      · exact send a _ _
      · exact refl a
  | some size =>
      simp only
      have hsize : Notifies a { a with info := { a.info with infoSize := size } } :=
        silent rfl rfl rfl
      split
      · exact hsize.trans (send _ _ _)
      · exact hsize

theorem takeMetadata {m : ExtendedMessage} {metadata : Option Bytes} {env : PeerEnv}
    (h : a.takeMetadata m metadata env = some b) : Notifies a b := by
  unfold PeerActor.takeMetadata at h
  cases metadata with
  | none =>
      cases h
      exact refl a
  | some bytes =>
      simp only at h
      split at h
      · cases h
        exact refl a
      · cases happend : a.info.appendToBytes bytes with
        | none =>
            rw [happend] at h
            cases h
            exact refl a
        | some info =>
            simp only [happend] at h
            have hinfo : Notifies a { a with info := info } := silent rfl rfl rfl
            split at h
            · cases h
              exact hinfo
            · cases hpiece : m.piece with
              | none => simp [hpiece] at h
              | some piece =>
                  simp only [hpiece] at h
                  split at h
                  · cases h
                  · cases h
                    exact hinfo.trans (requestMetadata _ _ _ _)

theorem beginMetadata (m : ExtendedMessage) (env : PeerEnv) (a : PeerActor) :
    Notifies a (a.beginMetadata m env).1 := by
  unfold PeerActor.beginMetadata
  split
  · exact refl a
  · rename_i id hid
    have hset : Notifies a { a with bep0009 := id } := silent rfl rfl rfl
    simp only
    split
    · exact hset
    · split
      · exact hset
      · split
        · dsimp only
          exact hset.trans (requestMetadata _ _ _ _)
        · exact hset

theorem offerInfoBytes (a : PeerActor) : Notifies a a.offerInfoBytes := by
  unfold PeerActor.offerInfoBytes
  split
  · exact tell (.info _)
  · exact refl a

theorem handleExtendedMessage {message : Option ExtendedMessage} {metadata : Option Bytes}
    {env : PeerEnv} (h : a.handleExtendedMessage message metadata env = some b) :
    Notifies a b := by
  unfold PeerActor.handleExtendedMessage at h
  cases message with
  | none =>
      cases h
      exact offerInfoBytes a
  | some m =>
      obtain ⟨a', htake, hb⟩ := Option.map_eq_some_iff.1 h
      have hbegin := (takeMetadata htake).trans (beginMetadata m env a')
      simp only at hb
      split at hb
      · rw [← hb]
        exact hbegin.trans (offerInfoBytes _)
      · rw [← hb]
        exact hbegin

end Notifies

/-- **What a wire message does**: a block that is pending goes to the torrent, a cancellation takes
a request out, and nothing else touches the pending requests. -/
theorem handle_spec {env : PeerEnv} {a b : PeerActor} {m : PeerMessages}
    (h : a.handle env m = some b) :
    (∃ index offset data, m = .piece index offset data ∧
      (index.toNat, offset.toNat, data.length) ∈ a.pendingBlockRequests ∧
      b = { a with
        pendingBlockRequests :=
          a.pendingBlockRequests.erase (index.toNat, offset.toNat, data.length) }.tell
        (.incomingPiece a.id index.toNat offset.toNat data)) ∨
    (∃ index offset length, m = .cancel index offset length ∧
      b = { a with pendingBlockRequests :=
        a.pendingBlockRequests.erase (index.toNat, offset.toNat, length.toNat) }) ∨
    Notifies a b := by
  cases m with
  | piece index offset data =>
      simp only [handle] at h
      split at h
      · rename_i hkey
        cases h
        exact Or.inl ⟨index, offset, data, rfl, hkey, rfl⟩
      · cases h
        exact Or.inr (Or.inr (Notifies.refl a))
  | cancel index offset length =>
      cases h
      exact Or.inr (Or.inl ⟨index, offset, length, rfl, rfl⟩)
  | unchoke =>
      cases h
      have hset : Notifies a { a with peerChoking := false } := .silent rfl rfl rfl
      exact Or.inr (Or.inr ((hset.trans (.flushBlockRequests env _)).trans (.notifyReady _)))
  | «have» index =>
      refine Or.inr (Or.inr ?_)
      simp only [handle] at h
      split at h
      · have hset : Notifies a { a with pieces := a.pieces.set index.toNat true } :=
          .silent rfl rfl rfl
        split at h
        · cases h
          exact hset
        · exact hset.trans (.determineInterest h)
      · cases h
        exact .refl a
  | request index offset length =>
      refine Or.inr (Or.inr ?_)
      simp only [handle] at h
      split at h
      · cases h
        exact .refl a
      · split at h
        · cases h
          exact .refl a
        · split at h
          · cases h
          · cases h
            exact .refl a
          · split at h
            · cases h
              exact .send a _ _
            · cases h
  | extended extendedId message metadata =>
      refine Or.inr (Or.inr ?_)
      simp only [handle] at h
      split at h
      · exact (Notifies.send a _ _).trans (.handleExtendedMessage h)
      · exact .handleExtendedMessage h
  | bitfield bits =>
      refine Or.inr (Or.inr ?_)
      obtain ⟨a', hinterest, hb⟩ := Option.map_eq_some_iff.1 h
      have hset : Notifies a { a with pieces := bits } := .silent rfl rfl rfl
      rw [← hb]
      exact (hset.trans (.determineInterest hinterest)).trans (.notifyReady a')
  | _ =>
      cases h
      exact Or.inr (Or.inr (.silent rfl rfl rfl))

/-- **What a command does**: it takes effect on the pending requests, or it is a request that is
refused. -/
theorem perform_spec (env : PeerEnv) (a : PeerActor) (command : PeerCommand) :
    (a.perform env command).id = a.id ∧
    (((a.perform env command).pendingBlockRequests = command.applyTo a.pendingBlockRequests ∧
        (a.perform env command).told = a.told) ∨
      ∃ index start length, command = .needPiece index start length ∧
        (a.perform env command).pendingBlockRequests = a.pendingBlockRequests ∧
        (a.perform env command).told = a.told ++ [.peerRejectedRequest a.id index start]) := by
  cases command with
  | needPiece index start length =>
      have hreject : (a.rejectPieceRequest index start).told =
          a.told ++ [.peerRejectedRequest a.id index start] := told_tell a _
      simp only [perform, needPiece]
      split
      · exact ⟨rfl, Or.inr ⟨index, start, length, rfl, rfl, hreject⟩⟩
      · split
        · exact ⟨rfl, Or.inl ⟨rfl, rfl⟩⟩
        · split
          · exact ⟨id_send a _ _, Or.inl ⟨rfl, told_send a _ _⟩⟩
          · exact ⟨rfl, Or.inr ⟨index, start, length, rfl, rfl, hreject⟩⟩
  | cancelPiece index start length =>
      simp only [perform, cancelPiece, PeerCommand.applyTo]
      split
      · rename_i hkey
        exact ⟨rfl, Or.inl ⟨(Finset.erase_eq_of_notMem hkey).symm, rfl⟩⟩
      · exact ⟨id_send _ _ _, Or.inl ⟨pending_send _ _ _, told_send _ _ _⟩⟩
  | setChoked choked =>
      simp only [perform, setChoked, PeerCommand.applyTo]
      split
      · exact ⟨rfl, Or.inl ⟨rfl, rfl⟩⟩
      · split
        · exact ⟨id_send a _ _, Or.inl ⟨pending_send a _ _, told_send a _ _⟩⟩
        · exact ⟨rfl, Or.inl ⟨rfl, rfl⟩⟩
  | _ => exact ⟨id_send a _ _, Or.inl ⟨pending_send a _ _, told_send a _ _⟩⟩

end PeerActor

end Tortillas
