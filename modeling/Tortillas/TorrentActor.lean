/-
**The torrent actor.**

`torrent/actor.rs`, `messages.rs`, `piece_flow.rs`, `swarm.rs` and `choking_flow.rs`: the actor that
owns a torrent.  It keeps the registered peers, the bitfield, the scheduler, the lifecycle state and
the storage configuration, and handles one message at a time; before each message it checks whether
it should start by itself.

The state carries the files, so that what is written can be read back, what has been answered but is
still to be written, and an outbox with what the handling of the current message sends to peer actors.
Everything a handler learns from outside (clock readings, whether a send succeeded, which actors are
found dead, where a write was cut short, in which order a map yields its keys) is part of the input.
What is written in the background is written between two messages, or never.  A division by zero or an
overflow stops the actor in the source; here the handler goes on with the value the operation has
on natural numbers, so that the model has the runs of the source and possibly more.

Main definitions:

* `TorrentActor` — the state, and the methods of the source on it;
* `TorrentMessage`, `TorrentActor.handle` — the messages and their handlers;
* `TorrentActor.onStart`, `TorrentActor.step`, `torrentSystem` — how the actor starts, what one
  message does, and the transition system of the two.
-/

import Tortillas.Snapshot
import Tortillas.Transition

set_option relaxedAutoImplicit false
set_option autoImplicit false

namespace Tortillas

/-- The piece manager: the caller's own, of which nothing is known, or the file manager. -/
inductive PieceManagerProxy (H : Type)
  | custom
  | default (manager : FilePieceManager H)

def PieceManagerProxy.isCustom {H : Type} : PieceManagerProxy H → Bool
  | custom => true
  | default _ => false

/-- Why a torrent cannot be saved. -/
inductive SnapshotUnsupportedReason
  | customPieceManager
  deriving DecidableEq, Repr

/-- A peer actor, by a number of its own. -/
abbrev ActorRef := ℕ

/-- What the torrent tells a peer actor. -/
inductive PeerCommand
  | needPiece (index start length : ℕ)
  | cancelPiece (index start length : ℕ)
  | setChoked (choked : Bool)
  | have (piece : ℕ)
  | haveInfoDict (bitfield : List Bool)
  deriving DecidableEq, Repr

/-- What handling a message does outside the actor's state: messages to peer actors, actors killed
and spawned.  The last three record the history of a piece: a block written, a row of received
blocks begun, and the piece found to be fully received. -/
inductive Effect
  | tell (ref : ActorRef) (command : PeerCommand)
  | kill (ref : ActorRef)
  | spawn (ref : ActorRef) (peerId : PeerId)
  | blockWritten (index offset length : ℕ)
  | rowCreated (index : ℕ)
  | pieceReceived (index : ℕ)
  deriving DecidableEq

structure TorrentSettings where
  initialPeerRequestWindow : ℕ
  maxInFlightPerPeer : ℕ
  peerRequestTimeout : ℕ
  sufficientPeers : ℕ
  autostart : Bool

/-- The state of the actor. -/
structure TorrentActor (H : Type) where
  peers : HashMap PeerId ActorRef
  bitfield : List Bool
  infoHash : H
  resolvedMagnetInfo : Option (Info H)
  metainfo : MetaInfo H
  pieceStorage : PieceStorageStrategy
  pieceManager : PieceManagerProxy H
  state : TorrentState
  pieceScheduler : PieceScheduler
  sufficientPeers : ℕ
  autostart : Bool
  pendingStart : Bool
  /-- The number of callers waiting for the torrent to be ready. -/
  readyHook : ℕ
  settings : TorrentSettings
  disk : FileStore Path
  /-- What has been answered and is still to be written. -/
  unflushed : List (LateWrite Path)
  outbox : List Effect

/-! ### What a handler learns from outside -/

/-- While a peer's request window is filled: the clock at each slot, and which sends succeed. -/
structure FillEnv where
  clock : ℕ → ℕ
  sent : ℕ → Bool

/-- While all windows are filled: the order of the peers, and the above for each. -/
structure FillAllEnv where
  order : List PeerId
  fill : PeerId → FillEnv

/-- While peers are rechoked: the clock, the changes the choking decision makes, and whether they
could be sent. -/
structure RechokeEnv where
  now : ℕ
  choke : List (PeerId × Bool)
  sent : PeerId → Bool
  fillAll : FillAllEnv

/-- While a message goes to all peers: whether it could be sent, and who is found dead. -/
structure BroadcastEnv where
  sent : PeerId → Bool
  dead : PeerId → Bool

/-- While the torrent starts: whether a custom piece manager could be initialised. -/
structure StartEnv where
  preStart : Bool
  fillAll : FillAllEnv
  rechoke : RechokeEnv

/-- While a block is handled: what becomes of the writes, whether the piece can be read back, whether a
custom manager accepts it, and the above. -/
structure BlockEnv where
  write : WriteEnv
  read : Bool
  recv : WriteEnv
  customRecv : Bool
  cancelSent : Bool
  broadcast : BroadcastEnv
  fill : FillEnv
  rechoke : RechokeEnv

namespace TorrentActor

variable {H : Type}

/-! ### Queries -/

def infoDict (s : TorrentActor H) : Option (Info H) :=
  match s.metainfo with
  | .torrent info => some info
  | .magnetUri _ => s.resolvedMagnetInfo

/-- No bit of the bitfield is set. -/
def isEmpty (s : TorrentActor H) : Bool := s.bitfield.all (!·)

/-- Every bit of the bitfield is set. -/
def isFull (s : TorrentActor H) : Bool := s.bitfield.all id

def isReady (s : TorrentActor H) : Bool :=
  s.infoDict.isSome && decide (s.sufficientPeers ≤ s.peers.keys.length)

def isReadyToStart (s : TorrentActor H) : Bool := s.isReady && s.state.canBecomeReady

/-- The rows of received blocks, in the order of their pieces. -/
def blockMap (s : TorrentActor H) : List PieceBlockSnapshot :=
  (s.pieceScheduler.completedBlocks.toList.map fun row => ⟨row.1, row.2⟩).mergeSort
    fun a b => decide (a.pieceIndex ≤ b.pieceIndex)

/-- `snapshot`: what is saved of the torrent. -/
def snapshot (s : TorrentActor H) : Except SnapshotUnsupportedReason (TorrentSnapshot H) :=
  match s.pieceManager with
  | .custom => .error .customPieceManager
  | .default manager =>
      .ok
        { version := torrentSnapshotVersion
          infoHash := s.infoHash
          state := s.state
          autoStart := s.autostart
          sufficientPeers := s.sufficientPeers
          outputPath := manager.path
          metainfo := s.metainfo
          pieceStorage := s.pieceStorage
          resolvedMagnetInfo := s.resolvedMagnetInfo
          bitfield := s.bitfield
          blockMap := s.blockMap }

/-! ### Small steps -/

def transitionState (s : TorrentActor H) (state : TorrentState) : TorrentActor H :=
  { s with state := state }

def sendReadyHooks (s : TorrentActor H) : TorrentActor H := { s with readyHook := 0 }

def emit (s : TorrentActor H) (effect : Effect) : TorrentActor H :=
  { s with outbox := s.outbox ++ [effect] }

def mapScheduler (s : TorrentActor H) (f : PieceScheduler → PieceScheduler) : TorrentActor H :=
  { s with pieceScheduler := f s.pieceScheduler }

/-- `remove_peer`; also answers whether the peer was registered. -/
def removePeer (s : TorrentActor H) (id : PeerId) : TorrentActor H × Bool :=
  match s.peers.get? id with
  | some ref =>
      ({ s.mapScheduler (·.peerDisconnected id) with peers := s.peers.erase id }.emit (.kill ref),
        true)
  | none => (s.mapScheduler (·.peerDisconnected id), false)

/-! ### Requesting blocks -/

/-- The loop that sends the requests; one that cannot be sent is released again. -/
def sendRequests (peerId : PeerId) (ref : ActorRef) (sent : ℕ → Bool) :
    List BlockRequest → ℕ → TorrentActor H → TorrentActor H
  | [], _, s => s
  | r :: rs, n, s =>
      sendRequests peerId ref sent rs (n + 1)
        (if sent n then s.emit (.tell ref (.needPiece r.pieceIndex r.offset r.length))
        else s.mapScheduler (·.releasePeerRequest peerId r.pieceIndex r.offset))

def fillPeerRequestWindowTo (peerId : PeerId) (targetSize : ℕ) (env : FillEnv)
    (s : TorrentActor H) : TorrentActor H :=
  if s.state ≠ .downloading ∨ s.isReady = false then s
  else
    match s.infoDict, s.peers.get? peerId with
    | some info, some ref =>
        let availableSlots := targetSize - s.pieceScheduler.inFlightForPeer peerId
        if availableSlots = 0 then s
        else
          let assigned := s.pieceScheduler.requestsForPeer peerId info.pieceLength.toNat
            info.totalLength env.clock availableSlots
          sendRequests peerId ref env.sent assigned.2 0 { s with pieceScheduler := assigned.1 }
    | _, _ => s

def fillInitialPeerRequestWindow (peerId : PeerId) (env : FillEnv) (s : TorrentActor H) :
    TorrentActor H :=
  s.fillPeerRequestWindowTo peerId s.settings.initialPeerRequestWindow env

def fillPeerRequestWindow (peerId : PeerId) (env : FillEnv) (s : TorrentActor H) :
    TorrentActor H :=
  s.fillPeerRequestWindowTo peerId s.settings.maxInFlightPerPeer env

def fillAllPeerRequestWindows (env : FillAllEnv) (s : TorrentActor H) : TorrentActor H :=
  if s.state ≠ .downloading ∨ s.isReady = false then s
  else env.order.foldl (fun s id => s.fillPeerRequestWindow id (env.fill id)) s

/-- Tell a registered peer whether it is choked. -/
def tellChoked (env : RechokeEnv) (s : TorrentActor H) (change : PeerId × Bool) :
    TorrentActor H :=
  match s.peers.get? change.1 with
  | some ref => if env.sent change.1 then s.emit (.tell ref (.setChoked change.2)) else s
  | none => s

/-- `rechoke_peers`.  Which peers are to be choked and unchoked is decided from statistics that
the torrent does not keep. -/
def rechokePeers (env : RechokeEnv) (s : TorrentActor H) : TorrentActor H :=
  if s.state.isTransferActive = false then s
  else
    let released :=
      s.mapScheduler fun p => (p.releaseStaleRequests env.now s.settings.peerRequestTimeout).1
    (env.choke.foldl (tellChoked env) released).fillAllPeerRequestWindows env.fillAll

/-! ### Messages to all peers -/

/-- `broadcast_to_peers`: the dead are no longer registered afterwards. -/
def broadcastToPeers (command : PeerCommand) (env : BroadcastEnv) (s : TorrentActor H) :
    TorrentActor H :=
  let told := s.peers.toList.filterMap fun peer =>
    if env.sent peer.1 then some (Effect.tell peer.2 command) else none
  let dead := (s.peers.toList.map Prod.fst).filter env.dead
  { s with
    outbox := s.outbox ++ told
    peers := dead.foldl (fun peers id => peers.erase id) s.peers }

/-- `broadcast_to_peers_best_effort`: the dead are no longer registered afterwards, and no longer
known to the scheduler. -/
def broadcastToPeersBestEffort (command : PeerCommand) (env : BroadcastEnv) (s : TorrentActor H) :
    TorrentActor H :=
  let told := s.peers.toList.filterMap fun peer =>
    if !env.dead peer.1 && env.sent peer.1 then some (Effect.tell peer.2 command) else none
  let dead := (s.peers.toList.map Prod.fst).filter env.dead
  { s with
    outbox := s.outbox ++ told
    peers := dead.foldl (fun peers id => peers.erase id) s.peers
    pieceScheduler := dead.foldl PieceScheduler.peerDisconnected s.pieceScheduler }

/-! ### Starting and stopping -/

/-- `pre_start` of the piece manager; `none` when it fails. -/
def preStart (info : Info H) (ok : Bool) : PieceManagerProxy H → Option (PieceManagerProxy H)
  | .custom => if ok then some .custom else none
  | .default manager =>
      if manager.path.isSome then some (.default { manager with info := some info }) else none

/-- Enter active transfer with a piece manager that has been initialised. -/
def enterTransfer (manager : PieceManagerProxy H) (s : TorrentActor H) : TorrentActor H :=
  { s with
    pieceManager := manager
    state := if s.isFull then .seeding else .downloading }

/-- The windows that are filled when downloading starts. -/
def fillInitialWindows (env : FillAllEnv) (s : TorrentActor H) : TorrentActor H :=
  if s.state = .downloading then
    env.order.foldl (fun s id => s.fillInitialPeerRequestWindow id (env.fill id)) s
  else s

def start (env : StartEnv) (s : TorrentActor H) : TorrentActor H :=
  if s.state.canStart = false then s
  else
    match s.infoDict with
    | none => s.sendReadyHooks.transitionState .resolvingMetadata
    | some info =>
        match preStart info env.preStart s.pieceManager with
        | none => s.sendReadyHooks.transitionState .failed
        | some manager =>
            ((s.sendReadyHooks.enterTransfer manager).fillInitialWindows env.fillAll).rechokePeers
              env.rechoke

/-- `autostart`: start, or become ready, when metadata and enough peers are there. -/
def autostartCheck (env : StartEnv) (s : TorrentActor H) : TorrentActor H :=
  if s.isReadyToStart = false then { s with pendingStart := false }
  else if s.autostart then
    { { s with pendingStart := true }.start env with pendingStart := false }
  else { (s.transitionState .ready).sendReadyHooks with pendingStart := false }

def stopTransfer (env : BroadcastEnv) (s : TorrentActor H) : TorrentActor H :=
  if s.state = .paused then s
  else if s.state.isTransferActive then
    (s.transitionState .paused).broadcastToPeers (.setChoked true) env
  else s.transitionState .paused

/-! ### Blocks -/

variable (c : Codec H)

def getPiecePath (s : TorrentActor H) (index : ℕ) : Option Path :=
  match s.infoDict, s.pieceStorage with
  | some info, .disk dir => (info.pieces[index]?).map (pieceFile c dir)
  | _, _ => none

/-- The state after a write, with its answer. -/
def afterWrite (s : TorrentActor H) (written : WriteResult Path) : TorrentActor H × Bool :=
  ({ s with disk := written.files, unflushed := s.unflushed ++ written.late }, written.ok)

/-- `write_block_to_storage`; also answers whether the block was written.  The file of a piece is
flushed. -/
def writeBlockToStorage (index offset : ℕ) (block : Bytes) (env : WriteEnv) (s : TorrentActor H) :
    TorrentActor H × Bool :=
  match s.pieceStorage, s.pieceManager with
  | .disk _, _ =>
      match s.getPiecePath c index with
      | none => (s, false)
      | some path => s.afterWrite (s.disk.writeSegments true [⟨path, offset, block.length⟩] block env)
  | .inFile, .default manager => s.afterWrite (manager.writePieceRange s.disk index offset block env)
  | .inFile, .custom => (s, false)

/-- `recv` of the piece manager; also answers whether it accepted the piece. -/
def recvPiece (index : ℕ) (data : Bytes) (env : BlockEnv) (s : TorrentActor H) :
    TorrentActor H × Bool :=
  match s.pieceManager with
  | .custom => (s, env.customRecv)
  | .default manager =>
      if manager.info.isNone then (s, false)
      else s.afterWrite (manager.writePieceRange s.disk index 0 data env.recv)

/-- `read_piece_block`. -/
def readPieceBlock (index offset length : ℕ) (s : TorrentActor H) : Option Bytes :=
  match s.pieceStorage, s.pieceManager with
  | .disk _, _ =>
      match s.getPiecePath c index with
      | none => none
      | some path => s.disk.read path offset length
  | .inFile, .default manager => manager.readPieceRange s.disk index offset length
  | .inFile, .custom => none

/-- The checks on the range of a block; answers the number of blocks of its piece. -/
def checkBlock (info : Info H) (index offset length : ℕ) : Option ℕ :=
  if info.pieceCount ≤ index then none
  else
    let concreteLen :=
      concretePieceLength info.pieceCount info.pieceLength.toNat info.totalLength index
    let expectedBlocks := divCeil concreteLen blockSize
    if concreteLen ≤ offset then none
    else if length = 0 then none
    else if usizeMax < offset + length then none
    else if concreteLen < offset + length then none
    else if expectedBlocks ≤ offset / blockSize then none
    else if length ≠ min (concreteLen - offset) blockSize then none
    else some expectedBlocks

variable [DecidableEq H]

/-- `validate_and_commit_piece`; also answers whether the piece is now committed. -/
def validateAndCommitPiece (index : ℕ) (env : BlockEnv) (s : TorrentActor H) :
    TorrentActor H × Bool :=
  match s.infoDict.bind fun info => info.pieces[index]? with
  | none => (s, false)
  | some hash =>
      if env.read = false then (s, false)
      else
        match s.pieceStorage, s.pieceManager with
        | .disk _, _ =>
            match (s.getPiecePath c index).bind s.disk with
            | none => (s, false)
            | some data => if c.sha1 data = hash then s.recvPiece index data env else (s, false)
        | .inFile, .default manager =>
            match manager.readPiece s.disk index with
            | none => (s, false)
            | some data => (s, decide (c.sha1 data = hash))
        | .inFile, .custom => (s, false)

/-- Mark a piece complete, in the scheduler and in the bitfield. -/
def completePiece (s : TorrentActor H) (index : ℕ) : TorrentActor H :=
  { s.mapScheduler (·.markPieceComplete index) with bitfield := s.bitfield.set index true }

/-- After a piece has been committed: seed if it was the last one. -/
def continueAfterPiece (peerId : PeerId) (env : BlockEnv) (s : TorrentActor H) : TorrentActor H :=
  if (s.infoDict.map Info.pieceCount).getD 0 ≤ s.pieceScheduler.nextPiece then
    (s.transitionState .seeding).rechokePeers env.rechoke
  else s.fillPeerRequestWindow peerId env.fill

def pieceCompleted (peerId : PeerId) (index : ℕ) (env : BlockEnv) (s : TorrentActor H) :
    TorrentActor H :=
  let committed :=
    (s.mapScheduler (·.removePieceBlocks index)).validateAndCommitPiece c index env
  if committed.2 = false then committed.1.fillPeerRequestWindow peerId env.fill
  else
    ((committed.1.completePiece index).broadcastToPeersBestEffort (.have index)
      env.broadcast).continueAfterPiece peerId env

/-- Tell the peer a block was assigned to that it is no longer needed, unless the block came from
that peer. -/
def cancelAssigned (peerId : PeerId) (assigned : Option PeerId) (index offset length : ℕ)
    (sent : Bool) (s : TorrentActor H) : TorrentActor H :=
  match assigned with
  | none => s
  | some other =>
      if other = peerId then s
      else
        match s.peers.get? other with
        | none => s
        | some ref => if sent then s.emit (.tell ref (.cancelPiece index offset length)) else s

/-- The history of a written block: it may be the first of its piece. -/
def noteBlock (index offset length : ℕ) (s : TorrentActor H) : TorrentActor H :=
  if (s.pieceScheduler.completedBlocks.get? index).isSome then
    s.emit (.blockWritten index offset length)
  else (s.emit (.rowCreated index)).emit (.blockWritten index offset length)

/-- The state after a block has been recorded as received. -/
def recordBlock (s : TorrentActor H) (index offset expectedBlocks : ℕ) : TorrentActor H :=
  s.mapScheduler fun p => (p.markBlockComplete index (offset / blockSize) expectedBlocks).1

/-- Record a block that has been written, and go on with its piece. -/
def acceptBlock (peerId : PeerId) (index offset length expectedBlocks : ℕ) (env : BlockEnv)
    (s : TorrentActor H) : TorrentActor H :=
  let assigned :=
    (s.pieceScheduler.markBlockComplete index (offset / blockSize) expectedBlocks).2
  let recorded := ((s.noteBlock index offset length).recordBlock index offset
    expectedBlocks).cancelAssigned peerId assigned index offset length env.cancelSent
  if recorded.pieceScheduler.isPieceComplete index then
    (recorded.emit (.pieceReceived index)).pieceCompleted c peerId index env
  else recorded.fillPeerRequestWindow peerId env.fill

def handleIncomingPiece (peerId : PeerId) (index offset : ℕ) (block : Bytes) (env : BlockEnv)
    (s : TorrentActor H) : TorrentActor H :=
  match s.infoDict with
  | none => s
  | some info =>
      match checkBlock info index offset block.length with
      | none => s
      | some expectedBlocks =>
          if s.pieceScheduler.isDuplicateBlock index (offset / blockSize) then s
          else
            let written := s.writeBlockToStorage c index offset block env.write
            if written.2 = false then written.1
            else written.1.acceptBlock c peerId index offset block.length expectedBlocks env

end TorrentActor

/-! ### Messages -/

/-- The messages that can change the state, with what their handlers learn from outside.
`query` stands for the messages that only read it, or that only start a connection. -/
inductive TorrentMessage {H : Type} [DecidableEq H] (c : Codec H)
  | peerConnected (id : Option PeerId) (ref : ActorRef)
  | incomingPiece (peerId : PeerId) (index offset : ℕ) (block : Bytes) (env : BlockEnv)
  | peerRejectedRequest (peerId : PeerId) (index offset : ℕ) (env : FillEnv)
  | infoBytes (bytes : Bytes) (env : BroadcastEnv)
  | peerReady (id : PeerId) (availablePieces : List Bool) (alive : Bool) (env : FillEnv)
  | disconnectPeer (id : PeerId) (env : FillAllEnv)
  | killPeer (id : PeerId) (env : FillAllEnv)
  | setPieceStorage (strategy : PieceStorageStrategy) (created : Bool)
  | setPieceManager (preStarted : Bool)
  | setOutputPath (path : Path) (created : Bool)
  | setState (state : TorrentState) (start : StartEnv) (stop : BroadcastEnv)
  | setAutoStart (auto : Bool) (env : StartEnv)
  | setSufficientPeers (peers : ℕ) (env : StartEnv)
  | restoreSnapshot (snapshot : ValidatedTorrentSnapshot c)
  | rechoke (env : RechokeEnv)
  | readyHook (env : StartEnv)
  | query
  /-- A peer actor learns of a new piece and sets its bit in the vector it shares. -/
  | sharedHave (id : PeerId) (index : ℕ)
  /-- The first `k` bytes of what is left of the `n`-th write are written in the background. -/
  | background (n k : ℕ)
  /-- The actor stops. -/
  | stop (normal : Bool)

namespace TorrentActor

variable {H : Type} [DecidableEq H] {c : Codec H}

/-- `insert_peer`: register a connected peer under its id, unless the id is taken. -/
def insertPeer (id : Option PeerId) (ref : ActorRef) (s : TorrentActor H) : TorrentActor H :=
  match id with
  | none => s
  | some id =>
      if s.peers.contains id then s
      else { s with peers := s.peers.insert id ref }.emit (.spawn ref id)

/-- The info dictionary of a magnet link has been found. -/
def resolveMetadata (info : Info H) (s : TorrentActor H) : TorrentActor H :=
  { s with
    bitfield := List.replicate info.pieceCount false
    resolvedMagnetInfo := some info
    state := if s.state = .resolvingMetadata then .added else s.state }

def infoBytes (c : Codec H) (bytes : Bytes) (env : BroadcastEnv) (s : TorrentActor H) :
    TorrentActor H :=
  if s.infoDict.isSome then s
  else if c.sha1 bytes ≠ s.infoHash then s
  else
    match c.fromBytes bytes with
    | none => s
    | some info =>
        (s.resolveMetadata info).broadcastToPeers
          (.haveInfoDict (List.replicate info.pieceCount false)) env

def peerReady (id : PeerId) (availablePieces : List Bool) (alive : Bool) (env : FillEnv)
    (s : TorrentActor H) : TorrentActor H :=
  let updated := s.mapScheduler (·.updatePeerAvailability id availablePieces)
  if s.peers.contains id && alive && decide (s.state = .downloading) && s.isReady then
    updated.fillPeerRequestWindow id env
  else updated

/-- Storage that could not be initialised can be configured anew; the torrent is then paused. -/
def leaveFailed (s : TorrentActor H) : TorrentActor H :=
  if s.state = .failed then s.transitionState .paused else s

def setPieceStorage (strategy : PieceStorageStrategy) (created : Bool) (s : TorrentActor H) :
    TorrentActor H :=
  if s.isEmpty = false then s
  else
    match strategy with
    | .inFile => if s.pieceManager.isCustom then s else { s with pieceStorage := .inFile }.leaveFailed
    | .disk dir => if created then { s with pieceStorage := .disk dir }.leaveFailed else s

def setPieceManager (preStarted : Bool) (s : TorrentActor H) : TorrentActor H :=
  if s.isEmpty = false then s
  else
    match s.pieceStorage with
    | .inFile => s
    | .disk _ =>
        if s.infoDict.isSome && !preStarted then s else { s with pieceManager := .custom }

def setOutputPath (path : Path) (created : Bool) (s : TorrentActor H) : TorrentActor H :=
  if s.isEmpty = false then s
  else
    match s.pieceManager with
    | .custom => s
    | .default manager =>
        if created then
          { s with pieceManager := .default { manager with path := some path } }.leaveFailed
        else s

def setState (state : TorrentState) (start : StartEnv) (stop : BroadcastEnv)
    (s : TorrentActor H) : TorrentActor H :=
  match state with
  | .downloading | .seeding => s.start start
  | .paused => s.stopTransfer stop
  | state => s.transitionState state

/-- The state a restored torrent takes up: activity is not resumed by itself. -/
def restoredState : TorrentState → TorrentState
  | .downloading | .seeding | .restarting | .stopping | .stopped => .paused
  | state => state

/-- Mark the pieces whose bits are set, from the given index on. -/
def markComplete : List Bool → ℕ → PieceScheduler → PieceScheduler
  | [], _, p => p
  | bit :: bits, i, p => markComplete bits (i + 1) (if bit then p.markPieceComplete i else p)

/-- The scheduler of a restored torrent. -/
def restoredScheduler (pieceCount : ℕ) (bitfield : List Bool)
    (blockMap : List PieceBlockSnapshot) : PieceScheduler :=
  blockMap.foldl (fun p entry => p.restorePieceBlocks entry.pieceIndex entry.blocks)
    (markComplete bitfield 0 (PieceScheduler.new pieceCount))

def restoreSnapshot (snap : TorrentSnapshot H) (s : TorrentActor H) : TorrentActor H :=
  let info := { s with resolvedMagnetInfo := snap.resolvedMagnetInfo }.infoDict
  { s with
    resolvedMagnetInfo := snap.resolvedMagnetInfo
    bitfield := snap.bitfield
    pieceScheduler := restoredScheduler ((info.map Info.pieceCount).getD 0) snap.bitfield
      snap.blockMap
    autostart := snap.autoStart
    sufficientPeers := snap.sufficientPeers
    state := restoredState snap.state }

def readyHookMessage (env : StartEnv) (s : TorrentActor H) : TorrentActor H :=
  if s.state = .ready ∨ s.state.isTransferActive = true then s
  else if s.isReadyToStart && !s.autostart then s
  else { s with readyHook := s.readyHook + 1 }.autostartCheck env

/-- A part of what is left of a write is written. -/
def writeLate (n k : ℕ) (s : TorrentActor H) : TorrentActor H :=
  match s.unflushed[n]? with
  | none => s
  | some w =>
      let rest := { w with offset := w.offset + k, bytes := w.bytes.drop k }
      { s with
        disk := s.disk.write w.path w.offset (w.bytes.take k)
        unflushed := if rest.bytes = [] then s.unflushed.eraseIdx n else s.unflushed.set n rest }

/-- `on_stop`: the peer actors are killed. -/
def onStop (normal : Bool) (s : TorrentActor H) : TorrentActor H :=
  { s with
    outbox := s.outbox ++ s.peers.toList.map fun peer : PeerId × ActorRef => Effect.kill peer.2
    state := if normal then .stopped else .restarting }

/-- The handler of each message. -/
def handle (s : TorrentActor H) : TorrentMessage c → TorrentActor H
  | .peerConnected id ref => s.insertPeer id ref
  | .incomingPiece peerId index offset block env =>
      s.handleIncomingPiece c peerId index offset block env
  | .peerRejectedRequest peerId index offset env =>
      (s.mapScheduler (·.releasePeerRequest peerId index offset)).fillPeerRequestWindow peerId env
  | .infoBytes bytes env => s.infoBytes c bytes env
  | .peerReady id availablePieces alive env => s.peerReady id availablePieces alive env
  | .disconnectPeer id env =>
      let removed := s.removePeer id
      if removed.2 then removed.1.fillAllPeerRequestWindows env else removed.1
  | .killPeer id env => (s.removePeer id).1.fillAllPeerRequestWindows env
  | .setPieceStorage strategy created => s.setPieceStorage strategy created
  | .setPieceManager preStarted => s.setPieceManager preStarted
  | .setOutputPath path created => s.setOutputPath path created
  | .setState state start stop => s.setState state start stop
  | .setAutoStart auto env =>
      if s.pendingStart then { s with autostart := auto }
      else { s with autostart := auto }.autostartCheck env
  | .setSufficientPeers peers env =>
      if s.pendingStart then { s with sufficientPeers := peers }
      else { s with sufficientPeers := peers }.autostartCheck env
  | .restoreSnapshot v => s.restoreSnapshot v.snapshot
  | .rechoke env => s.rechokePeers env
  | .readyHook env => s.readyHookMessage env
  | .query => s
  | .sharedHave id index =>
      match s.pieceScheduler.peerAvailability.get? id with
      | none => s
      | some bits => s.mapScheduler (·.updatePeerAvailability id (bits.set index true))
  | .background n k => s.writeLate n k
  | .stop normal => s.onStop normal

/-! ### Runs -/

/-- The arguments the actor is started with. -/
structure Args (H : Type) where
  metainfo : MetaInfo H
  pieceStorage : PieceStorageStrategy
  autostart : Option Bool
  sufficientPeers : Option ℕ
  basePath : Option Path
  settings : TorrentSettings

/-- `on_start`, with the files there are; fails when the source has no info hash. -/
def onStart (c : Codec H) (args : Args H) (disk : FileStore Path) : Option (TorrentActor H) :=
  (args.metainfo.infoHash c).map fun infoHash =>
    let info := match args.metainfo with
      | .torrent info => some info
      | .magnetUri _ => none
    let pieceCount := (info.map Info.pieceCount).getD 0
    { peers := ∅
      bitfield := List.replicate pieceCount false
      infoHash := infoHash
      resolvedMagnetInfo := none
      metainfo := args.metainfo
      pieceStorage := args.pieceStorage
      pieceManager := .default ⟨args.basePath, info⟩
      state := if info.isSome then .added else .resolvingMetadata
      pieceScheduler := PieceScheduler.new pieceCount
      sufficientPeers := args.sufficientPeers.getD args.settings.sufficientPeers
      autostart := args.autostart.getD args.settings.autostart
      pendingStart := false
      readyHook := 0
      settings := args.settings
      disk := disk
      unflushed := []
      outbox := [] }

/-- What one round of the actor's loop takes in: a message, and what the check before it learns. -/
structure Input {H : Type} [DecidableEq H] (c : Codec H) where
  check : StartEnv
  message : TorrentMessage c

/-- `next`: the check before each message; the outbox is that of the new round. -/
def next (env : StartEnv) (s : TorrentActor H) : TorrentActor H :=
  if s.pendingStart then { s with outbox := [] } else { s with outbox := [] }.autostartCheck env

/-- One round of the actor's loop. -/
def step (s : TorrentActor H) (i : Input c) : TorrentActor H := (s.next i.check).handle i.message

/-- The engine restores a snapshot only into the actor it has started from the snapshot's source. -/
def RestoresOwn (s : TorrentActor H) : TorrentMessage c → Prop
  | .restoreSnapshot v => v.snapshot.metainfo = s.metainfo
  | _ => True

end TorrentActor

/-- The actor as a transition system. -/
def torrentSystem {H : Type} [DecidableEq H] (c : Codec H) :
    System (TorrentActor H) (TorrentActor.Input c) where
  init s := ∃ args disk, TorrentActor.onStart c args disk = some s
  step s i t := s.RestoresOwn i.message ∧ t = s.step i

/-! ### A small torrent

A single file of one byte, with hashes that are the hashed bytes themselves.  It serves to show
that what is proved about all torrents and all runs is about some. -/

namespace Sample

def info : Info Bytes where
  name := ['a']
  pieceLength := 1
  pieces := [[7]]
  file := .single 1 none
  isPrivate := none
  publisher := none
  publisherUrl := none
  source := none

def digits (n : ℕ) : Bytes := ascii (Nat.toDigits 10 n)

/-- The info dictionary of a single file in bencode. -/
def encode (info : Info Bytes) : Bytes :=
  ascii "d6:lengthi".toList ++ digits info.totalLength ++
  ascii "e4:name".toList ++ digits info.name.length ++ ascii [':'] ++ ascii info.name ++
  ascii "12:piece lengthi".toList ++ digits info.pieceLength.toNat ++
  ascii "e6:pieces".toList ++ digits info.pieces.flatten.length ++ ascii [':'] ++
  info.pieces.flatten ++ ascii ['e']

def infoBytes : Bytes := encode info

def codec : Codec Bytes where
  sha1 := id
  toBytes := encode
  fromBytes bytes := if bytes = infoBytes then some info else none
  toHex hash := hash.map fun byte => Char.ofNat byte.toNat

/-- A peer whose id is all zeros. -/
def peer : PeerId := ⟨.unknown, Vector.replicate 20 0⟩

/-- A peer whose id is all ones. -/
def otherPeer : PeerId := ⟨.unknown, Vector.replicate 20 1⟩

def settings : TorrentSettings := ⟨32, 32, 15, 6, true⟩

def fillEnv : FillEnv := ⟨fun _ => 0, fun _ => true⟩

def fillAllEnv : FillAllEnv := ⟨[], fun _ => fillEnv⟩

def rechokeEnv : RechokeEnv := ⟨0, [], fun _ => true, fillAllEnv⟩

def broadcastEnv : BroadcastEnv := ⟨fun _ => true, fun _ => false⟩

def startEnv : StartEnv := ⟨true, fillAllEnv, rechokeEnv⟩

def blockEnv : BlockEnv := ⟨.flushed, true, .flushed, true, true, broadcastEnv, fillEnv, rechokeEnv⟩

/-- A torrent as it starts from its file, with an output folder. -/
def fromInfo (info : Info Bytes) (storage : PieceStorageStrategy) : TorrentActor Bytes where
  peers := ∅
  bitfield := List.replicate info.pieceCount false
  infoHash := encode info
  resolvedMagnetInfo := none
  metainfo := .torrent info
  pieceStorage := storage
  pieceManager := .default ⟨some [['o']], some info⟩
  state := .added
  pieceScheduler := PieceScheduler.new info.pieceCount
  sufficientPeers := 6
  autostart := true
  pendingStart := false
  readyHook := 0
  settings := settings
  disk := fun _ => none
  unflushed := []
  outbox := []

def fromFile (storage : PieceStorageStrategy) : TorrentActor Bytes := fromInfo info storage

/-- The torrent as it starts from a magnet link. -/
def fromMagnet : TorrentActor Bytes where
  peers := ∅
  bitfield := []
  infoHash := infoBytes
  resolvedMagnetInfo := none
  metainfo := .magnetUri (some infoBytes)
  pieceStorage := .inFile
  pieceManager := .default ⟨some [['o']], none⟩
  state := .resolvingMetadata
  pieceScheduler := PieceScheduler.new 0
  sufficientPeers := 6
  autostart := true
  pendingStart := false
  readyHook := 0
  settings := settings
  disk := fun _ => none
  unflushed := []
  outbox := []

theorem init_fromInfo (info : Info Bytes) (storage : PieceStorageStrategy) :
    (torrentSystem codec).init (fromInfo info storage) :=
  ⟨⟨.torrent info, storage, none, none, some [['o']], settings⟩, fun _ => none, rfl⟩

theorem init_fromFile (storage : PieceStorageStrategy) :
    (torrentSystem codec).init (fromFile storage) := init_fromInfo info storage

theorem init_fromMagnet : (torrentSystem codec).init fromMagnet :=
  ⟨⟨.magnetUri (some infoBytes), .inFile, none, none, some [['o']], settings⟩, fun _ => none, rfl⟩

/-- One round with a message, with nothing out of the ordinary before it. -/
def input (message : TorrentMessage codec) : TorrentActor.Input codec := ⟨startEnv, message⟩

theorem reach_step {G : TorrentActor Bytes → TorrentActor.Input codec → Prop}
    {s : TorrentActor Bytes} (m : TorrentMessage codec) (hs : (torrentSystem codec).Reach G s)
    (hG : G s (input m)) (hm : s.RestoresOwn m) :
    (torrentSystem codec).Reach G (s.step (input m)) :=
  .step hs hG ⟨hm, rfl⟩

/-- One message after the other. -/
def run (s : TorrentActor Bytes) (ms : List (TorrentMessage codec)) : TorrentActor Bytes :=
  ms.foldl (fun s m => s.step (input m)) s

/-- Messages that meet a condition, each in the state it finds, make a run. -/
theorem reach_along {G : TorrentActor Bytes → TorrentActor.Input codec → Prop} {s : TorrentActor Bytes}
    {ms : List (TorrentMessage codec)} (hs : (torrentSystem codec).Reach G s)
    (h : System.Along (fun s m => G s (input m) ∧ s.RestoresOwn m) (fun s m => s.step (input m)) s ms) :
    (torrentSystem codec).Reach G (run s ms) := by
  induction ms generalizing s with
  | nil => exact hs
  | cons m ms ih => exact ih (reach_step m hs h.1.1 h.1.2) h.2

theorem reach_run {s : TorrentActor Bytes} (ms : List (TorrentMessage codec))
    (hs : (torrentSystem codec).Reach (fun _ _ => True) s)
    (hm : ∀ m ∈ ms, ∀ s : TorrentActor Bytes, s.RestoresOwn m) :
    (torrentSystem codec).Reach (fun _ _ => True) (run s ms) := by
  induction ms generalizing s with
  | nil => exact hs
  | cons m ms ih =>
      refine ih (reach_step m hs trivial (hm m (List.mem_cons_self ..) s)) ?_
      exact fun m' hm' => hm m' (List.mem_cons_of_mem _ hm')

/-- A peer connects, the torrent starts, the peer has the piece and is asked for it. -/
def asking : List (TorrentMessage codec) :=
  [.peerConnected (some peer) 0, .setSufficientPeers 1 startEnv, .peerReady peer [true] true fillEnv]

theorem restoresOwn_of_mem_asking {m : TorrentMessage codec} (hm : m ∈ asking)
    (s : TorrentActor Bytes) : s.RestoresOwn m := by
  simp only [asking, List.mem_cons, List.not_mem_nil, or_false] at hm
  rcases hm with rfl | rfl | rfl <;> trivial

/-- The torrent when it has asked for its only block. -/
def downloading (storage : PieceStorageStrategy) : TorrentActor Bytes :=
  run (fromFile storage) asking

theorem reach_downloading (storage : PieceStorageStrategy) :
    (torrentSystem codec).Reach (fun _ _ => True) (downloading storage) :=
  reach_run asking (.init (init_fromFile storage)) fun _ => restoresOwn_of_mem_asking

-- The only block is asked for.
example : (downloading .inFile).outbox = [.tell 0 (.needPiece 0 0 1)] := by decide +kernel

end Sample

end Tortillas
