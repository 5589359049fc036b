/-
**A torrent and its trackers.**

`tracker/actor.rs` and the places of the torrent that talk to trackers.  A tracker actor keeps the
event that its next announce is to carry: one message sets it, another makes the announce, and a
third clears it.  The torrent sends the three in a row when it starts, when it stops and when the
download is complete.  Timers and users ask for announces too, and what they send goes into the same
mailbox.

Main definitions:

* `TrackerActor` — a tracker actor with its mailbox, and the announces it has made;
* `TorrentActor.roundEvents` — the events that the torrent announces in one round of its loop;
* `TrackedTorrent`, `trackedSystem` — the torrent with its trackers, the messages that are still to
  be sent, and how often the torrent has started, completed and stopped.
-/

import Tortillas.Lifecycle

set_option relaxedAutoImplicit false
set_option autoImplicit false

namespace Tortillas

/-- The event an announce carries. -/
inductive Event
  | empty
  | started
  | completed
  | stopped
  deriving DecidableEq

/-- What an announce is made for: an event of the torrent, the time or a user, or because the
tracker actor stops. -/
inductive Origin
  | lifecycle (event : Event)
  | other
  | farewell
  deriving DecidableEq

/-- `TrackerUpdate::Event` and `Announce`.  Other updates do not touch the event. -/
inductive TrackerMessage
  | update (event : Event)
  | announce (origin : Origin)
  deriving DecidableEq

/-! ### The tracker -/

/-- A tracker actor. -/
structure TrackerActor where
  event : Event
  mailbox : List TrackerMessage
  alive : Bool
  /-- The announces that have been made, with the events they carried. -/
  announced : List (Origin × Event)

namespace TrackerActor

def new : TrackerActor := ⟨.empty, [], true, []⟩

/-- `announce`: the event is sent as it is. -/
def announce (origin : Origin) (t : TrackerActor) : TrackerActor :=
  { t with announced := t.announced ++ [(origin, t.event)] }

/-- The handlers of the two messages. -/
def receive (t : TrackerActor) : TrackerMessage → TrackerActor
  | .update event => { t with event := event }
  | .announce origin => t.announce origin

/-- Take the next message from the mailbox. -/
def next (t : TrackerActor) : TrackerActor :=
  if t.alive then
    match t.mailbox with
    | [] => t
    | m :: ms => { t with mailbox := ms }.receive m
  else t

/-- A message for a tracker that no longer runs is lost. -/
def post (m : TrackerMessage) (t : TrackerActor) : TrackerActor :=
  if t.alive then { t with mailbox := t.mailbox ++ [m] } else t

/-- `on_stop`: the tracker is told with a last announce. -/
def onStop (t : TrackerActor) : TrackerActor :=
  if t.alive then { { t with event := .stopped }.announce .farewell with alive := false } else t

end TrackerActor

/-! ### What the torrent announces -/

/-- `announce_tracker_event`: the event is set, announced and cleared. -/
def trackerMessages (event : Event) : List TrackerMessage :=
  [.update event, .announce (.lifecycle event), .update .empty]

namespace TorrentActor

variable {H : Type}

def startEvents (env : StartEnv) (s : TorrentActor H) : List Event :=
  if s.state.canStart = false then []
  else
    match s.infoDict with
    | none => []
    | some info =>
        match preStart info env.preStart s.pieceManager with
        | none => []
        | some _ => [.started]

def autostartEvents (env : StartEnv) (s : TorrentActor H) : List Event :=
  if s.isReadyToStart = false then []
  else if s.autostart then { s with pendingStart := true }.startEvents env
  else []

def stopEvents (s : TorrentActor H) : List Event :=
  if s.state = .paused then []
  else if s.state.isTransferActive then [.stopped]
  else []

variable (c : Codec H)

def continueEvents (s : TorrentActor H) : List Event :=
  if (s.infoDict.map Info.pieceCount).getD 0 ≤ s.pieceScheduler.nextPiece then [.completed] else []

variable [DecidableEq H]

def pieceEvents (index : ℕ) (env : BlockEnv) (s : TorrentActor H) : List Event :=
  let committed :=
    (s.mapScheduler (·.removePieceBlocks index)).validateAndCommitPiece c index env
  if committed.2 = false then []
  else
    ((committed.1.completePiece index).broadcastToPeersBestEffort (.have index)
      env.broadcast).continueEvents

def acceptEvents (peerId : PeerId) (index offset length expectedBlocks : ℕ) (env : BlockEnv)
    (s : TorrentActor H) : List Event :=
  let assigned :=
    (s.pieceScheduler.markBlockComplete index (offset / blockSize) expectedBlocks).2
  let recorded := ((s.noteBlock index offset length).recordBlock index offset
    expectedBlocks).cancelAssigned peerId assigned index offset length env.cancelSent
  if recorded.pieceScheduler.isPieceComplete index then
    (recorded.emit (.pieceReceived index)).pieceEvents c index env
  else []

def incomingEvents (peerId : PeerId) (index offset : ℕ) (block : Bytes) (env : BlockEnv)
    (s : TorrentActor H) : List Event :=
  match s.infoDict with
  | none => []
  | some info =>
      match checkBlock info index offset block.length with
      | none => []
      | some expectedBlocks =>
          if s.pieceScheduler.isDuplicateBlock index (offset / blockSize) then []
          else
            let written := s.writeBlockToStorage c index offset block env.write
            if written.2 = false then []
            else written.1.acceptEvents c peerId index offset block.length expectedBlocks env

variable {c}

/-- The events that the handler of a message announces. -/
def messageEvents (s : TorrentActor H) : TorrentMessage c → List Event
  | .incomingPiece peerId index offset block env =>
      s.incomingEvents c peerId index offset block env
  | .setState .downloading start _ => s.startEvents start
  | .setState .seeding start _ => s.startEvents start
  | .setState .paused _ _ => s.stopEvents
  | .setAutoStart auto env =>
      if s.pendingStart then [] else { s with autostart := auto }.autostartEvents env
  | .setSufficientPeers peers env =>
      if s.pendingStart then [] else { s with sufficientPeers := peers }.autostartEvents env
  | .readyHook env =>
      if s.state = .ready ∨ s.state.isTransferActive = true then []
      else if s.isReadyToStart && !s.autostart then []
      else { s with readyHook := s.readyHook + 1 }.autostartEvents env
  | _ => []

/-- The events that the check before a message announces. -/
def nextEvents (env : StartEnv) (s : TorrentActor H) : List Event :=
  if s.pendingStart then [] else { s with outbox := [] }.autostartEvents env

/-- The events that one round of the loop announces. -/
def roundEvents (s : TorrentActor H) (i : Input c) : List Event :=
  s.nextEvents i.check ++ (s.next i.check).messageEvents i.message

end TorrentActor

/-! ### The torrent with its trackers -/

section Transitions

variable {H : Type}

/-- Whether a torrent becomes active between two states. -/
def enters (s t : TorrentActor H) : ℕ :=
  if s.state.isTransferActive = false ∧ t.state.isTransferActive = true then 1 else 0

/-- Whether its download is completed. -/
def completes (s t : TorrentActor H) : ℕ :=
  if s.isFull = false ∧ t.isFull = true then 1 else 0

/-- Whether it is stopped. -/
def stops (s t : TorrentActor H) : ℕ :=
  if s.state.isTransferActive = true ∧ t.state.isTransferActive = false then 1 else 0

end Transitions

/-- The torrent with its trackers.  `outgoing` is what the torrent has still to send to each tracker
before it goes on; the counters say how often it has become active, completed a download and
stopped. -/
structure TrackedTorrent (H : Type) where
  torrent : TorrentActor H
  trackers : ℕ → Option TrackerActor
  outgoing : ℕ → List TrackerMessage
  entered : ℕ
  completed : ℕ
  stopped : ℕ

/-- What can happen next. -/
inductive TrackedInput {H : Type} [DecidableEq H] (c : Codec H)
  /-- The torrent takes its next message. -/
  | round (i : TorrentActor.Input c)
  /-- The torrent's next message for a tracker gets into its mailbox. -/
  | send (ref : ℕ)
  /-- A tracker takes its next message. -/
  | process (ref : ℕ)
  /-- The scheduled announce of a tracker is due. -/
  | timer (ref : ℕ)
  /-- The user asks for announces; some may not fit into the mailboxes. -/
  | reannounce (refs : List ℕ)
  | addTracker (ref : ℕ)
  /-- A tracker actor stops. -/
  | stopTracker (ref : ℕ)

namespace TrackedTorrent

variable {H : Type}

/-- The torrent has nothing left to send, and can take its next message. -/
def Idle (s : TrackedTorrent H) : Prop := ∀ ref, s.outgoing ref = []

/-- Change one tracker, if it is there. -/
def mapTracker (ref : ℕ) (f : TrackerActor → TrackerActor) (s : TrackedTorrent H) :
    TrackedTorrent H :=
  { s with trackers := fun r => if r = ref then (s.trackers r).map f else s.trackers r }

variable [DecidableEq H] {c : Codec H}

def round (i : TorrentActor.Input c) (s : TrackedTorrent H) : TrackedTorrent H :=
  let checked := s.torrent.next i.check
  let handled := s.torrent.step i
  { s with
    torrent := handled
    outgoing := fun ref =>
      if (s.trackers ref).isSome then (s.torrent.roundEvents i).flatMap trackerMessages else []
    entered := s.entered + (enters s.torrent checked + enters checked handled)
    completed := s.completed + (completes s.torrent checked + completes checked handled)
    stopped := s.stopped + (stops s.torrent checked + stops checked handled) }

def send (ref : ℕ) (s : TrackedTorrent H) : TrackedTorrent H :=
  match s.outgoing ref with
  | [] => s
  | m :: ms =>
      { s.mapTracker ref (TrackerActor.post m) with
        outgoing := fun r => if r = ref then ms else s.outgoing r }

def addTracker (ref : ℕ) (s : TrackedTorrent H) : TrackedTorrent H :=
  if (s.trackers ref).isSome then s
  else { s with trackers := fun r => if r = ref then some .new else s.trackers r }

def apply (s : TrackedTorrent H) : TrackedInput c → TrackedTorrent H
  | .round i => s.round i
  | .send ref => s.send ref
  | .process ref => s.mapTracker ref TrackerActor.next
  | .timer ref => s.mapTracker ref (TrackerActor.post (.announce .other))
  | .reannounce refs => refs.foldl (fun s ref => s.mapTracker ref (.post (.announce .other))) s
  | .addTracker ref => s.addTracker ref
  | .stopTracker ref => s.mapTracker ref TrackerActor.onStop

/-- The torrent handles one message at a time: what it does in a handler of its own happens only
when it has sent everything it had to send. -/
def Admits (s : TrackedTorrent H) : TrackedInput c → Prop
  | .round i => s.Idle ∧ s.torrent.RestoresOwn i.message
  | .reannounce _ => s.Idle
  | .addTracker _ => s.Idle
  | _ => True

end TrackedTorrent

/-- The torrent and its trackers as a transition system. -/
def trackedSystem {H : Type} [DecidableEq H] (c : Codec H) :
    System (TrackedTorrent H) (TrackedInput c) where
  init s := (torrentSystem c).init s.torrent ∧ s = ⟨s.torrent, fun _ => none, fun _ => [], 0, 0, 0⟩
  step s i t := s.Admits i ∧ t = s.apply i

end Tortillas
