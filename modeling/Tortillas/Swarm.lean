/-
**The torrent and its peers as one system.**

A torrent actor and its peer actors share nothing but messages.  A command of the torrent goes into
the mailbox of one peer actor; what peer actors tell the torrent arrives in one inbox.  Both are
queues.  The swarm is the state of all of them, and a step of the swarm is a step of one actor: the
torrent handles a message from outside or the next one from its peers, or a peer actor starts,
handles a command or a message from the wire, times out, or stops.

A step of the torrent takes place at once, and so does a step of a peer actor: a question an actor
asks in the middle of a handler is answered by its environment.  An actor that has been killed goes
on until it stops, as any actor may stop at any time.  An actor says farewell when it stops, unless
it has failed to start; it is found dead only after that.

The swarm keeps a log of what has been sent, with the info dictionary the torrent had at the time,
so that the order of a request, an answer and a write can be spoken of.

Main definitions:

* `PeerProcess`, `PeerProcess.act` — a peer actor with its mailbox and its phase, and its steps;
* `Swarm` — the torrent, the processes, the inbox and the log;
* `Swarm.round`, `Swarm.apply` — a step of the torrent, and what an input does;
* `swarmSystem` — the transition system.

Main results:

* `PeerProcess.acts_of_act` — **every way in which a peer actor takes a step**;
* `Swarm.moves_of_apply` — **every way in which the swarm takes a step**.
-/

import Tortillas.PeerActor
import Tortillas.Transition

set_option relaxedAutoImplicit false
set_option autoImplicit false

namespace Tortillas

/-- Where a peer actor is in its life. -/
inductive Phase
  | starting | running | stopping | stopped
  deriving DecidableEq, Repr

/-- A peer actor with its mailbox. -/
structure PeerProcess where
  actor : PeerActor
  mailbox : List PeerCommand
  phase : Phase

/-- What happens to a peer actor. -/
inductive PeerInput
  | start
  | startFailed
  | command (env : PeerEnv)
  | wire (message : PeerMessages) (env : PeerEnv)
  | timeout
  | stop

namespace PeerProcess

/-- `on_stop`: the farewell. -/
def farewell (p : PeerProcess) : PeerProcess × List PeerEvent :=
  ({ p with phase := .stopped }, [.killPeer p.actor.id])

/-- The actor has handled something, and tells the torrent. -/
def goesOn (p : PeerProcess) (a : PeerActor) : PeerProcess × List PeerEvent :=
  ({ p with actor := a }, a.told)

/-- A step of a peer actor, and what it tells the torrent; `none` when it cannot happen. -/
def act (p : PeerProcess) : PeerInput → Option (PeerProcess × List PeerEvent)
  | .start =>
      if p.phase = .starting then
        some ({ p with phase := .running }, [.peerReady p.actor.id p.actor.pieces])
      else none
  -- an actor that has failed to start does not say farewell
  | .startFailed =>
      if p.phase = .starting then some ({ p with phase := .stopped }, []) else none
  | .command env =>
      match p.phase, p.mailbox with
      | .running, command :: rest =>
          some ({ p with mailbox := rest }.goesOn ({ p.actor with outbox := [] }.perform env command))
      | _, _ => none
  | .wire m env =>
      if p.phase = .running then
        match { p.actor with outbox := [] }.handle env m with
        | some a => some (p.goesOn a)
        | none => some p.farewell
      else none
  -- the first farewell of an actor that has timed out; the second follows when it stops
  | .timeout =>
      if p.phase = .running then some ({ p with phase := .stopping }, [.killPeer p.actor.id])
      else none
  | .stop =>
      if p.phase = .running ∨ p.phase = .stopping then some p.farewell else none

/-- **Every way in which a peer actor takes a step.** -/
inductive Acts (p : PeerProcess) : PeerInput → PeerProcess → List PeerEvent → Prop
  | start (h : p.phase = .starting) :
      Acts p .start { p with phase := .running } [.peerReady p.actor.id p.actor.pieces]
  | startFailed (h : p.phase = .starting) : Acts p .startFailed { p with phase := .stopped } []
  | command {env : PeerEnv} {command : PeerCommand} {rest : List PeerCommand} {a : PeerActor}
      (h : p.phase = .running) (hmail : p.mailbox = command :: rest)
      (ha : a = { p.actor with outbox := [] }.perform env command) :
      Acts p (.command env) { p with actor := a, mailbox := rest } a.told
  | wire {m : PeerMessages} {env : PeerEnv} {a : PeerActor} (h : p.phase = .running)
      (ha : { p.actor with outbox := [] }.handle env m = some a) :
      Acts p (.wire m env) { p with actor := a } a.told
  | panic {m : PeerMessages} {env : PeerEnv} (h : p.phase = .running)
      (ha : { p.actor with outbox := [] }.handle env m = none) :
      Acts p (.wire m env) { p with phase := .stopped } [.killPeer p.actor.id]
  | timeout (h : p.phase = .running) :
      Acts p .timeout { p with phase := .stopping } [.killPeer p.actor.id]
  | stop (h : p.phase = .running ∨ p.phase = .stopping) :
      Acts p .stop { p with phase := .stopped } [.killPeer p.actor.id]

theorem acts_of_act {p q : PeerProcess} {i : PeerInput} {es : List PeerEvent}
    (h : p.act i = some (q, es)) : Acts p i q es := by
  cases i with
  | start =>
      simp only [act] at h
      split at h
      · rename_i hphase
        cases h
        exact .start hphase
      · cases h
  | startFailed =>
      simp only [act] at h
      split at h
      · rename_i hphase
        cases h
        exact .startFailed hphase
      · cases h
  | command env =>
      simp only [act] at h
      split at h
      · rename_i command rest hphase hmail
        cases h
        exact .command hphase hmail rfl
      · cases h
  | wire m env =>
      simp only [act] at h
      split at h
      · rename_i hphase
        cases ha : { p.actor with outbox := [] }.handle env m with
        | none =>
            simp only [ha] at h
            cases h
            exact .panic hphase ha
        | some a =>
            simp only [ha] at h
            cases h
            exact .wire hphase ha
      · cases h
  | timeout =>
      simp only [act] at h
      split at h
      · rename_i hphase
        cases h
        exact .timeout hphase
      · cases h
  | stop =>
      simp only [act] at h
      split at h
      · rename_i hphase
        cases h
        exact .stop hphase
      · cases h

end PeerProcess

/-- The peer actors there are or have been. -/
abbrev Processes := ActorRef → Option PeerProcess

namespace Processes

/-- What an effect of the torrent does to the peer actors: a command is put into a mailbox, unless
the actor has stopped, and a connection gets an actor of its own. -/
def post (ps : Processes) : Effect → Processes
  | .tell ref command =>
      match ps ref with
      | some p =>
          if p.phase = .stopped then ps
          else Function.update ps ref (some { p with mailbox := p.mailbox ++ [command] })
      | none => ps
  | .spawn ref id => Function.update ps ref (some ⟨PeerActor.new id, [], .starting⟩)
  | _ => ps

def postAll (ps : Processes) (effects : List Effect) : Processes := effects.foldl post ps

theorem postAll_append (ps : Processes) (es es' : List Effect) :
    ps.postAll (es ++ es') = (ps.postAll es).postAll es' := List.foldl_append ..

end Processes

/-! ### Messages between the actors -/

/-- What the torrent learns from outside while it handles a message of a peer actor.  A vector of
pieces is shared with the peer actor, which may have set bits since it sent it. -/
structure DeliverEnv where
  check : StartEnv
  block : BlockEnv
  fill : FillEnv
  fillAll : FillAllEnv
  broadcast : BroadcastEnv
  alive : Bool
  setSince : List ℕ

/-- The message of a peer actor as the torrent handles it. -/
def PeerEvent.toMessage {H : Type} [DecidableEq H] {c : Codec H} (env : DeliverEnv) :
    PeerEvent → TorrentMessage c
  | .peerReady id bits =>
      .peerReady id (env.setSince.foldl (fun bits i => bits.set i true) bits) env.alive env.fill
  | .incomingPiece peerId index offset block =>
      .incomingPiece peerId index offset block env.block
  | .peerRejectedRequest peerId index offset =>
      .peerRejectedRequest peerId index offset env.fill
  | .killPeer id => .killPeer id env.fillAll
  | .infoBytes bytes => .infoBytes bytes env.broadcast

namespace TorrentMessage

variable {H : Type} [DecidableEq H] {c : Codec H}

/-- The messages that only peer actors send. -/
def isFromPeer : TorrentMessage c → Bool
  | .incomingPiece .. | .peerRejectedRequest .. | .infoBytes .. | .peerReady .. | .killPeer .. =>
      true
  | _ => false

/-- Whether handling the message finds the actor of a peer dead. -/
def findsDead : TorrentMessage c → PeerId → Bool
  | .incomingPiece _ _ _ _ env => env.broadcast.dead
  | .infoBytes _ env => env.dead
  | .setState _ _ env => env.dead
  | _ => fun _ => false

/-- The rows of received blocks a message brings along. -/
def restoredRows : TorrentMessage c → Option (List PieceBlockSnapshot)
  | .restoreSnapshot v => some v.snapshot.blockMap
  | _ => none

end TorrentMessage

/-! ### The swarm -/

/-- What the log holds: an effect of the torrent with the info dictionary it had, the rows of
received blocks a snapshot has brought along, or what a peer actor has told. -/
inductive LogEntry (H : Type)
  | effect (info : Option (Info H)) (e : Effect)
  | restored (rows : List PieceBlockSnapshot)
  | told (ref : ActorRef) (e : PeerEvent)

/-- The state of the torrent and its peers. -/
structure Swarm (H : Type) where
  torrent : TorrentActor H
  processes : Processes
  inbox : List (ActorRef × PeerEvent)
  log : List (LogEntry H)

/-- What happens next: the torrent handles a message from outside, or the next one from its peers,
or something happens to a peer actor. -/
inductive SwarmInput {H : Type} [DecidableEq H] (c : Codec H)
  | outside (i : TorrentActor.Input c)
  | deliver (env : DeliverEnv)
  | peer (ref : ActorRef) (i : PeerInput)

namespace Swarm

variable {H : Type} [DecidableEq H] {c : Codec H}

/-- What a round of the torrent leaves in the log. -/
def roundLog (info : Option (Info H)) (i : TorrentActor.Input c) (effects : List Effect) :
    List (LogEntry H) :=
  effects.map (.effect info) ++ (i.message.restoredRows.map .restored).toList

/-- A round of the torrent. -/
def round (s : Swarm H) (i : TorrentActor.Input c) : Swarm H :=
  { s with
    torrent := s.torrent.step i
    processes := s.processes.postAll (s.torrent.step i).outbox
    log := s.log ++ roundLog s.torrent.infoDict i (s.torrent.step i).outbox }

/-- A peer actor has taken a step, and tells the torrent. -/
def report (s : Swarm H) (ref : ActorRef) (p : PeerProcess) (events : List PeerEvent) : Swarm H :=
  { s with
    processes := Function.update s.processes ref (some p)
    inbox := s.inbox ++ events.map (Prod.mk ref)
    log := s.log ++ events.map (.told ref) }

omit [DecidableEq H] in
@[simp] theorem processes_report_self (s : Swarm H) (ref : ActorRef) (p : PeerProcess)
    (es : List PeerEvent) : (s.report ref p es).processes ref = some p := Function.update_self ..

omit [DecidableEq H] in
theorem processes_report_of_ne (s : Swarm H) {ref ref' : ActorRef} (p : PeerProcess)
    (es : List PeerEvent) (h : ref' ≠ ref) :
    (s.report ref p es).processes ref' = s.processes ref' := Function.update_of_ne h ..

/-- What an input does; `none` when it cannot happen. -/
def apply (s : Swarm H) : SwarmInput c → Option (Swarm H)
  | .outside i => if i.message.isFromPeer then none else some (s.round i)
  | .deliver env =>
      match s.inbox with
      | [] => none
      | (_, e) :: rest => some ({ s with inbox := rest }.round (c := c) ⟨env.check, e.toMessage env⟩)
  | .peer ref i =>
      ((s.processes ref).bind (·.act i)).map fun done => s.report ref done.1 done.2

/-- The message the torrent handles next. -/
def nextMessage (s : Swarm H) : SwarmInput c → Option (TorrentMessage c)
  | .outside i => some i.message
  | .deliver env => s.inbox.head?.map fun m => m.2.toMessage env
  | _ => none

/-- What the surroundings see to: a connection gets an actor that has not been there before, a
snapshot is restored into the torrent it was taken of, and a peer is found dead only if its actor
has stopped. -/
structure Admits (s : Swarm H) (i : SwarmInput c) : Prop where
  fresh : ∀ id ref, s.nextMessage i = some (.peerConnected id ref) → s.processes ref = none
  own : ∀ m, s.nextMessage i = some m → s.torrent.RestoresOwn m
  dead : ∀ m, s.nextMessage i = some m → ∀ id, m.findsDead id = true →
    ∀ ref p, s.torrent.peers.get? id = some ref → s.processes ref = some p → p.phase = .stopped

/-- **Every way in which the swarm takes a step.** -/
inductive Moves (s : Swarm H) : SwarmInput c → Swarm H → Prop
  | outside (i : TorrentActor.Input c) (h : i.message.isFromPeer = false) :
      Moves s (.outside i) (s.round i)
  | deliver (env : DeliverEnv) {ref : ActorRef} {e : PeerEvent} {rest : List (ActorRef × PeerEvent)}
      (h : s.inbox = (ref, e) :: rest) :
      Moves s (.deliver env) ({ s with inbox := rest }.round (c := c) ⟨env.check, e.toMessage env⟩)
  | peer {ref : ActorRef} {i : PeerInput} {p q : PeerProcess} {es : List PeerEvent}
      (hp : s.processes ref = some p) (h : p.Acts i q es) :
      Moves s (.peer ref i) (s.report ref q es)

theorem moves_of_apply {s t : Swarm H} {i : SwarmInput c} (h : s.apply i = some t) :
    Moves s i t := by
  cases i with
  | outside i =>
      simp only [apply] at h
      split at h
      · cases h
      · rename_i hpeer
        cases h
        exact .outside i (by simpa using hpeer)
  | deliver env =>
      simp only [apply] at h
      split at h
      · cases h
      · rename_i ref e rest hinbox
        cases h
        exact .deliver env hinbox
  | peer ref i =>
      obtain ⟨⟨q, es⟩, hact, rfl⟩ := Option.map_eq_some_iff.1 h
      obtain ⟨p, hp, hact⟩ := Option.bind_eq_some_iff.1 hact
      exact .peer hp (PeerProcess.acts_of_act hact)

/-- A step of the swarm is a round of the torrent, which takes at most one message out of the inbox,
or a step of a peer actor. -/
theorem Moves.cases {s t : Swarm H} {i : SwarmInput c} (h : Moves s i t) :
    (∃ (j : TorrentActor.Input c) (rest : List (ActorRef × PeerEvent)),
      s.nextMessage i = some j.message ∧ rest <:+ s.inbox ∧ t = { s with inbox := rest }.round j) ∨
    ∃ ref j p q es, i = .peer ref j ∧ s.processes ref = some p ∧ PeerProcess.Acts p j q es ∧
      t = s.report ref q es := by
  cases h with
  | outside j _ => exact Or.inl ⟨j, s.inbox, rfl, List.suffix_refl _, rfl⟩
  | @deliver env ref e rest hinbox =>
      refine Or.inl ⟨_, rest, ?_, ?_, rfl⟩
      · simp [nextMessage, hinbox]
      · rw [hinbox]
        exact List.suffix_cons ..
  | peer hp hacts => exact Or.inr ⟨_, _, _, _, _, rfl, hp, hacts, rfl⟩

end Swarm

/-- The swarm as a transition system. -/
def swarmSystem {H : Type} [DecidableEq H] (c : Codec H) : System (Swarm H) (SwarmInput c) where
  init s := (torrentSystem c).init s.torrent ∧ s.processes = (fun _ => none) ∧ s.inbox = [] ∧
    s.log = []
  step s i t := s.Admits i ∧ s.apply i = some t

end Tortillas
