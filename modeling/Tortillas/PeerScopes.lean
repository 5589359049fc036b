/-
**The peers that are listed and the peers that are connected.**

`live/hub.rs`: whoever uses the program sees the peers of a torrent through handles.  The torrent keeps its connections
by the ids of their peers; the hub keeps, beside it, the handle of each connection by the same id.  A connection that is
registered gets a handle, and when a peer actor says farewell, or somebody disconnects the peer by its handle, the
torrent drops the connection and closes the handle; a handle that is closed for the first time takes the entry under its
id out of the hub, whosever it is.

The two tables can differ.  A peer that is found dead is dropped without its handle, and a farewell that comes a second
time drops a successor whose handle stays open.  Such a handle is still listed, and its peer is not there.

The hub passes events on together with the handle of the torrent, which the engine registers when it is through with
making the torrent.  Of a peer that connects before that, nobody is told that it has connected.

Main definitions:

* `PeerScopes` — the handles that the hub lists, those that are closed, and what it has passed on;
* `LiveSwarm`, `liveSwarmSystem` — a torrent, its peer actors and its hub;
* `LiveSwarm.OpenConnected` — every open handle is that of a connected peer;
* `LiveSwarm.LeavesOpen` — a step drops a peer whose handle stays open;
* `LiveSwarm.ConnectsEarly` — a peer connects before the torrent is registered with the hub.

Main results:

* `LiveSwarm.moves_of_step` — **every way in which a step changes connections and handles**;
* `LiveSwarm.Sound.step` — a connected peer is listed, and a handle is passed on as connected and disconnected in this
  order, at most once each;
* `LiveSwarm.Sound.peerConnected_mem_step` — **a handle is passed on as connected exactly if the torrent is registered
  when the peer connects**;
* `listed_peers` — **a step leaves every open handle a connected peer exactly if it drops no other**;
* `exists_not_openConnected` — a second farewell does drop one.
-/

import Tortillas.StaleConnections

set_option relaxedAutoImplicit false
set_option autoImplicit false

namespace Tortillas

/-! ### The hub -/

/-- What the hub passes on to the streams of the torrent and of the engine. -/
inductive PeerScopeEvent
  | peerConnected (handle : ActorRef)
  | peerDisconnected (handle : ActorRef)
  deriving DecidableEq

def PeerScopeEvent.handle : PeerScopeEvent → ActorRef
  | peerConnected handle | peerDisconnected handle => handle

/-- The handles of a torrent's peers.  A handle belongs to one connection and is named by its actor. -/
structure PeerScopes where
  /-- `TorrentScope::torrent` is set -/
  isRegistered : Bool
  /-- `TorrentScope::peers` -/
  peers : HashMap PeerId ActorRef
  closed : List ActorRef
  told : List PeerScopeEvent

namespace PeerScopes

/-- `peer_handles`: of the handles that are listed, those that are not closed. -/
def peerHandles (s : PeerScopes) : List ActorRef := (s.peers.toList.map Prod.snd).filter (· ∉ s.closed)

def registerPeerScope (s : PeerScopes) (id : PeerId) (ref : ActorRef) : PeerScopes :=
  { s with peers := s.peers.insert id ref }

/-- `TorrentScope::register`, through `register_torrent_scope` -/
def registerTorrentScope (s : PeerScopes) : PeerScopes := { s with isRegistered := true }

/-- Without the handle of the torrent nothing is passed on. -/
def emitWithoutTorrentViewChange (s : PeerScopes) (event : PeerScopeEvent) : PeerScopes :=
  if s.isRegistered then { s with told := s.told ++ [event] } else s

def emitPeerConnected (s : PeerScopes) (id : PeerId) (ref : ActorRef) : PeerScopes :=
  if s.peers.contains id then s.emitWithoutTorrentViewChange (.peerConnected ref) else s

/-- The entry under the id of the handle goes, whether or not it is this handle. -/
def markPeerDisconnected (s : PeerScopes) (id : PeerId) (ref : ActorRef) : PeerScopes :=
  match s.peers.get? id with
  | none => s
  | some _ => { s with peers := s.peers.erase id }.emitWithoutTorrentViewChange (.peerDisconnected ref)

/-- `PeerHandle::disconnected` -/
def disconnected (s : PeerScopes) (id : PeerId) (ref : ActorRef) : PeerScopes :=
  if ref ∈ s.closed then s else { s with closed := ref :: s.closed }.markPeerDisconnected id ref

/-- What the torrent does with handles while it handles a message; `ref` is the handle that comes with it. -/
def handle {H : Type} [DecidableEq H] {c : Codec H} (s : PeerScopes) (torrent : TorrentActor H) (ref : ActorRef) :
    TorrentMessage c → PeerScopes
  | .peerConnected (some id) new =>
      if torrent.peers.contains id then s else (s.registerPeerScope id new).emitPeerConnected id new
  | .killPeer id _ => s.disconnected id ref
  | .disconnectPeer id _ => if torrent.peers.contains id then s.disconnected id ref else s
  | _ => s

/-- What has been passed on about a handle. -/
def about (s : PeerScopes) (ref : ActorRef) : List PeerScopeEvent := s.told.filter fun e => e.handle = ref

end PeerScopes

/-- The id whose connection a message ends. -/
def TorrentMessage.ends {H : Type} [DecidableEq H] {c : Codec H} : TorrentMessage c → Option PeerId
  | .killPeer id _ | .disconnectPeer id _ => some id
  | _ => none

/-- The message stops the torrent. -/
def TorrentMessage.Stops {H : Type} [DecidableEq H] {c : Codec H} (m : TorrentMessage c) : Prop :=
  ∃ normal, m = .stop normal

/-! ### The torrent with its hub -/

/-- A torrent, its peer actors, and the handles of its peers. -/
structure LiveSwarm (H : Type) where
  swarm : Swarm H
  scopes : PeerScopes

/-- What happens next. -/
inductive LiveSwarmInput {H : Type} [DecidableEq H] (c : Codec H)
  /-- `handle` is the one that somebody disconnects a peer by. -/
  | swarm (input : SwarmInput c) (handle : ActorRef)
  /-- The last that `create_torrent` does. -/
  | registerTorrentScope

namespace LiveSwarm

variable {H : Type}

/-- The id of the connection that an actor has been made for. -/
def owner (s : LiveSwarm H) (ref : ActorRef) : Option PeerId := (s.swarm.processes ref).map fun p => p.actor.id

variable [DecidableEq H] {c : Codec H}

/-- The message that the torrent handles next. -/
def nextMessage (s : LiveSwarm H) : LiveSwarmInput c → Option (TorrentMessage c)
  | .swarm input _ => s.swarm.nextMessage input
  | .registerTorrentScope => none

/-- The handle that comes with the next message: a peer actor sends its own. -/
def handleOf (s : LiveSwarm H) (input : SwarmInput c) (handle : ActorRef) : ActorRef :=
  match input with
  | .deliver _ => (s.swarm.inbox.head?.map Prod.fst).getD handle
  | _ => handle

def apply (s : LiveSwarm H) : LiveSwarmInput c → Option (LiveSwarm H)
  | .swarm input handle => (s.swarm.apply input).map fun swarm =>
      ⟨swarm, ((s.swarm.nextMessage input).map
        (s.scopes.handle s.swarm.torrent (s.handleOf input handle))).getD s.scopes⟩
  | .registerTorrentScope => some { s with scopes := s.scopes.registerTorrentScope }

/-- Whoever disconnects a peer has a handle of a connection with it; and the torrent goes on. -/
structure Admits (s : LiveSwarm H) (i : LiveSwarmInput c) : Prop where
  swarm : ∀ input handle, i = .swarm input handle → s.swarm.Admits input
  handle : ∀ input handle id env, i = .swarm input handle →
    s.swarm.nextMessage input = some (.disconnectPeer id env) → s.owner (s.handleOf input handle) = some id
  lives : ∀ m, s.nextMessage i = some m → ¬ m.Stops

/-- The next message ends the connection under the id, and comes with a handle that is open. -/
def Closes (s : LiveSwarm H) (i : LiveSwarmInput c) (id : PeerId) : Prop :=
  ∃ input handle m, i = .swarm input handle ∧ s.handleOf input handle ∉ s.scopes.closed ∧
    s.swarm.nextMessage input = some m ∧ m.ends = some id

/-- **The step drops a connected peer without closing its handle**: no message that ends the connection has come with an
open handle. -/
def LeavesOpen (s : LiveSwarm H) (i : LiveSwarmInput c) : Prop :=
  ∃ t id ref, s.apply i = some t ∧ s.swarm.torrent.peers.get? id = some ref ∧
    t.swarm.torrent.peers.get? id = none ∧ ¬ s.Closes i id

/-- A peer connects before the torrent is registered with the hub. -/
def ConnectsEarly (s : LiveSwarm H) (i : LiveSwarmInput c) : Prop :=
  s.scopes.isRegistered = false ∧
    ∃ id new, s.nextMessage i = some (.peerConnected (some id) new) ∧ s.swarm.torrent.peers.get? id = none

/-- Every open handle is that of a connected peer. -/
def OpenConnected (s : LiveSwarm H) : Prop :=
  ∀ ref id, s.owner ref = some id → ref ∉ s.scopes.closed → s.swarm.torrent.peers.get? id = some ref

end LiveSwarm

/-- A torrent with its hub, from its beginning. -/
def liveSwarmSystem {H : Type} [DecidableEq H] (c : Codec H) : System (LiveSwarm H) (LiveSwarmInput c) where
  init s := (swarmSystem c).init s.swarm ∧ s.scopes = ⟨false, ∅, [], []⟩
  step s i t := s.Admits i ∧ s.apply i = some t

/-! ### What a message does to the handles -/

namespace PeerScopes

variable {H : Type} [DecidableEq H] {c : Codec H}

/-- A handle is registered and passed on. -/
def registered (s : PeerScopes) (id : PeerId) (ref : ActorRef) : PeerScopes :=
  { s with peers := s.peers.insert id ref }.emitWithoutTorrentViewChange (.peerConnected ref)

@[simp] theorem peers_emit (s : PeerScopes) (e : PeerScopeEvent) :
    (s.emitWithoutTorrentViewChange e).peers = s.peers := by
  unfold emitWithoutTorrentViewChange
  split <;> rfl

@[simp] theorem closed_emit (s : PeerScopes) (e : PeerScopeEvent) :
    (s.emitWithoutTorrentViewChange e).closed = s.closed := by
  unfold emitWithoutTorrentViewChange
  split <;> rfl

@[simp] theorem isRegistered_emit (s : PeerScopes) (e : PeerScopeEvent) :
    (s.emitWithoutTorrentViewChange e).isRegistered = s.isRegistered := by
  unfold emitWithoutTorrentViewChange
  split <;> rfl

/-- An event about a handle is passed on where the torrent is registered. -/
theorem about_emit (s : PeerScopes) (e : PeerScopeEvent) (ref : ActorRef) :
    (s.emitWithoutTorrentViewChange e).about ref =
      if e.handle = ref ∧ s.isRegistered = true then s.about ref ++ [e] else s.about ref := by
  unfold emitWithoutTorrentViewChange
  by_cases hregistered : s.isRegistered = true
  · rw [if_pos hregistered, about, List.filter_append]
    by_cases href : e.handle = ref
    · simp [about, href, hregistered]
    · simp [about, href]
  · rw [if_neg hregistered, if_neg fun h => hregistered h.2]

/-- **What a message does to the handles**: nothing, or a handle is registered, or one is closed. -/
theorem handle_cases (s : PeerScopes) (torrent : TorrentActor H) (ref : ActorRef) (m : TorrentMessage c) :
    (s.handle torrent ref m = s ∧
      (∀ id new, m = .peerConnected (some id) new → torrent.peers.get? id ≠ none) ∧
      ∀ id, m.ends = some id → ref ∈ s.closed ∨ torrent.peers.get? id = none) ∨
    (∃ id new, m = .peerConnected (some id) new ∧ torrent.peers.get? id = none ∧
      s.handle torrent ref m = s.registered id new) ∨
    ∃ id, m.ends = some id ∧ ref ∉ s.closed ∧
      s.handle torrent ref m = { s with closed := ref :: s.closed }.markPeerDisconnected id ref := by
  have hcontains : ∀ id, torrent.peers.contains id = true ↔ torrent.peers.get? id ≠ none := by
    intro id
    rw [HashMap.contains, Option.isSome_iff_ne_none]
  cases m with
  | peerConnected id? new =>
      cases id? with
      | none =>
          refine .inl ⟨rfl, ?_, ?_⟩
          · rintro id' new' ⟨⟩
          · rintro id' ⟨⟩
      | some id =>
          by_cases hfree : torrent.peers.contains id = true
          · refine .inl ⟨if_pos hfree, ?_, ?_⟩
            · rintro id' new' ⟨⟩
              exact (hcontains id).1 hfree
            · rintro id' ⟨⟩
          · refine .inr (.inl ⟨id, new, rfl, ?_, ?_⟩)
            · by_contra hsome
              exact hfree ((hcontains id).2 hsome)
            · have hlisted : (s.registerPeerScope id new).peers.contains id = true := by
                rw [registerPeerScope, HashMap.contains, HashMap.get?_insert_self]
                rfl
              exact (if_neg hfree).trans (if_pos hlisted)
  | killPeer id env =>
      by_cases hclosed : ref ∈ s.closed
      · refine .inl ⟨if_pos hclosed, ?_, fun _ _ => .inl hclosed⟩
        rintro id' new' ⟨⟩
      · exact .inr (.inr ⟨id, rfl, hclosed, if_neg hclosed⟩)
  | disconnectPeer id env =>
      by_cases hfree : torrent.peers.contains id = true
      · by_cases hclosed : ref ∈ s.closed
        · refine .inl ⟨(if_pos hfree).trans (if_pos hclosed), ?_, fun _ _ => .inl hclosed⟩
          rintro id' new' ⟨⟩
        · exact .inr (.inr ⟨id, rfl, hclosed, (if_pos hfree).trans (if_neg hclosed)⟩)
      · refine .inl ⟨if_neg hfree, ?_, ?_⟩
        · rintro id' new' ⟨⟩
        · rintro id' ⟨⟩
          right
          by_contra hsome
          exact hfree ((hcontains id).2 hsome)
  | _ =>
      refine .inl ⟨rfl, ?_, ?_⟩
      · rintro id' new' ⟨⟩
      · rintro id' ⟨⟩

theorem mem_peerHandles {s : PeerScopes} {ref : ActorRef} :
    ref ∈ s.peerHandles ↔ (∃ id, s.peers.get? id = some ref) ∧ ref ∉ s.closed := by
  unfold peerHandles
  rw [List.mem_filter, List.mem_map]
  constructor
  · rintro ⟨⟨⟨id, ref'⟩, hmem, rfl⟩, hopen⟩
    exact ⟨⟨id, HashMap.mem_toList_iff.1 hmem⟩, of_decide_eq_true hopen⟩
  · rintro ⟨⟨id, hget⟩, hopen⟩
    exact ⟨⟨(id, ref), HashMap.mem_toList_iff.2 hget, rfl⟩, decide_eq_true hopen⟩

end PeerScopes

/-! ### What a message does to the connections -/

namespace TorrentActor

variable {H : Type} [DecidableEq H] {c : Codec H} {s : TorrentActor H} {i : Input c}

omit [DecidableEq H] in
theorem peers_removePeer (s : TorrentActor H) (id : PeerId) : (s.removePeer id).1.peers.get? id = none := by
  unfold removePeer
  cases hget : s.peers.get? id with
  | none => exact hget
  | some ref => exact HashMap.get?_erase_self _ _

/-- A message that ends a connection leaves none under its id. -/
theorem peers_step_of_ends {id : PeerId} (h : i.message.ends = some id) : (s.step i).peers.get? id = none := by
  unfold step
  cases hm : i.message with
  | killPeer id' env =>
      rw [hm] at h
      cases h
      change (((s.next i.check).removePeer id).1.fillAllPeerRequestWindows env).peers.get? id = none
      rw [(requesting_fillAllPeerRequestWindows env _).peers]
      exact peers_removePeer _ id
  | disconnectPeer id' env =>
      rw [hm] at h
      cases h
      change (if ((s.next i.check).removePeer id).2 then
        ((s.next i.check).removePeer id).1.fillAllPeerRequestWindows env
        else ((s.next i.check).removePeer id).1).peers.get? id = none
      split
      · rw [(requesting_fillAllPeerRequestWindows env _).peers]
        exact peers_removePeer _ id
      · exact peers_removePeer _ id
  | _ =>
      rw [hm] at h
      cases h

/-- A peer that connects under a free id is registered. -/
theorem peers_step_of_connects {id : PeerId} {ref : ActorRef} (h : i.message = .peerConnected (some id) ref)
    (hfree : s.peers.get? id = none) : (s.step i).peers.get? id = some ref := by
  have hnone : (s.next i.check).peers.contains id = false := by
    rw [peers_next, HashMap.contains, hfree]
    rfl
  rw [step, h]
  change ((s.next i.check).insertPeer (some id) ref).peers.get? id = some ref
  simp only [insertPeer, hnone, Bool.false_eq_true, if_false]
  exact HashMap.get?_insert_self _ _ _

end TorrentActor

namespace LiveSwarm

variable {H : Type} [DecidableEq H] {c : Codec H} {s t : LiveSwarm H} {i : LiveSwarmInput c}

/-- Whoever speaks for a peer is an actor made for it. -/
def Spoken (s : LiveSwarm H) : Prop := ∀ m ∈ s.swarm.inbox, ∀ id, m.2.speaksFor = some id → s.owner m.1 = some id

/-- **Every way in which a step changes connections and handles.** -/
inductive Moves (s : LiveSwarm H) (i : LiveSwarmInput c) (t : LiveSwarm H) : Prop
  | names (hnone : s.nextMessage i = none) (howner : t.owner = s.owner) (hswarm : t.swarm = s.swarm)
      (hscopes : t.scopes = s.scopes.registerTorrentScope)
  | drops (howner : t.owner = s.owner)
      (hpeers : ∀ id ref, t.swarm.torrent.peers.get? id = some ref → s.swarm.torrent.peers.get? id = some ref)
      (hscopes : t.scopes = s.scopes)
      (hends : ∀ id, s.Closes i id → s.swarm.torrent.peers.get? id = none)
  | registers {id : PeerId} {ref : ActorRef} (hconnects : s.nextMessage i = some (.peerConnected (some id) ref))
      (hfree : s.swarm.torrent.peers.get? id = none)
      (hfresh : s.owner ref = none) (howner : t.owner = Function.update s.owner ref (some id))
      (hpeers : ∀ id', t.swarm.torrent.peers.get? id' =
        if id' = id then some ref else s.swarm.torrent.peers.get? id')
      (hscopes : t.scopes = s.scopes.registered id ref)
  | ends {id : PeerId} {ref : ActorRef} (hcloses : s.Closes i id) (hopen : ref ∉ s.scopes.closed)
      (hown : s.owner ref = some id) (howner : t.owner = s.owner)
      (hpeers : ∀ id ref, t.swarm.torrent.peers.get? id = some ref → s.swarm.torrent.peers.get? id = some ref)
      (hgone : t.swarm.torrent.peers.get? id = none)
      (hscopes : t.scopes = { s.scopes with closed := ref :: s.scopes.closed }.markPeerDisconnected id ref)

omit [DecidableEq H] in
/-- Actors that are there keep their ids. -/
theorem owner_congr {ps qs : Processes} (h : ps.Grow qs) (ref : ActorRef) :
    (qs ref).map (fun p => p.actor.id) = (ps ref).map fun p => p.actor.id := by
  cases hp : ps ref with
  | none =>
      cases hq : qs ref with
      | none => rfl
      | some q =>
          obtain ⟨p, hp', -⟩ := h.of_some' hq
          cases hp.symm.trans hp'
  | some p =>
      obtain ⟨q, hq, hgrows⟩ := h.of_some hp
      rw [hq, Option.map_some, Option.map_some, hgrows.actor]

/-- A message that ends a connection comes with a handle of it. -/
theorem owner_handleOf (hs : s.Spoken) {input : SwarmInput c} {handle : ActorRef}
    (hadmits : s.Admits (.swarm input handle)) {m : TorrentMessage c} (hm : s.swarm.nextMessage input = some m)
    {id : PeerId} (hends : m.ends = some id) (happly : s.swarm.apply input ≠ none) :
    s.owner (s.handleOf input handle) = some id := by
  cases m with
  | killPeer id' env =>
      cases hends
      cases input with
      | outside j =>
          have hj : j.message = .killPeer id env := Option.some.inj hm
          have hfrom : j.message.isFromPeer = true := by
            rw [hj]
            rfl
          exact absurd (if_pos hfrom) happly
      | deliver env' =>
          obtain ⟨⟨ref, e⟩, hhead, he⟩ := Option.map_eq_some_iff.1 hm
          have hmem : (ref, e) ∈ s.swarm.inbox := List.mem_of_head? hhead
          have hspeaks : e.speaksFor = some id := by
            cases e with
            | killPeer id' =>
                cases he
                rfl
            | _ => cases he
          have hhandle : s.handleOf (.deliver env' : SwarmInput c) handle = ref := by
            simp [handleOf, hhead]
          rw [hhandle]
          exact hs (ref, e) hmem id hspeaks
      | peer ref j => cases hm
  | disconnectPeer id' env =>
      cases hends
      exact hadmits.handle input handle id env rfl hm
  | _ => cases hends

/-- **Every step moves connections and handles in one of these ways.** -/
theorem moves_of_step (hs : s.Spoken) (hadmits : s.Admits i) (happly : s.apply i = some t) : Moves s i t := by
  cases i with
  | registerTorrentScope =>
      cases happly
      exact .names rfl rfl rfl rfl
  | swarm input handle =>
      obtain ⟨u, hu, rfl⟩ := Option.map_eq_some_iff.1 happly
      have hsome : s.swarm.apply input ≠ none := by
        rw [hu]
        exact Option.some_ne_none u
      rcases (Swarm.moves_of_apply hu).cases with ⟨j, rest, hm, -, rfl⟩ | ⟨ref, j, p, q, es, rfl, hp, hacts, rfl⟩
      · have hscopes : ((s.swarm.nextMessage input).map
            (s.scopes.handle s.swarm.torrent (s.handleOf input handle))).getD s.scopes =
            s.scopes.handle s.swarm.torrent (s.handleOf input handle) j.message := by
          rw [hm]
          rfl
        rw [hscopes]
        obtain ⟨new, hnew, ⟨hprocesses, hpeers⟩ | ⟨id, ref, hj, hfree, hprocesses, hpeers⟩⟩ :=
          Swarm.round_cases { s.swarm with inbox := rest } j
        · have howner : ∀ scopes, (LiveSwarm.mk ({ s.swarm with inbox := rest }.round j) scopes).owner = s.owner := by
            intro scopes
            funext ref
            rw [owner, owner, hprocesses]
            exact owner_congr (Processes.grow_postAll hnew) ref
          rcases s.scopes.handle_cases s.swarm.torrent (s.handleOf input handle) j.message with
            ⟨heq, -, hends⟩ | ⟨id, new, hj, hfree, -⟩ | ⟨id, hends, hopen, heq⟩
          · refine .drops (howner _) hpeers heq ?_
            rintro id ⟨input', handle', m, hi, hopen, hm', hid⟩
            cases hi
            cases hm.symm.trans hm'
            exact (hends id hid).resolve_left hopen
          · have hget := hpeers id new (TorrentActor.peers_step_of_connects hj hfree)
            cases hfree.symm.trans hget
          · exact .ends ⟨input, handle, j.message, rfl, hopen, hm, hends⟩ hopen
              (owner_handleOf hs hadmits hm hends hsome) (howner _) hpeers (TorrentActor.peers_step_of_ends hends) heq
        · have hconnects : s.swarm.nextMessage input = some (.peerConnected (some id) ref) := by rw [hm, hj]
          have hfresh := (hadmits.swarm input handle rfl).fresh (some id) ref hconnects
          rcases s.scopes.handle_cases s.swarm.torrent (s.handleOf input handle) j.message with
            ⟨-, hconnects, -⟩ | ⟨id', new, hj', -, heq⟩ | ⟨id', hends, -, -⟩
          · exact absurd hfree (hconnects id ref hj)
          · cases hj.symm.trans hj'
            refine .registers hconnects hfree ?_ ?_ hpeers heq
            · rw [owner, hfresh]
              rfl
            · funext ref'
              rw [owner, hprocesses]
              by_cases href : ref' = ref
              · subst href
                rw [Function.update_self, Function.update_self]
                rfl
              · rw [Function.update_of_ne href, Function.update_of_ne href, owner]
                exact owner_congr (Processes.grow_postAll hnew) ref'
          · rw [hj] at hends
            cases hends
      · refine .drops ?_ (fun _ _ h => h) rfl ?_
        · funext ref'
          by_cases href : ref' = ref
          · subst href
            rw [owner, owner, s.swarm.processes_report_self, hp, Option.map_some, Option.map_some, hacts.id]
          · rw [owner, owner, s.swarm.processes_report_of_ne q es href]
        · rintro id ⟨input', handle', m, hi, -, hm, -⟩
          cases hi
          cases hm

/-- Whoever speaks goes on to be an actor made for its peer. -/
theorem Spoken.step (hs : s.Spoken) (hadmits : s.Admits i) (happly : s.apply i = some t) : t.Spoken := by
  have howner : ∀ ref id, s.owner ref = some id → t.owner ref = some id := by
    intro ref id hown
    cases moves_of_step hs hadmits happly with
    | names _ howner => rw [howner, hown]
    | drops howner => rw [howner, hown]
    | ends _ _ _ howner => rw [howner, hown]
    | @registers id' ref' _ _ hfresh howner =>
        have hne : ref ≠ ref' := by
          rintro rfl
          cases hfresh.symm.trans hown
        rw [howner, Function.update_of_ne hne, hown]
  cases i with
  | registerTorrentScope =>
      cases happly
      exact hs
  | swarm input handle =>
      obtain ⟨u, hu, rfl⟩ := Option.map_eq_some_iff.1 happly
      rcases (Swarm.moves_of_apply hu).cases with ⟨j, rest, -, hrest, rfl⟩ | ⟨ref, j, p, q, es, -, hp, hacts, rfl⟩
      · intro m hm id hspeaks
        exact howner _ _ (hs m (hrest.subset hm) id hspeaks)
      · intro m hm id hspeaks
        rcases List.mem_append.1 hm with hm | hm
        · exact howner _ _ (hs m hm id hspeaks)
        · obtain ⟨e, he, rfl⟩ := List.mem_map.1 hm
          refine howner _ _ ?_
          rw [owner, hp, Option.map_some, hacts.sender e he id (PeerEvent.sender_of_speaksFor hspeaks)]

/-! ### What holds in every run -/

/-- Connected peers are listed, and what has been passed on about a handle. -/
structure Sound (s : LiveSwarm H) : Prop where
  spoken : s.Spoken
  hosted : ∀ id ref, s.swarm.torrent.peers.get? id = some ref → s.owner ref = some id
  listed : ∀ id ref, s.swarm.torrent.peers.get? id = some ref →
    s.scopes.peers.get? id = some ref ∧ ref ∉ s.scopes.closed
  unmade : ∀ ref, s.owner ref = none → ref ∉ s.scopes.closed ∧ s.scopes.about ref = []
  life : ∀ ref id, s.owner ref = some id → (s.scopes.about ref).Sublist [.peerConnected ref] ∨
    (ref ∈ s.scopes.closed ∧ (s.scopes.about ref).Sublist [.peerConnected ref, .peerDisconnected ref])

/-- What is passed on about a handle when one is registered. -/
theorem about_registered (scopes : PeerScopes) (id : PeerId) (ref ref' : ActorRef) :
    (scopes.registered id ref).about ref' =
      if ref = ref' ∧ scopes.isRegistered = true then scopes.about ref' ++ [.peerConnected ref]
      else scopes.about ref' :=
  PeerScopes.about_emit _ _ ref'

/-- What is passed on about a handle when one is closed. -/
theorem about_markPeerDisconnected (scopes : PeerScopes) (id : PeerId) (ref ref' : ActorRef) :
    (scopes.markPeerDisconnected id ref).about ref' =
      if (ref = ref' ∧ scopes.isRegistered = true) ∧ scopes.peers.get? id ≠ none
      then scopes.about ref' ++ [.peerDisconnected ref] else scopes.about ref' := by
  unfold PeerScopes.markPeerDisconnected
  cases scopes.peers.get? id with
  | none => simp
  | some old =>
      change PeerScopes.about (PeerScopes.emitWithoutTorrentViewChange _ _) ref' = _
      rw [PeerScopes.about_emit]
      exact if_congr (and_iff_left (Option.some_ne_none old)).symm rfl rfl

theorem closed_markPeerDisconnected (scopes : PeerScopes) (id : PeerId) (ref : ActorRef) :
    (scopes.markPeerDisconnected id ref).closed = scopes.closed := by
  unfold PeerScopes.markPeerDisconnected
  cases scopes.peers.get? id with
  | none => rfl
  | some old => exact PeerScopes.closed_emit _ _

theorem closed_registered (scopes : PeerScopes) (id : PeerId) (ref : ActorRef) :
    (scopes.registered id ref).closed = scopes.closed :=
  PeerScopes.closed_emit _ _

theorem isRegistered_markPeerDisconnected (scopes : PeerScopes) (id : PeerId) (ref : ActorRef) :
    (scopes.markPeerDisconnected id ref).isRegistered = scopes.isRegistered := by
  unfold PeerScopes.markPeerDisconnected
  cases scopes.peers.get? id with
  | none => rfl
  | some old => exact PeerScopes.isRegistered_emit _ _

theorem peers_markPeerDisconnected (scopes : PeerScopes) (id id' : PeerId) (ref : ActorRef) :
    (scopes.markPeerDisconnected id ref).peers.get? id' = if id' = id then none else scopes.peers.get? id' := by
  unfold PeerScopes.markPeerDisconnected
  cases hget : scopes.peers.get? id with
  | none =>
      by_cases hid : id' = id
      · rw [if_pos hid, hid, hget]
      · rw [if_neg hid]
  | some old =>
      change (PeerScopes.emitWithoutTorrentViewChange _ _).peers.get? id' = _
      rw [PeerScopes.peers_emit]
      exact HashMap.get?_erase _ _ _

/-- **Every step keeps what is listed and what has been passed on in order.** -/
theorem Sound.step (hs : s.Sound) (hadmits : s.Admits i) (happly : s.apply i = some t) : t.Sound := by
  have hspoken := hs.spoken.step hadmits happly
  cases moves_of_step hs.spoken hadmits happly with
  | names _ howner hswarm hscopes =>
      refine ⟨hspoken, ?_, ?_, ?_, ?_⟩
      · rw [howner, hswarm]
        exact hs.hosted
      · rw [hswarm, hscopes]
        exact hs.listed
      · rw [howner, hscopes]
        exact hs.unmade
      · rw [howner, hscopes]
        exact hs.life
  | drops howner hpeers hscopes _ =>
      refine ⟨hspoken, ?_, ?_, ?_, ?_⟩
      · intro id ref hget
        rw [howner]
        exact hs.hosted id ref (hpeers id ref hget)
      · intro id ref hget
        rw [hscopes]
        exact hs.listed id ref (hpeers id ref hget)
      · rw [howner, hscopes]
        exact hs.unmade
      · rw [howner, hscopes]
        exact hs.life
  | @registers id ref _ hfree hfresh howner hpeers hscopes =>
      have hne : ∀ ref' id', s.owner ref' = some id' → ref' ≠ ref := by
        rintro ref' id' hown rfl
        cases hfresh.symm.trans hown
      refine ⟨hspoken, ?_, ?_, ?_, ?_⟩
      · intro id' ref' hget
        rw [hpeers] at hget
        split at hget
        · rename_i hid
          cases hget
          rw [howner, Function.update_self, hid]
        · have hown := hs.hosted id' ref' hget
          rw [howner, Function.update_of_ne (hne ref' id' hown), hown]
      · intro id' ref' hget
        rw [hpeers] at hget
        rw [hscopes, closed_registered, PeerScopes.registered, PeerScopes.peers_emit, HashMap.get?_insert]
        split at hget
        · rename_i hid
          cases hget
          rw [if_pos hid]
          exact ⟨rfl, (hs.unmade ref hfresh).1⟩
        · rename_i hid
          rw [if_neg hid]
          exact hs.listed id' ref' hget
      · intro ref' hnone
        have href : ref ≠ ref' := by
          rintro rfl
          rw [howner, Function.update_self] at hnone
          cases hnone
        rw [howner, Function.update_of_ne href.symm] at hnone
        rw [hscopes, about_registered, if_neg fun h => href h.1, closed_registered]
        exact hs.unmade ref' hnone
      · intro ref' id' hown
        rw [hscopes, about_registered, closed_registered]
        by_cases href : ref = ref'
        · subst href
          rw [(hs.unmade ref hfresh).2]
          left
          split
          · exact .refl _
          · exact List.nil_sublist _
        · rw [howner, Function.update_of_ne (Ne.symm href)] at hown
          rw [if_neg fun h => href h.1]
          exact hs.life ref' id' hown
  | @ends id ref _ hopen hown howner hpeers hgone hscopes =>
      refine ⟨hspoken, ?_, ?_, ?_, ?_⟩
      · intro id' ref' hget
        rw [howner]
        exact hs.hosted id' ref' (hpeers id' ref' hget)
      · intro id' ref' hget
        have hbefore := hpeers id' ref' hget
        obtain ⟨hlisted, hopen'⟩ := hs.listed id' ref' hbefore
        have hid : id' ≠ id := by
          rintro rfl
          cases hgone.symm.trans hget
        -- the handle that is closed is not that of a peer under another id
        have href : ref' ≠ ref := by
          rintro rfl
          exact hid (Option.some.inj ((hs.hosted id' ref' hbefore).symm.trans hown))
        rw [hscopes, peers_markPeerDisconnected, closed_markPeerDisconnected, if_neg hid]
        refine ⟨hlisted, ?_⟩
        simp only [List.mem_cons, not_or]
        exact ⟨href, hopen'⟩
      · intro ref' hnone
        rw [howner] at hnone
        have href : ref ≠ ref' := by
          rintro rfl
          cases hnone.symm.trans hown
        obtain ⟨hopen', habout⟩ := hs.unmade ref' hnone
        rw [hscopes, about_markPeerDisconnected, closed_markPeerDisconnected, if_neg fun h => href h.1.1]
        refine ⟨?_, habout⟩
        simp only [List.mem_cons, not_or]
        exact ⟨href.symm, hopen'⟩
      · intro ref' id' hown'
        rw [howner] at hown'
        have hlife := hs.life ref' id' hown'
        rw [hscopes, about_markPeerDisconnected, closed_markPeerDisconnected]
        split
        · rename_i htold
          obtain ⟨⟨rfl, -⟩, -⟩ := htold
          have habout := hlife.resolve_right fun h => hopen h.1
          exact .inr ⟨List.mem_cons_self, habout.append_right [.peerDisconnected ref]⟩
        · rcases hlife with habout | ⟨hclosed, habout⟩
          · exact .inl habout
          · exact .inr ⟨List.mem_cons_of_mem _ hclosed, habout⟩

theorem sound_of_reach {G : LiveSwarm H → LiveSwarmInput c → Prop} (h : (liveSwarmSystem c).Reach G s) : s.Sound := by
  refine h.invariant ?_ ?_
  · rintro s ⟨⟨⟨args, disk, hstart⟩, hprocesses, hinbox, -⟩, hscopes⟩
    have hnobody : ∀ ref, s.owner ref = none := by
      intro ref
      rw [owner, hprocesses]
      rfl
    obtain ⟨hash, -, heq⟩ := Option.map_eq_some_iff.1 hstart
    have hnone : ∀ id, s.swarm.torrent.peers.get? id = none := by
      intro id
      rw [← heq]
      rfl
    refine ⟨?_, ?_, ?_, ?_, ?_⟩
    · intro m hm
      rw [hinbox] at hm
      cases hm
    · intro id ref hget
      cases (hnone id).symm.trans hget
    · intro id ref hget
      cases (hnone id).symm.trans hget
    · intro ref _
      rw [hscopes]
      exact ⟨List.not_mem_nil, rfl⟩
    · intro ref id hown
      cases (hnobody ref).symm.trans hown
  · rintro s i t hs - ⟨hadmits, happly⟩
    exact hs.step hadmits happly

/-! ### Open handles of connected peers -/

/-- **A step leaves every open handle a connected peer exactly if it drops no other.** -/
theorem Sound.openConnected_step_iff (hs : s.Sound) (hopen : s.OpenConnected) (hadmits : s.Admits i)
    (happly : s.apply i = some t) : t.OpenConnected ↔ ¬ s.LeavesOpen i := by
  have hmoves := moves_of_step hs.spoken hadmits happly
  constructor
  · rintro ht ⟨t', id, ref, happly', hget, hgone, hnot⟩
    cases happly.symm.trans happly'
    have hown := hs.hosted id ref hget
    obtain ⟨-, hstill⟩ := hs.listed id ref hget
    have hafter : t.owner ref = some id ∧ ref ∉ t.scopes.closed := by
      cases hmoves with
      | names _ howner _ hscopes =>
          rw [howner, hscopes]
          exact ⟨hown, hstill⟩
      | drops howner _ hscopes _ =>
          rw [howner, hscopes]
          exact ⟨hown, hstill⟩
      | @registers id' ref' _ _ hfresh howner _ hscopes =>
          have hne : ref ≠ ref' := by
            rintro rfl
            cases hfresh.symm.trans hown
          rw [howner, Function.update_of_ne hne, hscopes, closed_registered]
          exact ⟨hown, hstill⟩
      | @ends id' ref' hcloses _ hown' howner _ _ hscopes =>
          rw [howner, hscopes, closed_markPeerDisconnected]
          refine ⟨hown, ?_⟩
          simp only [List.mem_cons, not_or]
          refine ⟨?_, hstill⟩
          rintro rfl
          cases hown.symm.trans hown'
          exact hnot hcloses
    cases (ht ref id hafter.1 hafter.2).symm.trans hgone
  · intro hnot ref id hown hstill
    -- a peer that was connected and is not any more had its handle closed
    have hkept : s.swarm.torrent.peers.get? id = some ref →
        (∀ ref', t.swarm.torrent.peers.get? id = some ref' → s.swarm.torrent.peers.get? id = some ref') →
        (s.Closes i id → s.swarm.torrent.peers.get? id = some ref → False) →
        t.swarm.torrent.peers.get? id = some ref := by
      intro hget hshrinks hcloses
      cases hgone : t.swarm.torrent.peers.get? id with
      | none => exact absurd ⟨t, id, ref, happly, hget, hgone, fun h => hcloses h hget⟩ hnot
      | some ref' => exact (hshrinks ref' hgone).symm.trans hget
    cases hmoves with
    | names _ howner hswarm hscopes =>
        rw [howner] at hown
        rw [hscopes] at hstill
        rw [hswarm]
        exact hopen ref id hown hstill
    | drops howner hpeers hscopes hends =>
        rw [howner] at hown
        rw [hscopes] at hstill
        refine hkept (hopen ref id hown hstill) (hpeers id) fun h hget => ?_
        cases (hends id h).symm.trans hget
    | @registers id' ref' _ hfree hfresh howner hpeers hscopes =>
        rw [hpeers]
        by_cases href : ref = ref'
        · subst href
          rw [howner, Function.update_self] at hown
          cases hown
          exact if_pos rfl
        · rw [howner, Function.update_of_ne href] at hown
          rw [hscopes, closed_registered] at hstill
          have hget := hopen ref id hown hstill
          have hne : id ≠ id' := by
            rintro rfl
            cases hfree.symm.trans hget
          rw [if_neg hne]
          exact hget
    | @ends id' ref' hcloses hopen' hown' howner hpeers hgone hscopes =>
        rw [howner] at hown
        rw [hscopes, closed_markPeerDisconnected] at hstill
        simp only [List.mem_cons, not_or] at hstill
        refine hkept (hopen ref id hown hstill.2) (hpeers id) fun h hget => ?_
        obtain ⟨input, handle, m, hi, -, hm, hid⟩ := h
        obtain ⟨input', handle', m', hi', -, hm', hid'⟩ := hcloses
        cases hi.symm.trans hi'
        cases hm.symm.trans hm'
        cases hid.symm.trans hid'
        -- the handle that is closed is that of the connected peer
        exact hstill.1 (Option.some.inj (hget.symm.trans (hopen ref' id hown' hopen')))

theorem openConnected_of_reach (h : (liveSwarmSystem c).Reach (fun s i => ¬ s.LeavesOpen i) s) : s.OpenConnected := by
  refine h.strengthen (fun s h => sound_of_reach h) ?_ ?_
  · rintro s ⟨⟨-, hprocesses, -⟩, -⟩ ref id hown
    rw [owner, hprocesses] at hown
    cases hown
  · rintro s i t hs hopen hkeeps ⟨hadmits, happly⟩
    exact (hs.openConnected_step_iff hopen hadmits happly).2 hkeeps

omit [DecidableEq H] in
theorem Sound.mem_peerHandles (hs : s.Sound) {id : PeerId} {ref : ActorRef}
    (hget : s.swarm.torrent.peers.get? id = some ref) : ref ∈ s.scopes.peerHandles :=
  PeerScopes.mem_peerHandles.2 ⟨⟨id, (hs.listed id ref hget).1⟩, (hs.listed id ref hget).2⟩

omit [DecidableEq H] in
/-- The handles that are listed are those of the connected peers. -/
theorem Sound.mem_peerHandles_iff (hs : s.Sound) (hopen : s.OpenConnected) {ref : ActorRef} {id : PeerId}
    (hown : s.owner ref = some id) : ref ∈ s.scopes.peerHandles ↔ s.swarm.torrent.peers.get? id = some ref := by
  constructor
  · intro hmem
    exact hopen ref id hown (PeerScopes.mem_peerHandles.1 hmem).2
  · exact hs.mem_peerHandles

/-! ### What is passed on -/

omit [DecidableEq H] in
theorem Sound.about_sublist (hs : s.Sound) (ref : ActorRef) :
    (s.scopes.about ref).Sublist [.peerConnected ref, .peerDisconnected ref] := by
  cases hown : s.owner ref with
  | none =>
      rw [(hs.unmade ref hown).2]
      exact List.nil_sublist _
  | some id =>
      rcases hs.life ref id hown with habout | ⟨-, habout⟩
      · exact habout.trans (List.sublist_append_left [PeerScopeEvent.peerConnected ref] _)
      · exact habout

/-- **A handle is passed on as connected exactly if the torrent is registered when the peer connects.** -/
theorem Sound.peerConnected_mem_step (hs : s.Sound) (hadmits : s.Admits i) (happly : s.apply i = some t)
    {ref : ActorRef} {id : PeerId} (hown : t.owner ref = some id) :
    .peerConnected ref ∈ t.scopes.about ref ↔
      .peerConnected ref ∈ s.scopes.about ref ∨ (s.owner ref = none ∧ s.scopes.isRegistered = true) := by
  cases moves_of_step hs.spoken hadmits happly with
  | names _ howner _ hscopes =>
      rw [howner] at hown
      rw [hscopes, hown]
      exact (or_iff_left fun h => nomatch h.1).symm
  | drops howner _ hscopes _ =>
      rw [howner] at hown
      rw [hscopes, hown]
      exact (or_iff_left fun h => nomatch h.1).symm
  | @registers id' ref' _ _ hfresh howner _ hscopes =>
      rw [hscopes, about_registered]
      by_cases href : ref' = ref
      · subst href
        rw [(hs.unmade ref' hfresh).2, hfresh]
        cases s.scopes.isRegistered <;> simp
      · rw [howner, Function.update_of_ne (Ne.symm href)] at hown
        rw [if_neg fun h => href h.1, hown]
        exact (or_iff_left fun h => nomatch h.1).symm
  | @ends id' ref' _ _ _ howner _ _ hscopes =>
      rw [howner] at hown
      rw [hscopes, about_markPeerDisconnected, hown]
      change .peerConnected ref ∈ (if _ then s.scopes.about ref ++ _ else s.scopes.about ref) ↔ _
      split <;> simp

/-- While no peer connects early, every handle has been passed on as connected. -/
structure Announced (s : LiveSwarm H) : Prop where
  sound : s.Sound
  registered : ∀ ref id, s.owner ref = some id → s.scopes.isRegistered = true
  connected : ∀ ref id, s.owner ref = some id → .peerConnected ref ∈ s.scopes.about ref

theorem Announced.step (hs : s.Announced) (hlate : ¬ s.ConnectsEarly i) (hadmits : s.Admits i)
    (happly : s.apply i = some t) : t.Announced := by
  have hregistered : ∀ ref id, t.owner ref = some id → s.scopes.isRegistered = true ∧
      (s.owner ref = none ∨ s.owner ref = some id) := by
    intro ref id hown
    cases moves_of_step hs.sound.spoken hadmits happly with
    | names _ howner =>
        rw [howner] at hown
        exact ⟨hs.registered ref id hown, .inr hown⟩
    | drops howner =>
        rw [howner] at hown
        exact ⟨hs.registered ref id hown, .inr hown⟩
    | ends _ _ _ howner =>
        rw [howner] at hown
        exact ⟨hs.registered ref id hown, .inr hown⟩
    | @registers id' ref' hconnects hfree hfresh howner =>
        by_cases href : ref = ref'
        · subst href
          refine ⟨?_, .inl hfresh⟩
          by_contra hnot
          exact hlate ⟨Bool.eq_false_of_not_eq_true hnot, id', ref, hconnects, hfree⟩
        · rw [howner, Function.update_of_ne href] at hown
          exact ⟨hs.registered ref id hown, .inr hown⟩
  refine ⟨hs.sound.step hadmits happly, ?_, ?_⟩
  · intro ref id hown
    have hbefore := (hregistered ref id hown).1
    cases moves_of_step hs.sound.spoken hadmits happly with
    | names _ _ _ hscopes =>
        rw [hscopes]
        rfl
    | drops _ _ hscopes _ => rw [hscopes, hbefore]
    | registers _ _ _ _ _ hscopes => rw [hscopes, PeerScopes.registered, PeerScopes.isRegistered_emit, hbefore]
    | ends _ _ _ _ _ _ hscopes => rw [hscopes, isRegistered_markPeerDisconnected, hbefore]
  · intro ref id hown
    obtain ⟨hbefore, hnone | hown'⟩ := hregistered ref id hown
    · exact (hs.sound.peerConnected_mem_step hadmits happly hown).2 (.inr ⟨hnone, hbefore⟩)
    · exact (hs.sound.peerConnected_mem_step hadmits happly hown).2 (.inl (hs.connected ref id hown'))

theorem announced_of_reach (h : (liveSwarmSystem c).Reach (fun s i => ¬ s.ConnectsEarly i) s) : s.Announced := by
  refine h.invariant ?_ ?_
  · rintro s hinit
    have hsound : s.Sound := sound_of_reach (c := c) (.init hinit : (liveSwarmSystem c).Reach (fun _ _ => True) s)
    obtain ⟨⟨-, hprocesses, -⟩, -⟩ := hinit
    have hnobody : ∀ ref id, s.owner ref ≠ some id := by
      intro ref id hown
      rw [owner, hprocesses] at hown
      cases hown
    exact ⟨hsound, fun ref id hown => absurd hown (hnobody ref id), fun ref id hown => absurd hown (hnobody ref id)⟩
  · rintro s i t hs hlate ⟨hadmits, happly⟩
    exact hs.step hlate hadmits happly

omit [DecidableEq H] in
/-- A part of what can be passed on that has the first event is a beginning of it. -/
theorem Announced.about_cases (hs : s.Announced) {ref : ActorRef} {id : PeerId} (hown : s.owner ref = some id) :
    s.scopes.about ref = [.peerConnected ref] ∨
      s.scopes.about ref = [.peerConnected ref, .peerDisconnected ref] := by
  have hmem := hs.connected ref id hown
  have hsublist := hs.sound.about_sublist ref
  rcases List.sublist_cons_iff.1 hsublist with hrest | ⟨rest, heq, hrest⟩
  · have hother := hrest.subset hmem
    simp at hother
  · rcases List.sublist_singleton.1 hrest with rfl | rfl
    · exact .inl heq
    · exact .inr heq

omit [DecidableEq H] in
theorem Announced.about_beginning (hs : s.Announced) (ref : ActorRef) :
    s.scopes.about ref <+: [.peerConnected ref, .peerDisconnected ref] := by
  cases hown : s.owner ref with
  | none =>
      rw [(hs.sound.unmade ref hown).2]
      exact List.nil_prefix
  | some id =>
      rcases hs.about_cases hown with habout | habout
      · rw [habout]
        exact ⟨[.peerDisconnected ref], rfl⟩
      · rw [habout]

/-- What the handles tell while every open one is that of a connected peer, and none connects early. -/
structure Faithful (s : LiveSwarm H) : Prop where
  announced : s.Announced
  connected : s.OpenConnected
  ended : ∀ ref id, s.owner ref = some id → ref ∈ s.scopes.closed → .peerDisconnected ref ∈ s.scopes.about ref

theorem Faithful.step (hs : s.Faithful) (hkeeps : ¬ s.LeavesOpen i) (hlate : ¬ s.ConnectsEarly i)
    (hadmits : s.Admits i) (happly : s.apply i = some t) : t.Faithful := by
  have hsound := hs.announced.sound
  refine ⟨hs.announced.step hlate hadmits happly, ?_, ?_⟩
  · exact (hsound.openConnected_step_iff hs.connected hadmits happly).2 hkeeps
  · cases moves_of_step hsound.spoken hadmits happly with
    | names _ howner _ hscopes =>
        rw [howner, hscopes]
        exact hs.ended
    | drops howner _ hscopes _ =>
        rw [howner, hscopes]
        exact hs.ended
    | @registers id ref _ _ hfresh howner _ hscopes =>
        intro ref' id' hown hclosed
        rw [hscopes, closed_registered] at hclosed
        have href : ref ≠ ref' := by
          rintro rfl
          exact (hsound.unmade ref hfresh).1 hclosed
        rw [howner, Function.update_of_ne href.symm] at hown
        rw [hscopes, about_registered, if_neg fun h => href h.1]
        exact hs.ended ref' id' hown hclosed
    | @ends id ref _ hopen hown howner _ _ hscopes =>
        intro ref' id' hown' hclosed
        rw [howner] at hown'
        rw [hscopes, closed_markPeerDisconnected] at hclosed
        rw [hscopes, about_markPeerDisconnected]
        rcases List.mem_cons.1 hclosed with rfl | hbefore
        · -- the handle was open, so its peer was connected, and so it was listed
          have hlisted := (hsound.listed id ref' (hs.connected ref' id hown hopen)).1
          rw [if_pos ⟨⟨rfl, hs.announced.registered ref' id hown⟩, Option.ne_none_iff_exists'.2 ⟨ref', hlisted⟩⟩]
          exact List.mem_append_right _ List.mem_cons_self
        · have href : ref ≠ ref' := by
            rintro rfl
            exact hopen hbefore
          rw [if_neg fun h => href h.1.1]
          exact hs.ended ref' id' hown' hbefore

theorem faithful_of_reach
    (h : (liveSwarmSystem c).Reach (fun s i => ¬ s.LeavesOpen i ∧ ¬ s.ConnectsEarly i) s) : s.Faithful := by
  refine h.invariant ?_ ?_
  · rintro s hinit
    have hannounced : s.Announced := announced_of_reach (c := c) (.init hinit)
    obtain ⟨⟨-, hprocesses, -⟩, -⟩ := hinit
    have hnobody : ∀ ref id, s.owner ref ≠ some id := by
      intro ref id hown
      rw [owner, hprocesses] at hown
      cases hown
    exact ⟨hannounced, fun ref id hown => absurd hown (hnobody ref id), fun ref id hown => absurd hown (hnobody ref id)⟩
  · rintro s i t hs ⟨hkeeps, hlate⟩ ⟨hadmits, happly⟩
    exact hs.step hkeeps hlate hadmits happly

omit [DecidableEq H] in
/-- What has been passed on says whether a handle is closed. -/
theorem Faithful.about_eq (hs : s.Faithful) {ref : ActorRef} {id : PeerId} (hown : s.owner ref = some id) :
    s.scopes.about ref =
      if ref ∈ s.scopes.closed then [.peerConnected ref, .peerDisconnected ref] else [.peerConnected ref] := by
  split
  · rename_i hclosed
    have hmem := hs.ended ref id hown hclosed
    refine (hs.announced.about_cases hown).resolve_left fun habout => ?_
    rw [habout] at hmem
    simp at hmem
  · rename_i hopen
    have hlife := (hs.announced.sound.life ref id hown).resolve_right fun h => hopen h.1
    refine (hs.announced.about_cases hown).resolve_right fun habout => ?_
    rw [habout] at hlife
    exact absurd hlife.length_le (by simp)

end LiveSwarm

/-- **A connected peer is listed, and every handle is passed on as connected and then as disconnected, at most once each:
as connected exactly if the torrent is registered with the hub when the peer connects.  A step leaves every open handle a
connected peer exactly if it drops no other; and as long as none is dropped so, the handles listed are those of the
connected peers, and where no peer connects early, what is passed on says which they are.** -/
theorem listed_peers {H : Type} [DecidableEq H] {c : Codec H} {s : LiveSwarm H}
    (h : (liveSwarmSystem c).Reach (fun _ _ => True) s) :
    (∀ id ref, s.swarm.torrent.peers.get? id = some ref → ref ∈ s.scopes.peerHandles) ∧
    (∀ ref, (s.scopes.about ref).Sublist [.peerConnected ref, .peerDisconnected ref]) ∧
    (∀ (i : LiveSwarmInput c) (t : LiveSwarm H), s.Admits i → s.apply i = some t → ∀ ref id, t.owner ref = some id →
      (.peerConnected ref ∈ t.scopes.about ref ↔
        .peerConnected ref ∈ s.scopes.about ref ∨ (s.owner ref = none ∧ s.scopes.isRegistered = true))) ∧
    ((liveSwarmSystem c).Reach (fun s i => ¬ s.ConnectsEarly i) s →
      ∀ ref, s.scopes.about ref <+: [.peerConnected ref, .peerDisconnected ref]) ∧
    (s.OpenConnected → ∀ (i : LiveSwarmInput c) (t : LiveSwarm H), s.Admits i → s.apply i = some t →
      (t.OpenConnected ↔ ¬ s.LeavesOpen i)) ∧
    ((liveSwarmSystem c).Reach (fun s i => ¬ s.LeavesOpen i) s → ∀ ref id, s.owner ref = some id →
      (ref ∈ s.scopes.peerHandles ↔ s.swarm.torrent.peers.get? id = some ref)) ∧
    ((liveSwarmSystem c).Reach (fun s i => ¬ s.LeavesOpen i ∧ ¬ s.ConnectsEarly i) s →
      ∀ ref id, s.owner ref = some id → s.scopes.about ref =
        if ref ∈ s.scopes.closed then [.peerConnected ref, .peerDisconnected ref] else [.peerConnected ref]) := by
  have hs := LiveSwarm.sound_of_reach h
  refine ⟨fun id ref => hs.mem_peerHandles, hs.about_sublist, ?_, ?_, ?_, ?_, ?_⟩
  · intro i t hadmits happly ref id hown
    exact hs.peerConnected_mem_step hadmits happly hown
  · intro hlate
    exact (LiveSwarm.announced_of_reach hlate).about_beginning
  · intro hopen i t hadmits happly
    exact hs.openConnected_step_iff hopen hadmits happly
  · intro hkept ref id hown
    exact hs.mem_peerHandles_iff (LiveSwarm.openConnected_of_reach hkept) hown
  · intro hboth ref id hown
    exact (LiveSwarm.faithful_of_reach hboth).about_eq hown

/-! ### A handle that is open, and a peer that is not there -/

/-- The torrent goes on, and nobody disconnects a peer by its handle. -/
def TorrentMessage.GoesOn {H : Type} [DecidableEq H] {c : Codec H} (m : TorrentMessage c) : Prop :=
  (∀ normal, m ≠ .stop normal) ∧ ∀ id env, m ≠ .disconnectPeer id env

/-- No message takes the torrent from the hub. -/
theorem PeerScopes.isRegistered_handle {H : Type} [DecidableEq H] {c : Codec H} (s : PeerScopes)
    (torrent : TorrentActor H) (ref : ActorRef) (m : TorrentMessage c) :
    (s.handle torrent ref m).isRegistered = s.isRegistered := by
  rcases s.handle_cases torrent ref m with ⟨heq, -⟩ | ⟨id, new, -, -, heq⟩ | ⟨id, -, -, heq⟩
  · rw [heq]
  · rw [heq, registered, isRegistered_emit]
  · rw [heq, LiveSwarm.isRegistered_markPeerDisconnected]

/-- A run of the torrent is one of the torrent with its hub, which is registered first. -/
theorem LiveSwarm.exists_scopes {H : Type} [DecidableEq H] {c : Codec H} {s : Swarm H}
    (h : (swarmSystem c).Reach (fun s i => ∀ m, s.nextMessage i = some m → m.GoesOn) s) :
    ∃ scopes, scopes.isRegistered = true ∧
      (liveSwarmSystem c).Reach (fun s i => ¬ s.ConnectsEarly i) ⟨s, scopes⟩ := by
  induction h with
  | @init s hinit =>
      have hnew : (liveSwarmSystem c).Reach (fun s i => ¬ s.ConnectsEarly i) ⟨s, ⟨false, ∅, [], []⟩⟩ :=
        .init ⟨hinit, rfl⟩
      refine ⟨PeerScopes.registerTorrentScope ⟨false, ∅, [], []⟩, rfl,
        hnew.step (i := .registerTorrentScope) ?_ ⟨?_, rfl⟩⟩
      · rintro ⟨-, id, new, hm, -⟩
        cases hm
      · refine ⟨?_, ?_, ?_⟩
        · rintro input handle ⟨⟩
        · rintro input handle id env ⟨⟩
        · rintro m ⟨⟩
  | @step s t i _ hgoes hstep ih =>
      obtain ⟨scopes, hregistered, hreach⟩ := ih
      obtain ⟨hadmits, happly⟩ := hstep
      have hadmits' : LiveSwarm.Admits ⟨s, scopes⟩ (.swarm i 0) := by
        refine ⟨?_, ?_, ?_⟩
        · rintro input handle ⟨⟩
          exact hadmits
        · rintro input handle id env ⟨⟩ hm
          exact absurd rfl ((hgoes _ hm).2 id env)
        · rintro m hm ⟨normal, rfl⟩
          exact (hgoes _ hm).1 normal rfl
      have happly' : LiveSwarm.apply ⟨s, scopes⟩ (.swarm i 0) = some ⟨t, ((s.nextMessage i).map
          (scopes.handle s.torrent (LiveSwarm.handleOf ⟨s, scopes⟩ i 0))).getD scopes⟩ := by
        rw [LiveSwarm.apply, happly]
        rfl
      refine ⟨_, ?_, .step hreach ?_ ⟨hadmits', happly'⟩⟩
      · cases s.nextMessage i with
        | none => exact hregistered
        | some m => exact (scopes.isRegistered_handle _ _ m).trans hregistered
      · rintro ⟨hnot, -⟩
        cases hregistered.symm.trans hnot

namespace Sample

theorem goesOn_connect (s : Swarm Bytes) (id : PeerId) (ref : ActorRef) (m : TorrentMessage codec)
    (hm : s.nextMessage (connect id ref) = some m) : m.GoesOn := by
  cases hm
  constructor
  · rintro normal ⟨⟩
  · rintro id' env ⟨⟩

theorem goesOn_peer (s : Swarm Bytes) (ref : ActorRef) (i : PeerInput) (m : TorrentMessage codec)
    (hm : s.nextMessage (.peer ref i) = some m) : m.GoesOn := by
  cases hm

theorem goesOn_deliver (s : Swarm Bytes) (m : TorrentMessage codec) (hm : s.nextMessage deliver = some m) :
    m.GoesOn := by
  obtain ⟨⟨ref, e⟩, -, rfl⟩ := Option.map_eq_some_iff.1 hm
  constructor
  · intro normal h
    cases e <;> cases h
  · intro id env h
    cases e <;> cases h

/-- The second farewell of an actor that has timed out is on its way, and the peer is back. -/
theorem reach_struck :
    (swarmSystem codec).Reach (fun s i => ∀ m, s.nextMessage i = some m → m.GoesOn) struck := by
  refine reach_after (reach_connect (reach_after (reach_connected (goesOn_connect _ peer 0)) (by decide +kernel) ?_)
    (goesOn_connect _ peer 1) (by decide +kernel)) (by decide +kernel) ?_
  · intro i hi
    simp only [List.mem_cons, List.not_mem_nil, or_false] at hi
    rcases hi with rfl | rfl | rfl | rfl
    · exact ⟨trivial, fun s => goesOn_peer s 0 _⟩
    · exact ⟨trivial, fun s => goesOn_peer s 0 _⟩
    · exact ⟨plain_deliver, goesOn_deliver⟩
    · exact ⟨plain_deliver, goesOn_deliver⟩
  · intro i hi
    rw [List.mem_singleton.1 hi]
    exact ⟨trivial, fun s => goesOn_peer s 0 _⟩

end Sample

open Sample in
theorem listed_peers_sample : ∃ s : LiveSwarm Bytes, (liveSwarmSystem codec).Reach (fun _ _ => True) s ∧
    s.swarm.torrent.peers.get? peer = some 1 ∧ 1 ∈ s.scopes.peerHandles ∧
    s.scopes.about 0 <+: [.peerConnected 0, .peerDisconnected 0] := by
  have hget : struck.torrent.peers.get? peer = some 1 := by decide +kernel
  obtain ⟨scopes, -, hlate⟩ := LiveSwarm.exists_scopes reach_struck
  have hreach := hlate.mono fun _ _ _ => trivial
  obtain ⟨hlisted, -, -, htold, -⟩ := listed_peers hreach
  exact ⟨_, hreach, hget, hlisted peer 1 hget, htold hlate 0⟩

open Sample in
/-- **The second farewell of an actor that has timed out leaves open the handle of a successor that it removes.** -/
theorem exists_not_openConnected :
    ∃ s : LiveSwarm Bytes, (liveSwarmSystem codec).Reach (fun _ _ => True) s ∧ ¬ s.OpenConnected := by
  have hget : struck.torrent.peers.get? peer = some 1 := by decide +kernel
  have hgone : (struck.apply deliver).map (fun u => u.torrent.peers.get? peer) = some none := by decide +kernel
  obtain ⟨scopes, -, hlate⟩ := LiveSwarm.exists_scopes reach_struck
  have hreach : (liveSwarmSystem codec).Reach (fun _ _ => True) ⟨struck, scopes⟩ := hlate.mono fun _ _ _ => trivial
  by_cases hopen : LiveSwarm.OpenConnected ⟨struck, scopes⟩
  · obtain ⟨u, hu, hnone⟩ := Option.map_eq_some_iff.1 hgone
    have hadmits : LiveSwarm.Admits ⟨struck, scopes⟩ (.swarm deliver 0) := by
      refine ⟨?_, ?_, ?_⟩
      · rintro input handle ⟨⟩
        exact plain_deliver.admits struck
      · rintro input handle id env ⟨⟩ hm
        exact absurd rfl ((goesOn_deliver struck _ hm).2 id env)
      · rintro m hm ⟨normal, rfl⟩
        exact (goesOn_deliver struck _ hm).1 normal rfl
    have happly : ∃ t, LiveSwarm.apply ⟨struck, scopes⟩ (.swarm deliver 0) = some t ∧ t.swarm = u := by
      rw [LiveSwarm.apply, hu]
      exact ⟨_, rfl, rfl⟩
    obtain ⟨t, happly, rfl⟩ := happly
    refine ⟨t, .step hreach trivial ⟨hadmits, happly⟩, ?_⟩
    rw [(LiveSwarm.sound_of_reach hreach).openConnected_step_iff hopen hadmits happly, not_not]
    refine ⟨t, peer, 1, happly, hget, hnone, ?_⟩
    -- the farewell comes with the handle of the first connection, which is over
    rintro ⟨input, handle, m, hi, hclosed, -⟩
    cases hi
    have hhandle : (struck.inbox.head?.map Prod.fst).getD 0 = 0 := by decide +kernel
    have howner : (struck.processes 0).map (fun p => p.actor.id) = some peer := by decide +kernel
    have hopen' : (0 : ActorRef) ∉ scopes.closed := fun hmem => hclosed (hhandle.symm ▸ hmem)
    cases hget.symm.trans (hopen 0 peer howner hopen')
  · exact ⟨_, hreach, hopen⟩

end Tortillas
