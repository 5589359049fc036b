/-
**A connection and its successor.**

What a peer actor tells the torrent carries the id of its peer, and the torrent looks nothing else
up.  A peer that comes back is registered under the same id, with another actor.  What the earlier
actor still has to say is then taken to be about the later one: its farewell removes and kills the
later connection, and that it is ready replaces what is known of the later connection.  An actor
that has timed out says farewell twice, so that the second farewell finds the id free for a
successor.

Main definitions:

* `PeerEvent.speaksFor` — the id a farewell or a ready message is about;
* `SparesSuccessors` — handling such a message does nothing to another connection under the id;
* `Lingers`, `ReconnectsLate` — an earlier connection is not over, and the condition that none is
  when a peer is registered.

Main results:

* `Owned.step` — whoever speaks for a registered peer is its actor;
* `removed_by_farewell` — a farewell strikes whatever is registered under its id;
* `successors_spared` — **when every connection comes after the end of the earlier ones under its
  id, no successor is taken down.**
-/

import Tortillas.SwarmRounds

set_option relaxedAutoImplicit false
set_option autoImplicit false

namespace Tortillas

/-- The id a farewell or a ready message is about. -/
def PeerEvent.speaksFor : PeerEvent → Option PeerId
  | .peerReady id _ | .killPeer id => some id
  | _ => none

theorem PeerEvent.sender_of_speaksFor {e : PeerEvent} {id : PeerId} (h : e.speaksFor = some id) :
    e.sender = some id := by
  cases e with
  | peerReady => exact h
  | killPeer => exact h
  | _ => cases h

variable {H : Type}

/-- Nothing has happened to the connection `ref` that is registered under `id`. -/
structure Untouched (id : PeerId) (ref : ActorRef) (s t : TorrentActor H) : Prop where
  registered : t.peers.get? id = some ref
  alive : Effect.kill ref ∉ t.outbox
  inFlight : ∀ i j x, x.peerId = id →
    (t.pieceScheduler.inFlightAt i j = some x ↔ s.pieceScheduler.inFlightAt i j = some x)
  availability : t.pieceScheduler.peerAvailability.get? id =
    s.pieceScheduler.peerAvailability.get? id
  cursor : t.pieceScheduler.requestCursors.get? id = s.pieceScheduler.requestCursors.get? id

/-- Whenever the next message of a peer actor is a farewell or says that a peer is ready, and
another connection is registered under that id, handling the message leaves that one alone. -/
def SparesSuccessors [DecidableEq H] (c : Codec H) (s : Swarm H) : Prop :=
  ∀ (env : DeliverEnv) (ref : ActorRef) (e : PeerEvent) (rest : List (ActorRef × PeerEvent))
    (id : PeerId) (ref' : ActorRef),
    s.inbox = (ref, e) :: rest → e.speaksFor = some id → s.torrent.peers.get? id = some ref' →
    ref' ≠ ref →
    Untouched id ref' (s.torrent.next env.check)
      ((s.torrent.next env.check).handle (e.toMessage env : TorrentMessage c))

/-- A connection under the id is not over: its actor has not stopped, or a farewell or ready message
for the id is on its way. -/
def Lingers (s : Swarm H) (id : PeerId) : Prop :=
  (∃ ref p, s.processes ref = some p ∧ p.actor.id = id ∧ p.phase ≠ .stopped) ∨
  ∃ m ∈ s.inbox, m.2.speaksFor = some id

/-- A peer that is registered comes after the end of every earlier connection under its id. -/
def ReconnectsLate [DecidableEq H] {c : Codec H} (s : Swarm H) (i : SwarmInput c) : Prop :=
  ∀ id ref, s.nextMessage i = some (.peerConnected (some id) ref) →
    s.torrent.peers.get? id = none → ¬ Lingers s id

/-! ### Who speaks for a registered peer -/

/-- Whoever speaks for a registered peer, or may still do so, is the actor of that peer. -/
structure Owned (s : Swarm H) : Prop where
  live : ∀ ref p, s.processes ref = some p → p.phase ≠ .stopped →
    ∀ ref', s.torrent.peers.get? p.actor.id = some ref' → ref' = ref
  sent : ∀ m ∈ s.inbox, ∀ id, m.2.speaksFor = some id →
    ∀ ref', s.torrent.peers.get? id = some ref' → ref' = m.1

namespace Owned

variable {s : Swarm H}

/-- A peer actor takes a step: it goes on speaking under its own id. -/
theorem report {ref : ActorRef} {i : PeerInput} {p q : PeerProcess} {es : List PeerEvent}
    (hp : s.processes ref = some p) (hacts : p.Acts i q es) (h : Owned s) :
    Owned (s.report ref q es) where
  live := by
    intro ref' p' hp' halive
    by_cases href : ref' = ref
    · subst href
      rw [s.processes_report_self] at hp'
      cases hp'
      rw [hacts.id]
      exact h.live ref' p hp hacts.alive
    · rw [s.processes_report_of_ne q es href] at hp'
      exact h.live ref' p' hp' halive
  sent := by
    intro m hm id hspeaks ref' hget
    rcases List.mem_append.1 hm with hm | hm
    · exact h.sent m hm id hspeaks ref' hget
    · obtain ⟨e, he, rfl⟩ := List.mem_map.1 hm
      have hid := hacts.sender e he id (PeerEvent.sender_of_speaksFor hspeaks)
      subst hid
      exact h.live ref p hp hacts.alive ref' hget

variable [DecidableEq H] {c : Codec H}

/-- A round of the torrent: peers are dropped, or one is registered under an id nobody else speaks
for. -/
theorem round {i : TorrentActor.Input c}
    (hlate : ∀ id ref, i.message = .peerConnected (some id) ref →
      s.torrent.peers.get? id = none → ¬ Lingers s id)
    (h : Owned s) : Owned (s.round i) := by
  obtain ⟨new, hnew, ⟨hprocesses, hpeers⟩ | ⟨id, ref, hm, hfree, hprocesses, hpeers⟩⟩ :=
    s.round_cases i
  · refine ⟨?_, ?_⟩
    · intro ref' q hq halive ref'' hget
      rw [hprocesses] at hq
      obtain ⟨p, hp, hgrows⟩ := (Processes.grow_postAll hnew).of_some' hq
      rw [hgrows.phase] at halive
      rw [hgrows.actor] at hget
      exact h.live ref' p hp halive ref'' (hpeers _ _ hget)
    · intro m hmem id hspeaks ref' hget
      exact h.sent m hmem id hspeaks ref' (hpeers _ _ hget)
  · have hquiet := hlate id ref hm hfree
    refine ⟨?_, ?_⟩
    · intro ref' q hq halive ref'' hget
      rw [hprocesses] at hq
      rw [hpeers] at hget
      by_cases href : ref' = ref
      · subst href
        rw [Function.update_self] at hq
        cases hq
        exact (Option.some.inj ((if_pos rfl).symm.trans hget)).symm
      · rw [Function.update_of_ne href] at hq
        obtain ⟨p, hp, hgrows⟩ := (Processes.grow_postAll hnew).of_some' hq
        rw [hgrows.phase] at halive
        rw [hgrows.actor] at hget
        split at hget
        · rename_i hid
          exact absurd (Or.inl ⟨ref', p, hp, hid, halive⟩) hquiet
        · exact h.live ref' p hp halive ref'' hget
    · intro m hmem id' hspeaks ref' hget
      rw [hpeers] at hget
      split at hget
      · rename_i hid
        subst hid
        exact absurd (Or.inr ⟨m, hmem, hspeaks⟩) hquiet
      · exact h.sent m hmem id' hspeaks ref' hget

omit [DecidableEq H] in
/-- Messages may be taken out of the inbox. -/
theorem suffix {rest : List (ActorRef × PeerEvent)} (hrest : rest <:+ s.inbox) (h : Owned s) :
    Owned { s with inbox := rest } :=
  ⟨h.live, fun m hm => h.sent m (hrest.subset hm)⟩

/-- **One step**, if a connection it registers comes late enough. -/
theorem step {t : Swarm H} {i : SwarmInput c} (hlate : ReconnectsLate s i)
    (happly : s.apply i = some t) (h : Owned s) : Owned t := by
  rcases (Swarm.moves_of_apply happly).cases with
    ⟨j, rest, hm, hrest, rfl⟩ | ⟨ref, j, p, q, es, -, hp, hacts, rfl⟩
  · refine (h.suffix hrest).round fun id ref hj hfree hlinger => ?_
    refine hlate id ref (by rw [hm, hj]) hfree ?_
    exact hlinger.imp_right fun ⟨m, hmem, hspeaks⟩ => ⟨m, hrest.subset hmem, hspeaks⟩
  · exact h.report hp hacts

/-- Nobody else is there to be struck. -/
theorem sparesSuccessors (h : Owned s) : SparesSuccessors c s := by
  intro env ref e rest id ref' hinbox hspeaks hget hne
  have hmem : (ref, e) ∈ s.inbox := by
    rw [hinbox]
    exact List.mem_cons_self ..
  exact absurd (h.sent (ref, e) hmem id hspeaks ref' hget) hne

end Owned

variable [DecidableEq H] {c : Codec H}

/-- A farewell strikes whatever is registered under its id. -/
theorem removed_by_farewell (id : PeerId) {ref : ActorRef} (env : FillAllEnv) {t : TorrentActor H}
    (hget : t.peers.get? id = some ref) :
    (t.handle (.killPeer id env : TorrentMessage c)).peers.get? id = none ∧
    Effect.kill ref ∈ (t.handle (.killPeer id env : TorrentMessage c)).outbox := by
  have hremoved : (t.removePeer id).1.peers = t.peers.erase id ∧
      (t.removePeer id).1.outbox = t.outbox ++ [.kill ref] := by
    unfold TorrentActor.removePeer
    rw [hget]
    exact ⟨rfl, rfl⟩
  have hfill := TorrentActor.requesting_fillAllPeerRequestWindows env (t.removePeer id).1
  obtain ⟨new, hout, -⟩ := hfill.sent
  refine ⟨?_, ?_⟩
  · change ((t.removePeer id).1.fillAllPeerRequestWindows env).peers.get? id = none
    rw [hfill.peers, hremoved.1, HashMap.get?_erase, if_pos rfl]
  · change _ ∈ ((t.removePeer id).1.fillAllPeerRequestWindows env).outbox
    rw [hout, hremoved.2]
    simp

/-- A farewell that comes when another connection is registered under its id is not harmless. -/
theorem not_sparesSuccessors {s : Swarm H} {ref ref' : ActorRef} {id : PeerId}
    {rest : List (ActorRef × PeerEvent)} (env : DeliverEnv)
    (hinbox : s.inbox = (ref, .killPeer id) :: rest)
    (hget : s.torrent.peers.get? id = some ref') (hne : ref' ≠ ref) : ¬ SparesSuccessors c s := by
  intro hspares
  have hspared := hspares env ref _ rest id ref' hinbox rfl hget hne
  rw [← TorrentActor.peers_next env.check] at hget
  have hremoved := (removed_by_farewell (c := c) id env.fillAll hget).1
  cases hspared.registered.symm.trans hremoved

/-- **In every run in which each connection comes after the end of the earlier ones under its id,
no farewell and no ready message does anything to another connection than its sender's.** -/
theorem successors_spared {s : Swarm H}
    (h : (swarmSystem c).Reach (fun s i => ReconnectsLate s i) s) : SparesSuccessors c s := by
  refine Owned.sparesSuccessors (h.invariant (I := Owned) ?_ ?_)
  · rintro s ⟨-, hprocesses, hinbox, -⟩
    refine ⟨?_, ?_⟩
    · intro ref p hp
      rw [hprocesses] at hp
      cases hp
    · intro m hm
      rw [hinbox] at hm
      cases hm
  · rintro s i t hs hlate ⟨-, happly⟩
    exact hs.step hlate happly

namespace Sample

/-- The peer connects for the first time. -/
def connected : Swarm Bytes := after (alone (fromFile .inFile)) [connect peer 0]

theorem reach_connected {G : Swarm Bytes → SwarmInput codec → Prop}
    (hG : G (alone (fromFile .inFile)) (connect peer 0)) :
    (swarmSystem codec).Reach G connected :=
  reach_connect (.init ⟨init_fromFile .inFile, rfl, rfl, rfl⟩) hG rfl

/-- Its actor starts and stops, and the torrent hears of both. -/
def coming : List (SwarmInput codec) := [.peer 0 .start, .peer 0 .stop, deliver, deliver]

theorem plain_of_mem_coming {i : SwarmInput codec} (hi : i ∈ coming) : Plain i := by
  simp only [coming, List.mem_cons, List.not_mem_nil, or_false] at hi
  rcases hi with rfl | rfl | rfl | rfl
  · trivial
  · trivial
  · exact plain_deliver
  · exact plain_deliver

theorem Plain.reconnectsLate {i : SwarmInput codec} (h : Plain i) (s : Swarm Bytes) :
    ReconnectsLate s i := fun id ref hm => absurd rfl ((h.message hm).1 (some id) ref)

theorem not_lingers_alone (t : TorrentActor Bytes) (id : PeerId) : ¬ Lingers (alone t) id := by
  rintro (⟨ref, p, hp, -⟩ | ⟨m, hm, -⟩)
  · cases hp
  · cases hm

def ended : Swarm Bytes := after connected coming

theorem reach_ended : (swarmSystem codec).Reach (fun s i => ReconnectsLate s i) ended := by
  refine reach_after (reach_connected ?_) (by decide +kernel) ?_
  · exact fun id _ _ _ => not_lingers_alone _ id
  · intro i hi
    exact ⟨plain_of_mem_coming hi, (plain_of_mem_coming hi).reconnectsLate⟩

/-- Nothing is left of the first connection. -/
theorem not_lingers_ended (id : PeerId) : ¬ Lingers ended id := by
  have hinbox : ended.inbox = [] := by decide +kernel
  have hstopped : (ended.processes 0).map PeerProcess.phase = some .stopped := by decide +kernel
  rintro (⟨ref, p, hp, -, halive⟩ | ⟨m, hm, -⟩)
  · by_cases href : ref = 0
    · subst href
      rw [hp] at hstopped
      exact halive (Option.some.inj hstopped)
    · have hnone : connected.processes ref = none := by
        refine Swarm.processes_eq_none_of_apply (s := alone (fromFile .inFile))
          (i := connect peer 0) rfl rfl ?_
        rintro id' ⟨⟩
        exact href rfl
      have hrun : runSwarm connected coming = some ended := runSwarm_eq_after (by decide +kernel)
      have hnone' := processes_eq_none_of_runSwarm hrun (fun i => plain_of_mem_coming) hnone
      cases hp.symm.trans hnone'
  · rw [hinbox] at hm
    cases hm

/-- The peer is back, with a new actor that says that it is ready. -/
def back : Swarm Bytes := after (after ended [connect peer 1]) [.peer 1 .start]

theorem reach_back : (swarmSystem codec).Reach (fun s i => ReconnectsLate s i) back := by
  refine reach_after (reach_connect reach_ended ?_ (by decide +kernel)) (by decide +kernel) ?_
  · exact fun id _ _ _ => not_lingers_ended id
  · intro i hi
    rw [List.mem_singleton.1 hi]
    exact ⟨trivial, Plain.reconnectsLate trivial⟩

/-- The first actor times out and says farewell, the torrent hears of it, the peer comes back, and
only then the first actor stops and says farewell again. -/
def struck : Swarm Bytes :=
  after (after (after connected [.peer 0 .start, .peer 0 .timeout, deliver, deliver])
    [connect peer 1]) [.peer 0 .stop]

end Sample

theorem successors_spared_sample :
    Sample.back.torrent.peers.get? Sample.peer = some 1 ∧
    Sample.back.inbox = [(1, .peerReady Sample.peer [])] ∧
    SparesSuccessors Sample.codec Sample.back :=
  ⟨by decide +kernel, by decide +kernel, successors_spared Sample.reach_back⟩

/-- **The second farewell of an actor that has timed out removes and kills its successor.** -/
theorem second_farewell_strikes_successor :
    ∃ s : Swarm Bytes, (swarmSystem Sample.codec).Reach (fun _ _ => True) s ∧
      s.inbox = [(0, .killPeer Sample.peer)] ∧ s.torrent.peers.get? Sample.peer = some 1 ∧
      ¬ SparesSuccessors Sample.codec s := by
  have hinbox : Sample.struck.inbox = [(0, .killPeer Sample.peer)] := by decide +kernel
  have hget : Sample.struck.torrent.peers.get? Sample.peer = some 1 := by decide +kernel
  refine ⟨Sample.struck, ?_, hinbox, hget, ?_⟩
  · refine Sample.reach_after (Sample.reach_connect (Sample.reach_after
      (Sample.reach_connected trivial) (by decide +kernel) ?_) trivial (by decide +kernel))
      (by decide +kernel) ?_
    · intro i hi
      simp only [List.mem_cons, List.not_mem_nil, or_false] at hi
      rcases hi with rfl | rfl | rfl | rfl
      · exact ⟨trivial, fun _ => trivial⟩
      · exact ⟨trivial, fun _ => trivial⟩
      · exact ⟨Sample.plain_deliver, fun _ => trivial⟩
      · exact ⟨Sample.plain_deliver, fun _ => trivial⟩
    · intro i hi
      rw [List.mem_singleton.1 hi]
      exact ⟨trivial, fun _ => trivial⟩
  · exact not_sparesSuccessors Sample.deliverEnv hinbox hget (by decide)

end Tortillas
