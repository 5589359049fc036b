/-
**What is answered to a query for peers.**

`dht/state.rs`, `dht/peers.rs` and `dht/compact.rs`: a node that is asked for the peers of an info hash answers with
those that were announced, or with nodes that are closer to it when it knows of no peer.  Which of the two is decided
by the endpoints that the store returns.  They are encoded after that, and the compact form leaves out what is not an
IPv4 endpoint.  A node whose first endpoints for the info hash, as many as fit into an answer, are all of IPv6 answers
with neither.

The first endpoints are the first in the order in which the map yields them.

Main definitions:

* `PeerStore.unexpiredPeers` — the endpoints of an info hash that are not expired, in the order of the map;
* `DhtState.HasAnswer` — there is none among them that fits into the answer, or one of IPv4;
* `StateRun`, `dhtStateSystem` — the state of a node with the announcements it has accepted.

Main results:

* `decodePeer_encode` — an endpoint of IPv4 is read back from its compact form;
* `PeerStore.get_eq` — what the store returns, in terms of what it had;
* `StateRun.announced_of_reach` — every record was announced;
* `get_peers_answer` — **an answer has peers or nodes, exactly in this case**, and its peers were announced and are not
  expired;
* `get_peers_empty_handed` — an answer with neither.
-/

import Tortillas.PeerExpiry

set_option relaxedAutoImplicit false
set_option autoImplicit false

namespace Tortillas

/-! ### The compact form of a peer -/

/-- **An endpoint of IPv4 is read back from its compact form.** -/
theorem decodePeer_encode (octets : Vector UInt8 4) (port : UInt16) :
    decodePeer (octets.toList ++ beBytes 2 port.toNat) = .ok ⟨.v4 octets, port⟩ := by
  have hlen : (octets.toList ++ beBytes 2 port.toNat).length = 6 := by
    rw [List.length_append, Vector.length_toList, length_beBytes]
  have hoctets : (Vector.ofFn fun i : Fin 4 => (octets.toList ++ beBytes 2 port.toNat).getD i 0) = octets := by
    ext i hi
    rw [Vector.getElem_ofFn, List.getD_eq_getElem?_getD, List.getElem?_append_left (by simpa using hi)]
    simp [hi]
  have hport : UInt16.ofNat (beNat ((octets.toList ++ beBytes 2 port.toNat).drop 4)) = port := by
    rw [List.drop_left' (by simp), beNat_beBytes]
    apply UInt16.toNat_inj.1
    have hlt := port.toNat_lt
    rw [UInt16.toNat_ofNat']
    omega
  rw [decodePeer, if_neg (by omega), hoctets, hport]

/-- Every entry of an answer is the compact form of an endpoint. -/
theorem mem_encodePeers {peers : List SocketAddr} {value : Bytes} (h : value ∈ encodePeers peers) :
    ∃ peer ∈ peers, decodePeer value = .ok peer := by
  obtain ⟨⟨ip, port⟩, hpeer, hvalue⟩ := List.mem_filterMap.1 h
  cases ip with
  | v6 octets => cases hvalue
  | v4 octets =>
      cases hvalue
      exact ⟨_, hpeer, decodePeer_encode octets port⟩

/-- There is an entry exactly if there is an endpoint of IPv4. -/
theorem exists_mem_encodePeers_iff {peers : List SocketAddr} :
    (∃ value ∈ encodePeers peers, ∃ peer, decodePeer value = .ok peer) ↔ ∃ peer ∈ peers, peer.IsV4 := by
  constructor
  · rintro ⟨value, hvalue, -⟩
    obtain ⟨⟨ip, port⟩, hpeer, hencoded⟩ := List.mem_filterMap.1 hvalue
    cases ip with
    | v6 octets => cases hencoded
    | v4 octets => exact ⟨_, hpeer, octets, rfl⟩
  · rintro ⟨⟨ip, port⟩, hpeer, octets, rfl⟩
    exact ⟨_, List.mem_filterMap.2 ⟨_, hpeer, rfl⟩, _, decodePeer_encode octets port⟩

/-! ### What the store returns -/

namespace PeerStore

variable {s : PeerStore} {infoHash infoHash' : NodeId} {peer peer' : SocketAddr} {input : QueryInput} {limit : ℕ}

/-- The records of an info hash, in the order of the map. -/
def swarm (s : PeerStore) (infoHash : NodeId) : List (SocketAddr × ℕ) :=
  ((s.peers.get? infoHash).getD ∅).toList

/-- The endpoints of an info hash that are not expired, in the order of the map. -/
def unexpiredPeers (s : PeerStore) (infoHash : NodeId) (input : QueryInput) : List SocketAddr :=
  ((s.swarm infoHash).filter fun e =>
    decide ((s.Due input → s.expirationCutoff input.pruneCutoff ≤ e.2) ∧
      s.expirationCutoff input.getCutoff ≤ e.2)).map Prod.fst

theorem mem_swarm_iff {t : ℕ} : (peer, t) ∈ s.swarm infoHash ↔ s.record infoHash peer = some t := by
  rw [swarm, HashMap.mem_toList_iff, record]
  cases s.peers.get? infoHash <;> rfl

/-- What is kept, is kept in its order. -/
theorem toList_unexpired (cutoff : ℕ) (peers : HashMap SocketAddr ℕ) :
    (unexpired cutoff peers).toList = peers.toList.filter fun e => decide (cutoff ≤ e.2) := by
  obtain ⟨entries, hentries⟩ := peers
  simp only [unexpired, HashMap.retain, HashMap.toList]
  clear hentries
  induction entries with
  | nil => rfl
  | cons e entries ih =>
      rw [List.filterMap_cons, List.map_cons, List.filter_cons, ← ih]
      by_cases hkept : cutoff ≤ e.2 <;> simp [hkept]

theorem swarm_prune : (s.prune input).swarm infoHash =
    (s.swarm infoHash).filter fun e => decide (s.expirationCutoff input.pruneCutoff ≤ e.2) := by
  simp only [swarm, prune, HashMap.get?_retain]
  cases s.peers.get? infoHash with
  | none => rfl
  | some peers =>
      simp only [Option.bind_some, Option.getD_some]
      rw [← toList_unexpired]
      split
      · rename_i hempty
        rw [List.isEmpty_iff.1 hempty]
        rfl
      · rfl

/-- **What the store returns**: the first of the endpoints that are not expired. -/
theorem get_eq : (s.get infoHash limit input).2 = (s.unexpiredPeers infoHash input).take limit := by
  have hpruned : (s.pruneIfDue input).swarm infoHash = (s.swarm infoHash).filter fun e =>
      decide (s.Due input → s.expirationCutoff input.pruneCutoff ≤ e.2) := by
    by_cases hdue : s.Due input
    · have heq : s.pruneIfDue input = s.prune input := if_pos hdue
      rw [heq, swarm_prune]
      simp only [hdue, true_imp_iff]
    · have heq : s.pruneIfDue input = s := if_neg hdue
      rw [heq]
      simp only [hdue, false_imp_iff, decide_true, List.filter_true]
  have hleft : s.unexpiredPeers infoHash input = (((s.pruneIfDue input).swarm infoHash).filter fun e =>
      decide (s.expirationCutoff input.getCutoff ≤ e.2)).map Prod.fst := by
    rw [hpruned, List.filter_filter, unexpiredPeers]
    simp only [Bool.decide_and, Bool.and_comm]
  rw [hleft, ← expirationCutoff_pruneIfDue s input]
  unfold PeerStore.get swarm
  dsimp only
  cases hswarm : (s.pruneIfDue input).peers.get? infoHash with
  | none => exact (List.take_nil).symm
  | some peers =>
      rw [Option.getD_some, ← toList_unexpired]
      dsimp only
      split <;> rfl

/-! ### Records are of announcements -/

variable {t : ℕ}

theorem record_of_pruneIfDue (h : (s.pruneIfDue input).record infoHash peer = some t) :
    s.record infoHash peer = some t := by
  by_cases hdue : s.Due input
  · have heq : s.pruneIfDue input = s.prune input := if_pos hdue
    rw [heq, record_prune, Option.filter_eq_some_iff] at h
    exact h.1
  · have heq : s.pruneIfDue input = s := if_neg hdue
    rwa [heq] at h

theorem record_of_announce (h : (s.announce infoHash' peer' input).1.record infoHash peer = some t) :
    s.record infoHash peer = some t ∨
      (infoHash = infoHash' ∧ peer = peer' ∧ t = input.announcedNow ∧
        (s.announce infoHash' peer' input).2 = true) := by
  by_cases hvalid : Valid peer'
  · have haccepted : (s.announce infoHash' peer' input).2 = true := announce_eq_true_iff.2 hvalid
    have hstore : (s.announce infoHash' peer' input).1.record infoHash peer =
        if infoHash = infoHash' ∧ peer = peer' then some input.announcedNow
        else (s.pruneIfDue input).record infoHash peer := record_announce_eq hvalid
    rw [hstore] at h
    split at h
    · rename_i hsame
      exact .inr ⟨hsame.1, hsame.2, (Option.some.inj h).symm, haccepted⟩
    · exact .inl (record_of_pruneIfDue h)
  · rw [announce_of_not_valid hvalid] at h
    exact .inl h

theorem record_of_get (h : (s.get infoHash' limit input).1.record infoHash peer = some t) :
    s.record infoHash peer = some t := by
  suffices hpruned : (s.pruneIfDue input).record infoHash peer = some t from record_of_pruneIfDue hpruned
  unfold PeerStore.get at h
  dsimp only at h
  cases hswarm : (s.pruneIfDue input).peers.get? infoHash' with
  | none =>
      rw [hswarm] at h
      exact h
  | some peers =>
      rw [hswarm] at h
      dsimp only at h
      by_cases hhash : infoHash = infoHash'
      · subst hhash
        rw [record, hswarm, Option.bind_some]
        split at h
        · rw [record, HashMap.get?_erase_self] at h
          cases h
        · rw [record, HashMap.get?_insert_self] at h
          exact get?_of_unexpired h
      · split at h
        · rwa [record, HashMap.get?_erase_of_ne hhash] at h
        · rwa [record, HashMap.get?_insert_of_ne hhash] at h

end PeerStore

/-! ### Runs -/

/-- The state of a node, with the announcements that were accepted. -/
structure StateRun where
  state : DhtState
  log : List Announcement

inductive DhtStateInput
  | query (query : Krpc.Query) (source : SocketAddr) (input : QueryInput)
  | response (response : Krpc.Response) (source : SocketAddr)
  /-- A node was asked in vain. -/
  | failure (id : NodeId)

namespace StateRun

def apply (sha1 : Bytes → Bytes) (s : StateRun) : DhtStateInput → StateRun
  | .query query source input =>
      let (state, answer) := s.state.handleQuery sha1 query source input
      { state
        log :=
          match query, answer with
          | .announcePeer _ infoHash port _ impliedPort, .ok _ =>
              s.log ++ [⟨infoHash, DhtState.announcedPeer source port impliedPort, input.announcedNow⟩]
          | _, _ => s.log }
  | .response response source => { s with state := (s.state.learnResponse response source).1 }
  | .failure id => { s with state := { s.state with routing := s.state.routing.recordFailure id } }

end StateRun

/-- The state of a node, from its beginning. -/
def dhtStateSystem (sha1 : Bytes → Bytes) : System StateRun DhtStateInput where
  init s := ∃ id bucketSize current previous interval ttl now peerLimit,
    s = ⟨⟨.new id bucketSize, ⟨current, previous, now, interval⟩, ⟨∅, ttl, ttl / 4, now⟩, peerLimit, bucketSize⟩, []⟩
  step s i t := t = s.apply sha1 i

namespace StateRun

variable {sha1 : Bytes → Bytes} {s : StateRun} {infoHash : NodeId} {peer : SocketAddr} {t : ℕ}

/-- Every record was announced. -/
def Announced (s : StateRun) : Prop :=
  ∀ infoHash peer t, s.state.peers.record infoHash peer = some t → ⟨infoHash, peer, t⟩ ∈ s.log

/-- A response does not touch the store. -/
theorem peers_learnResponse (state : DhtState) (response : Krpc.Response) (source : SocketAddr) :
    (state.learnResponse response source).1.peers = state.peers := by
  unfold DhtState.learnResponse
  dsimp only
  split
  · rfl
  · split <;> rfl

theorem Announced.query (hs : s.Announced) (query : Krpc.Query) (source : SocketAddr) (input : QueryInput) :
    (s.apply sha1 (.query query source input)).Announced := by
  intro infoHash peer t hrecord
  cases query with
  | ping id => exact hs infoHash peer t hrecord
  | findNode id target => exact hs infoHash peer t hrecord
  | getPeers id hash => exact hs infoHash peer t (PeerStore.record_of_get hrecord)
  | announcePeer id hash port tok impliedPort =>
      cases hanswer : (s.state.handleQuery sha1 (.announcePeer id hash port tok impliedPort) source input).2 with
      | error error =>
          have hsame := DhtState.handleQuery_error hanswer
          change (s.state.handleQuery sha1 (.announcePeer id hash port tok impliedPort) source
            input).1.peers.record infoHash peer = some t at hrecord
          rw [hsame] at hrecord
          simp only [apply, hanswer]
          exact hs infoHash peer t hrecord
      | ok response =>
          have hold := hs infoHash peer t
          simp only [apply, hanswer, List.mem_append, List.mem_singleton]
          simp only [apply, DhtState.handleQuery, DhtState.answerQuery] at hrecord hanswer
          split at hanswer
          · cases hanswer
          · rename_i hvalid
            rw [if_neg hvalid] at hrecord
            split at hanswer
            · cases hanswer
            · rename_i hstored
              rw [if_neg hstored] at hrecord
              rcases PeerStore.record_of_announce hrecord with hrecord | ⟨rfl, rfl, rfl, -⟩
              · exact .inl (hold hrecord)
              · exact .inr rfl

theorem announced_of_reach (h : (dhtStateSystem sha1).Reach (fun _ _ => True) s) : s.Announced := by
  refine h.invariant ?_ ?_
  · rintro s ⟨id, bucketSize, current, previous, interval, ttl, now, peerLimit, rfl⟩ infoHash peer t hrecord
    cases hrecord
  · rintro s i t hs - rfl
    cases i with
    | query query source input => exact hs.query query source input
    | response response source =>
        intro infoHash peer t hrecord
        simp only [apply, peers_learnResponse] at hrecord
        exact hs infoHash peer t hrecord
    | failure id => exact hs

end StateRun

/-! ### The answer -/

namespace DhtState

variable {sha1 : Bytes → Bytes} {s : DhtState} {id infoHash : NodeId} {source : SocketAddr} {input : QueryInput}

/-- Of the endpoints that are not expired, none fits into the answer, or one of those that fit is of IPv4. -/
def HasAnswer (s : DhtState) (infoHash : NodeId) (input : QueryInput) : Prop :=
  (s.peers.unexpiredPeers infoHash input).take s.peerLimit = [] ∨
    ∃ peer ∈ (s.peers.unexpiredPeers infoHash input).take s.peerLimit, peer.IsV4

variable (sha1 s id infoHash source input) in
/-- The answer to a query for peers, in terms of the endpoints that fit into it. -/
theorem answer_getPeers : ∃ response,
    (s.handleQuery sha1 (.getPeers id infoHash) source input).2 = .ok response ∧
      (response.nodes.isSome = true ↔ (s.peers.unexpiredPeers infoHash input).take s.peerLimit = []) ∧
      response.values = if (s.peers.unexpiredPeers infoHash input).take s.peerLimit = [] then none
        else some (encodePeers ((s.peers.unexpiredPeers infoHash input).take s.peerLimit)) := by
  refine ⟨⟨_, if (s.peers.get infoHash s.peerLimit input).2.isEmpty then some _ else none, some _,
    if (s.peers.get infoHash s.peerLimit input).2.isEmpty then none
    else some (encodePeers (s.peers.get infoHash s.peerLimit input).2)⟩, rfl, ?_, ?_⟩
  · simp only [PeerStore.get_eq, List.isEmpty_iff]
    split
    · rename_i hempty
      exact ⟨fun _ => hempty, fun _ => rfl⟩
    · rename_i hsome
      exact ⟨nofun, fun hempty => absurd hempty hsome⟩
  · simp only [PeerStore.get_eq, List.isEmpty_iff]

end DhtState

/-- An endpoint that is not expired was announced no longer ago than the time to live. -/
theorem PeerStore.mem_unexpiredPeers {s : PeerStore} {infoHash : NodeId} {input : QueryInput} {peer : SocketAddr}
    (h : peer ∈ s.unexpiredPeers infoHash input) :
    ∃ t, s.record infoHash peer = some t ∧ input.getCutoff.1 ≤ t + s.ttl := by
  obtain ⟨⟨found, t⟩, hmem, rfl⟩ := List.mem_map.1 h
  obtain ⟨hswarm, hfresh⟩ := List.mem_filter.1 hmem
  have hcutoff := (of_decide_eq_true hfresh).2
  refine ⟨t, mem_swarm_iff.1 hswarm, ?_⟩
  -- on a clock that is younger than the time to live, nothing is older than it
  unfold expirationCutoff at hcutoff
  dsimp only at hcutoff ⊢
  split at hcutoff <;> omega

/-- **An answer to a query for peers has a peer or the nodes**, in every state that is reached by any queries and
responses, exactly if the endpoints that fit into it are not all of IPv6; and each of its peers was announced for the
info hash and is not expired. -/
theorem get_peers_answer {sha1 : Bytes → Bytes} {s : StateRun}
    (h : (dhtStateSystem sha1).Reach (fun _ _ => True) s) (id infoHash : NodeId) (source : SocketAddr)
    (input : QueryInput) :
    ∃ response, (s.state.handleQuery sha1 (.getPeers id infoHash) source input).2 = .ok response ∧
      ((response.nodes.isSome = true ∨ ∃ values, response.values = some values ∧
        ∃ value ∈ values, ∃ peer, decodePeer value = .ok peer) ↔ s.state.HasAnswer infoHash input) ∧
      ∀ values, response.values = some values → ∀ value ∈ values, ∃ peer t, decodePeer value = .ok peer ∧
        ⟨infoHash, peer, t⟩ ∈ s.log ∧ input.getCutoff.1 ≤ t + s.state.peers.ttl := by
  obtain ⟨response, hanswer, hnodes, hvalues⟩ := DhtState.answer_getPeers sha1 s.state id infoHash source input
  refine ⟨response, hanswer, ?_, ?_⟩
  · refine or_congr hnodes ?_
    rw [← exists_mem_encodePeers_iff, hvalues]
    by_cases hempty : (s.state.peers.unexpiredPeers infoHash input).take s.state.peerLimit = []
    · rw [if_pos hempty, hempty]
      exact ⟨fun ⟨_, hnone, _⟩ => (nomatch hnone), fun ⟨_, hnone, _⟩ => (nomatch hnone)⟩
    · rw [if_neg hempty]
      simp
  · intro values hsome value hvalue
    rw [hvalues] at hsome
    split at hsome
    · cases hsome
    · cases hsome
      obtain ⟨peer, hpeer, hdecoded⟩ := mem_encodePeers hvalue
      obtain ⟨t, hrecord, hage⟩ := PeerStore.mem_unexpiredPeers (List.mem_of_mem_take hpeer)
      exact ⟨peer, t, hdecoded, StateRun.announced_of_reach h _ _ _ hrecord, hage⟩

namespace Sample

/-- An endpoint of IPv6, which is not unspecified. -/
def sixAddr : SocketAddr := ⟨.v6 #v[32, 1, 13, 184, 0, 0, 0, 0, 0, 0, 0, 0, 0, 0, 0, 1], 6881⟩

/-- SHA-1 of the secret of the sample and this address, and of the secret and that of the sample node. -/
def sixDigests (bytes : Bytes) : Bytes :=
  if bytes = List.replicate 20 1 ++ [32, 1, 13, 184, 0, 0, 0, 0, 0, 0, 0, 0, 0, 0, 0, 1] then
    [137, 18, 52, 255, 245, 113, 44, 223, 212, 37, 247, 63, 211, 90, 128, 9, 110, 49, 125, 208]
  else if bytes = List.replicate 20 1 ++ [10, 0, 0, 1] then
    [186, 252, 123, 151, 65, 253, 10, 13, 167, 189, 204, 116, 117, 44, 184, 185, 244, 167, 194, 115]
  else []

/-- A node whose clock has been running for an hour. -/
def hourNode : StateRun :=
  ⟨⟨.new (.replicate 20 9) 8, ⟨.replicate 20 1, .replicate 20 2, 3600000000000, 300000000000⟩,
    ⟨∅, 1800000000000, 450000000000, 3600000000000⟩, 50, 8⟩, []⟩

/-- The endpoint is announced with the token that was given out to it. -/
def sixNode : StateRun :=
  [DhtStateInput.query (.getPeers (.replicate 20 5) (.replicate 20 7)) sixAddr (storeCallAt 3601000000000),
    .query (.announcePeer (.replicate 20 5) (.replicate 20 7) 6881 [137, 18, 52, 255, 245, 113, 44, 223] false) sixAddr
      (storeCallAt 3602000000000)].foldl (StateRun.apply sixDigests) hourNode

/-- An endpoint of IPv4 is announced too. -/
def bothNode : StateRun :=
  [DhtStateInput.query (.getPeers (.replicate 20 4) (.replicate 20 7)) nodeAddr (storeCallAt 3602000000000),
    .query (.announcePeer (.replicate 20 4) (.replicate 20 7) 6881 [186, 252, 123, 151, 65, 253, 10, 13] false) nodeAddr
      (storeCallAt 3602000000000)].foldl (StateRun.apply sixDigests) sixNode

theorem reach_hourNode (sha1 : Bytes → Bytes) : (dhtStateSystem sha1).Reach (fun _ _ => True) hourNode :=
  .init ⟨.replicate 20 9, 8, .replicate 20 1, .replicate 20 2, 300000000000, 1800000000000, 3600000000000, 50, rfl⟩

end Sample

/-- A node that knows of an endpoint of IPv6 and of one of IPv4 answers with the second, and without nodes. -/
theorem get_peers_answer_sample : ∃ response,
    (Sample.bothNode.state.handleQuery Sample.sixDigests (.getPeers (.replicate 20 6) (.replicate 20 7))
      Sample.nodeAddr (Sample.storeCallAt 3603000000000)).2 = .ok response ∧ response.nodes = none ∧
    ∃ values, response.values = some values ∧ ∃ value ∈ values, ∃ peer t, decodePeer value = .ok peer ∧
      ⟨.replicate 20 7, peer, t⟩ ∈ Sample.bothNode.log := by
  have hsix : (dhtStateSystem Sample.sixDigests).Reach (fun _ _ => True) Sample.sixNode :=
    System.Reach.foldl (fun _ _ => rfl) _ (Sample.reach_hourNode _)
  have hboth : (dhtStateSystem Sample.sixDigests).Reach (fun _ _ => True) Sample.bothNode :=
    System.Reach.foldl (fun _ _ => rfl) _ hsix
  have hnone : (Sample.bothNode.state.handleQuery Sample.sixDigests (.getPeers (.replicate 20 6) (.replicate 20 7))
      Sample.nodeAddr (Sample.storeCallAt 3603000000000)).2.toOption.map (·.nodes) = some none := by decide +kernel
  have hanswer : Sample.bothNode.state.HasAnswer (.replicate 20 7) (Sample.storeCallAt 3603000000000) :=
    .inr ⟨⟨Sample.nodeAddr.ip, 6881⟩, by decide +kernel, _, rfl⟩
  obtain ⟨response, heq, hiff, hall⟩ := get_peers_answer hboth (.replicate 20 6) (.replicate 20 7) Sample.nodeAddr
    (Sample.storeCallAt 3603000000000)
  rw [heq] at hnone
  have hnodes : response.nodes = none := Option.some.inj hnone
  obtain ⟨values, hvalues, value, hvalue, -⟩ := (hiff.2 hanswer).resolve_left fun h => by
    rw [hnodes] at h
    cases h
  obtain ⟨peer, t, hpeer, hlogged, -⟩ := hall values hvalues value hvalue
  exact ⟨response, heq, hnodes, values, hvalues, value, hvalue, peer, t, hpeer, hlogged⟩

/-- **An answer with neither**: one endpoint was announced, and it is of IPv6. -/
theorem get_peers_empty_handed :
    (dhtStateSystem Sample.sixDigests).Reach (fun _ _ => True) Sample.sixNode ∧
      (Sample.sixNode.state.handleQuery Sample.sixDigests (.getPeers (.replicate 20 6) (.replicate 20 7))
        Sample.nodeAddr (Sample.storeCallAt 3603000000000)).2.toOption.map
          (fun response => (response.nodes, response.values)) = some (none, some []) :=
  ⟨System.Reach.foldl (fun _ _ => rfl) _ (Sample.reach_hourNode _), by decide +kernel⟩

end Tortillas
