/-
**What a node of the DHT knows: contacts, tokens and peers.**

`dht/token.rs`, `dht/peers.rs` and `dht/state.rs`: a node answers the four queries.  A query for peers is
answered with a token, which depends on the address that asked and on a secret of the node; an
announcement has to bring such a token from the same address.  Secrets are exchanged from time to time,
and tokens of the secret before are still taken.  Announced peers are stored with the time, and expire.

The clock is read several times while a query is answered, and random secrets are drawn; both are
inputs of the model.

Main definitions:

* `TokenManager`, `PeerStore` — the secrets, and the peers that were announced;
* `DhtState.handleQuery`, `DhtState.learnResponse` — a query is answered, and a response is learned from;
* `PeerStore.Holds` — a record is in the store.

Main results:

* `TokenManager.verify_iff` — a token is taken exactly if it was made of one of the two secrets;
* `DhtState.handleQuery_holds` — **what a query does to the store**;
* `DhtState.handleQuery_error` — an announcement that is refused leaves the store alone;
* `DhtState.announce_ok` — what is true of an announcement that is not refused.
-/

import Tortillas.RoutingTable

set_option relaxedAutoImplicit false
set_option autoImplicit false

namespace Tortillas

/-! ### Tokens -/

abbrev Secret := Vector UInt8 20

def IpAddr.octets : IpAddr → Bytes
  | .v4 octets => octets.toList
  | .v6 octets => octets.toList

/-- `is_unspecified`: all octets are zero. -/
def IpAddr.isUnspecified (ip : IpAddr) : Bool := ip.octets.all (· == 0)

/-- `TOKEN_LEN` -/
def tokenLen : ℕ := 8

/-- `token`: the first bytes of a hash of the secret and the address. -/
def token (sha1 : Bytes → Bytes) (secret : Secret) (ip : IpAddr) : Bytes :=
  (sha1 (secret.toList ++ ip.octets)).take tokenLen

/-- What the clock says and what is drawn while a query is answered, in the order of the code. -/
structure QueryInput where
  /-- `rotated_at.elapsed()` -/
  tokenNow : ℕ
  freshPrevious : Secret
  freshCurrent : Secret
  rotatedNow : ℕ
  /-- `last_pruned.elapsed()` -/
  dueNow : ℕ
  prunedNow : ℕ
  /-- The two readings of `expiration_cutoff` in `prune`. -/
  pruneCutoff : ℕ × ℕ
  /-- The two readings of `expiration_cutoff` in `get`. -/
  getCutoff : ℕ × ℕ
  announcedNow : ℕ

/-- Times are in nanoseconds, and `Duration::MAX` is the longest. -/
def durationMax : ℕ := (2 ^ 64 - 1) * 10 ^ 9 + 999999999

/-- `RETAINED_TOKEN_GENERATIONS` -/
def retainedTokenGenerations : ℕ := 2

structure TokenManager where
  currentSecret : Secret
  previousSecret : Secret
  rotatedAt : ℕ
  rotationInterval : ℕ

namespace TokenManager

def rotateIfNeeded (t : TokenManager) (input : QueryInput) : TokenManager :=
  let elapsed := input.tokenNow - t.rotatedAt
  if elapsed < t.rotationInterval then t
  else
    { t with
      previousSecret :=
        if elapsed < min (t.rotationInterval * retainedTokenGenerations) durationMax then
          t.currentSecret
        else input.freshPrevious
      currentSecret := input.freshCurrent
      rotatedAt := input.rotatedNow }

def generate (sha1 : Bytes → Bytes) (t : TokenManager) (ip : IpAddr) (input : QueryInput) :
    TokenManager × Bytes :=
  let t := t.rotateIfNeeded input
  (t, token sha1 t.currentSecret ip)

def verify (sha1 : Bytes → Bytes) (t : TokenManager) (candidate : Bytes) (ip : IpAddr)
    (input : QueryInput) : TokenManager × Bool :=
  let t := t.rotateIfNeeded input
  (t, candidate == token sha1 t.currentSecret ip || candidate == token sha1 t.previousSecret ip)

/-- The secret is the current or the previous one. -/
def Knows (t : TokenManager) (secret : Secret) : Prop :=
  secret = t.currentSecret ∨ secret = t.previousSecret

/-- **A token is taken exactly if it was made of one of the two secrets.** -/
theorem verify_iff {sha1 : Bytes → Bytes} {t : TokenManager} {candidate : Bytes} {ip : IpAddr}
    {input : QueryInput} : (t.verify sha1 candidate ip input).2 = true ↔
      ∃ secret, (t.rotateIfNeeded input).Knows secret ∧ candidate = token sha1 secret ip := by
  simp only [verify, Bool.or_eq_true, beq_iff_eq, Knows, or_and_right, exists_or, exists_eq_left]

end TokenManager

/-! ### The store -/

structure PeerStore where
  peers : HashMap NodeId (HashMap SocketAddr ℕ)
  ttl : ℕ
  pruneInterval : ℕ
  lastPruned : ℕ

namespace PeerStore

/-- `expiration_cutoff`: the clock may not reach back so far. -/
def expirationCutoff (s : PeerStore) (now : ℕ × ℕ) : ℕ := if s.ttl ≤ now.1 then now.1 - s.ttl else now.2

/-- Keep what was announced since the cutoff. -/
def unexpired (cutoff : ℕ) (peers : HashMap SocketAddr ℕ) : HashMap SocketAddr ℕ :=
  peers.retain fun _ announcedAt => if cutoff ≤ announcedAt then some announcedAt else none

def prune (s : PeerStore) (input : QueryInput) : PeerStore :=
  { s with
    lastPruned := input.prunedNow
    peers := s.peers.retain fun _ peers =>
      let left := unexpired (s.expirationCutoff input.pruneCutoff) peers
      if left.toList.isEmpty then none else some left }

def pruneIfDue (s : PeerStore) (input : QueryInput) : PeerStore :=
  if s.pruneInterval ≤ input.dueNow - s.lastPruned then s.prune input else s

def announce (s : PeerStore) (infoHash : NodeId) (peer : SocketAddr) (input : QueryInput) :
    PeerStore × Bool :=
  if peer.port = 0 ∨ peer.ip.isUnspecified = true then (s, false)
  else
    let s := s.pruneIfDue input
    let peers := ((s.peers.get? infoHash).getD ∅).insert peer input.announcedNow
    ({ s with peers := s.peers.insert infoHash peers }, true)

def get (s : PeerStore) (infoHash : NodeId) (limit : ℕ) (input : QueryInput) :
    PeerStore × List SocketAddr :=
  let s := s.pruneIfDue input
  match s.peers.get? infoHash with
  | none => (s, [])
  | some peers =>
      let left := unexpired (s.expirationCutoff input.getCutoff) peers
      let result := (left.toList.map Prod.fst).take limit
      if left.toList.isEmpty then ({ s with peers := s.peers.erase infoHash }, result)
      else ({ s with peers := s.peers.insert infoHash left }, result)

/-- The peer is in the store for the hash. -/
def Holds (s : PeerStore) (infoHash : NodeId) (peer : SocketAddr) : Prop :=
  ∃ peers announcedAt, s.peers.get? infoHash = some peers ∧ peers.get? peer = some announcedAt

variable {s : PeerStore} {infoHash h : NodeId} {peer p : SocketAddr} {input : QueryInput}

theorem get?_of_unexpired {cutoff announcedAt : ℕ} {peers : HashMap SocketAddr ℕ}
    (hget : (unexpired cutoff peers).get? p = some announcedAt) : peers.get? p = some announcedAt := by
  rw [unexpired, HashMap.get?_retain, Option.bind_eq_some_iff] at hget
  obtain ⟨found, hfound, hkept⟩ := hget
  split at hkept
  · cases hkept
    exact hfound
  · cases hkept

theorem Holds.of_prune (hholds : (s.prune input).Holds h p) : s.Holds h p := by
  obtain ⟨peers, announcedAt, hpeers, hget⟩ := hholds
  simp only [prune, HashMap.get?_retain, Option.bind_eq_some_iff] at hpeers
  obtain ⟨old, hold, hleft⟩ := hpeers
  split at hleft
  · cases hleft
  · cases hleft
    exact ⟨old, announcedAt, hold, get?_of_unexpired hget⟩

theorem Holds.of_pruneIfDue (hholds : (s.pruneIfDue input).Holds h p) : s.Holds h p := by
  unfold pruneIfDue at hholds
  split at hholds
  · exact hholds.of_prune
  · exact hholds

/-- The store after an announcement: the peer, and what was there before. -/
theorem Holds.of_announce (hholds : (s.announce infoHash peer input).1.Holds h p) :
    s.Holds h p ∨ (h = infoHash ∧ p = peer ∧ (s.announce infoHash peer input).2 = true) := by
  unfold announce at hholds ⊢
  split at hholds
  · exact .inl hholds
  · rename_i hvalid
    obtain ⟨peers, announcedAt, hpeers, hget⟩ := hholds
    simp only [HashMap.get?_insert] at hpeers
    by_cases hh : h = infoHash
    · simp only [hh, if_true, Option.some.injEq] at hpeers
      subst hpeers
      rw [HashMap.get?_insert] at hget
      split at hget
      · rename_i hp
        exact .inr ⟨hh, hp, by rw [if_neg hvalid]⟩
      · suffices hpruned : (s.pruneIfDue input).Holds h p from .inl hpruned.of_pruneIfDue
        cases hold : (s.pruneIfDue input).peers.get? infoHash with
        | none => simp [hold] at hget
        | some old =>
            rw [hold] at hget
            exact ⟨old, announcedAt, by rw [hh, hold], hget⟩
    · simp only [hh, if_false] at hpeers
      exact .inl (of_pruneIfDue ⟨peers, announcedAt, hpeers, hget⟩)

/-- A lookup only removes records. -/
theorem Holds.of_get {limit : ℕ} (hholds : (s.get infoHash limit input).1.Holds h p) :
    s.Holds h p := by
  unfold PeerStore.get at hholds
  dsimp only at hholds
  split at hholds
  · exact hholds.of_pruneIfDue
  · rename_i old hold
    suffices hpruned : (s.pruneIfDue input).Holds h p from hpruned.of_pruneIfDue
    split at hholds
    · obtain ⟨peers, announcedAt, hpeers, hget⟩ := hholds
      exact ⟨peers, announcedAt, (HashMap.get?_of_get?_erase hpeers).2, hget⟩
    · obtain ⟨peers, announcedAt, hpeers, hget⟩ := hholds
      rcases HashMap.get?_of_get?_insert hpeers with ⟨hh, rfl⟩ | ⟨-, hpeers⟩
      · exact ⟨old, announcedAt, by rw [hh, hold], get?_of_unexpired hget⟩
      · exact ⟨peers, announcedAt, hpeers, hget⟩

end PeerStore

/-! ### Queries -/

structure DhtState where
  routing : RoutingTable
  tokens : TokenManager
  peers : PeerStore
  peerLimit : ℕ
  bucketSize : ℕ

namespace DhtState

def id (s : DhtState) : NodeId := s.routing.localId

/-- The contacts of a list are inserted one after the other. -/
def insertAll (t : RoutingTable) : List Contact → RoutingTable
  | [] => t
  | contact :: contacts => insertAll (t.insert contact).1 contacts

def learnResponse (s : DhtState) (response : Krpc.Response) (source : SocketAddr) :
    DhtState × Except Krpc.DhtError Unit :=
  let s := { s with routing := (s.routing.insert ⟨response.id, source⟩).1 }
  match response.nodes with
  | none => (s, .ok ())
  | some nodes =>
      match decodeNodes nodes with
      | .error message => (s, .error (.protocol message))
      | .ok contacts => ({ s with routing := insertAll s.routing contacts }, .ok ())

/-- The endpoint that an announcement is for. -/
def announcedPeer (source : SocketAddr) (port : UInt16) (impliedPort : Bool) : SocketAddr :=
  ⟨source.ip, if impliedPort then source.port else port⟩

/-- `handle_query`, once the sender was inserted. -/
def answerQuery (sha1 : Bytes → Bytes) (s : DhtState) (query : Krpc.Query) (source : SocketAddr)
    (input : QueryInput) : DhtState × Except Krpc.DhtError Krpc.Response :=
  match query with
  | .ping _ => (s, .ok (.pong s.id))
  | .findNode _ target =>
      (s, .ok ⟨s.id, some (encodeNodes (s.routing.closest target s.bucketSize)), none, none⟩)
  | .getPeers _ infoHash =>
      let (store, peers) := s.peers.get infoHash s.peerLimit input
      let nodes :=
        if peers.isEmpty then some (encodeNodes (s.routing.closest infoHash s.bucketSize)) else none
      let (tokens, token) := s.tokens.generate sha1 source.ip input
      ({ s with peers := store, tokens },
        .ok ⟨s.id, nodes, some token, if peers.isEmpty then none else some (encodePeers peers)⟩)
  | .announcePeer _ infoHash port token impliedPort =>
      let (tokens, valid) := s.tokens.verify sha1 token source.ip input
      let s := { s with tokens }
      if !valid then (s, .error (.protocol "invalid announce token".toList))
      else
        let (store, stored) :=
          s.peers.announce infoHash (announcedPeer source port impliedPort) input
        let s := { s with peers := store }
        if !stored then (s, .error (.protocol "invalid announced peer endpoint".toList))
        else (s, .ok (.pong s.id))

def handleQuery (sha1 : Bytes → Bytes) (s : DhtState) (query : Krpc.Query) (source : SocketAddr)
    (input : QueryInput) : DhtState × Except Krpc.DhtError Krpc.Response :=
  answerQuery sha1 { s with routing := (s.routing.insert ⟨query.id, source⟩).1 } query source input

/-! ### What a query does -/

variable {sha1 : Bytes → Bytes} {s : DhtState} {query : Krpc.Query} {source : SocketAddr}
  {input : QueryInput}

theorem handleQuery_routing :
    (handleQuery sha1 s query source input).1.routing =
      (s.routing.insert ⟨query.id, source⟩).1 := by
  cases query with
  | ping => rfl
  | findNode => rfl
  | getPeers => rfl
  | announcePeer id infoHash port token impliedPort =>
      simp only [handleQuery, answerQuery]
      split
      · rfl
      · split
        · rfl
        · rfl

variable (sha1 s source input) in
/-- An announcement is checked with the secrets of the time. -/
theorem handleQuery_announce_tokens (id infoHash : NodeId) (port : UInt16) (tok : Bytes)
    (impliedPort : Bool) :
    (handleQuery sha1 s (.announcePeer id infoHash port tok impliedPort) source input).1.tokens =
      s.tokens.rotateIfNeeded input := by
  simp only [handleQuery, answerQuery]
  split
  · rfl
  · split
    · rfl
    · rfl

/-- **An announcement that is refused leaves the store alone.** -/
theorem handleQuery_error {id infoHash : NodeId} {port : UInt16} {tok : Bytes} {impliedPort : Bool}
    {error : Krpc.DhtError}
    (h : (handleQuery sha1 s (.announcePeer id infoHash port tok impliedPort) source input).2 =
      .error error) :
    (handleQuery sha1 s (.announcePeer id infoHash port tok impliedPort) source input).1.peers =
      s.peers := by
  simp only [handleQuery, answerQuery] at h ⊢
  split at h
  · rename_i hinvalid
    rw [if_pos hinvalid]
  · rename_i hvalid
    rw [if_neg hvalid]
    split at h
    · rename_i hrefused
      rw [if_pos hrefused]
      unfold PeerStore.announce at hrefused ⊢
      split at hrefused
      · rename_i hendpoint
        rw [if_pos hendpoint]
      · simp at hrefused
    · cases h

/-- **What is true of an announcement that is not refused**: its token was made of one of the two
secrets for the address it comes from, and its port is not zero. -/
theorem announce_ok {id infoHash : NodeId} {port : UInt16} {tok : Bytes} {impliedPort : Bool}
    {response : Krpc.Response}
    (h : (handleQuery sha1 s (.announcePeer id infoHash port tok impliedPort) source input).2 =
      .ok response) :
    (announcedPeer source port impliedPort).port ≠ 0 ∧
    ∃ secret, (handleQuery sha1 s (.announcePeer id infoHash port tok impliedPort) source
        input).1.tokens.Knows secret ∧ tok = token sha1 secret source.ip := by
  simp only [handleQuery, answerQuery] at h ⊢
  split at h
  · cases h
  · rename_i hvalid
    rw [if_neg hvalid]
    have hverified : (s.tokens.verify sha1 tok source.ip input).2 = true := by
      simpa using hvalid
    obtain ⟨secret, hknows, htoken⟩ := TokenManager.verify_iff.1 hverified
    split at h
    · cases h
    · rename_i hstored
      rw [if_neg hstored]
      refine ⟨?_, secret, hknows, htoken⟩
      intro hport
      refine hstored ?_
      have hrefused : (announcedPeer source port impliedPort).port = 0 ∨
          (announcedPeer source port impliedPort).ip.isUnspecified = true := .inl hport
      simp only [PeerStore.announce]
      rw [if_pos hrefused]
      rfl

/-- **What a query does to the store**: a record that is new was announced by it. -/
theorem handleQuery_holds {infoHash : NodeId} {peer : SocketAddr}
    (h : (handleQuery sha1 s query source input).1.peers.Holds infoHash peer) :
    s.peers.Holds infoHash peer ∨
      ∃ id port tok impliedPort response,
        query = .announcePeer id infoHash port tok impliedPort ∧
        (handleQuery sha1 s query source input).2 = .ok response ∧
        peer = announcedPeer source port impliedPort := by
  cases query with
  | ping => exact .inl h
  | findNode => exact .inl h
  | getPeers id hash => exact .inl (PeerStore.Holds.of_get h)
  | announcePeer id hash port tok impliedPort =>
      cases hanswer : (handleQuery sha1 s (.announcePeer id hash port tok impliedPort) source
          input).2 with
      | error error =>
          rw [handleQuery_error hanswer] at h
          exact .inl h
      | ok response =>
          simp only [handleQuery, answerQuery] at h hanswer
          split at hanswer
          · cases hanswer
          · rename_i hvalid
            rw [if_neg hvalid] at h
            split at hanswer
            · cases hanswer
            · rename_i hstored
              rw [if_neg hstored] at h
              rcases PeerStore.Holds.of_announce h with hold | ⟨rfl, rfl, -⟩
              · exact .inl hold
              · exact .inr ⟨id, port, tok, impliedPort, response, rfl, rfl, rfl⟩

end DhtState

end Tortillas
