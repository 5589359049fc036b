/-
**What is announced by the rules is found.**

A node gives a token with its answer to a query for peers; whoever brings the token back from the same address within
an interval may announce itself, and is in the answers to the queries for peers until its time to live is over.  That a
token lasts for an interval is a fact about the token manager and the calls that are made on it, and that a peer is
kept is one about the store and its calls.  A node is both, and its routing table: queries of all kinds come in any
order from any address, a query makes a call on each of the two, on one of them only, or on none, and what it calls on
the store may depend on what the token manager answers.

A query is therefore read as at most one call of each part, and what holds of the runs of the parts holds of the runs
of the node.

Main definitions:

* `DirectoryRun` — a node, with the tokens that it has given and the announcements that it has accepted;
* `DirectoryRun.tokenRun`, `DirectoryRun.storeRun` — the two parts of a node;
* `directorySystem` — the runs of a node.

Main results:

* `DirectoryRun.tokenRun_apply`, `DirectoryRun.storeRun_apply` — **a query is at most one call of each part**;
* `DirectoryRun.answer_getPeers_spec` — what a query for peers is answered with;
* `announcement_found` — **who brings back a token in time is accepted, and found until the time to live is over.**
-/

import Tortillas.CompactCodecs
import Tortillas.TokenLifetime

set_option relaxedAutoImplicit false
set_option autoImplicit false

namespace Tortillas

/-- A node, with the last reading of its clock, the secrets that were drawn, the tokens that were given in answers, and
the announcements that were accepted. -/
structure DirectoryRun where
  state : DhtState
  now : ℕ
  drawn : List Secret
  issued : List IssuedToken
  log : List Announcement

namespace DirectoryRun

/-- The token manager of the node. -/
def tokenRun (s : DirectoryRun) : TokenRun := ⟨s.state.tokens, s.now, s.drawn, s.issued⟩

/-- The store of the node. -/
def storeRun (s : DirectoryRun) : StoreRun := ⟨s.state.peers, s.now, s.log⟩

/-- The call on the token manager that a query makes. -/
def tokenCall : Krpc.Query → SocketAddr → Option TokenCall
  | .getPeers _ _, source => some (.generate source.ip)
  | .announcePeer _ _ _ tok _, source => some (.verify tok source.ip)
  | _, _ => none

/-- The call on the store that a query makes: an announcement gets there with a token that is taken. -/
def storeCall (sha1 : Bytes → Bytes) (s : DirectoryRun) (source : SocketAddr) (input : QueryInput) :
    Krpc.Query → Option StoreCall
  | .getPeers _ infoHash => some (.get infoHash s.state.peerLimit)
  | .announcePeer _ infoHash port tok impliedPort =>
      if (s.state.tokens.verify sha1 tok source.ip input).2 then
        some (.announce infoHash (DhtState.announcedPeer source port impliedPort))
      else none
  | _ => none

def apply (sha1 : Bytes → Bytes) (s : DirectoryRun) : DhtStateInput → DirectoryRun
  | .query query source input =>
      let (state, answer) := s.state.handleQuery sha1 query source input
      { state
        now := if (tokenCall query source).isSome then input.tokenNow else s.now
        drawn := if (tokenCall query source).isSome then s.drawn ++ s.state.tokens.drawnAt input else s.drawn
        issued :=
          match answer with
          | .ok response => s.issued ++ response.token.toList.map fun bytes => ⟨source.ip, input.tokenNow, bytes⟩
          | .error _ => s.issued
        log :=
          match query, answer with
          | .announcePeer _ infoHash port _ impliedPort, .ok _ =>
              s.log ++ [⟨infoHash, DhtState.announcedPeer source port impliedPort, input.announcedNow⟩]
          | _, _ => s.log }
  | .response response source => { s with state := (s.state.learnResponse response source).1 }
  | .failure id => { s with state := { s.state with routing := s.state.routing.recordFailure id } }

/-- A query that reads the clock reads the same time throughout, and no earlier one than before; and no secret is drawn
twice. -/
def Admits (s : DirectoryRun) : DhtStateInput → Prop
  | .query query source input =>
      (tokenCall query source).isSome = true → s.tokenRun.Admits input ∧ input.OneTime input.tokenNow
  | _ => True

/-- No record is lost because the clock is younger than the time to live. -/
def Spares (sha1 : Bytes → Bytes) (s : DirectoryRun) : DhtStateInput → Prop
  | .query query source input => ∀ c, s.storeCall sha1 source input query = some c → s.storeRun.Spares (c, input)
  | _ => True

end DirectoryRun

/-- A node, from its beginning. -/
def directorySystem (sha1 : Bytes → Bytes) (interval ttl : ℕ) : System DirectoryRun DhtStateInput where
  init s := ∃ id bucketSize current previous now peerLimit, current ≠ previous ∧
    s = ⟨⟨.new id bucketSize, ⟨current, previous, now, interval⟩, ⟨∅, ttl, ttl / 4, now⟩, peerLimit, bucketSize⟩, now,
      [current, previous], [], []⟩
  step s i t := s.Admits i ∧ t = s.apply sha1 i

namespace DirectoryRun

variable {sha1 : Bytes → Bytes} {interval ttl : ℕ} {s : DirectoryRun} {query : Krpc.Query} {source : SocketAddr}
  {input : QueryInput}

/-! ### A query is at most one call of each part -/

/-- An announcement whose token is not taken changes the token manager alone. -/
theorem announce_refused (id infoHash : NodeId) (port : UInt16) {tok : Bytes} (impliedPort : Bool) {state : DhtState}
    (h : (state.tokens.verify sha1 tok source.ip input).2 = false) :
    (state.handleQuery sha1 (.announcePeer id infoHash port tok impliedPort) source input).1.peers = state.peers ∧
      (state.handleQuery sha1 (.announcePeer id infoHash port tok impliedPort) source input).2 =
        .error (.protocol "invalid announce token".toList) := by
  simp only [DhtState.handleQuery, DhtState.answerQuery, h, Bool.not_false, if_true]
  exact ⟨trivial, trivial⟩

/-- A contact that is inserted is not the node. -/
theorem localId_insert (t : RoutingTable) (contact : Contact) : (t.insert contact).1.localId = t.localId := by
  unfold RoutingTable.insert
  cases t.bucketOf contact.id <;> rfl

/-- One whose token is taken is a call on the store. -/
theorem announce_taken (id infoHash : NodeId) (port : UInt16) {tok : Bytes} (impliedPort : Bool) {state : DhtState}
    (h : (state.tokens.verify sha1 tok source.ip input).2 = true) :
    (state.handleQuery sha1 (.announcePeer id infoHash port tok impliedPort) source input).1.peers =
        (state.peers.announce infoHash (DhtState.announcedPeer source port impliedPort) input).1 ∧
      (state.handleQuery sha1 (.announcePeer id infoHash port tok impliedPort) source input).2 =
        if (state.peers.announce infoHash (DhtState.announcedPeer source port impliedPort) input).2 then
          .ok (.pong state.id)
        else .error (.protocol "invalid announced peer endpoint".toList) := by
  simp only [DhtState.handleQuery, DhtState.answerQuery, h, Bool.not_true, Bool.false_eq_true, if_false]
  cases (state.peers.announce infoHash (DhtState.announcedPeer source port impliedPort) input).2 with
  | true =>
      refine ⟨rfl, ?_⟩
      simp only [Bool.not_true, Bool.false_eq_true, if_false, if_true, DhtState.id, localId_insert]
  | false => exact ⟨rfl, rfl⟩

/-- **The token manager sees a query as one call, or not at all.** -/
theorem tokenRun_apply (query : Krpc.Query) (source : SocketAddr) (input : QueryInput) :
    (s.apply sha1 (.query query source input)).tokenRun =
      match tokenCall query source with
      | none => s.tokenRun
      | some call => s.tokenRun.apply sha1 call input := by
  cases query with
  | ping id => simp [apply, tokenRun, tokenCall, DhtState.handleQuery, DhtState.answerQuery, Krpc.Response.pong]
  | findNode id target => simp [apply, tokenRun, tokenCall, DhtState.handleQuery, DhtState.answerQuery]
  | getPeers id infoHash =>
      simp [apply, tokenRun, tokenCall, TokenRun.apply, DhtState.handleQuery, DhtState.answerQuery]
  | announcePeer id infoHash port tok impliedPort =>
      have htokens := DhtState.handleQuery_announce_tokens sha1 s.state source input id infoHash port tok impliedPort
      have hissued : (s.apply sha1 (.query (.announcePeer id infoHash port tok impliedPort) source input)).issued =
          s.issued := by
        cases htaken : (s.state.tokens.verify sha1 tok source.ip input).2 with
        | false => simp [apply, (announce_refused id infoHash port impliedPort htaken).2]
        | true =>
            simp only [apply, (announce_taken id infoHash port impliedPort htaken).2]
            cases (s.state.peers.announce infoHash (DhtState.announcedPeer source port impliedPort) input).2 with
            | true => simp [Krpc.Response.pong]
            | false => rfl
      simp only [tokenRun, hissued, tokenCall]
      simp only [apply, htokens, tokenCall, Option.isSome_some, if_true]
      rfl

/-- A response leaves both parts alone. -/
theorem parts_response (response : Krpc.Response) (source : SocketAddr) :
    (s.apply sha1 (.response response source)).tokenRun = s.tokenRun ∧
      (s.apply sha1 (.response response source)).storeRun = s.storeRun := by
  have hpeers := StateRun.peers_learnResponse s.state response source
  have htokens : (s.state.learnResponse response source).1.tokens = s.state.tokens := by
    unfold DhtState.learnResponse
    dsimp only
    split
    · rfl
    · split <;> rfl
  simp only [apply, tokenRun, storeRun, hpeers, htokens, and_self]

/-- **The store sees a query as one call, or as time that goes by.** -/
theorem storeRun_apply (hone : (tokenCall query source).isSome = true → input.OneTime input.tokenNow) :
    (s.apply sha1 (.query query source input)).storeRun =
      match s.storeCall sha1 source input query with
      | none => { s.storeRun with now := (s.apply sha1 (.query query source input)).now }
      | some c => s.storeRun.apply c input := by
  cases query with
  | ping id => rfl
  | findNode id target => rfl
  | getPeers id infoHash =>
      have hannounced := (hone rfl).announced
      simp [apply, storeRun, storeCall, tokenCall, StoreRun.apply, PeerStore.call, DhtState.handleQuery,
        DhtState.answerQuery, hannounced]
  | announcePeer id infoHash port tok impliedPort =>
      have hannounced := (hone rfl).announced
      cases htaken : (s.state.tokens.verify sha1 tok source.ip input).2 with
      | false =>
          obtain ⟨hpeers, hanswer⟩ := announce_refused id infoHash port impliedPort htaken
          simp [apply, storeRun, storeCall, htaken, hpeers, hanswer]
      | true =>
          obtain ⟨hpeers, hanswer⟩ := announce_taken id infoHash port impliedPort htaken
          simp only [apply, storeRun, storeCall, htaken, hpeers, hanswer, if_true, StoreRun.apply, PeerStore.call,
            tokenCall, Option.isSome_some, hannounced]
          cases (s.state.peers.announce infoHash (DhtState.announcedPeer source port impliedPort) input).2 with
          | true => rfl
          | false => rfl

/-- How many peers a node answers with does not change. -/
theorem peerLimit_apply (s : DirectoryRun) (i : DhtStateInput) :
    (s.apply sha1 i).state.peerLimit = s.state.peerLimit := by
  cases i with
  | failure id => rfl
  | response response source =>
      change (s.state.learnResponse response source).1.peerLimit = _
      unfold DhtState.learnResponse
      dsimp only
      split
      · rfl
      · split <;> rfl
  | query query source input =>
      change (s.state.handleQuery sha1 query source input).1.peerLimit = _
      cases query with
      | ping => rfl
      | findNode => rfl
      | getPeers => rfl
      | announcePeer id infoHash port tok impliedPort =>
          simp only [DhtState.handleQuery, DhtState.answerQuery]
          split
          · rfl
          · split <;> rfl

/-! ### What holds in every run -/

/-- Both parts are as they are after their calls. -/
structure Sound (sha1 : Bytes → Bytes) (interval ttl : ℕ) (s : DirectoryRun) : Prop where
  tokens : s.tokenRun.Sound sha1 interval
  store : s.storeRun.Sound ttl

/-- Time may go by without a call on the store. -/
theorem later {t : StoreRun} {now : ℕ} (ht : t.Sound ttl) (hnow : t.now ≤ now) :
    ({ t with now } : StoreRun).Sound ttl where
  same := ht.same
  latest infoHash peer time hrecord := by
    obtain ⟨hlast, hle⟩ := ht.latest infoHash peer time hrecord
    exact ⟨hlast, hle.trans hnow⟩
  kept infoHash peer time hlast halive := ht.kept infoHash peer time hlast (hnow.trans halive)

theorem admits_store (h : s.tokenRun.Admits input) (hone : input.OneTime input.tokenNow) : s.storeRun.Admits input := by
  have hannounced := hone.announced
  constructor
  · rw [hannounced]
    exact hone
  · rw [hannounced]
    exact h.later

/-- **Every input keeps both parts sound.** -/
theorem Sound.apply (hs : s.Sound sha1 interval ttl) (hpos : 0 < interval) {i : DhtStateInput} (hadmits : s.Admits i)
    (hspares : s.Spares sha1 i) : (s.apply sha1 i).Sound sha1 interval ttl := by
  cases i with
  | query query source input =>
      constructor
      · rw [tokenRun_apply]
        cases hcall : tokenCall query source with
        | none => exact hs.tokens
        | some call =>
            have hread := hadmits (by rw [hcall]; rfl)
            exact hs.tokens.apply hpos hread.1 call
      · rw [storeRun_apply fun hreads => (hadmits hreads).2]
        cases hcall : s.storeCall sha1 source input query with
        | none =>
            refine later hs.store ?_
            change s.now ≤ if (tokenCall query source).isSome then input.tokenNow else s.now
            split
            · rename_i hreads
              exact (hadmits hreads).1.later
            · exact Nat.le_refl _
        | some c =>
            have hreads : (tokenCall query source).isSome = true := by
              cases query with
              | ping => cases hcall
              | findNode => cases hcall
              | getPeers => rfl
              | announcePeer => rfl
            obtain ⟨hread, hone⟩ := hadmits hreads
            exact hs.store.apply (admits_store hread hone) (hspares c hcall)
  | response response source =>
      have hsame : (s.apply sha1 (.response response source)).tokenRun = s.tokenRun ∧
          (s.apply sha1 (.response response source)).storeRun = s.storeRun := parts_response response source
      constructor
      · rw [hsame.1]
        exact hs.tokens
      · rw [hsame.2]
        exact hs.store
  | failure id => exact ⟨hs.tokens, hs.store⟩

theorem sound_of_reach (hpos : 0 < interval) (h : (directorySystem sha1 interval ttl).Reach (Spares sha1) s) :
    s.Sound sha1 interval ttl := by
  refine h.invariant ?_ ?_
  · rintro s ⟨id, bucketSize, current, previous, now, peerLimit, hne, rfl⟩
    constructor
    · exact TokenRun.sound_of_reach hpos (.init ⟨current, previous, now, hne, rfl⟩)
    · exact StoreRun.sound_of_reach (.init ⟨now, rfl⟩)
  · rintro s i t hs hspares ⟨hadmits, rfl⟩
    exact hs.apply hpos hadmits hspares

/-! ### What is announced -/

/-- The peer was announced no earlier than the time, and no later than the clock. -/
def AnnouncedSince (s : DirectoryRun) (infoHash : NodeId) (peer : SocketAddr) (since : ℕ) : Prop :=
  ∃ t, s.storeRun.lastAnnounced infoHash peer = some t ∧ since ≤ t

/-- **What is announced stays announced.** -/
theorem AnnouncedSince.apply {infoHash : NodeId} {peer : SocketAddr} {since : ℕ}
    (h : s.AnnouncedSince infoHash peer since) (hsince : since ≤ s.now) {i : DhtStateInput} (hadmits : s.Admits i) :
    (s.apply sha1 i).AnnouncedSince infoHash peer since ∧ since ≤ (s.apply sha1 i).now := by
  obtain ⟨t, hlast, ht⟩ := h
  cases i with
  | response response source =>
      have hstore : (s.apply sha1 (.response response source)).storeRun = s.storeRun :=
        (parts_response response source).2
      refine ⟨⟨t, ?_, ht⟩, hsince⟩
      rw [hstore]
      exact hlast
  | failure id => exact ⟨⟨t, hlast, ht⟩, hsince⟩
  | query query source input =>
      have hlater : since ≤ (s.apply sha1 (.query query source input)).now := by
        change since ≤ if (tokenCall query source).isSome then input.tokenNow else s.now
        split
        · rename_i hreads
          exact hsince.trans (hadmits hreads).1.later
        · exact hsince
      refine ⟨?_, hlater⟩
      rw [AnnouncedSince, storeRun_apply fun hreads => (hadmits hreads).2]
      cases hcall : s.storeCall sha1 source input query with
      | none => exact ⟨t, hlast, ht⟩
      | some c =>
          rcases s.storeRun.lastAnnounced_apply input c infoHash peer with ⟨-, heq⟩ | ⟨-, heq⟩
          · refine ⟨_, heq, ?_⟩
            have hreads : (tokenCall query source).isSome = true := by
              cases query with
              | ping => cases hcall
              | findNode => cases hcall
              | getPeers => rfl
              | announcePeer => rfl
            obtain ⟨hread, hone⟩ := hadmits hreads
            rw [hone.announced]
            exact hsince.trans hread.later
          · exact ⟨t, heq.trans hlast, ht⟩

/-- **What a query for peers is answered with**: a token for the address, and of the peers that are alive as many as fit
into the answer. -/
theorem answer_getPeers_spec (hs : s.Sound sha1 interval ttl) {id infoHash : NodeId}
    (hadmits : s.Admits (.query (.getPeers id infoHash) source input))
    (hspares : s.Spares sha1 (.query (.getPeers id infoHash) source input)) :
    ∃ response peers, ∃ alive : Finset SocketAddr,
      (s.state.handleQuery sha1 (.getPeers id infoHash) source input).2 = .ok response ∧
      (∃ tok, response.token = some tok ∧ ⟨source.ip, input.tokenNow, tok⟩ ∈
        (s.apply sha1 (.query (.getPeers id infoHash) source input)).issued) ∧
      response.values = (if peers = [] then none else some (encodePeers peers)) ∧
      (∀ peer, peer ∈ alive ↔ ∃ t, s.storeRun.lastAnnounced infoHash peer = some t ∧ input.tokenNow ≤ t + ttl) ∧
      peers.length = min s.state.peerLimit alive.card ∧ peers.Nodup ∧ ∀ peer ∈ peers, peer ∈ alive := by
  obtain ⟨hread, hone⟩ := hadmits rfl
  obtain ⟨alive, halive, hlength, hnodup, hmem⟩ := hs.store.get_spec (admits_store hread hone) (hspares _ rfl)
  rw [hone.announced] at halive
  obtain ⟨response, hanswer, htoken, hvalues⟩ : ∃ response,
      (s.state.handleQuery sha1 (.getPeers id infoHash) source input).2 = .ok response ∧
        response.token = some (s.state.tokens.generate sha1 source.ip input).2 ∧
        response.values = if (s.state.peers.get infoHash s.state.peerLimit input).2 = [] then none
          else some (encodePeers (s.state.peers.get infoHash s.state.peerLimit input).2) := by
    refine ⟨⟨_, if (s.state.peers.get infoHash s.state.peerLimit input).2.isEmpty then some _ else none, some _,
      if (s.state.peers.get infoHash s.state.peerLimit input).2.isEmpty then none
      else some (encodePeers (s.state.peers.get infoHash s.state.peerLimit input).2)⟩, rfl, rfl, ?_⟩
    simp only [List.isEmpty_iff]
  refine ⟨response, _, alive, hanswer, ⟨_, htoken, ?_⟩, hvalues, halive, hlength, hnodup, hmem⟩
  simp only [apply, hanswer, htoken]
  exact List.mem_append_right _ List.mem_cons_self

/-- A peer that is alive is in the answer, unless as many others are. -/
theorem answer_names (hs : s.Sound sha1 interval ttl) {id infoHash : NodeId}
    (hadmits : s.Admits (.query (.getPeers id infoHash) source input))
    (hspares : s.Spares sha1 (.query (.getPeers id infoHash) source input)) {peer : SocketAddr} {since : ℕ}
    (hsince : s.AnnouncedSince infoHash peer since) (hlive : input.tokenNow ≤ since + ttl) :
    ∃ response peers, (s.state.handleQuery sha1 (.getPeers id infoHash) source input).2 = .ok response ∧
      response.values = (if peers = [] then none else some (encodePeers peers)) ∧ peers.Nodup ∧
      (∀ peer ∈ peers, ∃ time, s.storeRun.lastAnnounced infoHash peer = some time ∧ input.tokenNow ≤ time + ttl) ∧
      (peer ∈ peers ∨ peers.length = s.state.peerLimit) := by
  obtain ⟨time, hlast, htime⟩ := hsince
  obtain ⟨response, peers, alive, hanswer, -, hvalues, halive, hlength, hnodup, hmem⟩ :=
    answer_getPeers_spec hs hadmits hspares
  refine ⟨response, peers, hanswer, hvalues, hnodup, fun peer hpeer => (halive peer).1 (hmem peer hpeer), ?_⟩
  by_cases hfull : s.state.peerLimit ≤ alive.card
  · exact .inr (by omega)
  · -- all peers that are alive fit into the answer
    left
    have hall : peers.toFinset = alive := by
      refine Finset.eq_of_subset_of_card_le (fun peer hpeer => hmem peer (List.mem_toFinset.1 hpeer)) ?_
      rw [List.toFinset_card_of_nodup hnodup]
      omega
    rw [← List.mem_toFinset, hall, halive]
    exact ⟨time, hlast, by omega⟩

/-- **A token that is brought back in time is taken**, and the announcement with it is accepted. -/
theorem announce_with_token (hpos : 0 < interval) (hs : s.Sound sha1 interval ttl) {issued : IssuedToken}
    (hissued : issued ∈ s.issued) {id infoHash : NodeId} {port : UInt16} {impliedPort : Bool}
    (hsource : source.ip = issued.ip)
    (hadmits : s.Admits (.query (.announcePeer id infoHash port issued.bytes impliedPort) source input))
    (htime : input.tokenNow ≤ issued.issuedAt + interval)
    (hvalid : PeerStore.Valid (DhtState.announcedPeer source port impliedPort)) :
    (s.state.handleQuery sha1 (.announcePeer id infoHash port issued.bytes impliedPort) source input).2 =
        .ok (.pong s.state.id) ∧
      (s.apply sha1 (.query (.announcePeer id infoHash port issued.bytes impliedPort) source input)).AnnouncedSince
        infoHash (DhtState.announcedPeer source port impliedPort) input.tokenNow := by
  obtain ⟨hread, hone⟩ := hadmits rfl
  obtain ⟨secret, hsecret, hbytes, hold⟩ := hs.tokens.issued issued hissued
  have hstatus := hs.tokens.status_rotate hread hsecret hold
  have htaken : (s.state.tokens.verify sha1 issued.bytes source.ip input).2 = true := by
    rw [hsource]
    exact TokenManager.verify_iff.2 ⟨secret, hs.tokens.knows_of_le hpos hread hstatus htime, hbytes⟩
  have hstored : (s.state.peers.announce infoHash (DhtState.announcedPeer source port impliedPort) input).2 = true :=
    PeerStore.announce_eq_true_iff.2 hvalid
  constructor
  · rw [(announce_taken id infoHash port impliedPort htaken).2, if_pos hstored]
  · refine ⟨input.announcedNow, ?_, hone.announced.ge⟩
    rw [storeRun_apply fun _ => hone, storeCall, if_pos htaken]
    exact StoreRun.lastAnnounced_of_writes ⟨rfl, hvalid⟩

end DirectoryRun

/-- **Who brings back a token in time is accepted, and found until the time to live is over.**  In every run of a node,
a token that was given to an address at some time is taken from that address for an interval: an announcement with it of
an endpoint that may be announced is accepted; and after any further queries, responses and failures, a query for the
peers of the info hash is answered with the endpoint, until the time to live is over, unless as many as the node answers
with are alive beside it.  Who asks reads the endpoints of IPv4. -/
theorem announcement_found {sha1 : Bytes → Bytes} {interval ttl : ℕ} (hpos : 0 < interval) {s : DirectoryRun}
    (h : (directorySystem sha1 interval ttl).Reach (DirectoryRun.Spares sha1) s) {issued : IssuedToken}
    (hissued : issued ∈ s.issued) {id infoHash : NodeId} {port : UInt16} {impliedPort : Bool} {source : SocketAddr}
    {input : QueryInput} (hsource : source.ip = issued.ip)
    (hadmits : s.Admits (.query (.announcePeer id infoHash port issued.bytes impliedPort) source input))
    (hspares : s.Spares sha1 (.query (.announcePeer id infoHash port issued.bytes impliedPort) source input))
    (htime : input.tokenNow ≤ issued.issuedAt + interval)
    (hvalid : PeerStore.Valid (DhtState.announcedPeer source port impliedPort)) :
    (s.state.handleQuery sha1 (.announcePeer id infoHash port issued.bytes impliedPort) source input).2 =
        .ok (.pong s.state.id) ∧
    ∀ inputs : List DhtStateInput,
      System.Along (fun s i => s.Admits i ∧ s.Spares sha1 i) (DirectoryRun.apply sha1)
        (s.apply sha1 (.query (.announcePeer id infoHash port issued.bytes impliedPort) source input)) inputs →
      let t := inputs.foldl (DirectoryRun.apply sha1)
        (s.apply sha1 (.query (.announcePeer id infoHash port issued.bytes impliedPort) source input))
      ∀ id' source' input', t.Admits (.query (.getPeers id' infoHash) source' input') →
        t.Spares sha1 (.query (.getPeers id' infoHash) source' input') →
        input'.tokenNow ≤ input.tokenNow + ttl →
        ∃ response peers, (t.state.handleQuery sha1 (.getPeers id' infoHash) source' input').2 = .ok response ∧
          response.values = (if peers = [] then none else some (encodePeers peers)) ∧
          (∀ values, response.values = some values →
            decodePeers values = .ok (peers.filter fun peer => peer.IsV4)) ∧ peers.Nodup ∧
          (∀ peer ∈ peers, ∃ time, t.storeRun.lastAnnounced infoHash peer = some time ∧
            input'.tokenNow ≤ time + ttl) ∧
          (DhtState.announcedPeer source port impliedPort ∈ peers ∨ peers.length = t.state.peerLimit) := by
  have hs := DirectoryRun.sound_of_reach hpos h
  obtain ⟨hanswer, hannounced⟩ := DirectoryRun.announce_with_token hpos hs hissued hsource hadmits htime hvalid
  refine ⟨hanswer, fun inputs halong => ?_⟩
  intro t id' source' input' hadmits' hspares' hlive
  have ht : t.Sound sha1 interval ttl ∧ t.AnnouncedSince infoHash (DhtState.announcedPeer source port impliedPort)
      input.tokenNow ∧ input.tokenNow ≤ t.now := by
    refine halong.invariant (I := fun t => t.Sound sha1 interval ttl ∧ t.AnnouncedSince infoHash
      (DhtState.announcedPeer source port impliedPort) input.tokenNow ∧ input.tokenNow ≤ t.now) ?_ ?_
    · rintro s i ⟨hs, hsince, hnow⟩ ⟨hadmits, hspares⟩
      exact ⟨hs.apply hpos hadmits hspares, hsince.apply hnow hadmits⟩
    · exact ⟨hs.apply hpos hadmits hspares, hannounced, Nat.le_refl _⟩
  obtain ⟨ht, hsince, -⟩ := ht
  obtain ⟨response, peers, hanswer', hvalues, hnodup, halive, hmem⟩ :=
    DirectoryRun.answer_names ht hadmits' hspares' hsince hlive
  refine ⟨response, peers, hanswer', hvalues, ?_, hnodup, halive, hmem⟩
  intro values hsome
  rw [hvalues] at hsome
  split at hsome
  · cases hsome
  · cases hsome
    exact decodePeers_encodePeers peers

namespace Sample

/-- The node whose clock has been running for an hour. -/
def hourDirectory : DirectoryRun :=
  ⟨hourNode.state, 3600000000000, [.replicate 20 1, .replicate 20 2], [], []⟩

/-- Somebody asks for peers a second later. -/
def asked : DhtStateInput := .query (.getPeers (.replicate 20 5) (.replicate 20 7)) nodeAddr (storeCallAt 3601000000000)

/-- The token that is given, and the announcement another second later. -/
def hourToken : IssuedToken := ⟨nodeAddr.ip, 3601000000000, [186, 252, 123, 151, 65, 253, 10, 13]⟩

theorem reach_asked : (directorySystem tokenDigests 300000000000 1800000000000).Reach (DirectoryRun.Spares tokenDigests)
    (hourDirectory.apply tokenDigests asked) := by
  have hinit : (directorySystem tokenDigests 300000000000 1800000000000).init hourDirectory :=
    ⟨.replicate 20 9, 8, .replicate 20 1, .replicate 20 2, 3600000000000, 50, by decide, rfl⟩
  refine .step (.init hinit) ?_ ⟨?_, rfl⟩
  · rintro c ⟨⟩
    exact .inl (by decide +kernel)
  · intro _
    exact ⟨⟨rfl, by decide +kernel, by decide +kernel, by decide +kernel⟩, oneTime_storeCallAt _⟩

end Sample

open Sample in
/-- The endpoint that is announced with the token is found by another a second later. -/
theorem announcement_found_sample : ∃ response peers,
    (((hourDirectory.apply tokenDigests asked).apply tokenDigests (.query (.announcePeer (.replicate 20 5)
      (.replicate 20 7) 6881 hourToken.bytes false) nodeAddr (storeCallAt 3602000000000))).state.handleQuery tokenDigests
        (.getPeers (.replicate 20 6) (.replicate 20 7)) sixAddr (storeCallAt 3603000000000)).2 = .ok response ∧
    response.values = (if peers = [] then none else some (encodePeers peers)) ∧
    (⟨nodeAddr.ip, 6881⟩ ∈ peers ∨ peers.length = 50) := by
  have hone : ∀ now, (storeCallAt now).OneTime (storeCallAt now).tokenNow := oneTime_storeCallAt
  have hissued : hourToken ∈ (hourDirectory.apply tokenDigests asked).issued := by decide +kernel
  have hadmits : (hourDirectory.apply tokenDigests asked).Admits (.query (.announcePeer (.replicate 20 5)
      (.replicate 20 7) 6881 hourToken.bytes false) nodeAddr (storeCallAt 3602000000000)) :=
    fun _ => ⟨⟨rfl, by decide +kernel, by decide +kernel, by decide +kernel⟩, hone _⟩
  have hspares : (hourDirectory.apply tokenDigests asked).Spares tokenDigests (.query (.announcePeer (.replicate 20 5)
      (.replicate 20 7) 6881 hourToken.bytes false) nodeAddr (storeCallAt 3602000000000)) := by
    have hold : (hourDirectory.apply tokenDigests asked).storeRun.store.ttl ≤
        (storeCallAt 3602000000000).announcedNow := by decide +kernel
    intro c _
    exact .inl hold
  obtain ⟨-, hfound⟩ := announcement_found (by decide) reach_asked hissued (by rfl) hadmits hspares (by decide)
    (by decide)
  obtain ⟨response, peers, hanswer, hvalues, -, -, -, hmem⟩ := hfound [] trivial (.replicate 20 6) sixAddr
    (storeCallAt 3603000000000)
    (fun _ => ⟨⟨rfl, by decide +kernel, by decide +kernel, by decide +kernel⟩, hone _⟩)
    (by
      rintro c ⟨⟩
      exact .inl (by decide +kernel))
    (by decide)
  exact ⟨response, peers, hanswer, hvalues, hmem⟩

end Tortillas
