/-
**A node of the DHT among others, and the peers that are announced to it.**

`dht/messages.rs`, `incoming_datagram` and `lookup_finished`: the DHT actor answers queries, learns from the
responses that complete one of its own queries, and blames the nodes that a lookup asked in vain.
Anybody can send it any datagram from any address at any time.

A token that an announcement brings is taken if it was made of the current or of the previous secret for
the address it comes from.  That it was handed out by this node, and to this address, rests on the
secrets: nobody else can make a token of them, and two addresses have different tokens.

Main definitions:

* `DhtNode` — the state of the node, its queries and its lookups, with all that it has heard;
* `DhtNode.step` — datagrams, queries, lookups and their ends, in any order;
* `DhtNode.Unforged` — an announcement brings no token that somebody else made of the secrets.

Main results:

* `DhtNode.Announced.follows` — an announcement that is taken follows the query that its token was
  given for;
* `announced_peers_verified` — **only announcements from verified addresses are stored**.
-/

import Tortillas.DhtState
import Tortillas.PeerLookup
import Tortillas.Transition

set_option relaxedAutoImplicit false
set_option autoImplicit false

namespace Tortillas

/-- A datagram that the node has heard of: a query, with its answer and the secrets at that time, or a
response that completed a query of its own. -/
inductive Heard
  | query (query : Krpc.Query) (source : SocketAddr)
      (answer : Except Krpc.DhtError Krpc.Response) (tokens : TokenManager)
  | response (response : Krpc.Response) (source : SocketAddr)

structure DhtNode where
  state : DhtState
  transactions : Transactions
  concurrency : ℕ
  /-- The lookups that run. -/
  lookups : HashMap ℕ PeerLookup
  nextLookup : ℕ
  /-- The lookups that are done, whose `LookupFinished` is in the mailbox. -/
  finished : List PeerLookup
  /-- What the node has heard, the latest last. -/
  heard : List Heard

inductive DhtNodeEvent
  | datagram (message : Krpc.Message) (source : SocketAddr) (input : QueryInput)
  | begin (addr : SocketAddr)
  | cancel (transactionId : Bytes)
  | drop (gone : List ℕ)
  | startLookup (infoHash : NodeId)
  /-- The batch of a lookup was asked, with these outcomes. -/
  | round (lookup : ℕ) (order : List Contact) (outcomes : List (Contact × Option Krpc.Response))
  /-- A lookup is done. -/
  | finish (lookup : ℕ) (order : List Contact)
  | abort (lookup : ℕ)
  /-- The DHT actor handles the next `LookupFinished`. -/
  | lookupFinished

namespace DhtNode

/-- The node has an identifier and secrets, and knows nobody. -/
def init (id : NodeId) (tokens : TokenManager) (peerLimit bucketSize concurrency ttl now : ℕ)
    (nextId : UInt16) : DhtNode :=
  { state :=
      { routing := .new id bucketSize
        tokens
        peers := { peers := ∅, ttl, pruneInterval := ttl / 4, lastPruned := now }
        peerLimit
        bucketSize }
    transactions := .init nextId
    concurrency
    lookups := ∅
    nextLookup := 0
    finished := []
    heard := [] }

/-- `incoming_datagram`, with the reply that is sent. -/
def incomingDatagram (sha1 : Bytes → Bytes) (s : DhtNode) (message : Krpc.Message)
    (source : SocketAddr) (input : QueryInput) : DhtNode × Option Krpc.Message :=
  match message with
  | .query transactionId query =>
      let (state, answer) := s.state.handleQuery sha1 query source input
      let reply : Krpc.Message :=
        match answer with
        | .ok response => .response transactionId response
        | .error error => .error transactionId error
      ({ s with state, heard := s.heard ++ [.query query source answer state.tokens] }, some reply)
  | .response transactionId response =>
      let (matched, transactions) :=
        s.transactions.complete (.response transactionId response) source
      if matched then
        ({ s with
          transactions
          state := (s.state.learnResponse response source).1
          heard := s.heard ++ [.response response source] }, none)
      else ({ s with transactions }, none)
  | .error transactionId error =>
      ({ s with
        transactions := (s.transactions.complete (.error transactionId error) source).2 }, none)

/-- The nodes that a lookup has asked in vain are blamed. -/
def recordFailures (t : RoutingTable) : List NodeId → RoutingTable
  | [] => t
  | id :: ids => recordFailures (t.recordFailure id) ids

/-- The outcomes are those of the batch. -/
def IsRound (l : PeerLookup) (order : List Contact)
    (outcomes : List (Contact × Option Krpc.Response)) : Prop :=
  l.IsOrder order ∧ (l.narrow order).done = false ∧
    (outcomes.map Prod.fst).Perm (l.narrow order).batch

instance {l : PeerLookup} {order : List Contact}
    {outcomes : List (Contact × Option Krpc.Response)} : Decidable (IsRound l order outcomes) :=
  inferInstanceAs (Decidable (_ ∧ _ ∧ _))

def step (sha1 : Bytes → Bytes) (s : DhtNode) : DhtNodeEvent → DhtNode
  | .datagram message source input => (s.incomingDatagram sha1 message source input).1
  | .begin addr => { s with transactions := s.transactions.next (.begin addr) }
  | .cancel transactionId => { s with transactions := s.transactions.next (.cancel transactionId) }
  | .drop gone => { s with transactions := s.transactions.next (.drop gone) }
  | .startLookup infoHash =>
      let seeds := s.state.routing.closest infoHash s.state.bucketSize
      if seeds.isEmpty then s
      else
        { s with
          lookups := s.lookups.insert s.nextLookup
            (.start infoHash seeds s.concurrency s.state.peerLimit s.state.bucketSize)
          nextLookup := s.nextLookup + 1 }
  | .round lookup order outcomes =>
      match s.lookups.get? lookup with
      | some l =>
          if IsRound l order outcomes then
            { s with lookups := s.lookups.insert lookup (l.round order outcomes) }
          else s
      | none => s
  | .finish lookup order =>
      match s.lookups.get? lookup with
      | some l =>
          if l.IsOrder order ∧ (l.narrow order).done = true then
            { s with
              lookups := s.lookups.erase lookup
              finished := s.finished ++ [l] }
          else s
      | none => s
  | .abort lookup => { s with lookups := s.lookups.erase lookup }
  | .lookupFinished =>
      match s.finished with
      | [] => s
      | l :: finished =>
          let routing := recordFailures s.state.routing l.result.failedNodes
          { s with finished, state := { s.state with routing } }

/-! ### Tokens that were handed out -/

variable {sha1 : Bytes → Bytes} {s : DhtNode} {event : DhtNodeEvent}

/-- A query for peers was answered with this token. -/
def HandedOut (heard : List Heard) (tok : Bytes) : Prop :=
  ∃ id infoHash source response tokens,
    Heard.query (.getPeers id infoHash) source (.ok response) tokens ∈ heard ∧
      response.token = some tok

/-- What is assumed of the secrets and of the hash, when an announcement comes in.  Whoever brings a
token that the node takes has it from the node; and this token is not the one that was handed out to
another address, or for another secret. -/
def Unforged (sha1 : Bytes → Bytes) (s : DhtNode) : DhtNodeEvent → Prop
  | .datagram (.query _ (.announcePeer _ _ _ tok _)) source input =>
      ∀ secret, (s.state.tokens.rotateIfNeeded input).Knows secret →
        tok = token sha1 secret source.ip →
        HandedOut s.heard tok ∧
        ∀ id infoHash asker answer tokens,
          Heard.query (.getPeers id infoHash) asker answer tokens ∈ s.heard →
          token sha1 tokens.currentSecret asker.ip = token sha1 secret source.ip →
            tokens.currentSecret = secret ∧ asker.ip = source.ip
  | _ => True

/-- A query for peers was answered with a token of the secret of that time; and an announcement that
was taken brought a token that had been handed out to the same address, made of the current or of the
previous secret. -/
def Follows (sha1 : Bytes → Bytes) (before : List Heard) : Heard → Prop
  | .query (.getPeers _ _) source (.ok response) tokens =>
      response.token = some (token sha1 tokens.currentSecret source.ip)
  | .query (.announcePeer _ _ _ tok _) source (.ok _) tokens =>
      ∃ secret, tokens.Knows secret ∧ tok = token sha1 secret source.ip ∧
        ∃ id infoHash asker response given,
          Heard.query (.getPeers id infoHash) asker (.ok response) given ∈ before ∧
            response.token = some tok ∧ asker.ip = source.ip ∧ given.currentSecret = secret
  | _ => True

/-- What the node has heard is in order, and every record was announced. -/
structure Announced (sha1 : Bytes → Bytes) (s : DhtNode) : Prop where
  heard : Justified (Follows sha1) s.heard
  stored : ∀ infoHash peer, s.state.peers.Holds infoHash peer →
    ∃ id port tok impliedPort source response tokens,
      Heard.query (.announcePeer id infoHash port tok impliedPort) source (.ok response) tokens
        ∈ s.heard ∧
      peer = DhtState.announcedPeer source port impliedPort ∧ peer.port ≠ 0

theorem announced_init (id : NodeId) (tokens : TokenManager)
    (peerLimit bucketSize concurrency ttl now : ℕ) (nextId : UInt16) :
    (init id tokens peerLimit bucketSize concurrency ttl now nextId).Announced sha1 :=
  ⟨justified_nil, fun _ _ ⟨_, _, h, _⟩ => (nomatch h)⟩

variable (sha1 s event) in
/-- What a step does to the state: only datagrams and failures of lookups change it, and only datagrams
are heard. -/
theorem state_step_cases :
    (∃ message source input, event = .datagram message source input) ∨
    (∃ l finished, event = .lookupFinished ∧ s.finished = l :: finished ∧
      (s.step sha1 event).state =
        { s.state with routing := recordFailures s.state.routing l.result.failedNodes } ∧
      (s.step sha1 event).heard = s.heard) ∨
    ((s.step sha1 event).state = s.state ∧ (s.step sha1 event).heard = s.heard) := by
  cases event with
  | datagram message source input => exact .inl ⟨message, source, input, rfl⟩
  | begin addr => exact .inr (.inr ⟨rfl, rfl⟩)
  | cancel transactionId => exact .inr (.inr ⟨rfl, rfl⟩)
  | drop gone => exact .inr (.inr ⟨rfl, rfl⟩)
  | startLookup infoHash =>
      refine .inr (.inr ?_)
      simp only [step]
      split <;> exact ⟨rfl, rfl⟩
  | round lookup order outcomes =>
      refine .inr (.inr ?_)
      simp only [step]
      split
      · split <;> exact ⟨rfl, rfl⟩
      · exact ⟨rfl, rfl⟩
  | finish lookup order =>
      refine .inr (.inr ?_)
      simp only [step]
      split
      · split <;> exact ⟨rfl, rfl⟩
      · exact ⟨rfl, rfl⟩
  | abort lookup => exact .inr (.inr ⟨rfl, rfl⟩)
  | lookupFinished =>
      cases hfinished : s.finished with
      | nil =>
          refine .inr (.inr ?_)
          simp [step, hfinished]
      | cons l finished =>
          refine .inr (.inl ⟨l, finished, rfl, rfl, ?_⟩)
          simp [step, hfinished]

variable (sha1 s event) in
/-- The steps that answer no query: something may be heard, but the store is the same. -/
theorem step_of_not_query (hevent : ∀ transactionId query source input,
      event ≠ .datagram (.query transactionId query) source input) :
    (s.step sha1 event).state.peers = s.state.peers ∧
      ((s.step sha1 event).heard = s.heard ∨
        ∃ response source, (s.step sha1 event).heard = s.heard ++ [.response response source]) := by
  rcases state_step_cases sha1 s event with
    ⟨message, source, input, rfl⟩ | ⟨l, finished, -, -, hstate, hheard⟩ | ⟨hstate, hheard⟩
  · cases message with
    | query transactionId query => exact absurd rfl (hevent transactionId query source input)
    | response transactionId response =>
        simp only [step, incomingDatagram]
        split
        · refine ⟨?_, .inr ⟨response, source, rfl⟩⟩
          simp only [DhtState.learnResponse]
          split
          · rfl
          · split <;> rfl
        · exact ⟨rfl, .inl rfl⟩
    | error transactionId error => exact ⟨rfl, .inl rfl⟩
  · rw [hstate]
    exact ⟨rfl, .inl hheard⟩
  · rw [hstate]
    exact ⟨rfl, .inl hheard⟩

/-- An announcement is taken only after its token was handed out to its address. -/
theorem Announced.follows (hs : s.Announced sha1) {transactionId : Bytes} {query : Krpc.Query}
    {source : SocketAddr} {input : QueryInput}
    (hunforged : Unforged sha1 s (.datagram (.query transactionId query) source input)) :
    Follows sha1 s.heard (.query query source (s.state.handleQuery sha1 query source input).2
      (s.state.handleQuery sha1 query source input).1.tokens) := by
  cases query with
  | ping => trivial
  | findNode => trivial
  | getPeers id infoHash => rfl
  | announcePeer id infoHash port tok impliedPort =>
      cases hanswer : (s.state.handleQuery sha1 (.announcePeer id infoHash port tok impliedPort) source
          input).2 with
      | error error => trivial
      | ok response =>
          obtain ⟨-, secret, hknows, htoken⟩ := DhtState.announce_ok hanswer
          have hrotated := DhtState.handleQuery_announce_tokens sha1 s.state source input id infoHash port
            tok impliedPort
          rw [hrotated] at hknows ⊢
          obtain ⟨hgiven, hother⟩ := hunforged secret hknows htoken
          obtain ⟨askerId, hash, asker, given, tokens, hmem, hgivenToken⟩ := hgiven
          have hmade : given.token = some (token sha1 tokens.currentSecret asker.ip) := by
            obtain ⟨pre, post, hsplit⟩ := List.append_of_mem hmem
            exact hs.heard pre _ post hsplit
          have hsame : token sha1 tokens.currentSecret asker.ip = token sha1 secret source.ip := by
            rw [← htoken]
            exact Option.some.inj (hmade.symm.trans hgivenToken)
          obtain ⟨hsecret, hip⟩ := hother _ _ _ _ _ hmem hsame
          exact ⟨secret, hknows, htoken, askerId, hash, asker, given, tokens, hmem, hgivenToken, hip,
            hsecret⟩

/-- **What every step keeps**, when no token is forged. -/
theorem Announced.step (hs : s.Announced sha1) (hunforged : Unforged sha1 s event) :
    (s.step sha1 event).Announced sha1 := by
  by_cases hquery : ∃ transactionId query source input,
      event = .datagram (.query transactionId query) source input
  · obtain ⟨transactionId, query, source, input, rfl⟩ := hquery
    refine ⟨hs.heard.concat (hs.follows hunforged), ?_⟩
    intro infoHash peer hholds
    rcases DhtState.handleQuery_holds hholds with hold |
      ⟨id, port, tok, impliedPort, response, rfl, hanswer, rfl⟩
    · obtain ⟨id, port, tok, impliedPort, asker, response, tokens, hmem, hrest⟩ :=
        hs.stored infoHash peer hold
      exact ⟨id, port, tok, impliedPort, asker, response, tokens,
        List.mem_append_left _ hmem, hrest⟩
    · refine ⟨id, port, tok, impliedPort, source, response,
        (s.state.handleQuery sha1 (.announcePeer id infoHash port tok impliedPort) source
          input).1.tokens, ?_, rfl, (DhtState.announce_ok hanswer).1⟩
      rw [← hanswer]
      exact List.mem_append_right _ List.mem_cons_self
  · obtain ⟨hpeers, hheard⟩ := step_of_not_query sha1 s event
      fun transactionId query source input heq => hquery ⟨transactionId, query, source, input, heq⟩
    refine ⟨?_, ?_⟩
    · rcases hheard with hheard | ⟨response, source, hheard⟩
      · rw [hheard]
        exact hs.heard
      · rw [hheard]
        exact hs.heard.concat trivial
    · intro infoHash peer hholds
      rw [hpeers] at hholds
      obtain ⟨id, port, tok, impliedPort, asker, response, tokens, hmem, hrest⟩ :=
        hs.stored infoHash peer hholds
      refine ⟨id, port, tok, impliedPort, asker, response, tokens, ?_, hrest⟩
      rcases hheard with hheard | ⟨_, _, hheard⟩
      · rw [hheard]
        exact hmem
      · rw [hheard]
        exact List.mem_append_left _ hmem

end DhtNode

/-- **Only announcements from verified addresses are stored.**  In every run in which no token is
forged, a record was announced from its own IP address, with the port that was announced or the one it
came from, and this port is not zero.  The token of the announcement was made of the secret that was the
current or the previous one at that time, and had been handed out before to the same address.  An
announcement that is refused leaves the store as it is. -/
theorem announced_peers_verified (sha1 : Bytes → Bytes) (id : NodeId) (tokens : TokenManager)
    (peerLimit bucketSize concurrency ttl now : ℕ) (nextId : UInt16) (events : List DhtNodeEvent)
    (h : System.Along (DhtNode.Unforged sha1) (DhtNode.step sha1)
      (.init id tokens peerLimit bucketSize concurrency ttl now nextId) events) :
    let s := events.foldl (DhtNode.step sha1)
      (.init id tokens peerLimit bucketSize concurrency ttl now nextId)
    (∀ infoHash peer, s.state.peers.Holds infoHash peer →
      ∃ before after sender port tok impliedPort source response secrets,
        s.heard = before ++
          Heard.query (.announcePeer sender infoHash port tok impliedPort) source (.ok response)
            secrets :: after ∧
        peer.ip = source.ip ∧ peer.port = (if impliedPort then source.port else port) ∧
        peer.port ≠ 0 ∧
        ∃ secret, secrets.Knows secret ∧ tok = token sha1 secret peer.ip ∧
          ∃ askerId hash asker given earlier,
            Heard.query (.getPeers askerId hash) asker (.ok given) earlier ∈ before ∧
            given.token = some tok ∧ asker.ip = peer.ip ∧ earlier.currentSecret = secret) ∧
    ∀ sender infoHash port tok impliedPort source input error,
      (s.state.handleQuery sha1 (.announcePeer sender infoHash port tok impliedPort) source
        input).2 = .error error →
      (s.state.handleQuery sha1 (.announcePeer sender infoHash port tok impliedPort) source
        input).1.peers = s.state.peers := by
  intro s
  have hs : s.Announced sha1 := by
    refine h.invariant ?_
      (DhtNode.announced_init id tokens peerLimit bucketSize concurrency ttl now nextId)
    intro s event hs hunforged
    exact hs.step hunforged
  refine ⟨?_, fun _ _ _ _ _ _ _ _ => DhtState.handleQuery_error⟩
  intro infoHash peer hholds
  obtain ⟨sender, port, tok, impliedPort, source, response, secrets, hmem, rfl, hport⟩ :=
    hs.stored infoHash peer hholds
  obtain ⟨before, after, hsplit⟩ := List.append_of_mem hmem
  exact ⟨before, after, sender, port, tok, impliedPort, source, response, secrets, hsplit, rfl, rfl,
    hport, hs.heard before _ after hsplit⟩

namespace Sample

/-- SHA-1, for the secrets of the sample and the address of its node. -/
def digests (bytes : Bytes) : Bytes :=
  if bytes = List.replicate 20 1 ++ [10, 0, 0, 1] then
    [186, 252, 123, 151, 65, 253, 10, 13, 167, 189, 204, 116, 117, 44, 184, 185, 244, 167, 194, 115]
  else if bytes = List.replicate 20 2 ++ [10, 0, 0, 1] then
    [150, 164, 72, 2, 61, 221, 159, 176, 100, 245, 85, 115, 254, 198, 124, 220, 83, 229, 74, 254]
  else []

/-- A node that has just started, with secrets that last for five minutes. -/
def freshNode : DhtNode :=
  .init (.replicate 20 9) ⟨.replicate 20 1, .replicate 20 2, 0, 300000000000⟩ 50 8 3
    1800000000000 0 7

/-- A second has passed. -/
def afterOneSecond : QueryInput :=
  { tokenNow := 1000000000
    freshPrevious := .replicate 20 3
    freshCurrent := .replicate 20 4
    rotatedNow := 1000000000
    dueNow := 1000000000
    prunedNow := 1000000000
    pruneCutoff := (1000000000, 1000000000)
    getCutoff := (1000000000, 1000000000)
    announcedNow := 1000000000 }

/-- The first bytes of the digest. -/
def handedToken : Bytes := [186, 252, 123, 151, 65, 253, 10, 13]

/-- A node asks for peers, and announces itself with the token. -/
def askAndAnnounce : List DhtNodeEvent :=
  [.datagram (.query [0, 1] (.getPeers (.replicate 20 5) (.replicate 20 6))) nodeAddr afterOneSecond,
    .datagram (.query [0, 2] (.announcePeer (.replicate 20 5) (.replicate 20 6) 51413 handedToken
      false)) nodeAddr afterOneSecond]

end Sample

open Sample in
theorem announced_peers_verified_sample :
    (askAndAnnounce.foldl (DhtNode.step digests) freshNode).state.peers.Holds (.replicate 20 6)
      ⟨nodeAddr.ip, 51413⟩ ∧
    ∃ before after sender port tok impliedPort source response secrets,
      (askAndAnnounce.foldl (DhtNode.step digests) freshNode).heard = before ++
        Heard.query (.announcePeer sender (.replicate 20 6) port tok impliedPort) source (.ok response)
          secrets :: after ∧ nodeAddr.ip = source.ip := by
  have hholds : (askAndAnnounce.foldl (DhtNode.step digests) freshNode).state.peers.Holds
      (.replicate 20 6) ⟨nodeAddr.ip, 51413⟩ := ⟨_, 1000000000, rfl, rfl⟩
  have hunforged : System.Along (DhtNode.Unforged digests) (DhtNode.step digests) freshNode
      askAndAnnounce := by
    refine ⟨trivial, ?_, trivial⟩
    intro secret hknows htoken
    refine ⟨⟨_, _, _, _, _, List.mem_cons_self, rfl⟩, ?_⟩
    intro id infoHash asker answer tokens hmem hsame
    cases List.mem_singleton.1 hmem
    rcases hknows with rfl | rfl
    · exact ⟨rfl, rfl⟩
    · exact absurd hsame (by decide)
  refine ⟨hholds, ?_⟩
  obtain ⟨before, after, sender, port, tok, impliedPort, source, response, secrets, hheard, hip, -⟩ :=
    (announced_peers_verified digests _ _ _ _ _ _ _ _ askAndAnnounce hunforged).1 _ _ hholds
  exact ⟨before, after, sender, port, tok, impliedPort, source, response, secrets, hheard, hip⟩

end Tortillas
