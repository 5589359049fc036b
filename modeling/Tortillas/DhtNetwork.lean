/-
**What one node announces, another finds.**

A torrent is announced to the nodes that a lookup has got tokens from, and another torrent finds it in the answers to a
lookup of its own.  Many parties have a hand in this: the nodes of the network answer queries of anybody all the time,
lookups run side by side, the queries of a round are answered in any order, answers are lost, and some of the nodes that
are asked do not belong to the network and answer what they like.  A node knows neither the lookups that ask it nor the
other nodes, and a lookup keeps, of all that it was told, sets of peers and one token for each contact.

Whatever a step does, each node only sees a query, a response or a failure, so that its part of a run is a run of its
own; and an answer of a node of the network reaches a lookup as it was given, or not at all.

Main definitions:

* `DhtSearch` — a lookup under way, with the round that it is in;
* `DhtNetwork`, `dhtNetwork` — nodes, lookups, and the answers that have arrived;
* `DhtNetwork.Gave` — a node has given a token to an address.

Main results:

* `DhtNetwork.node_of_reach` — **a node does not see more than a run of its own**;
* `DhtNetwork.Vouched.apply` — what a lookup takes for a token was given by the node to the address that asked;
* `DhtNetwork.Delivered.apply` — the peers of an answer that has arrived are kept;
* `announced_peer_looked_up` — **an announcement after a lookup is accepted, and later lookups that ask the node
  find it.**
-/

import Tortillas.LookupRounds
import Tortillas.DhtDirectory

set_option relaxedAutoImplicit false
set_option autoImplicit false

namespace Tortillas

/-! ### Lookups -/

/-- A lookup under way, in the task of the node that has started it. -/
structure DhtSearch where
  /-- The address that its queries come from. -/
  source : SocketAddr
  id : NodeId
  lookup : PeerLookup
  /-- How the candidates of the round are sorted. -/
  order : List Contact
  /-- The contacts of the round whose queries are not over. -/
  asked : List Contact
  outcomes : List (Contact × Option Krpc.Response)

namespace DhtSearch

def start (source : SocketAddr) (id infoHash : NodeId) (seeds : List Contact)
    (concurrency peerLimit bucketSize : ℕ) : DhtSearch :=
  ⟨source, id, .start infoHash seeds concurrency peerLimit bucketSize, [], [], []⟩

/-- The batch of a round is asked. -/
def ask (s : DhtSearch) (order : List Contact) : DhtSearch :=
  { s with order, asked := (s.lookup.narrow order).batch }

/-- A query is over. -/
def settle (s : DhtSearch) (contact : Contact) (outcome : Option Krpc.Response) : DhtSearch :=
  { s with asked := s.asked.erase contact, outcomes := s.outcomes ++ [(contact, outcome)] }

/-- The round is over. -/
def absorb (s : DhtSearch) : DhtSearch :=
  { s with lookup := s.lookup.round s.order s.outcomes, order := [], outcomes := [] }

def query (s : DhtSearch) : Krpc.Query := .getPeers s.id s.lookup.infoHash

/-- `announce_peer` announces with the token of a candidate. -/
def announcement (s : DhtSearch) (port : UInt16) (tok : Bytes) : Krpc.Query :=
  .announcePeer s.id s.lookup.infoHash port tok false

end DhtSearch

/-- An answer of a node to a query of a lookup, and the time of the node. -/
structure NodeAnswer where
  search : ℕ
  infoHash : NodeId
  contact : Contact
  time : ℕ
  response : Krpc.Response

/-- The node has named as many peers as it answers with. -/
def NodeAnswer.Full (a : NodeAnswer) (limit : ℕ) : Prop :=
  ∃ peers, a.response.values = (if peers = [] then none else some (encodePeers peers)) ∧ peers.length = limit

/-! ### The network -/

/-- Nodes by their addresses, lookups, and the answers that have arrived. -/
structure DhtNetwork where
  nodes : SocketAddr → Option DirectoryRun
  searches : ℕ → Option DhtSearch
  answers : List NodeAnswer

inductive DhtNetworkInput
  /-- A node is asked or answered by anybody, or has noticed a failure. -/
  | traffic (addr : SocketAddr) (i : DhtStateInput)
  | search (k : ℕ) (source : SocketAddr) (id infoHash : NodeId) (seeds : List Contact)
      (concurrency peerLimit bucketSize : ℕ)
  /-- A round begins. -/
  | ask (k : ℕ) (order : List Contact)
  /-- A node of the network handles a query; its answer may be lost. -/
  | answer (k : ℕ) (contact : Contact) (input : QueryInput) (arrives : Bool)
  /-- A query fails, or somebody else answers it. -/
  | other (k : ℕ) (contact : Contact) (outcome : Option Krpc.Response)
  /-- A round ends. -/
  | absorb (k : ℕ)
  /-- A node of the network handles an announcement to a candidate. -/
  | announce (k : ℕ) (contact : Contact) (tok : Bytes) (port : UInt16) (input : QueryInput)

namespace DhtNetwork

/-- What a node sees of a step. -/
def seen (n : DhtNetwork) : DhtNetworkInput → Option (SocketAddr × DhtStateInput)
  | .traffic addr i => some (addr, i)
  | .answer k contact input _ => (n.searches k).map fun s => (contact.addr, .query s.query s.source input)
  | .announce k contact tok port input =>
      (n.searches k).map fun s => (contact.addr, .query (s.announcement port tok) s.source input)
  | _ => none

/-- What the node at the address of a contact answers a lookup. -/
def reply (sha1 : Bytes → Bytes) (n : DhtNetwork) (s : DhtSearch) (contact : Contact) (input : QueryInput) :
    Option Krpc.Response :=
  (n.nodes contact.addr).bind fun node => (node.state.handleQuery sha1 s.query s.source input).2.toOption

def nodesAfter (sha1 : Bytes → Bytes) (n : DhtNetwork) (i : DhtNetworkInput) (addr : SocketAddr) :
    Option DirectoryRun :=
  (n.nodes addr).map fun node =>
    match n.seen i with
    | some (addr', j) => if addr' = addr then node.apply sha1 j else node
    | none => node

/-- A lookup goes on. -/
def goesOn (n : DhtNetwork) (k : ℕ) (f : DhtSearch → DhtSearch) : ℕ → Option DhtSearch :=
  Function.update n.searches k ((n.searches k).map f)

def searchesAfter (sha1 : Bytes → Bytes) (n : DhtNetwork) : DhtNetworkInput → ℕ → Option DhtSearch
  | .search k source id infoHash seeds concurrency peerLimit bucketSize =>
      Function.update n.searches k (some (.start source id infoHash seeds concurrency peerLimit bucketSize))
  | .ask k order => n.goesOn k fun s => s.ask order
  | .answer k contact input arrives =>
      n.goesOn k fun s => s.settle contact (if arrives then n.reply sha1 s contact input else none)
  | .other k contact outcome => n.goesOn k fun s => s.settle contact outcome
  | .absorb k => n.goesOn k DhtSearch.absorb
  | _ => n.searches

/-- The answer that arrives in a step. -/
def arrived (sha1 : Bytes → Bytes) (n : DhtNetwork) : DhtNetworkInput → Option NodeAnswer
  | .answer k contact input true =>
      (n.searches k).bind fun s => (n.reply sha1 s contact input).map fun response =>
        ⟨k, s.lookup.infoHash, contact, input.tokenNow, response⟩
  | _ => none

def apply (sha1 : Bytes → Bytes) (n : DhtNetwork) (i : DhtNetworkInput) : DhtNetwork where
  nodes := n.nodesAfter sha1 i
  searches := n.searchesAfter sha1 i
  answers := n.answers ++ (n.arrived sha1 i).toList

/-- A lookup goes from round to round as long as it is not done; who has given a token is announced to when it is. -/
def Possible (n : DhtNetwork) : DhtNetworkInput → Prop
  | .traffic _ _ => True
  | .search k .. => n.searches k = none
  | .ask k order => ∃ s ∈ n.searches k, s.asked = [] ∧ s.outcomes = [] ∧ s.lookup.IsOrder order ∧
      (s.lookup.narrow order).done = false
  | .answer k contact _ _ => ∃ s ∈ n.searches k, contact ∈ s.asked ∧ n.nodes contact.addr ≠ none
  | .other k contact outcome => ∃ s ∈ n.searches k, contact ∈ s.asked ∧ (outcome = none ∨ n.nodes contact.addr = none)
  | .absorb k => ∃ s ∈ n.searches k, s.asked = [] ∧ s.outcomes ≠ []
  | .announce k contact tok port _ => port ≠ 0 ∧ ∃ s ∈ n.searches k, s.asked = [] ∧ s.outcomes = [] ∧
      (∃ order, s.lookup.IsOrder order ∧ (s.lookup.narrow order).done = true) ∧
      (contact, tok) ∈ s.lookup.result.announceCandidates

/-- What can happen, and what the clock of a node and its secrets do. -/
structure Admits (n : DhtNetwork) (i : DhtNetworkInput) : Prop where
  possible : n.Possible i
  node : ∀ addr j node, n.seen i = some (addr, j) → n.nodes addr = some node → node.Admits j

/-- No node loses a record because its clock is younger than the time to live. -/
def Spares (sha1 : Bytes → Bytes) (n : DhtNetwork) (i : DhtNetworkInput) : Prop :=
  ∀ addr j node, n.seen i = some (addr, j) → n.nodes addr = some node → node.Spares sha1 j

end DhtNetwork

/-- A network of nodes, each with its own settings, from its beginning. -/
def dhtNetwork (sha1 : Bytes → Bytes) (interval ttl : SocketAddr → ℕ) : System DhtNetwork DhtNetworkInput where
  init n := (∀ addr node, n.nodes addr = some node → (directorySystem sha1 (interval addr) (ttl addr)).init node) ∧
    (∀ k, n.searches k = none) ∧ n.answers = []
  step n i m := n.Admits i ∧ m = n.apply sha1 i

namespace DhtNetwork

variable {sha1 : Bytes → Bytes} {interval ttl : SocketAddr → ℕ} {n : DhtNetwork} {i : DhtNetworkInput}
  {addr : SocketAddr} {k : ℕ} {s t : DhtSearch}

/-! ### What a node sees -/

theorem nodes_apply {node' : DirectoryRun} (h : (n.apply sha1 i).nodes addr = some node') :
    ∃ node, n.nodes addr = some node ∧
      (node' = node ∨ ∃ j, n.seen i = some (addr, j) ∧ node' = node.apply sha1 j) := by
  obtain ⟨node, hnode, rfl⟩ := Option.map_eq_some_iff.1 h
  refine ⟨node, hnode, ?_⟩
  cases hseen : n.seen i with
  | none => exact .inl rfl
  | some e =>
      obtain ⟨addr', j⟩ := e
      by_cases haddr : addr' = addr
      · subst haddr
        exact .inr ⟨j, rfl, if_pos rfl⟩
      · exact .inl (if_neg haddr)

theorem nodes_apply_of_seen {j : DhtStateInput} (hseen : n.seen i = some (addr, j)) :
    (n.apply sha1 i).nodes addr = (n.nodes addr).map fun node => node.apply sha1 j := by
  simp only [apply, nodesAfter, hseen, if_true]

/-- **A node does not see more than a run of its own.** -/
theorem node_of_reach (h : (dhtNetwork sha1 interval ttl).Reach (Spares sha1) n) {node : DirectoryRun}
    (hnode : n.nodes addr = some node) :
    (directorySystem sha1 (interval addr) (ttl addr)).Reach (DirectoryRun.Spares sha1) node := by
  refine h.invariant (I := fun n => ∀ addr node, n.nodes addr = some node →
    (directorySystem sha1 (interval addr) (ttl addr)).Reach (DirectoryRun.Spares sha1) node) ?_ ?_ addr node hnode
  · rintro n ⟨hinit, -⟩ addr node hnode
    exact .init (hinit addr node hnode)
  · rintro n i m hn hspares ⟨hadmits, rfl⟩ addr node' hnode'
    obtain ⟨node, hnode, rfl | ⟨j, hseen, rfl⟩⟩ := nodes_apply hnode'
    · exact hn addr node' hnode
    · exact .step (hn addr node hnode) (hspares addr j node hseen hnode) ⟨hadmits.node addr j node hseen hnode, rfl⟩

/-- Inputs that are admitted make a run. -/
theorem reach_foldl (h : (dhtNetwork sha1 interval ttl).Reach (Spares sha1) n) {inputs : List DhtNetworkInput}
    (halong : System.Along (fun n i => n.Admits i ∧ n.Spares sha1 i) (DhtNetwork.apply sha1) n inputs) :
    (dhtNetwork sha1 interval ttl).Reach (Spares sha1) (inputs.foldl (DhtNetwork.apply sha1) n) := by
  refine h.steps ?_
  exact halong.imp (I := fun _ => True) (fun _ _ _ _ => trivial) (fun _ _ _ hstep => ⟨hstep.2, hstep.1, rfl⟩) trivial

/-! ### What a lookup is told -/

/-- A step of the network, as a lookup sees it. -/
inductive SearchStep (sha1 : Bytes → Bytes) (n : DhtNetwork) (i : DhtNetworkInput) (k : ℕ) (s t : DhtSearch) : Prop
  | stays (hsource : t.source = s.source) (hlookup : t.lookup = s.lookup) (houtcomes : t.outcomes = s.outcomes)
  | settles {contact : Contact} {outcome : Option Krpc.Response} (ht : t = s.settle contact outcome)
      (hanswer : ∀ response, outcome = some response → n.nodes contact.addr = none ∨
        ∃ input, i = .answer k contact input true ∧ n.reply sha1 s contact input = some response)
  | absorbs (ht : t = s.absorb)

theorem goesOn_of_eq (f : DhtSearch → DhtSearch) (h : n.searches k = some s) : n.goesOn k f k = some (f s) := by
  rw [goesOn, Function.update_self, h]
  rfl

theorem goesOn_of_ne {k' : ℕ} (f : DhtSearch → DhtSearch) (h : k ≠ k') : n.goesOn k' f k = n.searches k :=
  Function.update_of_ne h _ _

/-- **A lookup goes on in every step**, and what it is told by a node of the network is what the node has answered. -/
theorem exists_searchStep (sha1 : Bytes → Bytes) (hpossible : n.Possible i) (h : n.searches k = some s) :
    ∃ t, (n.apply sha1 i).searches k = some t ∧ SearchStep sha1 n i k s t := by
  cases i with
  | traffic addr j => exact ⟨s, h, .stays rfl rfl rfl⟩
  | announce k' contact tok port input => exact ⟨s, h, .stays rfl rfl rfl⟩
  | search k' source id infoHash seeds concurrency peerLimit bucketSize =>
      have hk : k ≠ k' := by
        rintro rfl
        cases h.symm.trans hpossible
      exact ⟨s, (Function.update_of_ne hk _ _).trans h, .stays rfl rfl rfl⟩
  | ask k' order =>
      by_cases hk : k = k'
      · subst hk
        exact ⟨_, goesOn_of_eq _ h, .stays rfl rfl rfl⟩
      · exact ⟨s, (goesOn_of_ne _ hk).trans h, .stays rfl rfl rfl⟩
  | absorb k' =>
      by_cases hk : k = k'
      · subst hk
        exact ⟨_, goesOn_of_eq _ h, .absorbs rfl⟩
      · exact ⟨s, (goesOn_of_ne _ hk).trans h, .stays rfl rfl rfl⟩
  | other k' contact outcome =>
      by_cases hk : k = k'
      · subst hk
        obtain ⟨s', -, -, hoptions⟩ := hpossible
        refine ⟨_, goesOn_of_eq _ h, .settles rfl fun response houtcome => .inl (hoptions.resolve_left ?_)⟩
        rw [houtcome]
        exact Option.some_ne_none response
      · exact ⟨s, (goesOn_of_ne _ hk).trans h, .stays rfl rfl rfl⟩
  | answer k' contact input arrives =>
      by_cases hk : k = k'
      · subst hk
        refine ⟨_, goesOn_of_eq _ h, .settles rfl fun response houtcome => .inr ⟨input, ?_⟩⟩
        cases arrives with
        | false => cases houtcome
        | true => exact ⟨rfl, houtcome⟩
      · exact ⟨s, (goesOn_of_ne _ hk).trans h, .stays rfl rfl rfl⟩

/-- A lookup that is there after a step has begun in it, or gone on. -/
theorem searches_apply (hpossible : n.Possible i) (h : (n.apply sha1 i).searches k = some t) :
    (∃ source id infoHash seeds concurrency peerLimit bucketSize,
      t = .start source id infoHash seeds concurrency peerLimit bucketSize) ∨
    ∃ s, n.searches k = some s ∧ SearchStep sha1 n i k s t := by
  cases hs : n.searches k with
  | some s =>
      obtain ⟨t', ht', hstep⟩ := exists_searchStep sha1 hpossible hs
      cases h.symm.trans ht'
      exact .inr ⟨s, rfl, hstep⟩
  | none =>
      have hnone (k' : ℕ) (f : DhtSearch → DhtSearch) : n.goesOn k' f k = none := by
        by_cases hk : k = k'
        · rw [goesOn, hk, Function.update_self, ← hk, hs]
          rfl
        · exact (goesOn_of_ne f hk).trans hs
      cases i with
      | search k' source id infoHash seeds concurrency peerLimit bucketSize =>
          by_cases hk : k = k'
          · subst hk
            exact .inl ⟨source, id, infoHash, seeds, concurrency, peerLimit, bucketSize,
              (Option.some.inj ((Function.update_self k _ _).symm.trans h)).symm⟩
          · cases (hs.symm.trans (Function.update_of_ne hk _ _).symm).trans h
      | traffic addr j => cases hs.symm.trans h
      | announce k' contact tok port input => cases hs.symm.trans h
      | ask k' order => cases (hnone k' _).symm.trans h
      | absorb k' => cases (hnone k' _).symm.trans h
      | other k' contact outcome => cases (hnone k' _).symm.trans h
      | answer k' contact input arrives => cases (hnone k' _).symm.trans h

namespace SearchStep

theorem source (h : SearchStep sha1 n i k s t) : t.source = s.source := by
  cases h with
  | stays hsource => exact hsource
  | settles ht => rw [ht, DhtSearch.settle]
  | absorbs ht => rw [ht, DhtSearch.absorb]

theorem infoHash (h : SearchStep sha1 n i k s t) : t.lookup.infoHash = s.lookup.infoHash := by
  cases h with
  | stays _ hlookup => rw [hlookup]
  | settles ht => rw [ht, DhtSearch.settle]
  | absorbs ht => rw [ht, DhtSearch.absorb, (s.lookup.round_spec s.order s.outcomes).1]

end SearchStep

/-! ### Tokens -/

/-- If the address is that of a node, the node has given the token to the other address. -/
def Gave (n : DhtNetwork) (addr source : SocketAddr) (tok : Bytes) : Prop :=
  ∀ node, n.nodes addr = some node → ∃ issued ∈ node.issued, issued.ip = source.ip ∧ issued.bytes = tok

/-- What was given stays given. -/
theorem mem_issued_apply {node : DirectoryRun} (j : DhtStateInput) {issued : IssuedToken} (h : issued ∈ node.issued) :
    issued ∈ (node.apply sha1 j).issued := by
  cases j with
  | response response source => exact h
  | failure id => exact h
  | query query source input =>
      simp only [DirectoryRun.apply]
      cases (node.state.handleQuery sha1 query source input).2 with
      | ok response => exact List.mem_append_left _ h
      | error error => exact h

theorem Gave.apply {source : SocketAddr} {tok : Bytes} (h : n.Gave addr source tok) :
    (n.apply sha1 i).Gave addr source tok := by
  intro node' hnode'
  obtain ⟨node, hnode, rfl | ⟨j, -, rfl⟩⟩ := nodes_apply hnode'
  · exact h node' hnode
  · obtain ⟨issued, hissued, htok⟩ := h node hnode
    exact ⟨issued, mem_issued_apply j hissued, htok⟩

theorem reply_eq_some {contact : Contact} {input : QueryInput} {response : Krpc.Response}
    (h : n.reply sha1 s contact input = some response) : ∃ node, n.nodes contact.addr = some node ∧
      (node.state.handleQuery sha1 s.query s.source input).2 = .ok response := by
  obtain ⟨node, hnode, hanswer⟩ := Option.bind_eq_some_iff.1 h
  refine ⟨node, hnode, ?_⟩
  cases hresult : (node.state.handleQuery sha1 s.query s.source input).2 with
  | error error =>
      rw [hresult] at hanswer
      cases hanswer
  | ok response' =>
      rw [hresult] at hanswer
      cases hanswer
      rfl

/-- A token in an answer of a node has been given by it. -/
theorem gave_of_reply {contact : Contact} {input : QueryInput} {response : Krpc.Response} {tok : Bytes}
    (hs : n.searches k = some s) (h : n.reply sha1 s contact input = some response) (htok : response.token = some tok) :
    (n.apply sha1 (.answer k contact input true)).Gave contact.addr s.source tok := by
  obtain ⟨node, hnode, hanswer⟩ := reply_eq_some h
  have hseen : n.seen (.answer k contact input true) = some (contact.addr, .query s.query s.source input) := by
    rw [seen, hs]
    rfl
  intro node' hnode'
  rw [nodes_apply_of_seen hseen, hnode] at hnode'
  cases hnode'
  refine ⟨⟨s.source.ip, input.tokenNow, tok⟩, ?_, rfl, rfl⟩
  simp only [DirectoryRun.apply, hanswer, htok]
  exact List.mem_append_right _ List.mem_cons_self

/-- What a lookup takes for a token of a node was given by it. -/
structure Vouched (n : DhtNetwork) : Prop where
  told : ∀ k s, n.searches k = some s → ∀ contact response tok, (contact, some response) ∈ s.outcomes →
    response.token = some tok → n.Gave contact.addr s.source tok
  kept : ∀ k s, n.searches k = some s → ∀ contact tok, s.lookup.tokens.get? contact = some tok →
    n.Gave contact.addr s.source tok

theorem Vouched.apply (h : n.Vouched) (hpossible : n.Possible i) : (n.apply sha1 i).Vouched := by
  constructor
  · intro k t ht contact response tok hmem htok
    rcases searches_apply hpossible ht with ⟨_, _, _, _, _, _, _, rfl⟩ | ⟨s, hs, hstep⟩
    · cases hmem
    · rw [hstep.source]
      cases hstep with
      | stays _ _ houtcomes =>
          rw [houtcomes] at hmem
          exact (h.told k s hs contact response tok hmem htok).apply
      | absorbs ht =>
          rw [ht] at hmem
          cases hmem
      | @settles contact' outcome ht hanswer =>
          rw [ht] at hmem
          rcases List.mem_append.1 hmem with hmem | hmem
          · exact (h.told k s hs contact response tok hmem htok).apply
          · cases List.mem_singleton.1 hmem
            rcases hanswer response rfl with hnobody | ⟨input, rfl, hreply⟩
            · intro node' hnode'
              obtain ⟨node, hnode, -⟩ := nodes_apply hnode'
              cases hnobody.symm.trans hnode
            · exact gave_of_reply hs hreply htok
  · intro k t ht contact tok hget
    rcases searches_apply hpossible ht with ⟨_, _, _, _, _, _, _, rfl⟩ | ⟨s, hs, hstep⟩
    · cases hget
    · rw [hstep.source]
      cases hstep with
      | stays _ hlookup =>
          rw [hlookup] at hget
          exact (h.kept k s hs contact tok hget).apply
      | settles ht =>
          rw [ht] at hget
          exact (h.kept k s hs contact tok hget).apply
      | absorbs ht =>
          rw [ht] at hget
          rcases PeerLookup.get?_tokens_absorbAll s.outcomes hget with hold | ⟨response, hmem, htok⟩
          · exact (h.kept k s hs contact tok hold).apply
          · exact (h.told k s hs contact response tok hmem htok).apply

theorem vouched_of_reach (h : (dhtNetwork sha1 interval ttl).Reach (Spares sha1) n) : n.Vouched := by
  refine h.invariant ?_ ?_
  · rintro n ⟨-, hsearches, -⟩
    constructor
    · intro k s hs
      cases (hsearches k).symm.trans hs
    · intro k s hs
      cases (hsearches k).symm.trans hs
  · rintro n i m hn - ⟨hadmits, rfl⟩
    exact hn.apply hadmits.possible

/-! ### Answers -/

/-- The peers of an answer that has arrived are kept, at the latest when the round is over. -/
def Delivered (n : DhtNetwork) : Prop :=
  ∀ a ∈ n.answers, ∃ s, n.searches a.search = some s ∧ s.lookup.infoHash = a.infoHash ∧
    ((a.contact, some a.response) ∈ s.outcomes ∨
      ∀ peer ∈ PeerLookup.peersOf a.response.values, peer ∈ s.lookup.peers)

theorem arrived_eq_some {a : NodeAnswer} (h : n.arrived sha1 i = some a) :
    ∃ s input, i = .answer a.search a.contact input true ∧ n.searches a.search = some s ∧
      s.lookup.infoHash = a.infoHash ∧ input.tokenNow = a.time ∧
      n.reply sha1 s a.contact input = some a.response := by
  cases i with
  | answer k contact input arrives =>
      cases arrives with
      | false => cases h
      | true =>
          obtain ⟨s, hs, hreply⟩ := Option.bind_eq_some_iff.1 h
          obtain ⟨response, hresponse, rfl⟩ := Option.map_eq_some_iff.1 hreply
          exact ⟨s, input, rfl, hs, rfl, rfl, hresponse⟩
  | _ => cases h

theorem mem_answers_apply {a : NodeAnswer} (h : a ∈ (n.apply sha1 i).answers) :
    a ∈ n.answers ∨ n.arrived sha1 i = some a := by
  rcases List.mem_append.1 h with hold | hnew
  · exact .inl hold
  · exact .inr (Option.mem_toList.1 hnew)

theorem Delivered.apply (h : n.Delivered) (hpossible : n.Possible i) : (n.apply sha1 i).Delivered := by
  intro a ha
  rcases mem_answers_apply ha with hold | hnew
  · obtain ⟨s, hs, hinfo, hcases⟩ := h a hold
    obtain ⟨t, ht, hstep⟩ := exists_searchStep sha1 hpossible hs
    refine ⟨t, ht, hstep.infoHash.trans hinfo, ?_⟩
    cases hstep with
    | stays _ hlookup houtcomes =>
        rw [hlookup, houtcomes]
        exact hcases
    | settles ht =>
        rw [ht]
        exact hcases.imp_left (List.mem_append_left _)
    | absorbs ht =>
        right
        intro peer hpeer
        rw [ht]
        change peer ∈ (PeerLookup.absorbAll _ s.outcomes).peers
        rw [PeerLookup.mem_peers_absorbAll]
        rcases hcases with hmem | hkept
        · exact .inr ⟨_, hmem, hpeer⟩
        · exact .inl (hkept peer hpeer)
  · obtain ⟨s, input, rfl, hs, hinfo, -, hreply⟩ := arrived_eq_some hnew
    refine ⟨_, goesOn_of_eq _ hs, hinfo, .inl ?_⟩
    simp only [DhtSearch.settle, if_true, hreply]
    exact List.mem_append_right _ List.mem_cons_self

theorem delivered_of_reach (h : (dhtNetwork sha1 interval ttl).Reach (Spares sha1) n) : n.Delivered := by
  refine h.invariant ?_ ?_
  · rintro n ⟨-, -, hanswers⟩ a ha
    rw [hanswers] at ha
    cases ha
  · rintro n i m hn - ⟨hadmits, rfl⟩
    exact hn.apply hadmits.possible

/-! ### What is announced -/

/-- The answers with peers are read as the peers of IPv4. -/
theorem peersOf_of_values {values : Option (List Bytes)} {peers : List SocketAddr}
    (h : values = if peers = [] then none else some (encodePeers peers)) :
    PeerLookup.peersOf values = peers.filter fun peer => peer.IsV4 := by
  rw [h]
  split
  · rename_i hnil
    rw [hnil]
    rfl
  · rw [PeerLookup.peersOf, decodePeers_encodePeers]
    rfl

/-- The node knows of an announcement, and the answers that it has given behind the first ones name the endpoint. -/
structure Remembers (sha1 : Bytes → Bytes) (interval ttl : SocketAddr → ℕ) (infoHash : NodeId) (addr peer : SocketAddr)
    (since limit count : ℕ) (n : DhtNetwork) : Prop where
  node : ∃ node, n.nodes addr = some node ∧ node.Sound sha1 (interval addr) (ttl addr) ∧
    node.AnnouncedSince infoHash peer since ∧ since ≤ node.now ∧ node.state.peerLimit = limit
  first : count ≤ n.answers.length
  named : ∀ a ∈ n.answers.drop count, a.contact.addr = addr → a.infoHash = infoHash → a.time ≤ since + ttl addr →
    peer ∈ PeerLookup.peersOf a.response.values ∨ a.Full limit

/-- **Every step keeps what is remembered.** -/
theorem Remembers.apply (hpos : ∀ addr, 0 < interval addr) {infoHash : NodeId} {peer : SocketAddr}
    {since limit count : ℕ} (hv4 : peer.IsV4)
    (h : n.Remembers sha1 interval ttl infoHash addr peer since limit count) (hadmits : n.Admits i)
    (hspares : n.Spares sha1 i) :
    (n.apply sha1 i).Remembers sha1 interval ttl infoHash addr peer since limit count := by
  obtain ⟨node, hnode, hs, hsince, hnow, hlimit⟩ := h.node
  refine ⟨?_, ?_, ?_⟩
  · cases hafter : (n.apply sha1 i).nodes addr with
    | none => cases (Option.map_eq_none_iff.1 hafter).symm.trans hnode
    | some node' =>
        refine ⟨node', rfl, ?_⟩
        obtain ⟨node'', hnode'', rfl | ⟨j, hseen, rfl⟩⟩ := nodes_apply hafter
        · cases hnode.symm.trans hnode''
          exact ⟨hs, hsince, hnow, hlimit⟩
        · cases hnode.symm.trans hnode''
          have hreads := hadmits.node addr j node hseen hnode
          obtain ⟨hsince', hnow'⟩ := hsince.apply hnow hreads
          exact ⟨hs.apply (hpos addr) hreads (hspares addr j node hseen hnode), hsince', hnow',
            (DirectoryRun.peerLimit_apply node j).trans hlimit⟩
  · change count ≤ (n.answers ++ _).length
    rw [List.length_append]
    exact h.first.trans (Nat.le_add_right _ _)
  · intro a ha haddr hinfo hlive
    change a ∈ (n.answers ++ _).drop count at ha
    rw [List.drop_append_of_le_length h.first] at ha
    rcases List.mem_append.1 ha with hold | hnew
    · exact h.named a hold haddr hinfo hlive
    · obtain ⟨s, input, rfl, hsearch, hhash, htime, hreply⟩ := arrived_eq_some (Option.mem_toList.1 hnew)
      obtain ⟨node', hnode', hanswer⟩ := reply_eq_some hreply
      rw [haddr] at hnode'
      cases hnode.symm.trans hnode'
      have hseen : n.seen (.answer a.search a.contact input true) = some (addr, .query s.query s.source input) := by
        rw [seen, hsearch, ← haddr]
        rfl
      have hquery : s.query = .getPeers s.id infoHash := by rw [DhtSearch.query, hhash, hinfo]
      rw [hquery] at hseen hanswer
      rw [← htime] at hlive
      obtain ⟨response, peers, hanswer', hvalues, -, -, hmem⟩ := DirectoryRun.answer_names hs
        (hadmits.node addr _ node hseen hnode) (hspares addr _ node hseen hnode) hsince hlive
      cases hanswer.symm.trans hanswer'
      rcases hmem with hmem | hfull
      · left
        rw [peersOf_of_values hvalues]
        exact List.mem_filter.2 ⟨hmem, decide_eq_true hv4⟩
      · exact .inr ⟨peers, hvalues, hfull.trans hlimit⟩

end DhtNetwork

/-- A peer of a lookup is in its result, unless the result has as many as it may have. -/
theorem PeerLookup.mem_result {l : PeerLookup} {peer : SocketAddr} (h : peer ∈ l.peers) :
    peer ∈ l.result.peers ∨ l.result.peers.length = l.peerLimit := by
  change peer ∈ l.peers.take l.peerLimit ∨ (l.peers.take l.peerLimit).length = l.peerLimit
  by_cases hall : l.peers.length ≤ l.peerLimit
  · rw [List.take_of_length_le hall]
    exact .inl h
  · rw [List.length_take]
    exact .inr (by omega)

/-- **An announcement after a lookup is accepted, and later lookups that ask the node find it.**  In every run of a
network, with any traffic, any number of lookups side by side, lost answers, and strangers among the nodes: whatever a
lookup has kept as the token of a node was given by this node to the address of the lookup; an announcement with it
within the interval of the node is accepted; and of all lookups of the info hash that get an answer of this node before
the time to live is over, those whose round is over have the endpoint in their result, or as many others as the result or
the answer may have. -/
theorem announced_peer_looked_up {sha1 : Bytes → Bytes} {interval ttl : SocketAddr → ℕ}
    (hpos : ∀ addr, 0 < interval addr) {n : DhtNetwork}
    (h : (dhtNetwork sha1 interval ttl).Reach (DhtNetwork.Spares sha1) n) {k : ℕ} {search : DhtSearch}
    (hsearch : n.searches k = some search) {contact : Contact} {tok : Bytes} {port : UInt16} {input : QueryInput}
    (hadmits : n.Admits (.announce k contact tok port input))
    (hspares : n.Spares sha1 (.announce k contact tok port input)) {node : DirectoryRun}
    (hnode : n.nodes contact.addr = some node) (hsource : search.source.ip.isUnspecified = false) :
    ∃ issued ∈ node.issued, issued.ip = search.source.ip ∧ issued.bytes = tok ∧
      (input.tokenNow ≤ issued.issuedAt + interval contact.addr →
        (node.state.handleQuery sha1 (search.announcement port tok) search.source input).2 =
          .ok (.pong node.state.id) ∧
        ∀ inputs : List DhtNetworkInput,
          System.Along (fun n i => n.Admits i ∧ n.Spares sha1 i) (DhtNetwork.apply sha1)
            (n.apply sha1 (.announce k contact tok port input)) inputs →
          let m := inputs.foldl (DhtNetwork.apply sha1) (n.apply sha1 (.announce k contact tok port input))
          let peer : SocketAddr := ⟨search.source.ip, port⟩
          peer.IsV4 → ∀ a ∈ m.answers.drop n.answers.length, a.contact.addr = contact.addr →
            a.infoHash = search.lookup.infoHash → a.time ≤ input.tokenNow + ttl contact.addr →
            ∃ s, m.searches a.search = some s ∧ s.lookup.infoHash = search.lookup.infoHash ∧
              (s.outcomes = [] → peer ∈ s.lookup.result.peers ∨ s.lookup.result.peers.length = s.lookup.peerLimit ∨
                a.Full node.state.peerLimit)) := by
  have hpossible := hadmits.possible
  obtain ⟨hport, s, hs, -, -, -, hcandidate⟩ := hpossible
  cases hsearch.symm.trans hs
  have hget : search.lookup.tokens.get? contact = some tok :=
    HashMap.mem_toList_iff.1 (List.mem_mergeSort.1 hcandidate)
  obtain ⟨issued, hissued, hip, rfl⟩ := (DhtNetwork.vouched_of_reach h).kept k search hsearch contact tok hget node hnode
  refine ⟨issued, hissued, hip, rfl, fun htime => ?_⟩
  have hseen : n.seen (.announce k contact issued.bytes port input) =
      some (contact.addr, .query (search.announcement port issued.bytes) search.source input) := by
    rw [DhtNetwork.seen, hsearch]
    rfl
  have hreads := hadmits.node _ _ node hseen hnode
  have hsound := DirectoryRun.sound_of_reach (hpos contact.addr) (DhtNetwork.node_of_reach h hnode)
  have hvalid : PeerStore.Valid (DhtState.announcedPeer search.source port false) := by
    rintro (hzero | hunspecified)
    · exact hport hzero
    · cases hsource.symm.trans hunspecified
  obtain ⟨hanswer, hannounced⟩ := DirectoryRun.announce_with_token (hpos contact.addr) hsound hissued hip.symm hreads
    htime hvalid
  refine ⟨hanswer, fun inputs halong => ?_⟩
  intro m peer hv4 a ha haddr hinfo hlive
  have hstart : (n.apply sha1 (.announce k contact issued.bytes port input)).Remembers sha1 interval ttl
      search.lookup.infoHash contact.addr peer input.tokenNow node.state.peerLimit n.answers.length := by
    refine ⟨⟨_, ?_, hsound.apply (hpos contact.addr) hreads (hspares _ _ node hseen hnode), hannounced,
      Nat.le_refl _, DirectoryRun.peerLimit_apply node _⟩, ?_, ?_⟩
    · rw [DhtNetwork.nodes_apply_of_seen hseen, hnode]
      rfl
    · change n.answers.length ≤ (n.answers ++ []).length
      rw [List.append_nil]
    · intro a ha
      change a ∈ (n.answers ++ []).drop n.answers.length at ha
      rw [List.append_nil, List.drop_length] at ha
      cases ha
  have hremembers := halong.invariant (I := fun m => m.Remembers sha1 interval ttl search.lookup.infoHash contact.addr
    peer input.tokenNow node.state.peerLimit n.answers.length)
    (fun m i hm hstep => hm.apply hpos hv4 hstep.1 hstep.2) hstart
  have hreach := DhtNetwork.reach_foldl (h.step hspares ⟨hadmits, rfl⟩) halong
  obtain ⟨s, hs, hhash, hkept⟩ := DhtNetwork.delivered_of_reach hreach a (List.mem_of_mem_drop ha)
  refine ⟨s, hs, hhash.trans hinfo, fun hover => ?_⟩
  rcases hremembers.named a ha haddr hinfo hlive with hnamed | hfull
  · have hmem : peer ∈ s.lookup.peers := by
      rcases hkept with hpending | hkept
      · rw [hover] at hpending
        cases hpending
      · exact hkept peer hnamed
    exact (PeerLookup.mem_result hmem).imp_right .inl
  · exact .inr (.inr hfull)

namespace DhtNetwork

variable {sha1 : Bytes → Bytes} {n : DhtNetwork} {i : DhtNetworkInput}

/-- A step that no node sees. -/
theorem step_of_unseen (hpossible : n.Possible i) (hseen : n.seen i = none) : n.Admits i ∧ n.Spares sha1 i := by
  refine ⟨⟨hpossible, ?_⟩, ?_⟩
  · intro addr j node h
    cases hseen.symm.trans h
  · intro addr j node h
    cases hseen.symm.trans h

/-- A step that a node sees. -/
theorem step_of_seen {addr : SocketAddr} {j : DhtStateInput} {node : DirectoryRun} (hpossible : n.Possible i)
    (hseen : n.seen i = some (addr, j)) (hnode : n.nodes addr = some node) (hadmits : node.Admits j)
    (hspares : node.Spares sha1 j) : n.Admits i ∧ n.Spares sha1 i := by
  refine ⟨⟨hpossible, ?_⟩, ?_⟩
  · intro addr' j' node' h hnode'
    cases hseen.symm.trans h
    cases hnode.symm.trans hnode'
    exact hadmits
  · intro addr' j' node' h hnode'
    cases hseen.symm.trans h
    cases hnode.symm.trans hnode'
    exact hspares

end DhtNetwork

namespace Sample

def dhtContact : Contact := ⟨.replicate 20 7, sixAddr⟩

/-- A network of one node. -/
def dhtStart : DhtNetwork :=
  ⟨fun addr => if addr = dhtContact.addr then some hourDirectory else none, fun _ => none, []⟩

theorem nodes_dhtStart : dhtStart.nodes dhtContact.addr = some hourDirectory := by
  change (if dhtContact.addr = dhtContact.addr then some hourDirectory else none) = _
  exact if_pos rfl

def dhtBegun (source : SocketAddr) : DhtSearch :=
  .start source (.replicate 20 5) (.replicate 20 7) [dhtContact] 1 10 1

/-- A lookup that asks the node. -/
def lookUp (k : ℕ) (source : SocketAddr) (now : ℕ) : List DhtNetworkInput :=
  [.search k source (.replicate 20 5) (.replicate 20 7) [dhtContact] 1 10 1, .ask k [dhtContact],
    .answer k dhtContact (storeCallAt now) true, .absorb k]

/-- The lookup has begun, and its round. -/
def dhtAsking (n : DhtNetwork) (k : ℕ) (source : SocketAddr) : DhtNetwork :=
  (n.apply tokenDigests (.search k source (.replicate 20 5) (.replicate 20 7) [dhtContact] 1 10 1)).apply tokenDigests
    (.ask k [dhtContact])

section LookUp

variable {n : DhtNetwork} {node : DirectoryRun} {k : ℕ} {source : SocketAddr} {now : ℕ}

theorem searches_dhtAsking : (dhtAsking n k source).searches k = some ((dhtBegun source).ask [dhtContact]) :=
  DhtNetwork.goesOn_of_eq _ (Function.update_self k _ _)

theorem nodes_dhtAsking (hnode : n.nodes dhtContact.addr = some node) :
    (dhtAsking n k source).nodes dhtContact.addr = some node := by
  change ((n.nodes dhtContact.addr).map id).map id = some node
  rw [hnode]
  rfl

theorem seen_dhtAsking : (dhtAsking n k source).seen (.answer k dhtContact (storeCallAt now) true) =
    some (dhtContact.addr, .query (.getPeers (.replicate 20 5) (.replicate 20 7)) source (storeCallAt now)) := by
  rw [DhtNetwork.seen, searches_dhtAsking]
  rfl

theorem nodes_lookUp (hnode : n.nodes dhtContact.addr = some node) :
    ((lookUp k source now).foldl (DhtNetwork.apply tokenDigests) n).nodes dhtContact.addr =
      some (node.apply tokenDigests
        (.query (.getPeers (.replicate 20 5) (.replicate 20 7)) source (storeCallAt now))) := by
  change (((dhtAsking n k source).apply tokenDigests (.answer k dhtContact (storeCallAt now) true)).nodes
    dhtContact.addr).map id = _
  rw [DhtNetwork.nodes_apply_of_seen seen_dhtAsking, nodes_dhtAsking hnode]
  rfl

theorem along_lookUp (hfree : n.searches k = none) (hnode : n.nodes dhtContact.addr = some node)
    (hadmits : node.Admits (.query (.getPeers (.replicate 20 5) (.replicate 20 7)) source (storeCallAt now)))
    (hspares : node.Spares tokenDigests
      (.query (.getPeers (.replicate 20 5) (.replicate 20 7)) source (storeCallAt now))) :
    System.Along (fun n i => n.Admits i ∧ n.Spares tokenDigests i) (DhtNetwork.apply tokenDigests) n
      (lookUp k source now) := by
  have horder : (PeerLookup.start (.replicate 20 7) [dhtContact] 1 10 1).IsOrder [dhtContact] := by decide +kernel
  have hdone : ((PeerLookup.start (.replicate 20 7) [dhtContact] 1 10 1).narrow [dhtContact]).done = false := by
    decide +kernel
  have hbatch : ((PeerLookup.start (.replicate 20 7) [dhtContact] 1 10 1).narrow [dhtContact]).batch = [dhtContact] := by
    decide +kernel
  have hasked : ((dhtBegun source).ask [dhtContact]).asked = [dhtContact] := hbatch
  refine ⟨DhtNetwork.step_of_unseen hfree rfl,
    DhtNetwork.step_of_unseen ⟨dhtBegun source, Function.update_self k _ _, rfl, rfl, horder, hdone⟩ rfl,
    DhtNetwork.step_of_seen ⟨_, searches_dhtAsking, ?_, ?_⟩ seen_dhtAsking (nodes_dhtAsking hnode) hadmits hspares,
    DhtNetwork.step_of_unseen ⟨_, DhtNetwork.goesOn_of_eq _ searches_dhtAsking, ?_, ?_⟩ rfl, trivial⟩
  · rw [hasked]
    exact List.mem_cons_self
  · change (dhtAsking n k source).nodes dhtContact.addr ≠ none
    rw [nodes_dhtAsking hnode]
    exact Option.some_ne_none node
  · change ((dhtBegun source).ask [dhtContact]).asked.erase dhtContact = []
    rw [hasked, List.erase_cons_head]
  · exact List.cons_ne_nil _ _

end LookUp

def dhtLookedUp : DhtNetwork := (lookUp 0 nodeAddr 3601000000000).foldl (DhtNetwork.apply tokenDigests) dhtStart

def dhtSearch : DhtSearch := (dhtLookedUp.searches 0).getD (dhtBegun nodeAddr)

theorem searches_dhtLookedUp : dhtLookedUp.searches 0 = some dhtSearch := by
  have hsome : (dhtLookedUp.searches 0).isSome = true := by decide +kernel
  obtain ⟨s, hs⟩ := Option.isSome_iff_exists.1 hsome
  rw [dhtSearch, hs, Option.getD_some]

theorem reach_dhtLookedUp :
    (dhtNetwork tokenDigests (fun _ => 300000000000) fun _ => 1800000000000).Reach (DhtNetwork.Spares tokenDigests)
      dhtLookedUp := by
  refine DhtNetwork.reach_foldl (.init ⟨?_, fun _ => rfl, rfl⟩) (along_lookUp rfl nodes_dhtStart ?_ ?_)
  · intro addr node hnode
    rw [dhtStart] at hnode
    dsimp only at hnode
    split at hnode
    · cases hnode
      exact ⟨.replicate 20 9, 8, .replicate 20 1, .replicate 20 2, 3600000000000, 50, by decide, rfl⟩
    · cases hnode
  · intro _
    exact ⟨⟨rfl, by decide +kernel, by decide +kernel, by decide +kernel⟩, oneTime_storeCallAt _⟩
  · rintro c ⟨⟩
    exact .inl (by decide +kernel)

/-- The endpoint is announced another second later. -/
def dhtAnnouncement : DhtNetworkInput := .announce 0 dhtContact hourToken.bytes 6881 (storeCallAt 3602000000000)

def dhtAnnounced : DhtNetwork := dhtLookedUp.apply tokenDigests dhtAnnouncement

theorem possible_dhtAnnouncement : dhtLookedUp.Possible dhtAnnouncement := by
  have hover : dhtSearch.asked = [] ∧ dhtSearch.outcomes.isEmpty = true := by decide +kernel
  have horder : dhtSearch.lookup.IsOrder [dhtContact, ⟨.replicate 20 5, nodeAddr⟩] := by decide +kernel
  have hdone : (dhtSearch.lookup.narrow [dhtContact, ⟨.replicate 20 5, nodeAddr⟩]).done = true := by decide +kernel
  have htoken : (dhtContact, hourToken.bytes) ∈ dhtSearch.lookup.tokens.toList := by decide +kernel
  exact ⟨by decide, dhtSearch, searches_dhtLookedUp, hover.1, List.isEmpty_iff.1 hover.2, ⟨_, horder, hdone⟩,
    List.mem_mergeSort.2 htoken⟩

theorem seen_dhtAnnouncement : dhtLookedUp.seen dhtAnnouncement = some (dhtContact.addr,
    .query (dhtSearch.announcement 6881 hourToken.bytes) dhtSearch.source (storeCallAt 3602000000000)) := by
  rw [dhtAnnouncement, DhtNetwork.seen, searches_dhtLookedUp]
  rfl

theorem nodes_dhtLookedUp : dhtLookedUp.nodes dhtContact.addr = some (hourDirectory.apply tokenDigests asked) :=
  nodes_lookUp nodes_dhtStart

theorem admits_dhtAnnouncement :
    dhtLookedUp.Admits dhtAnnouncement ∧ dhtLookedUp.Spares tokenDigests dhtAnnouncement := by
  refine DhtNetwork.step_of_seen possible_dhtAnnouncement seen_dhtAnnouncement nodes_dhtLookedUp ?_ ?_
  · intro _
    exact ⟨⟨rfl, by decide +kernel, by decide +kernel, by decide +kernel⟩, oneTime_storeCallAt _⟩
  · have hold : (hourDirectory.apply tokenDigests asked).storeRun.store.ttl ≤
        (storeCallAt 3602000000000).announcedNow := by decide +kernel
    intro c _
    exact .inl hold

/-- A later lookup of the info hash. -/
def dhtFound : DhtNetwork := (lookUp 1 nodeAddr 3603000000000).foldl (DhtNetwork.apply tokenDigests) dhtAnnounced

theorem along_dhtFound : System.Along (fun n i => n.Admits i ∧ n.Spares tokenDigests i) (DhtNetwork.apply tokenDigests)
    dhtAnnounced (lookUp 1 nodeAddr 3603000000000) := by
  have hfree : (dhtAnnounced.searches 1).isNone = true := by decide +kernel
  have hsource : dhtSearch.source = nodeAddr := by decide +kernel
  have hquery : dhtSearch.announcement 6881 hourToken.bytes =
      .announcePeer (.replicate 20 5) (.replicate 20 7) 6881 hourToken.bytes false := by decide +kernel
  have hnode : dhtAnnounced.nodes dhtContact.addr = some ((hourDirectory.apply tokenDigests asked).apply tokenDigests
      (.query (.announcePeer (.replicate 20 5) (.replicate 20 7) 6881 hourToken.bytes false) nodeAddr
        (storeCallAt 3602000000000))) := by
    rw [dhtAnnounced, DhtNetwork.nodes_apply_of_seen seen_dhtAnnouncement, nodes_dhtLookedUp, hsource, hquery]
    rfl
  refine along_lookUp (Option.isNone_iff_eq_none.1 hfree) hnode ?_ ?_
  · intro _
    exact ⟨⟨rfl, by decide +kernel, by decide +kernel, by decide +kernel⟩, oneTime_storeCallAt _⟩
  · rintro c ⟨⟩
    exact .inl (by decide +kernel)

end Sample

open Sample in
/-- The endpoint is announced after a lookup, and found by a later one. -/
theorem announced_peer_looked_up_sample : ∃ s, dhtFound.searches 1 = some s ∧
    (⟨nodeAddr.ip, 6881⟩ ∈ s.lookup.result.peers ∨ s.lookup.result.peers.length = s.lookup.peerLimit ∨
      ∃ a ∈ dhtFound.answers, a.Full 50) := by
  have hsource : dhtSearch.source = nodeAddr := by decide +kernel
  have hspecified : dhtSearch.source.ip.isUnspecified = false := by decide +kernel
  obtain ⟨issued, hissued, -, -, hfound⟩ := announced_peer_looked_up (fun _ => by decide) reach_dhtLookedUp
    searches_dhtLookedUp admits_dhtAnnouncement.1 admits_dhtAnnouncement.2 nodes_dhtLookedUp hspecified
  have hissuedAt : ∀ issued ∈ (hourDirectory.apply tokenDigests asked).issued, issued.issuedAt = 3601000000000 := by
    decide +kernel
  obtain ⟨-, hlater⟩ := hfound (by rw [hissuedAt issued hissued]; decide)
  have hanswer : ∃ a ∈ dhtFound.answers.drop dhtLookedUp.answers.length, a.search = 1 ∧
      a.contact.addr = dhtContact.addr ∧ a.infoHash = dhtSearch.lookup.infoHash ∧
      a.time ≤ (storeCallAt 3602000000000).tokenNow + 1800000000000 := by decide +kernel
  obtain ⟨a, ha, hsearch, haddr, hinfo, htime⟩ := hanswer
  have hv4 : (⟨dhtSearch.source.ip, 6881⟩ : SocketAddr).IsV4 := by
    rw [hsource]
    exact ⟨_, rfl⟩
  obtain ⟨s, hs, -, hnamed⟩ := hlater _ along_dhtFound hv4 a ha haddr hinfo htime
  change dhtFound.searches a.search = some s at hs
  rw [hsearch] at hs
  have hover : (dhtFound.searches 1).map (fun s => s.outcomes.isEmpty) = some true := by decide +kernel
  rw [hs] at hover
  refine ⟨s, hs, ?_⟩
  rw [← hsource]
  refine (hnamed (List.isEmpty_iff.1 (Option.some.inj hover))).imp_right (Or.imp_right fun hfull => ?_)
  exact ⟨a, List.mem_of_mem_drop ha, hfull⟩

end Tortillas
