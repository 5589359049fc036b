/-
**The iterative lookup of the DHT.**

`dht/lookup.rs`: a lookup asks the nodes that are closest to an info hash for peers, a few at a time,
and goes on with the nodes that they name.  In each round the candidates are sorted by their distance,
one of each address is kept, and the list is cut to the closest ones; those that were not asked yet are
asked next.  It ends when there is nobody left to ask, or when there are enough peers.  The result
names the nodes whose queries failed, by their identifiers.

Candidates with the same identifier have the same distance, and their order is not specified: it is an
input of the model, as are the outcomes of the queries and the order in which they come in.

Main definitions:

* `PeerLookup` — the state of a lookup, with `narrow`, `batch`, `round` and `result`;
* `PeerLookup.failed` — the contacts whose queries failed, which the code forgets.

Main results:

* `PeerLookup.Blames` — the result names exactly the identifiers of these contacts;
* `PeerLookup.Blames.round`, `PeerLookup.mem_failed_round` — what a round adds.
-/

import Tortillas.RoutingTable

set_option relaxedAutoImplicit false
set_option autoImplicit false

namespace Tortillas

/-- `LookupResult` -/
structure LookupOutcome where
  peers : List SocketAddr
  announceCandidates : List (Contact × Bytes)
  failedNodes : List NodeId

structure PeerLookup where
  infoHash : NodeId
  concurrency : ℕ
  peerLimit : ℕ
  bucketSize : ℕ
  candidates : List Contact
  queried : List SocketAddr
  peers : List SocketAddr
  tokens : HashMap Contact Bytes
  failedNodes : List NodeId
  /-- The contacts whose queries failed.  The code keeps their identifiers only. -/
  failed : List Contact

namespace PeerLookup

variable {l : PeerLookup} {order : List Contact} {contact : Contact}

def start (infoHash : NodeId) (seeds : List Contact) (concurrency peerLimit bucketSize : ℕ) :
    PeerLookup :=
  { infoHash
    concurrency := max concurrency 1
    peerLimit
    bucketSize
    candidates := seeds
    queried := []
    peers := []
    tokens := ∅
    failedNodes := []
    failed := [] }

/-- The candidates in this order are sorted by their distance. -/
def IsOrder (l : PeerLookup) (order : List Contact) : Prop :=
  order.Perm l.candidates ∧
    order.Pairwise fun a b => (distance l.infoHash a.id).le (distance l.infoHash b.id) = true

instance : Decidable (l.IsOrder order) := inferInstanceAs (Decidable (_ ∧ _))

/-- Keep the first contact of each address. -/
def uniqueAddrs : List SocketAddr → List Contact → List Contact
  | _, [] => []
  | seen, contact :: contacts =>
      if contact.addr ∈ seen then uniqueAddrs seen contacts
      else contact :: uniqueAddrs (contact.addr :: seen) contacts

/-- The candidates are sorted, one of each address is kept, and the list is cut. -/
def narrow (l : PeerLookup) (order : List Contact) : PeerLookup :=
  { l with candidates := (uniqueAddrs [] order).take l.bucketSize }

/-- The contacts to ask next. -/
def batch (l : PeerLookup) : List Contact :=
  (l.candidates.filter fun contact => contact.addr ∉ l.queried).take l.concurrency

def done (l : PeerLookup) : Bool := l.batch.isEmpty || decide (l.peerLimit ≤ l.peers.length)

/-- A token, if the response has one. -/
def takeToken (l : PeerLookup) (contact : Contact) (token : Option Bytes) : PeerLookup :=
  match token with
  | some token => { l with tokens := l.tokens.insert contact token }
  | none => l

/-- The peers, if the response has some and they are well formed. -/
def takePeers (l : PeerLookup) (values : Option (List Bytes)) : PeerLookup :=
  match values with
  | some values =>
      match decodePeers values with
      | .ok discovered => { l with peers := discovered ∪ l.peers }
      | .error _ => l
  | none => l

/-- The nodes, if the response has some and they are well formed. -/
def takeNodes (l : PeerLookup) (nodes : Option Bytes) : PeerLookup :=
  match nodes with
  | some nodes =>
      match decodeNodes nodes with
      | .ok discovered => { l with candidates := l.candidates ++ discovered }
      | .error _ => l
  | none => l

/-- The outcome of one query: a response, or a failure. -/
def absorb (l : PeerLookup) (contact : Contact) : Option Krpc.Response → PeerLookup
  | none =>
      { l with
        failedNodes := l.failedNodes.insert contact.id
        failed := l.failed ++ [contact] }
  | some response =>
      ((l.takeToken contact response.token).takePeers response.values).takeNodes response.nodes

def absorbAll (l : PeerLookup) : List (Contact × Option Krpc.Response) → PeerLookup
  | [] => l
  | (contact, outcome) :: outcomes => (l.absorb contact outcome).absorbAll outcomes

/-- One round: the contacts of the batch are asked. -/
def round (l : PeerLookup) (order : List Contact)
    (outcomes : List (Contact × Option Krpc.Response)) : PeerLookup :=
  let l := l.narrow order
  { l with queried := l.queried ++ l.batch.map Contact.addr }.absorbAll outcomes

def result (l : PeerLookup) : LookupOutcome :=
  { peers := l.peers.take l.peerLimit
    announceCandidates := l.tokens.toList.mergeSort fun a b =>
      (distance l.infoHash a.1.id).le (distance l.infoHash b.1.id)
    failedNodes := l.failedNodes }

/-! ### Failures -/

/-- The result names the identifiers of the contacts whose queries failed. -/
def Blames (l : PeerLookup) : Prop :=
  ∀ id, id ∈ l.failedNodes ↔ ∃ contact ∈ l.failed, contact.id = id

/-- A response adds no failure. -/
theorem absorb_some (contact : Contact) (response : Krpc.Response) :
    (l.absorb contact (some response)).failed = l.failed ∧
      (l.absorb contact (some response)).failedNodes = l.failedNodes := by
  have htoken : (l.takeToken contact response.token).failed = l.failed ∧
      (l.takeToken contact response.token).failedNodes = l.failedNodes := by
    unfold takeToken
    split <;> exact ⟨rfl, rfl⟩
  have hpeers (l : PeerLookup) : (l.takePeers response.values).failed = l.failed ∧
      (l.takePeers response.values).failedNodes = l.failedNodes := by
    unfold takePeers
    split
    · split <;> exact ⟨rfl, rfl⟩
    · exact ⟨rfl, rfl⟩
  have hnodes (l : PeerLookup) : (l.takeNodes response.nodes).failed = l.failed ∧
      (l.takeNodes response.nodes).failedNodes = l.failedNodes := by
    unfold takeNodes
    split
    · split <;> exact ⟨rfl, rfl⟩
    · exact ⟨rfl, rfl⟩
  simp only [absorb]
  exact ⟨(hnodes _).1.trans ((hpeers _).1.trans htoken.1),
    (hnodes _).2.trans ((hpeers _).2.trans htoken.2)⟩

theorem Blames.absorb (hl : l.Blames) (contact : Contact) (outcome : Option Krpc.Response) :
    (l.absorb contact outcome).Blames := by
  cases outcome with
  | none =>
      intro id
      simp only [PeerLookup.absorb, List.mem_insert_iff, List.mem_append, List.mem_singleton, hl id]
      constructor
      · rintro (rfl | ⟨old, hold, rfl⟩)
        · exact ⟨contact, .inr rfl, rfl⟩
        · exact ⟨old, .inl hold, rfl⟩
      · rintro ⟨found, hfound | rfl, rfl⟩
        · exact .inr ⟨found, hfound, rfl⟩
        · exact .inl rfl
  | some response =>
      intro id
      rw [(absorb_some contact response).1, (absorb_some contact response).2]
      exact hl id

theorem Blames.absorbAll (hl : l.Blames) (outcomes : List (Contact × Option Krpc.Response)) :
    (l.absorbAll outcomes).Blames := by
  induction outcomes generalizing l with
  | nil => exact hl
  | cons outcome outcomes ih => exact ih (hl.absorb outcome.1 outcome.2)

theorem Blames.round (hl : l.Blames) (order : List Contact)
    (outcomes : List (Contact × Option Krpc.Response)) : (l.round order outcomes).Blames := by
  have hasked : Blames { l.narrow order with
      queried := (l.narrow order).queried ++ (l.narrow order).batch.map Contact.addr } := hl
  exact hasked.absorbAll outcomes

theorem mem_failed_absorbAll (outcomes : List (Contact × Option Krpc.Response)) :
    contact ∈ (l.absorbAll outcomes).failed ↔ contact ∈ l.failed ∨ (contact, none) ∈ outcomes := by
  induction outcomes generalizing l with
  | nil => simp [absorbAll]
  | cons first outcomes ih =>
      obtain ⟨asked, outcome⟩ := first
      rw [absorbAll, ih]
      cases outcome with
      | none =>
          simp only [absorb, List.mem_append, List.mem_cons, List.not_mem_nil, false_or,
            Prod.mk.injEq, and_true, or_assoc]
      | some response =>
          rw [(absorb_some asked response).1]
          simp

/-- **The failures after a round**: those from before, and the queries of the round that failed. -/
theorem mem_failed_round (outcomes : List (Contact × Option Krpc.Response)) :
    contact ∈ (l.round order outcomes).failed ↔ contact ∈ l.failed ∨ (contact, none) ∈ outcomes :=
  mem_failed_absorbAll outcomes

end PeerLookup

end Tortillas
