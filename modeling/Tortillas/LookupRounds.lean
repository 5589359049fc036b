/-
**The lookup ends, and has asked the closest nodes.**

`dht/lookup.rs`: each round of a lookup asks nodes that were not asked before, and adds the nodes that they name to
the candidates, which are then cut to the `K` closest.  A node that is cut is not needed any more: there are `K`
addresses that are at least as close, and later rounds only bring in closer ones in their place.

Nodes that are named have IPv4 addresses, and there are only so many of them, so that a lookup comes to an end even
if every node that is asked names new ones.

The addresses are what counts: an address may be named under several identifiers, and the closest of them is the one
that is kept.

Main definitions:

* `PeerLookup.namedNodes`, `PeerLookup.namedPeers` — what an answer names;
* `LookupRun`, `lookupSystem` — a lookup with the outcomes of its queries, and a round as a step;
* `LookupRun.seen` — the seeds, and all nodes that were named;
* `LookupRun.Sound` — what holds after every round.

Main results:

* `PeerLookup.exists_uniqueAddrs` — of each address, the closest contact is kept;
* `LookupRun.Sound.step` — each round keeps the invariant;
* `lookup_exhaustive` — **a lookup ends, asks nobody twice, and has asked the closest when it ends**.
-/

import Tortillas.ClosestContacts
import Tortillas.DhtNode

set_option relaxedAutoImplicit false
set_option autoImplicit false

namespace Tortillas

namespace PeerLookup

variable {l : PeerLookup} {order : List Contact} {outcomes : List (Contact × Option Krpc.Response)}

/-! ### What an answer names -/

/-- The nodes of an answer, if they are well formed. -/
def nodesOf (nodes : Option Bytes) : List Contact :=
  match nodes with
  | some nodes => (decodeNodes nodes).toOption.getD []
  | none => []

/-- The peers of an answer, if they are well formed. -/
def peersOf (values : Option (List Bytes)) : List SocketAddr :=
  match values with
  | some values => (decodePeers values).toOption.getD []
  | none => []

/-- The nodes that are named in the outcome of a query. -/
def namedNodes (outcome : Contact × Option Krpc.Response) : List Contact := nodesOf (outcome.2.bind (·.nodes))

/-- The peers that are named in the outcome of a query. -/
def namedPeers (outcome : Contact × Option Krpc.Response) : List SocketAddr := peersOf (outcome.2.bind (·.values))

theorem takeNodes_eq (nodes : Option Bytes) :
    l.takeNodes nodes = { l with candidates := l.candidates ++ nodesOf nodes } := by
  unfold takeNodes nodesOf
  cases nodes with
  | none => simp
  | some nodes =>
      dsimp only
      cases decodeNodes nodes with
      | error e => simp [Except.toOption]
      | ok discovered => rfl

theorem takePeers_eq (values : Option (List Bytes)) :
    l.takePeers values = { l with peers := peersOf values ∪ l.peers } := by
  unfold takePeers peersOf
  cases values with
  | none => rfl
  | some values =>
      dsimp only
      cases decodePeers values with
      | error e => rfl
      | ok discovered => rfl

theorem takeToken_eq (contact : Contact) (token : Option Bytes) :
    l.takeToken contact token =
      { l with tokens := token.elim l.tokens fun token => l.tokens.insert contact token } := by
  cases token <;> rfl

/-- **What the outcome of a query adds to the lookup**; who is blamed for a failure does not matter here. -/
theorem absorb_eq (contact : Contact) (outcome : Option Krpc.Response) :
    l.absorb contact outcome =
      { l with
        candidates := l.candidates ++ namedNodes (contact, outcome)
        peers := namedPeers (contact, outcome) ∪ l.peers
        tokens := (outcome.bind (·.token)).elim l.tokens fun token => l.tokens.insert contact token
        failedNodes := (l.absorb contact outcome).failedNodes
        failed := (l.absorb contact outcome).failed } := by
  cases outcome with
  | none => simp [absorb, namedNodes, namedPeers, nodesOf, peersOf]
  | some response =>
      simp only [absorb, takeNodes_eq, takePeers_eq, takeToken_eq]
      rfl

/-- What stays the same in a lookup when outcomes come in. -/
structure SameSearch (l l' : PeerLookup) : Prop where
  infoHash : l'.infoHash = l.infoHash
  concurrency : l'.concurrency = l.concurrency
  peerLimit : l'.peerLimit = l.peerLimit
  bucketSize : l'.bucketSize = l.bucketSize
  queried : l'.queried = l.queried

theorem sameSearch_absorbAll (outcomes : List (Contact × Option Krpc.Response)) :
    SameSearch l (l.absorbAll outcomes) := by
  induction outcomes generalizing l with
  | nil => exact ⟨rfl, rfl, rfl, rfl, rfl⟩
  | cons outcome outcomes ih =>
      have hrest : SameSearch (l.absorb outcome.1 outcome.2) (l.absorbAll (outcome :: outcomes)) := ih
      rw [absorb_eq] at hrest
      exact ⟨hrest.infoHash, hrest.concurrency, hrest.peerLimit, hrest.bucketSize, hrest.queried⟩

theorem candidates_absorbAll (outcomes : List (Contact × Option Krpc.Response)) :
    (l.absorbAll outcomes).candidates = l.candidates ++ outcomes.flatMap namedNodes := by
  induction outcomes generalizing l with
  | nil => simp [absorbAll]
  | cons outcome outcomes ih => rw [absorbAll, ih, absorb_eq, List.flatMap_cons, List.append_assoc]

theorem mem_peers_absorbAll {addr : SocketAddr} (outcomes : List (Contact × Option Krpc.Response)) :
    addr ∈ (l.absorbAll outcomes).peers ↔ addr ∈ l.peers ∨ ∃ outcome ∈ outcomes, addr ∈ namedPeers outcome := by
  induction outcomes generalizing l with
  | nil => simp [absorbAll]
  | cons outcome outcomes ih =>
      rw [absorbAll, ih, absorb_eq, List.mem_union_iff]
      simp only [List.mem_cons, exists_eq_or_imp]
      tauto

/-- No peer is counted twice. -/
theorem nodup_peers_absorbAll (outcomes : List (Contact × Option Krpc.Response)) (h : l.peers.Nodup) :
    (l.absorbAll outcomes).peers.Nodup := by
  induction outcomes generalizing l with
  | nil => exact h
  | cons outcome outcomes ih =>
      refine ih ?_
      rw [absorb_eq]
      exact h.union _

/-- A token comes from the answer of its contact. -/
theorem get?_tokens_absorbAll {contact : Contact} {token : Bytes}
    (outcomes : List (Contact × Option Krpc.Response))
    (h : (l.absorbAll outcomes).tokens.get? contact = some token) :
    l.tokens.get? contact = some token ∨
      ∃ response, (contact, some response) ∈ outcomes ∧ response.token = some token := by
  induction outcomes generalizing l with
  | nil => exact .inl h
  | cons outcome outcomes ih =>
      rcases ih h with hold | ⟨response, hmem, htoken⟩
      · rw [absorb_eq] at hold
        obtain ⟨asked, outcome⟩ := outcome
        dsimp only at hold
        cases htoken : outcome.bind (·.token) with
        | none =>
            rw [htoken] at hold
            exact .inl hold
        | some new =>
            rw [htoken] at hold
            rcases HashMap.get?_of_get?_insert hold with ⟨rfl, rfl⟩ | ⟨-, hold⟩
            · obtain ⟨response, rfl, hresponse⟩ := Option.bind_eq_some_iff.1 htoken
              exact .inr ⟨response, List.mem_cons_self, hresponse⟩
            · exact .inl hold
      · exact .inr ⟨response, List.mem_cons_of_mem _ hmem, htoken⟩

/-! ### The candidates that are kept -/

theorem uniqueAddrs_sublist (seen : List SocketAddr) (contacts : List Contact) :
    (uniqueAddrs seen contacts).Sublist contacts := by
  induction contacts generalizing seen with
  | nil => exact List.Sublist.refl _
  | cons contact contacts ih =>
      rw [uniqueAddrs]
      split
      · exact (ih seen).cons contact
      · exact (ih _).cons_cons contact

/-- No address is kept twice. -/
theorem nodup_uniqueAddrs (seen : List SocketAddr) (contacts : List Contact) :
    ((uniqueAddrs seen contacts).map Contact.addr).Nodup ∧
      ∀ contact ∈ uniqueAddrs seen contacts, contact.addr ∉ seen := by
  induction contacts generalizing seen with
  | nil => exact ⟨List.nodup_nil, nofun⟩
  | cons contact contacts ih =>
      rw [uniqueAddrs]
      split
      · exact ih seen
      · rename_i hnew
        obtain ⟨hnodup, hfresh⟩ := ih (contact.addr :: seen)
        constructor
        · rw [List.map_cons, List.nodup_cons]
          refine ⟨fun hmem => ?_, hnodup⟩
          obtain ⟨other, hother, heq⟩ := List.mem_map.1 hmem
          exact hfresh other hother (heq ▸ List.mem_cons_self)
        · rw [List.forall_mem_cons]
          exact ⟨hnew, fun other hother => fun hseen => hfresh other hother (List.mem_cons_of_mem _ hseen)⟩

/-- **Of each address, the closest contact is kept.** -/
theorem exists_uniqueAddrs {key : Contact → ℕ} {contacts : List Contact}
    (hsorted : contacts.Pairwise fun a b => key a ≤ key b) {seen : List SocketAddr} {contact : Contact}
    (h : contact ∈ contacts) (hseen : contact.addr ∉ seen) :
    ∃ kept ∈ uniqueAddrs seen contacts, key kept ≤ key contact ∧ kept.addr = contact.addr := by
  induction contacts generalizing seen with
  | nil => cases h
  | cons first contacts ih =>
      obtain ⟨hfirst, hrest⟩ := List.pairwise_cons.1 hsorted
      rw [uniqueAddrs]
      split
      · rename_i hold
        rcases List.mem_cons.1 h with rfl | h
        · exact absurd hold hseen
        · exact ih hrest h hseen
      · by_cases haddr : first.addr = contact.addr
        · refine ⟨first, List.mem_cons_self, ?_, haddr⟩
          rcases List.mem_cons.1 h with rfl | h
          · exact Nat.le_refl _
          · exact hfirst contact h
        · rcases List.mem_cons.1 h with rfl | h
          · exact absurd rfl haddr
          · have hunseen : contact.addr ∉ first.addr :: seen := by
              rw [List.mem_cons]
              rintro (heq | hmem)
              · exact haddr heq.symm
              · exact hseen hmem
            obtain ⟨kept, hkept, hle⟩ := ih hrest h hunseen
            exact ⟨kept, List.mem_cons_of_mem _ hkept, hle⟩

/-- Contacts of different addresses are all kept. -/
theorem uniqueAddrs_eq_self {seen : List SocketAddr} {contacts : List Contact}
    (h : (contacts.map Contact.addr).Nodup) (hseen : ∀ contact ∈ contacts, contact.addr ∉ seen) :
    uniqueAddrs seen contacts = contacts := by
  induction contacts generalizing seen with
  | nil => rfl
  | cons contact contacts ih =>
      rw [List.map_cons, List.nodup_cons] at h
      rw [List.forall_mem_cons] at hseen
      rw [uniqueAddrs, if_neg hseen.1, ih h.2]
      intro other hother hmem
      rcases List.mem_cons.1 hmem with heq | hmem
      · exact h.1 (heq ▸ List.mem_map_of_mem hother)
      · exact hseen.2 other hother hmem

/-- An address is among those up to the distance of a contact, or there are as many of them as candidates are
kept. -/
def Covers (l : PeerLookup) (contact : Contact) : Prop :=
  contact.addr ∈ namesUpTo (contactDistance l.infoHash) Contact.addr l.candidates
      (contactDistance l.infoHash contact) ∨
    l.bucketSize ≤ (namesUpTo (contactDistance l.infoHash) Contact.addr l.candidates
      (contactDistance l.infoHash contact)).card

/-- The candidates that are kept are some of the candidates, of different addresses, and not too many. -/
theorem narrow_spec (horder : l.IsOrder order) :
    (∀ contact ∈ (l.narrow order).candidates, contact ∈ l.candidates) ∧
      ((l.narrow order).candidates.map Contact.addr).Nodup ∧
      (l.narrow order).candidates.length ≤ l.bucketSize := by
  refine ⟨fun contact hcontact => ?_, ?_, List.length_take_le _ _⟩
  · exact horder.1.mem_iff.1 ((uniqueAddrs_sublist [] order).subset (List.mem_of_mem_take hcontact))
  · exact (nodup_uniqueAddrs [] order).1.sublist ((List.take_sublist _ _).map _)

/-- **A candidate that is cut is not needed any more.** -/
theorem Covers.narrow {contact : Contact} (h : l.Covers contact) (horder : l.IsOrder order) :
    (l.narrow order).Covers contact := by
  have hsorted : order.Pairwise fun a b =>
      contactDistance l.infoHash a ≤ contactDistance l.infoHash b :=
    horder.2.imp contactDistance_le_iff.1
  have hkept : namesUpTo (contactDistance l.infoHash) Contact.addr l.candidates
        (contactDistance l.infoHash contact) ⊆
      namesUpTo (contactDistance l.infoHash) Contact.addr (uniqueAddrs [] order)
        (contactDistance l.infoHash contact) := by
    refine namesUpTo_mono fun other hother => ?_
    exact exists_uniqueAddrs hsorted (horder.1.mem_iff.2 hother) List.not_mem_nil
  have hunique := hsorted.sublist (uniqueAddrs_sublist [] order)
  have htake : namesUpTo (contactDistance l.infoHash) Contact.addr (uniqueAddrs [] order)
      (contactDistance l.infoHash contact) ⊆ _ ∨ _ :=
    namesUpTo_take hunique (nodup_uniqueAddrs [] order).1 l.bucketSize
  rcases htake with hall | hfull
  · rcases h with hmem | hmany
    · exact .inl (hall (hkept hmem))
    · exact .inr (hmany.trans (Finset.card_le_card (hkept.trans hall)))
  · exact .inr hfull

/-- More candidates cover more. -/
theorem Covers.mono {l' : PeerLookup} {contact : Contact} (h : l.Covers contact)
    (hinfo : l'.infoHash = l.infoHash) (hsize : l'.bucketSize = l.bucketSize)
    (hsub : ∀ other ∈ l.candidates, other ∈ l'.candidates) : l'.Covers contact := by
  have hnames : namesUpTo (contactDistance l.infoHash) Contact.addr l.candidates
        (contactDistance l.infoHash contact) ⊆
      namesUpTo (contactDistance l.infoHash) Contact.addr l'.candidates
        (contactDistance l.infoHash contact) :=
    namesUpTo_mono fun other hother => ⟨other, hsub other hother, Nat.le_refl _, rfl⟩
  unfold Covers at h ⊢
  rw [hinfo, hsize]
  exact h.imp (fun hmem => hnames hmem) fun hmany => hmany.trans (Finset.card_le_card hnames)

theorem covers_of_mem {contact : Contact} (h : contact ∈ l.candidates) : l.Covers contact :=
  .inl (mem_namesUpTo.2 ⟨contact, h, Nat.le_refl _, rfl⟩)

/-! ### A round -/

/-- The contacts that are asked are candidates of different addresses, none of which was asked before. -/
theorem batch_spec (h : (l.candidates.map Contact.addr).Nodup) :
    (∀ contact ∈ l.batch, contact ∈ l.candidates ∧ contact.addr ∉ l.queried) ∧
      (l.batch.map Contact.addr).Nodup := by
  constructor
  · intro contact hcontact
    have hmem := List.mem_filter.1 (List.mem_of_mem_take hcontact)
    simpa using hmem
  · exact h.sublist (((List.take_sublist _ _).trans List.filter_sublist).map _)

/-- Nobody is asked when all candidates were asked. -/
theorem batch_eq_nil_iff (h : 0 < l.concurrency) :
    l.batch = [] ↔ ∀ contact ∈ l.candidates, contact.addr ∈ l.queried := by
  rw [batch, List.take_eq_nil_iff, or_iff_right (Nat.pos_iff_ne_zero.1 h), List.filter_eq_nil_iff]
  simp

/-- **The lookup after a round.** -/
theorem round_spec (order : List Contact) (outcomes : List (Contact × Option Krpc.Response)) :
    (l.round order outcomes).infoHash = l.infoHash ∧
      (l.round order outcomes).concurrency = l.concurrency ∧
      (l.round order outcomes).peerLimit = l.peerLimit ∧
      (l.round order outcomes).bucketSize = l.bucketSize ∧
      (l.round order outcomes).queried = l.queried ++ (l.narrow order).batch.map Contact.addr ∧
      (l.round order outcomes).candidates = (l.narrow order).candidates ++ outcomes.flatMap namedNodes := by
  have hsame := sameSearch_absorbAll outcomes (l := { l.narrow order with
    queried := (l.narrow order).queried ++ (l.narrow order).batch.map Contact.addr })
  exact ⟨hsame.infoHash, hsame.concurrency, hsame.peerLimit, hsame.bucketSize, hsame.queried,
    candidates_absorbAll outcomes⟩

end PeerLookup

/-! ### There are only so many addresses -/

/-- The address and the port of an IPv4 peer, as a number of 48 bits. -/
def addrNumber (addr : SocketAddr) : ℕ :=
  match addr.ip with
  | .v4 octets => beNat (octets.toList ++ beBytes 2 addr.port.toNat)
  | .v6 _ => 0

theorem addrNumber_lt (addr : SocketAddr) : addrNumber addr < 2 ^ 48 := by
  unfold addrNumber
  split
  · rename_i octets _
    have hlt := beNat_lt (octets.toList ++ beBytes 2 addr.port.toNat)
    rw [List.length_append, Vector.length_toList, length_beBytes] at hlt
    exact hlt
  · decide

theorem addrNumber_inj {a b : SocketAddr} (ha : a.IsV4) (hb : b.IsV4) (h : addrNumber a = addrNumber b) :
    a = b := by
  obtain ⟨ip, port⟩ := a
  obtain ⟨ip', port'⟩ := b
  obtain ⟨octets, rfl⟩ := ha
  obtain ⟨octets', rfl⟩ := hb
  have hbytes : octets.toList ++ beBytes 2 port.toNat = octets'.toList ++ beBytes 2 port'.toNat :=
    beNat_inj (by simp) h
  obtain ⟨hoctets, hport⟩ := List.append_inj hbytes (by simp)
  have hnumber : port.toNat = port'.toNat := by
    have hmod := congrArg beNat hport
    rw [beNat_beBytes, beNat_beBytes] at hmod
    have hlt := port.toNat_lt
    have hlt' := port'.toNat_lt
    omega
  rw [Vector.toList_inj.1 hoctets, UInt16.toNat_inj.1 hnumber]

/-- Different addresses, each of them one of a list or one of IPv4. -/
theorem length_addrs_le {addrs known : List SocketAddr} (hnodup : addrs.Nodup)
    (h : ∀ addr ∈ addrs, addr ∈ known ∨ addr.IsV4) : addrs.length ≤ known.length + 2 ^ 48 := by
  have hsplit := List.length_eq_length_filter_add (l := addrs) (· ∈ known)
  have hold : (addrs.filter (· ∈ known)).length ≤ known.length := by
    refine (List.Nodup.subperm (hnodup.sublist List.filter_sublist) fun addr haddr => ?_).length_le
    simpa using (List.mem_filter.1 haddr).2
  have hv4 : ∀ addr ∈ addrs.filter fun addr => !decide (addr ∈ known), addr.IsV4 := by
    intro addr haddr
    obtain ⟨hmem, hnew⟩ := List.mem_filter.1 haddr
    exact (h addr hmem).resolve_left (by simpa using hnew)
  have hnew : (addrs.filter fun addr => !decide (addr ∈ known)).length ≤ 2 ^ 48 := by
    have hnumbers : ((addrs.filter fun addr => !decide (addr ∈ known)).map addrNumber).Nodup := by
      refine List.Nodup.map_on (fun a ha b hb heq => ?_) (hnodup.sublist List.filter_sublist)
      exact addrNumber_inj (hv4 a ha) (hv4 b hb) heq
    have hcard := Finset.card_le_card (s := ((addrs.filter fun addr => !decide (addr ∈ known)).map
      addrNumber).toFinset) (t := Finset.range (2 ^ 48)) fun n hn => by
        obtain ⟨addr, -, rfl⟩ := List.mem_map.1 (List.mem_toFinset.1 hn)
        exact Finset.mem_range.2 (addrNumber_lt addr)
    rwa [List.toFinset_card_of_nodup hnumbers, List.length_map, Finset.card_range] at hcard
  omega

theorem isV4_decodeChunks (n : ℕ) (bytes : Bytes) : ∀ contact ∈ decodeChunks n bytes, contact.addr.IsV4 := by
  induction n generalizing bytes with
  | zero => exact nofun
  | succ n ih =>
      rw [decodeChunks, List.forall_mem_cons]
      exact ⟨⟨_, rfl⟩, ih _⟩

/-- Nodes that are named have IPv4 addresses. -/
theorem isV4_namedNodes (outcome : Contact × Option Krpc.Response) :
    ∀ contact ∈ PeerLookup.namedNodes outcome, contact.addr.IsV4 := by
  unfold PeerLookup.namedNodes PeerLookup.nodesOf
  split
  · unfold decodeNodes
    split
    · exact nofun
    · exact isV4_decodeChunks _ _
  · exact nofun

/-! ### Runs -/

/-- A lookup, with the outcomes of its queries in the order in which they came, and the number of its rounds. -/
structure LookupRun where
  lookup : PeerLookup
  history : List (Contact × Option Krpc.Response)
  rounds : ℕ

/-- What happens in a round: how the candidates are sorted, and what becomes of the queries. -/
structure LookupRound where
  order : List Contact
  outcomes : List (Contact × Option Krpc.Response)

namespace LookupRun

def start (infoHash : NodeId) (seeds : List Contact) (concurrency peerLimit bucketSize : ℕ) : LookupRun :=
  ⟨.start infoHash seeds concurrency peerLimit bucketSize, [], 0⟩

def advance (s : LookupRun) (i : LookupRound) : LookupRun :=
  ⟨s.lookup.round i.order i.outcomes, s.history ++ i.outcomes, s.rounds + 1⟩

/-- The seeds, and the nodes that were named. -/
def seen (seeds : List Contact) (s : LookupRun) : List Contact :=
  seeds ++ s.history.flatMap PeerLookup.namedNodes

/-- No node has named another one. -/
def Quiet (s : LookupRun) : Prop := ∀ outcome ∈ s.history, PeerLookup.namedNodes outcome = []

/-- The peers that were named. -/
def found (s : LookupRun) : Finset SocketAddr := (s.history.flatMap PeerLookup.namedPeers).toFinset

end LookupRun

/-- The loop of a lookup. -/
def lookupSystem (infoHash : NodeId) (seeds : List Contact) (concurrency peerLimit bucketSize : ℕ) :
    System LookupRun LookupRound where
  init s := s = .start infoHash seeds concurrency peerLimit bucketSize
  step s i t := DhtNode.IsRound s.lookup i.order i.outcomes ∧ t = s.advance i

namespace LookupRun

variable {infoHash : NodeId} {seeds : List Contact} {concurrency peerLimit bucketSize : ℕ} {s : LookupRun}

/-- What holds after every round. -/
structure Sound (infoHash : NodeId) (seeds : List Contact) (peerLimit bucketSize : ℕ) (s : LookupRun) : Prop where
  infoHash : s.lookup.infoHash = infoHash
  concurrency : 0 < s.lookup.concurrency
  peerLimit : s.lookup.peerLimit = peerLimit
  bucketSize : s.lookup.bucketSize = bucketSize
  seen : ∀ contact ∈ s.lookup.candidates, contact ∈ s.seen seeds
  covers : ∀ contact ∈ s.seen seeds, s.lookup.Covers contact
  queried : s.lookup.queried.Nodup
  history : (s.history.map fun outcome => outcome.1.addr).Perm s.lookup.queried
  asked : ∀ addr ∈ s.lookup.queried, ∃ contact ∈ s.seen seeds, contact.addr = addr
  rounds : s.rounds ≤ s.lookup.queried.length
  nodup : s.lookup.peers.Nodup
  peers : ∀ addr, addr ∈ s.lookup.peers ↔ ∃ outcome ∈ s.history, addr ∈ PeerLookup.namedPeers outcome
  tokens : ∀ contact token, s.lookup.tokens.get? contact = some token →
    ∃ response, (contact, some response) ∈ s.history ∧ response.token = some token
  quiet : s.Quiet → s.lookup.queried = [] ∨
    (s.lookup.candidates.map Contact.addr).Nodup ∧ s.lookup.candidates.length ≤ s.lookup.bucketSize ∧
      ∀ addr ∈ s.lookup.queried, addr ∈ s.lookup.candidates.map Contact.addr

theorem sound_start (infoHash : NodeId) (seeds : List Contact) (concurrency peerLimit bucketSize : ℕ) :
    (start infoHash seeds concurrency peerLimit bucketSize).Sound infoHash seeds peerLimit bucketSize where
  infoHash := rfl
  concurrency := lt_of_lt_of_le Nat.zero_lt_one (Nat.le_max_right _ _)
  peerLimit := rfl
  bucketSize := rfl
  seen contact hcontact := List.mem_append_left _ hcontact
  covers contact hcontact := by
    refine PeerLookup.covers_of_mem ?_
    rwa [seen, start, List.flatMap_nil, List.append_nil] at hcontact
  queried := List.nodup_nil
  history := List.Perm.refl _
  asked := nofun
  rounds := Nat.le_refl _
  nodup := List.nodup_nil
  peers addr := ⟨nofun, nofun⟩
  tokens contact token h := by cases h
  quiet _ := .inl rfl

theorem seen_advance (s : LookupRun) (i : LookupRound) :
    (s.advance i).seen seeds = s.seen seeds ++ i.outcomes.flatMap PeerLookup.namedNodes := by
  rw [seen, seen, advance, List.flatMap_append, List.append_assoc]

theorem history_advance (s : LookupRun) (i : LookupRound) : (s.advance i).history = s.history ++ i.outcomes := rfl

section Step

variable {i : LookupRound} (hs : s.Sound infoHash seeds peerLimit bucketSize)
  (h : DhtNode.IsRound s.lookup i.order i.outcomes)

include h in
/-- All that was named before the round is covered by the candidates after it, and so is what was named in it. -/
theorem Sound.covers_advance (hcovers : ∀ contact ∈ s.seen seeds, s.lookup.Covers contact) :
    ∀ contact ∈ (s.advance i).seen seeds, (s.advance i).lookup.Covers contact := by
  obtain ⟨hinfo, -, -, hsize, -, hcandidates⟩ := s.lookup.round_spec i.order i.outcomes
  intro contact hcontact
  rw [seen_advance, List.mem_append] at hcontact
  rcases hcontact with hold | hnew
  · refine ((hcovers contact hold).narrow h.1).mono hinfo hsize fun other hother => ?_
    change other ∈ (s.lookup.round i.order i.outcomes).candidates
    rw [hcandidates]
    exact List.mem_append_left _ hother
  · refine PeerLookup.covers_of_mem ?_
    change contact ∈ (s.lookup.round i.order i.outcomes).candidates
    rw [hcandidates]
    exact List.mem_append_right _ hnew

include h in
/-- The queries of a round are those of its batch. -/
theorem addrs_of_isRound :
    (i.outcomes.map fun outcome => outcome.1.addr).Perm
      ((s.lookup.narrow i.order).batch.map Contact.addr) := by
  have hmap := h.2.2.map Contact.addr
  rwa [List.map_map] at hmap

include h in
/-- Somebody is asked in a round. -/
theorem batch_ne_nil_of_isRound : 0 < ((s.lookup.narrow i.order).batch.map Contact.addr).length := by
  have hdone := h.2.1
  rw [PeerLookup.done, Bool.or_eq_false_iff] at hdone
  rw [List.length_map]
  exact List.length_pos_iff.2 fun hnil => by simp [hnil] at hdone

include hs h in
/-- When nobody names a node, those that are asked are among the first candidates. -/
theorem Sound.quiet_advance (hquiet : (s.advance i).Quiet) :
    ((s.advance i).lookup.candidates.map Contact.addr).Nodup ∧
      (s.advance i).lookup.candidates.length ≤ (s.advance i).lookup.bucketSize ∧
      ∀ addr ∈ (s.advance i).lookup.queried, addr ∈ (s.advance i).lookup.candidates.map Contact.addr := by
  obtain ⟨-, -, -, hsize, hqueried, hcandidates⟩ := s.lookup.round_spec i.order i.outcomes
  obtain ⟨-, haddrs, hlen⟩ := PeerLookup.narrow_spec h.1
  obtain ⟨hbatch, -⟩ := PeerLookup.batch_spec haddrs
  have hnone : i.outcomes.flatMap PeerLookup.namedNodes = [] :=
    List.flatMap_eq_nil_iff.2 fun outcome houtcome => hquiet outcome (List.mem_append_right _ houtcome)
  change ((s.lookup.round i.order i.outcomes).candidates.map Contact.addr).Nodup ∧
    (s.lookup.round i.order i.outcomes).candidates.length ≤ (s.lookup.round i.order i.outcomes).bucketSize ∧
    ∀ addr ∈ (s.lookup.round i.order i.outcomes).queried,
      addr ∈ (s.lookup.round i.order i.outcomes).candidates.map Contact.addr
  rw [hsize, hqueried, hcandidates, hnone, List.append_nil]
  refine ⟨haddrs, hlen, fun addr haddr => ?_⟩
  rcases List.mem_append.1 haddr with hold | hnew
  · rcases hs.quiet fun outcome houtcome => hquiet outcome (List.mem_append_left _ houtcome) with
      hnil | ⟨hnodup, hlen', hasked⟩
    · rw [hnil] at hold
      cases hold
    · -- the candidates were cut before, so that nothing is cut now
      have horder : (i.order.map Contact.addr).Nodup := (h.1.1.map _).nodup_iff.2 hnodup
      have hsame : (s.lookup.narrow i.order).candidates = i.order := by
        change (PeerLookup.uniqueAddrs [] i.order).take s.lookup.bucketSize = i.order
        rw [PeerLookup.uniqueAddrs_eq_self horder fun _ _ => List.not_mem_nil]
        exact List.take_of_length_le (h.1.1.length_eq.trans_le hlen')
      rw [hsame]
      exact (h.1.1.map Contact.addr).mem_iff.2 (hasked addr hold)
  · obtain ⟨contact, hcontact, rfl⟩ := List.mem_map.1 hnew
    exact List.mem_map_of_mem (hbatch contact hcontact).1

include hs h in
/-- **Each round keeps the invariant.** -/
theorem Sound.advance : (s.advance i).Sound infoHash seeds peerLimit bucketSize := by
  obtain ⟨hinfo, hconcurrency, hlimit, hsize, hqueried, hcandidates⟩ := s.lookup.round_spec i.order i.outcomes
  obtain ⟨hkept, haddrs, -⟩ := PeerLookup.narrow_spec h.1
  obtain ⟨hbatch, hnodup⟩ := PeerLookup.batch_spec haddrs
  have hseen : ∀ contact ∈ s.seen seeds, contact ∈ (s.advance i).seen seeds := by
    intro contact hcontact
    rw [seen_advance]
    exact List.mem_append_left _ hcontact
  refine
    { infoHash := hinfo.trans hs.infoHash
      concurrency := Nat.lt_of_lt_of_eq hs.concurrency hconcurrency.symm
      peerLimit := hlimit.trans hs.peerLimit
      bucketSize := hsize.trans hs.bucketSize
      seen := fun contact hcontact => ?_
      covers := Sound.covers_advance h hs.covers
      queried := ?_
      history := ?_
      asked := fun addr haddr => ?_
      rounds := ?_
      nodup := PeerLookup.nodup_peers_absorbAll _ hs.nodup
      peers := fun addr => ?_
      tokens := fun contact token htoken => ?_
      quiet := fun hquiet => .inr (hs.quiet_advance h hquiet) }
  · change contact ∈ (s.lookup.round i.order i.outcomes).candidates at hcontact
    rw [hcandidates, List.mem_append] at hcontact
    rw [seen_advance, List.mem_append]
    exact hcontact.imp (fun hold => hs.seen contact (hkept contact hold)) id
  · change (s.lookup.round i.order i.outcomes).queried.Nodup
    rw [hqueried, List.nodup_append]
    refine ⟨hs.queried, hnodup, fun addr hold other hnew heq => ?_⟩
    obtain ⟨contact, hcontact, rfl⟩ := List.mem_map.1 hnew
    exact (hbatch contact hcontact).2 (heq ▸ hold)
  · change ((s.history ++ i.outcomes).map fun outcome => outcome.1.addr).Perm
      (s.lookup.round i.order i.outcomes).queried
    rw [hqueried, List.map_append]
    exact hs.history.append (addrs_of_isRound h)
  · change addr ∈ (s.lookup.round i.order i.outcomes).queried at haddr
    rw [hqueried, List.mem_append] at haddr
    rcases haddr with hold | hnew
    · obtain ⟨contact, hcontact, heq⟩ := hs.asked addr hold
      exact ⟨contact, hseen contact hcontact, heq⟩
    · obtain ⟨contact, hcontact, rfl⟩ := List.mem_map.1 hnew
      exact ⟨contact, hseen contact (hs.seen contact (hkept contact (hbatch contact hcontact).1)), rfl⟩
  · change s.rounds + 1 ≤ (s.lookup.round i.order i.outcomes).queried.length
    have hpos := batch_ne_nil_of_isRound h
    have hrounds := hs.rounds
    rw [hqueried, List.length_append]
    omega
  · refine (PeerLookup.mem_peers_absorbAll i.outcomes).trans ?_
    rw [history_advance]
    simp only [List.mem_append, or_and_right, exists_or]
    exact or_congr (hs.peers addr) Iff.rfl
  · rcases PeerLookup.get?_tokens_absorbAll i.outcomes htoken with hold | ⟨response, hmem, heq⟩
    · obtain ⟨response, hmem, heq⟩ := hs.tokens contact token hold
      exact ⟨response, List.mem_append_left _ hmem, heq⟩
    · exact ⟨response, List.mem_append_right _ hmem, heq⟩

end Step

theorem sound_of_reach
    (h : (lookupSystem infoHash seeds concurrency peerLimit bucketSize).Reach (fun _ _ => True) s) :
    s.Sound infoHash seeds peerLimit bucketSize := by
  refine h.invariant ?_ ?_
  · rintro s rfl
    exact sound_start infoHash seeds concurrency peerLimit bucketSize
  · rintro s i t hs - ⟨hround, rfl⟩
    exact hs.advance hround

/-- There are as many queries as addresses at most, and in each round there is one at least. -/
theorem Sound.rounds_le (hs : s.Sound infoHash seeds peerLimit bucketSize) : s.rounds ≤ seeds.length + 2 ^ 48 := by
  have hqueried : s.lookup.queried.length ≤ (seeds.map Contact.addr).length + 2 ^ 48 := by
    refine length_addrs_le hs.queried fun addr haddr => ?_
    obtain ⟨contact, hcontact, rfl⟩ := hs.asked addr haddr
    rcases List.mem_append.1 hcontact with hseed | hnamed
    · exact .inl (List.mem_map_of_mem hseed)
    · obtain ⟨outcome, -, hmem⟩ := List.mem_flatMap.1 hnamed
      exact .inr (isV4_namedNodes outcome contact hmem)
  rw [List.length_map] at hqueried
  exact hs.rounds.trans hqueried

/-- When no node has named another one, there were as many queries as candidates are kept at most. -/
theorem Sound.queries_le_of_quiet (hs : s.Sound infoHash seeds peerLimit bucketSize) (hquiet : s.Quiet) :
    s.history.length ≤ bucketSize := by
  have hlen : s.history.length = s.lookup.queried.length := by
    rw [← hs.history.length_eq, List.length_map]
  rw [hlen, ← hs.bucketSize]
  rcases hs.quiet hquiet with hnil | ⟨-, hcandidates, hasked⟩
  · rw [hnil]
    exact Nat.zero_le _
  · have hle := (hs.queried.subperm hasked).length_le
    rw [List.length_map] at hle
    exact hle.trans hcandidates

/-- The peers of the lookup are those that were named, each of them once. -/
theorem Sound.length_peers (hs : s.Sound infoHash seeds peerLimit bucketSize) :
    s.lookup.peers.length = s.found.card := by
  rw [← List.toFinset_card_of_nodup hs.nodup]
  congr 1
  ext addr
  simp only [found, List.mem_toFinset, List.mem_flatMap]
  exact hs.peers addr

/-- **The closest have been asked** when nobody is left to ask. -/
theorem Sound.exhaustive (hs : s.Sound infoHash seeds peerLimit bucketSize) {order : List Contact}
    (horder : s.lookup.IsOrder order) (hbatch : (s.lookup.narrow order).batch = []) {contact : Contact}
    (hcontact : contact ∈ s.seen seeds) (hnot : contact.addr ∉ s.lookup.queried) :
    ∃ closer : Finset SocketAddr, bucketSize ≤ closer.card ∧ ∀ addr ∈ closer, addr ∈ s.lookup.queried ∧
      ∃ other ∈ s.seen seeds, other.addr = addr ∧
        contactDistance infoHash other ≤ contactDistance infoHash contact := by
  have hasked : ∀ other ∈ (s.lookup.narrow order).candidates, other.addr ∈ s.lookup.queried :=
    (PeerLookup.batch_eq_nil_iff (l := s.lookup.narrow order) hs.concurrency).1 hbatch
  have hkept := (PeerLookup.narrow_spec horder).1
  have hinfo : (s.lookup.narrow order).infoHash = infoHash := hs.infoHash
  have hsize : (s.lookup.narrow order).bucketSize = bucketSize := hs.bucketSize
  have hcovers := (hs.covers contact hcontact).narrow horder
  rw [PeerLookup.Covers, hinfo, hsize] at hcovers
  rcases hcovers with hmem | hmany
  · obtain ⟨other, hother, -, haddr⟩ := mem_namesUpTo.1 hmem
    exact absurd (haddr ▸ hasked other hother) hnot
  · refine ⟨_, hmany, fun addr haddr => ?_⟩
    obtain ⟨other, hother, hle, rfl⟩ := mem_namesUpTo.1 haddr
    exact ⟨hasked other hother, other, hs.seen other (hkept other hother), rfl, hle⟩

/-! ### The end of a lookup -/

/-- The nodes do what they like, and the candidates are sorted: the outcomes of a round are those of its
queries. -/
def Behaves (env : LookupRun → LookupRound) : Prop :=
  ∀ s : LookupRun, s.lookup.IsOrder (env s).order ∧
    ((env s).outcomes.map Prod.fst).Perm (s.lookup.narrow (env s).order).batch

/-- The loop is left. -/
def Over (s : LookupRun) (order : List Contact) : Prop := (s.lookup.narrow order).done = true

/-- The lookup after so many rounds. -/
def runs (env : LookupRun → LookupRound) (s : LookupRun) : ℕ → LookupRun
  | 0 => s
  | n + 1 => (runs env s n).advance (env (runs env s n))

variable {env : LookupRun → LookupRound}

theorem rounds_runs (n : ℕ) : (runs env s n).rounds = s.rounds + n := by
  induction n with
  | zero => rfl
  | succ n ih =>
      change (runs env s n).rounds + 1 = s.rounds + (n + 1)
      rw [ih, Nat.add_assoc]

/-- As long as the loop goes on, its states are reached. -/
theorem reach_runs (henv : Behaves env) {n : ℕ}
    (h : ∀ m < n, ¬ (runs env (start infoHash seeds concurrency peerLimit bucketSize) m).Over
      (env (runs env (start infoHash seeds concurrency peerLimit bucketSize) m)).order) :
    (lookupSystem infoHash seeds concurrency peerLimit bucketSize).Reach (fun _ _ => True)
      (runs env (start infoHash seeds concurrency peerLimit bucketSize) n) := by
  induction n with
  | zero => exact .init rfl
  | succ n ih =>
      have hreach := ih fun m hm => h m (Nat.lt_succ_of_lt hm)
      have hgoes := h n (Nat.lt_succ_self n)
      obtain ⟨horder, houtcomes⟩ := henv (runs env (start infoHash seeds concurrency peerLimit bucketSize) n)
      exact hreach.step trivial ⟨⟨horder, Bool.eq_false_iff.2 hgoes, houtcomes⟩, rfl⟩

/-- **The loop is left in the end.** -/
theorem exists_over (infoHash : NodeId) (seeds : List Contact) (concurrency peerLimit bucketSize : ℕ)
    (henv : Behaves env) : ∃ n ≤ seeds.length + 2 ^ 48,
      (lookupSystem infoHash seeds concurrency peerLimit bucketSize).Reach (fun _ _ => True)
        (runs env (start infoHash seeds concurrency peerLimit bucketSize) n) ∧
      (runs env (start infoHash seeds concurrency peerLimit bucketSize) n).Over
        (env (runs env (start infoHash seeds concurrency peerLimit bucketSize) n)).order := by
  classical
  have hsome : ∃ n, (runs env (start infoHash seeds concurrency peerLimit bucketSize) n).Over
      (env (runs env (start infoHash seeds concurrency peerLimit bucketSize) n)).order := by
    by_contra hnone
    push Not at hnone
    have hreach := reach_runs henv fun m (_ : m < seeds.length + 2 ^ 48 + 1) => hnone m
    have hle := (sound_of_reach hreach).rounds_le
    rw [rounds_runs] at hle
    change 0 + _ ≤ _ at hle
    omega
  have hreach := reach_runs henv fun m hm => Nat.find_min hsome hm
  have hle := (sound_of_reach hreach).rounds_le
  rw [rounds_runs] at hle
  change 0 + _ ≤ _ at hle
  exact ⟨Nat.find hsome, by omega, hreach, Nat.find_spec hsome⟩

end LookupRun

/-- **A lookup ends, and has asked the closest nodes.**  Whatever the nodes answer, in whatever order: the loop is
left after a bounded number of rounds; nobody is asked twice, and no more than `bucketSize` queries are made when
nobody names a node.  The result has peers from the answers, no more than asked for, and the tokens of the contacts.
Where fewer peers were named than asked for, every address that was not asked has `bucketSize` addresses before it
that were asked and are at least as close. -/
theorem lookup_exhaustive (infoHash : NodeId) (seeds : List Contact) (concurrency peerLimit bucketSize : ℕ) :
    (∀ env, LookupRun.Behaves env → ∃ n ≤ seeds.length + 2 ^ 48,
      (lookupSystem infoHash seeds concurrency peerLimit bucketSize).Reach (fun _ _ => True)
        (LookupRun.runs env (.start infoHash seeds concurrency peerLimit bucketSize) n) ∧
      (LookupRun.runs env (.start infoHash seeds concurrency peerLimit bucketSize) n).Over
        (env (LookupRun.runs env (.start infoHash seeds concurrency peerLimit bucketSize) n)).order) ∧
    ∀ s, (lookupSystem infoHash seeds concurrency peerLimit bucketSize).Reach (fun _ _ => True) s →
      (s.history.map fun outcome => outcome.1.addr).Nodup ∧
      (s.history.map fun outcome => outcome.1.addr).Perm s.lookup.queried ∧
      (s.Quiet → s.history.length ≤ bucketSize) ∧
      ∀ order, s.lookup.IsOrder order → s.Over order →
        let result := (s.lookup.narrow order).result
        (result.peers.length ≤ peerLimit ∧ result.peers.Nodup ∧
          ∀ peer ∈ result.peers, ∃ outcome ∈ s.history, peer ∈ PeerLookup.namedPeers outcome) ∧
        (∀ candidate ∈ result.announceCandidates, ∃ response,
          (candidate.1, some response) ∈ s.history ∧ response.token = some candidate.2) ∧
        (s.found.card < peerLimit → ∀ contact ∈ s.seen seeds, contact.addr ∉ s.lookup.queried →
          ∃ closer : Finset SocketAddr, bucketSize ≤ closer.card ∧ ∀ addr ∈ closer, addr ∈ s.lookup.queried ∧
            ∃ other ∈ s.seen seeds, other.addr = addr ∧
              contactDistance infoHash other ≤ contactDistance infoHash contact) := by
  refine ⟨fun env henv => LookupRun.exists_over infoHash seeds concurrency peerLimit bucketSize henv, ?_⟩
  intro s h
  have hs := LookupRun.sound_of_reach h
  refine ⟨hs.history.nodup_iff.2 hs.queried, hs.history, hs.queries_le_of_quiet, ?_⟩
  intro order horder hover
  refine ⟨⟨?_, hs.nodup.sublist (List.take_sublist _ _), fun peer hpeer => ?_⟩, ?_, ?_⟩
  · exact (List.length_take_le _ _).trans hs.peerLimit.le
  · exact (hs.peers peer).1 (List.mem_of_mem_take hpeer)
  · rintro ⟨contact, token⟩ hcandidate
    rw [PeerLookup.result, List.mem_mergeSort, HashMap.mem_toList_iff] at hcandidate
    exact hs.tokens contact token hcandidate
  · intro hfew contact hcontact hnot
    refine hs.exhaustive horder ?_ hcontact hnot
    rw [LookupRun.Over, PeerLookup.done, Bool.or_eq_true, decide_eq_true_eq] at hover
    refine List.isEmpty_iff.1 (hover.resolve_right fun hle => ?_)
    have hpeers := hs.length_peers
    have hlimit := hs.peerLimit
    change s.lookup.peerLimit ≤ s.lookup.peers.length at hle
    omega

namespace Sample

def seedNode : Contact := ⟨.replicate 20 5, nodeAddr⟩

/-- Nobody answers. -/
def silence (s : LookupRun) : LookupRound :=
  let order := s.lookup.candidates.mergeSort fun a b =>
    (distance s.lookup.infoHash a.id).le (distance s.lookup.infoHash b.id)
  ⟨order, (s.lookup.narrow order).batch.map fun contact => (contact, none)⟩

theorem behaves_silence : LookupRun.Behaves silence := by
  intro s
  refine ⟨⟨List.mergeSort_perm _ _, (ranks_distance _).pairwise_mergeSort _⟩, ?_⟩
  rw [silence, List.map_map]
  exact List.Perm.of_eq (List.map_id _)

/-- A node that the seed names, nearer than the seed, and one that the second names, farther than both. -/
def nearNode : Contact := ⟨.replicate 20 6, ⟨.v4 #v[10, 0, 0, 6], 6881⟩⟩

def farNode : Contact := ⟨.replicate 20 200, ⟨.v4 #v[10, 0, 0, 200], 6881⟩⟩

/-- The seed answers, and then the node that it names. -/
def twoRounds : List LookupRound :=
  [⟨[seedNode], [(seedNode, some ⟨seedNode.id, some (encodeNode nearNode), some [1], none⟩)]⟩,
    ⟨[nearNode, seedNode], [(nearNode, some ⟨nearNode.id, some (encodeNode farNode), some [2], none⟩)]⟩]

end Sample

open Sample in
/-- With room for one candidate, the far node is not asked, and the near one has been. -/
theorem lookup_exhaustive_sample :
    (∃ n ≤ 1 + 2 ^ 48, (LookupRun.runs silence (.start (.replicate 20 7) [seedNode] 3 50 8) n).Over
      (silence (LookupRun.runs silence (.start (.replicate 20 7) [seedNode] 3 50 8) n)).order) ∧
    let s := twoRounds.foldl LookupRun.advance (.start (.replicate 20 7) [seedNode] 3 50 1)
    s.Over [nearNode, farNode] ∧ farNode.addr ∉ s.lookup.queried ∧
      ∃ closer : Finset SocketAddr, 1 ≤ closer.card ∧ ∀ addr ∈ closer, addr ∈ s.lookup.queried ∧
        ∃ other ∈ s.seen [seedNode], other.addr = addr ∧
          contactDistance (.replicate 20 7) other ≤ contactDistance (.replicate 20 7) farNode := by
  obtain ⟨hends, -⟩ := lookup_exhaustive (.replicate 20 7) [seedNode] 3 50 8
  obtain ⟨n, hle, -, hover⟩ := hends silence behaves_silence
  refine ⟨⟨n, hle, hover⟩, ?_⟩
  have hreach : (lookupSystem (.replicate 20 7) [seedNode] 3 50 1).Reach (fun _ _ => True)
      (twoRounds.foldl LookupRun.advance (.start (.replicate 20 7) [seedNode] 3 50 1)) := by
    refine .step (.step (.init rfl) trivial ⟨?_, rfl⟩) trivial ⟨?_, rfl⟩
    · decide +kernel
    · decide +kernel
  obtain ⟨-, hall⟩ := lookup_exhaustive (.replicate 20 7) [seedNode] 3 50 1
  obtain ⟨-, -, -, hrest⟩ := hall _ hreach
  have hover : (twoRounds.foldl LookupRun.advance (.start (.replicate 20 7) [seedNode] 3 50 1)).Over
      [nearNode, farNode] := by
    rw [LookupRun.Over]
    decide +kernel
  refine ⟨hover, by decide +kernel, ?_⟩
  obtain ⟨-, -, hexhaustive⟩ := hrest [nearNode, farNode] (by decide +kernel) hover
  exact hexhaustive (by decide +kernel) farNode (by decide +kernel) (by decide +kernel)

end Tortillas
