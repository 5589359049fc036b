/-
**Contacts that have spoken for themselves.**

The routing table is meant for verified contacts: nodes from which a datagram has come.  The sender of a
query and of a response that completes a query is one.  But the nodes that a response names are inserted
as well, and an identifier that is known takes the address that was named for it: whoever answers one
query can bring any contact into the table, or move it.

A lookup remembers the nodes that it asked in vain by their identifiers, though it asks addresses; and
some time passes before the result is handled.  The entry that is blamed then may have another address.

Main definitions:

* `DhtNode.Spoken` — a datagram with this identifier has come from this address;
* `DhtNode.Vouched` — the step takes in no contact on hearsay, and lets no lookup blame an address for
  another;
* `DhtNode.KeepsWord` — what is asked of every step.

Main results:

* `DhtNode.Vouched.has_step` — where a contact that enters the table comes from;
* `DhtNode.Vouches.step` — what every step keeps that meets the condition;
* `contacts_speak_for_themselves` — **the table holds only contacts that have spoken, and blames only
  them**, in every run whose steps meet the condition;
* `hearsay_moves_contact` — one response brings a contact in, and moves another.
-/

import Tortillas.DhtNode

set_option relaxedAutoImplicit false
set_option autoImplicit false

namespace Tortillas

/-- The identifier of the sender, and its address. -/
def Heard.contact : Heard → Contact
  | .query asked source _ _ => ⟨asked.id, source⟩
  | .response given source => ⟨given.id, source⟩

/-! ### Contacts that the table takes in -/

namespace DhtState

variable {P : Contact → Prop} {t : RoutingTable} {contact : Contact}

/-- Each contact of the list that the table takes in, when its turn comes, is as stated. -/
def Takes (P : Contact → Prop) : RoutingTable → List Contact → Prop
  | _, [] => True
  | t, contact :: contacts =>
      ((t.insert contact).2 = true → P contact) ∧ Takes P (t.insert contact).1 contacts

/-- A contact that is in the table after another was inserted. -/
theorem has_of_insert (ht : t.Sorted) {other : Contact} (h : (t.insert contact).1.Has other) :
    t.Has other ∨ (other = contact ∧ (t.insert contact).2 = true) := by
  rcases ht.insert_cases contact with heq | ⟨htaken, -, hothers⟩
  · rw [heq] at h
    exact .inl h
  · rcases hothers other h with rfl | ⟨hold, -⟩
    · exact .inr ⟨rfl, htaken⟩
    · exact .inl hold

theorem sorted_insertAll (ht : t.Sorted) (contacts : List Contact) :
    (insertAll t contacts).Sorted := by
  induction contacts generalizing t with
  | nil => exact ht
  | cons contact contacts ih => exact ih (ht.insert contact)

theorem has_of_insertAll (ht : t.Sorted) {contacts : List Contact} (htakes : Takes P t contacts)
    (h : (insertAll t contacts).Has contact) : t.Has contact ∨ P contact := by
  induction contacts generalizing t with
  | nil => exact .inl h
  | cons first contacts ih =>
      rcases ih (ht.insert first) htakes.2 h with hfirst | hnew
      · rcases has_of_insert ht hfirst with hold | ⟨rfl, htaken⟩
        · exact .inl hold
        · exact .inr (htakes.1 htaken)
      · exact .inr hnew

variable {s : DhtState} {response : Krpc.Response} {source : SocketAddr}

theorem sorted_learnResponse (hs : s.routing.Sorted) :
    (s.learnResponse response source).1.routing.Sorted := by
  simp only [learnResponse]
  split
  · exact hs.insert _
  · split
    · exact hs.insert _
    · exact sorted_insertAll (hs.insert _) _

/-- A contact in the table after a response: it was there, it is the sender, or the response names
it. -/
theorem has_of_learnResponse (hs : s.routing.Sorted)
    (htakes : ∀ nodes contacts, response.nodes = some nodes → decodeNodes nodes = .ok contacts →
      Takes P (s.routing.insert ⟨response.id, source⟩).1 contacts)
    (h : (s.learnResponse response source).1.routing.Has contact) :
    s.routing.Has contact ∨
      (contact = ⟨response.id, source⟩ ∧ (s.routing.insert ⟨response.id, source⟩).2 = true) ∨
      P contact := by
  simp only [learnResponse] at h
  split at h
  · exact (has_of_insert hs h).imp_right .inl
  · rename_i nodes hnodes
    split at h
    · exact (has_of_insert hs h).imp_right .inl
    · rename_i contacts hcontacts
      rcases has_of_insertAll (hs.insert _) (htakes nodes contacts hnodes hcontacts) h with
        hold | hnew
      · exact (has_of_insert hs hold).imp_right .inl
      · exact .inr (.inr hnew)

end DhtState

namespace DhtNode

variable {sha1 : Bytes → Bytes} {s : DhtNode} {event : DhtNodeEvent} {contact : Contact}
  {l : PeerLookup}

theorem sorted_recordFailures {t : RoutingTable} (ht : t.Sorted) (ids : List NodeId) :
    (recordFailures t ids).Sorted := by
  induction ids generalizing t with
  | nil => exact ht
  | cons id ids ih => exact ih (ht.recordFailure id)

theorem has_of_recordFailures {t : RoutingTable} (ht : t.Sorted) {ids : List NodeId}
    (h : (recordFailures t ids).Has contact) : t.Has contact := by
  induction ids generalizing t with
  | nil => exact h
  | cons id ids ih => exact ht.has_of_recordFailure (ih (ht.recordFailure id) h)

/-! ### The condition -/

/-- A datagram with this identifier has come from this address. -/
def Spoken (s : DhtNode) (contact : Contact) : Prop := ∃ heard ∈ s.heard, heard.contact = contact

instance : Decidable (s.Spoken contact) := inferInstanceAs (Decidable (∃ heard ∈ s.heard, _))

/-- The lookup runs, or its result is still to be handled. -/
def Outstanding (s : DhtNode) (l : PeerLookup) : Prop :=
  (∃ lookup, s.lookups.get? lookup = some l) ∨ l ∈ s.finished

/-- Every lookup that has asked for this identifier in vain has done so at this address. -/
def Clears (s : DhtNode) (contact : Contact) : Prop :=
  ∀ l, s.Outstanding l → (∃ asked ∈ l.failed, asked.id = contact.id) → contact ∈ l.failed

/-- The table may take this contact in, which somebody names: it has spoken, and the table has no
other address for it. -/
def Named (s : DhtNode) (sender contact : Contact) : Prop :=
  (contact = sender ∨ s.Spoken contact) ∧
    (∀ addr, s.state.routing.Has ⟨contact.id, addr⟩ → addr = contact.addr) ∧ s.Clears contact

/-- The step takes in no contact on hearsay, and none while a lookup has asked for it elsewhere in vain;
and a query of a lookup that fails was sent to the address that the table has, if it has one. -/
def Vouched (s : DhtNode) : DhtNodeEvent → Prop
  | .datagram (.query _ query) source _ =>
      (s.state.routing.insert ⟨query.id, source⟩).2 = true → s.Clears ⟨query.id, source⟩
  | .datagram (.response transactionId response) source _ =>
      (s.transactions.complete (.response transactionId response) source).1 = true →
        ((s.state.routing.insert ⟨response.id, source⟩).2 = true → s.Clears ⟨response.id, source⟩) ∧
        ∀ nodes contacts, response.nodes = some nodes → decodeNodes nodes = .ok contacts →
          DhtState.Takes (s.Named ⟨response.id, source⟩)
            (s.state.routing.insert ⟨response.id, source⟩).1 contacts
  | .round lookup order outcomes =>
      ∀ l, s.lookups.get? lookup = some l → IsRound l order outcomes →
        ∀ asked, (asked, none) ∈ outcomes → ∀ addr, s.state.routing.Has ⟨asked.id, addr⟩ →
          ⟨asked.id, addr⟩ ∈ l.failed ∨ (⟨asked.id, addr⟩, none) ∈ outcomes
  | _ => True

/-- What is asked of a step.  Every contact in the table has spoken; the address of an identifier that
is known changes only to one that a datagram with this identifier comes from; and an entry is blamed for
a query that was sent to its own address. -/
structure KeepsWord (sha1 : Bytes → Bytes) (s : DhtNode) (event : DhtNodeEvent) : Prop where
  spoken : ∀ contact, (s.step sha1 event).state.routing.Has contact →
    (s.step sha1 event).Spoken contact
  moved : ∀ id old new, s.state.routing.Has ⟨id, old⟩ →
    (s.step sha1 event).state.routing.Has ⟨id, new⟩ → new ≠ old →
    ∃ heard, (s.step sha1 event).heard = s.heard ++ [heard] ∧ heard.contact = ⟨id, new⟩
  blamed : ∀ l finished, event = .lookupFinished → s.finished = l :: finished →
    ∀ id ∈ l.result.failedNodes, ∀ addr, s.state.routing.Has ⟨id, addr⟩ → ⟨id, addr⟩ ∈ l.failed

/-! ### What every step keeps -/

/-- The table is in order, its contacts have spoken, and an entry of an identifier that a lookup asks for
in vain has the address that was asked. -/
structure Vouches (s : DhtNode) : Prop where
  sorted : s.state.routing.Sorted
  spoken : ∀ contact, s.state.routing.Has contact → s.Spoken contact
  blames : ∀ l, s.Outstanding l → l.Blames
  cleared : ∀ l, s.Outstanding l → ∀ asked ∈ l.failed, ∀ addr,
    s.state.routing.Has ⟨asked.id, addr⟩ → ⟨asked.id, addr⟩ ∈ l.failed

theorem not_has_new (id : NodeId) (bucketSize : ℕ) :
    ¬ (RoutingTable.new id bucketSize).Has contact := by
  rintro ⟨bucket, hbucket, entry, hentry, -⟩
  obtain ⟨-, rfl⟩ := List.mem_replicate.1 hbucket
  cases hentry

theorem vouches_init (id : NodeId) (tokens : TokenManager)
    (peerLimit bucketSize concurrency ttl now : ℕ) (nextId : UInt16) :
    (init id tokens peerLimit bucketSize concurrency ttl now nextId).Vouches := by
  have hnone (l : PeerLookup) :
      ¬ (init id tokens peerLimit bucketSize concurrency ttl now nextId).Outstanding l := by
    rintro (⟨lookup, h⟩ | h)
    · cases h
    · cases h
  refine ⟨RoutingTable.sorted_new id bucketSize, ?_, ?_, ?_⟩
  · intro contact h
    exact absurd h (not_has_new id bucketSize)
  · intro l hl
    exact absurd hl (hnone l)
  · intro l hl
    exact absurd hl (hnone l)

variable (sha1) in
/-- What a node has heard is not forgotten, and a step hears at most one datagram. -/
theorem step_heard (s : DhtNode) (event : DhtNodeEvent) :
    (s.step sha1 event).heard = s.heard ∨
      ∃ heard, (s.step sha1 event).heard = s.heard ++ [heard] := by
  by_cases hquery : ∃ transactionId query source input,
      event = .datagram (.query transactionId query) source input
  · obtain ⟨transactionId, query, source, input, rfl⟩ := hquery
    exact .inr ⟨_, rfl⟩
  · obtain ⟨-, hheard⟩ := step_of_not_query sha1 s event
      fun transactionId query source input heq => hquery ⟨transactionId, query, source, input, heq⟩
    exact hheard.imp_right fun ⟨response, source, h⟩ => ⟨_, h⟩

theorem Spoken.step (h : s.Spoken contact) : (s.step sha1 event).Spoken contact := by
  obtain ⟨heard, hmem, rfl⟩ := h
  refine ⟨heard, ?_, rfl⟩
  rcases step_heard sha1 s event with heq | ⟨new, heq⟩
  · rw [heq]
    exact hmem
  · rw [heq]
    exact List.mem_append_left _ hmem

theorem sorted_step (hs : s.state.routing.Sorted) : (s.step sha1 event).state.routing.Sorted := by
  rcases state_step_cases sha1 s event with
    ⟨message, source, input, rfl⟩ | ⟨l, finished, -, -, hstate, -⟩ | ⟨hstate, -⟩
  · cases message with
    | query transactionId query =>
        simp only [step, incomingDatagram]
        rw [DhtState.handleQuery_routing]
        exact hs.insert _
    | response transactionId response =>
        simp only [step, incomingDatagram]
        split
        · exact DhtState.sorted_learnResponse hs
        · exact hs
    | error transactionId error => exact hs
  · rw [hstate]
    exact sorted_recordFailures hs _
  · rw [hstate]
    exact hs

/-- **Where a contact that enters the table comes from**: it is the sender of the datagram, or it is
named in it and has spoken. -/
theorem Vouched.has_step (hvouched : s.Vouched event) (hs : s.state.routing.Sorted)
    (h : (s.step sha1 event).state.routing.Has contact) :
    s.state.routing.Has contact ∨
      (s.Clears contact ∧ (s.step sha1 event).Spoken contact ∧
        ((∃ heard, (s.step sha1 event).heard = s.heard ++ [heard] ∧ heard.contact = contact) ∨
          ∀ addr, s.state.routing.Has ⟨contact.id, addr⟩ → addr = contact.addr)) := by
  rcases state_step_cases sha1 s event with
    ⟨message, source, input, rfl⟩ | ⟨l, finished, -, -, hstate, -⟩ | ⟨hstate, -⟩
  · cases message with
    | query transactionId query =>
        simp only [step, incomingDatagram] at h
        rw [DhtState.handleQuery_routing] at h
        rcases DhtState.has_of_insert hs h with hold | ⟨rfl, htaken⟩
        · exact .inl hold
        · refine .inr ⟨hvouched htaken, ?_, .inl ⟨_, rfl, rfl⟩⟩
          exact ⟨_, List.mem_append_right _ List.mem_cons_self, rfl⟩
    | response transactionId response =>
        cases hmatched : (s.transactions.complete (.response transactionId response) source).1 with
        | false =>
            simp only [step, incomingDatagram, hmatched] at h
            exact .inl h
        | true =>
            obtain ⟨hclears, htakes⟩ := hvouched hmatched
            have hheard : (s.step sha1 (.datagram (.response transactionId response) source
                input)).heard = s.heard ++ [.response response source] := by
              simp [step, incomingDatagram, hmatched]
            have hsender : (s.step sha1 (.datagram (.response transactionId response) source
                input)).Spoken ⟨response.id, source⟩ :=
              ⟨.response response source, by rw [hheard]; simp, rfl⟩
            simp only [step, incomingDatagram, hmatched, if_true] at h
            rcases DhtState.has_of_learnResponse hs htakes h with
              hold | ⟨rfl, htaken⟩ | ⟨hspoken, hknown, hclear⟩
            · exact .inl hold
            · exact .inr ⟨hclears htaken, hsender, .inl ⟨_, hheard, rfl⟩⟩
            · refine .inr ⟨hclear, ?_, .inr hknown⟩
              rcases hspoken with rfl | hspoken
              · exact hsender
              · exact hspoken.step
    | error transactionId error => exact .inl h
  · rw [hstate] at h
    exact .inl (has_of_recordFailures hs h)
  · rw [hstate] at h
    exact .inl h

/-- The lookups after a step: those from before, one that starts, and one that has gone on. -/
theorem outstanding_step (h : (s.step sha1 event).Outstanding l) :
    s.Outstanding l ∨ (l.failed = [] ∧ l.failedNodes = []) ∨
      ∃ lookup order outcomes before, event = .round lookup order outcomes ∧
        s.lookups.get? lookup = some before ∧ IsRound before order outcomes ∧
        l = before.round order outcomes := by
  cases event with
  | datagram message source input =>
      refine .inl ?_
      cases message with
      | query transactionId query => exact h
      | response transactionId response =>
          simp only [step, incomingDatagram] at h
          split at h <;> exact h
      | error transactionId error => exact h
  | begin addr => exact .inl h
  | cancel transactionId => exact .inl h
  | drop gone => exact .inl h
  | startLookup infoHash =>
      simp only [step] at h
      split at h
      · exact .inl h
      · rcases h with ⟨lookup, hget⟩ | hfinished
        · rcases HashMap.get?_of_get?_insert hget with ⟨-, rfl⟩ | ⟨-, hget⟩
          · exact .inr (.inl ⟨rfl, rfl⟩)
          · exact .inl (.inl ⟨lookup, hget⟩)
        · exact .inl (.inr hfinished)
  | round lookup order outcomes =>
      simp only [step] at h
      split at h
      · rename_i before hbefore
        split at h
        · rename_i hround
          rcases h with ⟨other, hget⟩ | hfinished
          · rcases HashMap.get?_of_get?_insert hget with ⟨-, rfl⟩ | ⟨-, hget⟩
            · exact .inr (.inr ⟨lookup, order, outcomes, before, rfl, hbefore, hround, rfl⟩)
            · exact .inl (.inl ⟨other, hget⟩)
          · exact .inl (.inr hfinished)
        · exact .inl h
      · exact .inl h
  | finish lookup order =>
      simp only [step] at h
      split at h
      · rename_i before hbefore
        split at h
        · rcases h with ⟨other, hget⟩ | hfinished
          · exact .inl (.inl ⟨other, (HashMap.get?_of_get?_erase hget).2⟩)
          · rcases List.mem_append.1 hfinished with hold | hnew
            · exact .inl (.inr hold)
            · rw [List.mem_singleton.1 hnew]
              exact .inl (.inl ⟨lookup, hbefore⟩)
        · exact .inl h
      · exact .inl h
  | abort lookup =>
      rcases h with ⟨other, hget⟩ | hfinished
      · exact .inl (.inl ⟨other, (HashMap.get?_of_get?_erase hget).2⟩)
      · exact .inl (.inr hfinished)
  | lookupFinished =>
      simp only [step] at h
      split at h
      · exact .inl h
      · rename_i first finished hsplit
        rcases h with hget | hfinished
        · exact .inl (.inl hget)
        · exact .inl (.inr (by rw [hsplit]; exact List.mem_cons_of_mem _ hfinished))

theorem step_round_state (lookup : ℕ) (order : List Contact)
    (outcomes : List (Contact × Option Krpc.Response)) :
    (s.step sha1 (.round lookup order outcomes)).state = s.state := by
  rcases state_step_cases sha1 s (.round lookup order outcomes) with
    ⟨_, _, _, h⟩ | ⟨_, _, h, -⟩ | ⟨hstate, -⟩
  · cases h
  · cases h
  · exact hstate

/-- **What every step keeps that meets the condition.** -/
theorem Vouches.step (hs : s.Vouches) (hvouched : s.Vouched event) :
    (s.step sha1 event).Vouches := by
  refine ⟨sorted_step hs.sorted, ?_, ?_, ?_⟩
  · intro contact h
    rcases hvouched.has_step hs.sorted h with hold | ⟨-, hspoken, -⟩
    · exact (hs.spoken contact hold).step
    · exact hspoken
  · intro l hl
    rcases outstanding_step hl with hold | ⟨hfailed, hnodes⟩ |
      ⟨lookup, order, outcomes, before, rfl, hbefore, -, rfl⟩
    · exact hs.blames l hold
    · intro id
      simp [hfailed, hnodes]
    · exact (hs.blames before (.inl ⟨lookup, hbefore⟩)).round order outcomes
  · intro l hl asked hasked addr h
    rcases outstanding_step hl with hold | ⟨hfailed, -⟩ |
      ⟨lookup, order, outcomes, before, rfl, hbefore, hround, rfl⟩
    · rcases hvouched.has_step hs.sorted h with hhad | ⟨hclears, -⟩
      · exact hs.cleared l hold asked hasked addr hhad
      · exact hclears l hold ⟨asked, hasked, rfl⟩
    · rw [hfailed] at hasked
      cases hasked
    · -- the table is the same, and the query that failed was sent to the address it has
      rw [step_round_state] at h
      rw [PeerLookup.mem_failed_round] at hasked ⊢
      rcases hasked with hasked | hasked
      · exact .inl (hs.cleared before (.inl ⟨lookup, hbefore⟩) asked hasked addr h)
      · exact hvouched before hbefore hround asked hasked addr h

/-- A step that meets the condition does what is asked of it. -/
theorem Vouches.keepsWord (hs : s.Vouches) (hvouched : s.Vouched event) : s.KeepsWord sha1 event := by
  refine ⟨(hs.step hvouched).spoken, ?_, ?_⟩
  · intro id old new hold hnew hne
    rcases hvouched.has_step hs.sorted hnew with hhad | ⟨-, -, hheard | hknown⟩
    · have heq := hs.sorted.addr_unique hhad hold rfl
      exact absurd (congrArg Contact.addr heq) hne
    · exact hheard
    · exact absurd (hknown old hold).symm hne
  · rintro l finished - hfinished id hid addr h
    have hl : s.Outstanding l := .inr (by rw [hfinished]; exact List.mem_cons_self)
    obtain ⟨asked, hasked, rfl⟩ := (hs.blames l hl id).1 hid
    exact hs.cleared l hl asked hasked addr h

end DhtNode

/-- **The routing table holds only contacts that have spoken for themselves, and blames only them**, in
every run whose steps take in no contact on hearsay and let no lookup blame an address for another. -/
theorem contacts_speak_for_themselves (sha1 : Bytes → Bytes) (id : NodeId) (tokens : TokenManager)
    (peerLimit bucketSize concurrency ttl now : ℕ) (nextId : UInt16) (events : List DhtNodeEvent)
    (h : System.Along DhtNode.Vouched (DhtNode.step sha1)
      (.init id tokens peerLimit bucketSize concurrency ttl now nextId) events) :
    System.Along (DhtNode.KeepsWord sha1) (DhtNode.step sha1)
      (.init id tokens peerLimit bucketSize concurrency ttl now nextId) events := by
  refine h.imp (I := DhtNode.Vouches) ?_ ?_
    (DhtNode.vouches_init id tokens peerLimit bucketSize concurrency ttl now nextId)
  · intro s event hs hvouched
    exact hs.step hvouched
  · intro s event hs hvouched
    exact hs.keepsWord hvouched

namespace Sample

/-- A node that pings from its address. -/
def honestNode : Contact := ⟨.replicate 20 5, nodeAddr⟩

/-- Another node, which is asked, and answers with contacts. -/
def otherNode : Contact := ⟨.replicate 20 6, ⟨.v4 #v[10, 0, 0, 2], 6881⟩⟩

/-- The honest node under an address from which it has never spoken. -/
def movedNode : Contact := ⟨.replicate 20 5, ⟨.v4 #v[10, 0, 0, 9], 6881⟩⟩

/-- The honest node pings, and the other one is asked. -/
def pingAndAsk : List DhtNodeEvent :=
  [.datagram (.query [0, 1] (.ping honestNode.id)) honestNode.addr afterOneSecond,
    .begin otherNode.addr]

/-- The answer of the other node, which names these nodes. -/
def answerNaming (nodes : List Contact) : DhtNodeEvent :=
  .datagram (.response [0, 7] ⟨otherNode.id, some (encodeNodes nodes), none, none⟩) otherNode.addr
    afterOneSecond

end Sample

/-- Without lookups nobody is asked in vain. -/
theorem DhtNode.clears_of_idle {s : DhtNode} (hlookups : s.lookups = ∅) (hfinished : s.finished = [])
    (contact : Contact) : s.Clears contact := by
  rintro l (⟨lookup, hget⟩ | hmem)
  · rw [hlookups] at hget
    cases hget
  · rw [hfinished] at hmem
    cases hmem

open Sample in
theorem contacts_speak_for_themselves_sample :
    System.Along (DhtNode.KeepsWord digests) (DhtNode.step digests) freshNode
        (pingAndAsk ++ [answerNaming [honestNode]]) ∧
      ((pingAndAsk ++ [answerNaming [honestNode]]).foldl (DhtNode.step digests)
        freshNode).state.routing.Has honestNode := by
  have hvouched : System.Along DhtNode.Vouched (DhtNode.step digests) freshNode
      (pingAndAsk ++ [answerNaming [honestNode]]) := by
    refine ⟨fun _ => DhtNode.clears_of_idle rfl rfl _, trivial, ?_, trivial⟩
    refine fun _ => ⟨fun _ => DhtNode.clears_of_idle rfl rfl _, ?_⟩
    intro nodes contacts hnodes hcontacts
    cases hnodes
    have hdecoded : decodeNodes (encodeNodes [honestNode]) = .ok [honestNode] := by decide +kernel
    cases hcontacts.symm.trans hdecoded
    refine ⟨fun _ => ⟨.inr (by decide +kernel), ?_, DhtNode.clears_of_idle rfl rfl _⟩, trivial⟩
    -- the honest node is in the table, under the address that is named
    intro addr hhas
    have hsorted : ((DhtNode.step digests freshNode (.datagram (.query [0, 1] (.ping honestNode.id))
        honestNode.addr afterOneSecond)).state.routing).Sorted :=
      DhtNode.sorted_step (RoutingTable.sorted_new freshNode.state.routing.localId 8 :
        freshNode.state.routing.Sorted)
    have hknown : ((DhtNode.step digests freshNode (.datagram (.query [0, 1] (.ping honestNode.id))
        honestNode.addr afterOneSecond)).state.routing).Has honestNode := by decide +kernel
    exact congrArg Contact.addr (hsorted.addr_unique hhas hknown rfl)
  exact ⟨contacts_speak_for_themselves digests _ _ _ _ _ _ _ _ _ hvouched, by decide +kernel⟩

open Sample in
/-- A node that was asked names an address from which the honest node has never spoken: the table now
has the honest node there. -/
theorem hearsay_moves_contact :
    let s := pingAndAsk.foldl (DhtNode.step digests) freshNode
    let t := s.step digests (answerNaming [movedNode])
    s.state.routing.Has honestNode ∧ t.state.routing.Has movedNode ∧ ¬ t.Spoken movedNode := by
  decide +kernel

end Tortillas
