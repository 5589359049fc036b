/-
**Requests to UDP trackers over one socket.**

`tracker/udp.rs`: all UDP trackers share a `UdpServer` with one socket.  A request has a random
transaction id of 32 bits.  For each attempt it opens a channel and registers it under the id, sends
its datagram, and waits for the response; a task of the server passes each datagram on to the channel
that is registered under the id it carries.  When the attempt ends, by a response, a timeout, an error or
because it is dropped, the id is removed from the map.

Datagrams are passed on whatever their source, the id that is registered last takes the place of the one
before, and ids are removed whoever has registered them.

Main definitions:

* `UdpSystem` — the map of the server, the channels and the requests, and its steps;
* `UdpSystem.Matched` — requests are registered, and have what was sent to them from their own trackers;
* `UdpSystem.Clean` — the step registers no id that another request has, and passes on no datagram from
  another source.

Main results:

* `UdpSystem.Matched.move_iff` — a step keeps requests matched exactly when it meets the condition;
* `udp_responses_matched` — **responses reach only the request they answer**, in every run whose steps
  meet the condition;
* `foreign_datagram_completes_request` — a datagram from anywhere completes a request, and a request that
  ends takes away the registration of another.
-/

import Tortillas.Transactions

set_option relaxedAutoImplicit false
set_option autoImplicit false

namespace Tortillas

inductive TrackerResponse
  | connect (transactionId : UInt32) (connectionId : UInt64)
  | announce (transactionId interval leechers seeders : UInt32) (peers : List SocketAddr)
  | error (transactionId : UInt32) (message : Text)
  deriving DecidableEq

def TrackerResponse.transactionId : TrackerResponse → UInt32
  | .connect transactionId _ => transactionId
  | .announce transactionId _ _ _ _ => transactionId
  | .error transactionId _ => transactionId

/-- A response in a channel, with the source of its datagram, which the code does not pass on. -/
structure UdpDelivery where
  response : TrackerResponse
  source : SocketAddr
  deriving DecidableEq

/-- A running `send_and_recv_retry`. -/
structure UdpAttempt where
  channel : ℕ
  /-- The datagram was sent. -/
  sent : Bool
  deriving DecidableEq

/-- A call of `send_and_wait`. -/
structure UdpRequest where
  addr : SocketAddr
  transactionId : UInt32
  /-- How often it may be repeated. -/
  retries : ℕ
  attempt : Option UdpAttempt
  ended : Bool
  result : Option UdpDelivery
  deriving DecidableEq

structure UdpChannel where
  request : ℕ
  queue : List UdpDelivery
  deriving DecidableEq

structure UdpSystem where
  responseChannels : HashMap UInt32 ℕ
  /-- The channels whose receivers are there. -/
  channels : HashMap ℕ UdpChannel
  nextChannel : ℕ
  requests : HashMap ℕ UdpRequest
  nextRequest : ℕ

inductive UdpEvent
  | request (addr : SocketAddr) (transactionId : UInt32) (retries : ℕ)
  /-- An attempt begins, the first one or after a delay. -/
  | attempt (request : ℕ)
  /-- The datagram of an attempt was sent, or could not be. -/
  | sent (request : ℕ) (ok : Bool)
  | receive (request : ℕ)
  | timeout (request : ℕ)
  /-- The future of the request is dropped. -/
  | drop (request : ℕ)
  /-- The server has received a datagram and decoded it. -/
  | datagram (response : TrackerResponse) (source : SocketAddr)

namespace UdpSystem

def init : UdpSystem := ⟨∅, ∅, 0, ∅, 0⟩

/-- The attempt ends: its registration and its receiver are dropped. -/
def endAttempt (s : UdpSystem) (r : ℕ) (q : UdpRequest) (attempt : UdpAttempt) (after : UdpRequest) :
    UdpSystem :=
  { s with
    responseChannels := s.responseChannels.erase q.transactionId
    channels := s.channels.erase attempt.channel
    requests := s.requests.insert r { after with attempt := none } }

/-- `send_and_recv_retry`, as far as the registration. -/
def beginAttempt (s : UdpSystem) (r : ℕ) (q : UdpRequest) : UdpSystem :=
  { s with
    responseChannels := s.responseChannels.insert q.transactionId s.nextChannel
    channels := s.channels.insert s.nextChannel ⟨r, []⟩
    nextChannel := s.nextChannel + 1
    requests := s.requests.insert r { q with attempt := some ⟨s.nextChannel, false⟩ } }

def next (s : UdpSystem) : UdpEvent → UdpSystem
  | .request addr transactionId retries =>
      { s with
        requests := s.requests.insert s.nextRequest ⟨addr, transactionId, retries, none, false, none⟩
        nextRequest := s.nextRequest + 1 }
  | .attempt r =>
      match s.requests.get? r with
      | some q => if q.attempt.isNone && !q.ended then s.beginAttempt r q else s
      | none => s
  | .sent r ok =>
      match s.requests.get? r with
      | some q =>
          match q.attempt with
          | some ⟨channel, false⟩ =>
              if ok then
                { s with requests := s.requests.insert r { q with attempt := some ⟨channel, true⟩ } }
              else s.endAttempt r q ⟨channel, false⟩ { q with ended := true }
          | _ => s
      | none => s
  | .receive r =>
      match s.requests.get? r with
      | some q =>
          match q.attempt with
          | some ⟨channel, true⟩ =>
              match (s.channels.get? channel).bind fun c => c.queue.head? with
              | some delivery =>
                  s.endAttempt r q ⟨channel, true⟩ { q with ended := true, result := some delivery }
              | none => s
          | _ => s
      | none => s
  | .timeout r =>
      match s.requests.get? r with
      | some q =>
          match q.attempt with
          | some ⟨channel, true⟩ =>
              match (s.channels.get? channel).bind fun c => c.queue.head? with
              | some _ => s
              | none =>
                  s.endAttempt r q ⟨channel, true⟩
                    { q with retries := q.retries - 1, ended := q.retries == 0 }
          | _ => s
      | none => s
  | .drop r =>
      match s.requests.get? r with
      | some q =>
          match q.attempt with
          | some attempt => s.endAttempt r q attempt { q with ended := true }
          | none => { s with requests := s.requests.insert r { q with ended := true } }
      | none => s
  | .datagram response source =>
      match s.responseChannels.get? response.transactionId with
      | some channel =>
          match s.channels.get? channel with
          | some c =>
              { s with
                channels := s.channels.insert channel
                  { c with queue := c.queue ++ [⟨response, source⟩] } }
          | none => s
      | none => s

/-! ### What every step keeps -/

/-- Channels belong to running attempts, ids in the map to channels, and what is in a channel has the id
of its request. -/
structure Linked (s : UdpSystem) : Prop where
  fresh : ∀ channel c, s.channels.get? channel = some c → channel < s.nextChannel
  known : ∀ r q, s.requests.get? r = some q → r < s.nextRequest
  entries : ∀ id channel, s.responseChannels.get? id = some channel →
    ∃ c q, s.channels.get? channel = some c ∧ s.requests.get? c.request = some q ∧
      q.transactionId = id
  owners : ∀ channel c, s.channels.get? channel = some c →
    ∃ q attempt, s.requests.get? c.request = some q ∧ q.attempt = some attempt ∧
      attempt.channel = channel ∧ ∀ delivery ∈ c.queue, delivery.response.transactionId = q.transactionId
  attempts : ∀ r q attempt, s.requests.get? r = some q → q.attempt = some attempt →
    ∃ c, s.channels.get? attempt.channel = some c ∧ c.request = r
  results : ∀ r q delivery, s.requests.get? r = some q → q.result = some delivery →
    delivery.response.transactionId = q.transactionId

/-- Every running attempt is registered, and what it has got and what its request was completed by came
from the tracker that was asked. -/
structure Matched (s : UdpSystem) : Prop where
  registered : ∀ r q attempt, s.requests.get? r = some q → q.attempt = some attempt →
    s.responseChannels.get? q.transactionId = some attempt.channel
  queued : ∀ channel c q, s.channels.get? channel = some c → s.requests.get? c.request = some q →
    ∀ delivery ∈ c.queue, delivery.source = q.addr
  completed : ∀ r q delivery, s.requests.get? r = some q → q.result = some delivery →
    delivery.source = q.addr

/-- The step registers no id that another request has registered, and passes on no datagram from a
source other than the tracker that was asked. -/
def Clean (s : UdpSystem) : UdpEvent → Prop
  | .attempt r => ∀ q, s.requests.get? r = some q → q.attempt = none → q.ended = false →
      ∀ r' q' attempt, s.requests.get? r' = some q' → q'.attempt = some attempt →
        q'.transactionId ≠ q.transactionId
  | .datagram response source => ∀ channel c q,
      s.responseChannels.get? response.transactionId = some channel →
      s.channels.get? channel = some c → s.requests.get? c.request = some q → source = q.addr
  | _ => True

variable {s : UdpSystem} {r : ℕ} {q after : UdpRequest} {attempt : UdpAttempt}

theorem linked_init : init.Linked :=
  ⟨fun _ _ h => (nomatch h), fun _ _ h => (nomatch h), fun _ _ h => (nomatch h),
    fun _ _ h => (nomatch h), fun _ _ _ h => (nomatch h), fun _ _ _ h => (nomatch h)⟩

theorem matched_init : init.Matched :=
  ⟨fun _ _ _ h => (nomatch h), fun _ _ _ h => (nomatch h), fun _ _ _ h => (nomatch h)⟩

/-- A channel belongs to one request. -/
theorem Linked.request_unique (hs : s.Linked) {r' : ℕ} {q' : UdpRequest} {attempt' : UdpAttempt}
    (hq : s.requests.get? r = some q) (ha : q.attempt = some attempt)
    (hq' : s.requests.get? r' = some q') (ha' : q'.attempt = some attempt')
    (hchannel : attempt.channel = attempt'.channel) : r = r' := by
  obtain ⟨c, hc, rfl⟩ := hs.attempts r q attempt hq ha
  obtain ⟨c', hc', rfl⟩ := hs.attempts r' q' attempt' hq' ha'
  rw [hchannel, hc'] at hc
  cases hc
  rfl

/-- A channel that is not the one of a request belongs to another request. -/
theorem Linked.request_ne (hs : s.Linked) (hq : s.requests.get? r = some q)
    (ha : q.attempt = some attempt) {channel : ℕ} {c : UdpChannel}
    (hc : s.channels.get? channel = some c) (hne : channel ≠ attempt.channel) : c.request ≠ r := by
  rintro rfl
  obtain ⟨q', attempt', hq', ha', rfl, -⟩ := hs.owners channel c hc
  rw [hq] at hq'
  cases hq'
  rw [ha] at ha'
  cases ha'
  exact hne rfl

/-- A request without an attempt has no channel. -/
theorem Linked.request_ne_of_idle (hs : s.Linked) (hq : s.requests.get? r = some q)
    (ha : q.attempt = none) {channel : ℕ} {c : UdpChannel}
    (hc : s.channels.get? channel = some c) : c.request ≠ r := by
  rintro rfl
  obtain ⟨q', attempt', hq', ha', -⟩ := hs.owners channel c hc
  rw [hq] at hq'
  cases hq'
  cases ha.symm.trans ha'

theorem Linked.endAttempt (hs : s.Linked) (hq : s.requests.get? r = some q)
    (ha : q.attempt = some attempt) (hid : after.transactionId = q.transactionId)
    (hresult : ∀ delivery, after.result = some delivery →
      delivery.response.transactionId = q.transactionId) :
    (s.endAttempt r q attempt after).Linked := by
  refine ⟨?_, ?_, ?_, ?_, ?_, ?_⟩
  · intro channel c hc
    exact hs.fresh channel c (HashMap.get?_of_get?_erase hc).2
  · intro r' q' hq'
    rcases HashMap.get?_of_get?_insert hq' with ⟨hr, -⟩ | ⟨-, hq'⟩
    · exact hr ▸ hs.known r q hq
    · exact hs.known r' q' hq'
  · intro id channel hget
    obtain ⟨hne, hold⟩ := HashMap.get?_of_get?_erase hget
    obtain ⟨c, q', hc, hq', rfl⟩ := hs.entries id channel hold
    have hchannel : channel ≠ attempt.channel := by
      rintro rfl
      obtain ⟨c', hc', hr⟩ := hs.attempts r q attempt hq ha
      rw [hc] at hc'
      cases hc'
      rw [hr, hq] at hq'
      cases hq'
      exact hne rfl
    refine ⟨c, q', (HashMap.get?_erase_of_ne hchannel).trans hc, ?_, rfl⟩
    exact (HashMap.get?_insert_of_ne (hs.request_ne hq ha hc hchannel)).trans hq'
  · intro channel c hget
    obtain ⟨hne, hc⟩ := HashMap.get?_of_get?_erase hget
    obtain ⟨q', attempt', hq', hrest⟩ := hs.owners channel c hc
    exact ⟨q', attempt', (HashMap.get?_insert_of_ne (hs.request_ne hq ha hc hne)).trans hq', hrest⟩
  · intro r' q' attempt' hq' ha'
    rcases HashMap.get?_of_get?_insert hq' with ⟨-, rfl⟩ | ⟨hr, hq'⟩
    · cases ha'
    · obtain ⟨c, hc, hrequest⟩ := hs.attempts r' q' attempt' hq' ha'
      have hchannel : attempt'.channel ≠ attempt.channel := by
        intro heq
        exact hr (hs.request_unique hq' ha' hq ha heq)
      exact ⟨c, (HashMap.get?_erase_of_ne hchannel).trans hc, hrequest⟩
  · intro r' q' delivery hq' hd
    rcases HashMap.get?_of_get?_insert hq' with ⟨-, rfl⟩ | ⟨-, hq'⟩
    · rw [hid]
      exact hresult delivery hd
    · exact hs.results r' q' delivery hq' hd

theorem Matched.endAttempt (hm : s.Matched) (hs : s.Linked) (hq : s.requests.get? r = some q)
    (ha : q.attempt = some attempt) (haddr : after.addr = q.addr)
    (hresult : ∀ delivery, after.result = some delivery → delivery.source = q.addr) :
    (s.endAttempt r q attempt after).Matched := by
  refine ⟨?_, ?_, ?_⟩
  · intro r' q' attempt' hq' ha'
    rcases HashMap.get?_of_get?_insert hq' with ⟨-, rfl⟩ | ⟨hr, hq'⟩
    · cases ha'
    · have hregistered := hm.registered r' q' attempt' hq' ha'
      refine (HashMap.get?_erase_of_ne ?_).trans hregistered
      -- two requests with one id would have one channel
      intro heq
      rw [heq, hm.registered r q attempt hq ha] at hregistered
      exact hr (hs.request_unique hq' ha' hq ha (Option.some.inj hregistered).symm)
  · intro channel c q' hget hq'
    obtain ⟨hne, hc⟩ := HashMap.get?_of_get?_erase hget
    simp only [UdpSystem.endAttempt, HashMap.get?_insert_of_ne (hs.request_ne hq ha hc hne)] at hq'
    exact hm.queued channel c q' hc hq'
  · intro r' q' delivery hq' hd
    rcases HashMap.get?_of_get?_insert hq' with ⟨-, rfl⟩ | ⟨-, hq'⟩
    · rw [haddr]
      exact hresult delivery hd
    · exact hm.completed r' q' delivery hq' hd

theorem Linked.beginAttempt (hs : s.Linked) (hq : s.requests.get? r = some q)
    (ha : q.attempt = none) : (s.beginAttempt r q).Linked := by
  have hnew (channel : ℕ) (c : UdpChannel) (hc : s.channels.get? channel = some c) :
      channel ≠ s.nextChannel := Nat.ne_of_lt (hs.fresh channel c hc)
  refine ⟨?_, ?_, ?_, ?_, ?_, ?_⟩
  · intro channel c hc
    simp only [UdpSystem.beginAttempt, HashMap.get?_insert] at hc ⊢
    split at hc
    · omega
    · exact Nat.lt_succ_of_lt (hs.fresh channel c hc)
  · intro r' q' hq'
    rcases HashMap.get?_of_get?_insert hq' with ⟨hr, -⟩ | ⟨-, hq'⟩
    · exact hr ▸ hs.known r q hq
    · exact hs.known r' q' hq'
  · intro id channel hget
    simp only [UdpSystem.beginAttempt, HashMap.get?_insert] at hget ⊢
    split at hget
    · rename_i hid
      cases hget
      exact ⟨⟨r, []⟩, { q with attempt := some ⟨s.nextChannel, false⟩ }, by simp, by simp, hid.symm⟩
    · obtain ⟨c, q', hc, hq', hid⟩ := hs.entries id channel hget
      exact ⟨c, q', by rw [if_neg (hnew channel c hc), hc],
        by rw [if_neg (hs.request_ne_of_idle hq ha hc), hq'], hid⟩
  · intro channel c hc
    simp only [UdpSystem.beginAttempt, HashMap.get?_insert] at hc ⊢
    split at hc
    · rename_i hchannel
      cases hc
      exact ⟨{ q with attempt := some ⟨s.nextChannel, false⟩ }, ⟨s.nextChannel, false⟩, by simp, rfl,
        hchannel.symm, fun _ h => absurd h List.not_mem_nil⟩
    · obtain ⟨q', attempt', hq', hrest⟩ := hs.owners channel c hc
      exact ⟨q', attempt', by rw [if_neg (hs.request_ne_of_idle hq ha hc), hq'], hrest⟩
  · intro r' q' attempt' hq' ha'
    simp only [UdpSystem.beginAttempt, HashMap.get?_insert] at hq' ⊢
    split at hq'
    · rename_i hr
      cases hq'
      cases ha'
      exact ⟨⟨r, []⟩, by simp, hr.symm⟩
    · obtain ⟨c, hc, hrequest⟩ := hs.attempts r' q' attempt' hq' ha'
      exact ⟨c, by rw [if_neg (hnew _ c hc), hc], hrequest⟩
  · intro r' q' delivery hq' hd
    rcases HashMap.get?_of_get?_insert hq' with ⟨-, rfl⟩ | ⟨-, hq'⟩
    · exact hs.results r q delivery hq hd
    · exact hs.results r' q' delivery hq' hd

/-- **When an attempt registers its id**, requests stay matched exactly if no other has registered it. -/
theorem Matched.beginAttempt_iff (hm : s.Matched) (hs : s.Linked) (hq : s.requests.get? r = some q)
    (ha : q.attempt = none) :
    (s.beginAttempt r q).Matched ↔
      ∀ r' q' attempt, s.requests.get? r' = some q' → q'.attempt = some attempt →
        q'.transactionId ≠ q.transactionId := by
  have hother (r' : ℕ) (q' : UdpRequest) (attempt : UdpAttempt) (hq' : s.requests.get? r' = some q')
      (ha' : q'.attempt = some attempt) : r' ≠ r := by
    rintro rfl
    rw [hq] at hq'
    cases hq'
    cases ha.symm.trans ha'
  constructor
  · intro hmatched r' q' attempt hq' ha' hid
    have hkept : (s.beginAttempt r q).requests.get? r' = some q' :=
      (HashMap.get?_insert_of_ne (hother r' q' attempt hq' ha')).trans hq'
    have hregistered := hmatched.registered r' q' attempt hkept ha'
    simp only [UdpSystem.beginAttempt, hid, HashMap.get?_insert_self, Option.some.injEq] at hregistered
    obtain ⟨c, hc, -⟩ := hs.attempts r' q' attempt hq' ha'
    have hlt := hs.fresh attempt.channel c hc
    omega
  · intro hclean
    refine ⟨?_, ?_, ?_⟩
    · intro r' q' attempt hq' ha'
      simp only [UdpSystem.beginAttempt, HashMap.get?_insert] at hq' ⊢
      split at hq'
      · cases hq'
        cases ha'
        simp
      · rw [if_neg (hclean r' q' attempt hq' ha')]
        exact hm.registered r' q' attempt hq' ha'
    · intro channel c q' hc hq'
      simp only [UdpSystem.beginAttempt, HashMap.get?_insert] at hc hq'
      split at hc
      · cases hc
        exact fun _ h => absurd h List.not_mem_nil
      · rw [if_neg (hs.request_ne_of_idle hq ha hc)] at hq'
        exact hm.queued channel c q' hc hq'
    · intro r' q' delivery hq' hd
      rcases HashMap.get?_of_get?_insert hq' with ⟨-, rfl⟩ | ⟨-, hq'⟩
      · exact hm.completed r q delivery hq hd
      · exact hm.completed r' q' delivery hq' hd

/-- A request that is put in the map is new, or the one that is there with its attempt on the same
channel. -/
def Renews (s : UdpSystem) (r : ℕ) (after : UdpRequest) : Prop :=
  (s.requests.get? r = none ∧ after.attempt = none ∧ after.result = none) ∨
    ∃ q, s.requests.get? r = some q ∧ after.addr = q.addr ∧ after.transactionId = q.transactionId ∧
      after.result = q.result ∧ after.attempt.map UdpAttempt.channel = q.attempt.map UdpAttempt.channel

/-- What is put in the map is found with the same channel as before. -/
theorem Renews.of_attempt (h : s.Renews r after) (ha : after.attempt = some attempt) :
    ∃ q attempt', s.requests.get? r = some q ∧ q.attempt = some attempt' ∧
      attempt'.channel = attempt.channel ∧ after.transactionId = q.transactionId := by
  rcases h with ⟨-, hidle, -⟩ | ⟨q, hq, -, hid, -, hchannel⟩
  · cases hidle.symm.trans ha
  · rw [ha] at hchannel
    obtain ⟨attempt', ha', hchannel⟩ := Option.map_eq_some_iff.1 hchannel.symm
    exact ⟨q, attempt', hq, ha', hchannel, hid⟩

theorem Renews.of_get? (h : s.Renews r after) (hq : s.requests.get? r = some q) :
    after.addr = q.addr ∧ after.transactionId = q.transactionId ∧ after.result = q.result ∧
      after.attempt.map UdpAttempt.channel = q.attempt.map UdpAttempt.channel := by
  rcases h with ⟨hnone, -⟩ | ⟨q', hq', hrest⟩
  · cases hnone.symm.trans hq
  · rw [hq] at hq'
    cases hq'
    exact hrest

theorem Linked.putRequest (hs : s.Linked) {n : ℕ} (hn : s.nextRequest ≤ n) (hr : r < n)
    (h : s.Renews r after) :
    { s with requests := s.requests.insert r after, nextRequest := n : UdpSystem }.Linked := by
  refine ⟨hs.fresh, ?_, ?_, ?_, ?_, ?_⟩
  · intro r' q' hq'
    rcases HashMap.get?_of_get?_insert hq' with ⟨heq, -⟩ | ⟨-, hq'⟩
    · exact heq ▸ hr
    · exact lt_of_lt_of_le (hs.known r' q' hq') hn
  · intro id channel hget
    obtain ⟨c, q, hc, hq, hid⟩ := hs.entries id channel hget
    by_cases heq : c.request = r
    · subst heq
      exact ⟨c, after, hc, HashMap.get?_insert_self _ _ _, (h.of_get? hq).2.1.trans hid⟩
    · exact ⟨c, q, hc, (HashMap.get?_insert_of_ne heq).trans hq, hid⟩
  · intro channel c hc
    obtain ⟨q, attempt, hq, ha, hchannel, hqueue⟩ := hs.owners channel c hc
    by_cases heq : c.request = r
    · subst heq
      obtain ⟨-, hid, -, hsame⟩ := h.of_get? hq
      rw [ha] at hsame
      obtain ⟨attempt', ha', hchannel'⟩ := Option.map_eq_some_iff.1 hsame
      refine ⟨after, attempt', HashMap.get?_insert_self _ _ _, ha', hchannel'.trans hchannel, ?_⟩
      rw [hid]
      exact hqueue
    · exact ⟨q, attempt, (HashMap.get?_insert_of_ne heq).trans hq, ha, hchannel, hqueue⟩
  · intro r' q' attempt hq' ha
    rcases HashMap.get?_of_get?_insert hq' with ⟨heq, rfl⟩ | ⟨-, hq'⟩
    · obtain ⟨q, attempt', hq, ha', hchannel, -⟩ := h.of_attempt ha
      rw [heq, ← hchannel]
      exact hs.attempts r q attempt' hq ha'
    · exact hs.attempts r' q' attempt hq' ha
  · intro r' q' delivery hq' hd
    rcases HashMap.get?_of_get?_insert hq' with ⟨-, rfl⟩ | ⟨-, hq'⟩
    · rcases h with ⟨-, -, hnone⟩ | ⟨q, hq, -, hid, hresult, -⟩
      · cases hnone.symm.trans hd
      · rw [hid]
        exact hs.results r q delivery hq (hresult.symm.trans hd)
    · exact hs.results r' q' delivery hq' hd

theorem Matched.putRequest (hm : s.Matched) (hs : s.Linked) {n : ℕ} (h : s.Renews r after) :
    { s with requests := s.requests.insert r after, nextRequest := n : UdpSystem }.Matched := by
  refine ⟨?_, ?_, ?_⟩
  · intro r' q' attempt hq' ha
    rcases HashMap.get?_of_get?_insert hq' with ⟨-, rfl⟩ | ⟨-, hq'⟩
    · obtain ⟨q, attempt', hq, ha', hchannel, hid⟩ := h.of_attempt ha
      simp only [hid, ← hchannel]
      exact hm.registered r q attempt' hq ha'
    · exact hm.registered r' q' attempt hq' ha
  · intro channel c q' hc hq'
    rcases HashMap.get?_of_get?_insert hq' with ⟨heq, rfl⟩ | ⟨-, hq'⟩
    · obtain ⟨q, attempt, hq, -⟩ := hs.owners channel c hc
      rw [heq] at hq
      rw [(h.of_get? hq).1]
      exact hm.queued channel c q hc (heq ▸ hq)
    · exact hm.queued channel c q' hc hq'
  · intro r' q' delivery hq' hd
    rcases HashMap.get?_of_get?_insert hq' with ⟨-, rfl⟩ | ⟨-, hq'⟩
    · rcases h with ⟨-, -, hnone⟩ | ⟨q, hq, haddr, -, hresult, -⟩
      · cases hnone.symm.trans hd
      · rw [haddr]
        exact hm.completed r q delivery hq (hresult.symm.trans hd)
    · exact hm.completed r' q' delivery hq' hd

/-- A datagram goes to the channel of a request that has its id. -/
theorem Linked.deliver (hs : s.Linked) {response : TrackerResponse} {source : SocketAddr} {channel : ℕ}
    {c : UdpChannel} (hget : s.responseChannels.get? response.transactionId = some channel)
    (hc : s.channels.get? channel = some c) :
    { s with channels := s.channels.insert channel { c with queue := c.queue ++ [⟨response, source⟩] } :
      UdpSystem }.Linked := by
  have hkept (channel' : ℕ) (c' : UdpChannel) (hc' : s.channels.get? channel' = some c') :
      ∃ c'', (s.channels.insert channel { c with queue := c.queue ++ [⟨response, source⟩] }).get? channel' =
        some c'' ∧ c''.request = c'.request := by
    by_cases heq : channel' = channel
    · subst heq
      rw [hc] at hc'
      cases hc'
      exact ⟨_, HashMap.get?_insert_self _ _ _, rfl⟩
    · exact ⟨c', (HashMap.get?_insert_of_ne heq).trans hc', rfl⟩
  refine ⟨?_, hs.known, ?_, ?_, ?_, hs.results⟩
  · intro channel' c' hc'
    rcases HashMap.get?_of_get?_insert hc' with ⟨heq, -⟩ | ⟨-, hc'⟩
    · exact heq ▸ hs.fresh channel c hc
    · exact hs.fresh channel' c' hc'
  · intro id channel' hget'
    obtain ⟨c', q, hc', hq, hid⟩ := hs.entries id channel' hget'
    obtain ⟨c'', hc'', hrequest⟩ := hkept channel' c' hc'
    exact ⟨c'', q, hc'', hrequest ▸ hq, hid⟩
  · intro channel' c' hc'
    rcases HashMap.get?_of_get?_insert hc' with ⟨heq, rfl⟩ | ⟨-, hc'⟩
    · obtain ⟨q, attempt, hq, ha, hchannel, hqueue⟩ := hs.owners channel c hc
      refine ⟨q, attempt, hq, ha, hchannel.trans heq.symm, ?_⟩
      intro delivery hd
      rcases List.mem_append.1 hd with hd | hd
      · exact hqueue delivery hd
      · cases List.mem_singleton.1 hd
        -- the id is registered by a request that has it, and the channel has one request
        obtain ⟨c', q', hc', hq', hid⟩ := hs.entries _ channel hget
        rw [hc] at hc'
        cases hc'
        rw [hq] at hq'
        cases hq'
        exact hid.symm
    · exact hs.owners channel' c' hc'
  · intro r' q' attempt hq' ha
    obtain ⟨c', hc', hrequest⟩ := hs.attempts r' q' attempt hq' ha
    obtain ⟨c'', hc'', hrequest'⟩ := hkept attempt.channel c' hc'
    exact ⟨c'', hc'', hrequest'.trans hrequest⟩

/-- **When a datagram is passed on**, requests stay matched exactly if it came from the tracker that was
asked. -/
theorem Matched.deliver_iff (hm : s.Matched) {response : TrackerResponse} {source : SocketAddr}
    {channel : ℕ} {c : UdpChannel} (hc : s.channels.get? channel = some c)
    (hq : s.requests.get? c.request = some q) :
    { s with channels := s.channels.insert channel { c with queue := c.queue ++ [⟨response, source⟩] } :
      UdpSystem }.Matched ↔ source = q.addr := by
  constructor
  · intro hmatched
    exact hmatched.queued channel _ q (HashMap.get?_insert_self _ _ _) hq ⟨response, source⟩
      (List.mem_append_right _ (List.mem_singleton_self _))
  · intro hsource
    refine ⟨hm.registered, ?_, hm.completed⟩
    intro channel' c' q' hc' hq'
    rcases HashMap.get?_of_get?_insert hc' with ⟨-, rfl⟩ | ⟨-, hc'⟩
    · rw [hq] at hq'
      cases hq'
      intro delivery hd
      rcases List.mem_append.1 hd with hd | hd
      · exact hm.queued channel c q hc hq delivery hd
      · cases List.mem_singleton.1 hd
        exact hsource
    · exact hm.queued channel' c' q' hc' hq'

/-! ### Steps -/

/-- The request whose attempt the event can end. -/
def Ends : UdpEvent → ℕ → Prop
  | .sent r ok, r' => r = r' ∧ ok = false
  | .receive r, r' => r = r'
  | .timeout r, r' => r = r'
  | .drop r, r' => r = r'
  | _, _ => False

/-- What the head of the queue of a running attempt is. -/
theorem Linked.head_mem (hs : s.Linked) (hq : s.requests.get? r = some q)
    (ha : q.attempt = some attempt) {delivery : UdpDelivery}
    (hd : ((s.channels.get? attempt.channel).bind fun c => c.queue.head?) = some delivery) :
    ∃ c, s.channels.get? attempt.channel = some c ∧ c.request = r ∧ delivery ∈ c.queue ∧
      delivery.response.transactionId = q.transactionId := by
  obtain ⟨c, hc, hrequest⟩ := hs.attempts r q attempt hq ha
  rw [hc, Option.bind_some] at hd
  have hmem : delivery ∈ c.queue := List.mem_of_mem_head? hd
  obtain ⟨q', attempt', hq', -, -, hqueue⟩ := hs.owners attempt.channel c hc
  rw [hrequest, hq] at hq'
  cases hq'
  exact ⟨c, hc, hrequest, hmem, hqueue delivery hmem⟩

/-- What a step can do: one of the operations above, or nothing. -/
inductive Move (s : UdpSystem) : UdpEvent → UdpSystem → Prop
  | stay {event : UdpEvent} (clean : s.Clean event) : Move s event s
  | request (addr : SocketAddr) (transactionId : UInt32) (retries : ℕ) :
      Move s (.request addr transactionId retries)
        { s with
          requests := s.requests.insert s.nextRequest ⟨addr, transactionId, retries, none, false, none⟩
          nextRequest := s.nextRequest + 1 }
  | register {r : ℕ} {q : UdpRequest} (hq : s.requests.get? r = some q) (ha : q.attempt = none)
      (hrunning : q.ended = false) : Move s (.attempt r) (s.beginAttempt r q)
  /-- The request goes on, or has ended before. -/
  | renew {event : UdpEvent} {r : ℕ} {q after : UdpRequest} (clean : s.Clean event)
      (hends : ∀ r', Ends event r' → r = r') (hq : s.requests.get? r = some q) (h : s.Renews r after) :
      Move s event { s with requests := s.requests.insert r after }
  /-- The attempt ends, with the first response in its channel or without one. -/
  | unregister {event : UdpEvent} {r : ℕ} {q after : UdpRequest} {attempt : UdpAttempt}
      (clean : s.Clean event) (hends : ∀ r', Ends event r' → r = r')
      (hq : s.requests.get? r = some q) (ha : q.attempt = some attempt) (haddr : after.addr = q.addr)
      (hid : after.transactionId = q.transactionId)
      (hresult : ∀ delivery, after.result = some delivery → q.result = some delivery ∨
        ((s.channels.get? attempt.channel).bind fun c => c.queue.head?) = some delivery) :
      Move s event (s.endAttempt r q attempt after)
  | deliver {response : TrackerResponse} {source : SocketAddr} {channel : ℕ} {c : UdpChannel}
      (hget : s.responseChannels.get? response.transactionId = some channel)
      (hc : s.channels.get? channel = some c) :
      Move s (.datagram response source)
        { s with
          channels := s.channels.insert channel { c with queue := c.queue ++ [⟨response, source⟩] } }

theorem move_next (s : UdpSystem) (event : UdpEvent) : s.Move event (s.next event) := by
  cases event with
  | request addr transactionId retries => exact .request addr transactionId retries
  | attempt r =>
      simp only [UdpSystem.next]
      split
      · rename_i q hq
        split
        · rename_i hidle
          rw [Bool.and_eq_true, Option.isNone_iff_eq_none, Bool.not_eq_true'] at hidle
          exact .register hq hidle.1 hidle.2
        · rename_i hbusy
          refine .stay fun q' hq' ha hrunning => absurd ?_ hbusy
          rw [hq] at hq'
          cases hq'
          simp [ha, hrunning]
      · rename_i hnone
        refine .stay fun q' hq' => ?_
        cases hnone.symm.trans hq'
  | sent r ok =>
      simp only [UdpSystem.next]
      split
      · rename_i q hq
        split
        · rename_i channel ha
          cases ok with
          | true => exact .renew trivial (fun _ h => h.1) hq (.inr ⟨q, hq, rfl, rfl, rfl, by rw [ha]; rfl⟩)
          | false => exact .unregister trivial (fun _ h => h.1) hq ha rfl rfl fun _ h => .inl h
        · exact .stay trivial
      · exact .stay trivial
  | receive r =>
      simp only [UdpSystem.next]
      split
      · rename_i q hq
        split
        · rename_i channel ha
          split
          · rename_i delivery hd
            refine .unregister trivial (fun _ h => h) hq ha rfl rfl ?_
            rintro delivery' ⟨⟩
            exact .inr hd
          · exact .stay trivial
        · exact .stay trivial
      · exact .stay trivial
  | timeout r =>
      simp only [UdpSystem.next]
      split
      · rename_i q hq
        split
        · rename_i channel ha
          split
          · exact .stay trivial
          · exact .unregister trivial (fun _ h => h) hq ha rfl rfl fun _ h => .inl h
        · exact .stay trivial
      · exact .stay trivial
  | drop r =>
      simp only [UdpSystem.next]
      split
      · rename_i q hq
        split
        · rename_i attempt ha
          exact .unregister trivial (fun _ h => h) hq ha rfl rfl fun _ h => .inl h
        · exact .renew trivial (fun _ h => h) hq (.inr ⟨q, hq, rfl, rfl, rfl, rfl⟩)
      · exact .stay trivial
  | datagram response source =>
      simp only [UdpSystem.next]
      split
      · rename_i channel hget
        split
        · rename_i c hc
          exact .deliver hget hc
        · rename_i hnone
          refine .stay fun channel' c q hget' hc => ?_
          rw [hget] at hget'
          cases hget'
          cases hnone.symm.trans hc
      · rename_i hnone
        refine .stay fun channel c q hget => ?_
        cases hnone.symm.trans hget

theorem Linked.get?_nextRequest (hs : s.Linked) : s.requests.get? s.nextRequest = none := by
  cases hq : s.requests.get? s.nextRequest with
  | none => rfl
  | some q => exact absurd (hs.known _ q hq) (Nat.lt_irrefl _)

theorem Linked.move (hs : s.Linked) {event : UdpEvent} {s' : UdpSystem} (h : s.Move event s') :
    s'.Linked := by
  cases h with
  | stay => exact hs
  | request addr transactionId retries =>
      exact hs.putRequest (Nat.le_succ _) (Nat.lt_succ_self _) (.inl ⟨hs.get?_nextRequest, rfl, rfl⟩)
  | register hq ha => exact hs.beginAttempt hq ha
  | renew clean _ hq h => exact hs.putRequest (Nat.le_refl _) (hs.known _ _ hq) h
  | @unregister _ r q after attempt clean _ hq ha haddr hid hresult =>
      refine hs.endAttempt hq ha hid ?_
      intro delivery hd
      rcases hresult delivery hd with hsame | hhead
      · exact hs.results r q delivery hq hsame
      · obtain ⟨c, -, -, -, hid'⟩ := hs.head_mem hq ha hhead
        exact hid'
  | deliver hget hc => exact hs.deliver hget hc

/-- **A step keeps requests matched exactly if it registers no id that another request has, and passes
on no datagram from another source.** -/
theorem Matched.move_iff (hm : s.Matched) (hs : s.Linked) {event : UdpEvent} {s' : UdpSystem}
    (h : s.Move event s') : s'.Matched ↔ s.Clean event := by
  cases h with
  | stay clean => exact iff_of_true hm clean
  | request addr transactionId retries =>
      exact iff_of_true (hm.putRequest hs (.inl ⟨hs.get?_nextRequest, rfl, rfl⟩)) trivial
  | @register r q hq ha hrunning =>
      rw [hm.beginAttempt_iff hs hq ha]
      refine ⟨?_, fun hclean => hclean q hq ha hrunning⟩
      intro h q' hq' _ _
      rw [hq] at hq'
      cases hq'
      exact h
  | renew clean _ hq h => exact iff_of_true (hm.putRequest hs h) clean
  | @unregister _ r q after attempt clean _ hq ha haddr hid hresult =>
      refine iff_of_true (hm.endAttempt hs hq ha haddr ?_) clean
      intro delivery hd
      rcases hresult delivery hd with hsame | hhead
      · exact hm.completed r q delivery hq hsame
      · obtain ⟨c, hc, hrequest, hmem, -⟩ := hs.head_mem hq ha hhead
        exact hm.queued attempt.channel c q hc (hrequest ▸ hq) delivery hmem
  | @deliver response source channel c hget hc =>
      obtain ⟨q, attempt, hq, -⟩ := hs.owners channel c hc
      rw [hm.deliver_iff hc hq]
      refine ⟨?_, fun hclean => hclean channel c q hget hc hq⟩
      rintro rfl channel' c' q' hget' hc' hq'
      rw [hget] at hget'
      cases hget'
      rw [hc] at hc'
      cases hc'
      rw [hq] at hq'
      cases hq'
      rfl

/-! ### Runs -/

theorem clean_of_ends {event : UdpEvent} (h : Ends event r) : s.Clean event := by
  cases event with
  | request => trivial
  | attempt => exact h.elim
  | datagram => exact h.elim
  | sent => trivial
  | receive => trivial
  | timeout => trivial
  | drop => trivial

/-- The end of one request leaves the others as they are. -/
theorem Move.get?_requests {event : UdpEvent} {s' : UdpSystem} (hmove : s.Move event s')
    (h : Ends event r) {r' : ℕ} (hne : r' ≠ r) : s'.requests.get? r' = s.requests.get? r' := by
  cases hmove with
  | stay => rfl
  | request => exact h.elim
  | register => exact h.elim
  | renew _ hends => exact HashMap.get?_insert_of_ne (hends r h ▸ hne)
  | unregister _ hends => exact HashMap.get?_insert_of_ne (hends r h ▸ hne)
  | deliver => exact h.elim

/-- The invariants of the runs whose steps meet the condition. -/
theorem matched_along (events : List UdpEvent) (h : System.Along Clean next init events) :
    (events.foldl next init).Matched ∧ (events.foldl next init).Linked := by
  refine h.invariant (I := fun s => s.Matched ∧ s.Linked) ?_ ⟨matched_init, linked_init⟩
  rintro s event ⟨hm, hs⟩ hevent
  have hmove := s.move_next event
  exact ⟨(hm.move_iff hs hmove).2 hevent, hs.move hmove⟩

end UdpSystem

/-- **Responses reach only the request they answer**, in every run that registers no id which another
request has registered and passes on no datagram from another source than the tracker that was asked.
The next step keeps this exactly if it meets the condition. -/
theorem udp_responses_matched (events : List UdpEvent)
    (h : System.Along UdpSystem.Clean UdpSystem.next .init events) :
    let s := events.foldl UdpSystem.next .init
    (∀ r q delivery, s.requests.get? r = some q → q.result = some delivery →
      delivery.source = q.addr ∧ delivery.response.transactionId = q.transactionId) ∧
    (∀ r q attempt, s.requests.get? r = some q → q.attempt = some attempt →
      s.responseChannels.get? q.transactionId = some attempt.channel ∧
      ∀ event r', UdpSystem.Ends event r' → r ≠ r' →
        (s.next event).responseChannels.get? q.transactionId = some attempt.channel) ∧
    ∀ event, (s.next event).Matched ↔ s.Clean event := by
  obtain ⟨hm, hs⟩ := UdpSystem.matched_along events h
  intro s
  refine ⟨?_, ?_, fun event => hm.move_iff hs (s.move_next event)⟩
  · intro r q delivery hq hd
    exact ⟨hm.completed r q delivery hq hd, hs.results r q delivery hq hd⟩
  · intro r q attempt hq ha
    refine ⟨hm.registered r q attempt hq ha, ?_⟩
    intro event r' hends hne
    have hnext : (s.next event).Matched :=
      (hm.move_iff hs (s.move_next event)).2 (UdpSystem.clean_of_ends hends)
    exact hnext.registered r q attempt (((s.move_next event).get?_requests hends hne).trans hq) ha

namespace Sample

def trackerAddr : SocketAddr := ⟨nodeAddr.ip, 6969⟩

def otherAddr : SocketAddr := ⟨.v4 #v[10, 0, 0, 3], 6969⟩

/-- A request with the id 7, and a response to it from the given address. -/
def answeredFrom (source : SocketAddr) : List UdpEvent :=
  [.request trackerAddr 7 8, .attempt 0, .sent 0 true, .datagram (.connect 7 42) source, .receive 0]

/-- Two requests to two trackers with the same id; the first one times out. -/
def collision : List UdpEvent :=
  [.request trackerAddr 7 8, .request otherAddr 7 8, .attempt 0, .sent 0 true, .attempt 1, .sent 1 true,
    .timeout 0]

end Sample

open Sample in
theorem udp_responses_matched_sample :
    ((answeredFrom trackerAddr).foldl UdpSystem.next .init).requests.get? 0 =
      some ⟨trackerAddr, 7, 8, none, true, some ⟨.connect 7 42, trackerAddr⟩⟩ ∧
    (⟨.connect 7 42, trackerAddr⟩ : UdpDelivery).source = trackerAddr := by
  have hrequest : ((answeredFrom trackerAddr).foldl UdpSystem.next .init).requests.get? 0 =
      some ⟨trackerAddr, 7, 8, none, true, some ⟨.connect 7 42, trackerAddr⟩⟩ := by decide
  refine ⟨hrequest, ((udp_responses_matched (answeredFrom trackerAddr) ?_).1 0 _ _ hrequest rfl).1⟩
  refine ⟨trivial, ?_, trivial, ?_, trivial, trivial⟩
  · intro q _ _ _ r' q' attempt hq' ha'
    rcases HashMap.get?_of_get?_insert hq' with ⟨-, rfl⟩ | ⟨-, hq'⟩
    · cases ha'
    · cases hq'
  · rintro channel c q ⟨⟩ ⟨⟩ ⟨⟩
    rfl

open Sample in
/-- A datagram from another address completes the request, and the timeout of one request takes away the
registration of another, which is still waiting. -/
theorem foreign_datagram_completes_request :
    (∃ r q delivery, ((answeredFrom otherAddr).foldl UdpSystem.next .init).requests.get? r = some q ∧
      q.result = some delivery ∧ delivery.source ≠ q.addr) ∧
    ∃ q, (collision.foldl UdpSystem.next .init).requests.get? 1 = some q ∧ q.attempt = some ⟨1, true⟩ ∧
      (collision.foldl UdpSystem.next .init).responseChannels.get? q.transactionId = none :=
  ⟨⟨0, ⟨trackerAddr, 7, 8, none, true, some ⟨.connect 7 42, otherAddr⟩⟩, _, by decide, rfl, by decide⟩,
    ⟨otherAddr, 7, 8, some ⟨1, true⟩, false, none⟩, by decide, rfl, by decide⟩

end Tortillas
