/-
**Queries of the DHT and the responses that answer them.**

`dht/transaction.rs` and `dht/transport.rs`: a query is sent with a transaction id, and the node that
is asked repeats it in its response.  `TransactionTable` holds the ids of the queries that wait, with
the address that was asked and the channel for the result.  An id is a 16-bit counter that wraps, and
an id that is still in use is skipped.  A response is taken only from the address that was asked.

Anybody can send any datagram from any address.  The table is used by many tasks at once, but each
operation holds its lock from beginning to end.

Main definitions:

* `TransactionTable` — the table, with `begin`, `complete` and `cancel`;
* `Transactions` — the table with the receivers of the channels, and its steps;
* `Transactions.Pending` — a query that waits for its response;
* `Transactions.Answers` — a datagram that has the id and the address of a query.

Main results:

* `freeId_eq_none_iff` — the search for an id ends unless all of them are in use;
* `Transactions.Sound.next` — what every step keeps;
* `dht_responses_matched` — **responses reach exactly the query they answer**.
-/

import Tortillas.Krpc
import Tortillas.PeerMessages
import Tortillas.Transition

set_option relaxedAutoImplicit false
set_option autoImplicit false

namespace Tortillas

/-! ### Free identifiers -/

/-- The first identifier that is not in use, among so many from `id` on.  After the last one the
first one follows. -/
def freeId (used : UInt16 → Bool) : ℕ → UInt16 → Option UInt16
  | 0, _ => none
  | fuel + 1, id => if used id then freeId used fuel (id + 1) else some id

theorem freeId_eq_some {used : UInt16 → Bool} {fuel : ℕ} {id free : UInt16}
    (h : freeId used fuel id = some free) : used free = false := by
  induction fuel generalizing id with
  | zero => cases h
  | succ fuel ih =>
      rw [freeId] at h
      split at h
      · exact ih h
      · rename_i hfree
        cases h
        exact eq_false_of_ne_true hfree

theorem used_of_freeId_eq_none {used : UInt16 → Bool} {fuel : ℕ} {id : UInt16}
    (h : freeId used fuel id = none) (k : ℕ) (hk : k < fuel) : used (id + UInt16.ofNat k) = true := by
  induction fuel generalizing id k with
  | zero => exact absurd hk (Nat.not_lt_zero k)
  | succ fuel ih =>
      rw [freeId] at h
      split at h
      · rename_i hused
        cases k with
        | zero => simpa using hused
        | succ k =>
            have hlater := ih h k (Nat.lt_of_succ_lt_succ hk)
            rw [UInt16.ofNat_add]
            rwa [UInt16.add_assoc, UInt16.add_comm 1] at hlater
      · cases h

/-- **The search ends unless every identifier is in use.**  Once all of them were tried it begins
again with the first. -/
theorem freeId_eq_none_iff {used : UInt16 → Bool} {fuel : ℕ} (hfuel : 65536 ≤ fuel) (id : UInt16) :
    freeId used fuel id = none ↔ ∀ other, used other = true := by
  constructor
  · intro h other
    have hlt : (other - id).toNat < fuel := lt_of_lt_of_le (UInt16.toNat_lt _) hfuel
    have hused := used_of_freeId_eq_none h _ hlt
    rwa [UInt16.ofNat_toNat, UInt16.add_comm, UInt16.sub_add_cancel] at hused
  · intro h
    clear hfuel
    induction fuel generalizing id with
    | zero => rfl
    | succ fuel ih => rw [freeId, if_pos (h id), ih]

/-- `to_be_bytes` -/
def idBytes (id : UInt16) : Bytes := beBytes 2 id.toNat

theorem idBytes_injective : Function.Injective idBytes := by
  intro id other h
  have hnat := congrArg beNat h
  have hid : id.toNat < 256 ^ 2 := UInt16.toNat_lt id
  have hother : other.toNat < 256 ^ 2 := UInt16.toNat_lt other
  simp only [idBytes, beNat_beBytes] at hnat
  rw [Nat.mod_eq_of_lt hid, Nat.mod_eq_of_lt hother] at hnat
  exact UInt16.toNat_inj.1 hnat

/-! ### The table -/

structure SocketAddr where
  ip : IpAddr
  port : UInt16
  deriving DecidableEq

/-- The address of a node of the DHT. -/
def Sample.nodeAddr : SocketAddr := ⟨.v4 #v[10, 0, 0, 1], 6881⟩

inductive TransactionResult
  | response (response : Krpc.Response)
  | error (error : Krpc.DhtError)
  deriving DecidableEq

structure PendingTransaction where
  addr : SocketAddr
  /-- The channel, by its number. -/
  reply : ℕ
  deriving DecidableEq

structure TransactionTable where
  nextId : UInt16
  pending : HashMap Bytes PendingTransaction

namespace TransactionTable

/-- `begin`: the id of the query, and the table with it.  It does not return when all ids are in
use. -/
def begin (t : TransactionTable) (addr : SocketAddr) (reply : ℕ) :
    Option (Bytes × TransactionTable) :=
  match freeId (fun id => t.pending.contains (idBytes id)) 65536 t.nextId with
  | none => none
  | some id =>
      some (idBytes id, ⟨id + 1, t.pending.insert (idBytes id) ⟨addr, reply⟩⟩)

/-- `complete`, as far as the table goes: the channel to send the result on, or nothing when no query
with this id was sent to this address. -/
def complete (t : TransactionTable) (transactionId : Bytes) (addr : SocketAddr) :
    Option (ℕ × TransactionTable) :=
  match t.pending.get? transactionId with
  | none => none
  | some pending =>
      if pending.addr ≠ addr then none
      else some (pending.reply, { t with pending := t.pending.erase transactionId })

def cancel (t : TransactionTable) (transactionId : Bytes) : TransactionTable :=
  { t with pending := t.pending.erase transactionId }

variable {t t' : TransactionTable} {addr : SocketAddr} {reply : ℕ} {transactionId : Bytes}

theorem begin_eq_some (h : t.begin addr reply = some (transactionId, t')) :
    t.pending.get? transactionId = none ∧
      t'.pending = t.pending.insert transactionId ⟨addr, reply⟩ := by
  unfold begin at h
  split at h
  · cases h
  · rename_i id hid
    cases h
    exact ⟨Option.isSome_eq_false_iff.1 (freeId_eq_some hid) |> Option.isNone_iff_eq_none.1, rfl⟩

/-- **`begin` returns unless every id is in use.** -/
theorem begin_eq_none_iff :
    t.begin addr reply = none ↔ ∀ id : UInt16, t.pending.contains (idBytes id) = true := by
  rw [← freeId_eq_none_iff (le_refl 65536) t.nextId]
  unfold begin
  split
  · rename_i h
    simp [h]
  · rename_i id h
    simp [h]

theorem complete_eq_some {channel : ℕ}
    (h : t.complete transactionId addr = some (channel, t')) :
    t.pending.get? transactionId = some ⟨addr, channel⟩ ∧ t' = t.cancel transactionId := by
  unfold complete at h
  split at h
  · cases h
  · rename_i pending hget
    split at h
    · cases h
    · rename_i haddr
      cases h
      have heq : pending.addr = addr := not_not.1 haddr
      exact ⟨heq ▸ hget, rfl⟩

theorem complete_eq_none_iff :
    t.complete transactionId addr = none ↔
      ∀ channel, t.pending.get? transactionId ≠ some ⟨addr, channel⟩ := by
  unfold complete
  cases hget : t.pending.get? transactionId with
  | none => simp
  | some pending =>
      by_cases haddr : pending.addr = addr
      · subst haddr
        simp only [ne_eq, not_true_eq_false, if_false, reduceCtorEq, Option.some.injEq, false_iff,
          not_forall, not_not]
        exact ⟨pending.reply, rfl⟩
      · simp only [ne_eq, haddr, not_false_eq_true, if_true, Option.some.injEq, true_iff]
        rintro channel rfl
        exact haddr rfl

end TransactionTable

/-! ### Receivers -/

/-- A result, with the datagram that brought it. -/
structure Delivery where
  result : TransactionResult
  transactionId : Bytes
  source : SocketAddr
  deriving DecidableEq

/-- The receiving half of the channel of a query, with what `begin` gave and was given. -/
structure Receiver where
  transactionId : Bytes
  addr : SocketAddr
  /-- It was not dropped. -/
  held : Bool
  results : List Delivery
  deriving DecidableEq

/-- A result is sent on the channel. -/
def Receiver.send (r : Receiver) (delivery : Delivery) : Receiver :=
  if r.held then { r with results := r.results ++ [delivery] } else r

structure Transactions where
  table : TransactionTable
  /-- The receivers, in the order of the calls of `begin`. -/
  receivers : List Receiver

inductive TransactionEvent
  | begin (addr : SocketAddr)
  /-- A datagram was decoded. -/
  | datagram (message : Krpc.Message) (source : SocketAddr)
  | cancel (transactionId : Bytes)
  /-- Receivers are dropped. -/
  | drop (gone : List ℕ)

namespace Transactions

variable {s s' : Transactions} {i j : ℕ} {r r' : Receiver} {message : Krpc.Message}
  {source : SocketAddr}

/-- `TransactionTable::new`, with a random counter. -/
def init (nextId : UInt16) : Transactions := ⟨⟨nextId, ∅⟩, []⟩

def begin (s : Transactions) (addr : SocketAddr) : Transactions :=
  match s.table.begin addr s.receivers.length with
  | none => s
  | some (transactionId, table) => ⟨table, s.receivers ++ [⟨transactionId, addr, true, []⟩]⟩

/-- The result that a message carries, and the id of its query. -/
def resultOf : Krpc.Message → Option (Bytes × TransactionResult)
  | .query _ _ => none
  | .response transactionId response => some (transactionId, .response response)
  | .error transactionId error => some (transactionId, .error error)

/-- `DhtTransport::complete`: whether a query was completed, and the state after it. -/
def complete (s : Transactions) (message : Krpc.Message) (source : SocketAddr) :
    Bool × Transactions :=
  match resultOf message with
  | none => (false, s)
  | some (transactionId, result) =>
      match s.table.complete transactionId source with
      | none => (false, s)
      | some (channel, table) =>
          ((s.receivers[channel]?.map Receiver.held).getD false,
            ⟨table, s.receivers.modify channel fun r => r.send ⟨result, transactionId, source⟩⟩)

/-- Drop receivers. -/
def dropAll (receivers : List Receiver) : List ℕ → List Receiver
  | [] => receivers
  | i :: gone => dropAll (receivers.modify i fun r => { r with held := false }) gone

def next (s : Transactions) : TransactionEvent → Transactions
  | .begin addr => s.begin addr
  | .datagram message source => (s.complete message source).2
  | .cancel transactionId => { s with table := s.table.cancel transactionId }
  | .drop gone => { s with receivers := dropAll s.receivers gone }

/-- The query waits: its entry is in the table. -/
def Pending (s : Transactions) (i : ℕ) (r : Receiver) : Prop :=
  s.receivers[i]? = some r ∧ s.table.pending.get? r.transactionId = some ⟨r.addr, i⟩

/-- The datagram is a response or an error with the id of the query, from the address asked. -/
def Answers (message : Krpc.Message) (source : SocketAddr) (r : Receiver) : Prop :=
  ∃ result, resultOf message = some (r.transactionId, result) ∧ source = r.addr

/-! ### What every step keeps -/

/-- Every entry belongs to a query that has no result, and every result came from the address that
was asked, with the id of the query. -/
structure Sound (s : Transactions) : Prop where
  entries : ∀ transactionId pending, s.table.pending.get? transactionId = some pending →
    ∃ r, s.receivers[pending.reply]? = some r ∧ r.transactionId = transactionId ∧
      r.addr = pending.addr ∧ r.results = []
  results : ∀ (i : ℕ) (r : Receiver), s.receivers[i]? = some r → r.results.length ≤ 1 ∧
    ∀ delivery ∈ r.results, delivery.transactionId = r.transactionId ∧ delivery.source = r.addr

theorem sound_init (nextId : UInt16) : (init nextId).Sound :=
  ⟨fun _ _ h => (nomatch h), fun _ _ h => by simp [init] at h⟩

theorem begin_cases (s : Transactions) (addr : SocketAddr) :
    (s.begin addr = s ∧ ∀ id : UInt16, s.table.pending.contains (idBytes id) = true) ∨
    ∃ transactionId, s.table.pending.get? transactionId = none ∧
      (s.begin addr).table.pending =
        s.table.pending.insert transactionId ⟨addr, s.receivers.length⟩ ∧
      (s.begin addr).receivers = s.receivers ++ [⟨transactionId, addr, true, []⟩] := by
  unfold begin
  cases hbegin : s.table.begin addr s.receivers.length with
  | none => exact .inl ⟨rfl, TransactionTable.begin_eq_none_iff.1 hbegin⟩
  | some result =>
      obtain ⟨transactionId, table⟩ := result
      obtain ⟨hnone, hpending⟩ := TransactionTable.begin_eq_some hbegin
      exact .inr ⟨transactionId, hnone, hpending, rfl⟩

/-- A datagram completes the query with its id that was sent to its source, or changes nothing. -/
theorem complete_cases (s : Transactions) (message : Krpc.Message) (source : SocketAddr) :
    (∃ transactionId result channel, resultOf message = some (transactionId, result) ∧
      s.table.pending.get? transactionId = some ⟨source, channel⟩ ∧
      s.complete message source =
        ((s.receivers[channel]?.map Receiver.held).getD false,
          ⟨s.table.cancel transactionId,
            s.receivers.modify channel fun r => r.send ⟨result, transactionId, source⟩⟩)) ∨
    ((∀ transactionId result channel, resultOf message = some (transactionId, result) →
      s.table.pending.get? transactionId ≠ some ⟨source, channel⟩) ∧
      s.complete message source = (false, s)) := by
  unfold complete
  cases hresult : resultOf message with
  | none => exact .inr ⟨fun _ _ _ h => (nomatch h), rfl⟩
  | some carried =>
      obtain ⟨transactionId, result⟩ := carried
      cases hcomplete : s.table.complete transactionId source with
      | none =>
          refine .inr ⟨?_, by simp [hcomplete]⟩
          intro id carried channel h
          cases h
          exact TransactionTable.complete_eq_none_iff.1 hcomplete channel
      | some completed =>
          obtain ⟨channel, table⟩ := completed
          obtain ⟨hget, rfl⟩ := TransactionTable.complete_eq_some hcomplete
          exact .inl ⟨transactionId, result, channel, rfl, hget, by simp [hcomplete]⟩

/-- Dropping receivers changes nothing else about them. -/
theorem getElem?_dropAll {receivers : List Receiver} {gone : List ℕ}
    (h : (dropAll receivers gone)[i]? = some r') :
    ∃ r, receivers[i]? = some r ∧ ∃ held, r' = { r with held } := by
  induction gone generalizing receivers with
  | nil => exact ⟨r', h, r'.held, rfl⟩
  | cons k gone ih =>
      obtain ⟨r, hr, held, rfl⟩ := ih h
      by_cases hk : k = i
      · subst hk
        rw [List.getElem?_modify_eq, Option.map_eq_map, Option.map_eq_some_iff] at hr
        obtain ⟨old, hold, rfl⟩ := hr
        exact ⟨old, hold, held, rfl⟩
      · rw [List.getElem?_modify_ne _ _ hk] at hr
        exact ⟨r, hr, held, rfl⟩

theorem getElem?_dropAll_of_some {receivers : List Receiver} (gone : List ℕ)
    (h : receivers[i]? = some r) : ∃ held, (dropAll receivers gone)[i]? = some { r with held } := by
  induction gone generalizing receivers r with
  | nil => exact ⟨r.held, h⟩
  | cons k gone ih =>
      by_cases hk : k = i
      · exact ih (r := { r with held := false }) (by simp [hk, h])
      · exact ih ((List.getElem?_modify_ne _ _ hk).trans h)

/-- Receivers are changed, but keep their ids, addresses and results. -/
theorem Sound.drop (hs : s.Sound) (gone : List ℕ) : (s.next (.drop gone)).Sound := by
  refine ⟨?_, ?_⟩
  · intro transactionId pending hget
    obtain ⟨r, hr, hid, haddr, hresults⟩ := hs.entries transactionId pending hget
    obtain ⟨held, hheld⟩ := getElem?_dropAll_of_some gone hr
    exact ⟨_, hheld, hid, haddr, hresults⟩
  · intro i r' hr'
    obtain ⟨r, hr, held, rfl⟩ := getElem?_dropAll hr'
    exact hs.results i r hr

theorem Sound.cancel (hs : s.Sound) (transactionId : Bytes) :
    (s.next (.cancel transactionId)).Sound :=
  ⟨fun id pending h => hs.entries id pending (HashMap.get?_of_get?_erase h).2, hs.results⟩

theorem Sound.begin (hs : s.Sound) (addr : SocketAddr) : (s.begin addr).Sound := by
  rcases begin_cases s addr with ⟨heq, -⟩ | ⟨transactionId, -, hpending, hreceivers⟩
  · rw [heq]
    exact hs
  · refine ⟨?_, ?_⟩
    · intro id pending hget
      rw [hpending] at hget
      rw [hreceivers]
      rcases HashMap.get?_of_get?_insert hget with ⟨hid, rfl⟩ | ⟨-, hget⟩
      · exact ⟨⟨transactionId, addr, true, []⟩, by simp, hid.symm, rfl, rfl⟩
      · obtain ⟨r, hr, hrest⟩ := hs.entries id pending hget
        have hlt := (List.getElem?_eq_some_iff.1 hr).1
        exact ⟨r, by rw [List.getElem?_append_left hlt, hr], hrest⟩
    · intro i r hr
      rw [hreceivers] at hr
      by_cases hlt : i < s.receivers.length
      · rw [List.getElem?_append_left hlt] at hr
        exact hs.results i r hr
      · rw [List.getElem?_append_right (by omega)] at hr
        have hnew := List.mem_singleton.1 (List.mem_of_getElem? hr)
        subst hnew
        simp

/-- An entry belongs to one query: a receiver has one id. -/
theorem Sound.reply_inj (hs : s.Sound) {transactionId other : Bytes}
    {pending pending' : PendingTransaction}
    (h : s.table.pending.get? transactionId = some pending)
    (h' : s.table.pending.get? other = some pending') (heq : pending.reply = pending'.reply) :
    transactionId = other := by
  obtain ⟨r, hr, rfl, -⟩ := hs.entries _ _ h
  obtain ⟨r', hr', rfl, -⟩ := hs.entries _ _ h'
  rw [heq, hr'] at hr
  cases hr
  rfl

theorem Sound.complete (hs : s.Sound) (message : Krpc.Message) (source : SocketAddr) :
    (s.complete message source).2.Sound := by
  rcases complete_cases s message source with
    ⟨transactionId, result, channel, -, hget, heq⟩ | ⟨-, heq⟩
  · rw [heq]
    obtain ⟨found, hfound, hid, haddr, hnone⟩ := hs.entries _ _ hget
    refine ⟨?_, ?_⟩
    · intro id pending h
      obtain ⟨hne, hold⟩ := HashMap.get?_of_get?_erase h
      obtain ⟨r, hr, hrest⟩ := hs.entries id pending hold
      have hother : channel ≠ pending.reply := fun h => hne (hs.reply_inj hold hget h.symm)
      exact ⟨r, (List.getElem?_modify_ne _ _ hother).trans hr, hrest⟩
    · intro i r hr
      by_cases hi : channel = i
      · subst hi
        simp only [List.getElem?_modify_eq, hfound, Option.map_eq_map, Option.map_some,
          Option.some.injEq] at hr
        subst hr
        unfold Receiver.send
        split
        · simp [hnone, hid, haddr]
        · exact hs.results channel found hfound
      · simp only [List.getElem?_modify_ne _ _ hi] at hr
        exact hs.results i r hr
  · rw [heq]
    exact hs

/-- **What every step keeps.** -/
theorem Sound.next (hs : s.Sound) (event : TransactionEvent) : (s.next event).Sound := by
  cases event with
  | begin addr => exact hs.begin addr
  | datagram message source => exact hs.complete message source
  | cancel transactionId => exact hs.cancel transactionId
  | drop gone => exact hs.drop gone

theorem Sound.foldl (hs : s.Sound) (events : List TransactionEvent) :
    (events.foldl Transactions.next s).Sound := by
  induction events generalizing s with
  | nil => exact hs
  | cons event events ih => exact ih (hs.next event)

/-! ### The queries that wait -/

theorem Sound.pending_iff (hs : s.Sound) {transactionId : Bytes} {pending : PendingTransaction} :
    s.table.pending.get? transactionId = some pending ↔
      ∃ r, s.Pending pending.reply r ∧ r.transactionId = transactionId ∧ r.addr = pending.addr := by
  constructor
  · intro h
    obtain ⟨r, hr, rfl, haddr, -⟩ := hs.entries transactionId pending h
    refine ⟨r, ⟨hr, ?_⟩, rfl, haddr⟩
    rw [h, haddr]
  · rintro ⟨r, ⟨-, hentry⟩, rfl, haddr⟩
    rw [hentry, haddr]

theorem pending_cancel_iff (transactionId : Bytes) :
    (s.next (.cancel transactionId)).Pending i r ↔ s.Pending i r ∧ r.transactionId ≠ transactionId := by
  constructor
  · rintro ⟨hr, hentry⟩
    obtain ⟨hne, hold⟩ := HashMap.get?_of_get?_erase hentry
    exact ⟨⟨hr, hold⟩, hne⟩
  · rintro ⟨⟨hr, hentry⟩, hne⟩
    exact ⟨hr, (HashMap.get?_erase_of_ne hne).trans hentry⟩

/-- **What a datagram does**: it completes the query that it answers, and no other; or there is no
such query, and nothing happens. -/
theorem Sound.datagram (hs : s.Sound) (message : Krpc.Message) (source : SocketAddr) :
    (∃ i r delivery, s.Pending i r ∧ Answers message source r ∧
      delivery.transactionId = r.transactionId ∧ delivery.source = source ∧
      resultOf message = some (delivery.transactionId, delivery.result) ∧
      (s.complete message source).1 = r.held ∧
      (s.complete message source).2.receivers[i]? = some (r.send delivery) ∧
      (∀ j, j ≠ i → (s.complete message source).2.receivers[j]? = s.receivers[j]?) ∧
      ∀ j r', (s.complete message source).2.Pending j r' ↔ s.Pending j r' ∧ j ≠ i) ∨
    ((∀ i r, s.Pending i r → ¬ Answers message source r) ∧
      s.complete message source = (false, s)) := by
  rcases complete_cases s message source with
    ⟨transactionId, result, channel, hresult, hget, heq⟩ | ⟨hnone, heq⟩
  · obtain ⟨r, hpending, rfl, haddr⟩ := hs.pending_iff.1 hget
    have hr : s.receivers[channel]? = some r := hpending.1
    have hothers (j : ℕ) (hj : j ≠ channel) :
        (s.complete message source).2.receivers[j]? = s.receivers[j]? := by
      rw [heq]
      exact List.getElem?_modify_ne _ _ (Ne.symm hj)
    refine .inl ⟨channel, r, ⟨result, r.transactionId, source⟩, hpending,
      ⟨result, hresult, haddr.symm⟩, rfl, rfl, hresult, ?_, ?_, hothers, ?_⟩
    · rw [heq]
      simp [hr]
    · rw [heq]
      simp [hr]
    · intro j r'
      constructor
      · rintro ⟨hr', hentry⟩
        rw [heq] at hentry
        obtain ⟨hne, hold⟩ := HashMap.get?_of_get?_erase hentry
        have hj : j ≠ channel := by
          rintro rfl
          obtain ⟨r₁, ⟨hr₁, -⟩, hid, -⟩ := hs.pending_iff.1 hold
          rw [hr] at hr₁
          cases hr₁
          exact hne hid.symm
        exact ⟨⟨(hothers j hj).symm.trans hr', hold⟩, hj⟩
      · rintro ⟨⟨hr', hentry⟩, hj⟩
        refine ⟨(hothers j hj).trans hr', ?_⟩
        rw [heq]
        refine (HashMap.get?_erase_of_ne ?_).trans hentry
        intro hid
        rw [hid, hpending.2] at hentry
        exact hj (PendingTransaction.mk.inj (Option.some.inj hentry)).2.symm
  · refine .inr ⟨?_, heq⟩
    rintro i r ⟨-, hentry⟩ ⟨result, hresult, rfl⟩
    exact hnone _ _ _ hresult hentry

/-- **What `begin` does**: the query waits under an id that no other query has; or all ids are in
use, and it does not return. -/
theorem Sound.begins (hs : s.Sound) (addr : SocketAddr) :
    ((∀ id : UInt16, ∃ i r, s.Pending i r ∧ r.transactionId = idBytes id) ∧ s.begin addr = s) ∨
    ∃ transactionId, (∀ i r, s.Pending i r → r.transactionId ≠ transactionId) ∧
      (s.begin addr).Pending s.receivers.length ⟨transactionId, addr, true, []⟩ ∧
      ∀ i r, i ≠ s.receivers.length → ((s.begin addr).Pending i r ↔ s.Pending i r) := by
  rcases begin_cases s addr with ⟨heq, hall⟩ | ⟨transactionId, hnone, hpending, hreceivers⟩
  · refine .inl ⟨?_, heq⟩
    intro id
    obtain ⟨pending, hget⟩ := Option.isSome_iff_exists.1 (hall id)
    obtain ⟨r, hr, hid, -⟩ := hs.pending_iff.1 hget
    exact ⟨_, r, hr, hid⟩
  · have hfresh (i : ℕ) (r : Receiver) (h : s.Pending i r) : r.transactionId ≠ transactionId := by
      rintro rfl
      cases hnone.symm.trans h.2
    refine .inr ⟨transactionId, hfresh, ⟨?_, ?_⟩, ?_⟩
    · simp [hreceivers]
    · simp [hpending]
    · intro i r hi
      constructor
      · rintro ⟨hr, hentry⟩
        rw [hpending] at hentry
        rcases HashMap.get?_of_get?_insert hentry with ⟨-, hnew⟩ | ⟨-, hentry⟩
        · exact absurd (congrArg PendingTransaction.reply hnew) hi
        · obtain ⟨r', hr', hid, haddr⟩ := hs.pending_iff.1 hentry
          have hlt := (List.getElem?_eq_some_iff.1 hr'.1).1
          rw [hreceivers, List.getElem?_append_left hlt] at hr
          exact ⟨hr, hentry⟩
      · intro h
        have hlt := (List.getElem?_eq_some_iff.1 h.1).1
        refine ⟨?_, ?_⟩
        · rw [hreceivers, List.getElem?_append_left hlt, h.1]
        · rw [hpending, HashMap.get?_insert_of_ne (hfresh i r h), h.2]

theorem Pending.id_inj (h : s.Pending i r) (h' : s.Pending j r')
    (hid : r.transactionId = r'.transactionId) : i = j := by
  have hentry := h.2
  rw [hid, h'.2] at hentry
  exact (PendingTransaction.mk.inj (Option.some.inj hentry)).2.symm

end Transactions

/-- **Responses reach exactly the query they answer.**  In every run, with any datagrams: queries that
wait have distinct ids, and `begin` and `cancel` change only the query they are about.  A receiver
gets at most one result, which carried the id of its query and came from the address asked.
A datagram completes the one query that it answers and leaves the others alone, or it answers none
and is refused, with nothing changed. -/
theorem dht_responses_matched (nextId : UInt16) (events : List TransactionEvent) :
    let s := events.foldl Transactions.next (.init nextId)
    (∀ i j r r', s.Pending i r → s.Pending j r' → i ≠ j → r.transactionId ≠ r'.transactionId) ∧
    (∀ (i : ℕ) (r : Receiver), s.receivers[i]? = some r → r.results.length ≤ 1 ∧
      ∀ delivery ∈ r.results, delivery.transactionId = r.transactionId ∧
        delivery.source = r.addr) ∧
    (∀ message source,
      (∃ i r delivery, s.Pending i r ∧ Transactions.Answers message source r ∧
        delivery.transactionId = r.transactionId ∧ delivery.source = source ∧
        Transactions.resultOf message = some (delivery.transactionId, delivery.result) ∧
        (s.complete message source).1 = r.held ∧
        (s.complete message source).2.receivers[i]? = some (r.send delivery) ∧
        (∀ j, j ≠ i → (s.complete message source).2.receivers[j]? = s.receivers[j]?) ∧
        ∀ j r', (s.complete message source).2.Pending j r' ↔ s.Pending j r' ∧ j ≠ i) ∨
      ((∀ i r, s.Pending i r → ¬ Transactions.Answers message source r) ∧
        s.complete message source = (false, s))) ∧
    (∀ addr,
      ((∀ id : UInt16, ∃ i r, s.Pending i r ∧ r.transactionId = idBytes id) ∧ s.begin addr = s) ∨
      ∃ transactionId, (∀ i r, s.Pending i r → r.transactionId ≠ transactionId) ∧
        (s.begin addr).Pending s.receivers.length ⟨transactionId, addr, true, []⟩ ∧
        ∀ i r, i ≠ s.receivers.length → ((s.begin addr).Pending i r ↔ s.Pending i r)) ∧
    ∀ transactionId i r, (s.next (.cancel transactionId)).Pending i r ↔
      s.Pending i r ∧ r.transactionId ≠ transactionId := by
  intro s
  have hs : s.Sound := (Transactions.sound_init nextId).foldl events
  refine ⟨?_, hs.results, hs.datagram, hs.begins, ?_⟩
  · intro i j r r' hi hj hne hid
    exact hne (hi.id_inj hj hid)
  · intro transactionId i r
    exact Transactions.pending_cancel_iff transactionId

end Tortillas
