/-
**When announced peers expire.**

`dht/peers.rs`: a peer that was announced is in the store for a time to live.  Records that are older than the cutoff
are removed: those of a swarm when it is asked for, and all of them when a call comes and the last pruning is long
ago.  The cutoff is the present less the time to live.  A clock that has not been running for so long has no such
point in time, and then the code takes the present itself as the cutoff, so that all records are taken for expired
that were not announced at this very moment.

Each call sees one reading of the clock, and the clock does not go back.

Main definitions:

* `PeerStore.record` — when a peer was announced, as far as the store knows;
* `StoreRun`, `peerStoreSystem` — a store with the announcements it has accepted, and a call as a step;
* `StoreCall.Checks` — the records that a call compares with the cutoff;
* `StoreRun.Spares` — no record that was announced earlier is checked with a clock that is too young.

Main results:

* `PeerStore.record_run` — **what a call does to a record**;
* `StoreRun.Sound.kept_iff` — a call keeps what is alive exactly if it spares it;
* `announced_peers_expire` — **peers expire after the time to live, and not before**, in such runs;
* `young_clock_forgets` — a peer is forgotten a second after it was announced.
-/

import Tortillas.DhtState
import Tortillas.Transition
import Mathlib.Data.Finset.Card

set_option relaxedAutoImplicit false
set_option autoImplicit false

namespace Tortillas

/-! ### Records -/

inductive StoreCall
  | announce (infoHash : NodeId) (peer : SocketAddr)
  | get (infoHash : NodeId) (limit : ℕ)
  | prune

/-- All readings of the clock in a call say the same. -/
structure QueryInput.OneTime (input : QueryInput) (now : ℕ) : Prop where
  due : input.dueNow = now
  pruned : input.prunedNow = now
  pruneCutoff : input.pruneCutoff = (now, now)
  getCutoff : input.getCutoff = (now, now)
  announced : input.announcedNow = now

namespace PeerStore

variable {s : PeerStore} {infoHash : NodeId} {peer : SocketAddr} {input : QueryInput} {now limit : ℕ}

/-- When the peer was announced for the hash, if it is in the store. -/
def record (s : PeerStore) (infoHash : NodeId) (peer : SocketAddr) : Option ℕ :=
  (s.peers.get? infoHash).bind (·.get? peer)

/-- The cutoff, for a clock that is read once. -/
def cutoffAt (s : PeerStore) (now : ℕ) : ℕ := if s.ttl ≤ now then now - s.ttl else now

/-- What is left of a record that is compared with the cutoff. -/
def checked (s : PeerStore) (now : ℕ) (announcedAt : Option ℕ) : Option ℕ :=
  announcedAt.filter fun t => decide (s.cutoffAt now ≤ t)

/-- Pruning is due. -/
def Due (s : PeerStore) (input : QueryInput) : Prop := s.pruneInterval ≤ input.dueNow - s.lastPruned

instance : Decidable (s.Due input) := inferInstanceAs (Decidable (_ ≤ _))

theorem checked_eq_some_iff {announcedAt : Option ℕ} {t : ℕ} :
    s.checked now announcedAt = some t ↔ announcedAt = some t ∧ s.cutoffAt now ≤ t := by
  simp [checked]

/-- A record that was made before the present is left exactly if it is alive, and it was made at the present if the
clock is too young. -/
theorem cutoffAt_le_iff {t : ℕ} (ht : t ≤ now) :
    s.cutoffAt now ≤ t ↔ now ≤ t + s.ttl ∧ (s.ttl ≤ now ∨ now ≤ t) := by
  unfold cutoffAt
  split <;> omega

theorem checked_checked (announcedAt : Option ℕ) :
    s.checked now (s.checked now announcedAt) = s.checked now announcedAt := by
  simp [checked]

theorem get?_unexpired (cutoff : ℕ) (peers : HashMap SocketAddr ℕ) :
    (unexpired cutoff peers).get? peer = (peers.get? peer).filter fun t => decide (cutoff ≤ t) := by
  rw [unexpired, HashMap.get?_retain]
  cases peers.get? peer with
  | none => rfl
  | some t => simp [Option.filter_some]

/-- Pruning compares every record with the cutoff. -/
theorem record_prune : (s.prune input).record infoHash peer =
    (s.record infoHash peer).filter fun t => decide (s.expirationCutoff input.pruneCutoff ≤ t) := by
  simp only [record, prune, HashMap.get?_retain]
  cases s.peers.get? infoHash with
  | none => rfl
  | some peers =>
      simp only [Option.bind_some]
      rw [← get?_unexpired]
      split
      · rename_i hempty
        rw [HashMap.get?_eq_none_of_toList (List.isEmpty_iff.1 hempty)]
        rfl
      · rfl

/-- Only the records and the time of the last pruning change. -/
theorem ttl_pruneIfDue : (s.pruneIfDue input).ttl = s.ttl := by
  unfold pruneIfDue
  split <;> rfl

variable (s input) in
theorem expirationCutoff_pruneIfDue (clock : ℕ × ℕ) :
    (s.pruneIfDue input).expirationCutoff clock = s.expirationCutoff clock := by
  rw [expirationCutoff, ttl_pruneIfDue]
  rfl

theorem record_pruneIfDue (h : input.OneTime now) :
    (s.pruneIfDue input).record infoHash peer =
      if s.Due input then s.checked now (s.record infoHash peer) else s.record infoHash peer := by
  by_cases hdue : s.Due input
  · have heq : s.pruneIfDue input = s.prune input := if_pos hdue
    rw [if_pos hdue, heq, record_prune, h.pruneCutoff]
    rfl
  · have heq : s.pruneIfDue input = s := if_neg hdue
    rw [if_neg hdue, heq]

/-- The endpoint may be announced. -/
def Valid (peer : SocketAddr) : Prop := ¬ (peer.port = 0 ∨ peer.ip.isUnspecified = true)

instance : Decidable (Valid peer) := inferInstanceAs (Decidable (¬ _))

theorem announce_eq_true_iff : (s.announce infoHash peer input).2 = true ↔ Valid peer := by
  unfold announce Valid
  split
  · rename_i hinvalid
    exact iff_of_false Bool.false_ne_true fun hvalid => absurd hinvalid hvalid
  · rename_i hvalid
    exact iff_of_true rfl hvalid

theorem ttl_announce : (s.announce infoHash peer input).1.ttl = s.ttl := by
  unfold announce
  split
  · rfl
  · exact ttl_pruneIfDue

variable {infoHash' : NodeId} {peer' : SocketAddr}

/-- An announcement writes its record, after the others were pruned. -/
theorem record_announce_eq (hvalid : Valid peer') :
    (s.announce infoHash' peer' input).1.record infoHash peer =
      if infoHash = infoHash' ∧ peer = peer' then some input.announcedNow
      else (s.pruneIfDue input).record infoHash peer := by
  unfold announce
  rw [if_neg hvalid]
  simp only [record, HashMap.get?_insert]
  by_cases hhash : infoHash = infoHash'
  · rw [if_pos hhash, Option.bind_some, HashMap.get?_insert]
    by_cases hpeer : peer = peer'
    · rw [if_pos hpeer, if_pos ⟨hhash, hpeer⟩]
    · rw [if_neg hpeer, if_neg fun hboth => hpeer hboth.2, hhash]
      cases (s.pruneIfDue input).peers.get? infoHash' <;> rfl
  · rw [if_neg hhash, if_neg fun hboth => hhash hboth.1]

theorem record_announce (h : input.OneTime now) (hvalid : Valid peer') :
    (s.announce infoHash' peer' input).1.record infoHash peer =
      if infoHash = infoHash' ∧ peer = peer' then some now
      else if s.Due input then s.checked now (s.record infoHash peer) else s.record infoHash peer := by
  rw [← record_pruneIfDue h, record_announce_eq hvalid, h.announced]

theorem announce_of_not_valid (hvalid : ¬ Valid peer) : s.announce infoHash peer input = (s, false) := by
  unfold announce
  rw [if_pos (not_not.1 hvalid)]

/-- The store after a swarm was asked for: its records were checked, and the others were if pruning was due. -/
theorem record_get (h : input.OneTime now) :
    (s.get infoHash' limit input).1.record infoHash peer =
      if s.Due input ∨ infoHash = infoHash' then s.checked now (s.record infoHash peer)
      else s.record infoHash peer := by
  have hprune : (s.pruneIfDue input).record infoHash peer =
      if s.Due input then s.checked now (s.record infoHash peer) else s.record infoHash peer :=
    record_pruneIfDue h
  have hcutoff : (s.pruneIfDue input).expirationCutoff input.getCutoff = s.cutoffAt now := by
    rw [expirationCutoff_pruneIfDue, h.getCutoff]
    rfl
  have hrecord : (s.get infoHash' limit input).1.record infoHash peer =
      if infoHash = infoHash' then s.checked now ((s.pruneIfDue input).record infoHash peer)
      else (s.pruneIfDue input).record infoHash peer := by
    unfold PeerStore.get
    dsimp only
    rw [hcutoff]
    cases hswarm : (s.pruneIfDue input).peers.get? infoHash' with
    | none =>
        dsimp only
        split
        · rename_i hhash
          rw [record, hhash, hswarm]
          rfl
        · rfl
    | some peers =>
        dsimp only
        by_cases hhash : infoHash = infoHash'
        · subst hhash
          rw [if_pos rfl, record, record, hswarm, Option.bind_some, checked, ← get?_unexpired]
          split
          · rename_i hempty
            rw [HashMap.get?_erase_self, HashMap.get?_eq_none_of_toList (List.isEmpty_iff.1 hempty)]
            rfl
          · rw [HashMap.get?_insert_self]
            rfl
        · rw [if_neg hhash, record, record]
          split
          · rw [HashMap.get?_erase_of_ne hhash]
          · rw [HashMap.get?_insert_of_ne hhash]
  rw [hrecord, hprune]
  by_cases hdue : s.Due input
  · rw [if_pos hdue, checked_checked, ite_self]
    simp only [hdue, true_or, if_true]
  · rw [if_neg hdue]
    simp only [hdue, false_or]

variable (infoHash limit) in
/-- The answer is the first of the records that are left. -/
theorem get_spec (h : input.OneTime now) : ∃ left : List SocketAddr,
    left.Nodup ∧ (∀ peer, peer ∈ left ↔ ∃ t, s.checked now (s.record infoHash peer) = some t) ∧
      (s.get infoHash limit input).2 = left.take limit := by
  have hrecord (peer : SocketAddr) : (s.pruneIfDue input).record infoHash peer =
      if s.Due input then s.checked now (s.record infoHash peer) else s.record infoHash peer :=
    record_pruneIfDue h
  have hcutoff : (s.pruneIfDue input).expirationCutoff input.getCutoff = s.cutoffAt now := by
    rw [expirationCutoff_pruneIfDue, h.getCutoff]
    rfl
  have hchecked (peer : SocketAddr) : s.checked now ((s.pruneIfDue input).record infoHash peer) =
      s.checked now (s.record infoHash peer) := by
    rw [hrecord]
    split
    · exact checked_checked _
    · rfl
  unfold PeerStore.get
  dsimp only
  rw [hcutoff]
  cases hswarm : (s.pruneIfDue input).peers.get? infoHash with
  | none =>
      refine ⟨[], List.nodup_nil, fun peer => ⟨nofun, ?_⟩, (List.take_nil).symm⟩
      rintro ⟨t, ht⟩
      rw [← hchecked, record, hswarm] at ht
      cases ht
  | some peers =>
      refine ⟨(unexpired (s.cutoffAt now) peers).toList.map Prod.fst, HashMap.nodup_toList_keys _, fun peer => ?_, ?_⟩
      · have hleft : s.checked now (s.record infoHash peer) = (unexpired (s.cutoffAt now) peers).get? peer := by
          rw [← hchecked, record, hswarm, Option.bind_some, get?_unexpired]
          rfl
        rw [hleft, List.mem_map]
        constructor
        · rintro ⟨⟨found, t⟩, hmem, rfl⟩
          exact ⟨t, HashMap.mem_toList_iff.1 hmem⟩
        · rintro ⟨t, ht⟩
          exact ⟨(peer, t), HashMap.mem_toList_iff.2 ht, rfl⟩
      · dsimp only
        split <;> rfl

theorem ttl_get : (s.get infoHash limit input).1.ttl = s.ttl := by
  unfold PeerStore.get
  dsimp only
  split
  · exact ttl_pruneIfDue
  · split <;> exact ttl_pruneIfDue

/-! ### A call -/

/-- The store after a call. -/
def call (s : PeerStore) (c : StoreCall) (input : QueryInput) : PeerStore :=
  match c with
  | .announce infoHash peer => (s.announce infoHash peer input).1
  | .get infoHash limit => (s.get infoHash limit input).1
  | .prune => s.prune input

/-- The call writes the record of the peer. -/
def Writes (c : StoreCall) (infoHash : NodeId) (peer : SocketAddr) : Prop :=
  c = .announce infoHash peer ∧ Valid peer

/-- The call compares the record with the cutoff. -/
def Checks (s : PeerStore) (input : QueryInput) (infoHash : NodeId) : StoreCall → Prop
  | .announce _ peer' => Valid peer' ∧ s.Due input
  | .get infoHash' _ => s.Due input ∨ infoHash = infoHash'
  | .prune => True

/-- **What a call does to a record**: it is written, or compared with the cutoff, or left alone. -/
theorem record_call (h : input.OneTime now) (c : StoreCall) (infoHash : NodeId) (peer : SocketAddr) :
    (Writes c infoHash peer ∧ (s.call c input).record infoHash peer = some now) ∨
    (¬ Writes c infoHash peer ∧ s.Checks input infoHash c ∧
      (s.call c input).record infoHash peer = s.checked now (s.record infoHash peer)) ∨
    (¬ Writes c infoHash peer ∧ ¬ s.Checks input infoHash c ∧
      (s.call c input).record infoHash peer = s.record infoHash peer) := by
  cases c with
  | announce infoHash' peer' =>
      by_cases hvalid : Valid peer'
      · have hrecord : (s.announce infoHash' peer' input).1.record infoHash peer = _ := record_announce h hvalid
        by_cases hsame : infoHash = infoHash' ∧ peer = peer'
        · rw [if_pos hsame] at hrecord
          obtain ⟨rfl, rfl⟩ := hsame
          exact .inl ⟨⟨rfl, hvalid⟩, hrecord⟩
        · rw [if_neg hsame] at hrecord
          have hnot : ¬ Writes (.announce infoHash' peer') infoHash peer := by
            rintro ⟨heq, -⟩
            cases heq
            exact hsame ⟨rfl, rfl⟩
          by_cases hdue : s.Due input
          · rw [if_pos hdue] at hrecord
            exact .inr (.inl ⟨hnot, ⟨hvalid, hdue⟩, hrecord⟩)
          · rw [if_neg hdue] at hrecord
            exact .inr (.inr ⟨hnot, fun hboth => hdue hboth.2, hrecord⟩)
      · refine .inr (.inr ⟨?_, fun hboth => hvalid hboth.1, ?_⟩)
        · rintro ⟨heq, hvalid'⟩
          cases heq
          exact hvalid hvalid'
        · rw [call, announce_of_not_valid hvalid]
  | get infoHash' limit =>
      have hrecord : (s.get infoHash' limit input).1.record infoHash peer = _ := record_get h
      have hnot : ¬ Writes (.get infoHash' limit) infoHash peer := fun hwrites => nomatch hwrites.1
      by_cases hchecks : s.Due input ∨ infoHash = infoHash'
      · rw [if_pos hchecks] at hrecord
        exact .inr (.inl ⟨hnot, hchecks, hrecord⟩)
      · rw [if_neg hchecks] at hrecord
        exact .inr (.inr ⟨hnot, hchecks, hrecord⟩)
  | prune =>
      refine .inr (.inl ⟨fun hwrites => (nomatch hwrites.1), trivial, ?_⟩)
      rw [call, record_prune, h.pruneCutoff]
      rfl

theorem record_of_writes (h : input.OneTime now) {c : StoreCall} (hwrites : Writes c infoHash peer) :
    (s.call c input).record infoHash peer = some now := by
  rcases record_call h c infoHash peer with ⟨-, heq⟩ | ⟨hnot, -⟩ | ⟨hnot, -⟩
  · exact heq
  · exact absurd hwrites hnot
  · exact absurd hwrites hnot

theorem record_of_checks (h : input.OneTime now) {c : StoreCall} (hnot : ¬ Writes c infoHash peer)
    (hchecks : s.Checks input infoHash c) :
    (s.call c input).record infoHash peer = s.checked now (s.record infoHash peer) := by
  rcases record_call h c infoHash peer with ⟨hwrites, -⟩ | ⟨-, -, heq⟩ | ⟨-, hnochecks, -⟩
  · exact absurd hwrites hnot
  · exact heq
  · exact absurd hchecks hnochecks

theorem record_of_not_checks (h : input.OneTime now) {c : StoreCall} (hnot : ¬ Writes c infoHash peer)
    (hnochecks : ¬ s.Checks input infoHash c) :
    (s.call c input).record infoHash peer = s.record infoHash peer := by
  rcases record_call h c infoHash peer with ⟨hwrites, -⟩ | ⟨-, hchecks, -⟩ | ⟨-, -, heq⟩
  · exact absurd hwrites hnot
  · exact absurd hchecks hnochecks
  · exact heq

theorem ttl_call (c : StoreCall) : (s.call c input).ttl = s.ttl := by
  cases c with
  | announce infoHash peer => exact ttl_announce
  | get infoHash limit => exact ttl_get
  | prune => rfl

end PeerStore

/-! ### Runs -/

/-- An announcement that was accepted. -/
structure Announcement where
  infoHash : NodeId
  peer : SocketAddr
  announcedAt : ℕ

/-- A store, with the last reading of the clock and the announcements that were accepted. -/
structure StoreRun where
  store : PeerStore
  now : ℕ
  log : List Announcement

namespace StoreRun

variable {ttl : ℕ} {s : StoreRun} {input : QueryInput} {c : StoreCall} {infoHash : NodeId} {peer : SocketAddr}

/-- When the peer was announced last. -/
def lastAnnounced (s : StoreRun) (infoHash : NodeId) (peer : SocketAddr) : Option ℕ :=
  (s.log.reverse.find? fun a => a.infoHash = infoHash ∧ a.peer = peer).map (·.announcedAt)

/-- The clock says one thing in a call, and does not go back. -/
structure Admits (s : StoreRun) (input : QueryInput) : Prop where
  one : input.OneTime input.announcedNow
  later : s.now ≤ input.announcedNow

def apply (s : StoreRun) (c : StoreCall) (input : QueryInput) : StoreRun where
  store := s.store.call c input
  now := input.announcedNow
  log :=
    match c with
    | .announce infoHash peer =>
        if (s.store.announce infoHash peer input).2 then s.log ++ [⟨infoHash, peer, input.announcedNow⟩] else s.log
    | _ => s.log

/-- The clock has been running for the time to live, or no record that was announced earlier is compared with the
cutoff, save the one that is announced anew. -/
def Spares (s : StoreRun) (i : StoreCall × QueryInput) : Prop :=
  s.store.ttl ≤ i.2.announcedNow ∨ ∀ infoHash peer t, s.store.record infoHash peer = some t →
    s.store.Checks i.2 infoHash i.1 → ¬ PeerStore.Writes i.1 infoHash peer → i.2.announcedNow ≤ t

end StoreRun

/-- The store of a node, from its beginning. -/
def peerStoreSystem (ttl : ℕ) : System StoreRun (StoreCall × QueryInput) where
  init s := ∃ now, s = ⟨⟨∅, ttl, ttl / 4, now⟩, now, []⟩
  step s i t := s.Admits i.2 ∧ t = s.apply i.1 i.2

namespace StoreRun

variable {ttl : ℕ} {s : StoreRun} {input : QueryInput} {c : StoreCall} {infoHash : NodeId} {peer : SocketAddr}

/-- The last announcement of a peer after a call. -/
theorem lastAnnounced_apply (input : QueryInput) (c : StoreCall) (infoHash : NodeId) (peer : SocketAddr) :
    (PeerStore.Writes c infoHash peer ∧
      (s.apply c input).lastAnnounced infoHash peer = some input.announcedNow) ∨
    (¬ PeerStore.Writes c infoHash peer ∧
      (s.apply c input).lastAnnounced infoHash peer = s.lastAnnounced infoHash peer) := by
  cases c with
  | get infoHash' limit => exact .inr ⟨fun hwrites => (nomatch hwrites.1), rfl⟩
  | prune => exact .inr ⟨fun hwrites => (nomatch hwrites.1), rfl⟩
  | announce infoHash' peer' =>
      by_cases hvalid : PeerStore.Valid peer'
      · have haccepted : (s.store.announce infoHash' peer' input).2 = true :=
          PeerStore.announce_eq_true_iff.2 hvalid
        simp only [lastAnnounced, apply, if_pos haccepted, List.reverse_append, List.reverse_singleton,
          List.singleton_append, List.find?_cons]
        by_cases hsame : infoHash' = infoHash ∧ peer' = peer
        · obtain ⟨rfl, rfl⟩ := hsame
          refine .inl ⟨⟨rfl, hvalid⟩, ?_⟩
          simp
        · refine .inr ⟨?_, ?_⟩
          · rintro ⟨heq, -⟩
            cases heq
            exact hsame ⟨rfl, rfl⟩
          · rw [decide_eq_false hsame]
      · refine .inr ⟨?_, ?_⟩
        · rintro ⟨heq, hvalid'⟩
          cases heq
          exact hvalid hvalid'
        · have hrefused : ¬ (s.store.announce infoHash' peer' input).2 = true :=
            mt PeerStore.announce_eq_true_iff.1 hvalid
          simp only [lastAnnounced, apply, if_neg hrefused]

theorem lastAnnounced_of_writes (hwrites : PeerStore.Writes c infoHash peer) :
    (s.apply c input).lastAnnounced infoHash peer = some input.announcedNow := by
  rcases s.lastAnnounced_apply input c infoHash peer with ⟨-, heq⟩ | ⟨hnot, -⟩
  · exact heq
  · exact absurd hwrites hnot

theorem lastAnnounced_of_not_writes (hnot : ¬ PeerStore.Writes c infoHash peer) :
    (s.apply c input).lastAnnounced infoHash peer = s.lastAnnounced infoHash peer := by
  rcases s.lastAnnounced_apply input c infoHash peer with ⟨hwrites, -⟩ | ⟨-, heq⟩
  · exact absurd hwrites hnot
  · exact heq

/-- What holds after every call that spares what is alive. -/
structure Sound (ttl : ℕ) (s : StoreRun) : Prop where
  same : s.store.ttl = ttl
  latest : ∀ infoHash peer t, s.store.record infoHash peer = some t →
    s.lastAnnounced infoHash peer = some t ∧ t ≤ s.now
  kept : ∀ infoHash peer t, s.lastAnnounced infoHash peer = some t → s.now ≤ t + ttl →
    s.store.record infoHash peer = some t

/-- A record is the last announcement of its peer after every call. -/
theorem Sound.latest_apply (hs : s.Sound ttl) (h : s.Admits input) (c : StoreCall) {t : ℕ}
    (hrecord : (s.apply c input).store.record infoHash peer = some t) :
    (s.apply c input).lastAnnounced infoHash peer = some t ∧ t ≤ (s.apply c input).now := by
  have hlater := h.later
  change (s.store.call c input).record infoHash peer = some t at hrecord
  change _ ∧ t ≤ input.announcedNow
  have hold {t : ℕ} (hrecord : s.store.record infoHash peer = some t)
      (hnot : ¬ PeerStore.Writes c infoHash peer) :
      (s.apply c input).lastAnnounced infoHash peer = some t ∧ t ≤ input.announcedNow := by
    obtain ⟨hlast, hle⟩ := hs.latest infoHash peer t hrecord
    exact ⟨(lastAnnounced_of_not_writes hnot).trans hlast, hle.trans hlater⟩
  rcases PeerStore.record_call h.one c infoHash peer with ⟨hwrites, heq⟩ | ⟨hnot, -, heq⟩ | ⟨hnot, -, heq⟩
  · rw [heq, Option.some.injEq] at hrecord
    subst hrecord
    exact ⟨lastAnnounced_of_writes hwrites, Nat.le_refl _⟩
  · rw [heq, PeerStore.checked_eq_some_iff] at hrecord
    exact hold hrecord.1 hnot
  · rw [heq] at hrecord
    exact hold hrecord hnot

/-- **A call keeps what is alive exactly if it spares it.** -/
theorem Sound.kept_iff (hs : s.Sound ttl) (h : s.Admits input) (c : StoreCall) :
    (∀ infoHash peer t, (s.apply c input).lastAnnounced infoHash peer = some t →
      input.announcedNow ≤ t + ttl → (s.apply c input).store.record infoHash peer = some t) ↔
    s.Spares (c, input) := by
  have hlater := h.later
  have httl := hs.same
  constructor
  · intro hkept
    rcases Nat.lt_or_ge input.announcedNow s.store.ttl with hyoung | hold
    · refine .inr fun infoHash peer t hrecord hchecks hnot => ?_
      obtain ⟨hlast, -⟩ := hs.latest infoHash peer t hrecord
      have hlast' : (s.apply c input).lastAnnounced infoHash peer = some t :=
        (lastAnnounced_of_not_writes hnot).trans hlast
      -- the clock is younger than the time to live, so that the record is alive
      have hafter := hkept infoHash peer t hlast' (by omega)
      change (s.store.call c input).record infoHash peer = some t at hafter
      rw [PeerStore.record_of_checks h.one hnot hchecks, PeerStore.checked_eq_some_iff, PeerStore.cutoffAt,
        if_neg (Nat.not_le.2 hyoung)] at hafter
      exact hafter.2
    · exact .inl hold
  · intro hspares infoHash peer t hlast halive
    change (s.store.call c input).record infoHash peer = some t
    by_cases hwrites : PeerStore.Writes c infoHash peer
    · rw [lastAnnounced_of_writes hwrites, Option.some.injEq] at hlast
      rw [PeerStore.record_of_writes h.one hwrites, hlast]
    · rw [lastAnnounced_of_not_writes hwrites] at hlast
      have hrecord := hs.kept infoHash peer t hlast (by omega)
      obtain ⟨-, hle⟩ := hs.latest infoHash peer t hrecord
      by_cases hchecks : s.store.Checks input infoHash c
      · rw [PeerStore.record_of_checks h.one hwrites hchecks, PeerStore.checked_eq_some_iff,
          PeerStore.cutoffAt_le_iff (hle.trans hlater), httl]
        refine ⟨hrecord, halive, ?_⟩
        rcases hspares with hold | hfresh
        · exact .inl (httl ▸ hold)
        · exact .inr (hfresh infoHash peer t hrecord hchecks hwrites)
      · rw [PeerStore.record_of_not_checks h.one hwrites hchecks, hrecord]

theorem Sound.apply (hs : s.Sound ttl) (h : s.Admits input) (hspares : s.Spares (c, input)) :
    (s.apply c input).Sound ttl where
  same := (PeerStore.ttl_call c).trans hs.same
  latest _ _ _ hrecord := hs.latest_apply h c hrecord
  kept := (hs.kept_iff h c).2 hspares

theorem sound_of_reach (h : (peerStoreSystem ttl).Reach Spares s) : s.Sound ttl := by
  refine h.invariant ?_ ?_
  · rintro s ⟨now, rfl⟩
    exact ⟨rfl, fun infoHash peer t hrecord => (nomatch hrecord), fun infoHash peer t hlast => (nomatch hlast)⟩
  · rintro s ⟨c, input⟩ t hs hspares ⟨hadmits, rfl⟩
    exact hs.apply hadmits hspares

/-- **What `get` answers**: of the peers that are alive, as many as asked for. -/
theorem Sound.get_spec (hs : s.Sound ttl) (h : s.Admits input) {limit : ℕ}
    (hspares : s.Spares (.get infoHash limit, input)) :
    ∃ alive : Finset SocketAddr,
      (∀ peer, peer ∈ alive ↔ ∃ t, s.lastAnnounced infoHash peer = some t ∧ input.announcedNow ≤ t + ttl) ∧
      (s.store.get infoHash limit input).2.length = min limit alive.card ∧
      (s.store.get infoHash limit input).2.Nodup ∧
      ∀ peer ∈ (s.store.get infoHash limit input).2, peer ∈ alive := by
  obtain ⟨left, hnodup, hleft, hanswer⟩ := s.store.get_spec infoHash limit h.one
  have hlater := h.later
  have halive (peer : SocketAddr) : peer ∈ left ↔
      ∃ t, s.lastAnnounced infoHash peer = some t ∧ input.announcedNow ≤ t + ttl := by
    rw [hleft]
    constructor
    · rintro ⟨t, ht⟩
      rw [PeerStore.checked_eq_some_iff] at ht
      obtain ⟨hlast, hle⟩ := hs.latest infoHash peer t ht.1
      rw [PeerStore.cutoffAt_le_iff (hle.trans hlater), hs.same] at ht
      exact ⟨t, hlast, ht.2.1⟩
    · rintro ⟨t, hlast, hlive⟩
      have hrecord := hs.kept infoHash peer t hlast (by omega)
      obtain ⟨-, hle⟩ := hs.latest infoHash peer t hrecord
      refine ⟨t, PeerStore.checked_eq_some_iff.2 ⟨hrecord, ?_⟩⟩
      rw [PeerStore.cutoffAt_le_iff (hle.trans hlater), hs.same]
      refine ⟨hlive, hspares.imp (fun hold => hs.same ▸ hold) fun hfresh => ?_⟩
      exact hfresh infoHash peer t hrecord (.inr rfl) fun hwrites => nomatch hwrites.1
  refine ⟨left.toFinset, fun peer => List.mem_toFinset.trans (halive peer), ?_, ?_, fun peer hpeer => ?_⟩
  · rw [hanswer, List.length_take, List.toFinset_card_of_nodup hnodup]
  · rw [hanswer]
    exact hnodup.sublist (List.take_sublist _ _)
  · rw [hanswer] at hpeer
    exact List.mem_toFinset.2 (List.mem_of_mem_take hpeer)

end StoreRun

/-- **Announced peers expire after the time to live, and not before**, in every run in which no call compares a record
of an earlier time with the cutoff of a clock that is younger than the time to live; and each such call loses a peer
that is alive. -/
theorem announced_peers_expire {ttl : ℕ} {s : StoreRun} (h : (peerStoreSystem ttl).Reach StoreRun.Spares s) :
    (∀ infoHash peer t, s.lastAnnounced infoHash peer = some t → s.now ≤ t + ttl →
      s.store.record infoHash peer = some t) ∧
    (∀ input, s.Admits input → ∀ c, s.Spares (c, input) ↔ ∀ infoHash peer t,
      (s.apply c input).lastAnnounced infoHash peer = some t → input.announcedNow ≤ t + ttl →
        (s.apply c input).store.record infoHash peer = some t) ∧
    ∀ input, s.Admits input → ∀ infoHash limit, s.Spares (.get infoHash limit, input) →
      ∃ alive : Finset SocketAddr,
        (∀ peer, peer ∈ alive ↔ ∃ t, s.lastAnnounced infoHash peer = some t ∧ input.announcedNow ≤ t + ttl) ∧
        (s.store.get infoHash limit input).2.length = min limit alive.card ∧
        (s.store.get infoHash limit input).2.Nodup ∧
        ∀ peer ∈ (s.store.get infoHash limit input).2, peer ∈ alive := by
  have hs := StoreRun.sound_of_reach h
  exact ⟨hs.kept, fun input hadmits c => (hs.kept_iff hadmits c).symm,
    fun input hadmits infoHash limit hspares => hs.get_spec hadmits hspares⟩

namespace Sample

/-- A call at one time. -/
def storeCallAt (now : ℕ) : QueryInput :=
  ⟨now, .replicate 20 3, .replicate 20 4, now, now, now, (now, now), (now, now), now⟩

theorem oneTime_storeCallAt (now : ℕ) : (storeCallAt now).OneTime (storeCallAt now).announcedNow :=
  ⟨rfl, rfl, rfl, rfl, rfl⟩

/-- A store with a time to live of one minute, on a clock that has been running for so many seconds. -/
def emptyStore (seconds : ℕ) : StoreRun :=
  ⟨⟨∅, 60000000000, 15000000000, seconds * 1000000000⟩, seconds * 1000000000, []⟩

/-- A peer is announced a second later. -/
def onePeer (seconds : ℕ) : StoreRun :=
  (emptyStore seconds).apply (.announce (.replicate 20 7) nodeAddr) (storeCallAt ((seconds + 1) * 1000000000))

theorem reach_onePeer (seconds : ℕ) : (peerStoreSystem 60000000000).Reach StoreRun.Spares (onePeer seconds) := by
  refine System.Reach.step (i := (.announce (.replicate 20 7) nodeAddr, storeCallAt ((seconds + 1) * 1000000000)))
    (.init ⟨seconds * 1000000000, rfl⟩) ?_ ⟨⟨oneTime_storeCallAt _, ?_⟩, rfl⟩
  · exact .inr fun infoHash peer t hrecord => nomatch hrecord
  · change seconds * 1000000000 ≤ (seconds + 1) * 1000000000
    omega

end Sample

/-- On a clock that has been running for an hour, the peer is found another second later. -/
theorem announced_peers_expire_sample :
    ((Sample.onePeer 3600).store.get (.replicate 20 7) 10 (Sample.storeCallAt 3602000000000)).2 =
        [Sample.nodeAddr] ∧
      ((Sample.onePeer 3600).store.get (.replicate 20 7) 10 (Sample.storeCallAt 3602000000000)).2.Nodup := by
  obtain ⟨-, -, hget⟩ := announced_peers_expire (Sample.reach_onePeer 3600)
  obtain ⟨-, -, -, hnodup, -⟩ := hget (Sample.storeCallAt 3602000000000)
    ⟨Sample.oneTime_storeCallAt _, by decide +kernel⟩ (.replicate 20 7) 10 (.inl (by decide +kernel))
  exact ⟨by decide +kernel, hnodup⟩

/-- **On a young clock the peer is forgotten**: it was announced a second ago, its time to live is a minute, and it is
not found. -/
theorem young_clock_forgets :
    (peerStoreSystem 60000000000).Reach StoreRun.Spares (Sample.onePeer 0) ∧
      (Sample.onePeer 0).Admits (Sample.storeCallAt 2000000000) ∧
      (Sample.onePeer 0).lastAnnounced (.replicate 20 7) Sample.nodeAddr = some 1000000000 ∧
      2000000000 ≤ 1000000000 + 60000000000 ∧
      ((Sample.onePeer 0).store.get (.replicate 20 7) 10 (Sample.storeCallAt 2000000000)).2 = [] ∧
      ((Sample.onePeer 0).apply (.get (.replicate 20 7) 10) (Sample.storeCallAt 2000000000)).store.record
        (.replicate 20 7) Sample.nodeAddr = none :=
  ⟨Sample.reach_onePeer 0, ⟨Sample.oneTime_storeCallAt _, by decide +kernel⟩, by decide +kernel, by decide,
    by decide +kernel, by decide +kernel⟩

end Tortillas
