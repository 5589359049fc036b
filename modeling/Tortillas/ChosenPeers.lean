/-
**Which peers are chosen.**

`torrent/choking.rs`: the interested peers are ranked by their rates, and those with the same rate by their ids.
The first of them get the upload slots.  Where there are more of them than slots, the last slot goes to one of
those that come after, the optimistic one.

An id is twenty bytes, filed under a client.  The client is read off the bytes when an id comes in, so that two
peers with different ids differ in the bytes, and it is the bytes alone that the code compares.  Ids that are made by
hand may have the same bytes under two clients; the ranking then leaves them in the order in which they came.

Main definitions:

* `ranking` — the interested peers, best first;
* `PeerStats.Before` — a peer is ranked before another one, or is its equal;
* `regularSlots` — the slots that go to the best.

Main results:

* `selectUnchokedPeers_of_le`, `selectUnchokedPeers_of_lt` — the decision in terms of the ranking;
* `pairwise_ranking`, `ranking_congr` — the ranking is in order, and does not depend on the order of the peers;
* `unchoked_peers_right` — **the right peers are chosen**;
* `choice_depends_on_order` — two ids with the same bytes.
-/

import Tortillas.Choking
import Tortillas.Ranking

set_option relaxedAutoImplicit false
set_option autoImplicit false

namespace Tortillas

/-! ### The ranking -/

/-- The interested peers, in the order in which they are chosen. -/
def ranking (peers : List PeerStats) (state : TorrentState) : List PeerStats :=
  (peers.filter (·.interested)).mergeSort (comesFirst state)

/-- The left peer is not ranked behind the right one: by its rate, and then by the bytes of its id. -/
def PeerStats.Before (state : TorrentState) (left right : PeerStats) : Prop :=
  rateFor right state < rateFor left state ∨
    rateFor left state = rateFor right state ∧ left.id.id.toList ≤ right.id.id.toList

/-- Ids with the same bytes are the same, as those are that have come in. -/
def ReadOffBytes (peers : List PeerStats) : Prop :=
  ∀ a ∈ peers, ∀ b ∈ peers, a.id.id = b.id.id → a.id = b.id

instance (peers : List PeerStats) : Decidable (ReadOffBytes peers) :=
  inferInstanceAs (Decidable (∀ a ∈ peers, ∀ b ∈ peers, a.id.id = b.id.id → a.id = b.id))

/-- The slots that go to the best of `n` interested peers. -/
def regularSlots (uploadSlots n : ℕ) : ℕ := if uploadSlots < n then uploadSlots - 1 else uploadSlots

variable {peers : List PeerStats} {state : TorrentState}

theorem rate_trichotomy (a b : UInt64) : a < b ∨ a = b ∨ b < a := by
  by_cases heq : a = b
  · exact .inr (.inl heq)
  · rcases UInt64.lt_or_lt_of_ne heq with hlt | hlt
    · exact .inl hlt
    · exact .inr (.inr hlt)

theorem comesFirst_iff {left right : PeerStats} :
    comesFirst state left right = true ↔ PeerStats.Before state left right := by
  unfold comesFirst PeerStats.Before
  rcases rate_trichotomy (rateFor left state) (rateFor right state) with hlt | heq | hlt
  · have hne : rateFor left state ≠ rateFor right state := UInt64.ne_of_lt hlt
    have hnot : ¬ rateFor right state < rateFor left state := UInt64.lt_asymm hlt
    simp [hlt, hne, hnot]
  · simp [heq]
  · simp [hlt]

theorem ranks_comesFirst (state : TorrentState) : Ranks (comesFirst state) where
  trans a b c := by
    simp only [comesFirst_iff, PeerStats.Before]
    rintro (hab | ⟨hab, hid⟩) (hbc | ⟨hbc, hid'⟩)
    · exact .inl (UInt64.lt_trans hbc hab)
    · exact .inl (hbc ▸ hab)
    · exact .inl (hab ▸ hbc)
    · exact .inr ⟨hab.trans hbc, List.le_trans hid hid'⟩
  total a b := by
    simp only [Bool.or_eq_true, comesFirst_iff, PeerStats.Before]
    rcases rate_trichotomy (rateFor a state) (rateFor b state) with hlt | heq | hlt
    · exact .inr (.inl hlt)
    · rcases List.le_total a.id.id.toList b.id.id.toList with hle | hle
      · exact .inl (.inr ⟨heq, hle⟩)
      · exact .inr (.inr ⟨heq.symm, hle⟩)
    · exact .inl (.inl hlt)

theorem ranking_perm : (ranking peers state).Perm (peers.filter (·.interested)) := List.mergeSort_perm _ _

variable (peers state) in
theorem length_ranking : (ranking peers state).length = interestedCount peers := length_candidates peers state

theorem mem_ranking {peer : PeerStats} :
    peer ∈ ranking peers state ↔ peer ∈ peers ∧ peer.interested = true := by
  rw [ranking, List.mem_mergeSort, List.mem_filter]

/-- The ranking is in order. -/
theorem pairwise_ranking (peers : List PeerStats) (state : TorrentState) :
    (ranking peers state).Pairwise (PeerStats.Before state) := by
  have hsorted := (ranks_comesFirst state).pairwise_mergeSort (peers.filter (·.interested))
  exact hsorted.imp fun hfirst => comesFirst_iff.1 hfirst

/-- **The ranking does not depend on the order in which the peers answered.** -/
theorem ranking_congr {peers' : List PeerStats} (hids : (peers.map (·.id)).Nodup) (hbytes : ReadOffBytes peers)
    (h : peers.Perm peers') : ranking peers state = ranking peers' state := by
  refine (ranks_comesFirst state).mergeSort_congr (h.filter _) ?_
  intro a ha b hb hab hba
  -- neither is ranked behind the other, so that their ids have the same bytes
  have hid : a.id.id = b.id.id := by
    rcases comesFirst_iff.1 hab with hlt | ⟨heq, hle⟩
    · rcases comesFirst_iff.1 hba with hlt' | ⟨heq, -⟩
      · exact absurd hlt' (UInt64.lt_asymm hlt)
      · exact absurd heq (UInt64.ne_of_lt hlt)
    · rcases comesFirst_iff.1 hba with hlt | ⟨-, hge⟩
      · exact absurd heq (UInt64.ne_of_lt hlt)
      · exact Vector.toList_inj.1 (List.le_antisymm hle hge)
  have hmem := List.mem_of_mem_filter ha
  have hmem' := List.mem_of_mem_filter hb
  exact List.inj_on_of_nodup_map hids hmem hmem' (hbytes a hmem b hmem' hid)

/-! ### The decision -/

variable {uploadSlots optimisticIndex : ℕ}

/-- The optimistic peer: there is one where there are slots, but not enough of them, and it is one of those that
come after the regular ones. -/
theorem optimistic_eq : (selectUnchokedPeers peers state uploadSlots optimisticIndex).optimistic =
    if 0 < uploadSlots ∧ uploadSlots < interestedCount peers then
      ((ranking peers state)[uploadSlots - 1 +
        optimisticIndex % (interestedCount peers - uploadSlots + 1)]?).map (·.id)
    else none := by
  have hlen := length_ranking peers state
  unfold selectUnchokedPeers
  change (ranking peers state).length = _ at hlen
  dsimp only
  rw [show (peers.filter (·.interested)).mergeSort (comesFirst state) = ranking peers state from rfl, hlen]
  by_cases hzero : uploadSlots = 0
  · rw [if_pos hzero, if_neg (by omega)]
  · rw [if_neg hzero]
    by_cases hmore : uploadSlots < interestedCount peers
    · have hrest : interestedCount peers - (uploadSlots - 1) = interestedCount peers - uploadSlots + 1 := by omega
      rw [if_pos hmore, if_pos ⟨by omega, hmore⟩, List.length_drop, hlen, hrest, List.getElem?_drop]
      split
      · rename_i peer hpeer
        rw [hpeer]
        rfl
      · rename_i hnone
        rw [hnone]
        rfl
    · rw [if_neg hmore, if_neg fun h => hmore h.2]

/-- The chosen: the first of the ranking, and the optimistic one. -/
theorem unchoked_eq : (selectUnchokedPeers peers state uploadSlots optimisticIndex).unchoked =
    ((ranking peers state).take (regularSlots uploadSlots (interestedCount peers))).map (·.id) ++
      (selectUnchokedPeers peers state uploadSlots optimisticIndex).optimistic.toList := by
  have hlen := length_ranking peers state
  unfold selectUnchokedPeers regularSlots
  dsimp only
  rw [show (peers.filter (·.interested)).mergeSort (comesFirst state) = ranking peers state from rfl, hlen]
  by_cases hzero : uploadSlots = 0
  · rw [if_pos hzero, hzero]
    split <;> rfl
  · rw [if_neg hzero]
    by_cases hmore : uploadSlots < interestedCount peers
    · rw [if_pos hmore, if_pos hmore]
      split <;> simp
    · rw [if_neg hmore, if_neg hmore]
      simp

/-- There is an optimistic peer exactly where there are slots, and more interested peers than slots. -/
theorem isSome_optimistic_iff :
    (selectUnchokedPeers peers state uploadSlots optimisticIndex).optimistic.isSome = true ↔
      0 < uploadSlots ∧ uploadSlots < interestedCount peers := by
  rw [optimistic_eq]
  split
  · rename_i h
    have hlt := Nat.mod_lt optimisticIndex (show 0 < interestedCount peers - uploadSlots + 1 by omega)
    have hpos : uploadSlots - 1 + optimisticIndex % (interestedCount peers - uploadSlots + 1) <
        (ranking peers state).length := by
      rw [length_ranking]
      omega
    rw [Option.isSome_map, List.getElem?_eq_getElem hpos]
    exact ⟨fun _ => h, fun _ => rfl⟩
  · rename_i h
    exact ⟨nofun, fun h' => absurd h' h⟩

/-- The optimistic peer comes after the regular ones. -/
theorem exists_of_optimistic {id : PeerId}
    (h : (selectUnchokedPeers peers state uploadSlots optimisticIndex).optimistic = some id) :
    ∃ peer ∈ (ranking peers state).drop (regularSlots uploadSlots (interestedCount peers)), peer.id = id := by
  rw [optimistic_eq] at h
  split at h
  · rename_i hmore
    obtain ⟨peer, hpeer, rfl⟩ := Option.map_eq_some_iff.1 h
    refine ⟨peer, ?_, rfl⟩
    rw [regularSlots, if_pos hmore.2]
    rw [← List.getElem?_drop] at hpeer
    exact List.mem_of_getElem? hpeer
  · cases h

/-- The ids of the ranking are all different. -/
theorem nodup_map_id_ranking (hids : (peers.map (·.id)).Nodup) : ((ranking peers state).map (·.id)).Nodup := by
  rw [(ranking_perm.map _).nodup_iff]
  exact hids.sublist (List.filter_sublist.map _)

/-- The optimistic peer is none of the regular ones. -/
theorem optimistic_not_regular (hids : (peers.map (·.id)).Nodup) {id : PeerId}
    (h : (selectUnchokedPeers peers state uploadSlots optimisticIndex).optimistic = some id) :
    id ∉ ((ranking peers state).take (regularSlots uploadSlots (interestedCount peers))).map (·.id) := by
  obtain ⟨peer, hpeer, rfl⟩ := exists_of_optimistic h
  rintro hmem
  obtain ⟨regular, hregular, heq⟩ := List.mem_map.1 hmem
  have hnodup : ((ranking peers state).map (·.id)).Nodup := nodup_map_id_ranking hids
  rw [List.Nodup, List.pairwise_map] at hnodup
  exact rel_of_mem_take_of_mem_drop hnodup hregular hpeer heq

/-- **The right peers are chosen**, whatever the rates, the state of the torrent, the number of slots and the
turn of the optimistic slot are: as many as there are slots and interested peers, the best of them first, with
one slot for the others when there are more of them; and the order of the peers does not matter, if ids with the
same bytes are the same. -/
theorem unchoked_peers_right (peers : List PeerStats) (state : TorrentState) (uploadSlots optimisticIndex : ℕ)
    (hids : (peers.map (·.id)).Nodup) :
    let decision := selectUnchokedPeers peers state uploadSlots optimisticIndex
    let n := interestedCount peers
    decision.unchoked.length = min uploadSlots n ∧ decision.unchoked.Nodup ∧
      (∀ id ∈ decision.unchoked, ∃ peer ∈ peers, peer.interested = true ∧ peer.id = id) ∧
      (∃ ranked : List PeerStats, ranked.Perm (peers.filter (·.interested)) ∧
        ranked.Pairwise (PeerStats.Before state) ∧
        ∃ regular, regular = ranked.take (if uploadSlots < n then uploadSlots - 1 else uploadSlots) ∧
          decision.unchoked = regular.map (·.id) ++ decision.optimistic.toList ∧
          (∀ id, decision.optimistic = some id → id ∉ regular.map (·.id)) ∧
          ∀ peer ∈ peers, peer.interested = true → peer.id ∉ decision.unchoked →
            ∀ best ∈ regular, rateFor peer state ≤ rateFor best state) ∧
      (decision.optimistic.isSome = true ↔ 0 < uploadSlots ∧ uploadSlots < n) ∧
      (ReadOffBytes peers → ∀ peers' : List PeerStats, peers'.Perm peers →
        selectUnchokedPeers peers' state uploadSlots optimisticIndex = decision) := by
  refine ⟨length_selectUnchokedPeers _ _ _ _, nodup_unchoked hids, ?_, ?_, isSome_optimistic_iff, ?_⟩
  · intro id hid
    rw [unchoked_eq, List.mem_append, Option.mem_toList] at hid
    have hranked : ∃ peer ∈ ranking peers state, peer.id = id := by
      rcases hid with hid | hid
      · obtain ⟨peer, hpeer, heq⟩ := List.mem_map.1 hid
        exact ⟨peer, List.mem_of_mem_take hpeer, heq⟩
      · obtain ⟨peer, hpeer, heq⟩ := exists_of_optimistic hid
        exact ⟨peer, List.mem_of_mem_drop hpeer, heq⟩
    obtain ⟨peer, hpeer, heq⟩ := hranked
    obtain ⟨hmem, hinterested⟩ := mem_ranking.1 hpeer
    exact ⟨peer, hmem, hinterested, heq⟩
  · refine ⟨ranking peers state, ranking_perm, pairwise_ranking peers state, _, rfl, unchoked_eq,
      fun id hid => optimistic_not_regular hids hid, ?_⟩
    intro peer hpeer hinterested hout best hbest
    have hmem : peer ∈ ranking peers state := mem_ranking.2 ⟨hpeer, hinterested⟩
    rw [← List.take_append_drop (regularSlots uploadSlots (interestedCount peers)) (ranking peers state),
      List.mem_append] at hmem
    rcases hmem with hmem | hmem
    · refine absurd ?_ hout
      rw [unchoked_eq]
      exact List.mem_append_left _ (List.mem_map_of_mem hmem)
    · rcases rel_of_mem_take_of_mem_drop (pairwise_ranking peers state) hbest hmem with hlt | ⟨heq, -⟩
      · exact UInt64.le_of_lt hlt
      · rw [heq]
        exact UInt64.le_refl _
  · intro hbytes peers' hperm
    have hsame : ranking peers' state = ranking peers state := (ranking_congr hids hbytes hperm.symm).symm
    have hcount : interestedCount peers' = interestedCount peers := hperm.countP_eq _
    have hoptimistic : (selectUnchokedPeers peers' state uploadSlots optimisticIndex).optimistic =
        (selectUnchokedPeers peers state uploadSlots optimisticIndex).optimistic := by
      rw [optimistic_eq, optimistic_eq, hsame, hcount]
    have hunchoked : (selectUnchokedPeers peers' state uploadSlots optimisticIndex).unchoked =
        (selectUnchokedPeers peers state uploadSlots optimisticIndex).unchoked := by
      rw [unchoked_eq, hoptimistic, hsame, hcount, ← unchoked_eq]
    exact congrArg₂ ChokingDecision.mk hunchoked hoptimistic

namespace Sample

def thirdPeer : PeerId := ⟨.unknown, Vector.replicate 20 2⟩

/-- Three interested peers, two of them with the same rate. -/
def threePeers : List PeerStats :=
  [⟨thirdPeer, true, true, 7, 0⟩, ⟨otherPeer, true, true, 5, 0⟩, ⟨peer, true, true, 5, 0⟩]

/-- Two interested peers whose ids differ in the client alone. -/
def sameBytes : List PeerStats :=
  [⟨peer, true, true, 5, 0⟩, ⟨⟨.tortillas, peer.id⟩, true, true, 5, 0⟩]

end Sample

theorem unchoked_peers_right_sample :
    (Sample.threePeers.map (·.id)).Nodup ∧
      (selectUnchokedPeers Sample.threePeers .downloading 2 1).unchoked.length = 2 ∧
      selectUnchokedPeers Sample.threePeers.reverse .downloading 2 1 =
        selectUnchokedPeers Sample.threePeers .downloading 2 1 := by
  have hids : (Sample.threePeers.map (·.id)).Nodup := by decide
  have hright := unchoked_peers_right Sample.threePeers .downloading 2 1 hids
  exact ⟨hids, hright.1, hright.2.2.2.2.2 (by decide) _ (List.reverse_perm _)⟩

/-- **Two ids with the same bytes are told apart by the order in which they come**: the one that comes first has the
slot. -/
theorem choice_depends_on_order :
    (Sample.sameBytes.map (·.id)).Nodup ∧ Sample.sameBytes.reverse.Perm Sample.sameBytes ∧
      selectUnchokedPeers Sample.sameBytes.reverse .downloading 1 0 ≠
        selectUnchokedPeers Sample.sameBytes .downloading 1 0 := by
  refine ⟨by decide, List.reverse_perm _, fun heq => ?_⟩
  -- both lists are in order, so that they are not sorted anew
  have hfirst : ranking Sample.sameBytes .downloading = Sample.sameBytes :=
    List.mergeSort_of_pairwise (by decide)
  have hlast : ranking Sample.sameBytes.reverse .downloading = Sample.sameBytes.reverse :=
    List.mergeSort_of_pairwise (by decide)
  have hoptimistic := congrArg ChokingDecision.optimistic heq
  rw [optimistic_eq, optimistic_eq, hfirst, hlast] at hoptimistic
  revert hoptimistic
  decide

end Tortillas
