/-
**The turns of the optimistic slot.**

`torrent/choking.rs`: where there are more interested peers than upload slots, one slot goes around among those
that are not among the best.  Each of them has it for a configured number of rounds.  The scheduler keeps the
number of the turn and the rounds of the present one; both are left over from earlier lists of peers when a new
list comes, so that the first turn on a list may be shorter than the others.

The number of the turn is a `usize` that starts anew when it overflows.

Main definitions:

* `chokerSystem` — the scheduler, with a call of `decide` as a step;
* `ChokingScheduler.Turning` — what holds of the scheduler after every call;
* `ChokingScheduler.calls` — so many calls of `decide` on the same peers;
* `ChokingScheduler.optimisticAt` — the optimistic peer of one of these calls.

Main results:

* `ChokingScheduler.Turning.calls` — the turn and its rounds after so many calls, in closed form;
* `card_turns` — each place comes up equally often;
* `optimistic_turns_fair` — **each peer that has no regular slot gets the optimistic one equally often**, and each
  new optimistic peer keeps it for the configured number of calls.
-/

import Tortillas.ChosenPeers
import Mathlib.Data.Nat.Periodic

set_option relaxedAutoImplicit false
set_option autoImplicit false

namespace Tortillas

/-! ### Places that come up in turn -/

/-- **Each of `m` places comes up `r` times in a window of `r * m`**, if each turn has `r` rounds. -/
theorem card_turns {r m place : ℕ} (hr : 0 < r) (hplace : place < m) (first : ℕ) :
    ((Finset.range (r * m)).filter fun k => (first + k) / r % m = place).card = r := by
  have hperiodic : Function.Periodic (fun t => t / r % m = place) (r * m) := by
    intro t
    change ((t + r * m) / r % m = place) = (t / r % m = place)
    rw [Nat.add_mul_div_left t m hr, Nat.add_mod_right]
  have hwindow : ((Finset.range (r * m)).filter fun k => (first + k) / r % m = place).card =
      ((Finset.Ico first (first + r * m)).filter fun t => t / r % m = place).card := by
    refine Finset.card_bij (fun k _ => first + k) ?_ ?_ ?_
    · intro k hk
      simp only [Finset.mem_filter, Finset.mem_range, Finset.mem_Ico] at hk ⊢
      exact ⟨⟨by omega, by omega⟩, hk.2⟩
    · intro k _ k' _ heq
      omega
    · intro t ht
      simp only [Finset.mem_filter, Finset.mem_range, Finset.mem_Ico] at ht ⊢
      refine ⟨t - first, ⟨by omega, ?_⟩, by omega⟩
      rw [Nat.add_sub_cancel' ht.1.1]
      exact ht.2
  have hturn : ((Finset.range (r * m)).filter fun t => t / r % m = place) =
      Finset.Ico (place * r) (place * r + r) := by
    ext t
    simp only [Finset.mem_filter, Finset.mem_range, Finset.mem_Ico]
    have hdiv : t / r = place ↔ place * r ≤ t ∧ t < place * r + r := by
      rw [Nat.div_eq_iff hr]
      omega
    constructor
    · rintro ⟨hlt, hmod⟩
      rw [Nat.mod_eq_of_lt (Nat.div_lt_of_lt_mul hlt)] at hmod
      exact hdiv.1 hmod
    · intro ht
      have heq : t / r = place := hdiv.2 ht
      refine ⟨?_, by rw [heq, Nat.mod_eq_of_lt hplace]⟩
      calc t < place * r + r := ht.2
        _ = r * (place + 1) := by rw [Nat.mul_comm place r, Nat.mul_succ]
        _ ≤ r * m := Nat.mul_le_mul_left r hplace
  rw [hwindow, Nat.filter_Ico_card_eq_of_periodic _ _ _ hperiodic, Nat.count_eq_card_filter_range, hturn,
    Nat.card_Ico, Nat.add_sub_cancel_left]

/-! ### The scheduler -/

/-- The scheduler of a torrent: a step is a call of `decide`. -/
def chokerSystem : System ChokingScheduler (List PeerStats × TorrentState) where
  init s := ∃ uploadSlots rounds, s = .new uploadSlots rounds
  step s call t := t = (s.decide call.1 call.2).1

namespace ChokingScheduler

variable {s : ChokingScheduler} {peers : List PeerStats} {state : TorrentState}

/-- The present turn is not over, and the number of the turn is a `usize`. -/
structure Turning (s : ChokingScheduler) : Prop where
  rounds : s.roundsSinceOptimisticRotation < s.optimisticUnchokeRounds
  index : s.optimisticIndex ≤ usizeMax

theorem turning_new (uploadSlots rounds : ℕ) : (new uploadSlots rounds).Turning :=
  ⟨lt_of_lt_of_le Nat.zero_lt_one (Nat.le_max_right _ _), Nat.zero_le _⟩

theorem Turning.rotate (hs : s.Turning) (optimistic : Bool) : (s.rotate optimistic).Turning := by
  have hpos : 0 < s.optimisticUnchokeRounds := Nat.zero_lt_of_lt hs.rounds
  unfold ChokingScheduler.rotate
  split
  · split
    · exact ⟨hpos, Nat.le_of_lt_succ (Nat.mod_lt _ (Nat.succ_pos _))⟩
    · rename_i hmore
      exact ⟨by simpa using hmore, hs.index⟩
  · exact ⟨hpos, Nat.zero_le _⟩

theorem turning_of_reach (hs : chokerSystem.Reach (fun _ _ => True) s) : s.Turning := by
  refine hs.invariant ?_ ?_
  · rintro t ⟨uploadSlots, rounds, rfl⟩
    exact turning_new uploadSlots rounds
  · rintro t call u ht - rfl
    exact ht.rotate _

/-- The number of rounds of a turn stays as it was configured. -/
@[simp] theorem optimisticUnchokeRounds_rotate (s : ChokingScheduler) (optimistic : Bool) :
    (s.rotate optimistic).optimisticUnchokeRounds = s.optimisticUnchokeRounds := by
  unfold rotate
  split
  · split <;> rfl
  · rfl

/-! ### Calls on the same peers -/

/-- The scheduler after so many calls of `decide` on the same peers. -/
def calls (s : ChokingScheduler) (peers : List PeerStats) (state : TorrentState) : ℕ → ChokingScheduler
  | 0 => s
  | k + 1 => ((s.calls peers state k).decide peers state).1

/-- The decision of one of these calls; the first of them has the number zero. -/
def decisionAt (s : ChokingScheduler) (peers : List PeerStats) (state : TorrentState) (k : ℕ) : ChokingDecision :=
  ((s.calls peers state k).decide peers state).2

def optimisticAt (s : ChokingScheduler) (peers : List PeerStats) (state : TorrentState) (k : ℕ) : Option PeerId :=
  (s.decisionAt peers state k).optimistic

/-- The number of the turn does not overflow between the first and the last of so many calls. -/
def NoWraparound (s : ChokingScheduler) (peers : List PeerStats) (state : TorrentState) (count : ℕ) : Prop :=
  ∀ k, k + 1 < count →
    (s.calls peers state k).optimisticIndex ≤ (s.calls peers state (k + 1)).optimisticIndex

theorem uploadSlots_calls (k : ℕ) : (s.calls peers state k).uploadSlots = s.uploadSlots := by
  induction k with
  | zero => rfl
  | succ k ih => exact (uploadSlots_rotate _ _).trans ih

theorem optimisticUnchokeRounds_calls (k : ℕ) :
    (s.calls peers state k).optimisticUnchokeRounds = s.optimisticUnchokeRounds := by
  induction k with
  | zero => rfl
  | succ k ih => exact (optimisticUnchokeRounds_rotate _ _).trans ih

theorem Turning.turning_calls (hs : s.Turning) (k : ℕ) : (s.calls peers state k).Turning := by
  induction k with
  | zero => exact hs
  | succ k ih => exact ih.rotate _

/-- One round more of the present turn, or the first of the next one. -/
theorem rotate_eq_of_le {optimistic : Bool} (hs : s.Turning) (hoptimistic : optimistic = true)
    (hnowrap : s.optimisticIndex ≤ (s.rotate optimistic).optimisticIndex) :
    (s.roundsSinceOptimisticRotation + 1 = s.optimisticUnchokeRounds ∧
      (s.rotate optimistic).optimisticIndex = s.optimisticIndex + 1 ∧
      (s.rotate optimistic).roundsSinceOptimisticRotation = 0) ∨
    (s.roundsSinceOptimisticRotation + 1 < s.optimisticUnchokeRounds ∧
      (s.rotate optimistic).optimisticIndex = s.optimisticIndex ∧
      (s.rotate optimistic).roundsSinceOptimisticRotation = s.roundsSinceOptimisticRotation + 1) := by
  have hrounds := hs.rounds
  subst hoptimistic
  unfold rotate at hnowrap ⊢
  rw [if_pos rfl] at hnowrap ⊢
  split
  · rename_i hover
    rw [if_pos hover] at hnowrap
    refine .inl ⟨by omega, ?_, rfl⟩
    dsimp only at hnowrap ⊢
    -- the largest index would be followed by zero
    rcases Nat.lt_or_eq_of_le hs.index with hlt | heq
    · rw [Nat.mod_eq_of_lt (by omega)]
    · rw [heq, Nat.mod_self] at hnowrap
      exact absurd hnowrap (by decide)
  · rename_i hmore
    exact .inr ⟨by omega, rfl, rfl⟩

variable (hmore : 0 < s.uploadSlots ∧ s.uploadSlots < interestedCount peers)

include hmore in
theorem isSome_optimisticAt (k : ℕ) : (s.optimisticAt peers state k).isSome = true := by
  refine isSome_optimistic_iff.2 ?_
  rw [uploadSlots_calls]
  exact hmore

include hmore in
/-- **The turn and its rounds after so many calls.** -/
theorem Turning.calls (hs : s.Turning) {count k : ℕ} (hnowrap : s.NoWraparound peers state count)
    (hk : k < count) :
    (s.calls peers state k).optimisticIndex =
        s.optimisticIndex + (s.roundsSinceOptimisticRotation + k) / s.optimisticUnchokeRounds ∧
      (s.calls peers state k).roundsSinceOptimisticRotation =
        (s.roundsSinceOptimisticRotation + k) % s.optimisticUnchokeRounds := by
  have hpos : 0 < s.optimisticUnchokeRounds := Nat.zero_lt_of_lt hs.rounds
  induction k with
  | zero =>
      rw [Nat.add_zero, Nat.div_eq_of_lt hs.rounds, Nat.mod_eq_of_lt hs.rounds]
      exact ⟨rfl, rfl⟩
  | succ k ih =>
      obtain ⟨hindex, hrounds⟩ := ih (by omega)
      have hdivmod := Nat.mod_add_div (s.roundsSinceOptimisticRotation + k) s.optimisticUnchokeRounds
      generalize (s.roundsSinceOptimisticRotation + k) / s.optimisticUnchokeRounds = turns at hindex hdivmod
      generalize (s.roundsSinceOptimisticRotation + k) % s.optimisticUnchokeRounds = rounds at hrounds hdivmod
      have hturning : (s.calls peers state k).Turning := hs.turning_calls k
      have hsome : (s.optimisticAt peers state k).isSome = true := isSome_optimisticAt hmore k
      have hstep := rotate_eq_of_le hturning hsome (hnowrap k hk)
      rw [optimisticUnchokeRounds_calls, hindex, hrounds] at hstep
      change (((s.calls peers state k).rotate (s.optimisticAt peers state k).isSome).optimisticIndex = _ ∧
        ((s.calls peers state k).rotate (s.optimisticAt peers state k).isSome).roundsSinceOptimisticRotation = _)
      rcases hstep with ⟨hover, hindex', hrounds'⟩ | ⟨hrest, hindex', hrounds'⟩
      · have hnext := (Nat.div_mod_unique hpos (a := s.roundsSinceOptimisticRotation + (k + 1)) (c := 0)
          (d := turns + 1)).2 ⟨by rw [Nat.mul_succ]; omega, hpos⟩
        rw [hindex', hrounds', hnext.1, hnext.2]
        exact ⟨rfl, rfl⟩
      · have hnext := (Nat.div_mod_unique hpos (a := s.roundsSinceOptimisticRotation + (k + 1)) (c := rounds + 1)
          (d := turns)).2 ⟨by omega, hrest⟩
        rw [hindex', hrounds', hnext.1, hnext.2]
        exact ⟨rfl, rfl⟩

/-- The rounds of all turns up to now. -/
def elapsed (s : ChokingScheduler) : ℕ :=
  s.optimisticIndex * s.optimisticUnchokeRounds + s.roundsSinceOptimisticRotation

/-- The number of peers that have the optimistic slot in turn. -/
def turnCount (s : ChokingScheduler) (peers : List PeerStats) : ℕ := interestedCount peers - s.uploadSlots + 1

/-- The peers that have a slot in every call. -/
def regularPeers (s : ChokingScheduler) (peers : List PeerStats) (state : TorrentState) : List PeerId :=
  ((ranking peers state).take (s.uploadSlots - 1)).map (·.id)

section Turns

variable (hs : s.Turning) {count : ℕ} (hnowrap : s.NoWraparound peers state count)

include hmore hs hnowrap in
/-- The optimistic peer of a call, by its place in the ranking. -/
theorem optimisticAt_eq {k : ℕ} (hk : k < count) :
    s.optimisticAt peers state k = ((ranking peers state)[s.uploadSlots - 1 +
      (s.elapsed + k) / s.optimisticUnchokeRounds % s.turnCount peers]?).map (·.id) := by
  have hpos : 0 < s.optimisticUnchokeRounds := Nat.zero_lt_of_lt hs.rounds
  have hturn : (s.calls peers state k).optimisticIndex = (s.elapsed + k) / s.optimisticUnchokeRounds := by
    rw [(hs.calls hmore hnowrap hk).1, elapsed, Nat.add_assoc, Nat.add_comm (s.optimisticIndex * _),
      Nat.add_mul_div_right _ _ hpos, Nat.add_comm]
  have hdecision : s.optimisticAt peers state k = (selectUnchokedPeers peers state
      (s.calls peers state k).uploadSlots (s.calls peers state k).optimisticIndex).optimistic := rfl
  rw [hdecision, uploadSlots_calls, hturn, optimistic_eq, if_pos hmore]
  rfl

variable (hids : (peers.map (·.id)).Nodup)

include hmore hids in
/-- Different places have different peers. -/
theorem place_inj {place place' : ℕ} (hplace : place < s.turnCount peers)
    (h : ((ranking peers state)[s.uploadSlots - 1 + place]?).map (·.id) =
      ((ranking peers state)[s.uploadSlots - 1 + place']?).map (·.id)) : place = place' := by
  have hlen : ((ranking peers state).map (·.id)).length = interestedCount peers := by
    rw [List.length_map, length_ranking]
  unfold turnCount at hplace
  rw [← List.getElem?_map, ← List.getElem?_map] at h
  have heq := (List.getElem?_inj (by omega) (nodup_map_id_ranking hids)).1 h
  omega

include hmore hs hnowrap hids in
/-- Two calls have the same optimistic peer exactly when they are in turns of the same place. -/
theorem optimisticAt_eq_iff {k k' : ℕ} (hk : k < count) (hk' : k' < count) :
    s.optimisticAt peers state k = s.optimisticAt peers state k' ↔
      (s.elapsed + k) / s.optimisticUnchokeRounds % s.turnCount peers =
        (s.elapsed + k') / s.optimisticUnchokeRounds % s.turnCount peers := by
  have hlt (t : ℕ) : t % s.turnCount peers < s.turnCount peers := Nat.mod_lt _ (Nat.succ_pos _)
  rw [optimisticAt_eq hmore hs hnowrap hk, optimisticAt_eq hmore hs hnowrap hk']
  constructor
  · exact place_inj hmore hids (hlt _)
  · intro heq
    rw [heq]

include hmore in
/-- A peer without a regular slot has one of the places. -/
theorem exists_place {peer : PeerStats} (hpeer : peer ∈ peers) (hinterested : peer.interested = true)
    (hregular : peer.id ∉ s.regularPeers peers state) :
    ∃ place < s.turnCount peers, (ranking peers state)[s.uploadSlots - 1 + place]? = some peer := by
  have hmem : peer ∈ (ranking peers state).drop (s.uploadSlots - 1) := by
    have hranked : peer ∈ ranking peers state := mem_ranking.2 ⟨hpeer, hinterested⟩
    rw [← List.take_append_drop (s.uploadSlots - 1) (ranking peers state), List.mem_append] at hranked
    exact hranked.resolve_left fun h => hregular (List.mem_map_of_mem h)
  obtain ⟨place, hplace⟩ := List.mem_iff_getElem?.1 hmem
  rw [List.getElem?_drop] at hplace
  obtain ⟨hlt, -⟩ := List.getElem?_eq_some_iff.1 hplace
  rw [length_ranking] at hlt
  refine ⟨place, ?_, hplace⟩
  unfold turnCount
  omega

include hmore hs hnowrap hids in
/-- The optimistic peer changes only with the turn. -/
theorem elapsed_mod_of_ne {k : ℕ} (hk : k + 1 < count)
    (h : s.optimisticAt peers state (k + 1) ≠ s.optimisticAt peers state k) :
    (s.elapsed + (k + 1)) % s.optimisticUnchokeRounds = 0 := by
  have hpos : 0 < s.optimisticUnchokeRounds := Nat.zero_lt_of_lt hs.rounds
  by_contra hmod
  refine h ((optimisticAt_eq_iff hmore hs hnowrap hids hk (by omega)).2 ?_)
  have hdivmod := Nat.mod_add_div (s.elapsed + (k + 1)) s.optimisticUnchokeRounds
  have hlt := Nat.mod_lt (s.elapsed + (k + 1)) hpos
  have hsame := (Nat.div_mod_unique hpos (a := s.elapsed + k)
    (c := (s.elapsed + (k + 1)) % s.optimisticUnchokeRounds - 1)
    (d := (s.elapsed + (k + 1)) / s.optimisticUnchokeRounds)).2 ⟨by omega, by omega⟩
  rw [hsame.1]

include hmore hs hnowrap hids in
/-- A turn that begins goes on for so many calls, and then it is the next one's. -/
theorem turn_of_elapsed_mod {k : ℕ} (hmod : (s.elapsed + k) % s.optimisticUnchokeRounds = 0) (hk : k < count) :
    (∀ i < s.optimisticUnchokeRounds, k + i < count →
      s.optimisticAt peers state (k + i) = s.optimisticAt peers state k) ∧
    (k + s.optimisticUnchokeRounds < count →
      s.optimisticAt peers state (k + s.optimisticUnchokeRounds) ≠ s.optimisticAt peers state k) := by
  have hpos : 0 < s.optimisticUnchokeRounds := Nat.zero_lt_of_lt hs.rounds
  have hturns : 2 ≤ s.turnCount peers := by
    unfold turnCount
    omega
  have hdivmod := Nat.mod_add_div (s.elapsed + k) s.optimisticUnchokeRounds
  constructor
  · intro i hi hki
    refine (optimisticAt_eq_iff hmore hs hnowrap hids hki hk).2 ?_
    have hsame := (Nat.div_mod_unique hpos (a := s.elapsed + (k + i)) (c := i)
      (d := (s.elapsed + k) / s.optimisticUnchokeRounds)).2 ⟨by omega, hi⟩
    rw [hsame.1]
  · intro hki heq
    have hplace := (optimisticAt_eq_iff hmore hs hnowrap hids hki hk).1 heq
    rw [← Nat.add_assoc, Nat.add_div_right _ hpos] at hplace
    -- two turns one after the other have different places
    have hnext : ((s.elapsed + k) / s.optimisticUnchokeRounds + 1) % s.turnCount peers =
        (s.elapsed + k) / s.optimisticUnchokeRounds % s.turnCount peers := hplace
    have hzero : 1 % s.turnCount peers = 0 % s.turnCount peers :=
      Nat.ModEq.add_left_cancel' ((s.elapsed + k) / s.optimisticUnchokeRounds) hnext
    rw [Nat.mod_eq_of_lt hturns, Nat.zero_mod] at hzero
    exact absurd hzero Nat.one_ne_zero

include hmore hs hnowrap hids in
/-- In a window in which each place comes up once, a peer has the optimistic slot for the rounds of a turn. -/
theorem card_optimisticAt {peer : PeerStats} (hpeer : peer ∈ peers) (hinterested : peer.interested = true)
    (hregular : peer.id ∉ s.regularPeers peers state) {first : ℕ}
    (hwindow : first + s.optimisticUnchokeRounds * s.turnCount peers ≤ count) :
    ((Finset.range (s.optimisticUnchokeRounds * s.turnCount peers)).filter fun k =>
      s.optimisticAt peers state (first + k) = some peer.id).card = s.optimisticUnchokeRounds := by
  have hpos : 0 < s.optimisticUnchokeRounds := Nat.zero_lt_of_lt hs.rounds
  obtain ⟨place, hplace, hpeer⟩ := exists_place hmore hpeer hinterested hregular
  refine Eq.trans (congrArg Finset.card (Finset.filter_congr fun k hk => ?_))
    (card_turns hpos hplace (s.elapsed + first))
  rw [Finset.mem_range] at hk
  rw [optimisticAt_eq hmore hs hnowrap (by omega), ← Nat.add_assoc]
  have hid : some peer.id = ((ranking peers state)[s.uploadSlots - 1 + place]?).map (·.id) := by
    rw [hpeer]
    rfl
  rw [hid]
  constructor
  · exact place_inj hmore hids (Nat.mod_lt _ (Nat.succ_pos _))
  · intro heq
    rw [heq]

end Turns

end ChokingScheduler

/-- **The optimistic slot goes around fairly.**  After any calls on any lists, and for any number of further calls
on one list with more interested peers than slots: in every window of as many calls as all turns have together,
each peer without a regular slot has the optimistic one equally often, and each new optimistic peer keeps it for
exactly the rounds of a turn. -/
theorem optimistic_turns_fair {s : ChokingScheduler} (hs : chokerSystem.Reach (fun _ _ => True) s)
    (peers : List PeerStats) (state : TorrentState) (hids : (peers.map (·.id)).Nodup)
    (hslots : 1 ≤ s.uploadSlots) (hmore : s.uploadSlots < interestedCount peers) (count : ℕ)
    (hnowrap : s.NoWraparound peers state count) :
    let r := s.optimisticUnchokeRounds
    let window := r * (interestedCount peers - s.uploadSlots + 1)
    1 ≤ r ∧
      (∀ k < count, (s.decisionAt peers state k).unchoked =
        s.regularPeers peers state ++ (s.optimisticAt peers state k).toList) ∧
      (∀ first, first + window ≤ count → ∀ peer ∈ peers, peer.interested = true →
        peer.id ∉ s.regularPeers peers state →
        ((Finset.range window).filter fun k =>
          s.optimisticAt peers state (first + k) = some peer.id).card = r) ∧
      ∀ k, k + 1 < count → s.optimisticAt peers state (k + 1) ≠ s.optimisticAt peers state k →
        (∀ i < r, k + 1 + i < count →
          s.optimisticAt peers state (k + 1 + i) = s.optimisticAt peers state (k + 1)) ∧
        (k + 1 + r < count →
          s.optimisticAt peers state (k + 1 + r) ≠ s.optimisticAt peers state (k + 1)) := by
  have hturning : s.Turning := ChokingScheduler.turning_of_reach hs
  have hboth : 0 < s.uploadSlots ∧ s.uploadSlots < interestedCount peers := ⟨hslots, hmore⟩
  refine ⟨Nat.zero_lt_of_lt hturning.rounds, ?_, ?_, ?_⟩
  · intro k _
    have hunchoked : (s.decisionAt peers state k).unchoked = _ := unchoked_eq
    rw [hunchoked, ChokingScheduler.uploadSlots_calls, regularSlots, if_pos hmore]
    rw [ChokingScheduler.regularPeers, ChokingScheduler.optimisticAt, ChokingScheduler.decisionAt,
      ChokingScheduler.decide, ChokingScheduler.uploadSlots_calls]
  · intro first hwindow peer hpeer hinterested hregular
    exact ChokingScheduler.card_optimisticAt hboth hturning hnowrap hids hpeer hinterested hregular hwindow
  · intro k hk hne
    exact ChokingScheduler.turn_of_elapsed_mod hboth hturning hnowrap hids
      (ChokingScheduler.elapsed_mod_of_ne hboth hturning hnowrap hids hk hne) hk

namespace Sample

/-- Two interested peers. -/
def twoPeers : List PeerStats := [⟨otherPeer, true, true, 5, 0⟩, ⟨peer, true, true, 5, 0⟩]

end Sample

/-- One slot, and turns of one round: of two calls, each of the two peers has the slot in one. -/
theorem optimistic_turns_fair_sample :
    ((Finset.range 2).filter fun k => (ChokingScheduler.new 1 1).optimisticAt Sample.twoPeers .downloading (0 + k) =
      some Sample.peer).card = 1 := by
  have hnowrap : (ChokingScheduler.new 1 1).NoWraparound Sample.twoPeers .downloading 2 := by
    intro k hk
    obtain rfl : k = 0 := by omega
    exact Nat.zero_le _
  have hfair := optimistic_turns_fair (.init ⟨1, 1, rfl⟩) Sample.twoPeers .downloading (by decide) (by decide)
    (by decide) 2 hnowrap
  exact hfair.2.2.1 0 (by decide) ⟨Sample.peer, true, true, 5, 0⟩ (by simp [Sample.twoPeers]) rfl List.not_mem_nil

end Tortillas
