/-
**The scheduler's views agree.**

The blocks in flight are the data of the scheduler; the counts by peer, the cursors and the index
of the first incomplete piece are views of them that every operation has to keep in step.  This
module states the agreement as an invariant, shows that each operation keeps it, and concludes for
every sequence of operations from a new scheduler.

Main definitions:

* `PieceScheduler.owned` — how many blocks are in flight for a peer;
* `IsFirstIncomplete` — an index is the first one whose bit is clear;
* `PieceScheduler.Consistent` — **the invariant**;
* `PieceScheduler.Operation`, `PieceScheduler.run` — the operations and their sequences.

Main results:

* `PieceScheduler.Consistent.apply` — every operation keeps the invariant;
* `PieceScheduler.consistent_run` — every sequence of operations does;
* `PieceScheduler.Undisturbed` and its lemmas — releasing a peer's request, or the peer itself,
  leaves the blocks and the counts of all others alone.
-/

import Tortillas.PieceScheduler

set_option relaxedAutoImplicit false
set_option autoImplicit false

namespace Tortillas

/-- An index is the first whose bit is clear, or the length when none is. -/
structure IsFirstIncomplete (pieces : List Bool) (next : ℕ) : Prop where
  le : next ≤ pieces.length
  complete : ∀ i < next, pieces[i]? = some true
  incomplete : pieces[next]? ≠ some true

namespace IsFirstIncomplete

theorem replicate_false (n : ℕ) : IsFirstIncomplete (List.replicate n false) 0 := by
  refine ⟨Nat.zero_le _, fun i hi => absurd hi (Nat.not_lt_zero i), ?_⟩
  rw [List.getElem?_replicate]
  split <;> simp

/-- The loop stops at the first index from its start on whose bit is clear. -/
theorem skipComplete_spec (pieces : List Bool) (next : ℕ)
    (hle : next ≤ pieces.length) (hbelow : ∀ i < next, pieces[i]? = some true) :
    IsFirstIncomplete pieces (PieceScheduler.skipComplete (pieces.drop next) next) := by
  -- The induction is on the pieces the loop has not looked at yet.
  generalize hrest : pieces.drop next = rest
  induction rest generalizing next with
  | nil =>
      refine ⟨hle, hbelow, ?_⟩
      have hlen : pieces.length ≤ next := List.drop_eq_nil_iff.1 hrest
      simp [PieceScheduler.skipComplete, List.getElem?_eq_none hlen]
  | cons b rest ih =>
      have hget : pieces[next]? = some b := by
        have h0 : (pieces.drop next)[0]? = some b := by rw [hrest]; rfl
        rw [List.getElem?_drop, Nat.add_zero] at h0
        exact h0
      cases b with
      | false =>
          refine ⟨hle, hbelow, ?_⟩
          simp [PieceScheduler.skipComplete, hget]
      | true =>
          rw [PieceScheduler.skipComplete]
          refine ih (next + 1) ?_ ?_ ?_
          · exact (List.getElem?_eq_some_iff.1 hget).1
          · intro i hi
            rcases Nat.lt_succ_iff_lt_or_eq.1 hi with hlt | rfl
            · exact hbelow i hlt
            · exact hget
          · rw [← List.drop_drop, hrest]
            rfl

/-- No bit is clear below the first incomplete index. -/
theorem le_of_getElem? {pieces : List Bool} {next i : ℕ} (h : IsFirstIncomplete pieces next)
    (hi : pieces[i]? = some false) : next ≤ i := by
  by_contra hlt
  have htrue := h.complete i (Nat.lt_of_not_le hlt)
  rw [hi] at htrue
  cases htrue

/-- Setting a bit and moving on finds the first incomplete index again. -/
theorem set_true {pieces : List Bool} {next : ℕ} (h : IsFirstIncomplete pieces next)
    (index : ℕ) :
    IsFirstIncomplete (pieces.set index true)
      (PieceScheduler.skipComplete ((pieces.set index true).drop next) next) := by
  refine skipComplete_spec _ _ ?_ ?_
  · rw [List.length_set]
    exact h.le
  · intro i hi
    rw [List.getElem?_set]
    have hlt : i < pieces.length := Nat.lt_of_lt_of_le hi h.le
    by_cases hindex : index = i
    · rw [if_pos hindex, if_pos (hindex ▸ hlt)]
    · rw [if_neg hindex]
      exact h.complete i hi

end IsFirstIncomplete

namespace PieceScheduler

/-- The number of blocks in flight for a peer. -/
def owned (s : PieceScheduler) (p : PeerId) : ℕ := s.inFlight.count (·.peerId == p)

/-- The count kept for a peer: none when it would be zero. -/
def stored (n : ℕ) : Option ℕ := if n = 0 then none else some n

/-- The counts are the numbers of blocks in flight, and no zero is kept. -/
def Counted (s : PieceScheduler) : Prop := ∀ p, s.inFlightPerPeer.get? p = stored (s.owned p)

/-- The agreement between the views of the scheduler. -/
structure Consistent (pl tl : ℕ) (s : PieceScheduler) : Prop where
  counts : ∀ p, s.inFlightPerPeer.get? p = stored (s.owned p)
  rows : s.inFlight.NoEmptyRow
  cursors : ∀ p c, s.requestCursors.get? p = some c →
    c ≤ totalSlots pl tl s.completedPieces.length
  next : IsFirstIncomplete s.completedPieces s.nextPiece

variable {pl tl : ℕ} {s : PieceScheduler}

theorem consistent_new (pl tl n : ℕ) : Consistent pl tl (new n) where
  counts _ := rfl
  rows := SlotTable.noEmptyRow_empty
  cursors p c h := by
    rw [new, HashMap.get?_empty] at h
    cases h
  next := IsFirstIncomplete.replicate_false n

/-! ### One operation -/

theorem stored_bind_pred (n : ℕ) :
    ((stored (n + 1)).bind fun c => if c - 1 = 0 then none else some (c - 1)) = stored n := by
  simp [stored]

theorem stored_getD_zero (n : ℕ) : (stored n).getD 0 = n := by
  unfold stored
  split
  · rename_i h
    exact h.symm
  · rfl

/-- Taking a request back keeps the counts in step. -/
theorem Counted.takeBack (h : s.Counted) (i j : ℕ) : (s.takeBack i j).Counted := by
  intro p
  unfold PieceScheduler.takeBack owned
  cases hat : s.inFlightAt i j with
  | none => exact h p
  | some request =>
      have hcount := SlotTable.count_clear (·.peerId == p) hat
      rw [inFlight_decrementInFlight]
      by_cases hp : p = request.peerId
      · subst hp
        simp only [beq_self_eq_true, if_true] at hcount
        rw [get?_decrementInFlight_self]
        change ((s.inFlightPerPeer.get? request.peerId).bind _) = _
        rw [h request.peerId, owned, ← hcount, stored_bind_pred]
      · have hne : (request.peerId == p) = false := by
          rw [beq_eq_false_iff_ne]
          exact fun heq => hp heq.symm
        rw [hne] at hcount
        rw [get?_decrementInFlight_of_ne _ hp]
        change s.inFlightPerPeer.get? p = _
        rw [h p, owned, ← hcount]
        rfl

theorem Consistent.takeBack (h : Consistent pl tl s) (i j : ℕ) :
    Consistent pl tl (s.takeBack i j) := by
  refine ⟨Counted.takeBack h.counts i j, ?_, ?_, ?_⟩
  · unfold PieceScheduler.takeBack
    split
    · exact h.rows
    · rw [inFlight_decrementInFlight]
      exact h.rows.clear i j
  · rw [takeBack_eq]
    exact h.cursors
  · rw [takeBack_eq]
    exact h.next

theorem Consistent.setCompletedBlocks (h : Consistent pl tl s) (m : HashMap ℕ (List Bool)) :
    Consistent pl tl { s with completedBlocks := m } :=
  ⟨h.counts, h.rows, h.cursors, h.next⟩

theorem Consistent.markBlockComplete (h : Consistent pl tl s) (i j n : ℕ) :
    Consistent pl tl (s.markBlockComplete i j n).1 := by
  rw [markBlockComplete_fst]
  exact (h.setCompletedBlocks _).takeBack i j

theorem Consistent.markPieceComplete (h : Consistent pl tl s) (index : ℕ) :
    Consistent pl tl (s.markPieceComplete index) := by
  refine ⟨h.counts, h.rows, ?_, h.next.set_true index⟩
  intro p c hc
  have hle := h.cursors p c hc
  simpa [PieceScheduler.markPieceComplete] using hle

/-- Taking a request back adds nothing for any peer. -/
theorem owned_takeBack_le (s : PieceScheduler) (i j : ℕ) (p : PeerId) : (s.takeBack i j).owned p ≤ s.owned p := by
  unfold takeBack owned
  cases hat : s.inFlightAt i j with
  | none => exact le_rfl
  | some request =>
      have hcount := SlotTable.count_clear (·.peerId == p) hat
      rw [inFlight_decrementInFlight]
      dsimp only at hcount ⊢
      omega

theorem Counted.releasePeerRequest (h : s.Counted) (p : PeerId) (i offset : ℕ) :
    (s.releasePeerRequest p i offset).Counted := by
  rw [releasePeerRequest_eq]
  split
  · exact h.takeBack i (offset / blockSize)
  · exact h

theorem Consistent.releasePeerRequest (h : Consistent pl tl s) (p : PeerId) (i offset : ℕ) :
    Consistent pl tl (s.releasePeerRequest p i offset) := by
  rw [releasePeerRequest_eq]
  split
  · exact h.takeBack i (offset / blockSize)
  · exact h

/-- The first slot lies within the slots as long as some piece is incomplete. -/
theorem firstSlot_le_totalSlots (h : s.nextPiece < s.completedPieces.length) :
    s.firstSlot pl ≤ totalSlots pl tl s.completedPieces.length := by
  have hmul : saturatingMul s.nextPiece (divCeil pl blockSize)
      ≤ saturatingMul (s.completedPieces.length - 1) (divCeil pl blockSize) :=
    saturatingMul_le_saturatingMul _ (by omega)
  exact Nat.le_trans hmul (le_saturatingAdd (saturatingMul_le_usizeMax _ _))

/-- Assigning a free block adds one to what is in flight for the peer. -/
theorem owned_assign {p : PeerId} {now slot i j : ℕ} (hfree : s.inFlightAt i j = none) (q : PeerId) :
    (s.assign p pl tl now slot i j).owned q = s.owned q + if q = p then 1 else 0 := by
  have hcount := SlotTable.count_put (·.peerId == q) hfree ⟨p, now⟩
  change SlotTable.count (·.peerId == q) (s.inFlight.put i j ⟨p, now⟩) = _
  rw [hcount, owned]
  by_cases hq : q = p
  · simp [hq]
  · have hne : (p == q) = false := by
      rw [beq_eq_false_iff_ne]
      exact fun heq => hq heq.symm
    simp [hq, hne]

theorem Counted.assign (h : s.Counted) {p : PeerId} {now slot i j : ℕ} (hfree : s.inFlightAt i j = none) :
    (s.assign p pl tl now slot i j).Counted := by
  intro q
  rw [owned_assign hfree]
  change HashMap.get? (s.inFlightPerPeer.insert p ((s.inFlightPerPeer.get? p).getD 0 + 1)) q = _
  rw [HashMap.get?_insert]
  by_cases hq : q = p
  · subst hq
    rw [if_pos rfl, if_pos rfl, h q, stored_getD_zero]
    simp [stored]
  · rw [if_neg hq, if_neg hq, h q, Nat.add_zero]

/-- Assigning a free block of an incomplete piece keeps the invariant. -/
theorem Consistent.assign (h : Consistent pl tl s) {p : PeerId} {now slot i j : ℕ}
    (hfree : s.inFlightAt i j = none) (hnext : s.nextPiece < s.completedPieces.length) :
    Consistent pl tl (s.assign p pl tl now slot i j) := by
  refine ⟨Counted.assign h.counts hfree, h.rows.put i j _, ?_, h.next⟩
  · intro q c hc
    change HashMap.get? (s.requestCursors.insert p _) q = some c at hc
    change c ≤ totalSlots pl tl s.completedPieces.length
    rw [HashMap.get?_insert] at hc
    by_cases hq : q = p
    · rw [if_pos hq] at hc
      have hfirst : s.firstSlot pl ≤ totalSlots pl tl s.completedPieces.length :=
        firstSlot_le_totalSlots hnext
      have hval := Option.some.inj hc
      split at hval
      · omega
      · omega
    · rw [if_neg hq] at hc
      exact h.cursors q c hc

/-- A scan keeps the counts in step, and what it answers is what has come in flight for the peer. -/
theorem Counted.requestsForPeer (h : s.Counted) (p : PeerId) (pl tl : ℕ) (clock : ℕ → ℕ) (limit : ℕ) :
    (s.requestsForPeer p pl tl clock limit).1.Counted ∧
      ∀ q, (s.requestsForPeer p pl tl clock limit).1.owned q =
        s.owned q + if q = p then (s.requestsForPeer p pl tl clock limit).2.length else 0 := by
  refine requestsForPeer_induct p pl tl clock
    (P := fun u v rs => u.Counted → v.Counted ∧ ∀ q, v.owned q = u.owned q + if q = p then rs.length else 0)
    (fun u hu => ⟨hu, fun q => by simp⟩) limit s ?_ h
  intro available u t v slot r rs _ _ hreq ih hu
  obtain ⟨-, -, -, -, hfree, -, -, rfl⟩ := requestSlot_eq_some hreq
  obtain ⟨hv, howned⟩ := ih (hu.assign hfree)
  refine ⟨hv, fun q => ?_⟩
  rw [howned q, owned_assign hfree, List.length_cons]
  split
  · omega
  · omega

theorem Consistent.requestsForPeer (h : Consistent pl tl s) (p : PeerId) (clock : ℕ → ℕ)
    (limit : ℕ) : Consistent pl tl (s.requestsForPeer p pl tl clock limit).1 := by
  refine requestsForPeer_induct p pl tl clock
    (P := fun u v _ => u.completedPieces.length = s.completedPieces.length →
      Consistent pl tl u → Consistent pl tl v)
    (fun _ _ hu => hu) limit s ?_ rfl h
  intro available u t v slot r rs hslot _ hreq ih hlen hu
  obtain ⟨hpiece, -, hindex, -, hfree, -, -, rfl⟩ := requestSlot_eq_some hreq
  have hlt : r.pieceIndex < u.completedPieces.length := by
    rw [hindex, hlen]
    exact hslot
  have hfalse : u.completedPieces[r.pieceIndex]? = some false := by
    rw [List.getD_eq_getElem?_getD, List.getElem?_eq_getElem hlt] at hpiece
    rw [List.getElem?_eq_getElem hlt]
    exact congrArg some hpiece
  have hnext : u.nextPiece < u.completedPieces.length :=
    Nat.lt_of_le_of_lt (hu.next.le_of_getElem? hfalse) hlt
  exact ih hlen (hu.assign hfree hnext)

theorem Consistent.updatePeerAvailability (h : Consistent pl tl s) (p : PeerId)
    (available : List Bool) : Consistent pl tl (s.updatePeerAvailability p available) :=
  ⟨h.counts, h.rows, h.cursors, h.next⟩

/-- A peer that leaves takes its blocks along, and leaves those of the others. -/
theorem owned_peerDisconnected (s : PieceScheduler) (p q : PeerId) :
    (s.peerDisconnected p).owned q = if q = p then 0 else s.owned q := by
  change SlotTable.count (·.peerId == q) (s.inFlight.keepOnly (·.peerId != p)) = _
  rw [SlotTable.count_keepOnly]
  by_cases hq : q = p
  · subst hq
    rw [if_pos rfl]
    exact SlotTable.count_eq_zero_iff.2 fun _ _ a _ => by simp
  · have htest : (fun a : InFlightBlock => a.peerId != p && a.peerId == q)
        = fun a => a.peerId == q := by
      funext a
      by_cases ha : a.peerId = q
      · simp [ha, hq]
      · simp [ha]
    rw [if_neg hq, htest, owned]

theorem Counted.peerDisconnected (h : s.Counted) (p : PeerId) : (s.peerDisconnected p).Counted := by
  intro q
  rw [owned_peerDisconnected]
  change HashMap.get? (s.inFlightPerPeer.erase p) q = _
  rw [HashMap.get?_erase]
  split
  · rfl
  · exact h q

theorem Consistent.peerDisconnected (h : Consistent pl tl s) (p : PeerId) :
    Consistent pl tl (s.peerDisconnected p) := by
  refine ⟨Counted.peerDisconnected h.counts p, SlotTable.noEmptyRow_keepOnly _ _, ?_, h.next⟩
  · intro q c hc
    exact h.cursors q c (HashMap.get?_of_get?_erase hc).2

/-- Counting a list of peers into a map. -/
theorem get?_foldl_countRequest (peers : List PeerId) (m : HashMap PeerId ℕ) (p : PeerId) :
    (peers.foldl countRequest m).get? p =
      if peers.count p = 0 then m.get? p else some ((m.get? p).getD 0 + peers.count p) := by
  induction peers generalizing m with
  | nil => rfl
  | cons q peers ih =>
      rw [List.foldl_cons, ih, countRequest, HashMap.get?_insert, List.count_cons]
      by_cases hq : p = q
      · subst hq
        by_cases h0 : peers.count p = 0
        · simp [h0]
        · simp [h0]
          omega
      · have hne : (q == p) = false := by
          rw [beq_eq_false_iff_ne]
          exact fun heq => hq heq.symm
        simp [hq, hne]

/-- The counts are taken anew. -/
theorem counted_releaseStaleRequests (s : PieceScheduler) (now timeout : ℕ) :
    (s.releaseStaleRequests now timeout).1.Counted := by
  intro p
  let fresh : InFlightBlock → Bool := fun request => !decide (timeout ≤ now - request.requestedAt)
  change HashMap.get? (((s.inFlight.values fresh).map InFlightBlock.peerId).foldl countRequest ∅) p
    = stored (SlotTable.count (·.peerId == p) (s.inFlight.keepOnly fresh))
  have hcount : ((s.inFlight.values fresh).map InFlightBlock.peerId).count p
      = SlotTable.count (fun a => fresh a && a.peerId == p) s.inFlight := by
    rw [← SlotTable.countP_values, List.count, List.countP_map]
    rfl
  rw [get?_foldl_countRequest, SlotTable.count_keepOnly, hcount, stored]
  simp

theorem Consistent.releaseStaleRequests (h : Consistent pl tl s) (now timeout : ℕ) :
    Consistent pl tl (s.releaseStaleRequests now timeout).1 :=
  ⟨counted_releaseStaleRequests s now timeout, SlotTable.noEmptyRow_keepOnly _ _, h.cursors, h.next⟩

/-! ### Sequences of operations -/

/-- The operations of the scheduler; those that read the clock carry what they read. -/
inductive Operation
  | updatePeerAvailability (peerId : PeerId) (available : List Bool)
  | requestsForPeer (peerId : PeerId) (limit : ℕ) (clock : ℕ → ℕ)
  | restorePieceBlocks (index : ℕ) (blocks : List Bool)
  | markBlockComplete (pieceIndex blockIndex totalBlocks : ℕ)
  | removePieceBlocks (pieceIndex : ℕ)
  | markPieceComplete (index : ℕ)
  | releasePeerRequest (peerId : PeerId) (pieceIndex offset : ℕ)
  | releaseStaleRequests (now timeout : ℕ)
  | peerDisconnected (peerId : PeerId)

/-- One operation, on a torrent with the given lengths. -/
def apply (pl tl : ℕ) (s : PieceScheduler) : Operation → PieceScheduler
  | .updatePeerAvailability p available => s.updatePeerAvailability p available
  | .requestsForPeer p limit clock => (s.requestsForPeer p pl tl clock limit).1
  | .restorePieceBlocks index blocks => s.restorePieceBlocks index blocks
  | .markBlockComplete i j n => (s.markBlockComplete i j n).1
  | .removePieceBlocks i => s.removePieceBlocks i
  | .markPieceComplete index => s.markPieceComplete index
  | .releasePeerRequest p i offset => s.releasePeerRequest p i offset
  | .releaseStaleRequests now timeout => (s.releaseStaleRequests now timeout).1
  | .peerDisconnected p => s.peerDisconnected p

/-- A new scheduler after a sequence of operations. -/
def run (pl tl n : ℕ) (ops : List Operation) : PieceScheduler := ops.foldl (apply pl tl) (new n)

/-- **Every operation keeps the invariant.** -/
theorem Consistent.apply (h : Consistent pl tl s) (op : Operation) :
    Consistent pl tl (s.apply pl tl op) := by
  cases op with
  | updatePeerAvailability p available => exact h.updatePeerAvailability p available
  | requestsForPeer p limit clock => exact h.requestsForPeer p clock limit
  | restorePieceBlocks index blocks => exact h.setCompletedBlocks _
  | markBlockComplete i j n => exact h.markBlockComplete i j n
  | removePieceBlocks i => exact h.setCompletedBlocks _
  | markPieceComplete index => exact h.markPieceComplete index
  | releasePeerRequest p i offset => exact h.releasePeerRequest p i offset
  | releaseStaleRequests now timeout => exact h.releaseStaleRequests now timeout
  | peerDisconnected p => exact h.peerDisconnected p

/-- **Every sequence of operations keeps the invariant.** -/
theorem consistent_run (pl tl n : ℕ) (ops : List Operation) :
    Consistent pl tl (run pl tl n ops) := by
  unfold run
  generalize hs : new n = s
  have h : Consistent pl tl s := hs ▸ consistent_new pl tl n
  clear hs
  induction ops generalizing s with
  | nil => exact h
  | cons op ops ih => exact ih (s.apply pl tl op) (h.apply op)

/-! ### Nobody else is disturbed -/

/-- An entry of the table of blocks in flight. -/
def HasEntry (s : PieceScheduler) (i j : ℕ) (x : InFlightBlock) : Prop :=
  ∃ row, (i, row) ∈ s.inFlight.toList ∧ row[j]? = some (some x)

theorem hasEntry_iff {i j : ℕ} {x : InFlightBlock} :
    s.HasEntry i j x ↔ s.inFlightAt i j = some x := by
  rw [inFlightAt, SlotTable.at?_eq_some, HasEntry]
  constructor
  · rintro ⟨row, hmem, hj⟩
    exact ⟨row, HashMap.mem_toList_iff.1 hmem, hj⟩
  · rintro ⟨row, hget, hj⟩
    exact ⟨row, HashMap.mem_toList_iff.2 hget, hj⟩

/-- The blocks in flight for a peer, and its count, are the same in two states. -/
structure Undisturbed (q : PeerId) (s t : PieceScheduler) : Prop where
  blocks : ∀ i j x, x.peerId = q → (t.HasEntry i j x ↔ s.HasEntry i j x)
  count : t.inFlightPerPeer.get? q = s.inFlightPerPeer.get? q

theorem undisturbed_releasePeerRequest (s : PieceScheduler) {p q : PeerId} (hq : q ≠ p)
    (i offset : ℕ) : Undisturbed q s (s.releasePeerRequest p i offset) := by
  rw [releasePeerRequest_eq]
  split
  · rename_i hany
    obtain ⟨request, hat, hp⟩ := (Option.any_eq_true _ _).1 hany
    have howner : request.peerId = p := by simpa using hp
    constructor
    · intro i' j' x hx
      rw [hasEntry_iff, hasEntry_iff, inFlightAt_takeBack]
      split
      · rename_i hij
        rw [hij.1, hij.2, hat]
        constructor
        · intro h
          cases h
        · intro h
          cases h
          exact absurd (hx.symm.trans howner) hq
      · exact Iff.rfl
    · refine get?_takeBack_of_ne s ?_
      intro request' hat'
      cases hat.symm.trans hat'
      rw [howner]
      exact hq
  · exact ⟨fun _ _ _ _ => Iff.rfl, rfl⟩

theorem undisturbed_peerDisconnected (s : PieceScheduler) {p q : PeerId} (hq : q ≠ p) :
    Undisturbed q s (s.peerDisconnected p) := by
  constructor
  · intro i j x hx
    rw [hasEntry_iff, hasEntry_iff, inFlightAt_peerDisconnected, Option.filter_eq_some_iff]
    have hne : x.peerId ≠ p := fun h => hq (hx.symm.trans h)
    simp [hne]
  · exact HashMap.get?_erase_of_ne hq

/-- **The representation invariant of the scheduler**, for every sequence of operations: the
counts are the numbers of blocks in flight and no zero is stored, no row is empty, no block is in
flight twice, the cursors lie within the slots, the first incomplete piece is the first, and
releasing a peer's request or the peer leaves every other peer's blocks and count alone. -/
theorem scheduler_representation_invariant (pl tl n : ℕ) (ops : List Operation) :
    let s := run pl tl n ops
    (∀ p, s.inFlightPerPeer.get? p = if s.owned p = 0 then none else some (s.owned p)) ∧
    (∀ i row, s.inFlight.get? i = some row → ∃ x, some x ∈ row) ∧
    (∀ i j x y, s.HasEntry i j x → s.HasEntry i j y → x = y) ∧
    (∀ p c, s.requestCursors.get? p = some c → c ≤ totalSlots pl tl s.completedPieces.length) ∧
    IsFirstIncomplete s.completedPieces s.nextPiece ∧
    (∀ p q, q ≠ p →
      (∀ i offset, Undisturbed q s (s.releasePeerRequest p i offset)) ∧
      Undisturbed q s (s.peerDisconnected p)) := by
  intro s
  have h : Consistent pl tl s := consistent_run pl tl n ops
  refine ⟨h.counts, ?_, ?_, h.cursors, h.next, ?_⟩
  · intro i row hrow
    obtain ⟨x, hx, hsome⟩ := List.any_eq_true.1 (h.rows i row hrow)
    obtain ⟨y, rfl⟩ := Option.isSome_iff_exists.1 hsome
    exact ⟨y, hx⟩
  · intro i j x y hx hy
    rw [hasEntry_iff] at hx hy
    exact Option.some.inj (hx.symm.trans hy)
  · intro p q hq
    exact ⟨undisturbed_releasePeerRequest s hq, undisturbed_peerDisconnected s hq⟩

end PieceScheduler

end Tortillas
