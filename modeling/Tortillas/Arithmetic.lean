/-
**Arithmetic on numbers from the metadata.**

Nothing checks the numbers of an info dictionary: the length of a piece may be zero or close to the
largest number, and the lengths of the files and the number of hashes need not fit together.  The
functions that compute with them are taken here with the points at which machine arithmetic fails: a
remainder by zero, a sum that is too large, an index that is out of range, a clamp between bounds
that are the wrong way round.  Most of these points are guarded.  Three are not: the remainder of
the total length by the length of a piece, the end of a block of a piece that ends close to the
largest number, and the running sum of the lengths of the files.

Main definitions:

* `checkIncoming`, `PieceScheduler.requestsForPeerChecked`, `validateBlocksChecked` — functions of
  the source with their points of failure;
* `ArithmeticSafe` — none of the functions fails;
* `Info.PassesMax` — a piece meets the file at which the running sum passes the largest number.

Main results:

* `PieceScheduler.requestsForPeerChecked_eq` — the scan does not fail when blocks end in time;
* `pieceToPaths_eq_panic` — when laying out a piece fails;
* `arithmetic_safe_iff` — **for which metadata no arithmetic fails**.
-/

import Tortillas.PieceLengths

set_option relaxedAutoImplicit false
set_option autoImplicit false

namespace Tortillas

variable {H : Type}

/-! ### With points of failure -/

/-- The checks of `handle_incoming_piece`. -/
def checkIncoming (info : Info H) (index offset length : ℕ) : Outcome String (Option ℕ) :=
  if info.pieceCount ≤ index then .ok none
  else do
    let concretePieceLen ← concreteLength info index
    let expectedBlocks := divCeil concretePieceLen blockSize
    if concretePieceLen ≤ offset then .ok none
    else if length = 0 then .ok none
    else if usizeMax < offset + length then .ok none
    else if concretePieceLen < offset + length then .ok none
    else if expectedBlocks ≤ offset / blockSize then .ok none
    else if length ≠ min (concretePieceLen - offset) blockSize then .ok none
    else .ok (some expectedBlocks)

/-- The loop of `validate` over the block map, which looks a bit up for each entry. -/
def validateBlocksChecked (info : Option (Info H)) (bitfield : List Bool) (pieceCount : ℕ) :
    List PieceBlockSnapshot → List ℕ → Outcome String Unit
  | [], _ => .ok ()
  | entry :: entries, seen =>
      let index := entry.pieceIndex
      if index ∈ seen then .err s!"partial piece index {index} appears more than once"
      else if pieceCount ≤ index then
        .err "partial piece index is outside the metadata piece range"
      else
        match bitfield[index]? with
        | none => .panic
        | some true => .err "completed piece also contains partial block state"
        | some false =>
            match info with
            | none => .err "partial block state requires resolved metadata"
            | some dict =>
                match snapshotPieceLength dict index with
                | .error reason => .err reason
                | .ok length =>
                    let expected := divCeil length blockSize
                    if entry.blocks.length ≠ expected then
                      .err s!"partial piece {index} has {entry.blocks.length} blocks; expected {expected}"
                    else validateBlocksChecked info bitfield pieceCount entries (index :: seen)

namespace PieceScheduler

section Checked

variable (peerId : PeerId) (pieceLength totalLength : ℕ) (clock : ℕ → ℕ)

/-- One round of the scan: the piece is looked up, and the end of the block that is asked for is
computed. -/
def requestSlotChecked (available : List Bool) (s : PieceScheduler) (slot : ℕ) :
    Outcome String (Option (PieceScheduler × BlockRequest)) :=
  match s.completedPieces[slot / divCeil pieceLength blockSize]? with
  | none => .panic
  | some _ =>
      match s.requestSlot peerId pieceLength totalLength clock available slot with
      | none => .ok none
      | some (t, request) =>
          if usizeMax < request.offset + blockSize then .panic else .ok (some (t, request))

def requestSlotsChecked (available : List Bool) :
    ℕ → List ℕ → PieceScheduler → Outcome String (PieceScheduler × List BlockRequest)
  | _, [], s => .ok (s, [])
  | limit, slot :: slots, s => do
      match ← s.requestSlotChecked peerId pieceLength totalLength clock available slot with
      | none => requestSlotsChecked available limit slots s
      | some (s, request) =>
          if limit ≤ 1 then .ok (s, [request])
          else do
            let rest ← requestSlotsChecked available (limit - 1) slots s
            .ok (rest.1, request :: rest.2)

/-- `requests_for_peer`: the length of the last piece is a remainder, and the cursor is clamped. -/
def requestsForPeerChecked (limit : ℕ) (s : PieceScheduler) :
    Outcome String (PieceScheduler × List BlockRequest) :=
  let pieceCount := s.completedPieces.length
  match s.peerAvailability.get? peerId with
  | none => .ok (s, [])
  | some available =>
      if limit = 0 ∨ pieceCount = 0 ∨ divCeil pieceLength blockSize = 0 then .ok (s, [])
      else do
        let _ ← checkedRem totalLength pieceLength
        let first := s.firstSlot pieceLength
        let total := totalSlots pieceLength totalLength pieceCount
        let cursor ←
          if s.nextPiece = pieceCount then .ok total
          else if total < first then .panic
          else .ok (max first (min ((s.requestCursors.get? peerId).getD first) total))
        let slots := List.range' cursor (total - cursor) ++ List.range' first (cursor - first)
        s.requestSlotsChecked peerId pieceLength totalLength clock available limit slots

end Checked

/-! ### The scan -/

section Scan

variable {p : PeerId} {pl tl : ℕ} {clock : ℕ → ℕ} {available : List Bool} {s : PieceScheduler}

/-- The end of every block of a piece of the given number of pieces is a number. -/
def BlocksEnd (pl tl n : ℕ) : Prop :=
  ∀ i < n, divCeil (concretePieceLength n pl tl i) blockSize * blockSize ≤ usizeMax

/-- A round does not fail when the slot is one of the scan and the block it finds ends in time. -/
theorem requestSlotChecked_eq {slot : ℕ} (hpiece : slot / divCeil pl blockSize < s.completedPieces.length)
    (hend : ∀ t r, s.requestSlot p pl tl clock available slot = some (t, r) →
      r.offset + blockSize ≤ usizeMax) :
    s.requestSlotChecked p pl tl clock available slot =
      .ok (s.requestSlot p pl tl clock available slot) := by
  rw [requestSlotChecked, List.getElem?_eq_getElem hpiece]
  dsimp only
  cases hreq : s.requestSlot p pl tl clock available slot with
  | none => rfl
  | some found =>
      obtain ⟨t, r⟩ := found
      dsimp only
      rw [if_neg (Nat.not_lt.2 (hend t r hreq))]

/-- The scan over slots does not fail when the blocks it answers end in time. -/
theorem requestSlotsChecked_eq {slots : List ℕ}
    (hslots : ∀ slot ∈ slots, slot / divCeil pl blockSize < s.completedPieces.length) {limit : ℕ}
    (hend : ∀ r ∈ (s.requestSlots p pl tl clock available limit slots).2, r.offset + blockSize ≤ usizeMax) :
    s.requestSlotsChecked p pl tl clock available limit slots =
      .ok (s.requestSlots p pl tl clock available limit slots) := by
  induction slots generalizing s limit with
  | nil => rfl
  | cons slot slots ih =>
      have hrest : ∀ slot' ∈ slots, slot' / divCeil pl blockSize < s.completedPieces.length :=
        fun slot' hmem => hslots slot' (List.mem_cons_of_mem _ hmem)
      rw [requestSlots] at hend
      have hfirst : ∀ t r, s.requestSlot p pl tl clock available slot = some (t, r) →
          r.offset + blockSize ≤ usizeMax := by
        intro t r hreq
        rw [hreq] at hend
        dsimp only at hend
        split at hend
        · exact hend r (List.mem_singleton_self r)
        · exact hend r (List.mem_cons_self ..)
      rw [requestSlotsChecked, requestSlots,
        requestSlotChecked_eq (hslots slot (List.mem_cons_self ..)) hfirst, Outcome.ok_bind]
      cases hreq : s.requestSlot p pl tl clock available slot with
      | none =>
          rw [hreq] at hend
          exact ih hrest hend
      | some found =>
          obtain ⟨t, r⟩ := found
          rw [hreq] at hend
          have hpieces : t.completedPieces = s.completedPieces := by
            obtain ⟨-, -, -, -, -, -, -, rfl⟩ := requestSlot_eq_some hreq
            rfl
          dsimp only at hend ⊢
          split
          · rfl
          · rename_i hlimit
            rw [if_neg hlimit] at hend
            rw [← hpieces] at hrest
            rw [ih hrest fun r' hr' => hend r' (List.mem_cons_of_mem _ hr'), Outcome.ok_bind]

/-- When the scan over slots does not fail, the blocks it answers end in time. -/
theorem of_requestSlotsChecked_eq_ok {slots : List ℕ} {limit : ℕ} {found : PieceScheduler × List BlockRequest}
    (h : s.requestSlotsChecked p pl tl clock available limit slots = .ok found) :
    found = s.requestSlots p pl tl clock available limit slots ∧
      ∀ r ∈ found.2, r.offset + blockSize ≤ usizeMax := by
  induction slots generalizing s limit found with
  | nil =>
      cases h
      exact ⟨rfl, nofun⟩
  | cons slot slots ih =>
      rw [requestSlotsChecked] at h
      obtain ⟨round, hround, h⟩ := Outcome.bind_eq_ok.1 h
      rw [requestSlotChecked] at hround
      rw [requestSlots]
      split at hround
      · cases hround
      · cases hreq : s.requestSlot p pl tl clock available slot with
        | none =>
            rw [hreq] at hround
            cases hround
            exact ih h
        | some first =>
            obtain ⟨t, r⟩ := first
            rw [hreq] at hround
            dsimp only at hround
            split at hround
            · cases hround
            · rename_i hmax
              cases hround
              dsimp only at h ⊢
              split at h
              · rename_i hlimit
                cases h
                rw [if_pos hlimit]
                refine ⟨rfl, fun r' hr' => ?_⟩
                rw [List.mem_singleton.1 hr']
                exact Nat.not_lt.1 hmax
              · rename_i hlimit
                obtain ⟨rest, hrest, h⟩ := Outcome.bind_eq_ok.1 h
                cases h
                obtain ⟨rfl, hends⟩ := ih hrest
                rw [if_neg hlimit]
                refine ⟨rfl, fun r' hr' => ?_⟩
                rcases List.mem_cons.1 hr' with rfl | hmem
                · exact Nat.not_lt.1 hmax
                · exact hends r' hmem

/-- **The scan does not fail when the blocks it answers end in time.** -/
theorem requestsForPeerChecked_eq_of_ends (hnext : s.nextPiece ≤ s.completedPieces.length) {limit : ℕ}
    (hend : ∀ r ∈ (s.requestsForPeer p pl tl clock limit).2, r.offset + blockSize ≤ usizeMax) :
    s.requestsForPeerChecked p pl tl clock limit = .ok (s.requestsForPeer p pl tl clock limit) := by
  unfold requestsForPeerChecked requestsForPeer
  unfold requestsForPeer at hend
  dsimp only at hend ⊢
  cases havailable : s.peerAvailability.get? p with
  | none => rfl
  | some available =>
      rw [havailable] at hend
      dsimp only at hend ⊢
      split
      · rfl
      · rename_i hguard
        rw [if_neg hguard] at hend
        simp only [not_or] at hguard
        obtain ⟨-, hne, hblocks⟩ := hguard
        have hbpp : 0 < divCeil pl blockSize := Nat.pos_of_ne_zero hblocks
        have hpl : 0 < pl := (divCeil_pos_iff blockSize_pos).1 hbpp
        have hpiece : ∀ slot, slot < totalSlots pl tl s.completedPieces.length →
            slot / divCeil pl blockSize < s.completedPieces.length :=
          fun slot hslot => div_lt_of_lt_totalSlots hbpp hne hslot
        rw [checkedRem, if_neg hpl.ne', Outcome.ok_bind]
        split
        · rename_i hdone
          rw [if_pos hdone] at hend
          rw [Outcome.ok_bind]
          refine requestSlotsChecked_eq (fun slot hslot => hpiece slot ?_) hend
          exact lt_of_mem_slots (Nat.le_max_right _ _) hslot
        · rename_i hmore
          rw [if_neg hmore] at hend
          have hfirst : s.firstSlot pl ≤ totalSlots pl tl s.completedPieces.length :=
            firstSlot_le_totalSlots (by omega)
          rw [if_neg (by omega), Outcome.ok_bind]
          refine requestSlotsChecked_eq (fun slot hslot => hpiece slot ?_) hend
          exact lt_of_mem_slots (by omega) hslot

/-- When the scan does not fail, the blocks it answers end in time. -/
theorem of_requestsForPeerChecked_eq_ok {limit : ℕ} {found : PieceScheduler × List BlockRequest}
    (h : s.requestsForPeerChecked p pl tl clock limit = .ok found) :
    found = s.requestsForPeer p pl tl clock limit ∧ ∀ r ∈ found.2, r.offset + blockSize ≤ usizeMax := by
  unfold requestsForPeerChecked at h
  unfold requestsForPeer
  cases havailable : s.peerAvailability.get? p with
  | none =>
      rw [havailable] at h
      cases h
      exact ⟨rfl, nofun⟩
  | some available =>
      rw [havailable] at h
      dsimp only at h ⊢
      split at h
      · rename_i hguard
        cases h
        rw [if_pos hguard]
        exact ⟨rfl, nofun⟩
      · rename_i hguard
        rw [if_neg hguard]
        obtain ⟨-, -, h⟩ := Outcome.bind_eq_ok.1 h
        split at h
        · rename_i hdone
          rw [Outcome.ok_bind] at h
          rw [if_pos hdone]
          exact of_requestSlotsChecked_eq_ok h
        · rename_i hmore
          rw [if_neg hmore]
          split at h
          · rw [Outcome.panic_bind] at h
            cases h
          · rw [Outcome.ok_bind] at h
            exact of_requestSlotsChecked_eq_ok h

/-- **The scan does not fail when blocks end in time.** -/
theorem requestsForPeerChecked_eq (hend : BlocksEnd pl tl s.completedPieces.length)
    (hnext : s.nextPiece ≤ s.completedPieces.length) (limit : ℕ) :
    s.requestsForPeerChecked p pl tl clock limit = .ok (s.requestsForPeer p pl tl clock limit) := by
  refine requestsForPeerChecked_eq_of_ends hnext fun r hr => ?_
  obtain ⟨hreq, -⟩ := (requestsForPeer_assigns p pl tl clock limit s).requests r hr
  have hmul : (r.blockIndex + 1) * blockSize ≤
      divCeil (concretePieceLength s.completedPieces.length pl tl r.pieceIndex) blockSize *
        blockSize := Nat.mul_le_mul_right _ hreq.block
  have hmax := hend r.pieceIndex (List.getElem?_eq_some_iff.1 hreq.piece).1
  rw [Nat.succ_mul] at hmul
  rw [BlockRequest.offset]
  omega

/-- No piece is longer than the first one. -/
theorem concretePieceLength_le_first {n i : ℕ} (hpl : 0 < pl) (hi : i < n) :
    concretePieceLength n pl tl i ≤ concretePieceLength n pl tl 0 := by
  have hlast : lastPieceLength pl tl ≤ pl := lastPieceLength_le hpl
  unfold concretePieceLength
  by_cases hone : 0 = n - 1
  · rw [if_pos hone, if_pos (by omega)]
  · rw [if_neg hone]
    split
    · exact hlast
    · exact le_rfl

/-- Slots that are passed over do not matter. -/
theorem requestSlotsChecked_append {skipped : List ℕ}
    (h : ∀ slot ∈ skipped, s.requestSlotChecked p pl tl clock available slot = .ok none)
    (slots : List ℕ) (limit : ℕ) :
    s.requestSlotsChecked p pl tl clock available limit (skipped ++ slots) =
      s.requestSlotsChecked p pl tl clock available limit slots := by
  induction skipped with
  | nil => rfl
  | cons slot skipped ih =>
      rw [List.cons_append, requestSlotsChecked, h slot (List.mem_cons_self ..), Outcome.ok_bind]
      exact ih fun slot' hmem => h slot' (List.mem_cons_of_mem _ hmem)

end Scan

/-! ### The last block of the first piece -/

section Last

variable (p : PeerId) (n blocks : ℕ)

/-- All blocks of the first piece but the last have been received, and a peer has all pieces. -/
def lastBlockMissing : PieceScheduler :=
  { new n with
    completedBlocks := (new n).completedBlocks.insert 0 (List.replicate (blocks - 1) true ++ [false])
    peerAvailability := (new n).peerAvailability.insert p (List.replicate n true) }

variable {p n blocks} {pl tl : ℕ} {clock : ℕ → ℕ}

theorem isDuplicateBlock_lastBlockMissing {j : ℕ} (hj : j < blocks) :
    (lastBlockMissing p n blocks).isDuplicateBlock 0 j = decide (j < blocks - 1) := by
  rw [isDuplicateBlock, lastBlockMissing]
  dsimp only
  rw [HashMap.get?_insert_self, Option.bind_some, List.getElem?_append]
  by_cases hlt : j < blocks - 1
  · simp [hlt]
  · have hlast : j - (blocks - 1) = 0 := by
      omega
    simp [hlt, hlast]

theorem completedPieces_lastBlockMissing (hn : 0 < n) {slot : ℕ} (hslot : slot < divCeil pl blockSize) :
    (lastBlockMissing p n blocks).completedPieces[slot / divCeil pl blockSize]? = some false := by
  rw [Nat.div_eq_of_lt hslot]
  change (List.replicate n false)[0]? = some false
  simp [hn]

/-- What a round makes of a block of the first piece. -/
theorem requestSlot_lastBlockMissing (hn : 0 < n)
    (hblocks : blocks = divCeil (concretePieceLength n pl tl 0) blockSize)
    (hbpp : blocks ≤ divCeil pl blockSize) {slot : ℕ} (hslot : slot < blocks) :
    (lastBlockMissing p n blocks).requestSlot p pl tl clock (List.replicate n true) slot =
      if slot < blocks - 1 then none
      else some ((lastBlockMissing p n blocks).assign p pl tl (clock slot) slot 0 slot,
        blockRequest 0 slot (concretePieceLength n pl tl 0)) := by
  have hdiv : slot / divCeil pl blockSize = 0 := Nat.div_eq_of_lt (by omega)
  have hmod : slot % divCeil pl blockSize = slot := Nat.mod_eq_of_lt (by omega)
  have hpieces : (lastBlockMissing p n blocks).completedPieces = List.replicate n false := rfl
  have hflight : (lastBlockMissing p n blocks).isInFlight 0 slot = false := rfl
  rw [requestSlot]
  dsimp only
  rw [hdiv, hmod, hpieces, List.length_replicate, hflight,
    isDuplicateBlock_lastBlockMissing hslot, if_neg (by simp [hn]), ← hblocks,
    if_neg (Nat.not_le.2 hslot)]
  simp

/-- The blocks of the first piece are among the slots. -/
theorem blocks_le_totalSlots (hn : 0 < n) (hle : pl ≤ usizeMax)
    (hblocks : blocks = divCeil (concretePieceLength n pl tl 0) blockSize)
    (hbpp : blocks ≤ divCeil pl blockSize) : blocks ≤ totalSlots pl tl n := by
  have hrow : divCeil pl blockSize ≤ usizeMax := (divCeil_le_self blockSize_pos).trans hle
  rw [totalSlots, saturatingAdd, saturatingMul]
  rcases Nat.lt_or_ge 1 n with hmany | hone
  · have hmul : divCeil pl blockSize ≤ (n - 1) * divCeil pl blockSize :=
      Nat.le_mul_of_pos_left _ (by omega)
    refine (Nat.le_min.2 ⟨hbpp.trans ?_, hbpp.trans hrow⟩)
    exact (Nat.le_min.2 ⟨hmul, hrow⟩).trans (Nat.le_add_right _ _)
  · have hfirst : concretePieceLength n pl tl 0 = lastPieceLength pl tl := if_pos (by omega)
    rw [← hfirst, ← hblocks]
    exact Nat.le_min.2 ⟨Nat.le_add_left _ _, hbpp.trans hrow⟩

/-- The blocks of the first piece that have been received are passed over. -/
theorem requestSlotChecked_of_received (hn : 0 < n)
    (hblocks : blocks = divCeil (concretePieceLength n pl tl 0) blockSize)
    (hbpp : blocks ≤ divCeil pl blockSize) {slot : ℕ} (hslot : slot < blocks - 1) :
    (lastBlockMissing p n blocks).requestSlotChecked p pl tl clock (List.replicate n true) slot =
      .ok none := by
  have hget : (lastBlockMissing p n blocks).completedPieces[slot / divCeil pl blockSize]? =
      some false := completedPieces_lastBlockMissing hn (by omega)
  rw [requestSlotChecked, hget]
  dsimp only
  rw [requestSlot_lastBlockMissing hn hblocks hbpp (by omega), if_pos hslot]

/-- The end of the last block is computed. -/
theorem requestSlotChecked_of_missing (hn : 0 < n)
    (hblocks : blocks = divCeil (concretePieceLength n pl tl 0) blockSize)
    (hbpp : blocks ≤ divCeil pl blockSize) (hpos : 0 < blocks)
    (hmax : usizeMax < blocks * blockSize) :
    (lastBlockMissing p n blocks).requestSlotChecked p pl tl clock (List.replicate n true)
      (blocks - 1) = .panic := by
  have hget : (lastBlockMissing p n blocks).completedPieces[(blocks - 1) / divCeil pl blockSize]? =
      some false := completedPieces_lastBlockMissing hn (by omega)
  have hend : (blocks - 1) * blockSize + blockSize = blocks * blockSize := by
    rw [← Nat.succ_mul, Nat.succ_eq_add_one, Nat.sub_add_cancel hpos]
  rw [requestSlotChecked, hget]
  dsimp only
  rw [requestSlot_lastBlockMissing hn hblocks hbpp (by omega), if_neg (by omega)]
  refine if_pos ?_
  change usizeMax < (blocks - 1) * blockSize + blockSize
  rw [hend]
  exact hmax

/-- **The end of the last block of the first piece is computed**, and may not be a number. -/
theorem requestsForPeerChecked_lastBlockMissing (hn : 0 < n) (hpl : 0 < pl) (hle : pl ≤ usizeMax)
    (hblocks : blocks = divCeil (concretePieceLength n pl tl 0) blockSize)
    (hmax : usizeMax < blocks * blockSize) :
    (lastBlockMissing p n blocks).requestsForPeerChecked p pl tl clock 1 = .panic := by
  have hlen : concretePieceLength n pl tl 0 ≤ pl := by
    rw [concretePieceLength]
    split
    · exact lastPieceLength_le hpl
    · exact le_rfl
  have hbpp : blocks ≤ divCeil pl blockSize := hblocks ▸ divCeil_le_divCeil blockSize hlen
  have hpos : 0 < blocks := by
    rcases Nat.eq_zero_or_pos blocks with hzero | hpos
    · rw [hzero, Nat.zero_mul] at hmax
      omega
    · exact hpos
  have htotal := blocks_le_totalSlots hn hle hblocks hbpp
  -- the scan passes over the blocks that have been received and comes to the last one
  have hslots : List.range' 0 (totalSlots pl tl n) =
      List.range' 0 (blocks - 1) ++
        (blocks - 1) :: List.range' (blocks - 1 + 1) (totalSlots pl tl n - blocks) := by
    have happend := List.range'_append_1 (s := 0) (m := blocks - 1)
      (n := totalSlots pl tl n - blocks + 1)
    rw [Nat.zero_add] at happend
    rw [← List.range'_succ, happend]
    congr 1
    omega
  have hskip : ∀ slot ∈ List.range' 0 (blocks - 1),
      (lastBlockMissing p n blocks).requestSlotChecked p pl tl clock (List.replicate n true) slot =
        .ok none := by
    intro slot hmem
    refine requestSlotChecked_of_received hn hblocks hbpp ?_
    simpa using (List.mem_range'_1.1 hmem).2
  have hlast : (lastBlockMissing p n blocks).requestSlotChecked p pl tl clock (List.replicate n true)
      (blocks - 1) = .panic := requestSlotChecked_of_missing hn hblocks hbpp hpos hmax
  have havailable : (lastBlockMissing p n blocks).peerAvailability.get? p =
      some (List.replicate n true) := HashMap.get?_insert_self _ _ _
  have hcount : (lastBlockMissing p n blocks).completedPieces.length = n := List.length_replicate
  have hfirst : (lastBlockMissing p n blocks).firstSlot pl = 0 := by
    rw [firstSlot, saturatingMul]
    exact (congrArg (min · usizeMax) (Nat.zero_mul _)).trans (Nat.zero_min _)
  have hcursor : (lastBlockMissing p n blocks).requestCursors.get? p = none := rfl
  rw [requestsForPeerChecked, havailable]
  dsimp only
  rw [hcount, hfirst, hcursor, if_neg (by omega), checkedRem, if_neg hpl.ne', Outcome.ok_bind,
    if_neg (show ¬ (lastBlockMissing p n blocks).nextPiece = n from hn.ne),
    if_neg (Nat.not_lt_zero _), Outcome.ok_bind, Option.getD_none, Nat.zero_min, Nat.max_self,
    Nat.sub_zero, Nat.sub_zero, List.range'_zero, List.append_nil, hslots,
    requestSlotsChecked_append hskip, requestSlotsChecked, hlast, Outcome.panic_bind]

end Last

end PieceScheduler

/-! ### The running sum of the lengths -/

theorem relativePath_ne_panic (name : Text) (path : Path) : relativePath name path ≠ .panic := by
  have hpush : ∀ (start : Path) (c : Text), pushTorrentPathSegment start c ≠ .panic := by
    intro start c
    unfold pushTorrentPathSegment
    split
    · exact nofun
    · exact nofun
  have hfold : ∀ start : Path,
      (path.foldlM pushTorrentPathSegment start : Outcome String Path) ≠ .panic := by
    induction path with
    | nil => exact fun _ => nofun
    | cons c path ih =>
        intro start h
        rw [List.foldlM_cons] at h
        rcases Outcome.bind_eq_panic.1 h with h | ⟨next, -, h⟩
        · exact hpush start c h
        · exact ih next h
  rw [relativePath]
  split
  · exact hfold []
  · intro h
    rcases Outcome.bind_eq_panic.1 h with h | ⟨start, -, h⟩
    · exact hpush _ _ h
    · exact hfold start h

/-- The lengths of files in front of a file. -/
def lengthBefore (files : List InfoFile) (k : ℕ) : ℕ :=
  ((files.map fun file => file.length.toNat).take k).sum

theorem lengthBefore_succ (file : InfoFile) (files : List InfoFile) (k : ℕ) :
    lengthBefore (file :: files) (k + 1) = file.length.toNat + lengthBefore files k := by
  simp [lengthBefore]

/-- The walk comes to a file at which the running sum passes the largest number: it begins before
the piece ends, and the names of the files that the walk takes something from are safe. -/
def Passes (name : Text) (start stop acc : ℕ) (files : List InfoFile) (k : ℕ) : Prop :=
  ∃ file, files[k]? = some file ∧
    usizeMax < acc + lengthBefore files k + file.length.toNat ∧ acc + lengthBefore files k < stop ∧
    ∀ j < k, ∀ f, files[j]? = some f → start < acc + lengthBefore files (j + 1) →
      ∀ c ∈ outputPath name f.path, isSafeSegment c = true

/-- The files behind the first one. -/
theorem passes_succ_iff {name : Text} {start stop acc : ℕ} {file : InfoFile} {files : List InfoFile}
    {k : ℕ} :
    Passes name start stop acc (file :: files) (k + 1) ↔
      (start < acc + file.length.toNat →
        ∀ c ∈ outputPath name file.path, isSafeSegment c = true) ∧
      Passes name start stop (acc + file.length.toNat) files k := by
  have hfirst : lengthBefore (file :: files) 1 = file.length.toNat := by
    simp [lengthBefore]
  constructor
  · rintro ⟨g, hget, hmax, hstop, hsafe⟩
    rw [lengthBefore_succ, ← Nat.add_assoc] at hmax hstop
    refine ⟨fun h => hsafe 0 (Nat.succ_pos k) file rfl (by rw [hfirst]; exact h),
      g, hget, hmax, hstop, ?_⟩
    intro j hj f hf hstart
    refine hsafe (j + 1) (by omega) f hf ?_
    rw [lengthBefore_succ, ← Nat.add_assoc]
    exact hstart
  · rintro ⟨hhead, g, hget, hmax, hstop, hsafe⟩
    refine ⟨g, hget, ?_, ?_, ?_⟩
    · rw [lengthBefore_succ, ← Nat.add_assoc]
      exact hmax
    · rw [lengthBefore_succ, ← Nat.add_assoc]
      exact hstop
    · intro j hj f hf hstart
      cases j with
      | zero =>
          cases hf
          rw [hfirst] at hstart
          exact hhead hstart
      | succ j =>
          rw [lengthBefore_succ, ← Nat.add_assoc] at hstart
          exact hsafe j (by omega) f hf hstart

/-- The first file. -/
theorem passes_zero_iff {name : Text} {start stop acc : ℕ} {file : InfoFile} {files : List InfoFile}
    (hbefore : acc < stop) :
    Passes name start stop acc (file :: files) 0 ↔ usizeMax < acc + file.length.toNat := by
  constructor
  · rintro ⟨g, hget, hmax, -⟩
    cases hget
    exact hmax
  · intro hmax
    exact ⟨file, rfl, hmax, hbefore, fun j hj => absurd hj (Nat.not_lt_zero j)⟩

/-- When the sum does not pass at the first file, it does at one behind it. -/
theorem exists_passes_cons_iff {name : Text} {start stop acc : ℕ} {file : InfoFile}
    {files : List InfoFile} (hbefore : acc < stop) (hmax : ¬ usizeMax < acc + file.length.toNat) :
    (∃ k, Passes name start stop acc (file :: files) k) ↔
      ∃ k, (start < acc + file.length.toNat →
        ∀ c ∈ outputPath name file.path, isSafeSegment c = true) ∧
        Passes name start stop (acc + file.length.toNat) files k := by
  constructor
  · rintro ⟨k, hk⟩
    cases k with
    | zero => exact absurd ((passes_zero_iff hbefore).1 hk) hmax
    | succ k => exact ⟨k, passes_succ_iff.1 hk⟩
  · rintro ⟨k, hk⟩
    exact ⟨k + 1, passes_succ_iff.2 hk⟩

/-- **When the walk over the files fails.** -/
theorem fileSegments_eq_panic {name : Text} {start : ℕ} {files : List InfoFile} {remaining acc : ℕ}
    (hpos : 0 < remaining) :
    fileSegments name start files remaining acc = .panic ↔
      ∃ k, Passes name start (max start acc + remaining) acc files k := by
  induction files generalizing remaining acc with
  | nil =>
      refine iff_of_false (by simp [fileSegments]) ?_
      rintro ⟨k, file, hget, -⟩
      simp at hget
  | cons file files ih =>
      have hbefore : acc < max start acc + remaining := by omega
      rw [fileSegments]
      by_cases hmax : usizeMax < acc + file.length.toNat
      · rw [if_pos hmax]
        exact iff_of_true rfl ⟨0, (passes_zero_iff hbefore).2 hmax⟩
      · rw [if_neg hmax, exists_passes_cons_iff hbefore hmax]
        split
        · rename_i hskip
          have hstop : max start acc = max start (acc + file.length.toNat) := by
            omega
          rw [ih hpos, hstop]
          refine exists_congr fun k => ?_
          exact (and_iff_right fun h => absurd hskip (Nat.not_le.2 h)).symm
        · rename_i htake
          have hvisited : start < acc + file.length.toNat := Nat.lt_of_not_le htake
          cases hpath : relativePath name file.path with
          | panic => exact absurd hpath (relativePath_ne_panic _ _)
          | err e =>
              rw [Outcome.err_bind]
              refine iff_of_false (by simp) ?_
              rintro ⟨k, hsafe, -⟩
              have hok := relativePath_eq_ok.2 ⟨rfl, hsafe hvisited⟩
              rw [hpath] at hok
              cases hok
          | ok path =>
              have hsafe : start < acc + file.length.toNat →
                  ∀ c ∈ outputPath name file.path, isSafeSegment c = true :=
                fun _ => (relativePath_eq_ok.1 hpath).2
              rw [Outcome.ok_bind]
              dsimp only
              split
              · -- the piece ends in this file, and no later one is looked at
                refine iff_of_false (by simp) ?_
                rintro ⟨k, -, g, -, -, hstop, -⟩
                omega
              · rename_i hmore
                have hstop : max start acc + remaining =
                    max start (acc + file.length.toNat) +
                      (remaining - min remaining (file.length.toNat - (start - acc))) := by
                  omega
                rw [Outcome.bind_eq_panic, ih (by omega), ← hstop]
                simp only [reduceCtorEq, and_false, exists_false, or_false]
                exact exists_congr fun k => (and_iff_right hsafe).symm

/-- A piece meets the file at which the running sum of the lengths passes the largest number. -/
def Info.PassesMax (info : Info H) (index k : ℕ) : Prop :=
  Passes info.name (index * info.pieceLength.toNat) ((index + 1) * info.pieceLength.toNat) 0
    info.files k

/-- If the running sum passes the largest number, so does the sum. -/
theorem Passes.lt_sum {name : Text} {start stop : ℕ} {files : List InfoFile} {k : ℕ}
    (h : Passes name start stop 0 files k) :
    usizeMax < (files.map fun file => file.length.toNat).sum := by
  obtain ⟨file, hget, hmax, -⟩ := h
  have hlen : (files.map fun file => file.length.toNat)[k]? = some file.length.toNat := by
    rw [List.getElem?_map, hget]
    rfl
  have hsum := List.sum_take_add_sum_drop (files.map fun file => file.length.toNat) (k + 1)
  rw [List.take_add_one, hlen, Option.toList_some, List.sum_append, List.sum_singleton] at hsum
  rw [lengthBefore, Nat.zero_add] at hmax
  omega

/-- When finding segments fails. -/
theorem segmentsFrom_eq_panic {info : Info H} {start remaining : ℕ} (hpos : 0 < remaining) :
    info.segmentsFrom start remaining = .panic ↔
      ∃ k, Passes info.name start (start + remaining) 0 info.files k := by
  rw [Info.segmentsFrom, Info.files]
  cases info.file with
  | single length md5sum =>
      have hpath : pushTorrentPathSegment [] info.name ≠ .panic := by
        rw [pushTorrentPathSegment]
        split
        · intro h
          cases h
        · intro h
          cases h
      refine iff_of_false ?_ ?_
      · dsimp only
        split
        · intro h
          rcases Outcome.bind_eq_panic.1 h with h | ⟨path, -, h⟩
          · exact hpath h
          · cases h
        · intro h
          cases h
      · rintro ⟨k, file, hget, -⟩
        simp at hget
  | multi files =>
      dsimp only
      rw [fileSegments_eq_panic hpos, Nat.max_zero]

/-- **When laying a piece out fails.** -/
theorem pieceToPaths_eq_panic {info : Info H} (hpos : 0 < info.pieceLength.toNat) {index : ℕ} :
    pieceToPaths (some info) index = .panic ↔
      (index + 1) * info.pieceLength.toNat ≤ usizeMax ∧ ∃ k, info.PassesMax index k := by
  have hindex : index + 1 ≤ (index + 1) * info.pieceLength.toNat :=
    Nat.le_mul_of_pos_right _ hpos
  have hstart : index * info.pieceLength.toNat < (index + 1) * info.pieceLength.toNat := by
    rw [Nat.succ_mul]
    omega
  -- where the sum passes the largest number, the total length is that number
  have htotal : ∀ {start stop k : ℕ}, Passes info.name start stop 0 info.files k →
      info.totalLength = usizeMax := by
    intro start stop k hk
    have hsum := hk.lt_sum
    rw [Info.files] at hsum
    cases hfile : info.file with
    | single length md5sum => simp [hfile] at hsum
    | multi files =>
        simp only [hfile] at hsum
        rw [Info.totalLength, hfile]
        dsimp only
        rw [foldl_saturatingAdd _ (Nat.zero_le _)]
        omega
  rw [pieceToPaths_eq]
  split
  · refine iff_of_false ?_ ?_
    · intro h
      cases h
    · rintro ⟨hle, -⟩
      omega
  · rename_i hle
    rw [and_iff_right (by omega)]
    split
    · rename_i hbeyond
      refine iff_of_false ?_ ?_
      · intro h
        cases h
      · rintro ⟨k, hk⟩
        rw [htotal hk] at hbeyond
        omega
    · rename_i hbefore
      have hlast : ∀ found : List (Segment Path) × ℕ,
          (if found.2 = 0 then Outcome.ok found.1
            else .err s!"piece index {index} exceeds file lengths") ≠ .panic := by
        intro found
        split
        · intro h
          cases h
        · intro h
          cases h
      rw [Outcome.bind_eq_panic, segmentsFrom_eq_panic (by omega), or_iff_left]
      · refine exists_congr fun k => ?_
        constructor
        · intro hk
          have hstop := htotal hk
          rw [Nat.min_eq_left (by omega), Nat.add_sub_cancel' (by omega)] at hk
          exact hk
        · intro hk
          have hstop := htotal hk
          rw [Nat.min_eq_left (by omega), Nat.add_sub_cancel' (by omega)]
          exact hk
      · rintro ⟨found, -, h⟩
        exact hlast found h

/-! ### All functions together -/

/-- The checks on an incoming block do not fail when pieces have a length. -/
theorem checkIncoming_eq {info : Info H} (hpos : 0 < info.pieceLength.toNat)
    (index offset length : ℕ) :
    checkIncoming info index offset length =
      .ok (TorrentActor.checkBlock info index offset length) := by
  rw [checkIncoming, TorrentActor.checkBlock, concreteLength_eq hpos, Outcome.ok_bind,
    Info.pieceLen]
  simp only [apply_ite Outcome.ok]

theorem servable_ne_panic {info : Info H} (hpos : 0 < info.pieceLength.toNat)
    (index offset length : ℕ) : servable info index offset length ≠ .panic := by
  rw [servable, concreteLength_eq hpos, Outcome.ok_bind]
  simp only [← apply_ite Outcome.ok]
  intro h
  cases h

/-- The loop over the block map finds every bit it looks up. -/
theorem validateBlocksChecked_ne_panic {info : Option (Info H)} {bitfield : List Bool}
    {pieceCount : ℕ} (hlen : bitfield.length = pieceCount) (entries : List PieceBlockSnapshot)
    (seen : List ℕ) : validateBlocksChecked info bitfield pieceCount entries seen ≠ .panic := by
  induction entries generalizing seen with
  | nil => exact nofun
  | cons entry entries ih =>
      rw [validateBlocksChecked.eq_def]
      dsimp only
      split
      · exact nofun
      · split
        · exact nofun
        · rename_i hrange
          rw [List.getElem?_eq_getElem (by omega)]
          cases bitfield[entry.pieceIndex] with
          | true => exact nofun
          | false =>
              cases info with
              | none => exact nofun
              | some dict =>
                  dsimp only
                  cases snapshotPieceLength dict entry.pieceIndex with
                  | error reason => exact nofun
                  | ok length =>
                      dsimp only
                      split
                      · exact nofun
                      · exact ih (entry.pieceIndex :: seen)

/-- A scheduler has as many pieces as the metadata, or none, and its cursor is one of them or the
end. -/
structure SchedulerFits (pieceCount : ℕ) (p : PieceScheduler) : Prop where
  pieces : p.completedPieces.length = pieceCount ∨ p.completedPieces = []
  next : p.nextPiece ≤ p.completedPieces.length

/-- **No function of the torrent that computes with the metadata fails.** -/
structure ArithmeticSafe [DecidableEq H] (c : Codec H) (info : Info H) : Prop where
  progress : ∀ s : TorrentActor H, (torrentSystem c).Reach (fun _ _ => True) s →
    s.infoDict = some info →
    s.totalBytesDownloaded ≠ .panic ∧ s.trackerAnnounceProgress ≠ .panic
  served : ∀ s : TorrentActor H, (torrentSystem c).Reach (fun _ _ => True) s →
    s.infoDict = some info →
    ∀ index offset length, s.requestPiece c index offset length ≠ .panic
  incoming : ∀ index offset length, checkIncoming info index offset length ≠ .panic
  requests : ∀ p, SchedulerFits info.pieceCount p → ∀ peer clock limit,
    p.requestsForPeerChecked peer info.pieceLength.toNat info.totalLength clock limit ≠ .panic
  paths : ∀ index, pieceToPaths (some info) index ≠ .panic
  validated : ∀ bitfield : List Bool, bitfield.length = info.pieceCount → ∀ entries,
    validateBlocksChecked (some info) bitfield info.pieceCount entries [] ≠ .panic

section Safe

variable [DecidableEq H] {c : Codec H} {info : Info H} {s : TorrentActor H}

/-- In every run the scheduler and the bitfield fit the metadata. -/
theorem schedulerFits_of_reach (h : (torrentSystem c).Reach (fun _ _ => True) s)
    (hdict : s.infoDict = some info) :
    SchedulerFits info.pieceCount s.pieceScheduler ∧ s.bitfield.length = info.pieceCount := by
  have hbits := TorrentActor.bitsInv_of_reach h
  have hfits := hbits.fits
  rw [TorrentActor.BitfieldFits, TorrentActor.pieceCount, hdict] at hfits
  refine ⟨?_, hfits⟩
  rcases hbits.scheduler with hagree | hunset
  · refine ⟨.inl ?_, ?_⟩
    · rw [hagree.bits]
      exact hfits
    · rw [hagree.bits]
      exact hagree.next.le
  · exact ⟨.inr hunset.bits, by rw [hunset.next]; exact Nat.zero_le _⟩

/-- A torrent may start from any metadata. -/
theorem exists_reach (c : Codec H) (info : Info H) :
    ∃ s, (torrentSystem c).Reach (fun _ _ => True) s ∧ s.infoDict = some info :=
  ⟨_, .init ⟨⟨.torrent info, .inFile, none, none, none, Sample.settings⟩, fun _ => none, rfl⟩, rfl⟩

omit [DecidableEq H] in
/-- Without a length of pieces the progress cannot be computed. -/
theorem totalBytesDownloaded_of_zero (hdict : s.infoDict = some info)
    (hzero : info.pieceLength.toNat = 0) : s.totalBytesDownloaded = .panic := by
  rw [TorrentActor.totalBytesDownloaded, hdict]
  dsimp only
  rw [checkedRem, if_pos hzero, Outcome.panic_bind]

/-- **For which metadata no arithmetic fails**: pieces have a length, every block of a piece taken
at full size ends at a number, and no piece meets the file at which the running sum of the lengths
passes the largest number.  The schedulers and bitfields of all runs are among those considered. -/
theorem arithmetic_safe_iff (c : Codec H) (info : Info H) :
    (ArithmeticSafe c info ↔
      0 < info.pieceLength.toNat ∧
      PieceScheduler.BlocksEnd info.pieceLength.toNat info.totalLength info.pieceCount ∧
      ∀ index k, (index + 1) * info.pieceLength.toNat ≤ usizeMax → ¬ info.PassesMax index k) ∧
    ∀ s : TorrentActor H, (torrentSystem c).Reach (fun _ _ => True) s → s.infoDict = some info →
      SchedulerFits info.pieceCount s.pieceScheduler ∧ s.bitfield.length = info.pieceCount := by
  refine ⟨⟨?_, ?_⟩, fun s hs hdict => schedulerFits_of_reach hs hdict⟩
  · intro hsafe
    have hpos : 0 < info.pieceLength.toNat := by
      rcases Nat.eq_zero_or_pos info.pieceLength.toNat with hzero | hpos
      · obtain ⟨s, hs, hdict⟩ := exists_reach c info
        exact absurd (totalBytesDownloaded_of_zero hdict hzero) (hsafe.progress s hs hdict).1
      · exact hpos
    refine ⟨hpos, ?_, ?_⟩
    · intro i hi
      by_contra hmax
      have hfirst : divCeil (concretePieceLength info.pieceCount info.pieceLength.toNat
            info.totalLength i) blockSize ≤
          divCeil (concretePieceLength info.pieceCount info.pieceLength.toNat
            info.totalLength 0) blockSize :=
        divCeil_le_divCeil blockSize (PieceScheduler.concretePieceLength_le_first hpos hi)
      have hmul := Nat.mul_le_mul_right blockSize hfirst
      refine hsafe.requests _ ⟨.inl List.length_replicate, Nat.zero_le _⟩ Sample.peer (fun _ => 0) 1
        (PieceScheduler.requestsForPeerChecked_lastBlockMissing (n := info.pieceCount) (by omega)
          hpos (Nat.le_of_lt_succ info.pieceLength.toNat_lt) rfl (by omega))
    · intro index k hle hk
      exact hsafe.paths index ((pieceToPaths_eq_panic hpos).2 ⟨hle, k, hk⟩)
  · rintro ⟨hpos, hend, hpasses⟩
    have hdownloaded : ∀ s : TorrentActor H, s.infoDict = some info →
        s.totalBytesDownloaded ≠ .panic := by
      intro s hdict
      rw [TorrentActor.totalBytesDownloaded_eq hdict hpos]
      exact nofun
    refine ⟨?_, ?_, ?_, ?_, ?_, ?_⟩
    · intro s _ hdict
      refine ⟨hdownloaded s hdict, ?_⟩
      rw [TorrentActor.trackerAnnounceProgress, hdict]
      dsimp only
      rw [TorrentActor.totalBytesDownloaded_eq hdict hpos]
      exact nofun
    · intro s _ hdict index offset length
      rw [TorrentActor.requestPiece, hdict]
      intro h
      rcases Outcome.bind_eq_panic.1 h with h | ⟨served, -, h⟩
      · exact servable_ne_panic hpos _ _ _ h
      · split at h
        · cases h
        · cases h
    · intro index offset length
      rw [checkIncoming_eq hpos]
      exact nofun
    · intro p hfits peer clock limit
      have hblocks : PieceScheduler.BlocksEnd info.pieceLength.toNat info.totalLength
          p.completedPieces.length := by
        rcases hfits.pieces with hlen | hnil
        · rw [hlen]
          exact hend
        · rw [hnil]
          exact fun i hi => absurd hi (Nat.not_lt_zero i)
      rw [PieceScheduler.requestsForPeerChecked_eq hblocks hfits.next]
      exact nofun
    · intro index h
      obtain ⟨hle, k, hk⟩ := (pieceToPaths_eq_panic hpos).1 h
      exact hpasses index k hle hk
    · intro bitfield hlen entries
      exact validateBlocksChecked_ne_panic hlen entries []

end Safe

namespace Sample

/-- Metadata with pieces of no length. -/
def weightless : Info Bytes := { info with pieceLength := 0 }

end Sample

/-- **A torrent with pieces of no length cannot tell its progress.** -/
theorem zero_piece_length_panics :
    (torrentSystem Sample.codec).Reach (fun _ _ => True)
      (Sample.fromInfo Sample.weightless .inFile) ∧
    (Sample.fromInfo Sample.weightless .inFile).totalBytesDownloaded = .panic ∧
    ¬ ArithmeticSafe Sample.codec Sample.weightless := by
  have hreach : (torrentSystem Sample.codec).Reach (fun _ _ => True)
      (Sample.fromInfo Sample.weightless .inFile) := .init (Sample.init_fromInfo _ _)
  have hpanic : (Sample.fromInfo Sample.weightless .inFile).totalBytesDownloaded = .panic :=
    totalBytesDownloaded_of_zero rfl rfl
  exact ⟨hreach, hpanic, fun hsafe => (hsafe.progress _ hreach rfl).1 hpanic⟩

end Tortillas
