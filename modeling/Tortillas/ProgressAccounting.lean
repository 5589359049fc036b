/-
**How the progress changes.**

Between two messages the count of downloaded bytes changes with one piece only.  A block of an incomplete piece
that is taken adds its length, whether it leaves the piece open or completes it, because the bit then stands for
the row.  If the completed piece cannot be validated or committed, its row is gone and all of the piece is taken
off.  Everything else leaves the count as it is, except that a snapshot brings its own bits and rows.

The length of the block that is counted is that of the block's number.  It is the length of what has come in if
the offset is that of a block, and peer actors forward only such blocks.

Main definitions:

* `TorrentActor.Takes` — a block of an incomplete piece that passes the checks and is written;
* `TorrentActor.Counts` — what becomes of the count in a round;
* `Swarm.roundInput` — what the torrent handles in a step of the swarm.

Main results:

* `TorrentActor.downloadedBytes_taken` — **what a block that is taken does to the count**;
* `TorrentActor.downloadedBytes_untaken` — other blocks leave it;
* `progress_exact` — **the count is right in every state, and changes only by blocks**;
* `restored_progress` — a snapshot that brings bytes along.
-/

import Tortillas.ReceivedBytes
import Tortillas.FailedPieces
import Tortillas.PieceCoverage

set_option relaxedAutoImplicit false
set_option autoImplicit false

namespace Tortillas

variable {H : Type}

namespace TorrentActor

variable {s t : TorrentActor H} {info : Info H}

/-! ### One piece changes -/

theorem receivedBytes_congr {i : ℕ} (hbit : t.bitfield.getD i false = s.bitfield.getD i false)
    (hrow : t.pieceScheduler.completedBlocks.get? i = s.pieceScheduler.completedBlocks.get? i) :
    t.receivedBytes info i = s.receivedBytes info i := by
  rw [receivedBytes, receivedBytes, hbit, hrow]

theorem SameBits.downloadedBytes (h : SameBits s t) : t.downloadedBytes info = s.downloadedBytes info := by
  refine Finset.sum_congr rfl fun i _ => receivedBytes_congr ?_ ?_
  · rw [h.bitfield]
  · rw [h.completedBlocks]

/-- The count changes with the piece. -/
theorem SameElsewhere.downloadedBytes {index : ℕ} (h : SameElsewhere index s t)
    (hindex : index < info.pieceCount) :
    t.downloadedBytes info + s.receivedBytes info index = s.downloadedBytes info + t.receivedBytes info index :=
  sum_add_of_eq hindex fun i hi => receivedBytes_congr (h.bits i hi) (h.rows i hi)

/-! ### A block -/

variable (c : Codec H)

/-- A block of an incomplete piece that passes the checks and is written. -/
structure Takes (s : TorrentActor H) (index offset : ℕ) (block : Bytes) (env : BlockEnv) (info : Info H)
    (n : ℕ) : Prop where
  accepts : s.Accepts index offset block.length info n
  written : (s.writeBlockToStorage c index offset block env.write).2 = true
  incomplete : s.bitfield.getD index false = false

variable {c} {index offset n : ℕ} {block : Bytes} {env : BlockEnv}

/-- The number of the block is one of those of its piece. -/
theorem Accepts.block_lt (h : s.Accepts index offset block.length info n) : offset / blockSize < n := by
  obtain ⟨-, hoffset, -, -, hn⟩ := checkBlock_eq_some.1 h.check
  rw [hn, lt_divCeil_iff blockSize_pos]
  exact lt_of_le_of_lt (Nat.div_mul_le_self offset blockSize) hoffset

/-- A block that begins at the offset of a block has that block's length. -/
theorem Accepts.length_eq (h : s.Accepts index offset block.length info n) (haligned : blockSize ∣ offset) :
    block.length = min (info.pieceLen index - offset / blockSize * blockSize) blockSize := by
  obtain ⟨-, -, -, hlength, -⟩ := checkBlock_eq_some.1 h.check
  rw [Nat.div_mul_cancel haligned]
  exact hlength

/-- The row of the piece after the block has been recorded has as many bits as the piece has blocks. -/
theorem Accepts.length_rowWith (h : s.Accepts index offset block.length info n)
    (hsized : ∀ row, s.pieceScheduler.completedBlocks.get? index = some row →
      row.length = divCeil (info.pieceLen index) blockSize) :
    (s.rowWith index offset n).length = divCeil (info.pieceLen index) blockSize := by
  obtain ⟨-, -, -, -, hn⟩ := checkBlock_eq_some.1 h.check
  rw [rowWith, List.length_set]
  cases hrow : s.pieceScheduler.completedBlocks.get? index with
  | none =>
      rw [Option.getD_none, List.length_replicate]
      exact hn
  | some row => exact hsized row hrow

/-- **The row has the bytes that were there, and those of the block.** -/
theorem Accepts.blocksLength_rowWith (h : s.Accepts index offset block.length info n)
    (haligned : blockSize ∣ offset) (hbit : s.bitfield.getD index false = false)
    (hsized : ∀ row, s.pieceScheduler.completedBlocks.get? index = some row →
      row.length = divCeil (info.pieceLen index) blockSize) :
    blocksLength (info.pieceLen index) 0 (s.rowWith index offset n) =
      s.receivedBytes info index + block.length := by
  have hlt := h.block_lt
  obtain ⟨-, -, -, -, hn⟩ := checkBlock_eq_some.1 h.check
  have hfresh := h.fresh
  rw [h.length_eq haligned, rowWith]
  cases hrow : s.pieceScheduler.completedBlocks.get? index with
  | none =>
      have hlen : offset / blockSize < (List.replicate n false).length := by rwa [List.length_replicate]
      have hset := blocksLength_set (info.pieceLen index) 0 hlen (by simp)
      rw [Option.getD_none, hset, blocksLength_replicate, receivedBytes_of_noRow hbit hrow, 
        Nat.zero_add (offset / blockSize)]
  | some row =>
      have hclear : row.getD (offset / blockSize) false = false :=
        (isDuplicateBlock_of_get? hrow (offset / blockSize)).symm.trans hfresh
      have hlen : offset / blockSize < row.length := by
        rw [hsized row hrow, ← hn]
        exact hlt
      have hset := blocksLength_set (info.pieceLen index) 0 hlen hclear
      rw [Option.getD_some, hset, receivedBytes_of_row hbit hrow, Nat.zero_add (offset / blockSize)]

/-- A row that is full has all of its piece. -/
theorem blocksLength_of_all {size : ℕ} {row : List Bool} (hlen : row.length = divCeil size blockSize)
    (hall : row.all id = true) : blocksLength size 0 row = size := by
  have hiff := blocksLength_eq_iff size 0 row
  rw [Nat.zero_mul, Nat.sub_zero] at hiff
  refine hiff.2 fun k hk => RowTracked.bit_of_all hall ?_
  rw [Nat.zero_add] at hk
  rw [hlen, lt_divCeil_iff blockSize_pos]
  exact hk

/-! ### The count after a block -/

section Blocks

variable [DecidableEq H] {p : PeerId}

/-- **What a block that is taken does to the count**: its length is added, unless its piece fails, which takes off
all of the piece. -/
theorem downloadedBytes_taken (hfits : s.bitfield.length = info.pieceCount)
    (htakes : s.Takes c index offset block env info n) (haligned : blockSize ∣ offset)
    (hsized : ∀ row, s.pieceScheduler.completedBlocks.get? index = some row →
      row.length = divCeil (info.pieceLen index) blockSize) :
    (s.FailsPiece c p index offset block env info n →
      (s.handleIncomingPiece c p index offset block env).downloadedBytes info + info.pieceLen index =
        s.downloadedBytes info + block.length) ∧
    (¬s.FailsPiece c p index offset block env info n →
      (s.handleIncomingPiece c p index offset block env).downloadedBytes info =
        s.downloadedBytes info + block.length) := by
  obtain ⟨hindex, -⟩ := checkBlock_eq_some.1 htakes.accepts.check
  have hrow := htakes.accepts.blocksLength_rowWith haligned htakes.incomplete hsized
  have hlen := htakes.accepts.length_rowWith hsized
  cases blockLeaves c s p index offset block env with
  | nothing hsame hno => cases (hno info n htakes.accepts).symm.trans htakes.written
  | @part info' n' ha hw helse hbits hrow' _ hgoes =>
      obtain ⟨rfl, rfl⟩ := htakes.accepts.unique ha
      have hbit := congrArg (·.getD index false) hbits
      refine ⟨fun hfails => absurd hfails hgoes, fun _ => ?_⟩
      have hsum := helse.downloadedBytes hindex
      rw [receivedBytes_of_row (hbit.trans htakes.incomplete) hrow', hrow] at hsum
      omega
  | @failed info' n' hfails helse hbits hrow' =>
      obtain ⟨rfl, rfl⟩ := htakes.accepts.unique hfails.accepts
      have hbit := congrArg (·.getD index false) hbits
      refine ⟨fun _ => ?_, fun hgoes => absurd hfails hgoes⟩
      have hsum := helse.downloadedBytes hindex
      have hfull := isPieceComplete_recordBlock.symm.trans
        (isPieceComplete_writtenAndRecorded.symm.trans hfails.completes)
      rw [blocksLength_of_all hlen hfull] at hrow
      rw [receivedBytes_of_noRow (hbit.trans htakes.incomplete) hrow'] at hsum
      omega
  | @complete info' n' ha hw helse hbit hfull hgoes =>
      obtain ⟨rfl, rfl⟩ := htakes.accepts.unique ha
      refine ⟨fun hfails => absurd hfails hgoes, fun _ => ?_⟩
      have hsum := helse.downloadedBytes hindex
      have hset : (s.handleIncomingPiece c p index offset block env).bitfield.getD index false = true := by
        rw [hbit, List.getD_eq_getElem?_getD, List.getElem?_set_self (by omega)]
        rfl
      rw [blocksLength_of_all hlen hfull] at hrow
      rw [receivedBytes_of_complete hset] at hsum
      omega

/-- **Other blocks leave the count.** -/
theorem downloadedBytes_untaken (hdict : s.infoDict = some info)
    (hno : ∀ n, ¬s.Takes c index offset block env info n) :
    (s.handleIncomingPiece c p index offset block env).downloadedBytes info = s.downloadedBytes info := by
  -- a block that is recorded all the same is one of a complete piece, which stays complete
  have hcomplete : ∀ {dict n t}, s.Accepts index offset block.length dict n →
      (s.writeBlockToStorage c index offset block env.write).2 = true → SameElsewhere index s t →
      (s.bitfield.getD index false = true → t.bitfield.getD index false = true) →
      t.downloadedBytes info = s.downloadedBytes info := by
    intro dict n t ha hw helse hkeeps
    cases hdict.symm.trans ha.info
    obtain ⟨hindex, -⟩ := checkBlock_eq_some.1 ha.check
    have hbit : s.bitfield.getD index false = true := by
      by_contra hclear
      exact hno n ⟨ha, hw, Bool.eq_false_of_not_eq_true hclear⟩
    have hsum := helse.downloadedBytes hindex
    rw [receivedBytes_of_complete hbit, receivedBytes_of_complete (hkeeps hbit)] at hsum
    omega
  cases blockLeaves c s p index offset block env with
  | nothing hsame _ => exact hsame.downloadedBytes
  | part ha hw helse hbits _ _ _ => exact hcomplete ha hw helse (congrArg (·.getD index false) hbits).trans
  | failed hfails helse hbits _ =>
      exact hcomplete hfails.accepts hfails.written helse (congrArg (·.getD index false) hbits).trans
  | complete ha hw helse hbit _ _ =>
      refine hcomplete ha hw helse fun hold => ?_
      have hlt : index < s.bitfield.length := by
        by_contra hge
        rw [List.getD_eq_default _ _ (Nat.le_of_not_lt hge)] at hold
        cases hold
      rw [hbit, List.getD_eq_getElem?_getD, List.getElem?_set_self hlt]
      rfl

/-! ### Rounds -/

variable (c) in
/-- **What becomes of the count in a round**: a block that is taken adds its length; if its piece fails, all of the
piece is taken off; and nothing else changes it. -/
inductive Counts (s : TorrentActor H) (info : Info H) (i : Input c) (before after : ℕ) : Prop
  | taken {p : PeerId} {index offset n : ℕ} {block : Bytes} {env : BlockEnv}
      (hmessage : i.message = .incomingPiece p index offset block env)
      (htakes : (s.next i.check).Takes c index offset block env info n)
      (hgoes : ¬(s.next i.check).FailsPiece c p index offset block env info n)
      (hafter : after = before + block.length)
  | failed {p : PeerId} {index offset n : ℕ} {block : Bytes} {env : BlockEnv}
      (hmessage : i.message = .incomingPiece p index offset block env)
      (htakes : (s.next i.check).Takes c index offset block env info n)
      (hfails : (s.next i.check).FailsPiece c p index offset block env info n)
      (hafter : after + info.pieceLen index = before + block.length)
  | unchanged
      (hno : ∀ p index offset block env n, i.message = .incomingPiece p index offset block env →
        ¬(s.next i.check).Takes c index offset block env info n)
      (hafter : after = before)

/-- **A round counts blocks only**, unless a snapshot is restored. -/
theorem counts_step (hfits : s.bitfield.length = info.pieceCount) (hdict : s.infoDict = some info)
    (hsized : ∀ index row, s.pieceScheduler.completedBlocks.get? index = some row →
      row.length = divCeil (info.pieceLen index) blockSize)
    {i : Input c} (hrestores : ∀ v, i.message ≠ .restoreSnapshot v)
    (haligned : ∀ p index offset block env, i.message = .incomingPiece p index offset block env →
      blockSize ∣ offset) :
    Counts c s info i (s.downloadedBytes info) ((s.step i).downloadedBytes info) ∧
      (s.step i).infoDict = some info := by
  have hnext := (sameData_next i.check s).toBits
  have hdict' : (s.next i.check).infoDict = some info := hnext.infoDict.trans hdict
  have hfits' : (s.next i.check).bitfield.length = info.pieceCount := by
    rw [hnext.bitfield]
    exact hfits
  rw [← hnext.downloadedBytes]
  unfold TorrentActor.step
  cases hm : i.message with
  | incomingPiece p index offset block env =>
      have hsource := (handlesBlock c (s.next i.check) p index offset block env).source
      refine ⟨?_, ?_⟩
      · by_cases htakes : ∃ n, (s.next i.check).Takes c index offset block env info n
        · obtain ⟨n, htakes⟩ := htakes
          obtain ⟨hfailed, htaken⟩ := downloadedBytes_taken hfits' htakes (haligned _ _ _ _ _ hm)
            (fun row hrow => hsized index row (by rwa [hnext.completedBlocks] at hrow)) (p := p)
          by_cases hfails : (s.next i.check).FailsPiece c p index offset block env info n
          · exact .failed hm htakes hfails (hfailed hfails)
          · exact .taken hm htakes hfails (htaken hfails)
        · refine .unchanged ?_ (downloadedBytes_untaken hdict' fun n h => htakes ⟨n, h⟩)
          intro p' index' offset' block' env' n hm' h
          cases hm.symm.trans hm'
          exact htakes ⟨n, h⟩
      · change ((s.next i.check).handleIncomingPiece c p index offset block env).infoDict = some info
        rw [infoDict, hsource.1, hsource.2.2]
        exact hdict'
  | infoBytes bytes env =>
      have hsame : (s.next i.check).infoBytes c bytes env = s.next i.check := by
        rcases infoBytes_cases c bytes env (s.next i.check) with heq | ⟨_, hnone, -⟩
        · exact heq
        · cases hnone.symm.trans hdict'
      change Counts c s info i _ (((s.next i.check).infoBytes c bytes env).downloadedBytes info) ∧
        ((s.next i.check).infoBytes c bytes env).infoDict = some info
      rw [hsame]
      refine ⟨.unchanged ?_ rfl, hdict'⟩
      intro p index offset block env n hm'
      cases hm.symm.trans hm'
  | restoreSnapshot v => exact absurd hm (hrestores v)
  | _ =>
      have hkeeps := sameBits_handle (s.next i.check) (m := i.message) (by rw [hm]; exact trivial)
      rw [hm] at hkeeps
      refine ⟨.unchanged ?_ hkeeps.downloadedBytes, hkeeps.infoDict.trans hdict'⟩
      intro p index offset block env n hm'
      cases hm.symm.trans hm'

end Blocks

end TorrentActor

/-! ### The torrent with its peers -/

section Runs

variable [DecidableEq H] {c : Codec H}

namespace Swarm

/-- What the torrent handles in a step of the swarm. -/
def roundInput (s : Swarm H) : SwarmInput c → Option (TorrentActor.Input c)
  | .outside i => some i
  | .deliver env => s.inbox.head?.map fun m => ⟨env.check, m.2.toMessage env⟩
  | .peer _ _ => none

/-- A step is a round of the torrent with what it handles, or leaves the torrent. -/
theorem Moves.torrent {s t : Swarm H} {i : SwarmInput c} (h : Moves s i t) :
    (∃ j, s.roundInput i = some j ∧ s.nextMessage i = some j.message ∧ t.torrent = s.torrent.step j) ∨
      s.roundInput i = none ∧ t.torrent = s.torrent := by
  cases h with
  | outside j _ => exact .inl ⟨j, rfl, rfl, rfl⟩
  | @deliver env ref e rest hinbox =>
      refine .inl ⟨⟨env.check, e.toMessage env⟩, ?_, ?_, rfl⟩
      · rw [roundInput, hinbox]
        rfl
      · rw [nextMessage, hinbox]
        rfl
  | peer _ _ => exact .inr ⟨rfl, rfl⟩

/-- **A block that comes in begins at the offset of a block**, in every run. -/
theorem dvd_offset {s t : Swarm H} (h : (swarmSystem c).Reach (fun _ _ => True) s) {i : SwarmInput c}
    (happly : s.apply i = some t) {j : TorrentActor.Input c} (hj : s.roundInput i = some j) {p : PeerId}
    {index offset : ℕ} {block : Bytes} {env : BlockEnv} (hm : j.message = .incomingPiece p index offset block env) :
    blockSize ∣ offset := by
  cases moves_of_apply happly with
  | outside j' hpeer =>
      cases hj
      rw [hm] at hpeer
      cases hpeer
  | @deliver denv ref e rest hinbox =>
      rw [roundInput, hinbox] at hj
      cases hj
      have hasked := asked_of_reach h
      have htold := hasked.inbox (ref, e) (by rw [hinbox]; exact List.mem_cons_self ..)
      cases e with
      | incomingPiece p' index' offset' block' =>
          cases hm
          obtain ⟨pre, post, hlog⟩ := List.append_of_mem htold
          obtain ⟨-, info, -, -, k, -, hkey⟩ := hasked.answer hlog
          exact Dvd.intro_left k (congrArg (fun key => key.2.1) hkey).symm
      | _ => cases hm
  | peer _ _ => cases hj

end Swarm

/-- **The progress is counted exactly.**  In every run of a torrent whose number of pieces is what the lengths
say: what is counted as verified are the lengths of the complete pieces, and all bytes when every piece is
complete; what is counted as downloaded are these and the blocks received of other pieces, no subtraction fails
and the total is not exceeded; and trackers are told that nothing is left when every byte has been received.  In a
step of the torrent with its peers that restores no snapshot the count grows by the length of a block that is
taken, and shrinks when the block's piece fails. -/
theorem progress_exact {s : TorrentActor H} (h : (torrentSystem c).Reach (fun _ _ => True) s) {info : Info H}
    (hdict : s.infoDict = some info) (hinfo : info.Consistent) :
    ∃ verified received left, verified = (s.completeIndices.map info.pieceLen).sum ∧
      received = s.rowsLength info.pieceLen s.pieceScheduler.completedBlocks.toList ∧
      s.totalVerifiedBytes = some verified ∧
      (verified = info.totalLength ↔ ∀ index < info.pieceCount, s.bitfield.getD index false = true) ∧
      s.totalBytesDownloaded = .ok (some (verified + received)) ∧
      verified + received ≤ info.totalLength ∧
      s.trackerAnnounceProgress = .ok (some (verified + received, left)) ∧
      verified + received + left = info.totalLength ∧
      (left = 0 ↔ ∀ index < info.pieceCount, s.bitfield.getD index false = true ∨
        ∀ j, j * blockSize < info.pieceLen index → s.pieceScheduler.isDuplicateBlock index j = true) ∧
      ∀ (w w' : Swarm H) (i : SwarmInput c), (swarmSystem c).Reach (fun _ _ => True) w → w.torrent = s →
        w.Admits i → w.apply i = some w' → (∀ v, w.nextMessage i ≠ some (.restoreSnapshot v)) →
        ∃ after, w'.torrent.totalBytesDownloaded = .ok (some after) ∧
          match w.roundInput i with
          | none => after = verified + received
          | some j => s.Counts c info j (verified + received) after := by
  have hfits : s.bitfield.length = info.pieceCount := by
    have hfits := (TorrentActor.bitsInv_of_reach h).fits
    rw [TorrentActor.BitfieldFits, TorrentActor.pieceCount, hdict] at hfits
    exact hfits
  have hsum := TorrentActor.verified_add_rowsLength hfits
  have hle := s.downloadedBytes_le hinfo
  have hcount := TorrentActor.totalBytesDownloaded_eq_downloadedBytes hdict hinfo hfits
  have hprogress := TorrentActor.trackerAnnounceProgress_eq hdict hinfo hfits
  refine ⟨_, _, info.totalLength - s.downloadedBytes info, rfl, rfl,
    TorrentActor.totalVerifiedBytes_eq_sum hdict hinfo hfits, (TorrentActor.sum_completeIndices hinfo hfits).2, ?_⟩
  rw [hsum]
  refine ⟨hcount, hle, hprogress, by omega, ?_, ?_⟩
  · rw [← TorrentActor.downloadedBytes_eq_iff hinfo]
    omega
  · rintro w w' i hw rfl hadmits happly hrestores
    have hw' : (torrentSystem c).Reach (fun _ _ => True) w'.torrent :=
      torrent_of_reach (hw.step trivial ⟨hadmits, happly⟩)
    rcases (Swarm.moves_of_apply happly).torrent with ⟨j, hround, hmessage, heq⟩ | ⟨hround, heq⟩
    · have hsized : ∀ index row, w.torrent.pieceScheduler.completedBlocks.get? index = some row →
          row.length = divCeil (info.pieceLen index) blockSize := by
        intro index row hrow
        obtain ⟨info', hdict', htracked⟩ := (piecesCovered_of_reach hw).rows index row hrow
        cases hdict.symm.trans hdict'
        exact htracked.length (.inr hinfo)
      obtain ⟨hcounts, hdict'⟩ := TorrentActor.counts_step hfits hdict hsized
        (fun v hv => hrestores v (by rw [hmessage, hv]))
        (fun _ _ _ _ _ hm => Swarm.dvd_offset hw happly hround hm)
      rw [← heq] at hcounts hdict'
      have hfits' := (TorrentActor.bitsInv_of_reach hw').fits
      rw [TorrentActor.BitfieldFits, TorrentActor.pieceCount, hdict'] at hfits'
      rw [hround]
      exact ⟨_, TorrentActor.totalBytesDownloaded_eq_downloadedBytes hdict' hinfo hfits', hcounts⟩
    · rw [hround, heq]
      exact ⟨_, hcount, rfl⟩

namespace Sample

/-- The only block of the small torrent is on its way. -/
def blockSent : Swarm Bytes := after waiting [.peer 0 (.wire (.piece 0 0 [7]) peerEnv)]

theorem reach_blockSent : (swarmSystem codec).Reach (fun _ _ => True) blockSent := by
  have hwaiting : (swarmSystem codec).Reach (fun _ _ => True) waiting :=
    reach_waiting trivial (fun _ => ⟨trivial, trivial, trivial, trivial⟩) ⟨trivial, trivial⟩
  exact reach_after_one hwaiting trivial trivial (by decide +kernel)

/-- What the torrent handles when the block is delivered. -/
def blockInput : TorrentActor.Input codec :=
  ⟨deliverEnv.check, .incomingPiece peer 0 0 [7] deliverEnv.block⟩

end Sample

/-- The block is delivered: nothing was counted before, and its only byte is counted after. -/
theorem progress_exact_sample :
    Sample.blockSent.torrent.trackerAnnounceProgress = .ok (some (0, 1)) ∧
      ∃ w' after, Sample.blockSent.apply Sample.deliver = some w' ∧
        w'.torrent.totalBytesDownloaded = .ok (some after) ∧
        Sample.blockSent.torrent.Counts Sample.codec Sample.info Sample.blockInput 0 after := by
  have hdict : Sample.blockSent.torrent.infoDict = some Sample.info := by decide +kernel
  obtain ⟨verified, received, left, hverified, hreceived, -, -, -, -, hprogress, hsum, -, hstep⟩ :=
    progress_exact (torrent_of_reach Sample.reach_blockSent) hdict ⟨by decide, by decide⟩
  have hnone : verified + received = 0 := by
    rw [hverified, hreceived]
    decide +kernel
  have htotal : Sample.info.totalLength = 1 := by decide
  have hleft : left = 1 := by omega
  rw [hnone] at hprogress hstep
  rw [hleft] at hprogress
  have hround : Sample.blockSent.roundInput Sample.deliver = some Sample.blockInput := by rfl
  have hnext : Sample.blockSent.nextMessage Sample.deliver = some Sample.blockInput.message := by rfl
  obtain ⟨w', happly⟩ := Option.isSome_iff_exists.1
    (by decide +kernel : (Sample.blockSent.apply Sample.deliver).isSome = true)
  obtain ⟨after, hafter, hcounts⟩ := hstep _ w' Sample.deliver Sample.reach_blockSent rfl
    (Sample.plain_deliver.admits _) happly (fun v hv => nomatch hnext.symm.trans hv)
  rw [hround] at hcounts
  exact ⟨hprogress, w', after, happly, hafter, hcounts⟩

/-- **A snapshot brings bytes along**: the count grows from nothing to a whole block, though no block has come in.
And a late block of a complete piece passes the checks and is written, but is not counted again. -/
theorem restored_progress :
    (∃ w w' : Swarm Bytes, (swarmSystem Sample.codec).Reach (fun _ _ => True) w ∧
      (swarmSystem Sample.codec).step w (.outside (Sample.input (.restoreSnapshot Sample.halfDone))) w' ∧
      w.torrent.totalBytesDownloaded = .ok (some 0) ∧
      w'.torrent.totalBytesDownloaded = .ok (some 16384)) ∧
    ∃ s : TorrentActor Bytes, (torrentSystem Sample.codec).Reach (fun _ _ => True) s ∧
      (∃ info n, (s.next Sample.startEnv).Accepts 0 0 16384 info n) ∧
      ((s.next Sample.startEnv).writeBlockToStorage Sample.codec 0 0 (List.replicate 16384 7)
        Sample.blockEnv.write).2 = true ∧
      s.totalBytesDownloaded = .ok (some 16385) ∧
      (s.step (Sample.input Sample.lateBlock)).totalBytesDownloaded = .ok (some 16385) := by
  have hinit : (swarmSystem Sample.codec).Reach (fun _ _ => True)
      (Sample.alone (Sample.fromInfo Sample.twoBlocks .inFile)) :=
    .init ⟨Sample.init_fromInfo Sample.twoBlocks .inFile, rfl, rfl, rfl⟩
  refine ⟨⟨_, (Sample.alone (Sample.fromInfo Sample.twoBlocks .inFile)).round
      (Sample.input (.restoreSnapshot Sample.halfDone)), hinit, ⟨⟨?_, ?_, ?_⟩, rfl⟩, by decide +kernel,
    by decide +kernel⟩, Sample.restored, ?_, ?_, ?_, ?_, ?_⟩
  · rintro id ref ⟨⟩
  · rintro m ⟨⟩
    rfl
  · rintro m ⟨⟩ id hdead
    cases hdead
  · exact Sample.reach_step (.restoreSnapshot Sample.completed)
      (.init (Sample.init_fromInfo Sample.twoBlocks .inFile)) trivial rfl
  · exact ⟨Sample.twoBlocks, 2, rfl, by decide, rfl⟩
  · decide +kernel
  · decide +kernel
  · decide +kernel

end Runs

end Tortillas
