/-
**What becomes of a piece that fails.**

A block whose write fails is forgotten, if the failure is reported.  The output files are not flushed, so a write
into them may break off after it has been answered, and the block is recorded.  A block that is the last one of its
piece makes the torrent read the piece back, check it and hand it on, and any of these may fail.  The row of the
piece is gone by then, and so are its requests: a block that has been received is not in flight, whoever sent it.  So
all of the piece can be asked for again.

That this is so depends on the scheduler.  One that knows no pieces, after the metadata of a magnet link has been
resolved, asks for nothing; numbers of blocks that are too large are not scanned or make the scan fail; and a row
from a snapshot may be shorter than its piece, so that blocks beyond its end are still in flight.

Main definitions:

* `TorrentActor.ReceivedSettled` — no block that has been received is in flight;
* `TorrentActor.FailsWrite`, `TorrentActor.FailsPiece` — a block that is not written, and one whose piece fails;
* `TorrentActor.Unchanged`, `TorrentActor.RetriedCleanly` — what should follow;
* `TorrentActor.RowStays` — the row comes out as it was, though the block is recorded;
* `TorrentActor.CanRetry` — what it depends on.

Main results:

* `TorrentActor.receivedSettled_of_reach` — in every run no block that has been received is in flight;
* `TorrentActor.blockLeaves` — what a block leaves of bits and rows;
* `failed_pieces_iff` — **exactly when a failed write changes nothing, and a failed piece can be asked for again**;
* `failed_piece_never_retried` — a piece of a magnet link for which it cannot.
-/

import Tortillas.Registered
import Tortillas.RequestScan
import Tortillas.SnapshotValid
import Tortillas.Outstanding

set_option relaxedAutoImplicit false
set_option autoImplicit false

namespace Tortillas

/-! ### Received blocks are not in flight -/

namespace TorrentActor

variable {H : Type} {s t : TorrentActor H}

/-- No block that has been received is in flight, and none is before the metadata is known. -/
structure ReceivedSettled (s : TorrentActor H) : Prop where
  settled : ∀ i j, s.pieceScheduler.isDuplicateBlock i j = true → s.pieceScheduler.inFlightAt i j = none
  known : s.infoDict = none → ∀ i j, s.pieceScheduler.inFlightAt i j = none

/-- It depends on rows, requests and metadata alone; rows may go, and requests may go. -/
theorem ReceivedSettled.of_fewer (hs : s.ReceivedSettled) (hinfo : t.infoDict = none → s.infoDict = none)
    (hrows : ∀ i j, t.pieceScheduler.isDuplicateBlock i j = true → s.pieceScheduler.isDuplicateBlock i j = true)
    (hflight : ∀ i j x, t.pieceScheduler.inFlightAt i j = some x → s.pieceScheduler.inFlightAt i j = some x) :
    t.ReceivedSettled := by
  have hfewer : ∀ i j, s.pieceScheduler.inFlightAt i j = none → t.pieceScheduler.inFlightAt i j = none := by
    intro i j hnone
    rw [Option.eq_none_iff_forall_ne_some]
    intro x hx
    rw [hflight i j x hx] at hnone
    cases hnone
  exact ⟨fun i j hdup => hfewer i j (hs.settled i j (hrows i j hdup)), fun hnone i j => hfewer i j (hs.known (hinfo hnone) i j)⟩

theorem ReceivedSettled.congr (hs : s.ReceivedSettled) (hinfo : t.infoDict = none → s.infoDict = none)
    (hrows : t.pieceScheduler.completedBlocks = s.pieceScheduler.completedBlocks)
    (hflight : t.pieceScheduler.inFlight = s.pieceScheduler.inFlight) : t.ReceivedSettled := by
  refine hs.of_fewer hinfo (fun i j h => ?_) (fun i j x h => ?_)
  · rwa [PieceScheduler.isDuplicateBlock_congr hrows] at h
  · rwa [PieceScheduler.inFlightAt, hflight] at h

/-- A row that is dropped leaves fewer blocks received. -/
theorem ReceivedSettled.erase (hs : s.ReceivedSettled) {index : ℕ} (hinfo : t.infoDict = none → s.infoDict = none)
    (hrows : t.pieceScheduler.completedBlocks = s.pieceScheduler.completedBlocks.erase index)
    (hflight : t.pieceScheduler.inFlight = s.pieceScheduler.inFlight) : t.ReceivedSettled := by
  refine hs.of_fewer hinfo (fun i j h => ?_) (fun i j x h => ?_)
  · cases hdup : s.pieceScheduler.isDuplicateBlock i j with
    | true => rfl
    | false =>
        rw [PieceScheduler.isDuplicateBlock_erase hrows hdup] at h
        cases h
  · rwa [PieceScheduler.inFlightAt, hflight] at h

/-- What is asked for has not been received. -/
theorem Requesting.receivedSettled (h : Requesting s t) (hs : s.ReceivedSettled) : t.ReceivedSettled := by
  obtain ⟨sent, -, -, hflight⟩ := h.sent
  refine ⟨fun i j hdup => ?_, fun hnone i j => ?_⟩
  · rw [PieceScheduler.isDuplicateBlock_congr h.scheduler.completedBlocks] at hdup
    rw [Option.eq_none_iff_forall_ne_some]
    intro x hx
    rcases hflight i j x hx with hold | ⟨ref, info, r, -, -, rfl, rfl, hwanted, -⟩
    · have hnone := hs.settled i j hdup
      rw [hold] at hnone
      cases hnone
    · have hmissing := hwanted.missing
      rw [hdup] at hmissing
      cases hmissing
  · rw [h.frame] at hnone
    change s.infoDict = none at hnone
    rw [Option.eq_none_iff_forall_ne_some]
    intro x hx
    rcases hflight i j x hx with hold | ⟨ref, info, r, -, hinfo, -⟩
    · have hbefore := hs.known hnone i j
      rw [hold] at hbefore
      cases hbefore
    · cases hnone.symm.trans hinfo

/-- A block that is recorded is no longer in flight. -/
theorem receivedSettled_recorded (hs : s.ReceivedSettled) (p : PeerId) (index offset length n : ℕ) (sent : Bool) :
    (s.recorded p index offset length n sent).ReceivedSettled := by
  rw [recorded_frame]
  refine ⟨fun i j hdup => ?_, fun hnone i j => ?_⟩
  · change (s.pieceScheduler.markBlockComplete index (offset / blockSize) n).1.isDuplicateBlock i j = true at hdup
    change (s.pieceScheduler.markBlockComplete index (offset / blockSize) n).1.inFlightAt i j = none
    by_cases hsame : i = index ∧ j = offset / blockSize
    · rw [PieceScheduler.inFlightAt_markBlockComplete, if_pos hsame]
    · rw [PieceScheduler.isDuplicateBlock_markBlockComplete n hsame] at hdup
      rw [PieceScheduler.inFlightAt_markBlockComplete, if_neg hsame]
      exact hs.settled i j hdup
  · change (s.pieceScheduler.markBlockComplete index (offset / blockSize) n).1.inFlightAt i j = none
    rw [PieceScheduler.inFlightAt_markBlockComplete]
    split
    · rfl
    · exact hs.known hnone i j

/-- **Every change keeps it.** -/
theorem receivedSettled_change {R : ℕ → ℕ → ℕ → Prop} (h : Change R s t) (hs : s.ReceivedSettled) :
    t.ReceivedSettled := by
  cases h with
  | quiet h => exact hs.congr (by rw [h.infoDict]; exact id) (by rw [h.scheduler]) (by rw [h.scheduler])
  | request h => exact h.receivedSettled hs
  | available id bits h => exact hs.congr (fun h => h) rfl rfl
  | remove id =>
      have hdrop : ∀ i j x, (s.pieceScheduler.peerDisconnected id).inFlightAt i j = some x →
          s.pieceScheduler.inFlightAt i j = some x := by
        intro i j x hx
        rw [PieceScheduler.inFlightAt_peerDisconnected] at hx
        exact (Option.filter_eq_some_iff.1 hx).1
      unfold removePeer
      split
      · exact hs.of_fewer (fun h => h) (fun _ _ h => h) hdrop
      · exact hs.of_fewer (fun h => h) (fun _ _ h => h) hdrop
  | lose index env =>
      obtain ⟨-, hrows, -⟩ := foldl_peerDisconnected_eq
        ((s.peers.toList.map Prod.fst).filter env.dead) s.pieceScheduler
      refine hs.of_fewer id (fun i j h => ?_) (fun i j x h => ?_)
      · exact (PieceScheduler.isDuplicateBlock_congr hrows i j).symm.trans h
      · exact (PieceScheduler.inFlightAt_of_foldl_peerDisconnected h).1
  | record p sent ha hR => exact receivedSettled_recorded hs p _ _ _ _ sent
  | receive h => exact hs.erase id rfl rfl
  | complete index => exact hs.erase id rfl rfl
  | stop normal => exact hs.congr id rfl rfl

theorem Changes.receivedSettled {R : ℕ → ℕ → ℕ → Prop} (h : Changes R s t) (hs : s.ReceivedSettled) :
    t.ReceivedSettled :=
  h.invariant (fun _ _ hc hs => receivedSettled_change hc hs) hs

/-- A restored scheduler has nothing in flight. -/
theorem receivedSettled_restoreSnapshot (snap : TorrentSnapshot H) (s : TorrentActor H) :
    (s.restoreSnapshot snap).ReceivedSettled := by
  have hnone : ∀ i j, (s.restoreSnapshot snap).pieceScheduler.inFlightAt i j = none := by
    intro i j
    rw [Option.eq_none_iff_forall_ne_some]
    intro x hx
    exact not_mentions_restoredScheduler _ _ _ x.peerId (Or.inl ⟨i, j, x, hx, rfl⟩)
  exact ⟨fun i j _ => hnone i j, fun _ => hnone⟩

section Runs

variable [DecidableEq H] {c : Codec H}

omit [DecidableEq H] in
theorem receivedSettled_next (env : StartEnv) (hs : s.ReceivedSettled) : (s.next env).ReceivedSettled := by
  have hclear : ({ s with outbox := [] } : TorrentActor H).ReceivedSettled := hs.congr id rfl rfl
  exact Changes.receivedSettled (R := fun _ _ _ => False) (changes_next env s) hclear

/-- **Every message keeps it.** -/
theorem receivedSettled_handle (hs : s.ReceivedSettled) (m : TorrentMessage c) : (s.handle m).ReceivedSettled := by
  by_cases hspecial : Special m
  · cases m with
    | peerConnected id ref =>
        change (s.insertPeer id ref).ReceivedSettled
        rcases insertPeer_cases id ref s with heq | ⟨q, -, -, heq⟩
        · rw [heq]
          exact hs
        · rw [heq]
          exact hs.congr (fun h => h) rfl rfl
    | peerReady id bits alive env =>
        have hnoted : (s.mapScheduler (·.updatePeerAvailability id bits)).ReceivedSettled := hs.congr (fun h => h) rfl rfl
        exact Changes.receivedSettled (R := fun _ _ _ => False) (changes_peerReady id bits alive env s) hnoted
    | infoBytes bytes env =>
        change (s.infoBytes c bytes env).ReceivedSettled
        rcases infoBytes_cases c bytes env s with heq | ⟨info, hnone, -, -, heq⟩
        · rw [heq]
          exact hs
        · rw [heq]
          exact hs.congr (fun _ => hnone) rfl rfl
    | setState state start stop =>
        by_cases hpaused : state = .paused
        · subst hpaused
          change (s.stopTransfer stop).ReceivedSettled
          rcases changes_stopTransfer stop s with ⟨-, heq⟩ | ⟨-, hquiet⟩
          · rw [heq]
            exact hs.congr id rfl rfl
          · exact hs.congr (by rw [hquiet.infoDict]; exact id) (by rw [hquiet.scheduler]) (by rw [hquiet.scheduler])
        · exact Changes.receivedSettled (R := fun _ _ _ => False) (changes_setState start stop s hpaused) hs
    | restoreSnapshot v => exact receivedSettled_restoreSnapshot v.snapshot s
    | _ => exact hspecial.elim
  · exact Changes.receivedSettled (changes_handle s hspecial) hs

/-- **In every run no block that has been received is in flight**, nor any before the metadata is known. -/
theorem receivedSettled_of_reach {G : TorrentActor H → Input c → Prop} (h : (torrentSystem c).Reach G s) :
    s.ReceivedSettled := by
  refine h.invariant ?_ ?_
  · rintro s ⟨args, disk, hstart⟩
    unfold onStart at hstart
    obtain ⟨hash, -, rfl⟩ := Option.map_eq_some_iff.1 hstart
    exact ⟨fun i j hdup => (nomatch hdup), fun _ i j => rfl⟩
  · rintro s i t hs - ⟨-, rfl⟩
    exact receivedSettled_handle (receivedSettled_next i.check hs) i.message

end Runs

end TorrentActor

/-! ### Asking for a whole piece -/

namespace PieceScheduler

section Retry

variable {p : PeerId} {pl tl : ℕ} {clock : ℕ → ℕ} {available : List Bool} {s t : PieceScheduler}

/-- The scheduler `t` is `s`, in which the peer is known to have the pieces `available`, or is `s` after the peer has
said so. -/
def KnownToHave (s : PieceScheduler) (p : PeerId) (available : List Bool) (t : PieceScheduler) : Prop :=
  (t = s ∧ s.peerAvailability.get? p = some available) ∨ t = s.updatePeerAvailability p available

/-- **A piece can be asked for**: whichever peer has it, a scan with a large enough limit does not fail and answers
every block of the piece. -/
def Retriable (pl tl : ℕ) (s : PieceScheduler) (index blocks : ℕ) : Prop :=
  ∀ (p : PeerId) (available : List Bool) (t : PieceScheduler), available[index]? = some true →
    s.KnownToHave p available t →
    ∃ enough ≤ usizeMax, ∀ limit, enough ≤ limit → ∀ clock : ℕ → ℕ,
      ∃ found rs, t.requestsForPeerChecked p pl tl clock limit = .ok (found, rs) ∧
        ∀ j < blocks, ∃ r ∈ rs, r.pieceIndex = index ∧ r.blockIndex = j

/-- The block of every slot of the scan that is still to be asked for ends at a number. -/
def EndsInTime (pl tl : ℕ) (s : PieceScheduler) : Prop :=
  ∀ slot < totalSlots pl tl s.completedPieces.length,
    s.completedPieces[slot / divCeil pl blockSize]? = some false →
    slot % divCeil pl blockSize < divCeil (concretePieceLength s.completedPieces.length pl tl
      (slot / divCeil pl blockSize)) blockSize →
    ¬ s.Taken (slot / divCeil pl blockSize) (slot % divCeil pl blockSize) →
    (slot % divCeil pl blockSize + 1) * blockSize ≤ usizeMax

/-- What is asked for ends in time. -/
theorem EndsInTime.offset_le (h : EndsInTime pl tl s) (hpl : 0 < pl) {limit : ℕ} {r : BlockRequest}
    (hr : r ∈ (s.requestsForPeer p pl tl clock limit).2) : r.offset + blockSize ≤ usizeMax := by
  obtain ⟨hreq, -⟩ := (requestsForPeer_assigns p pl tl clock limit s).requests r hr
  have hrow : r.blockIndex < divCeil pl blockSize := Nat.lt_of_lt_of_le hreq.block (blocks_le_row hpl _ _ _)
  obtain ⟨hdiv, hmod⟩ := slot_div_mod (i := r.pieceIndex) hrow
  have hslot := h _ (slot_of_mem_requestsForPeer hr)
  rw [hdiv, hmod, Nat.succ_mul] at hslot
  refine hslot hreq.piece hreq.block ?_
  rintro (hflight | hdup)
  · exact hflight hreq.fresh
  · rw [hreq.missing] at hdup
    cases hdup

theorem KnownToHave.spec (h : s.KnownToHave p available t) :
    t.peerAvailability.get? p = some available ∧ t = { s with peerAvailability := t.peerAvailability } := by
  rcases h with ⟨rfl, hget⟩ | rfl
  · exact ⟨hget, rfl⟩
  · exact ⟨HashMap.get?_insert_self _ _ _, rfl⟩

/-- **A scan does not fail, and answers every block of a piece that is not taken**, for a peer that is known to have
the piece. -/
theorem KnownToHave.answers {index : ℕ} (hknown : s.KnownToHave p available t) (hhas : available[index]? = some true)
    (hnext : IsFirstIncomplete s.completedPieces s.nextPiece) (hpiece : s.completedPieces[index]? = some false)
    (hpl : 0 < pl) (hends : EndsInTime pl tl s) {limit : ℕ} (hlimit : totalSlots pl tl s.completedPieces.length ≤ limit)
    (clock : ℕ → ℕ) :
    ∃ found rs, t.requestsForPeerChecked p pl tl clock limit = .ok (found, rs) ∧
      ∀ j < divCeil (concretePieceLength s.completedPieces.length pl tl index) blockSize,
        index * divCeil pl blockSize + j < usizeMax → ¬ s.Taken index j →
        ∃ r ∈ rs, r.pieceIndex = index ∧ r.blockIndex = j := by
  obtain ⟨havailable, ht⟩ := hknown.spec
  have hpieces : t.completedPieces = s.completedPieces := by rw [ht]
  have htaken : ∀ i j, t.Taken i j ↔ s.Taken i j := by
    intro i j
    rw [ht]
    rfl
  have htends : EndsInTime pl tl t := by
    intro slot hslot hincomplete hblock hfresh
    rw [hpieces] at hslot hincomplete hblock
    exact hends slot hslot hincomplete hblock fun h => hfresh ((htaken _ _).2 h)
  have htnext : IsFirstIncomplete t.completedPieces t.nextPiece := by
    rw [ht]
    exact hnext
  refine ⟨_, _, requestsForPeerChecked_eq_of_ends htnext.le fun r hr => htends.offset_le hpl hr, fun j hj hle hfree => ?_⟩
  exact requestsForPeer_answers havailable htnext (hpieces ▸ hlimit) hpl (hpieces ▸ hpiece) hhas (hpieces ▸ hj) hle
    fun h => hfree ((htaken index j).1 h)

variable (tl) in
/-- **When a piece of which nothing is taken can be asked for.** -/
theorem retriable_of {index : ℕ} (hnext : IsFirstIncomplete s.completedPieces s.nextPiece)
    (hpiece : s.completedPieces[index]? = some false) (hfree : ∀ j, ¬ s.Taken index j) (hpl : 0 < pl)
    (hslots : index * divCeil pl blockSize +
      divCeil (concretePieceLength s.completedPieces.length pl tl index) blockSize ≤ usizeMax)
    (hends : EndsInTime pl tl s) :
    Retriable pl tl s index (divCeil (concretePieceLength s.completedPieces.length pl tl index) blockSize) := by
  intro p available t hhas hknown
  refine ⟨totalSlots pl tl s.completedPieces.length, totalSlots_le_usizeMax _ _ _, fun limit hlimit clock => ?_⟩
  obtain ⟨found, rs, hok, hanswers⟩ := hknown.answers hhas hnext hpiece hpl hends hlimit clock
  exact ⟨found, rs, hok, fun j hj => hanswers j hj (by omega) (hfree j)⟩

/-- **When a piece can be asked for at all.** -/
theorem of_retriable {index blocks : ℕ} (hnext : s.completedPieces ≠ [] → IsFirstIncomplete s.completedPieces s.nextPiece)
    (hblocks : 0 < blocks) (h : Retriable pl tl s index blocks) :
    s.completedPieces ≠ [] ∧ 0 < pl ∧ index * divCeil pl blockSize + blocks ≤ usizeMax ∧ EndsInTime pl tl s := by
  -- a peer that has every piece, and the one that is asked for
  let available := List.replicate (max s.completedPieces.length (index + 1)) true
  have hall : ∀ i, i < s.completedPieces.length ∨ i = index → available[i]? = some true := by
    intro i hi
    exact List.getElem?_replicate_of_lt (by omega)
  obtain ⟨enough, -, henough⟩ := h Sample.peer available _ (hall index (.inr rfl)) (.inr rfl)
  obtain ⟨found, rs, hok, hevery⟩ := henough (max enough (totalSlots pl tl s.completedPieces.length))
    (Nat.le_max_left _ _) fun _ => 0
  obtain ⟨heq, hend⟩ := of_requestsForPeerChecked_eq_ok hok
  have hrs := congrArg Prod.snd heq
  dsimp only at hrs hend
  obtain ⟨r, hr, hindex, hlast⟩ := hevery (blocks - 1) (by omega)
  rw [hrs] at hr
  obtain ⟨hne, hpl, hslot⟩ := of_mem_requestsForPeer hr
  change s.completedPieces ≠ [] at hne
  refine ⟨hne, hpl, ?_, ?_⟩
  · rw [hindex, hlast] at hslot
    omega
  · intro slot hslot hpiece hblock hfresh
    have hlt := (List.getElem?_eq_some_iff.1 hpiece).1
    have hlimit : ((s.updatePeerAvailability Sample.peer available).requestsForPeer Sample.peer pl tl (fun _ => 0)
        (max enough (totalSlots pl tl s.completedPieces.length))).2.length <
          max enough (totalSlots pl tl s.completedPieces.length) ∨
        totalSlots pl tl s.completedPieces.length ≤ max enough (totalSlots pl tl s.completedPieces.length) :=
      .inr (Nat.le_max_right _ _)
    have htaken := requestsForPeer_exhausts_slot (s := s.updatePeerAvailability Sample.peer available) _
      (HashMap.get?_insert_self _ _ _) (hnext hne) hlimit hslot hpiece (hall _ (.inl hlt)) hblock hpl
    obtain ⟨r, hr, -, hj⟩ := mem_of_taken htaken hfresh
    have hoffset := hend r (hrs ▸ hr)
    rw [BlockRequest.offset, hj] at hoffset
    rw [Nat.succ_mul]
    exact hoffset

end Retry

end PieceScheduler

/-! ### Writes and pieces that fail -/

namespace TorrentActor

variable {H : Type} [DecidableEq H] (c : Codec H)

/-- A block that passes the checks is not written, or not all of it when the call answers. -/
structure FailsWrite (s : TorrentActor H) (index offset : ℕ) (block : Bytes) (env : BlockEnv) : Prop where
  accepts : ∃ info n, s.Accepts index offset block.length info n
  unwritten : (s.writeBlockToStorage c index offset block env.write).2 = false ∨
    (s.writeBlockToStorage c index offset block env.write).1.unflushed ≠ s.unflushed

/-- The state after a block has been written and recorded. -/
def writtenAndRecorded (p : PeerId) (index offset : ℕ) (block : Bytes) (env : BlockEnv) (n : ℕ)
    (s : TorrentActor H) : TorrentActor H :=
  (s.writeBlockToStorage c index offset block env.write).1.recorded p index offset block.length n env.cancelSent

/-- The end of the handler of a block whose piece is fully received, but for the replacement requests: the piece has
been read, checked and handed on.  Also answers whether that went well. -/
def checkedPiece (p : PeerId) (index offset : ℕ) (block : Bytes) (env : BlockEnv) (n : ℕ) (s : TorrentActor H) :
    TorrentActor H × Bool :=
  ((s.writtenAndRecorded c p index offset block env n).received index).validateAndCommitPiece c index env

/-- A block that passes the checks is written and completes its piece, but the piece cannot be validated or
committed. -/
structure FailsPiece (s : TorrentActor H) (p : PeerId) (index offset : ℕ) (block : Bytes) (env : BlockEnv)
    (info : Info H) (n : ℕ) : Prop where
  accepts : s.Accepts index offset block.length info n
  written : (s.writeBlockToStorage c index offset block env.write).2 = true
  completes : (s.writtenAndRecorded c p index offset block env n).pieceScheduler.isPieceComplete index = true
  failed : (s.checkedPiece c p index offset block env n).2 = false

/-- No bit and no row has changed. -/
structure Unchanged (s t : TorrentActor H) : Prop where
  bitfield : t.bitfield = s.bitfield
  rows : ∀ i, t.pieceScheduler.completedBlocks.get? i = s.pieceScheduler.completedBlocks.get? i

/-- The row of the piece comes out as it was, though the block is recorded: it has no entry for the block, and others
are missing in it, or there was none, and the piece, which has this block alone, fails. -/
def RowStays (s : TorrentActor H) (p : PeerId) (index offset : ℕ) (block : Bytes) (env : BlockEnv) : Prop :=
  (∃ row, s.pieceScheduler.completedBlocks.get? index = some row ∧ row.length ≤ offset / blockSize ∧
    row.all id = false) ∨
  (s.pieceScheduler.completedBlocks.get? index = none ∧ ∃ info n, s.FailsPiece c p index offset block env info n)

/-- **What should follow when a piece fails**: from `s` the handler comes to `u`, and after the replacement requests to
`t`. -/
structure RetriedCleanly (info : Info H) (index : ℕ) (s u t : TorrentActor H) : Prop where
  clear : t.bitfield[index]? = some false
  noRow : t.pieceScheduler.completedBlocks.get? index = none
  free : ∀ j, u.pieceScheduler.inFlightAt index j = none
  retriable : PieceScheduler.Retriable info.pieceLength.toNat info.totalLength u.pieceScheduler index
    (divCeil (info.pieceLen index) blockSize)
  otherBits : ∀ i, i ≠ index → t.bitfield[i]? = s.bitfield[i]?
  otherRows : ∀ i, i ≠ index →
    t.pieceScheduler.completedBlocks.get? i = s.pieceScheduler.completedBlocks.get? i

/-- **What it depends on**, in the state before the block. -/
structure CanRetry (s : TorrentActor H) (info : Info H) (index offset n : ℕ) : Prop where
  /-- The scheduler knows the pieces. -/
  sized : s.pieceScheduler.completedPieces.length = info.pieceCount
  positive : 0 < info.pieceLength.toNat
  /-- The number of the last block of the piece is a number. -/
  slots : index * divCeil info.pieceLength.toNat blockSize + n ≤ usizeMax
  /-- Every block that is still to be asked for, and every block of this piece, ends at a number. -/
  ends : ∀ slot < PieceScheduler.totalSlots info.pieceLength.toNat info.totalLength info.pieceCount,
    s.pieceScheduler.completedPieces[slot / divCeil info.pieceLength.toNat blockSize]? = some false →
    slot % divCeil info.pieceLength.toNat blockSize <
      divCeil (info.pieceLen (slot / divCeil info.pieceLength.toNat blockSize)) blockSize →
    (slot / divCeil info.pieceLength.toNat blockSize = index ∨
      ¬ s.pieceScheduler.Taken (slot / divCeil info.pieceLength.toNat blockSize)
        (slot % divCeil info.pieceLength.toNat blockSize)) →
    (slot % divCeil info.pieceLength.toNat blockSize + 1) * blockSize ≤ usizeMax
  /-- No block of the piece beyond the end of its row is in flight, but for the one that has come. -/
  row : ∀ j, (s.rowWith index offset n).length ≤ j → j ≠ offset / blockSize →
    s.pieceScheduler.inFlightAt index j = none

section Proofs

variable {c : Codec H} {s : TorrentActor H} {p : PeerId} {index offset n : ℕ} {block : Bytes} {env : BlockEnv}
  {info : Info H}

/-- What the scheduler is after a piece has been checked. -/
theorem scheduler_checkedPiece : (s.checkedPiece c p index offset block env n).1.pieceScheduler =
    (s.pieceScheduler.markBlockComplete index (offset / blockSize) n).1.removePieceBlocks index := by
  rw [checkedPiece, validateAndCommitPiece_eq]
  change ((s.writtenAndRecorded c p index offset block env n).pieceScheduler).removePieceBlocks index = _
  rw [writtenAndRecorded, recorded_frame, writeBlockToStorage_eq]
  rfl

theorem bitfield_checkedPiece : (s.checkedPiece c p index offset block env n).1.bitfield = s.bitfield := by
  rw [checkedPiece, validateAndCommitPiece_eq]
  change (s.writtenAndRecorded c p index offset block env n).bitfield = _
  rw [writtenAndRecorded, recorded_frame, writeBlockToStorage_eq]
  rfl

theorem inFlightAt_checkedPiece (i j : ℕ) :
    (s.checkedPiece c p index offset block env n).1.pieceScheduler.inFlightAt i j =
      if i = index ∧ j = offset / blockSize then none else s.pieceScheduler.inFlightAt i j := by
  rw [scheduler_checkedPiece, ← PieceScheduler.inFlightAt_markBlockComplete]
  rfl

theorem get?_rows_checkedPiece (i : ℕ) :
    (s.checkedPiece c p index offset block env n).1.pieceScheduler.completedBlocks.get? i =
      if i = index then none else s.pieceScheduler.completedBlocks.get? i := by
  rw [scheduler_checkedPiece]
  change (((s.recordBlock index offset n).pieceScheduler.completedBlocks).erase index).get? i = _
  rw [completedBlocks_recordBlock, HashMap.get?_erase, HashMap.get?_insert]
  split
  · rfl
  · rfl

/-- The block has made the row of its piece full. -/
theorem FailsPiece.full (h : s.FailsPiece c p index offset block env info n) :
    ∀ j < (s.rowWith index offset n).length, (s.rowWith index offset n)[j]? = some true := by
  have hcomplete := h.completes
  rw [writtenAndRecorded, recorded_frame, writeBlockToStorage_eq] at hcomplete
  change (s.recordBlock index offset n).pieceScheduler.isPieceComplete index = true at hcomplete
  rw [PieceScheduler.isPieceComplete, completedBlocks_recordBlock, HashMap.get?_insert_self] at hcomplete
  change (s.rowWith index offset n).all id = true at hcomplete
  intro j hj
  rw [List.getElem?_eq_getElem hj]
  exact congrArg some (List.all_eq_true.1 hcomplete _ (List.getElem_mem hj))

/-- The other blocks of the row had been received before. -/
theorem FailsPiece.received (h : s.FailsPiece c p index offset block env info n) {j : ℕ}
    (hj : j < (s.rowWith index offset n).length) (hne : j ≠ offset / blockSize) :
    s.pieceScheduler.isDuplicateBlock index j = true := by
  have hbit := h.full j hj
  rw [rowWith, List.getElem?_set_ne hne.symm] at hbit
  rw [PieceScheduler.isDuplicateBlock]
  cases hrow : s.pieceScheduler.completedBlocks.get? index with
  | none =>
      rw [hrow, Option.getD_none] at hbit
      cases List.eq_of_mem_replicate (List.mem_of_getElem? hbit)
  | some row =>
      rw [hrow, Option.getD_some] at hbit
      rw [Option.bind_some, hbit]
      rfl

/-- No block of the piece is in flight any more exactly if none beyond its row was. -/
theorem free_iff (hsettled : s.ReceivedSettled) (h : s.FailsPiece c p index offset block env info n) :
    (∀ j, (s.checkedPiece c p index offset block env n).1.pieceScheduler.inFlightAt index j = none) ↔
      ∀ j, (s.rowWith index offset n).length ≤ j → j ≠ offset / blockSize →
        s.pieceScheduler.inFlightAt index j = none := by
  constructor
  · intro hfree j _ hne
    have hj := hfree j
    rwa [inFlightAt_checkedPiece, if_neg fun hand => hne hand.2] at hj
  · intro hrow j
    rw [inFlightAt_checkedPiece]
    split
    · rfl
    · rename_i hother
      have hne : j ≠ offset / blockSize := fun heq => hother ⟨rfl, heq⟩
      rcases Nat.lt_or_ge j (s.rowWith index offset n).length with hlt | hge
      · exact hsettled.settled index j (h.received hlt hne)
      · exact hrow j hge hne

/-! ### Asking for a failed piece again -/

theorem samePieces_checkedPiece : SamePieces s (s.checkedPiece c p index offset block env n).1 := by
  have hpieces := recordBlock_pieces s index offset n
  refine ⟨bitfield_checkedPiece, ?_, ?_, ?_⟩
  · rw [checkedPiece, validateAndCommitPiece_eq, writtenAndRecorded, recorded_frame, writeBlockToStorage_eq]
    rfl
  · rw [scheduler_checkedPiece]
    exact hpieces.1
  · rw [scheduler_checkedPiece]
    exact hpieces.2

/-- What is taken when the piece has failed: nothing of the piece, and what was taken of the others. -/
theorem taken_checkedPiece_iff
    (hfree : ∀ j, (s.checkedPiece c p index offset block env n).1.pieceScheduler.inFlightAt index j = none) (i j : ℕ) :
    (s.checkedPiece c p index offset block env n).1.pieceScheduler.Taken i j ↔
      i ≠ index ∧ s.pieceScheduler.Taken i j := by
  rw [PieceScheduler.Taken, PieceScheduler.isDuplicateBlock, get?_rows_checkedPiece]
  by_cases hi : i = index
  · subst hi
    rw [hfree j, if_pos rfl]
    simp
  · rw [inFlightAt_checkedPiece, if_neg fun hand => hi hand.1, if_neg hi]
    exact ⟨fun h => ⟨hi, h⟩, fun h => h.2⟩

/-- **When a piece that failed can be asked for.** -/
theorem retriable_iff (hbits : s.BitsInv) (hclear : s.bitfield[index]? = some false)
    (h : s.FailsPiece c p index offset block env info n)
    (hfree : ∀ j, (s.checkedPiece c p index offset block env n).1.pieceScheduler.inFlightAt index j = none)
    (hrow : ∀ j, (s.rowWith index offset n).length ≤ j → j ≠ offset / blockSize →
      s.pieceScheduler.inFlightAt index j = none) :
    PieceScheduler.Retriable info.pieceLength.toNat info.totalLength
        (s.checkedPiece c p index offset block env n).1.pieceScheduler index (divCeil (info.pieceLen index) blockSize) ↔
      s.CanRetry info index offset n := by
  have hsame : SamePieces s (s.checkedPiece c p index offset block env n).1 := samePieces_checkedPiece
  have htaken := taken_checkedPiece_iff hfree
  generalize (s.checkedPiece c p index offset block env n).1 = u at hsame htaken ⊢
  obtain ⟨hindex, hoffset, -, -, hn⟩ := checkBlock_eq_some.1 h.accepts.check
  have hfits : s.bitfield.length = info.pieceCount := by
    have hfits := hbits.fits
    rwa [BitfieldFits, pieceCount, h.accepts.info] at hfits
  -- a scheduler that knows any piece agrees with the bitfield
  have hagree : u.pieceScheduler.completedPieces ≠ [] →
      s.pieceScheduler.completedPieces = s.bitfield ∧
        IsFirstIncomplete u.pieceScheduler.completedPieces u.pieceScheduler.nextPiece := by
    intro hne
    rw [hsame.completedPieces] at hne ⊢
    rw [hsame.nextPiece]
    rcases hbits.scheduler with hagree | hunset
    · exact ⟨hagree.bits, hagree.bits.symm ▸ hagree.next⟩
    · exact absurd hunset.bits hne
  constructor
  · intro hretriable
    have hblocks : 0 < divCeil (info.pieceLen index) blockSize :=
      (divCeil_pos_iff blockSize_pos).2 (Nat.zero_lt_of_lt hoffset)
    obtain ⟨hne, hpositive, hslots, hends⟩ :=
      PieceScheduler.of_retriable (fun hne => (hagree hne).2) hblocks hretriable
    have hsized : s.pieceScheduler.completedPieces.length = info.pieceCount := by
      rw [(hagree hne).1]
      exact hfits
    refine ⟨hsized, hpositive, hn ▸ hslots, ?_, hrow⟩
    intro slot hslot hpiece hblock hopen
    rw [PieceScheduler.EndsInTime, hsame.completedPieces, hsized] at hends
    refine hends slot hslot hpiece hblock fun hnow => ?_
    obtain ⟨hother, hbefore⟩ := (htaken _ _).1 hnow
    exact hopen.elim hother fun hfresh => hfresh hbefore
  · intro hcan
    have hlength : u.pieceScheduler.completedPieces.length = info.pieceCount := by
      rw [hsame.completedPieces]
      exact hcan.sized
    have hne : u.pieceScheduler.completedPieces ≠ [] := by
      intro hnil
      rw [hnil] at hlength
      exact absurd hlength (Nat.ne_of_lt (Nat.zero_lt_of_lt hindex))
    obtain ⟨hpieces, hnext⟩ := hagree hne
    have hpiece : u.pieceScheduler.completedPieces[index]? = some false := by
      rw [hsame.completedPieces, hpieces, hclear]
    have hretriable := PieceScheduler.retriable_of info.totalLength hnext hpiece
      (fun j hj => ((htaken index j).1 hj).1 rfl) hcan.positive
    rw [hlength] at hretriable
    refine hretriable (hn ▸ hcan.slots) ?_
    intro slot hslot hpiece hblock hfresh
    rw [hlength] at hslot hblock
    rw [hsame.completedPieces] at hpiece
    refine hcan.ends slot hslot hpiece hblock ?_
    by_cases hi : slot / divCeil info.pieceLength.toNat blockSize = index
    · exact .inl hi
    · exact .inr fun hbefore => hfresh ((htaken _ _).2 ⟨hi, hbefore⟩)

/-- What the handler does with a block whose piece fails. -/
theorem handleIncomingPiece_of_failsPiece (h : s.FailsPiece c p index offset block env info n) :
    s.handleIncomingPiece c p index offset block env =
      (s.checkedPiece c p index offset block env n).1.fillPeerRequestWindow p env.fill := by
  have hcomplete := h.completes
  have hfailed := h.failed
  rw [handleIncomingPiece_of_accepts h.accepts, if_neg (by rw [h.written]; exact nofun)]
  unfold acceptBlock
  dsimp only
  rw [writtenAndRecorded, recorded] at hcomplete
  rw [if_pos hcomplete]
  unfold pieceCompleted
  dsimp only
  rw [checkedPiece, writtenAndRecorded, received, recorded] at hfailed ⊢
  rw [if_pos hfailed]

/-! ### What a block leaves -/

/-- The pieces but one are as they were. -/
structure SameElsewhere (index : ℕ) (s t : TorrentActor H) : Prop where
  bits : ∀ i, i ≠ index → t.bitfield.getD i false = s.bitfield.getD i false
  rows : ∀ i, i ≠ index →
    t.pieceScheduler.completedBlocks.get? i = s.pieceScheduler.completedBlocks.get? i

variable (c) in
/-- What a block leaves of bits and rows. -/
inductive BlockLeaves (s : TorrentActor H) (p : PeerId) (index offset : ℕ) (block : Bytes) (env : BlockEnv)
    (t : TorrentActor H) : Prop
  | nothing (hsame : SameBits s t) (hno : ∀ info n, s.Accepts index offset block.length info n →
      (s.writeBlockToStorage c index offset block env.write).2 = false)
  | part {info : Info H} {n : ℕ} (ha : s.Accepts index offset block.length info n)
      (hw : (s.writeBlockToStorage c index offset block env.write).2 = true)
      (helse : SameElsewhere index s t) (hbits : t.bitfield = s.bitfield)
      (hrow : t.pieceScheduler.completedBlocks.get? index = some (s.rowWith index offset n))
      (hopen : (s.rowWith index offset n).all id = false)
      (hgoes : ¬s.FailsPiece c p index offset block env info n)
  | failed {info : Info H} {n : ℕ} (hfails : s.FailsPiece c p index offset block env info n)
      (helse : SameElsewhere index s t) (hbits : t.bitfield = s.bitfield)
      (hrow : t.pieceScheduler.completedBlocks.get? index = none)
  | complete {info : Info H} {n : ℕ} (ha : s.Accepts index offset block.length info n)
      (hw : (s.writeBlockToStorage c index offset block env.write).2 = true)
      (helse : SameElsewhere index s t) (hbit : t.bitfield = s.bitfield.set index true)
      (hfull : (s.rowWith index offset n).all id = true)
      (hgoes : ¬s.FailsPiece c p index offset block env info n)

omit [DecidableEq H] in
/-- Whether a piece is committed is a matter of the piece manager and the files. -/
theorem recvPiece_congr {u : TorrentActor H} (hmanager : u.pieceManager = s.pieceManager)
    (hdisk : u.disk = s.disk) (index : ℕ) (data : Bytes) (env : BlockEnv) :
    (u.recvPiece index data env).2 = (s.recvPiece index data env).2 := by
  unfold recvPiece
  rw [hmanager, hdisk]
  cases s.pieceManager with
  | custom => rfl
  | default manager =>
      dsimp only
      split
      · rfl
      · rfl

/-- Whether it is validated is a matter of the metadata and the storage too. -/
theorem validateAndCommitPiece_congr {u : TorrentActor H} (hdict : u.infoDict = s.infoDict)
    (hpath : u.getPiecePath c index = s.getPiecePath c index) (hstorage : u.pieceStorage = s.pieceStorage)
    (hmanager : u.pieceManager = s.pieceManager) (hdisk : u.disk = s.disk) :
    (u.validateAndCommitPiece c index env).2 = (s.validateAndCommitPiece c index env).2 := by
  have hrecv := fun data => recvPiece_congr hmanager hdisk index data env
  unfold validateAndCommitPiece
  rw [hdict, hpath, hstorage, hmanager, hdisk]
  cases s.infoDict.bind fun info => info.pieces[index]? with
  | none => rfl
  | some hash =>
      dsimp only
      split
      · rfl
      · cases s.pieceStorage with
        | disk path =>
            dsimp only
            cases (s.getPiecePath c index).bind s.disk with
            | none => rfl
            | some data =>
                dsimp only
                split
                · exact hrecv data
                · rfl
        | inFile =>
            cases s.pieceManager with
            | custom => rfl
            | default manager =>
                dsimp only
                cases manager.readPiece s.disk index with
                | none => rfl
                | some data => rfl

omit [DecidableEq H] in
theorem isPieceComplete_writtenAndRecorded :
    (s.writtenAndRecorded c p index offset block env n).pieceScheduler.isPieceComplete index =
      ((s.writeBlockToStorage c index offset block env.write).1.recordBlock index offset
        n).pieceScheduler.isPieceComplete index := by
  rw [writtenAndRecorded, recorded_frame]

omit [DecidableEq H] in
/-- The row of the piece is full. -/
theorem isPieceComplete_recordBlock :
    ((s.writeBlockToStorage c index offset block env.write).1.recordBlock index offset
      n).pieceScheduler.isPieceComplete index = (s.rowWith index offset n).all id := by
  rw [writeBlockToStorage_eq, PieceScheduler.isPieceComplete, completedBlocks_recordBlock,
    HashMap.get?_insert_self]
  rfl

/-- Whether the piece is validated is a question about the state with the block recorded and the row dropped. -/
theorem checkedPiece_snd {v : TorrentActor H}
    (hv : v = { ((s.writeBlockToStorage c index offset block env.write).1.recordBlock index offset n).mapScheduler
      (·.removePieceBlocks index) with outbox := v.outbox }) :
    (s.checkedPiece c p index offset block env n).2 = (v.validateAndCommitPiece c index env).2 := by
  rw [checkedPiece, writtenAndRecorded, recorded_frame, hv]
  exact validateAndCommitPiece_congr rfl rfl rfl rfl rfl

/-- What is there of the bits and rows when a fully received piece has been validated. -/
theorem validated_bits_rows (env : BlockEnv) {v : TorrentActor H}
    (hv : v = { ((s.writeBlockToStorage c index offset block env.write).1.recordBlock index offset n).mapScheduler
      (·.removePieceBlocks index) with outbox := v.outbox }) :
    (v.validateAndCommitPiece c index env).1.bitfield = s.bitfield ∧
      ∀ i, (v.validateAndCommitPiece c index env).1.pieceScheduler.completedBlocks.get? i =
        if i = index then none else s.pieceScheduler.completedBlocks.get? i := by
  rw [validateAndCommitPiece_eq, hv, writeBlockToStorage_eq]
  refine ⟨rfl, fun i => ?_⟩
  change ((s.recordBlock index offset n).pieceScheduler.completedBlocks.erase index).get? i = _
  rw [completedBlocks_recordBlock, HashMap.get?_erase, HashMap.get?_insert]
  split
  · rfl
  · rfl

/-- **What a block leaves.** -/
theorem blockLeaves (c : Codec H) (s : TorrentActor H) (p : PeerId) (index offset : ℕ) (block : Bytes)
    (env : BlockEnv) :
    BlockLeaves c s p index offset block env (s.handleIncomingPiece c p index offset block env) := by
  have hwrite := writeBlockToStorage_eq c index offset block env.write s
  have hstay : SameBits s (s.writeBlockToStorage c index offset block env.write).1 := by
    rw [hwrite]
    exact ⟨rfl, rfl, rfl, rfl, rfl, rfl, rfl⟩
  cases handlesBlock c s p index offset block env with
  | ignored h hna => exact .nothing h.toBits fun info n ha => absurd ⟨info, n, ha⟩ hna
  | unwritten _ hw h => exact .nothing (hstay.trans h.toBits) fun _ _ _ => hw
  | @recorded info n u ha hw hu hrow h =>
      subst hu
      have hrows : (s.handleIncomingPiece c p index offset block env).pieceScheduler.completedBlocks =
          s.pieceScheduler.completedBlocks.insert index (s.rowWith index offset n) := by
        rw [h.completedBlocks, completedBlocks_recordBlock, hstay.completedBlocks, rowWith]
      have hbits : (s.handleIncomingPiece c p index offset block env).bitfield = s.bitfield :=
        h.bitfield.trans hstay.bitfield
      refine .part ha hw ⟨fun i _ => by rw [hbits], fun i hi => ?_⟩ hbits ?_
        (isPieceComplete_recordBlock.symm.trans hrow) fun hfails => ?_
      · rw [hrows, HashMap.get?_insert_of_ne hi]
      · rw [hrows, HashMap.get?_insert_self]
      · cases hrow.symm.trans (isPieceComplete_writtenAndRecorded.symm.trans hfails.completes)
  | @uncommitted info n u v ha hw hu hrow hv hc h =>
      subst hu
      obtain ⟨hbits, hrows⟩ := validated_bits_rows env hv
      have hfails : s.FailsPiece c p index offset block env info n :=
        ⟨ha, hw, isPieceComplete_writtenAndRecorded.trans hrow, (checkedPiece_snd hv).trans hc⟩
      refine .failed hfails ⟨fun i _ => ?_, fun i hi => ?_⟩ (h.bitfield.trans hbits) ?_
      · rw [h.bitfield, hbits]
      · rw [h.completedBlocks, hrows, if_neg hi]
      · rw [h.completedBlocks, hrows, if_pos rfl]
  | @committed info n u v ha hw hu hrow hv hc h =>
      subst hu
      obtain ⟨hbits, hrows⟩ := validated_bits_rows env hv
      have hset : (s.handleIncomingPiece c p index offset block env).bitfield = s.bitfield.set index true := by
        rw [h.bitfield, ← hbits]
        rfl
      refine .complete ha hw ⟨fun i hi => ?_, fun i hi => ?_⟩ hset (isPieceComplete_recordBlock.symm.trans hrow)
        fun hfails => ?_
      · rw [hset, List.getD_eq_getElem?_getD, List.getElem?_set_ne hi.symm, List.getD_eq_getElem?_getD]
      · rw [h.completedBlocks]
        change ((v.validateAndCommitPiece c index env).1.pieceScheduler.completedBlocks.erase index).get? i = _
        rw [HashMap.get?_erase_of_ne hi, hrows, if_neg hi]
      · cases hc.symm.trans ((checkedPiece_snd hv).symm.trans hfails.failed)

/-! ### A write that fails -/

omit [DecidableEq H] in
/-- The block gives the row of its piece nothing if it has a row without an entry for it. -/
theorem rowWith_eq_of_le {row : List Bool} (hrow : s.pieceScheduler.completedBlocks.get? index = some row)
    (hle : row.length ≤ offset / blockSize) : s.rowWith index offset n = row := by
  rw [rowWith, hrow, Option.getD_some, List.set_eq_of_length_le hle]

omit [DecidableEq H] in
/-- And only then. -/
theorem le_of_rowWith_eq {row : List Bool} (hfresh : s.pieceScheduler.isDuplicateBlock index (offset / blockSize) = false)
    (hrow : s.pieceScheduler.completedBlocks.get? index = some row) (h : s.rowWith index offset n = row) :
    row.length ≤ offset / blockSize := by
  by_contra hlt
  rw [Nat.not_le] at hlt
  rw [rowWith, hrow, Option.getD_some] at h
  have hbit : row[offset / blockSize]? = some true := by
    rw [← h, List.getElem?_set_self hlt]
  rw [PieceScheduler.isDuplicateBlock, hrow, Option.bind_some, hbit] at hfresh
  cases hfresh

/-- **When a write that fails changes nothing.** -/
theorem unchanged_iff (hclear : s.bitfield[index]? = some false) (h : s.FailsWrite c index offset block env)
    (p : PeerId) :
    s.Unchanged (s.handleIncomingPiece c p index offset block env) ↔
      (s.writeBlockToStorage c index offset block env.write).2 = false ∨ s.RowStays c p index offset block env := by
  obtain ⟨info, n, ha⟩ := h.accepts
  cases blockLeaves c s p index offset block env with
  | nothing hsame hno =>
      exact iff_of_true ⟨hsame.bitfield, fun i => by rw [hsame.completedBlocks]⟩ (.inl (hno info n ha))
  | @part info' n' ha' hw helse hbits hrow hopen hgoes =>
      obtain ⟨rfl, rfl⟩ := ha.unique ha'
      rw [hw, or_iff_right (by simp)]
      constructor
      · intro hsame
        have hold := (hsame.rows index).symm.trans hrow
        exact .inl ⟨_, hold, le_of_rowWith_eq ha.fresh hold rfl, hopen⟩
      · rintro (⟨row, hold, hle, -⟩ | ⟨-, info', n', hfails⟩)
        · refine ⟨hbits, fun i => ?_⟩
          by_cases hi : i = index
          · rw [hi, hrow, hold, rowWith_eq_of_le hold hle]
          · exact helse.rows i hi
        · obtain ⟨rfl, rfl⟩ := ha.unique hfails.accepts
          exact absurd hfails hgoes
  | @failed info' n' hfails helse hbits hrow =>
      obtain ⟨rfl, rfl⟩ := ha.unique hfails.accepts
      rw [hfails.written, or_iff_right (by simp)]
      constructor
      · intro hsame
        exact .inr ⟨(hsame.rows index).symm.trans hrow, _, _, hfails⟩
      · rintro (⟨row, hold, hle, hnot⟩ | ⟨hnone, -⟩)
        · have hfull := isPieceComplete_recordBlock.symm.trans
            (isPieceComplete_writtenAndRecorded.symm.trans hfails.completes)
          rw [rowWith_eq_of_le hold hle, hnot] at hfull
          cases hfull
        · refine ⟨hbits, fun i => ?_⟩
          by_cases hi : i = index
          · rw [hi, hrow, hnone]
          · exact helse.rows i hi
  | @complete info' n' ha' hw helse hbits hfull hgoes =>
      obtain ⟨rfl, rfl⟩ := ha.unique ha'
      rw [hw, or_iff_right (by simp)]
      refine iff_of_false (fun hsame => ?_) ?_
      · -- the bit of the piece is set
        have hbit := congrArg (·[index]?) (hbits.symm.trans hsame.bitfield)
        rw [List.getElem?_set_self (List.getElem?_eq_some_iff.1 hclear).1, hclear] at hbit
        cases hbit
      · rintro (⟨row, hold, hle, hnot⟩ | ⟨-, info', n', hfails⟩)
        · rw [rowWith_eq_of_le hold hle, hnot] at hfull
          cases hfull
        · obtain ⟨rfl, rfl⟩ := ha.unique hfails.accepts
          exact hgoes hfails

end Proofs

end TorrentActor

/-! ### Runs -/

section Runs

variable {H : Type} [DecidableEq H] {c : Codec H}

/-- **Failed writes and failed pieces.**  In every run a block of an incomplete piece that is not written, or not all
of it, changes no bit and no row exactly if the failure is reported, or the row comes out as it was.  When the piece
that a block completes cannot be validated or committed, its bit stays clear, its row and its requests are gone and
all of it can be asked for again, while no other bit and no other row changes, exactly if `CanRetry` holds before. -/
theorem failed_pieces_iff {s : TorrentActor H} (h : (torrentSystem c).Reach (fun _ _ => True) s) (check : StartEnv)
    (p : PeerId) (index offset : ℕ) (block : Bytes) (env : BlockEnv)
    (hclear : (s.next check).bitfield[index]? = some false) :
    ((s.next check).FailsWrite c index offset block env →
      ((s.next check).Unchanged (s.step ⟨check, .incomingPiece (c := c) p index offset block env⟩) ↔
        ((s.next check).writeBlockToStorage c index offset block env.write).2 = false ∨
          (s.next check).RowStays c p index offset block env)) ∧
    ∀ info n, (s.next check).FailsPiece c p index offset block env info n →
      s.step ⟨check, .incomingPiece (c := c) p index offset block env⟩ =
        ((s.next check).checkedPiece c p index offset block env n).1.fillPeerRequestWindow p env.fill ∧
      ((s.next check).RetriedCleanly info index ((s.next check).checkedPiece c p index offset block env n).1
          (s.step ⟨check, .incomingPiece (c := c) p index offset block env⟩) ↔
        (s.next check).CanRetry info index offset n) := by
  have hbits : (s.next check).BitsInv := by
    exact (TorrentActor.sameData_next check s).toBits.toPieces.bitsInv (TorrentActor.bitsInv_of_reach h)
  have hsettled := TorrentActor.receivedSettled_next check (TorrentActor.receivedSettled_of_reach h)
  generalize hnext : s.next check = s' at hclear hbits hsettled ⊢
  have hstep : s.step ⟨check, .incomingPiece (c := c) p index offset block env⟩ =
      s'.handleIncomingPiece c p index offset block env := by
    rw [← hnext]
    rfl
  rw [hstep]
  refine ⟨fun hfail => TorrentActor.unchanged_iff hclear hfail p, fun info n hfail => ?_⟩
  have hend := TorrentActor.handleIncomingPiece_of_failsPiece hfail
  refine ⟨hend, ?_⟩
  rw [hend]
  have hrequests := TorrentActor.requesting_fillPeerRequestWindow p env.fill
    (s'.checkedPiece c p index offset block env n).1
  -- the replacement requests touch no bit and no row
  have hbitfield : ((s'.checkedPiece c p index offset block env n).1.fillPeerRequestWindow p env.fill).bitfield =
      s'.bitfield := by
    rw [hrequests.frame]
    exact TorrentActor.bitfield_checkedPiece
  have hrows : ∀ i, ((s'.checkedPiece c p index offset block env n).1.fillPeerRequestWindow p
      env.fill).pieceScheduler.completedBlocks.get? i =
        if i = index then none else s'.pieceScheduler.completedBlocks.get? i := by
    intro i
    rw [hrequests.scheduler.completedBlocks]
    exact TorrentActor.get?_rows_checkedPiece i
  constructor
  · intro hclean
    exact (TorrentActor.retriable_iff hbits hclear hfail hclean.free
      ((TorrentActor.free_iff hsettled hfail).1 hclean.free)).1 hclean.retriable
  · intro hcan
    have hfree := (TorrentActor.free_iff hsettled hfail).2 hcan.row
    refine ⟨by rw [hbitfield, hclear], by rw [hrows, if_pos rfl], hfree,
      (TorrentActor.retriable_iff hbits hclear hfail hfree hcan.row).2 hcan, ?_, ?_⟩
    · intro i _
      rw [hbitfield]
    · intro i hi
      rw [hrows, if_neg hi]

namespace Sample

/-- The only block of the small torrent comes with another content than the hash says. -/
theorem failsPiece_downloading :
    ((downloading .inFile).next startEnv).FailsPiece codec peer 0 0 [8] blockEnv info 1 :=
  ⟨⟨by decide +kernel, by decide +kernel, by decide +kernel⟩, by decide +kernel, by decide +kernel,
    by decide +kernel⟩

/-- The torrent has one slot, and one request. -/
theorem canRetry_downloading : ((downloading .inFile).next startEnv).CanRetry info 0 0 1 := by
  refine ⟨by decide +kernel, by decide, by decide, ?_, ?_⟩
  · intro slot hslot _ _ _
    have htotal : PieceScheduler.totalSlots info.pieceLength.toNat info.totalLength info.pieceCount = 1 := by
      decide +kernel
    rw [htotal] at hslot
    have hzero : slot = 0 := by omega
    subst hzero
    decide
  · intro j _ hne
    have hrow : ((downloading .inFile).next startEnv).pieceScheduler.inFlight.get? 0 = some [some ⟨peer, 0⟩] := by
      decide +kernel
    have hpos : [some (⟨peer, 0⟩ : InFlightBlock)].length ≤ j := Nat.one_le_iff_ne_zero.2 hne
    rw [PieceScheduler.inFlightAt, SlotTable.at?, hrow, Option.bind_some, List.getElem?_eq_none hpos]
    rfl

end Sample

theorem failed_pieces_sample :
    ((Sample.downloading .inFile).next Sample.startEnv).RetriedCleanly Sample.info 0
      (((Sample.downloading .inFile).next Sample.startEnv).checkedPiece Sample.codec Sample.peer 0 0 [8]
        Sample.blockEnv 1).1
      ((Sample.downloading .inFile).step (Sample.input (.incomingPiece Sample.peer 0 0 [8] Sample.blockEnv))) :=
  ((failed_pieces_iff (Sample.reach_downloading .inFile) Sample.startEnv Sample.peer 0 0 [8]
    Sample.blockEnv (by decide +kernel)).2 Sample.info 1 Sample.failsPiece_downloading).2.2
    Sample.canRetry_downloading

namespace Sample

/-- The metadata of a magnet link is found, a peer connects and the download starts. -/
def resolving : List (TorrentMessage codec) :=
  [.infoBytes infoBytes broadcastEnv, .peerConnected (some peer) 0, .setSufficientPeers 1 startEnv]

theorem restoresOwn_of_mem_resolving {m : TorrentMessage codec} (hm : m ∈ resolving) (s : TorrentActor Bytes) :
    s.RestoresOwn m := by
  simp only [resolving, List.mem_cons, List.not_mem_nil, or_false] at hm
  rcases hm with rfl | rfl | rfl <;> trivial

/-- The torrent of a magnet link when it downloads. -/
def resolved : TorrentActor Bytes := run fromMagnet resolving

theorem reach_resolved : (torrentSystem codec).Reach (fun _ _ => True) resolved :=
  reach_run resolving (.init init_fromMagnet) fun _ => restoresOwn_of_mem_resolving

theorem failsPiece_resolved : (resolved.next startEnv).FailsPiece codec peer 0 0 [8] blockEnv info 1 :=
  ⟨⟨by decide +kernel, by decide +kernel, by decide +kernel⟩, by decide +kernel, by decide +kernel,
    by decide +kernel⟩

end Sample

/-- **A failed piece is never asked for again**: the only block of the torrent of a magnet link comes with another
content than the hash says, and the scheduler, which knows no pieces, asks nobody for it. -/
theorem failed_piece_never_retried :
    ∃ s : TorrentActor Bytes, (torrentSystem Sample.codec).Reach (fun _ _ => True) s ∧
      (s.next Sample.startEnv).bitfield[0]? = some false ∧
      (s.next Sample.startEnv).FailsPiece Sample.codec Sample.peer 0 0 [8] Sample.blockEnv Sample.info 1 ∧
      ¬ (s.next Sample.startEnv).RetriedCleanly Sample.info 0
        ((s.next Sample.startEnv).checkedPiece Sample.codec Sample.peer 0 0 [8] Sample.blockEnv 1).1
        (s.step (Sample.input (.incomingPiece Sample.peer 0 0 [8] Sample.blockEnv))) := by
  refine ⟨Sample.resolved, Sample.reach_resolved, by decide +kernel, Sample.failsPiece_resolved, ?_⟩
  intro hclean
  have hempty : ((Sample.resolved.next Sample.startEnv).checkedPiece Sample.codec Sample.peer 0 0 [8]
      Sample.blockEnv 1).1.pieceScheduler.completedPieces = [] := by decide +kernel
  exact (PieceScheduler.of_retriable (fun hne => absurd hempty hne) (by decide) hclean.retriable).1 hempty

namespace Sample

/-- Nothing of the block is written when the call answers. -/
def breaksOff : BlockEnv := { blockEnv with write := fun _ => .cut 0 false }

end Sample

open Sample in
/-- The second block of a piece goes into an output file and breaks off: it is recorded all the same. -/
example :
    (fromInfo twoBlocks .inFile).FailsWrite codec 0 16384 [7] breaksOff ∧
      ¬ (fromInfo twoBlocks .inFile).Unchanged
        ((fromInfo twoBlocks .inFile).handleIncomingPiece codec peer 0 16384 [7] breaksOff) := by
  refine ⟨⟨⟨twoBlocks, 2, rfl, by decide +kernel, rfl⟩, by decide +kernel⟩, fun hsame => ?_⟩
  have hrow : ((fromInfo twoBlocks .inFile).handleIncomingPiece codec peer 0 16384 [7]
      breaksOff).pieceScheduler.completedBlocks.get? 0 = some [false, true] := by decide +kernel
  cases hrow.symm.trans (hsame.rows 0)

end Runs

end Tortillas
