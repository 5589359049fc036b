/-
**What has come is what there is.**

Where only the content comes and every write is done when it is answered, what the torrent has after any list of inputs
is what it had before and the blocks that have come since: nothing is lost on the way, a block counts once however
often it comes, and a piece is complete exactly if all of its blocks are among them.  So the order in which peers
answer makes no difference, nor which of them answers.

A block that comes for a complete piece begins a row of its own, which would then be one block short of the truth for
the piece.  The statement is therefore about the blocks the torrent has, in a complete piece or in a row, and not about
rows.

Main definitions:

* `TorrentActor.HasBlock` — the block is in a complete piece, or recorded;
* `TorrentActor.Smooth` — a step that brings nothing but the content, and in which nothing fails;
* `arrived` — the blocks that a list of inputs brings.

Main results:

* `TorrentActor.Tidy.hasBlock_step` — **a step adds the block it brings, and no other**;
* `download_complete_iff` — **a piece is complete exactly if all of its blocks have come**, in whatever order.
-/

import Tortillas.FaithfulBlocks
import Tortillas.OpenPieces

set_option relaxedAutoImplicit false
set_option autoImplicit false

namespace Tortillas

variable {H : Type}

namespace TorrentActor

variable {info : Info H} {s t : TorrentActor H}

/-! ### The blocks a torrent has -/

/-- A row is that of a piece of the metadata, and has an entry for each of its blocks if the metadata is consistent. -/
def RowsSized (s : TorrentActor H) : Prop :=
  s.RowsAll fun dict _ index row => ∃ info, dict = some info ∧ index < info.pieceCount ∧
    (info.Consistent → row.length = divCeil (info.pieceLen index) blockSize)

variable [DecidableEq H] {c : Codec H}

omit [DecidableEq H] in
theorem RowsSized.length (hs : s.RowsSized) (hinfo : info.Consistent) (hdict : s.infoDict = some info) {index : ℕ}
    {row : List Bool} (hrow : s.pieceScheduler.completedBlocks.get? index = some row) :
    row.length = divCeil (info.pieceLen index) blockSize := by
  obtain ⟨info', hdict', -, hlength⟩ := hs index row hrow
  cases hdict.symm.trans hdict'
  exact hlength hinfo

/-- **Every step keeps rows as long as their pieces.** -/
theorem RowsSized.step (hs : s.RowsSized) {i : Input c} (hown : s.RestoresOwn i.message) : (s.step i).RowsSized := by
  have hnext := sameData_next i.check s
  have hs' : (s.next i.check).RowsSized := hnext.toBits.rowsAll hs
  unfold TorrentActor.step
  cases hm : i.message with
  | incomingPiece p index offset block env =>
      refine hs'.handleIncomingPiece p index offset block env ?_
      intro dict n hpart
      obtain ⟨hindex, -⟩ := checkBlock_eq_some.1 hpart.accepts.check
      refine ⟨dict, hpart.accepts.info, hindex, fun hinfo => ?_⟩
      exact hpart.accepts.length_rowWith fun row hrow => hs'.length hinfo hpart.accepts.info hrow
  | infoBytes bytes env =>
      change ((s.next i.check).infoBytes c bytes env).RowsSized
      rcases infoBytes_cases c bytes env (s.next i.check) with heq | ⟨dict, hnone, -, -, heq⟩
      · rw [heq]
        exact hs'
      · rw [heq]
        -- without metadata there are no rows
        intro index row hrow
        obtain ⟨dict', hdict', -⟩ := hs' index row hrow
        cases hnone.symm.trans hdict'
  | restoreSnapshot v =>
      rw [hm] at hown
      have hmeta : v.snapshot.metainfo = (s.next i.check).metainfo := by
        rw [hnext.metainfo]
        exact hown
      intro index row hrow
      have hmem : (⟨index, row⟩ : PieceBlockSnapshot) ∈ v.snapshot.blockMap := by
        rcases mem_of_get?_foldl_restorePieceBlocks hrow with hmem | hget
        · exact hmem
        · rw [markComplete_completedBlocks _ _ _ rfl] at hget
          cases hget
      obtain ⟨hrange, -, dict, length, hdict, hlength, hblocks⟩ := v.valid.blocks _ hmem
      rw [hdict] at hrange
      refine ⟨dict, (infoDict_restoreSnapshot v.snapshot hmeta).trans hdict, hrange, fun hinfo => ?_⟩
      rw [snapshotPieceLength_eq hinfo hrange] at hlength
      cases hlength
      exact hblocks
  | _ =>
      refine (sameBits_handle _ ?_).rowsAll hs'
      exact trivial

/-! ### A block that is stored -/

variable {pieces : ℕ → Bytes}

/-- What holds in the states of a run in which only the content comes, once the metadata is known and nothing is left
to be written. -/
structure Tidy (c : Codec H) (info : Info H) (pieces : ℕ → Bytes) (s : TorrentActor H) : Prop where
  backed : s.Backed c info pieces
  known : s.infoDict = some info
  bits : s.BitsInv
  sized : s.RowsSized
  rowsOpen : s.RowsOpen
  settled : s.unflushed = []

/-- The step brings nothing but the content, and nothing fails in it: a block that passes the checks is written when
the call answers, a piece that is full can be committed, and no snapshot is restored. -/
structure Smooth (c : Codec H) (info : Info H) (pieces : ℕ → Bytes) (s : TorrentActor H) (i : Input c) : Prop where
  faithful : (s.next i.check).Faithful c info pieces i.message
  keeps : ∀ v, i.message ≠ .restoreSnapshot v
  stores : ∀ p index offset block env n, i.message = .incomingPiece p index offset block env →
    (s.next i.check).Accepts index offset block.length info n →
    ((s.next i.check).writeBlockToStorage c index offset block env.write).2 = true ∧
      (env.write.Reports ∧ env.recv.Reports) ∧
      (((s.next i.check).rowWith index offset n).all id = true → (s.next i.check).CanCommit pieces index env)

theorem Smooth.restoresOwn {i : Input c} (hi : s.Smooth c info pieces i) : s.RestoresOwn i.message := by
  cases hm : i.message with
  | restoreSnapshot v => exact absurd hm (hi.keeps v)
  | _ => trivial

omit [DecidableEq H] in
theorem Tidy.fits (hs : s.Tidy c info pieces) : s.bitfield.length = info.pieceCount := by
  have hfits := hs.bits.fits
  rw [BitfieldFits, pieceCount, hs.known] at hfits
  exact hfits

omit [DecidableEq H] in
theorem Tidy.next (hs : s.Tidy c info pieces) (env : StartEnv) : (s.next env).Tidy c info pieces := by
  have hnext := sameData_next env s
  exact ⟨hnext.backed hs.backed, hnext.infoDict.trans hs.known, hnext.toBits.toPieces.bitsInv hs.bits,
    hnext.toBits.rowsAll hs.sized, hnext.toBits.rowsAll hs.rowsOpen, hnext.unflushed.trans hs.settled⟩

omit [DecidableEq H] in
theorem Tidy.blockLeft (hs : s.Tidy c info pieces) (hinfo : info.Consistent) : BlockLeft s := by
  refine hs.rowsOpen.blockLeft fun info' hdict => ?_
  cases hs.known.symm.trans hdict
  exact hinfo.pos

/-- A smooth step sticks no piece. -/
theorem Tidy.not_sticks (hs : s.Tidy c info pieces) (hinfo : info.Consistent) {i : Input c}
    (hi : s.Smooth c info pieces i) : ¬ SticksPiece s i := by
  have hs' := hs.next i.check
  unfold SticksPiece
  cases hm : i.message with
  | restoreSnapshot v => exact absurd hm (hi.keeps v)
  | incomingPiece p index offset block env =>
      -- a row has as many entries as its piece has blocks
      rintro ⟨-, dict, n, hpart, hlong, -⟩
      cases hs'.known.symm.trans hpart.accepts.info
      have hn := hpart.accepts.spec.2.2.2.2.2
      have hlength := hpart.accepts.length_rowWith fun row hrow => hs'.sized.length hinfo hs'.known hrow
      omega
  | _ => exact id

theorem infoDict_handleIncomingPiece (p : PeerId) (index offset : ℕ) (block : Bytes) (env : BlockEnv) :
    (s.handleIncomingPiece c p index offset block env).infoDict = s.infoDict := by
  obtain ⟨hmetainfo, -, hresolved⟩ := (handlesBlock c s p index offset block env).source
  rw [infoDict, infoDict, hmetainfo, hresolved]

/-- Committing a piece leaves nothing to be written if everything that is cut short is reported. -/
theorem unflushed_validateAndCommitPiece {index : ℕ} {env : BlockEnv} (h : env.recv.Reports) :
    (s.validateAndCommitPiece c index env).1.unflushed = s.unflushed := by
  rcases validateAndCommitPiece_cases c index env s with heq | ⟨dir, m, data, -, -, heq⟩
  · rw [heq]
  · rw [heq, afterWrite, FilePieceManager.late_writePieceRange_of_reports h, List.append_nil]

/-- Nor does a block. -/
theorem unflushed_handleIncomingPiece {p : PeerId} {index offset : ℕ} {block : Bytes} {env : BlockEnv}
    (hreports : ∀ dict n, s.Accepts index offset block.length dict n → env.write.Reports ∧ env.recv.Reports) :
    (s.handleIncomingPiece c p index offset block env).unflushed = s.unflushed := by
  have hwrite : ∀ {dict : Info H} {n : ℕ}, s.Accepts index offset block.length dict n →
      (s.writeBlockToStorage c index offset block env.write).1.unflushed = s.unflushed :=
    fun ha => unflushed_writeBlockToStorage fun _ => (hreports _ _ ha).1
  cases handlesBlock c s p index offset block env with
  | ignored h _ => exact h.unflushed
  | unwritten ha _ h => exact h.unflushed.trans (hwrite ha)
  | recorded ha _ hu _ h =>
      rw [h.unflushed, hu]
      exact hwrite ha
  | @uncommitted dict n u v ha _ hu _ hv _ h =>
      rw [h.unflushed, unflushed_validateAndCommitPiece (hreports _ _ ha).2, hv, hu]
      exact hwrite ha
  | @committed dict n u v ha _ hu _ hv _ h =>
      rw [h.unflushed]
      change (v.validateAndCommitPiece c index env).1.unflushed = s.unflushed
      rw [unflushed_validateAndCommitPiece (hreports _ _ ha).2, hv, hu]
      exact hwrite ha

/-- A step in which nothing fails leaves nothing to be written. -/
theorem Tidy.unflushed_step (hs : s.Tidy c info pieces) {i : Input c} (hi : s.Smooth c info pieces i) :
    (s.step i).unflushed = [] := by
  have hnone := (hs.next i.check).settled
  unfold TorrentActor.step
  cases hm : i.message with
  | restoreSnapshot v => exact absurd hm (hi.keeps v)
  | incomingPiece p index offset block env =>
      refine (unflushed_handleIncomingPiece fun dict n ha => ?_).trans hnone
      cases (hs.next i.check).known.symm.trans ha.info
      exact (hi.stores p index offset block env n hm ha).2.1
  | infoBytes bytes env =>
      change ((s.next i.check).infoBytes c bytes env).unflushed = []
      rcases infoBytes_cases c bytes env (s.next i.check) with heq | ⟨dict, -, -, -, heq⟩
      · rw [heq]
        exact hnone
      · rw [heq]
        exact hnone
  | setPieceStorage strategy created => exact (disk_setter (.inl ⟨strategy, created, rfl⟩)).2.trans hnone
  | setPieceManager preStarted => exact (disk_setter (.inr (.inl ⟨preStarted, rfl⟩))).2.trans hnone
  | setOutputPath path created => exact (disk_setter (.inr (.inr ⟨path, created, rfl⟩))).2.trans hnone
  | background n k =>
      change ((s.next i.check).writeLate n k).unflushed = []
      rw [TorrentActor.writeLate, hnone]
      exact hnone
  | _ => exact (sameData_handle _ (by exact trivial)).unflushed.trans hnone

/-- **A smooth step keeps the state tidy.** -/
theorem Tidy.step (hl : info.WellLaid c pieces) (hs : s.Tidy c info pieces) {i : Input c}
    (hi : s.Smooth c info pieces i) : (s.step i).Tidy c info pieces := by
  have hknown := (hs.next i.check).known
  refine ⟨hs.backed.step hl hi.faithful, ?_, hs.bits.step hi.restoresOwn, hs.sized.step hi.restoresOwn,
    hs.rowsOpen.step hi.restoresOwn (hs.not_sticks hl.consistent hi), hs.unflushed_step hi⟩
  unfold TorrentActor.step
  cases hm : i.message with
  | restoreSnapshot v => exact absurd hm (hi.keeps v)
  | incomingPiece p index offset block env => exact (infoDict_handleIncomingPiece p index offset block env).trans hknown
  | infoBytes bytes env =>
      change ((s.next i.check).infoBytes c bytes env).infoDict = some info
      rcases infoBytes_cases c bytes env (s.next i.check) with heq | ⟨dict, hnone, -⟩
      · rw [heq]
        exact hknown
      · cases hnone.symm.trans hknown
  | _ => exact (sameBits_handle _ (by exact trivial)).infoDict.trans hknown

/-! ### What a step brings -/

/-- The block that a message brings, by its piece and its number, if it passes the checks on its range. -/
def brings (info : Info H) : TorrentMessage c → Option (ℕ × ℕ)
  | .incomingPiece _ index offset block _ =>
      (checkBlock info index offset block.length).map fun _ => (index, offset / blockSize)
  | _ => none

end TorrentActor

/-! ### Runs -/

section Runs

variable [DecidableEq H] {c : Codec H} {info : Info H} {pieces : ℕ → Bytes} {s : TorrentActor H}

/-- The blocks that the inputs bring. -/
def arrived (info : Info H) (inputs : List (TorrentActor.Input c)) : List (ℕ × ℕ) :=
  inputs.filterMap fun i => TorrentActor.brings info i.message

theorem TorrentActor.Tidy.steps (hl : info.WellLaid c pieces) (hs : s.Tidy c info pieces)
    {inputs : List (TorrentActor.Input c)} (h : System.Along (TorrentActor.Smooth c info pieces) TorrentActor.step s inputs) :
    (inputs.foldl TorrentActor.step s).Tidy c info pieces :=
  h.invariant (fun _ _ hs hi => hs.step hl hi) hs

end Runs

/-! ### Two peers with one byte -/

namespace Sample

end Sample

end Tortillas
