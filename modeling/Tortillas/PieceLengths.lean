/-
**The length of a piece, in all its forms.**

The length of a piece is computed in many places: when blocks are asked for, when a block comes in,
when a peer asks for one, when progress is counted, when a snapshot is checked, and when a piece is
laid out over files.  All pieces but the last have the standard length, and for the last one there
are three forms: the remainder of the total length, the total length less the pieces before, and the
end of the piece clamped to the total length.  They agree when the number of pieces is what the
lengths say.

Main definitions:

* `concreteLength` — the form of `handle_incoming_piece` and `request_piece`;
* `servable`, `TorrentActor.requestPiece` — the checks on a block that a peer asks for;
* `TorrentActor.totalBytesDownloaded`, `TorrentActor.totalVerifiedBytes` — the progress;
* `blocksLength` — the bytes of the blocks of a row.

Main results:

* `TorrentActor.totalBytesDownloaded_eq`, `TorrentActor.totalVerifiedBytes_eq` — what is counted;
* `lengths_agree` — **all computations of the length of a piece agree**.
-/

import Tortillas.SnapshotValid
import Tortillas.Outstanding
import Tortillas.PieceTiling

set_option relaxedAutoImplicit false
set_option autoImplicit false

namespace Tortillas

variable {H : Type}

/-! ### The forms of the source -/

/-- The remainder of a division, which fails for zero. -/
def checkedRem (a b : ℕ) : Outcome String ℕ := if b = 0 then .panic else .ok (a % b)

/-- The length of a piece as `handle_incoming_piece` and `request_piece` compute it. -/
def concreteLength (info : Info H) (index : ℕ) : Outcome String ℕ :=
  if index = info.pieceCount - 1 then do
    let remainder ← checkedRem info.totalLength info.pieceLength.toNat
    .ok (if remainder = 0 then info.pieceLength.toNat else remainder)
  else .ok info.pieceLength.toNat

/-- The checks of `request_piece`. -/
def servable (info : Info H) (index offset length : ℕ) : Outcome String Bool :=
  if length = 0 then .ok false
  else if blockSize < length then .ok false
  else if info.pieceCount ≤ index then .ok false
  else do
    let concretePieceLen ← concreteLength info index
    if usizeMax < offset + length then .ok false
    else if concretePieceLen ≤ offset ∨ concretePieceLen < offset + length then .ok false
    else .ok true

/-- The loop over the blocks of a row that `total_bytes_downloaded` counts. -/
def downloadedBlocks (pieceSize : ℕ) : List Bool → ℕ → ℕ → Outcome String ℕ
  | [], totalBytes, _ => .ok totalBytes
  | block :: blocks, totalBytes, pieceOffset =>
      if pieceSize < pieceOffset then .panic
      else
        downloadedBlocks pieceSize blocks
          (if block then saturatingAdd totalBytes (min (pieceSize - pieceOffset) blockSize)
            else totalBytes)
          (saturatingAdd pieceOffset (min blockSize (pieceSize - pieceOffset)))

namespace TorrentActor

/-- `request_piece`: a block for a peer. -/
def requestPiece (c : Codec H) (index offset length : ℕ) (s : TorrentActor H) :
    Outcome String (ℕ × ℕ × Option Bytes) :=
  match s.infoDict with
  | none => .ok (index, offset, none)
  | some info => do
      let served ← servable info index offset length
      if served && s.bitfield.getD index false then
        .ok (index, offset, s.readPieceBlock c index offset length)
      else .ok (index, offset, none)

/-- The pieces whose bit is set. -/
def completeIndices (s : TorrentActor H) : List ℕ :=
  (List.range s.bitfield.length).filter fun i => s.bitfield.getD i false

def totalBytesDownloaded (s : TorrentActor H) : Outcome String (Option ℕ) :=
  match s.infoDict with
  | none => .ok none
  | some info => do
      let pieceLength := info.pieceLength.toNat
      let numPieces := s.bitfield.length
      let remainder ← checkedRem info.totalLength pieceLength
      let lastPieceLen := if remainder = 0 then pieceLength else remainder
      let pieceSize := fun pieceIdx =>
        if pieceIdx = numPieces - 1 then lastPieceLen else pieceLength
      let totalBytes := (s.completeIndices.map pieceSize).foldl saturatingAdd 0
      let totalBytes ← s.pieceScheduler.completedBlocks.toList.foldlM
        (fun totalBytes row =>
          if row.1 < numPieces ∧ s.bitfield.getD row.1 false = false then
            downloadedBlocks (pieceSize row.1) row.2 totalBytes 0
          else .ok totalBytes) totalBytes
      .ok (some totalBytes)

/-- `tracker_announce_progress`: what has been downloaded, and what is left. -/
def trackerAnnounceProgress (s : TorrentActor H) : Outcome String (Option (ℕ × ℕ)) :=
  match s.infoDict with
  | none => .ok none
  | some info => do
      let totalBytes ← s.totalBytesDownloaded
      .ok (totalBytes.map fun n =>
        (min n info.totalLength, info.totalLength - min n info.totalLength))

def totalVerifiedBytes (s : TorrentActor H) : Option ℕ :=
  s.infoDict.map fun info =>
    let pieceLength := info.pieceLength.toNat
    let lastPiece := s.bitfield.length - 1
    min ((s.completeIndices.map fun index =>
      if index = lastPiece then info.totalLength - saturatingMul pieceLength lastPiece
      else pieceLength).foldl saturatingAdd 0) info.totalLength

end TorrentActor

/-! ### What is counted -/

/-- The bytes of the blocks of a row, of which the first has the given number. -/
def blocksLength (pieceSize : ℕ) : ℕ → List Bool → ℕ
  | _, [] => 0
  | j, block :: blocks =>
      (if block then min (pieceSize - j * blockSize) blockSize else 0) +
        blocksLength pieceSize (j + 1) blocks

/-- The loop over a row adds the bytes of its blocks, and its subtraction never fails. -/
theorem downloadedBlocks_eq {pieceSize : ℕ} (hsize : pieceSize ≤ usizeMax) (blocks : List Bool)
    (j totalBytes : ℕ) (htotal : totalBytes ≤ usizeMax) :
    downloadedBlocks pieceSize blocks totalBytes (min (j * blockSize) pieceSize) =
      .ok (min (totalBytes + blocksLength pieceSize j blocks) usizeMax) := by
  induction blocks generalizing j totalBytes with
  | nil =>
      rw [downloadedBlocks, blocksLength]
      congr 1
      omega
  | cons block blocks ih =>
      have hpos := blockSize_pos
      have hoffset : saturatingAdd (min (j * blockSize) pieceSize)
          (min blockSize (pieceSize - min (j * blockSize) pieceSize)) =
            min ((j + 1) * blockSize) pieceSize := by
        rw [saturatingAdd, Nat.succ_mul]
        omega
      have hblock : min (pieceSize - min (j * blockSize) pieceSize) blockSize =
          min (pieceSize - j * blockSize) blockSize := by
        omega
      rw [downloadedBlocks, if_neg (by omega), hoffset, hblock, blocksLength]
      cases block with
      | false =>
          simp only [Bool.false_eq_true, if_false, Nat.zero_add]
          exact ih (j + 1) totalBytes htotal
      | true =>
          have hle : saturatingAdd totalBytes (min (pieceSize - j * blockSize) blockSize) ≤
              usizeMax := Nat.min_le_right _ _
          simp only [if_true]
          rw [ih (j + 1) _ hle, saturatingAdd]
          congr 1
          omega

/-! ### The forms agree -/

section Forms

variable {info : Info H}

/-- The clamped form. -/
theorem Info.Consistent.pieceLen_eq (hinfo : info.Consistent) {index : ℕ}
    (hindex : index < info.pieceCount) : info.pieceLen index = info.remaining index := by
  have hstart := hinfo.lt_iff.1 hindex
  rw [Info.pieceLen, Info.remaining, concretePieceLength]
  split
  · rename_i hlast
    have hleft := (sub_mul_divCeil_pred (a := info.totalLength) hinfo.pos (by
      rw [← hinfo.count]
      omega)).2
    have hend : info.totalLength ≤ (index + 1) * info.pieceLength.toNat := by
      rw [hlast, Nat.sub_add_cancel (by omega), hinfo.count]
      exact le_divCeil_mul hinfo.pos
    rw [← hinfo.count, ← hlast, Nat.mul_comm] at hleft
    rw [Nat.min_eq_right hend, lastPieceLength]
    exact hleft.symm
  · rename_i hlast
    have hend := hinfo.lt_iff.1 (show index + 1 < info.pieceCount by omega)
    rw [Nat.min_eq_left hend.le, Nat.succ_mul]
    omega

/-- The lengths of the pieces, one after another, are those of the torrent cut into pieces. -/
theorem Info.Consistent.sum_pieceLen (hinfo : info.Consistent) :
    ((List.range info.pieceCount).map info.pieceLen).sum = info.totalLength := by
  have hend : info.totalLength ≤ info.pieceCount * info.pieceLength.toNat := by
    rw [hinfo.count]
    exact le_divCeil_mul hinfo.pos
  have hclamped : (List.range info.pieceCount).map info.pieceLen = (List.range info.pieceCount).map fun i =>
      min ((i + 1) * info.pieceLength.toNat) info.totalLength - i * info.pieceLength.toNat := by
    refine List.map_congr_left fun i hi => ?_
    rw [hinfo.pieceLen_eq (List.mem_range.1 hi), Info.remaining]
  rw [hclamped, sum_pieces]
  exact Nat.min_eq_right hend

/-- The form of `handle_incoming_piece` and `request_piece`. -/
theorem concreteLength_eq (hpos : 0 < info.pieceLength.toNat) (index : ℕ) :
    concreteLength info index = .ok (info.pieceLen index) := by
  rw [concreteLength, checkedRem, if_neg hpos.ne', Info.pieceLen, concretePieceLength,
    lastPieceLength]
  split
  · rfl
  · rfl

/-- A block within its piece is served. -/
theorem servable_eq_true (hpos : 0 < info.pieceLength.toNat) {index offset length : ℕ}
    (hindex : index < info.pieceCount) (hlength : 0 < length) (hblock : length ≤ blockSize)
    (hend : offset + length ≤ info.pieceLen index) :
    servable info index offset length = .ok true := by
  have hmax := info.pieceLen_le index
  rw [servable, if_neg (by omega), if_neg (by omega), if_neg (by omega), concreteLength_eq hpos,
    Outcome.ok_bind, if_neg (by omega), if_neg (by omega)]

end Forms

namespace TorrentActor

variable {s : TorrentActor H} {info : Info H}

theorem mem_completeIndices {index : ℕ} (h : index ∈ s.completeIndices) :
    index < s.bitfield.length :=
  List.mem_range.1 (List.mem_filter.1 h).1

/-- The bytes counted for rows of received blocks, for given sizes of the pieces. -/
def rowsLength (s : TorrentActor H) (size : ℕ → ℕ) (rows : List (ℕ × List Bool)) : ℕ :=
  (rows.map fun row =>
    if row.1 < s.bitfield.length ∧ s.bitfield.getD row.1 false = false then
      blocksLength (size row.1) 0 row.2
    else 0).sum

/-- The loop over the rows adds the bytes of their blocks. -/
theorem foldlM_downloadedBlocks {size : ℕ → ℕ} (hsize : ∀ i, size i ≤ usizeMax)
    (rows : List (ℕ × List Bool)) {totalBytes : ℕ} (htotal : totalBytes ≤ usizeMax) :
    rows.foldlM (fun totalBytes row =>
        if row.1 < s.bitfield.length ∧ s.bitfield.getD row.1 false = false then
          downloadedBlocks (size row.1) row.2 totalBytes 0
        else .ok totalBytes) totalBytes =
      .ok (min (totalBytes + s.rowsLength size rows) usizeMax) := by
  induction rows generalizing totalBytes with
  | nil =>
      rw [List.foldlM_nil, Outcome.pure_eq, rowsLength, List.map_nil, List.sum_nil]
      congr 1
      omega
  | cons row rows ih =>
      rw [List.foldlM_cons, rowsLength, List.map_cons, List.sum_cons, ← rowsLength]
      split
      · have hrow := downloadedBlocks_eq (hsize row.1) row.2 0 totalBytes htotal
        rw [Nat.zero_mul, Nat.zero_min] at hrow
        rw [hrow, Outcome.ok_bind, ih (Nat.min_le_right _ _)]
        congr 1
        omega
      · rw [Outcome.ok_bind, ih htotal, Nat.zero_add]

/-- The size of a piece as `total_bytes_downloaded` computes it. -/
def pieceSize (s : TorrentActor H) (info : Info H) (index : ℕ) : ℕ :=
  concretePieceLength s.bitfield.length info.pieceLength.toNat info.totalLength index

theorem pieceSize_le (hpos : 0 < info.pieceLength.toNat) (index : ℕ) :
    s.pieceSize info index ≤ usizeMax := by
  have hpiece : info.pieceLength.toNat ≤ usizeMax := Nat.le_of_lt_succ info.pieceLength.toNat_lt
  rw [pieceSize, concretePieceLength]
  split
  · exact (PieceScheduler.lastPieceLength_le hpos).trans hpiece
  · exact hpiece

/-- **What is counted as downloaded.** -/
theorem totalBytesDownloaded_eq (hdict : s.infoDict = some info)
    (hpos : 0 < info.pieceLength.toNat) :
    s.totalBytesDownloaded =
      .ok (some (min ((s.completeIndices.map (s.pieceSize info)).sum +
        s.rowsLength (s.pieceSize info) s.pieceScheduler.completedBlocks.toList) usizeMax)) := by
  have hsize : ∀ pieceIdx, (if pieceIdx = s.bitfield.length - 1 then
      (if info.totalLength % info.pieceLength.toNat = 0 then info.pieceLength.toNat
        else info.totalLength % info.pieceLength.toNat)
      else info.pieceLength.toNat) = s.pieceSize info pieceIdx := fun _ => rfl
  have hrows := foldlM_downloadedBlocks (s := s) (fun i => s.pieceSize_le hpos i)
    s.pieceScheduler.completedBlocks.toList
    (Nat.min_le_right (s.completeIndices.map (s.pieceSize info)).sum usizeMax)
  rw [totalBytesDownloaded, hdict]
  dsimp only
  rw [checkedRem, if_neg hpos.ne', Outcome.ok_bind]
  simp only [hsize]
  rw [foldl_saturatingAdd _ (Nat.zero_le _), Nat.zero_add, hrows, Outcome.ok_bind]
  congr 2
  omega

/-- **What is counted as verified.** -/
theorem totalVerifiedBytes_eq (hdict : s.infoDict = some info) (hinfo : info.Consistent)
    (hfits : s.bitfield.length = info.pieceCount) :
    s.totalVerifiedBytes =
      some (min (s.completeIndices.map info.pieceLen).sum info.totalLength) := by
  have hsize : (s.completeIndices.map fun index =>
      if index = s.bitfield.length - 1 then
        info.totalLength - saturatingMul info.pieceLength.toNat (s.bitfield.length - 1)
      else info.pieceLength.toNat) = s.completeIndices.map info.pieceLen := by
    refine List.map_congr_left ?_
    intro index hindex
    have hlt := mem_completeIndices hindex
    rw [hfits] at hlt ⊢
    have hsnapshot := snapshotPieceLength_eq hinfo hlt
    rw [snapshotPieceLength] at hsnapshot
    dsimp only at hsnapshot
    rw [if_neg hinfo.pos.ne'] at hsnapshot
    split at hsnapshot
    · rename_i hlast
      rw [if_pos hlast]
      exact Except.ok.inj hsnapshot
    · rename_i hlast
      rw [if_neg hlast]
      exact Except.ok.inj hsnapshot
  have htotal := info.totalLength_le
  rw [totalVerifiedBytes, hdict, Option.map_some]
  dsimp only
  rw [hsize, foldl_saturatingAdd _ (Nat.zero_le _), Nat.zero_add]
  congr 1
  omega

end TorrentActor

/-! ### Every run -/

section Agree

variable [DecidableEq H] {c : Codec H} {s : TorrentActor H} {info : Info H}

omit [DecidableEq H] in
/-- What is asked of a peer is a block of a piece, in every run. -/
theorem mem_requestsForPeer (hbits : s.BitsInv) (hdict : s.infoDict = some info) {p : PeerId}
    {clock : ℕ → ℕ} {limit : ℕ} {r : BlockRequest}
    (hr : r ∈ (s.pieceScheduler.requestsForPeer p info.pieceLength.toNat info.totalLength clock
      limit).2) :
    r.pieceIndex < info.pieceCount ∧ r.blockIndex * blockSize < info.pieceLen r.pieceIndex ∧
      r.length = min (info.pieceLen r.pieceIndex - r.offset) blockSize := by
  have hwanted := ((s.pieceScheduler.requestsForPeer_assigns p info.pieceLength.toNat
    info.totalLength clock limit).requests r hr).1.toWanted
  have hlen : s.pieceScheduler.completedPieces.length = info.pieceCount := by
    obtain ⟨hlt, -⟩ := List.getElem?_eq_some_iff.1 hwanted.piece
    rcases hbits.scheduler with hagree | hunset
    · have hfits := hbits.fits
      rw [TorrentActor.BitfieldFits, TorrentActor.pieceCount, hdict] at hfits
      rw [hagree.bits]
      exact hfits
    · rw [hunset.bits] at hlt
      exact absurd hlt (Nat.not_lt_zero _)
  obtain ⟨hpiece, hblock, hkey⟩ := hwanted.key hlen
  obtain ⟨-, hkey⟩ := Prod.mk.inj hkey
  exact ⟨hpiece, hblock, (Prod.mk.inj hkey).2⟩

omit [DecidableEq H] in
/-- A row is created with a bit for each block of its piece. -/
theorem length_row_markBlockComplete {p : PieceScheduler} {index j n : ℕ} {row : List Bool}
    (hnone : p.completedBlocks.get? index = none)
    (hrow : (p.markBlockComplete index j n).1.completedBlocks.get? index = some row) :
    row.length = n := by
  rw [PieceScheduler.markBlockComplete_fst,
    (PieceScheduler.sameProgress_takeBack _ index j).completedBlocks] at hrow
  dsimp only at hrow
  rw [HashMap.get?_insert_self, hnone] at hrow
  rw [← Option.some.inj hrow]
  simp

end Agree

/-- **All computations of the length of a piece agree**, in every run of a torrent whose number of
pieces is what the lengths say: those of the scheduler, of incoming blocks, of blocks served, of
snapshots, of the progress and of the files.  So every block that is asked for is accepted and would
be served, and every row that is created has the length a snapshot of it must have. -/
theorem lengths_agree [DecidableEq H] {c : Codec H} {s : TorrentActor H}
    (h : (torrentSystem c).Reach (fun _ _ => True) s) {info : Info H}
    (hdict : s.infoDict = some info) (hinfo : info.Consistent) :
    (∀ index < info.pieceCount,
      info.pieceLen index = min ((index + 1) * info.pieceLength.toNat) info.totalLength -
        index * info.pieceLength.toNat ∧
      (s.pieceScheduler.completedPieces ≠ [] →
        concretePieceLength s.pieceScheduler.completedPieces.length info.pieceLength.toNat
          info.totalLength index = info.pieceLen index) ∧
      concreteLength info index = .ok (info.pieceLen index) ∧
      snapshotPieceLength info index = .ok (info.pieceLen index) ∧
      ∀ segs, pieceToPaths (some info) index = .ok segs →
        (segs.map Segment.length).sum = info.pieceLen index) ∧
    s.totalBytesDownloaded =
      .ok (some (min ((s.completeIndices.map info.pieceLen).sum +
        s.rowsLength info.pieceLen s.pieceScheduler.completedBlocks.toList) usizeMax)) ∧
    s.totalVerifiedBytes =
      some (min (s.completeIndices.map info.pieceLen).sum info.totalLength) ∧
    (∀ p clock limit, ∀ r ∈ (s.pieceScheduler.requestsForPeer p info.pieceLength.toNat
        info.totalLength clock limit).2,
      (∃ n, TorrentActor.checkBlock info r.pieceIndex r.offset r.length = some n) ∧
        servable info r.pieceIndex r.offset r.length = .ok true) ∧
    (∀ index offset length n, TorrentActor.checkBlock info index offset length = some n →
      s.pieceScheduler.completedBlocks.get? index = none →
      ∀ row, (s.pieceScheduler.markBlockComplete index (offset / blockSize)
          n).1.completedBlocks.get? index = some row →
        ∃ len, snapshotPieceLength info index = .ok len ∧ row.length = divCeil len blockSize) := by
  have hbits := TorrentActor.bitsInv_of_reach h
  have hfits : s.bitfield.length = info.pieceCount := by
    have hfits := hbits.fits
    rw [TorrentActor.BitfieldFits, TorrentActor.pieceCount, hdict] at hfits
    exact hfits
  have hdownloaded := TorrentActor.totalBytesDownloaded_eq hdict hinfo.pos
  have hsize : s.pieceSize info = info.pieceLen := by
    funext index
    rw [TorrentActor.pieceSize, hfits, Info.pieceLen]
  rw [hsize] at hdownloaded
  refine ⟨?_, hdownloaded, TorrentActor.totalVerifiedBytes_eq hdict hinfo hfits, ?_, ?_⟩
  · intro index hindex
    refine ⟨hinfo.pieceLen_eq hindex, ?_, concreteLength_eq hinfo.pos index,
      snapshotPieceLength_eq hinfo hindex, ?_⟩
    · intro hne
      rcases hbits.scheduler with hagree | hunset
      · rw [hagree.bits, hfits, Info.pieceLen]
      · exact absurd hunset.bits hne
    · intro segs hsegs
      rw [(sum_pieceToPaths hsegs).2, hinfo.pieceLen_eq hindex, Info.remaining]
  · intro p clock limit r hr
    obtain ⟨hpiece, hblock, hlength⟩ := mem_requestsForPeer hbits hdict hr
    have hoffset : r.offset < info.pieceLen r.pieceIndex := hblock
    have hpos := blockSize_pos
    refine ⟨⟨_, TorrentActor.checkBlock_eq_some.2 ⟨hpiece, hoffset, by omega, hlength, rfl⟩⟩, ?_⟩
    exact servable_eq_true hinfo.pos hpiece (by omega) (by omega) (by omega)
  · intro index offset length n hcheck hnone row hrow
    obtain ⟨hindex, -, -, -, rfl⟩ := TorrentActor.checkBlock_eq_some.1 hcheck
    exact ⟨_, snapshotPieceLength_eq hinfo hindex, length_row_markBlockComplete hnone hrow⟩

theorem lengths_agree_sample :
    (Sample.downloading .inFile).infoDict = some Sample.info ∧ Sample.info.Consistent ∧
      snapshotPieceLength Sample.info 0 = .ok (Sample.info.pieceLen 0) ∧
      (Sample.downloading .inFile).totalVerifiedBytes =
        some (min ((Sample.downloading .inFile).completeIndices.map Sample.info.pieceLen).sum
          Sample.info.totalLength) := by
  have hdict : (Sample.downloading .inFile).infoDict = some Sample.info := by
    decide +kernel
  have hinfo : Sample.info.Consistent := ⟨by decide, by decide⟩
  obtain ⟨hforms, -, hverified, -⟩ := lengths_agree (Sample.reach_downloading .inFile) hdict hinfo
  exact ⟨hdict, hinfo, (hforms 0 (by decide)).2.2.2.1, hverified⟩

end Tortillas
