/-
**No piece is stuck.**

A piece that is not complete is completed by its blocks, and a block that is marked in the piece's
row of received blocks is neither asked for nor taken.  If all blocks of the piece were marked, it
could never be completed.  While blocks come in this does not happen: a row that is full is dropped
at once, whether or not the piece then proves to be valid.  But a snapshot may come with a row that
is full already, and the checks accept it; and if the metadata is not consistent, a row that comes
with a snapshot may have more entries than the piece has blocks, so that it is never full.

A block that is not marked is of use only when it can be asked for.  The scan for blocks goes by the
pieces the scheduler knows, and it knows none when the torrent of a magnet link has just learned of
its metadata; then nothing is ever asked for, whichever peer has it.

Main definitions:

* `OpenRow` — a row that leaves one of the blocks of its piece;
* `BlockLeft` — every incomplete piece has a block that is not marked;
* `PieceScheduler.BlockRetriable` — whichever peer has the piece, a scan answers the block;
* `NoPieceStuck` — every incomplete piece has a block that is not marked, and that is in flight or
  can be asked for;
* `SticksPiece`, `ResolvesPieces` — the inputs that break this.

Main results:

* `TorrentActor.RowsOpen.step` — every other input keeps rows open;
* `no_piece_stuck` — **in every run without such inputs no piece is stuck, and the next input keeps
  it so exactly if it is not one of them**;
* `full_row_restored` — a valid snapshot with a full row, which full verification leaves as it is.
-/

import Tortillas.FailedPieces
import Tortillas.Reconciliation

set_option relaxedAutoImplicit false
set_option autoImplicit false

namespace Tortillas

variable {H : Type}

/-- A row that leaves one of the blocks of its piece. -/
def OpenRow (info : Info H) (index : ℕ) (row : List Bool) : Prop :=
  ∃ j < divCeil (info.pieceLen index) blockSize, row.getD j false = false

/-- Every incomplete piece has a block that is not marked as received. -/
def BlockLeft (s : TorrentActor H) : Prop :=
  ∀ info, s.infoDict = some info → ∀ index < info.pieceCount, s.bitfield.getD index false = false →
    ∃ j < divCeil (info.pieceLen index) blockSize, s.pieceScheduler.isDuplicateBlock index j = false

namespace PieceScheduler

variable {pl tl : ℕ} {s : PieceScheduler} {index j : ℕ}

/-- **A block can be asked for**: whichever peer has its piece, a scan with a large enough limit
does not fail and answers the block. -/
def BlockRetriable (pl tl : ℕ) (s : PieceScheduler) (index j : ℕ) : Prop :=
  ∀ (p : PeerId) (available : List Bool) (t : PieceScheduler), available[index]? = some true →
    s.KnownToHave p available t →
    ∃ enough ≤ usizeMax, ∀ limit, enough ≤ limit → ∀ clock : ℕ → ℕ,
      ∃ found rs, t.requestsForPeerChecked p pl tl clock limit = .ok (found, rs) ∧
        ∃ r ∈ rs, r.pieceIndex = index ∧ r.blockIndex = j

/-- A block can be asked for only if the scheduler knows pieces. -/
theorem BlockRetriable.ne_nil (h : s.BlockRetriable pl tl index j) : s.completedPieces ≠ [] := by
  have hhas : (List.replicate (index + 1) true)[index]? = some true :=
    List.getElem?_replicate_of_lt (Nat.lt_succ_self index)
  obtain ⟨enough, -, henough⟩ := h Sample.peer _ _ hhas (.inr rfl)
  obtain ⟨found, rs, hok, r, hr, -⟩ := henough enough le_rfl fun _ => 0
  have hrs := congrArg Prod.snd (of_requestsForPeerChecked_eq_ok hok).1
  dsimp only at hrs
  rw [hrs] at hr
  exact (of_mem_requestsForPeer hr).1

end PieceScheduler

/-- **No piece is stuck**: every incomplete piece has a block that is not marked as received, and
that is in flight or can be asked for. -/
def NoPieceStuck (s : TorrentActor H) : Prop :=
  ∀ info, s.infoDict = some info → ∀ index < info.pieceCount, s.bitfield.getD index false = false →
    ∃ j < divCeil (info.pieceLen index) blockSize, s.pieceScheduler.isDuplicateBlock index j = false ∧
      (s.pieceScheduler.inFlightAt index j ≠ none ∨
        s.pieceScheduler.BlockRetriable info.pieceLength.toNat info.totalLength index j)

/-- The pieces have a length, and what a scan computes of the blocks are numbers: the number of
every block, and its end. -/
structure Info.Scannable (info : Info H) : Prop where
  positive : 0 < info.pieceLength.toNat
  ends : info.pieceLength.toNat + blockSize ≤ usizeMax
  slots : info.pieceCount * divCeil info.pieceLength.toNat blockSize ≤ usizeMax

theorem Info.Scannable.endsInTime {info : Info H} (h : info.Scannable) (s : PieceScheduler) :
    s.EndsInTime info.pieceLength.toNat info.totalLength := by
  intro slot _ _ hblock _
  have hrow := Nat.lt_of_lt_of_le hblock (PieceScheduler.blocks_le_row h.positive _ _ _)
  rw [lt_divCeil_iff blockSize_pos] at hrow
  rw [Nat.succ_mul]
  exact (Nat.add_le_add_right hrow.le _).trans h.ends

/-- A piece of a torrent whose pieces have a length has a block. -/
theorem Info.blocks_pos {info : Info H} (hpos : 0 < info.pieceLength.toNat) (index : ℕ) :
    0 < divCeil (info.pieceLen index) blockSize := by
  rw [divCeil_pos_iff blockSize_pos]
  exact Info.pieceLen_pos hpos index

namespace TorrentActor

/-- What the rows of received blocks are: of pieces there are, and open if the piece is
incomplete. -/
def RowsOpen (s : TorrentActor H) : Prop :=
  s.RowsAll fun info bit index row => ∃ dict, info = some dict ∧ index < dict.pieceCount ∧
    (bit = false → OpenRow dict index row)

variable {s t : TorrentActor H}

theorem isDuplicateBlock_of_get? {p : PieceScheduler} {index : ℕ} {row : List Bool}
    (h : p.completedBlocks.get? index = some row) (j : ℕ) :
    p.isDuplicateBlock index j = row.getD j false := by
  rw [PieceScheduler.isDuplicateBlock, h, List.getD_eq_getElem?_getD]
  rfl

theorem isDuplicateBlock_of_none {p : PieceScheduler} {index : ℕ}
    (h : p.completedBlocks.get? index = none) (j : ℕ) : p.isDuplicateBlock index j = false := by
  rw [PieceScheduler.isDuplicateBlock, h]
  rfl

/-- Where rows are open every incomplete piece has a block left. -/
theorem RowsOpen.blockLeft (hs : s.RowsOpen)
    (hpos : ∀ info, s.infoDict = some info → 0 < info.pieceLength.toNat) : BlockLeft s := by
  intro info hinfo index _ hbit
  cases hrow : s.pieceScheduler.completedBlocks.get? index with
  | none => exact ⟨0, Info.blocks_pos (hpos info hinfo) index, isDuplicateBlock_of_none hrow 0⟩
  | some row =>
      obtain ⟨info', hinfo', -, hopen⟩ := hs index row hrow
      cases hinfo.symm.trans hinfo'
      obtain ⟨j, hj, hclear⟩ := hopen hbit
      exact ⟨j, hj, (isDuplicateBlock_of_get? hrow j).trans hclear⟩

/-- **Where rows are open and the scheduler knows the pieces no piece is stuck.** -/
theorem RowsOpen.noPieceStuck (hs : s.RowsOpen) (hfits : s.BitfieldFits) (hagree : s.SchedulerAgrees)
    (hscan : ∀ info, s.infoDict = some info → info.Scannable) : NoPieceStuck s := by
  intro info hinfo index hindex hbit
  obtain ⟨j, hj, hclear⟩ :=
    hs.blockLeft (fun info hinfo => (hscan info hinfo).positive) info hinfo index hindex hbit
  refine ⟨j, hj, hclear, ?_⟩
  by_cases hflight : s.pieceScheduler.inFlightAt index j = none
  · refine .inr fun p available t hhas hknown => ?_
    rw [BitfieldFits, pieceCount, hinfo, ← hagree.bits] at hfits
    change s.pieceScheduler.completedPieces.length = info.pieceCount at hfits
    have hpiece : s.pieceScheduler.completedPieces[index]? = some false := by
      rw [← hagree.bits, List.getD_eq_getElem _ _ (hfits ▸ hindex)] at hbit
      rw [List.getElem?_eq_getElem (hfits ▸ hindex), hbit]
    have hnext := hagree.next
    rw [← hagree.bits] at hnext
    have hrow := Nat.lt_of_lt_of_le hj (PieceScheduler.blocks_le_row (hscan info hinfo).positive _ _ _)
    have hslot : index * divCeil info.pieceLength.toNat blockSize + j < usizeMax := by
      have hslots := (Nat.mul_le_mul_right (divCeil info.pieceLength.toNat blockSize)
        (Nat.succ_le_of_lt hindex)).trans (hscan info hinfo).slots
      rw [Nat.succ_mul] at hslots
      omega
    refine ⟨PieceScheduler.totalSlots info.pieceLength.toNat info.totalLength
      s.pieceScheduler.completedPieces.length, PieceScheduler.totalSlots_le_usizeMax _ _ _,
      fun limit hlimit clock => ?_⟩
    obtain ⟨found, rs, hok, hanswers⟩ := hknown.answers hhas hnext hpiece
      (hscan info hinfo).positive ((hscan info hinfo).endsInTime _) hlimit clock
    refine ⟨found, rs, hok, hanswers j ?_ hslot ?_⟩
    · rw [hfits]
      exact hj
    · rintro (htaken | htaken)
      · exact htaken hflight
      · rw [hclear] at htaken
        cases htaken
  · exact .inl hflight

/-- A row that is not open leaves no block of its piece. -/
theorem not_blockLeft {info : Info H} {index : ℕ} {row : List Bool}
    (hinfo : s.infoDict = some info) (hindex : index < info.pieceCount)
    (hbit : s.bitfield.getD index false = false)
    (hrow : s.pieceScheduler.completedBlocks.get? index = some row)
    (hfull : ∀ j < divCeil (info.pieceLen index) blockSize, row.getD j false = true) :
    ¬ BlockLeft s := by
  intro h
  obtain ⟨j, hj, hclear⟩ := h info hinfo index hindex hbit
  rw [isDuplicateBlock_of_get? hrow, hfull j hj] at hclear
  cases hclear

/-- Where no piece is stuck every incomplete piece has a block left. -/
theorem blockLeft_of_noPieceStuck (h : NoPieceStuck s) : BlockLeft s := by
  intro info hinfo index hindex hbit
  obtain ⟨j, hj, hclear, -⟩ := h info hinfo index hindex hbit
  exact ⟨j, hj, hclear⟩

/-! ### Blocks -/

/-- A row that is not full and has no more entries than the piece has blocks is open. -/
theorem openRow_of_short {info : Info H} {index : ℕ} {row : List Bool}
    (hlen : row.length ≤ divCeil (info.pieceLen index) blockSize) (hall : row.all id = false) :
    OpenRow info index row := by
  rw [List.all_eq_false] at hall
  obtain ⟨bit, hmem, hbit⟩ := hall
  obtain ⟨j, hj, rfl⟩ := List.getElem_of_mem hmem
  refine ⟨j, by omega, ?_⟩
  rw [List.getD_eq_getElem _ _ hj]
  simpa using hbit

/-- A row of a torrent whose metadata is known, and the row's piece. -/
theorem RowsOpen.piece (hs : s.RowsOpen) {index : ℕ} {row : List Bool}
    (hrow : s.pieceScheduler.completedBlocks.get? index = some row) :
    ∃ info, s.infoDict = some info ∧ index < info.pieceCount := by
  obtain ⟨info, hinfo, hindex, -⟩ := hs index row hrow
  exact ⟨info, hinfo, hindex⟩

end TorrentActor

/-! ### Inputs that stick a piece -/

section Runs

variable [DecidableEq H] {c : Codec H}

/-- The inputs after which a piece is stuck: a snapshot with a row that marks every block of its
piece, and the last block of a piece whose row has more entries than the piece has blocks. -/
def SticksPiece (s : TorrentActor H) (i : TorrentActor.Input c) : Prop :=
  let s' := s.next i.check
  match i.message with
  | .restoreSnapshot v => ∃ info, v.snapshot.resolvedInfo = some info ∧
      ∃ entry ∈ v.snapshot.blockMap, ¬ OpenRow info entry.pieceIndex entry.blocks
  | .incomingPiece _ index offset block env => s'.bitfield.getD index false = false ∧
      ∃ dict n, s'.RecordsPart c index offset block env dict n ∧
        n < (s'.rowWith index offset n).length ∧ ∀ j < n, (s'.rowWith index offset n).getD j false
  | _ => False

namespace TorrentActor

variable {s : TorrentActor H}

omit [DecidableEq H] in
/-- The row a block leaves is open, unless it has more entries than the piece has blocks. -/
theorem openRow_rowWith {index offset n : ℕ} {block : Bytes} {env : BlockEnv} {dict : Info H}
    (hpart : s.RecordsPart c index offset block env dict n)
    (hno : ¬ (n < (s.rowWith index offset n).length ∧
      ∀ j < n, (s.rowWith index offset n).getD j false = true)) :
    OpenRow dict index (s.rowWith index offset n) := by
  obtain ⟨-, -, -, -, hn⟩ := checkBlock_eq_some.1 hpart.accepts.check
  by_cases hlen : (s.rowWith index offset n).length ≤ n
  · refine openRow_of_short (hn ▸ hlen) ?_
    have hwrite := writeBlockToStorage_eq c index offset block env.write s
    have hpartly := hpart.partly
    rw [PieceScheduler.isPieceComplete, completedBlocks_recordBlock, HashMap.get?_insert_self,
      hwrite] at hpartly
    exact hpartly
  · by_contra hclosed
    refine hno ⟨Nat.lt_of_not_le hlen, ?_⟩
    intro j hj
    rw [← Bool.not_eq_false]
    exact fun hclear => hclosed ⟨j, hn ▸ hj, hclear⟩

/-- **One step keeps rows open, unless it sticks a piece.** -/
theorem RowsOpen.step (hs : s.RowsOpen) {i : Input c} (hown : s.RestoresOwn i.message)
    (hno : ¬ SticksPiece s i) : (s.step i).RowsOpen := by
  have hnext := sameData_next i.check s
  have hs' : (s.next i.check).RowsOpen := hnext.toBits.rowsAll hs
  unfold SticksPiece at hno
  unfold TorrentActor.step
  cases hm : i.message with
  | incomingPiece p index offset block env =>
      rw [hm] at hno
      refine hs'.handleIncomingPiece p index offset block env ?_
      intro dict n hpart
      obtain ⟨hindex, -⟩ := checkBlock_eq_some.1 hpart.accepts.check
      refine ⟨dict, hpart.accepts.info, hindex, ?_⟩
      intro hbit
      exact openRow_rowWith hpart fun hfull => hno ⟨hbit, dict, n, hpart, hfull⟩
  | infoBytes bytes env =>
      rcases infoBytes_cases c bytes env (s.next i.check) with heq | ⟨info, hnone, -, -, heq⟩
      · change ((s.next i.check).infoBytes c bytes env).RowsOpen
        rw [heq]
        exact hs'
      · change ((s.next i.check).infoBytes c bytes env).RowsOpen
        rw [heq]
        -- without metadata there are no rows
        intro index row hrow
        obtain ⟨dict, hdict, -⟩ := hs'.piece hrow
        cases hnone.symm.trans hdict
  | restoreSnapshot v =>
      rw [hm] at hown hno
      have hmeta : v.snapshot.metainfo = (s.next i.check).metainfo := by
        rw [hnext.metainfo]
        exact hown
      intro index row hrow
      have hmem : (⟨index, row⟩ : PieceBlockSnapshot) ∈ v.snapshot.blockMap := by
        rcases mem_of_get?_foldl_restorePieceBlocks hrow with hmem | hget
        · exact hmem
        · rw [markComplete_completedBlocks _ _ _ rfl] at hget
          cases hget
      obtain ⟨hrange, -, dict, length, hdict, -, -⟩ := v.valid.blocks _ hmem
      rw [hdict] at hrange
      refine ⟨dict, (infoDict_restoreSnapshot v.snapshot hmeta).trans hdict, hrange, ?_⟩
      rintro -
      by_contra hclosed
      exact hno ⟨dict, hdict, _, hmem, hclosed⟩
  | _ =>
      refine (sameBits_handle _ ?_).rowsAll hs'
      exact trivial

/-- **What sticks a piece leaves a piece without a block.** -/
theorem not_blockLeft_of_sticksPiece {i : Input c} (hown : s.RestoresOwn i.message)
    (hsticks : SticksPiece s i) : ¬ BlockLeft (s.step i) := by
  have hnext := sameData_next i.check s
  unfold SticksPiece at hsticks
  unfold TorrentActor.step
  cases hm : i.message with
  | incomingPiece p index offset block env =>
      rw [hm] at hsticks
      obtain ⟨hbit, dict, n, hpart, hlen, hfull⟩ := hsticks
      obtain ⟨hindex, -, -, -, hn⟩ := checkBlock_eq_some.1 hpart.accepts.check
      obtain ⟨hinfo, hbits, hrow⟩ := hpart.spec p
      rw [← hbits] at hbit
      refine not_blockLeft (hinfo.trans hpart.accepts.info) hindex hbit hrow ?_
      intro j hj
      exact hfull j (hn ▸ hj)
  | restoreSnapshot v =>
      rw [hm] at hown hsticks
      obtain ⟨info, hinfo, entry, hmem, hclosed⟩ := hsticks
      have hmeta : v.snapshot.metainfo = (s.next i.check).metainfo := by
        rw [hnext.metainfo]
        exact hown
      obtain ⟨hrange, hbit, -⟩ := v.valid.blocks entry hmem
      rw [hinfo] at hrange
      refine not_blockLeft ((infoDict_restoreSnapshot v.snapshot hmeta).trans hinfo) hrange hbit
        (get?_foldl_restorePieceBlocks_of_mem v.valid.nodup hmem _) ?_
      intro j hj
      rw [← Bool.not_eq_false]
      exact fun hclear => hclosed ⟨j, hj, hclear⟩
  | _ =>
      rw [hm] at hsticks
      exact absurd hsticks id

/-- **What resolves pieces leaves them stuck**: the scheduler knows none of them. -/
theorem stuck_of_resolvesPieces (hfits : s.BitfieldFits) (hagree : s.SchedulerAgrees)
    (hsettled : s.ReceivedSettled) {i : Input c} (hresolves : ResolvesPieces s i.message) :
    ¬ NoPieceStuck (s.step i) := by
  have hnext := sameData_next i.check s
  unfold ResolvesPieces at hresolves
  unfold TorrentActor.step
  cases hm : i.message with
  | infoBytes bytes env =>
      rw [hm] at hresolves
      obtain ⟨hnone, hhash, info, hinfo, hcount⟩ := hresolves
      rw [← hnext.infoDict] at hnone
      rw [← hnext.infoHash] at hhash
      change ¬ NoPieceStuck ((s.next i.check).infoBytes c bytes env)
      have hempty : (s.next i.check).pieceScheduler.completedPieces = [] := by
        have hagree' := hnext.toBits.toPieces.schedulerAgrees hagree
        have hfits' := hnext.toBits.toPieces.bitfieldFits hfits
        rw [BitfieldFits, pieceCount, hnone] at hfits'
        rw [hagree'.bits]
        exact List.eq_nil_of_length_eq_zero hfits'
      have hfree := (receivedSettled_next i.check hsettled).known hnone
      have hdict : ((s.next i.check).resolveMetadata info).infoDict = some info :=
        infoDict_resolveMetadata hnone
      have hbit : (List.replicate info.pieceCount false).getD 0 false = false :=
        List.getD_replicate _ (Nat.pos_of_ne_zero hcount)
      rw [infoBytes, if_neg (by rw [hnone]; exact Bool.false_ne_true), if_neg (not_not.2 hhash), hinfo]
      intro hstuck
      obtain ⟨j, -, -, hflight | hretriable⟩ :=
        hstuck info hdict 0 (Nat.pos_of_ne_zero hcount) hbit
      · exact hflight (hfree 0 j)
      · exact hretriable.ne_nil hempty
  | _ =>
      rw [hm] at hresolves
      exact absurd hresolves id

end TorrentActor

/-- **In every run without inputs that stick a piece or resolve metadata with pieces, no piece is
stuck of a torrent whose metadata can be scanned; and the next input keeps it so exactly if it does
neither.** -/
theorem no_piece_stuck {s : TorrentActor H}
    (h : (torrentSystem c).Reach (fun s i => ¬ SticksPiece s i ∧ ¬ ResolvesPieces s i.message) s) :
    ((∀ info, s.infoDict = some info → info.Scannable) → NoPieceStuck s) ∧
    ∀ i : TorrentActor.Input c, s.RestoresOwn i.message →
      (∀ info, (s.step i).infoDict = some info → info.Scannable) →
      (NoPieceStuck (s.step i) ↔ ¬ SticksPiece s i ∧ ¬ ResolvesPieces s i.message) := by
  have hbits := TorrentActor.bitsInv_of_reach h
  have hs : s.RowsOpen ∧ s.SchedulerAgrees := by
    refine h.strengthen (I := fun s => s.RowsOpen ∧ s.SchedulerAgrees)
      (fun _ hr => TorrentActor.bitsInv_of_reach hr) ?_ ?_
    · rintro s ⟨args, disk, hstart⟩
      refine ⟨?_, (TorrentActor.bitfieldFits_onStart hstart).2⟩
      intro index row hrow
      obtain ⟨hash, -, rfl⟩ := Option.map_eq_some_iff.1 hstart
      cases hrow
    · rintro s i t hbits ⟨hrows, hagree⟩ ⟨hsticks, hresolves⟩ ⟨hown, rfl⟩
      exact ⟨hrows.step hown hsticks, hagree.step hbits.fits hresolves hown⟩
  obtain ⟨hrows, hagree⟩ := hs
  refine ⟨hrows.noPieceStuck hbits.fits hagree, ?_⟩
  intro i hown hscan
  refine ⟨?_, ?_⟩
  · intro hopen
    refine ⟨fun hsticks => ?_, fun hresolves => ?_⟩
    · exact TorrentActor.not_blockLeft_of_sticksPiece hown hsticks (TorrentActor.blockLeft_of_noPieceStuck hopen)
    · exact TorrentActor.stuck_of_resolvesPieces hbits.fits hagree
        (TorrentActor.receivedSettled_of_reach h) hresolves hopen
  · rintro ⟨hsticks, hresolves⟩
    exact (hrows.step hown hsticks).noPieceStuck (hbits.step hown).fits
      (hagree.step hbits.fits hresolves hown) hscan

theorem no_piece_stuck_sample :
    NoPieceStuck (Sample.run (Sample.fromInfo Sample.twoBlocks .inFile) Sample.halfFetched) ∧
      (Sample.run (Sample.fromInfo Sample.twoBlocks .inFile) Sample.halfFetched).bitfield = [false] ∧
      (Sample.run (Sample.fromInfo Sample.twoBlocks .inFile) Sample.halfFetched).pieceScheduler.completedBlocks.get? 0 =
        some [false, true] := by
  refine ⟨(no_piece_stuck (Sample.reach_along (.init (Sample.init_fromInfo Sample.twoBlocks .inFile)) ?_)).1 ?_,
    by decide +kernel, by decide +kernel⟩
  · refine ⟨⟨⟨id, id⟩, trivial⟩, ⟨⟨id, id⟩, trivial⟩, ⟨⟨id, id⟩, trivial⟩, ⟨⟨?_, id⟩, trivial⟩, trivial⟩
    -- the row has an entry for each of the two blocks
    rintro ⟨-, dict, n, hpart, hlen, -⟩
    have haccepts : ((Sample.run (Sample.fromInfo Sample.twoBlocks .inFile) Sample.asking).next
        Sample.startEnv).Accepts 0 16384 1 Sample.twoBlocks 2 :=
      ⟨rfl, by decide +kernel, by decide +kernel⟩
    obtain ⟨rfl, rfl⟩ := haccepts.unique hpart.accepts
    exact absurd hlen (by decide +kernel)
  · intro info hinfo
    cases (show some Sample.twoBlocks = some info from hinfo)
    exact ⟨by decide, by decide, by decide⟩

namespace Sample

/-- The small torrent as it was saved with its only block received and the piece incomplete. -/
def fullRow : ValidatedTorrentSnapshot codec where
  snapshot := { kept.snapshot with state := .paused, bitfield := [false], blockMap := [⟨0, [true]⟩] }
  valid := by
    refine ⟨rfl, rfl, fun _ _ => rfl, rfl, fun _ h => (nomatch h), rfl, ?_, by decide⟩
    intro entry hentry
    rw [List.mem_singleton.1 hentry]
    exact ⟨by decide, rfl, info, 1, rfl, by decide, by decide⟩

end Sample

/-- **A snapshot with a full row**: the checks accept it, full verification leaves it as it is, and
the piece is stuck. -/
theorem full_row_restored :
    Sample.fullRow.snapshot.validate Sample.codec = .ok () ∧
    Sample.fullRow.snapshot.reconcileStorage Sample.codec Sample.outputFile (some true) .full =
      .ok Sample.fullRow.snapshot ∧
    ∃ s, (torrentSystem Sample.codec).Reach (fun _ _ => True) s ∧
      (∀ info, s.infoDict = some info → info.Scannable) ∧ ¬ NoPieceStuck s := by
  refine ⟨(TorrentSnapshot.validate_ok_iff _ _).2 Sample.fullRow.valid, by rfl, _,
    Sample.reach_step (.restoreSnapshot Sample.fullRow) (.init (Sample.init_fromFile .inFile))
      trivial rfl, ?_, ?_⟩
  · intro info hinfo
    cases hinfo
    exact ⟨by decide, by decide, by decide⟩
  · refine mt TorrentActor.blockLeft_of_noPieceStuck (TorrentActor.not_blockLeft_of_sticksPiece rfl
      ⟨Sample.info, rfl, _, List.mem_singleton_self _, ?_⟩)
    rintro ⟨j, hj, hclear⟩
    have hzero : j = 0 := by
      have hblocks : divCeil (Sample.info.pieceLen 0) blockSize = 1 := by decide
      change j < divCeil (Sample.info.pieceLen 0) blockSize at hj
      omega
    subst hzero
    cases hclear

end Runs

end Tortillas
